import Ircu.Ipmask
import Ircu.Match.Basic

/-!
G-lines: `make_gline`, `gline_free` and `gline_lookup` of `gline.c`.

User G-lines with an address mask of one family hang on the nodes of a CIDR
tree, all others on `GlobalGlineList`; bad channels have a list of their own. A
list is a Lean list here, and a G-line knows through `prevP` which list it is
linked into. A G-line is its record together with its address `id`.

Reading a null or a dangling pointer and a failed assertion end a function
without a result. Every iteration over a list also drops the G-lines whose record
has expired and deactivates those whose expiration time has come, as the macro
`gliter` does.
-/

namespace Ircu

/-! ### The records -/

inductive GlineLocalState
  | global
  | activated
  | deactivated
deriving DecidableEq

def GLINE_ACTIVE : BitVec 32 := 0x0001
def GLINE_IPMASK : BitVec 32 := 0x0002
def GLINE_BADCHAN : BitVec 32 := 0x0004
def GLINE_LOCAL : BitVec 32 := 0x0008
def GLINE_GLOBAL : BitVec 32 := 0x0100
def GLINE_LASTMOD : BitVec 32 := 0x0200
def GLINE_REALNAME : BitVec 32 := 0x0800

/-- The flags that can be set on an actual G-line. -/
def GLINE_MASK : BitVec 32 := GLINE_ACTIVE ||| GLINE_BADCHAN ||| GLINE_LOCAL ||| GLINE_REALNAME

inductive GlList
  | badChan
  | global
  | node (p : Ptr)
deriving DecidableEq

structure Gline where
  id : ℕ
  /-- The list that `gl_prev_p` leads back to. -/
  prevP : GlList
  user : List UInt8
  host : Option (List UInt8)
  expire : ℤ
  lastmod : ℤ
  lifetime : ℤ
  addr : InAddr
  bits : ℕ
  flags : BitVec 32
  state : GlineLocalState

namespace Gline

variable (g : Gline)

def isActive : Bool :=
  (g.flags &&& GLINE_ACTIVE ≠ 0 ∧ g.state ≠ .deactivated) ∨ g.state = .activated

def isIpMask : Bool := g.flags &&& GLINE_IPMASK ≠ 0

def isRealName : Bool := g.flags &&& GLINE_REALNAME ≠ 0

def isBadChan : Bool := g.flags &&& GLINE_BADCHAN ≠ 0

def isLocal : Bool := g.flags &&& GLINE_LOCAL ≠ 0

def onTree : Bool := g.isIpMask && ipmaskIsSingleFamily g.addr g.bits

end Gline

/-- The variables `GlobalGlineList`, `GlobalIpMaskPTree` and `BadChanGlineList`, and
the next free address. -/
structure GlineState where
  global : List Gline
  tree : Option (CidrTree (List Gline))
  badChan : List Gline
  nextId : ℕ

namespace GlineState

def init : GlineState := ⟨[], none, [], 0⟩

variable (s : GlineState)

/-- The list at a head. A null `data` pointer is the empty list. -/
def getList : GlList → Option (List Gline)
  | .badChan => some s.badChan
  | .global => some s.global
  | .node p => do
      let t ← s.tree
      let n ← t.heap.cell p
      return n.data.getD []

/-- Writing to a list. The empty list is a null `data` pointer. -/
def setList (l : List Gline) : GlList → Option GlineState
  | .badChan => some { s with badChan := l }
  | .global => some { s with global := l }
  | .node p => do
      let t ← s.tree
      let t ← t.setData p (if l = [] then none else some l)
      return { s with tree := some t }

/-! ### Making and freeing -/

/-- The arguments of `make_gline`, without the reason. -/
structure Args where
  user : List UInt8
  host : Option (List UInt8)
  expire : ℤ
  lastmod : ℤ
  lifetime : ℤ
  flags : BitVec 32

/-- The record that `make_gline` fills, before it is linked. `mem` is what the
allocated memory has in place of `gl_bits`, which `ipmask_parse` may leave
unwritten. There is no result when a null host would be copied. -/
def newGline (a : Args) (mem : ℕ) : Option Gline :=
  let gline : Gline :=
    { id := s.nextId, prevP := .global, user := a.user, host := none, expire := a.expire
      lastmod := a.lastmod, lifetime := a.lifetime, addr := CidrTree.v6Base, bits := mem
      flags := a.flags &&& GLINE_MASK, state := .global }
  if a.flags &&& GLINE_BADCHAN ≠ 0 then some { gline with prevP := .badChan }
  else if a.user.head? = some (ch '$') then some gline
  else
    match a.host with
    | none => none
    | some host =>
      match ipmaskParse host true with
      | none => some { gline with host := some host }
      | some m =>
        some { gline with host := some host, addr := m.addr, bits := m.bits.getD mem
                          flags := gline.flags ||| GLINE_IPMASK }

/-- The node of the tree for an address mask: `_cidr_find_exact_node`, and
`cidr_add_node` if there is none. -/
def treeNode (t : CidrTree (List Gline)) (addr : InAddr) (bits : ℕ) :
    Option (CidrTree (List Gline) × Ptr) := do
  match ← t.findNode addr bits 1 with
  | some p => return (t, p)
  | none => t.addNode addr bits none

def makeGline (a : Args) (mem : ℕ) : Option (GlineState × Gline) := do
  if a.expire = 0 then none
  else
    let gline ← s.newGline a mem
    let s := { s with nextId := s.nextId + 1 }
    if gline.onTree then
      let (t, p) ← treeNode (s.tree.getD CidrTree.newTree) gline.addr gline.bits
      let s := { s with tree := some t }
      let gline := { gline with prevP := .node p }
      let l ← s.getList (.node p)
      return (← s.setList (gline :: l) (.node p), gline)
    else
      let l ← s.getList gline.prevP
      return (← s.setList (gline :: l) gline.prevP, gline)

def glineFree (gline : Gline) : Option GlineState := do
  let l ← s.getList gline.prevP
  let s ← s.setList (l.filter (·.id ≠ gline.id)) gline.prevP
  match s.tree with
  | none => return s
  | some t =>
    if gline.onTree then
      match ← t.findNode gline.addr gline.bits 2 with
      | none => return s
      | some p =>
        let n ← t.heap.cell p
        if n.data.isNone then
          let (t, _) ← t.remEmptyNode (some p)
          return { s with tree := some t }
        else return s
    else return s

/-! ### Iterating -/

def ONE_MONTH : ℤ := 30 * 24 * 3600

/-- The condition under which `gliter` frees a record. -/
def recordExpired (now : ℤ) (g : Gline) : Bool :=
  g.lifetime ≤ now ∨ (g.expire < now - ONE_MONTH ∧ g.lastmod < now - ONE_MONTH)

/-- What `gliter` makes of a G-line whose expiration time has come. -/
@[simps] def expireGline (g : Gline) : Gline :=
  { g with flags := g.flags &&& ~~~GLINE_ACTIVE, state := .global }

/-- The head of `gliter`: the state, and the G-line for the body unless it has been
freed. -/
def gliterHead (now : ℤ) (s : GlineState) (gl : Gline) : Option (GlineState × Option Gline) := do
  if recordExpired now gl then return (← s.glineFree gl, none)
  else if gl.expire > now then return (s, some gl)
  else
    let l ← s.getList gl.prevP
    let s ← s.setList (l.map fun g => if g.id = gl.id then expireGline g else g) gl.prevP
    return (s, some (expireGline gl))

/-- `gliter` over what is left of a list. The body says whether it returns the
G-line, and has no result when an assertion fails in it. -/
def gliter (now : ℤ) (body : Gline → Option Bool) :
    List Gline → GlineState → Option (GlineState × Option Gline)
  | [], s => some (s, none)
  | gl :: next, s => do
      let (s, cur) ← gliterHead now s gl
      match cur with
      | none => gliter now body next s
      | some gl =>
        if ← body gl then return (s, some gl)
        else gliter now body next s

/-! ### Lookups -/

/-- What `gline_lookup` reads of a client. -/
structure Client where
  ip : InAddr
  username : List UInt8
  realhost : List UInt8
  info : List UInt8

def skip (flags : BitVec 32) (gl : Gline) : Bool :=
  (flags &&& GLINE_GLOBAL ≠ 0 ∧ gl.isLocal) ∨ (flags &&& GLINE_LASTMOD ≠ 0 ∧ gl.lastmod = 0)

def treeBody (cptr : Client) (flags : BitVec 32) (gl : Gline) : Option Bool := do
  if skip flags gl then return false
  else if (← ircMatch gl.user cptr.username) ≠ 0 then return false
  else if ¬ gl.isIpMask ∨ ipmaskCheck cptr.ip gl.addr gl.bits = 0 then none
  else return gl.isActive

/-- The body of the loop over `GlobalGlineList`. -/
def listBody (cptr : Client) (flags : BitVec 32) (gl : Gline) : Option Bool := do
  if skip flags gl then return false
  else if gl.isRealName then
    -- `gl_user + 2` has to be inside the string
    if gl.user.length < 2 then none
    else if (← ircMatch (gl.user.drop 2) cptr.info) ≠ 0 then return false
    else return gl.isActive
  else if (← ircMatch gl.user cptr.username) ≠ 0 then return false
  else if gl.isIpMask then
    if ipmaskCheck cptr.ip gl.addr gl.bits = 0 then return false else return gl.isActive
  else
    if (← ircMatch (← gl.host) cptr.realhost) ≠ 0 then return false
    else return gl.isActive

/-- The loop of `gliterIpMask`, at `node`. -/
def ipMaskLoop (now : ℤ) (body : Gline → Option Bool) :
    ℕ → Option Ptr → GlineState → Option (GlineState × Option Gline)
  | _, none, s => some (s, none)
  | 0, some _, _ => none
  | k + 1, some p, s => do
      let t ← s.tree
      let n ← t.heap.cell p
      let parent ← CidrTree.closestDataParent t.heap n
      let (s, found) ← gliter now body (n.data.getD []) s
      match found with
      | some gl => return (s, some gl)
      | none => ipMaskLoop now body k parent s

/-- `tree ? cidr_search_best(tree, ip, nbits) : 0`. -/
def searchBest (s : GlineState) (ip : InAddr) (nbits : ℕ) : Option (Option Ptr) :=
  match s.tree with
  | none => some none
  | some t => t.findNode ip nbits 0

def glineLookup (now : ℤ) (s : GlineState) (cptr : Client) (flags : BitVec 32) :
    Option (GlineState × Option Gline) := do
  let node ← s.searchBest cptr.ip 128
  let (s, found) ← ipMaskLoop now (treeBody cptr flags) CidrTree.maxDepth node s
  match found with
  | some gl => return (s, some gl)
  | none => gliter now (listBody cptr flags) s.global s

end GlineState

end Ircu
