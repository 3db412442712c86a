import Ircu.Cidr.Addr
import Ircu.Heap.Basic

/-!
The CIDR tree of `cidr_lookups.c`, as it is laid out in memory.

A node is a cell of a heap and a pointer is its address; a null pointer is
`none`. Following a pointer that is not live, and a failed assertion, end a
function without a result. The loops are run for at most `maxDepth` turns, which
is more than there are nodes on a path from a root down.
-/

namespace Ircu

abbrev Ptr := ℕ

structure CidrNode (D : Type) where
  ip : InAddr
  bits : ℕ
  parent : Option Ptr := none
  l : Option Ptr := none
  r : Option Ptr := none
  data : Option D

namespace CidrNode

variable {D : Type}

/-- `turn_right ? n->r : n->l`. -/
def child (n : CidrNode D) (turnRight : Bool) : Option Ptr := if turnRight then n.r else n.l

/-- Writing through `turn_right ? &n->r : &n->l`. -/
def setChild (n : CidrNode D) (turnRight : Bool) (p : Option Ptr) : CidrNode D :=
  if turnRight then { n with r := p } else { n with l := p }

end CidrNode

/-- `cidr_root_node`, together with the memory its nodes are in. -/
structure CidrTree (D : Type) where
  heap : Heap (CidrNode D)
  ipv4 : Ptr
  ipv6 : Ptr

namespace CidrTree

variable {D : Type}

/-- A path from a root down has at most 129 nodes. -/
def maxDepth : ℕ := 130

/-- The address `::ffff:0:0`, which `ipmask_parse` reads in `0.0.0.0/0`. -/
def v4Base : InAddr := mapped 0 0

/-- The address `::`. -/
def v6Base : InAddr := ⟨fun _ => 0⟩

/-- `_cidr_create_node`: the node that is put into a new cell. -/
def createNode (ip : InAddr) (bits : ℕ) (data : Option D) : CidrNode D := { ip, bits, data }

def newTree : CidrTree D where
  heap := (Heap.empty.alloc (createNode v4Base 96 none)).alloc (createNode v6Base 0 none)
  ipv4 := 0
  ipv6 := 1

variable (t : CidrTree D)

def root (ip : InAddr) : Ptr := if isIpv4 ip then t.ipv4 else t.ipv6

/-! ### Lookups -/

/-- The loop of `cidr_get_closest_data_parent`, at `tmp_node`. -/
def dataParentLoop (h : Heap (CidrNode D)) : ℕ → Option Ptr → Option (Option Ptr)
  | _, none => some none
  | 0, some _ => none
  | k + 1, some p => do
      let n ← h.cell p
      if n.data.isSome then some (some p) else dataParentLoop h k n.parent

def closestDataParent (h : Heap (CidrNode D)) (n : CidrNode D) : Option (Option Ptr) :=
  dataParentLoop h maxDepth n.parent

/-- The loop of `_cidr_find_node`, at the node `p` and the bit `i`. -/
def findLoop (h : Heap (CidrNode D)) (ip : InAddr) (bits isExact : ℕ) :
    ℕ → Ptr → ℕ → Option (Option Ptr)
  | 0, _, _ => none
  | k + 1, p, i => do
      let n ← h.cell p
      let i := bitDiff n.ip ip i (if n.bits < bits then n.bits else bits)
      let turnRight := if i < 128 then getBit ip i else false
      if ¬ (i ≤ n.bits ∧ i ≤ bits) then none
      else if i = n.bits then
        if i = bits then
          if n.data.isSome ∨ isExact = 2 then some (some p)
          else if isExact ≠ 0 then some none
          else closestDataParent h n
        else
          match n.child turnRight with
          | none =>
            if isExact ≠ 0 then some none
            else if n.data.isNone then closestDataParent h n
            else some (some p)
          | some c => if i ≤ 128 then findLoop h ip bits isExact k c i else none
      else if isExact = 0 then closestDataParent h n
      else some none

variable (ip : InAddr)

def findNode (bits isExact : ℕ) : Option (Option Ptr) := do
  let n ← t.heap.cell (t.root ip)
  if n.bits ≤ 128 then findLoop t.heap ip bits isExact maxDepth (t.root ip) n.bits else none

/-! ### Insertion -/

/-- Writing through `child_pptr`, which is the address of a child field or null. -/
def storeChild (h : Heap (CidrNode D)) (childPptr : Option (Ptr × Bool)) (p : Option Ptr) :
    Option (Heap (CidrNode D)) :=
  match childPptr with
  | none => none
  | some (q, b) => h.store q (·.setChild b p)

/-- The case of `cidr_add_node` in which `n` gets a new parent, at the bit `i`. -/
def addAbove (h : Heap (CidrNode D)) (ip : InAddr) (bits : ℕ) (data : Option D) (p : Ptr)
    (n : CidrNode D) (i : ℕ) (turnRight : Bool) (childPptr : Option (Ptr × Bool)) :
    Option (Heap (CidrNode D) × Ptr) := do
  let newNode := h.next
  let h := h.alloc (createNode ip bits data)
  if i = bits then
    -- insert this node as n's parent
    let h ← h.store newNode ({ · with parent := n.parent })
    let h ← storeChild h childPptr (some newNode)
    let h ← h.store p ({ · with parent := some newNode })
    let h ← h.store newNode (·.setChild (getBit n.ip i) (some p))
    return (h, newNode)
  else
    -- insert virtual node above both new node and n
    let virtualNode := h.next
    let h := h.alloc (createNode ip i none)
    let h ← h.store virtualNode ({ · with parent := n.parent })
    let h ← storeChild h childPptr (some virtualNode)
    let h ← h.store p ({ · with parent := some virtualNode })
    let h ← h.store newNode ({ · with parent := some virtualNode })
    let h ← h.store virtualNode fun v =>
      { v with l := if turnRight then some p else some newNode
               r := if turnRight then some newNode else some p }
    return (h, newNode)

/-- The loop of `cidr_add_node`, at the node `p` and the bit `i`. -/
def addLoop (h : Heap (CidrNode D)) (ip : InAddr) (bits : ℕ) (data : Option D) :
    ℕ → Ptr → ℕ → Option (Ptr × Bool) → Option (Heap (CidrNode D) × Ptr)
  | 0, _, _, _ => none
  | k + 1, p, i, childPptr => do
      let n ← h.cell p
      let i := bitDiff n.ip ip i (if n.bits < bits then n.bits else bits)
      let turnRight := if i < 128 then getBit ip i else false
      if ¬ (i ≤ n.bits ∧ i ≤ bits) then none
      else if i = n.bits then
        if i = bits then
          let h ← h.store p ({ · with data })
          return (h, p)
        else
          match n.child turnRight with
          | none =>
            let newNode := h.next
            let h := h.alloc (createNode ip bits data)
            let h ← h.store newNode ({ · with parent := some p })
            let h ← h.store p (·.setChild turnRight (some newNode))
            return (h, newNode)
          | some c => if i < 128 then addLoop h ip bits data k c i (some (p, turnRight)) else none
      else addAbove h ip bits data p n i turnRight childPptr

/-- `cidr_add_node`: the tree afterwards and the node it returns. -/
def addNode (bits : ℕ) (data : Option D) :
    Option (CidrTree D × Ptr) := do
  let (heap, p) ← addLoop t.heap ip bits data maxDepth (t.root ip) 0 none
  return ({ t with heap }, p)

/-! ### Removal -/

/-- Put `c` into the place of the child `p` of `q`. -/
def replaceChild (h : Heap (CidrNode D)) (q p : Ptr) (c : Option Ptr) :
    Option (Heap (CidrNode D)) :=
  h.store q fun m => if m.l = some p then { m with l := c } else { m with r := c }

/-- `_cidr_collapse_node`: the heap afterwards and the return value. -/
def collapseNode (h : Heap (CidrNode D)) (p : Ptr) : Option (Heap (CidrNode D) × ℕ) := do
  let n ← h.cell p
  if n.data.isSome then none
  else
    match n.parent with
    | none => return (h, 0)
    | some q =>
      match n.l, n.r with
      | some _, some _ => return (h, 0)
      | some c, none | none, some c =>
        let h ← h.store c ({ · with parent := some q })
        let h ← replaceChild h q p (some c)
        return (h.free p, 1)
      | none, none =>
        let h ← replaceChild h q p none
        let m ← h.cell q
        match m.data, m.parent with
        | none, some g =>
          -- the parent was a virtual node and has one child left
          match if m.l.isSome then m.l else m.r with
          | none => none
          | some s =>
            let h ← replaceChild h g q (some s)
            let h ← h.store s ({ · with parent := some g })
            return ((h.free q).free p, 1)
        | _, _ => return (h.free p, 1)

def remNode (node : Option Ptr) : Option (CidrTree D × ℕ) :=
  match node with
  | none => some (t, 0)
  | some p => do
      let n ← t.heap.cell p
      if n.data.isNone then return (t, 0)
      else
        let h ← t.heap.store p ({ · with data := none })
        let (heap, _) ← collapseNode h p
        return ({ t with heap }, 1)

def remNodeByCidr (nbits : ℕ) : Option (CidrTree D × ℕ) := do
  let node ← t.findNode ip nbits 1
  t.remNode node

def remEmptyNode (node : Option Ptr) : Option (CidrTree D × ℕ) :=
  match node with
  | none => some (t, 0)
  | some p => do
      let n ← t.heap.cell p
      if n.data.isSome then return (t, 0)
      else
        let (heap, r) ← collapseNode t.heap p
        return ({ t with heap }, r)

/-- `node->data = data`, as the users of the tree write it. -/
def setData (p : Ptr) (data : Option D) : Option (CidrTree D) := do
  let heap ← t.heap.store p ({ · with data })
  return { t with heap }

end CidrTree

end Ircu
