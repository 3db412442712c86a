import Ircu.Chattr
import Ircu.Relay.Basic

/-!
Module transactions of `module_sync.c`.

A server that is asked to load, unload or reload a module coordinates a two-phase commit of all
servers. `coord` is what it coordinates and `part` what it takes part in, its own transactions
included; there is one timer for both. Preparing a load is the load itself, and likewise for a
reload; an unload is not made before the commit.

Every server keeps a record of its transactions, which the source has in its log only: `deals` has
the tables of modules before and after, and `outcomes` how the transactions ended that the server
coordinated. The announcements of module sets are left out, which can only make a link break.

* `partPrepare`, `partCommit`, `partRollback`: what a transaction does to the table of modules;
* `program`: what servers do, and `allowed`: when they give up waiting.
-/

namespace Ircu.Modsync

/-! ### The table of modules -/

inductive ModSyncOp
  | load
  | unload
  | reload
  deriving DecidableEq

/-- A loaded module: the name it was loaded by, the name it declares, and whether it has a process
of its own. -/
structure ModuleHandle where
  file : List UInt8
  name : List UInt8
  isolated : Bool
  deriving DecidableEq

/-- What there is to load on a server: the reason why a name is refused, if it is, and what comes of
opening the module, the name it declares or a reason. -/
structure Library where
  resolve : List UInt8 → Option (List UInt8)
  start : List UInt8 → Bool → Except (List UInt8) (List UInt8)

variable (mods : List ModuleHandle) (name : List UInt8)

def moduleFind : Option ModuleHandle :=
  mods.find? fun mod => mod.name.map toLower = name.map toLower

def moduleFindFile : Option ModuleHandle :=
  mods.find? fun mod => mod.file = name

def moduleNamed : Option ModuleHandle :=
  (moduleFindFile mods name).or (moduleFind mods name)

def moduleLoadIsolation (lib : Library) (mods : List ModuleHandle) (name : List UInt8)
    (process : Bool) : Except (List UInt8) (List ModuleHandle) :=
  match lib.resolve name with
  | some err => .error err
  | none =>
    if (moduleFindFile mods name).isSome then .error (str "module is already loaded")
    else
      match lib.start name process with
      | .error err => .error err
      | .ok info =>
        if (moduleFind mods info).isSome then
          .error (str "a module named " ++ info ++ str " is already loaded")
        else .ok (⟨name, info, process⟩ :: mods)

def moduleUnload (mod : ModuleHandle) : List ModuleHandle :=
  mods.erase mod

/-! ### Transactions -/

def MODSYNC_NAME_LEN : ℕ := 64

def MODSYNC_REASON_LEN : ℕ := 256

/-- What is to be done, with what module, and where a load should run. -/
structure Order where
  op : ModSyncOp
  name : List UInt8
  process : Bool
  deriving DecidableEq

def Order.received (o : Order) : Order := { o with name := o.name.take (MODSYNC_NAME_LEN - 1) }

variable {σ : Type} [DecidableEq σ]

/-- A transaction: the server that coordinates it and the number it gave it. -/
structure Txid (σ : Type) where
  server : σ
  count : ℕ
  deriving DecidableEq

/-- What servers tell each other. `PREPARE`, `COMMIT` and `ABORT` are for all servers, `READY` and
`FAILED` for the coordinator. -/
inductive Message (σ : Type)
  | prepare (txid : Txid σ) (order : Order)
  | ready (txid : Txid σ)
  | failed (txid : Txid σ) (why : List UInt8)
  | commit (txid : Txid σ)
  | abort (txid : Txid σ) (why : List UInt8)
  deriving DecidableEq

structure Coord (σ : Type) where
  txid : Txid σ
  order : Order
  waiting : List σ
  failed : Bool
  reason : List UInt8
  deriving DecidableEq

structure Part (σ : Type) where
  txid : Txid σ
  order : Order
  undoLoad : Bool
  coordinator : σ
  deriving DecidableEq

/-- How a transaction that a server tried to prepare went on. -/
inductive Fate
  | refused
  | pending
  | settled (commit : Bool)
  deriving DecidableEq

/-- The record of such a transaction, with the table before it and the table it left. -/
structure Deal (σ : Type) where
  txid : Txid σ
  order : Order
  before : List ModuleHandle
  fate : Fate
  after : List ModuleHandle
  deriving DecidableEq

/-- The transactions of a server, the table of its modules and its records. -/
structure Core (σ : Type) where
  coord : Option (Coord σ)
  part : Option (Part σ)
  counter : ℕ
  modules : List ModuleHandle
  outcomes : List (Txid σ × Bool)
  deals : List (Deal σ)
  deriving DecidableEq

/-- A server, with the timer, the time and the two features that matter. -/
structure Server (σ : Type) extends Core σ where
  timer : Option ℕ
  now : ℕ
  sync : Bool
  seconds : ℤ
  deriving DecidableEq

/-- The servers of the network, in the order of the list of clients, with their names and with what
can be loaded there. -/
structure World (σ : Type) where
  servers : List σ
  nodup : servers.Nodup
  mem : ∀ v, v ∈ servers
  name : σ → List UInt8
  library : σ → Library

abbrev Outgoing (σ : Type) := List (Option σ × Message σ)

variable (s : Server σ)

def modsyncBusy : Bool := s.coord.isSome || s.part.isSome

def modsyncArm : Server σ :=
  { s with timer := some (s.now + (max 5 s.seconds).toNat) }

def modsyncDisarm : Server σ :=
  if s.coord.isNone && s.part.isNone then { s with timer := none } else s

/-! ### The participant -/

variable (W : World σ) (me : σ)

/-- The half of an operation that is done before the commit. The table of modules, and whether an
abort must unload the module, or a reason why the server is not ready. -/
def partPrepare (mods : List ModuleHandle) (order : Order) :
    List ModuleHandle × Except (List UInt8) Bool :=
  let fail (mods : List ModuleHandle) (why : List UInt8) :
      List ModuleHandle × Except (List UInt8) Bool :=
    (mods, .error (why.take (MODSYNC_REASON_LEN - 1)))
  match order.op with
  | .load =>
    if (moduleNamed mods order.name).isSome then
      fail mods (order.name ++ str ": already loaded on " ++ W.name me)
    else
      match moduleLoadIsolation (W.library me) mods order.name order.process with
      | .error err => fail mods (order.name ++ str ": " ++ err ++ str " on " ++ W.name me)
      | .ok mods => (mods, .ok true)
  | .unload =>
    if (moduleNamed mods order.name).isNone then
      fail mods (order.name ++ str ": not loaded on " ++ W.name me)
    else (mods, .ok false)
  | .reload =>
    match moduleNamed mods order.name with
    | none => fail mods (order.name ++ str ": not loaded on " ++ W.name me)
    | some mod =>
      -- it stays where it was running, and the name it was loaded by is copied into a buffer
      let file := mod.file.take (MODSYNC_NAME_LEN - 1)
      let mods := moduleUnload mods mod
      match moduleLoadIsolation (W.library me) mods file mod.isolated with
      | .error err =>
        fail mods
          (order.name ++ str ": unloaded but would not load again on " ++ W.name me ++
            str ": " ++ err)
      | .ok mods => (mods, .ok true)

def dropNamed (name : List UInt8) : List ModuleHandle :=
  match moduleNamed mods name with
  | some mod => moduleUnload mods mod
  | none => mods

def partCommit (order : Order) : List ModuleHandle :=
  if order.op = .unload then dropNamed mods order.name else mods

def partRollback (undoLoad : Bool) (order : Order) :
    List ModuleHandle :=
  if undoLoad then dropNamed mods order.name else mods

def partEnd (s : Server σ) : Server σ := modsyncDisarm { s with part := none }

variable (commit : Bool)

def closeDeal (mods : List ModuleHandle) : List (Deal σ) → List (Deal σ)
  | [] => []
  | d :: ds => { d with fate := .settled commit, after := mods } :: ds

def partSettle (s : Server σ) : Server σ :=
  match s.part with
  | none => s
  | some p =>
    let mods :=
      if commit then partCommit s.modules p.order
      else partRollback s.modules p.undoLoad p.order
    partEnd { s with modules := mods, deals := closeDeal commit mods s.deals }

/-! ### The coordinator -/

def coordCollectPeers : List σ := (W.servers.filter (· ≠ me)).reverse

def coordEnd (s : Server σ) : Server σ := modsyncDisarm { s with coord := none }

/-- The outcome is sent to all servers, and this server's own half is settled. -/
def coordFinish (c : Coord σ) (s : Server σ) : Server σ × Outgoing σ :=
  let message :=
    if commit then Message.commit c.txid
    else .abort c.txid (if c.reason = [] then str "aborted" else c.reason)
  let s := { s with outcomes := (c.txid, commit) :: s.outcomes }
  let s := if s.part.any (·.txid = c.txid) then partSettle commit s else s
  (coordEnd s, [(none, message)])

def coordSettle (c : Coord σ) (s : Server σ) : Server σ × Outgoing σ := coordFinish (!c.failed) c s

def coordFail (reason : List UInt8) (c : Coord σ) : Coord σ :=
  if c.failed then c
  else { c with failed := true, reason := reason.take (MODSYNC_REASON_LEN - 1) }

def coordHear (server : σ) (why : Option (List UInt8)) (c : Coord σ) : Coord σ :=
  let c := match why with
    | some why => coordFail why c
    | none => c
  { c with waiting := c.waiting.erase server }

/-! ### Entry points -/

/-- Nobody answered in time, on whichever side was waiting. -/
def modsyncTimerCb (s : Server σ) : Server σ × Outgoing σ :=
  match s.coord with
  | some c =>
    let who := (c.waiting.head?.map W.name).getD (str "a server") ++ str " did not answer"
    coordSettle (coordFail who c) s
  | none => (partSettle false s, [])

def openDeal (txid : Txid σ) (order : Order) (s : Server σ) :
    Server σ × Except (List UInt8) Bool :=
  let r := partPrepare W me s.modules order
  let fate := match r.2 with
    | .error _ => Fate.refused
    | .ok _ => .pending
  ({ s with modules := r.1, deals := ⟨txid, order, s.modules, fate, r.1⟩ :: s.deals }, r.2)

def modsyncBegin (op : ModSyncOp) (name : List UInt8) (process : Bool)
    (s : Server σ) : Server σ × Outgoing σ :=
  if modsyncBusy s || !s.sync then (s, [])
  else
    let count := (s.counter + 1) % 2 ^ 32
    let txid : Txid σ := ⟨me, count⟩
    let order : Order := ⟨op, name.take (MODSYNC_NAME_LEN - 1), process⟩
    let c : Coord σ := ⟨txid, order, coordCollectPeers W me, false, []⟩
    match openDeal W me txid order { s with counter := count } with
    | (s, .error _) => (coordEnd (partEnd s), [])
    | (s, .ok undoLoad) =>
      let s := { s with coord := some c, part := some ⟨txid, order, undoLoad, me⟩ }
      if c.waiting = [] then
        let r := coordSettle c s
        (r.1, (none, .prepare txid order) :: r.2)
      else (modsyncArm s, [(none, .prepare txid order)])

def recvPrepare (me sptr : σ) (txid : Txid σ) (order : Order) (s : Server σ) :
    Server σ × Outgoing σ :=
  if !s.sync then
    (s, [(some sptr, .failed txid (W.name me ++ str " does not synchronise modules"))])
  else if modsyncBusy s then
    (s, [(some sptr, .failed txid (str "another module transaction is in progress"))])
  else
    let order := order.received
    match openDeal W me txid order s with
    | (s, .error why) => (partEnd s, [(some sptr, .failed txid why)])
    | (s, .ok undoLoad) =>
      (modsyncArm { s with part := some ⟨txid, order, undoLoad, sptr⟩ },
        [(some sptr, .ready txid)])

/-- `READY`, or `FAILED` with a reason, from `sptr`. -/
def recvAnswer (sptr : σ) (txid : Txid σ) (why : Option (List UInt8)) (s : Server σ) :
    Server σ × Outgoing σ :=
  match s.coord with
  | none => (s, [])
  | some c =>
    if c.txid ≠ txid then (s, [])
    else
      let c := coordHear sptr why c
      if c.waiting = [] then coordSettle c { s with coord := some c }
      else (modsyncArm { s with coord := some c }, [])

def recvOutcome (txid : Txid σ) (s : Server σ) : Server σ × Outgoing σ :=
  if s.part.any (·.txid = txid) then (partSettle commit s, []) else (s, [])

/-- A message from `sptr`, which has been passed on already. -/
def modsyncRecv (s : Server σ) (sptr : σ) :
    Message σ → Server σ × Outgoing σ
  | .prepare txid order => recvPrepare W me sptr txid order s
  | .ready txid => recvAnswer sptr txid none s
  | .failed txid why => recvAnswer sptr txid (some why) s
  | .commit txid => recvOutcome true txid s
  | .abort txid _ => recvOutcome false txid s

/-! ### The network -/

/-- What happens to a server by itself: an operator asks for a transaction, the timer runs out, time
passes, or the features are set. -/
inductive Deed
  | begin (op : ModSyncOp) (name : List UInt8) (process : Bool)
  | expire
  | tick (n : ℕ)
  | configure (sync : Bool) (seconds : ℤ)
  deriving DecidableEq

def deed (s : Server σ) : Deed → Option (Server σ × Outgoing σ)
  | .begin op name process => some (modsyncBegin W me op name process s)
  | .expire =>
    if s.timer.any (· ≤ s.now) then some (modsyncTimerCb W { s with timer := none }) else none
  | .tick n => some ({ s with now := s.now + n }, [])
  | .configure sync seconds => some ({ s with sync := sync, seconds := seconds }, [])

def program : Relay.Program σ (Message σ) (Server σ) Deed where
  recv := modsyncRecv W
  act := deed W

/-- The coordinator of a prepared transaction knows that it fails. -/
def Failing (node : σ → Server σ) (p : Part σ) : Prop :=
  (node p.coordinator).coord.any (fun c => c.txid = p.txid && c.failed) = true ∨
    (p.txid, false) ∈ (node p.coordinator).outcomes

def IsWord (name : List UInt8) : Prop :=
  name ≠ [] ∧ ch ' ' ∉ name ∧ name.head? ≠ some (ch ':')

/-- A server gives up waiting for the outcome only if the coordinator knows that the transaction
fails. A transaction is about a module whose name is one word, and its number is a new one. -/
def allowed (node : σ → Server σ) (v : σ) : Deed → Prop
  | .begin _ name _ => IsWord name ∧ (node v).counter + 1 < 2 ^ 32
  | .expire => (node v).coord.isSome = true ∨ ∀ p, (node v).part = some p → Failing node p
  | .tick _ => True
  | .configure _ _ => True

structure Server.Idle (s : Server σ) : Prop where
  coord : s.coord = none
  part : s.part = none
  outcomes : s.outcomes = []
  deals : s.deals = []

end Ircu.Modsync
