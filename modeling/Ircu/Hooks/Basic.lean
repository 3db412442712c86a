import Ircu.Chattr
import Ircu.Deadline.Basic
import Ircu.Heap.Edit
import Ircu.Ledger.Docket
import Ircu.Run.Basic

/-!
The hooks of `hooks.c`: callbacks that modules register, the runs of a chain of hooks, and the
operations that a hook holds until it answers.

Callbacks run on a stack. What they call are the events up to the one that lets them return, so
hooks are registered and removed, chains are run and holds come and go while a chain is being
walked. Reading or freeing a record that has been freed before has no result.

The owner's name and the pointer for the callback are left out of the records, and so are log
messages; that a record is read for one is not. Behind the state stand the runs that have come
to an end, with the hooks that they called, and the ledger of holds.
-/

namespace Ircu.Hooks

open Ledger

/-! ### State -/

inductive HookType
  | clientPreRegister
  | clientRegistered
  | clientPreNick
  | clientNickChanged
  | clientPreUmode
  | clientExiting
  | channelPreCreate
  | channelPreJoin
  | channelJoined
  | channelPrePart
  | channelParted
  | channelPreMode
  | channelPreTopic
  | channelDestroyed
  | messagePreChannel
  | messagePrePrivate
  | messageReceived
  | messageDelivered
  | serverLinked
  | serverSplit
  | commandPre
  | commandPost
  | configLoaded
  deriving DecidableEq

instance : Fintype HookType where
  elems :=
    {.clientPreRegister, .clientRegistered, .clientPreNick, .clientNickChanged, .clientPreUmode,
      .clientExiting, .channelPreCreate, .channelPreJoin, .channelJoined, .channelPrePart,
      .channelParted, .channelPreMode, .channelPreTopic, .channelDestroyed, .messagePreChannel,
      .messagePrePrivate, .messageReceived, .messageDelivered, .serverLinked, .serverSplit,
      .commandPre, .commandPost, .configLoaded}
  complete t := by cases t <;> decide

def HookType.isCommand : HookType → Bool
  | commandPre | commandPost => true
  | _ => false

inductive HookResult
  | cont
  | allow
  | deny
  | pending
  deriving DecidableEq

def HOOK_PENDING_MAX : ℕ := 16384

def HOOK_COMMAND_MAX_DEPTH : ℕ := 8

/-- `hook_token_t` is an `unsigned long`. -/
def TOKENS : ℕ := 2 ^ 64

structure Hook (M F : Type) where
  mod : M
  fn : F
  priority : ℤ
  dead : Bool
  cmd : Option (List UInt8)
  flags : ℕ

structure HookChain (M F : Type) where
  chain : Roster (Hook M F)
  count : ℤ
  calls : ℕ

/-- `struct HookPending`. A completion `K` stands for the function and its argument. -/
structure HookPending (M C K : Type) where
  token : ℕ
  type : HookType
  mod : M
  client : Option C
  deadline : ℤ
  done : K

/-- Which function runs the chain: `hook_run`, `hook_run_suspendable` or `hook_run_command`. -/
inductive Kind (C K : Type)
  | plain
  | suspendable (token : ℕ) (client : Option C) (done : K) (deadline : ℤ)
  | command (cmd : List UInt8) (fromService connected : Bool)

/-- A run of a chain: the next address when it began, the hooks that it has called, as they were,
and what they answered, the last first. -/
structure Dispatch (M F C K : Type) where
  type : HookType
  kind : Kind C K
  start : ℕ
  calls : List (ℕ × Hook M F)
  answers : List HookResult

/-- What goes on after a completion: nothing, the rest of the loop of `hook_pending_expire` or
that of `hook_pending_drop_module`. -/
inductive After (M : Type)
  | resumed
  | expiring (now : ℤ)
  | unloading (mod : M)

/-- What is running: the hook that a run of a chain stands on, or the completion of a hold. -/
inductive Frame (M F C K : Type)
  | hook (d : Dispatch M F C K) (h : ℕ)
  | completion (done : K) (after : After M)

inductive Value
  | int (n : ℤ)
  | result (r : HookResult)

abbrev Answer := HookResult × Option (List UInt8)

/-- The clock; the chains, the depth of runs and whether there are dead hooks; the holds, their
counter and the last token; the time the timer is set for; and what is running, the innermost
first. -/
structure World (M F C K : Type) where
  now : ℤ
  hooks : HookType → HookChain M F
  depth : ℕ
  commandDepth : ℕ
  reapPending : Bool
  holds : Roster (HookPending M C K)
  pendingNum : ℕ
  lastToken : ℕ
  armed : Option ℤ
  stack : List (Frame M F C K)
  returned : List Value
  finished : List (Dispatch M F C K)
  book : List (Posting (Option C) Answer C)

variable {M F C K : Type}

def World.init (now : ℤ) : World M F C K where
  now
  hooks := fun _ => ⟨.empty, 0, 0⟩
  depth := 0
  commandDepth := 0
  reapPending := false
  holds := .empty
  pendingNum := 0
  lastToken := 0
  armed := none
  stack := []
  returned := []
  finished := []
  book := []

variable (w : World M F C K)

def World.give (v : Value) : World M F C K :=
  { w with returned := v :: w.returned }

def World.setChain (t : HookType) (c : HookChain M F) : World M F C K :=
  { w with hooks := Function.update w.hooks t c }

/-! ### Registration -/

/-- No type stands for a number that is none. -/
def hookAddFull (mod : M) (type : Option HookType) (fn : F) (priority : ℤ)
    (cmd : Option (List UInt8)) (flags : ℕ) : Option (World M F C K) :=
  match type with
  | none => some (w.give (.int 0))
  | some t =>
    let c := w.hooks t
    let hook : Hook M F := { mod, fn, priority, dead := false, cmd, flags }
    (c.chain.insert (fun h => priority < h.priority) hook).map fun chain =>
      (w.setChain t { c with chain, count := c.count + 1 }).give (.int 1)

def hookAdd (mod : M) (type : Option HookType) (fn : F) (priority : ℤ) :
    Option (World M F C K) :=
  if type.any HookType.isCommand then some (w.give (.int 0))
  else hookAddFull w mod type fn priority none 0

def commandName (cmd : Option (List UInt8)) : Option (List UInt8) := cmd.filter (· ≠ [])

def hookAddCommand (mod : M) (type : Option HookType)
    (cmd : Option (List UInt8)) (fn : F) (priority : ℤ) (flags : ℕ) : Option (World M F C K) :=
  if type.any HookType.isCommand then
    hookAddFull w mod type fn priority (commandName cmd) flags
  else some (w.give (.int 0))

def Hook.kill (h : Hook M F) : Hook M F := { h with dead := true }

/-- The first hook of a kind is removed: marked while chains are being run, and freed otherwise. -/
def deleteFirst (t : HookType) (kind : Hook M F → Bool) :
    Option (World M F C K) :=
  let c := w.hooks t
  if w.depth ≠ 0 then
    (c.chain.find kind).bind fun
      | none => some (w.give (.int 0))
      | some a =>
        (c.chain.revise a Hook.kill).map fun chain =>
          ({ w with reapPending := true }.setChain t
            { c with chain, count := c.count - 1 }).give (.int 1)
  else
    (c.chain.take fun _ h => kind h).bind fun
      | (_, none) => some (w.give (.int 0))
      | (chain, some a) =>
        (chain.release a).map fun chain =>
          (w.setChain t { c with chain, count := c.count - 1 }).give (.int 1)

def sameCommand : Option (List UInt8) → Option (List UInt8) → Bool
  | none, none => true
  | some a, some b => sameText a b
  | _, _ => false

def hookDelCommand [DecidableEq M] [DecidableEq F] (w : World M F C K) (mod : M)
    (type : Option HookType) (cmd : Option (List UInt8)) (fn : F) : Option (World M F C K) :=
  match type.filter HookType.isCommand with
  | none => some (w.give (.int 0))
  | some t => deleteFirst w t fun h =>
    h.fn = fn && h.mod = mod && !h.dead && sameCommand (commandName cmd) h.cmd

def hookDel [DecidableEq M] [DecidableEq F] (w : World M F C K) (mod : M)
    (type : Option HookType) (fn : F) : Option (World M F C K) :=
  match type with
  | none => some (w.give (.int 0))
  | some t => deleteFirst w t fun h => h.fn = fn && h.mod = mod && !h.dead

def everyType {α : Type} (f : HookType → Option α) : Option (HookType → α) :=
  if h : ∀ t, (f t).isSome then some fun t => (f t).get (h t) else none

def hookReap : Option (World M F C K) :=
  if w.reapPending = false then some w
  else
    (everyType fun t => (w.hooks t).chain.prune Hook.dead).map fun chains =>
      { w with
        hooks := fun t => { w.hooks t with chain := (chains t).1 }
        reapPending := false }

/-! ### Holds -/

def hookPendingDeadline : Option ℤ :=
  w.holds.fold (fun e hp => Deadline.sooner e hp.deadline) 0

def hookPendingArm : Option (World M F C K) :=
  match w.armed with
  | some _ => some w
  | none => (hookPendingDeadline w).map fun e => { w with armed := Deadline.arm none e }

def hookPendingFind (token : ℕ) : Option (Option ℕ) :=
  w.holds.find fun hp => hp.token = token

def hookTokenNew : Option ℕ :=
  Token.seek TOKENS (fun token => (hookPendingFind w token).map Option.isSome)
    (w.pendingNum + 2) w.lastToken

def hookPendingFree (a : ℕ) : Option (World M F C K) :=
  (w.holds.remove a).map fun (holds, found) =>
    { w with holds, pendingNum := if found then w.pendingNum - 1 else w.pendingNum }

def complete (a : ℕ) (answer : Answer) (after : After M) :
    Option (World M F C K) :=
  (w.holds.get a).bind fun hp =>
    (hookPendingFree w a).map fun w =>
      { w with
        stack := .completion hp.done after :: w.stack
        book := .settled a answer :: w.book }

def hookPendingRefuse (a : ℕ) (reason : List UInt8) (after : After M) :
    Option (World M F C K) :=
  complete w a (.deny, some reason) after

/-- A turn of the loop of `hook_pending_expire`, and the rest of `hook_pending_timeout`. -/
def hookPendingExpire (now : ℤ) : Option (World M F C K) :=
  (w.holds.find fun hp => hp.deadline ≤ now).bind fun
    | none => hookPendingArm w
    | some a => hookPendingRefuse w a (str "Timed out waiting for a module") (.expiring now)

/-- `hook_pending_timeout`, when the timer has expired. -/
def hookPendingTimeout : Option (World M F C K) :=
  hookPendingExpire { w with armed := none } w.now

def hookPendingCancel [DecidableEq C] (w : World M F C K) (client : Option C) :
    Option (World M F C K) :=
  match client with
  | none => some w
  | some c =>
    (w.holds.sweep fun hp => hp.client = some c).map fun (holds, gone) =>
      { w with
        holds
        pendingNum := w.pendingNum - gone.length
        book := (gone.map fun x => .dropped x.1 c).reverse ++ w.book }

/-- The second half of `hook_del_module`. -/
def removeHooks [DecidableEq M] (w : World M F C K) (mod : M) : Option (World M F C K) :=
  let mine (h : Hook M F) : Bool := h.mod = mod
  (everyType fun t =>
    let chain := (w.hooks t).chain
    if w.depth ≠ 0 then chain.reviseAll mine Hook.kill else chain.prune mine).map fun turns =>
      { w with
        hooks := fun t =>
          { w.hooks t with
            chain := (turns t).1
            count := (w.hooks t).count - ((turns t).2.countP fun x => !x.2.dead : ℕ) }
        reapPending := w.reapPending || (w.depth ≠ 0 && decide (∃ t, (turns t).2 ≠ [])) }

/-- A turn of the loop of `hook_pending_drop_module`, and the rest. -/
def hookDelModule [DecidableEq M] (w : World M F C K) (mod : M) : Option (World M F C K) :=
  (w.holds.find fun hp => hp.mod = mod).bind fun
    | none => removeHooks w mod
    | some a =>
      hookPendingRefuse w a (str "The module deciding this was unloaded") (.unloading mod)

def hookResume (token : ℕ) (answer : Answer) : Option (World M F C K) :=
  (hookPendingFind w token).bind fun
    | none => some (w.give (.int 0))
    | some a => complete w a answer .resumed

def completed [DecidableEq M] (w : World M F C K) : After M → Option (World M F C K)
  | .resumed => some (w.give (.int 1))
  | .expiring now => hookPendingExpire w now
  | .unloading mod => hookDelModule w mod

/-! ### Runs of a chain -/

def Kind.wants (kind : Kind C K) (h : Hook M F) : Bool :=
  !h.dead &&
    match kind with
    | .command cmd fromService _ =>
      h.cmd.all (fun name => sameText name cmd) && (!fromService || h.flags.testBit 0)
    | _ => true

def Kind.decides : Kind C K → HookResult → Bool
  | .suspendable _ _ _ _, r => r ≠ .cont
  | _, r => r ≠ .cont && r ≠ .pending

variable (type : HookType)

/-- The operation is held: the end of `hook_run_suspendable`. The hook is read when the chain has
been reaped. -/
def suspend (h token : ℕ) (client : Option C) (done : K)
    (deadline : ℤ) : Option (World M F C K) :=
  ((w.hooks type).chain.get h).bind fun hook =>
    if HOOK_PENDING_MAX ≤ w.pendingNum then some (w.give (.result .deny))
    else
      (hookPendingArm
        { w with
          holds := w.holds.push { token, type, mod := hook.mod, client, deadline, done }
          pendingNum := w.pendingNum + 1
          book := .opened w.holds.next client :: w.book }).map fun w => w.give (.result .pending)

variable (d : Dispatch M F C K)

/-- What a run returns, when it stopped at the hook `h` or at none. -/
def conclude (result : HookResult) (h : Option ℕ) :
    Option (World M F C K) :=
  match d.kind, h with
  | .suspendable token client done deadline, some h =>
    if result = .pending then suspend w d.type h token client done deadline
    else some (w.give (.result result))
  | .command _ _ connected, _ =>
    let denied := result = .deny ∧ d.type = .commandPre ∧ connected = true
    some (w.give (.result (if denied then .deny else .cont)))
  | _, _ => some (w.give (.result result))

def unwind : World M F C K :=
  { w with
    depth := w.depth - 1
    commandDepth :=
      match d.kind with
      | .command _ _ _ => w.commandDepth - 1
      | _ => w.commandDepth
    finished := d :: w.finished }

/-- The rest of `hook_run`, `hook_run_suspendable` or `hook_run_command` behind the loop. -/
def finish (result : HookResult) (h : Option ℕ) :
    Option (World M F C K) :=
  let w := unwind w d
  (if w.depth = 0 then hookReap w else some w).bind fun w => conclude w d result h

def arrive : Option ℕ → Option (World M F C K)
  | none => finish w d .cont none
  | some a =>
    ((w.hooks d.type).chain.get a).map fun hook =>
      { w with stack := .hook { d with calls := (a, hook) :: d.calls } a :: w.stack }

def answered (h : ℕ) (result : HookResult) :
    Option (World M F C K) :=
  let d := { d with answers := result :: d.answers }
  if d.kind.decides result then finish w d result (some h)
  else ((w.hooks d.type).chain.findAfter d.kind.wants h).bind (arrive w d)

def launch (kind : Kind C K) : Option (World M F C K) :=
  let c := w.hooks type
  let w := { w with depth := w.depth + 1 }.setChain type { c with calls := c.calls + 1 }
  (c.chain.find kind.wants).bind
    (arrive w { type, kind, start := c.chain.next, calls := [], answers := [] })

def hookRun : Option (World M F C K) :=
  launch w type .plain

def hookRunSuspendable (client : Option C) (done : K)
    (deadline : ℤ) : Option (World M F C K) :=
  if (w.hooks type).count = 0 then some (w.give (.result .cont))
  else
    (hookTokenNew w).bind fun token =>
      launch { w with lastToken := token } type (.suspendable token client done deadline)

def hookRunCommand (cmd : List UInt8)
    (fromService connected : Bool) : Option (World M F C K) :=
  if type.isCommand = false then none
  else if (w.hooks type).count = 0 ∨ HOOK_COMMAND_MAX_DEPTH ≤ w.commandDepth then
    some (w.give (.result .cont))
  else
    launch { w with commandDepth := w.commandDepth + 1 } type (.command cmd fromService connected)

/-! ### Events -/

inductive Event (M F C K : Type)
  | add (mod : M) (type : Option HookType) (fn : F) (priority : ℤ)
  | addCommand (mod : M) (type : Option HookType) (cmd : Option (List UInt8)) (fn : F)
      (priority : ℤ) (flags : ℕ)
  | del (mod : M) (type : Option HookType) (fn : F)
  | delCommand (mod : M) (type : Option HookType) (cmd : Option (List UInt8)) (fn : F)
  | unload (mod : M)
  | run (type : HookType)
  | runSuspendable (type : HookType) (client : Option C) (done : K) (deadline : ℤ)
  | runCommand (type : HookType) (cmd : List UInt8) (fromService connected : Bool)
  | answer (result : HookResult)
  | completed
  | resume (token : ℕ) (result : HookResult) (reason : Option (List UInt8))
  | clientExit (client : Option C)
  | fire
  | tick (now : ℤ)

/-- One event: a call of one of the functions, from outside or from a callback; the innermost
hook answers, or the innermost completion returns; the timer expires, or the clock is set. -/
def step [DecidableEq M] [DecidableEq F] [DecidableEq C] (w : World M F C K) :
    Event M F C K → Option (World M F C K)
  | .add mod type fn priority => hookAdd w mod type fn priority
  | .addCommand mod type cmd fn priority flags => hookAddCommand w mod type cmd fn priority flags
  | .del mod type fn => hookDel w mod type fn
  | .delCommand mod type cmd fn => hookDelCommand w mod type cmd fn
  | .unload mod => hookDelModule w mod
  | .run type => hookRun w type
  | .runSuspendable type client done deadline => hookRunSuspendable w type client done deadline
  | .runCommand type cmd fromService connected => hookRunCommand w type cmd fromService connected
  | .answer result =>
    match w.stack with
    | .hook d h :: stack => answered { w with stack } d h result
    | _ => none
  | .completed =>
    match w.stack with
    | .completion _ after :: stack => Hooks.completed { w with stack } after
    | _ => none
  | .resume token result reason => hookResume w token (result, reason)
  | .clientExit client => hookPendingCancel w client
  | .fire => hookPendingTimeout w
  | .tick now => some { w with now }

def Frame.isHook : Frame M F C K → Bool
  | .hook _ _ => true
  | .completion _ _ => false

/-- What the surroundings keep to: what returns has been called, only commands are run as
commands, and the timer expires in the event loop. -/
def Possible : Event M F C K → Prop
  | .answer _ => w.stack.head?.any Frame.isHook
  | .completed => w.stack.head?.any fun f => !f.isHook
  | .runCommand type _ _ _ => type.isCommand
  | .fire => w.stack = []
  | .tick now => 0 < now
  | _ => True

/-- A hook that holds an operation has not been removed, if no other chain is being run. -/
def Registered : Event M F C K → Prop
  | .answer .pending =>
    w.depth = 1 → ∀ d h, w.stack.head? = some (.hook d h) → d.kind.decides .pending →
      ∀ hook, (w.hooks d.type).chain.get h = some hook → hook.dead = false
  | _ => True

end Ircu.Hooks
