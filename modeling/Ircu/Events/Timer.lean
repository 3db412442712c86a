import Ircu.Link.Basic
import Ircu.Run.Basic

/-!
The timers of `ircd_events.c`: `timer_add`, `timer_del`, `timer_chg` and `timer_run`.

Active timers wait on a queue that is sorted by the time of their expiry. `timer_run` takes
the timers off the queue that are due and calls them back; the callback may add, delete
and change timers, this one included. While a timer is called back because it has expired
it is marked, and what is asked for it is put off until the callback has returned.

A callback that is running is a frame of the stack; the calls it makes are the events up to
the one that lets it return. There is no result if an assertion fails.
-/

namespace Ircu.Events

open Link

/-! ### State -/

inductive TimerType
  | absolute
  | relative
  | periodic
  deriving DecidableEq

inductive EventType
  | expire
  | destroy
  deriving DecidableEq

/-- The flags of a timer: `GEN_ACTIVE`, `GEN_MARKED` and `GEN_READD`. -/
structure Flags where
  active : Bool
  marked : Bool
  readd : Bool
  deriving DecidableEq

/-- `struct Timer`, without its links. -/
structure Timer where
  flags : Flags
  type : TimerType
  value : ℤ
  expire : ℤ

/-- A callback that is running: for a timer that expired, or for one that is destroyed, by
`timer_run` or by `timer_del`. -/
inductive Frame (ι : Type*)
  | expiring (t : ι)
  | destroying (t : ι) (inRun : Bool)
  deriving DecidableEq

def Frame.inRun {ι : Type*} : Frame ι → Bool
  | expiring _ => true
  | destroying _ inRun => inRun

/-- The clock, the queue and the timers; the callbacks that are running, the innermost one
first; the events so far, the last one first; and how often a timer has been queued. -/
structure World (ι : Type*) where
  now : ℤ
  queue : Links ι
  timer : ι → Timer
  stack : List (Frame ι)
  log : List (EventType × ι)
  queued : ℕ

def World.init {ι : Type*} (now : ℤ) : World ι where
  now
  queue := Links.empty
  timer := fun _ => ⟨⟨false, false, false⟩, .absolute, 0, 0⟩
  stack := []
  log := []
  queued := 0

variable {ι : Type*} [DecidableEq ι] (w : World ι) (t : ι)

def World.update (f : Timer → Timer) : World ι :=
  { w with timer := fun s => if s = t then f (w.timer s) else w.timer s }

def World.setFlags (f : Flags → Flags) : World ι :=
  w.update t fun tm => { tm with flags := f tm.flags }

/-- `timer_run` is being executed. -/
def World.Running : Prop := ∃ f ∈ w.stack, f.inRun = true

/-! ### The code -/

/-- The loop of `timer_enqueue` that looks for the place of a timer. It cannot take more turns
than timers have been queued. -/
def findPlace (L : Links ι) (expire : ι → ℤ) (e : ℤ) : ℕ → Place ι → Option (Place ι)
  | 0, _ => none
  | fuel + 1, p =>
    match L.read p with
    | none => some p
    | some s => if e < expire s then some p else findPlace L expire e fuel (some s)

def expiry (now : ℤ) (tm : Timer) : ℤ :=
  match tm.type with
  | .absolute => tm.value
  | .relative | .periodic => tm.value + now

def timerEnqueue : Option (World ι) :=
  if w.queue.prev t ≠ none ∨ (w.timer t).flags.active = false then none
  else
    let e := expiry w.now (w.timer t)
    let w := w.update t fun tm => { tm with expire := e }
    match findPlace w.queue (fun s => (w.timer s).expire) e (w.queued + 1) none with
    | none => none
    | some p => some { w with queue := w.queue.insertAt p t, queued := w.queued + 1 }

def genDequeue : World ι := { w with queue := w.queue.unlink t }

/-- `event_generate` and `event_execute`, as far as the call of the callback. -/
def eventGenerate (type : EventType) (t : ι) (frame : Frame ι) : Option (World ι) :=
  if (w.timer t).flags.active = false then none
  else
    let w := match type with
      | .expire => w
      | .destroy => w.setFlags t fun f => { f with active := false }
    some { w with log := (type, t) :: w.log, stack := frame :: w.stack }

def timerAdd (type : TimerType) (value : ℤ) : Option (World ι) :=
  let w := w.update t fun tm =>
    { flags := { tm.flags with active := true, readd := tm.flags.readd || tm.flags.marked }
      type, value, expire := 0 }
  if (w.timer t).flags.marked then some w else timerEnqueue w t

def timerDel : Option (World ι) :=
  let w := w.setFlags t fun f => { f with readd := false }
  if (w.timer t).flags.marked then some w
  else eventGenerate (genDequeue w t) .destroy t (.destroying t false)

def timerChg (type : TimerType) (value : ℤ) : Option (World ι) :=
  if value = 0 ∨ (w.timer t).type = .periodic ∨ type = .periodic then none
  else
    let w := w.update t fun tm => { tm with type, value, expire := 0 }
    if (w.timer t).flags.marked then some (w.setFlags t fun f => { f with readd := true })
    else timerEnqueue (genDequeue w t) t

/-- The head of the loop of `timer_run`, up to the callback of a timer that is due. -/
def runLoop : Option (World ι) :=
  match w.queue.head with
  | none => some w
  | some t =>
    if w.now < (w.timer t).expire then some w
    else
      let periodic := (w.timer t).type = .periodic
      let w := (genDequeue w t).setFlags t fun f =>
        { f with marked := true, readd := f.readd || periodic }
      eventGenerate w .expire t (.expiring t)

/-- The callback that was called last returns, to `timer_del` or to the loop of
`timer_run`. -/
def returns : Option (World ι) :=
  match w.stack with
  | [] => none
  | .destroying _ false :: stack => some { w with stack }
  | .destroying _ true :: stack => runLoop { w with stack }
  | .expiring t :: stack =>
    let w := World.setFlags { w with stack } t fun f => { f with marked := false }
    if (w.timer t).flags.readd = false then eventGenerate w .destroy t (.destroying t true)
    else
      (timerEnqueue w t).bind fun w => runLoop (w.setFlags t fun f => { f with readd := false })

/-- What happens: a call of one of the functions, from outside or from a callback that is
running; the clock is set; the callback returns. -/
inductive Call (ι : Type*)
  | add (t : ι) (type : TimerType) (value : ℤ)
  | del (t : ι)
  | chg (t : ι) (type : TimerType) (value : ℤ)
  | tick (now : ℤ)
  | run
  | ret

/-- One event. `timer_run` is called by the event loop, outside of all callbacks. -/
def step : Call ι → Option (World ι)
  | .add t type value => timerAdd w t type value
  | .del t => timerDel w t
  | .chg t type value => timerChg w t type value
  | .tick now => some { w with now }
  | .run => if w.stack = [] then runLoop w else none
  | .ret => returns w

/-- What the assertions ask of a caller: a timer that is added is not on the queue, unless it
is marked; one that is deleted or changed is active; a timer is not changed from or to a
periodic one, or to the value 0. -/
def Allowed : Call ι → Prop
  | .add t _ _ => (w.timer t).flags.marked = true ∨ w.queue.prev t = none
  | .del t => (w.timer t).flags.active = true
  | .chg t type value =>
    (w.timer t).flags.active = true ∧ value ≠ 0 ∧ (w.timer t).type ≠ .periodic ∧
      type ≠ .periodic
  | .tick _ => True
  | .run => w.stack = []
  | .ret => w.stack ≠ []

end Ircu.Events
