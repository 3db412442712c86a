import Ircu.Ledger.Basic
import Ircu.Run.Basic

/-!
The worker pool of `worker.c`: tasks that threads of the pool execute, and whose results the main
thread delivers.

A task that is accepted is pending, then running, then ready. `worker_drain` takes all ready tasks
off their queue at once and delivers them one after the other, without the mutex;
`worker_cancel_module` takes the tasks of a module off the queues, waits for those that are
running and discards them. What happens under the mutex is one step. The main thread's own calls
stand on a stack, as `wt_done` and `wt_free` are called in the middle of them and may do anything
that the main thread may do.

Only what the pool does while it is up is modelled. Threads with a loop of their own come in as
what they post; the wake-up pipe, the stall warnings and the log are left out. Behind the state
stand the calls of `wt_work`, `wt_done` and `wt_free` in their order, and the ledger of tasks.
-/

namespace Ircu.Worker

open Ledger

/-! ### State -/

/-- `struct WorkTask`: who owns it, and whether it has a `wt_done` and a `wt_free`. Tasks are told
apart by the order in which they were accepted. -/
structure WorkTask (M : Type) where
  id : ℕ
  owner : Option M
  hasDone : Bool
  hasFree : Bool
  deriving DecidableEq

inductive Phase
  | done
  | free

/-- What the main thread is in the middle of: delivering a batch, with the number of tasks that it
is through with; waiting for the running tasks of a module, or discarding tasks of it. -/
inductive Frame (M : Type)
  | drain (cur : WorkTask M) (phase : Phase) (rest : List (WorkTask M)) (delivered : ℕ)
  | waiting (mod : M) (dropped : List (WorkTask M))
  | freeing (mod : M) (cur : WorkTask M) (dropped : List (WorkTask M))

/-- A function of a task is called, or `worker_cancel_module` returns. -/
inductive Note (M : Type)
  | work (id : ℕ) (owner : Option M)
  | done (id : ℕ) (owner : Option M)
  | free (id : ℕ) (owner : Option M)
  | cancelled (mod : M)
  deriving DecidableEq

/-- Whether tasks are taken and how many; the queues and the counters; what the main thread is in
the middle of, the innermost first; and what has happened. -/
structure World (M : Type) where
  enabled : Bool
  queueMax : ℕ
  pending : List (WorkTask M)
  running : List (WorkTask M)
  ready : List (WorkTask M)
  outstanding : ℤ
  submitted : ℕ
  completed : ℕ
  rejected : ℕ
  next : ℕ
  stack : List (Frame M)
  returned : List ℕ
  log : List (Note M)
  book : List (Posting (Option M) Unit M)

variable {M : Type}

def World.init (enabled : Bool) (queueMax : ℕ) : World M where
  enabled
  queueMax
  pending := []
  running := []
  ready := []
  outstanding := 0
  submitted := 0
  completed := 0
  rejected := 0
  next := 0
  stack := []
  returned := []
  log := []
  book := []

/-! ### Submitting -/

variable (w : World M) (owner : Option M)

/-- `task_accept`, and what makes a task known: its number and the ledger. -/
def taskAccept (hasDone hasFree : Bool) :
    World M × Option (WorkTask M) :=
  if w.queueMax ≤ w.outstanding then
    ({ w with rejected := w.rejected + 1, returned := 0 :: w.returned }, none)
  else
    ({ w with
        outstanding := w.outstanding + 1
        submitted := w.submitted + 1
        next := w.next + 1
        returned := 1 :: w.returned
        book := .opened w.next owner :: w.book },
      some { id := w.next, owner, hasDone, hasFree })

def workerSubmitOwned (hasDone hasFree : Bool) : World M :=
  if w.enabled = false then { w with returned := 0 :: w.returned }
  else
    match taskAccept w owner hasDone hasFree with
    | (w, none) => w
    | (w, some task) => { w with pending := w.pending ++ [task] }

/-- `worker_post`, and what `worker_log` does. -/
def workerPost (hasDone hasFree : Bool) : World M :=
  match taskAccept w owner hasDone hasFree with
  | (w, none) => w
  | (w, some task) => { w with ready := w.ready ++ [task] }

/-! ### Threads of the pool -/

/-- A thread of the pool takes a task and calls its `wt_work`. -/
def poolTake : World M :=
  match w.pending with
  | [] => w
  | task :: pending =>
    { w with
      pending
      running := task :: w.running
      log := .work task.id task.owner :: w.log }

/-- A `wt_work` has returned. -/
def poolFinish (id : ℕ) : Option (World M) :=
  (w.running.find? fun task => task.id = id).map fun task =>
    { w with
      running := w.running.eraseP fun task => task.id = id
      ready := w.ready ++ [task] }

/-! ### Delivering -/

def callFree (w : World M) (task : WorkTask M) (frame : Frame M) : World M :=
  { w with stack := frame :: w.stack, log := .free task.id task.owner :: w.log }

/-- The loop of `worker_drain`, up to a `wt_done` or a `wt_free`, and the rest of it. -/
def drainLoop (w : World M) : List (WorkTask M) → ℕ → World M
  | [], delivered =>
    { w with
      outstanding := w.outstanding - delivered
      completed := w.completed + delivered
      returned := delivered :: w.returned }
  | task :: rest, delivered =>
    let w := { w with book := .settled task.id () :: w.book }
    if task.hasDone then
      { w with
        stack := .drain task .done rest delivered :: w.stack
        log := .done task.id task.owner :: w.log }
    else if task.hasFree then callFree w task (.drain task .free rest delivered)
    else drainLoop w rest (delivered + 1)

def workerDrain : World M := drainLoop { w with ready := [] } w.ready 0

/-! ### Cancelling -/

def owned [DecidableEq M] (mod : M) (tasks : List (WorkTask M)) : List (WorkTask M) :=
  tasks.filter fun task => task.owner = some mod

def foreign [DecidableEq M] (mod : M) (tasks : List (WorkTask M)) : List (WorkTask M) :=
  tasks.filter fun task => task.owner ≠ some mod

/-- The tasks that `worker_cancel_module` has taken off the queues are discarded, up to a
`wt_free`. -/
def cancelLoop (mod : M) (w : World M) : List (WorkTask M) → World M
  | [] => { w with log := .cancelled mod :: w.log }
  | task :: dropped =>
    let w := { w with book := .dropped task.id mod :: w.book }
    if task.hasFree then callFree w task (.freeing mod task dropped)
    else cancelLoop mod w dropped

def workerCancelModule [DecidableEq M] (w : World M) (mod : M) : World M :=
  { w with
    pending := foreign mod w.pending
    outstanding := w.outstanding - (owned mod w.pending).length
    stack := .waiting mod (owned mod w.pending).reverse :: w.stack }

def lastSweep [DecidableEq M] (w : World M) (mod : M) (dropped : List (WorkTask M)) : World M :=
  cancelLoop mod
    { w with
      pending := foreign mod w.pending
      ready := foreign mod w.ready
      outstanding := w.outstanding - ((owned mod w.pending).length + (owned mod w.ready).length) }
    ((owned mod w.ready).reverse ++ ((owned mod w.pending).reverse ++ dropped))

/-- The main thread goes on: a function of a task has returned, or it wakes up from the wait. -/
def proceed [DecidableEq M] (w : World M) : Option (World M) :=
  match w.stack with
  | [] => none
  | .drain task .done rest delivered :: stack =>
    let w := { w with stack }
    some (if task.hasFree then callFree w task (.drain task .free rest delivered)
      else drainLoop w rest (delivered + 1))
  | .drain _ .free rest delivered :: stack => some (drainLoop { w with stack } rest (delivered + 1))
  | .waiting mod dropped :: stack =>
    if (owned mod w.running).isEmpty then some (lastSweep { w with stack } mod dropped)
    else some w
  | .freeing mod _ dropped :: stack => some (cancelLoop mod { w with stack } dropped)

/-! ### Events -/

inductive Event (M : Type)
  | submit (owner : Option M) (hasDone hasFree : Bool)
  | post (owner : Option M) (hasDone hasFree : Bool)
  | take
  | finish (id : ℕ)
  | drain
  | cancel (mod : M)
  | proceed
  | configure (enabled : Bool) (queueMax : ℕ)

/-- One event, in any thread: tasks are submitted or posted; a thread of the pool takes a task or is
through with one; the main thread calls `worker_drain` or `worker_cancel_module`, or goes on in
one; the features are set. -/
def step [DecidableEq M] (w : World M) : Event M → Option (World M)
  | .submit owner hasDone hasFree => some (workerSubmitOwned w owner hasDone hasFree)
  | .post owner hasDone hasFree => some (workerPost w owner hasDone hasFree)
  | .take => some (poolTake w)
  | .finish id => poolFinish w id
  | .drain => some (workerDrain w)
  | .cancel mod => some (workerCancelModule w mod)
  | .proceed => proceed w
  | .configure enabled queueMax => some { w with enabled, queueMax }

def Frame.isWaiting : Frame M → Bool
  | .waiting _ _ => true
  | _ => false

/-- What is possible: a task that returns was running, the main thread goes on only in what it was
in the middle of, and it calls nothing while it waits. -/
def Possible : Event M → Prop
  | .finish id => ∃ task ∈ w.running, task.id = id
  | .drain | .cancel _ => w.stack.head?.all fun f => !f.isWaiting
  | .proceed => w.stack ≠ []
  | _ => True

def Frame.tasks : Frame M → List (WorkTask M)
  | .drain cur _ rest _ => cur :: rest
  | .waiting _ dropped => dropped
  | .freeing _ cur dropped => cur :: dropped

def Spared (mod : M) (tasks : List (WorkTask M)) : Prop := ∀ task ∈ tasks, task.owner ≠ some mod

/-- A module is cancelled only when none of its tasks is in a batch that is being delivered or
discarded, and it submits nothing once its tasks have been taken off the queues. -/
def Clear : Event M → Prop
  | .cancel mod => Spared mod (w.stack.flatMap Frame.tasks)
  | .submit owner _ _ | .post owner _ _ =>
    ∀ mod, owner = some mod →
      .cancelled mod ∉ w.log ∧ ∀ cur dropped, .freeing mod cur dropped ∉ w.stack
  | _ => True

end Ircu.Worker
