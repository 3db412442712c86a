import Ircu.Chattr
import Ircu.Deadline.Basic
import Ircu.Ledger.Docket
import Ircu.Run.Basic

/-!
The requests of `http.c`: what the transport hands to the modules, until it is answered.

A request that a route was found for is a record on the list `http_calls`. It is answered by
its handler, at once or through `http_respond`, or by the deadline (`http_expire`); the
transport is told to let it go when the module is unloaded (`http_drop_module`), and it is
dropped without a word when the transport goes (`http_clear_transport`).

Handlers run on a stack, and what they call are the events up to the one that lets them return.
Reading or freeing a record that has been freed before has no result. What a handler writes
into the response of its own call is not followed: it is sent as the call's own response.
-/

namespace Ircu.Http

open Ledger

/-! ### State -/

def HTTP_METHOD_MAX : ℕ := 15

def HTTP_PATH_MAX : ℕ := 255

def HTTP_ROUTES_MAX : ℕ := 64

def HTTP_TIMEOUT_DEFAULT_MS : ℤ := 5000

def HTTP_TIMEOUT_MAX_MS : ℤ := 30000

/-- `http_last_id` is an `unsigned long`. -/
def ULONG_RANGE : ℕ := 2 ^ 64

/-- `struct HttpRoute`; the handler stands together with its opaque pointer. -/
structure Route (M H : Type) where
  mod : M
  method : List UInt8
  path : List UInt8
  isDir : Bool
  fn : H

/-- `struct HttpCall`, without its link and its response. -/
structure HttpCall (M P : Type) where
  id : ℕ
  pid : P
  mod : M
  deadline : ℤ

/-- The response that is sent: the one of the call, another one, or a mere status. -/
inductive Response (ρ : Type)
  | own
  | given (res : ρ)
  | status (n : ℕ)

/-- What the transport is told: `ht_respond` or `ht_cancel`. -/
inductive Reply (ρ : Type)
  | respond (res : Response ρ)
  | cancel

/-- The clock, the timeout, whether there is a transport, the routes, the calls and their counter,
the time the timer is set for, and the calls whose handlers are running, the innermost first; then
the values returned and the ledger of calls. -/
structure World (M H P ρ : Type) where
  now : ℤ
  timeout : ℤ
  transport : Bool
  routes : List (Route M H)
  calls : Roster (HttpCall M P)
  lastId : ℕ
  count : ℤ
  armed : Option ℤ
  stack : List ℕ
  returned : List ℤ
  book : List (Posting P (Reply ρ) Unit)

variable {M H P ρ : Type}

def World.init (now timeout : ℤ) : World M H P ρ where
  now
  timeout
  transport := false
  routes := []
  calls := .empty
  lastId := 0
  count := 0
  armed := none
  stack := []
  returned := []
  book := []

/-! ### Routes -/

variable (w : World M H P ρ)

def httpRouteExact (method path : List UInt8) : Option (Route M H) :=
  w.routes.find? fun r => sameText r.method method && r.path == path

def httpRouteCount [DecidableEq M] (w : World M H P ρ) (mod : M) : ℕ :=
  w.routes.countP fun r => r.mod = mod

def httpAddRoute [DecidableEq M] (w : World M H P ρ) (mod : M) (method path : List UInt8) (fn : H) :
    World M H P ρ :=
  if method = [] ∨ path.head? ≠ some (ch '/') ∨ HTTP_METHOD_MAX < method.length ∨
      HTTP_PATH_MAX < path.length ∨ (httpRouteExact w method path).isSome ∨
      HTTP_ROUTES_MAX ≤ httpRouteCount w mod then
    { w with returned := 0 :: w.returned }
  else
    { w with
      routes := { mod, method, path, isDir := path.getLast? = some (ch '/'), fn } :: w.routes
      returned := 1 :: w.returned }

def httpDelRoute [DecidableEq M] (w : World M H P ρ) (mod : M) (method path : List UInt8) :
    World M H P ρ :=
  let mine (r : Route M H) : Bool := r.mod = mod && sameText r.method method && r.path == path
  { w with
    routes := w.routes.eraseP mine
    returned := (if w.routes.any mine then 1 else 0) :: w.returned }

def routeFindFrom (method path : List UInt8) :
    List (Route M H) → Option (Route M H) → ℕ → Option (Route M H)
  | [], best, _ => best
  | r :: routes, best, bestlen =>
    if ¬ sameText r.method method then routeFindFrom method path routes best bestlen
    else if r.path = path then some r
    else if r.isDir = false then routeFindFrom method path routes best bestlen
    else if r.path.isPrefixOf path = false then routeFindFrom method path routes best bestlen
    else if bestlen < r.path.length then routeFindFrom method path routes (some r) r.path.length
    else routeFindFrom method path routes best bestlen

def httpRouteFind (method path : List UInt8) : Option (Route M H) :=
  routeFindFrom method path w.routes none 0

/-! ### Calls -/

def httpTimeoutMs : ℤ :=
  let ms := if w.timeout ≤ 0 then HTTP_TIMEOUT_DEFAULT_MS else w.timeout
  if HTTP_TIMEOUT_MAX_MS < ms then HTTP_TIMEOUT_MAX_MS else ms

def httpDeadline : Option ℤ :=
  w.calls.fold (fun e call => Deadline.sooner e call.deadline) 0

def httpTimerArm : Option (World M H P ρ) :=
  match w.armed with
  | some _ => some w
  | none => (httpDeadline w).map fun e => { w with armed := Deadline.arm none e }

def closing (a : ℕ) (reply : Reply ρ) : Posting P (Reply ρ) Unit :=
  if w.transport then .settled a reply else .dropped a ()

/-- A call that is not linked any more is replied to and freed, as in `http_finish`. -/
def httpFinish (a : ℕ) (reply : Reply ρ) : Option (World M H P ρ) :=
  (w.calls.release a).map fun calls =>
    { w with calls, count := w.count - 1, book := closing w a reply :: w.book }

/-- A call is taken off the list, if there is one of the kind, and replied to. The result says
whether there was one. -/
def takeAndReply (kind : HttpCall M P → Bool) (reply : Reply ρ) :
    Option (World M H P ρ × Bool) :=
  (w.calls.take fun _ call => kind call).bind fun
    | (calls, none) => some ({ w with calls }, false)
    | (calls, some a) => (httpFinish { w with calls } a reply).map fun w => (w, true)

def httpRespond (id : ℕ) (res : Option ρ) : Option (World M H P ρ) :=
  (takeAndReply w (fun call => call.id = id) (.respond ((res.map .given).getD .own))).map Prod.fst

/-- The loop of `http_expire`, and the rest of `http_timeout`. -/
def expireLoop (now : ℤ) : ℕ → World M H P ρ → Option (World M H P ρ)
  | 0, _ => none
  | fuel + 1, w =>
    match takeAndReply w (fun call => call.deadline ≤ now) (.respond (.status 504)) with
    | none => none
    | some (w, false) => httpTimerArm w
    | some (w, true) => expireLoop now fuel w

/-- `http_timeout`, when the timer has expired. -/
def httpTimeout : Option (World M H P ρ) :=
  let w := { w with armed := none }
  expireLoop w.now w.calls.turns w

def newDeadline : ℤ := w.now + (httpTimeoutMs w + 999) / 1000

def httpDispatch (method path : List UInt8) (pid : P) : World M H P ρ :=
  if w.transport = false then { w with returned := -1 :: w.returned }
  else
    match httpRouteFind w method path with
    | none => { w with returned := -1 :: w.returned }
    | some route =>
      let id := (w.lastId + 1) % ULONG_RANGE
      let call : HttpCall M P := { id, pid, mod := route.mod, deadline := newDeadline w }
      { w with
        calls := w.calls.push call
        lastId := id
        count := w.count + 1
        stack := w.calls.next :: w.stack
        book := .opened w.calls.next pid :: w.book }

/-- The rest of `http_dispatch`, for the call at the address `a`. -/
def dispatched (a : ℕ) (done : Bool) : Option (World M H P ρ) :=
  if done then
    (w.calls.get a).bind fun call =>
      (takeAndReply w (fun c => c.id = call.id) (.respond .own)).map fun (w, _) =>
        { w with returned := 0 :: w.returned }
  else (httpTimerArm w).map fun w => { w with returned := 1 :: w.returned }

def httpDropModule [DecidableEq M] (w : World M H P ρ) (mod : M) : Option (World M H P ρ) :=
  (w.calls.prune fun call => call.mod = mod).map fun (calls, gone) =>
    { w with
      routes := w.routes.filter fun r => r.mod ≠ mod
      calls
      count := w.count - gone.length
      book := (gone.map fun x => closing w x.1 .cancel).reverse ++ w.book }

def httpSetTransport : World M H P ρ :=
  if w.transport then { w with returned := 0 :: w.returned }
  else { w with transport := true, returned := 1 :: w.returned }

def httpClearTransport : Option (World M H P ρ) :=
  if w.transport = false then some w
  else
    (w.calls.prune fun _ => true).map fun (calls, gone) =>
      { w with
        transport := false
        calls
        count := w.count - gone.length
        book := (gone.map fun x => .dropped x.1 ()).reverse ++ w.book }

/-! ### Events -/

inductive Event (M H P ρ : Type)
  | addRoute (mod : M) (method path : List UInt8) (fn : H)
  | delRoute (mod : M) (method path : List UInt8)
  | dispatch (method path : List UInt8) (pid : P)
  | ret (done : Bool)
  | respond (id : ℕ) (res : Option ρ)
  | fire
  | unload (mod : M)
  | setTransport
  | clearTransport
  | configure (timeout : ℤ)
  | tick (now : ℤ)

/-- One event: a call of one of the functions, from outside or from a handler; the innermost
handler returns; the timer expires, the feature is set or the clock. -/
def step [DecidableEq M] (w : World M H P ρ) : Event M H P ρ → Option (World M H P ρ)
  | .addRoute mod method path fn => some (httpAddRoute w mod method path fn)
  | .delRoute mod method path => some (httpDelRoute w mod method path)
  | .dispatch method path pid => some (httpDispatch w method path pid)
  | .ret done =>
    match w.stack with
    | [] => none
    | a :: stack => dispatched { w with stack } a done
  | .respond id res => httpRespond w id res
  | .fire => httpTimeout w
  | .unload mod => httpDropModule w mod
  | .setTransport => some (httpSetTransport w)
  | .clearTransport => httpClearTransport w
  | .configure timeout => some { w with timeout }
  | .tick now => some { w with now }

/-- What the surroundings keep to: the timer expires in the event loop, and a handler returns
only when it has been called. -/
def Possible : Event M H P ρ → Prop
  | .ret _ => w.stack ≠ []
  | .fire => w.stack = []
  | .tick now => 0 < now
  | _ => True

/-- A handler that returns non-zero has not had its own call released. -/
def Held : Event M H P ρ → Prop
  | .ret true => ∀ a ∈ w.stack.head?, (w.calls.get a).isSome
  | _ => True

end Ircu.Http
