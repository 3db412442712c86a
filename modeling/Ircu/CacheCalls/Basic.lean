import Ircu.Deadline.Basic
import Ircu.Ledger.Docket
import Ircu.Run.Basic

/-!
The calls of `cache.c`: what modules ask of the cache, until it is answered.

A call is a record on the list `cache_calls`. It is answered by the driver
(`cache_complete`), by the deadline (`cache_expire`), when the driver is withdrawn
(`cache_unregister_driver`) or when the driver refuses it, and it is dropped when the module
that asked is unloaded (`cache_drop_module`).

Start functions of the driver and callbacks of calls run on a stack, and what they call are
the events up to the one that lets them return. Reading or freeing a record that has been
freed before has no result. Log messages are left out.
-/

namespace Ircu.CacheCalls

open Ledger

/-! ### State -/

inductive CacheError
  | ok
  | unavailable
  | config
  | connect
  | timeout
  | tooBig
  | backend
  deriving DecidableEq

def CACHE_KEY_MAX : ℕ := 255

def CACHE_VALUE_MAX : ℕ := 65536

def CACHE_TTL_DEFAULT : ℤ := 300

def CACHE_TTL_MAX : ℤ := 86400

def CACHE_TIMEOUT_DEFAULT_MS : ℤ := 200

def CACHE_TIMEOUT_MAX_MS : ℤ := 2000

def CACHE_PENDING_MAX : ℕ := 8192

/-- `cache_id_t` is an `unsigned long`. -/
def ULONG : ℕ := 2 ^ 64

/-- `struct CacheCall`, without its link. A callback stands together with its opaque
pointer. -/
structure CacheCall (M F : Type) where
  id : ℕ
  fn : Option F
  owner : Option M
  deadline : ℤ
  key : List UInt8

/-- `struct CacheResult`; the value stands with its length. -/
structure CacheResult where
  code : CacheError
  key : List UInt8
  value : Option (List UInt8)
  hit : Bool
  message : Option (List UInt8)

/-- What the calls need of `struct CacheConf`. -/
structure CacheConf where
  keyStart : Option (List UInt8)
  timeoutMs : ℤ

/-- What a driver's `cdrv_cancel` does: it forgets the call, or it answers it then and there. The
call is still on the list. -/
inductive Cancel
  | forgets
  | answers
  deriving DecidableEq

/-- The registered driver: who registered it, and its `cdrv_cancel` if it has one. -/
structure Driver (M : Type) where
  owner : M
  cancel : Option Cancel

/-- What the driver is asked to do: `cdrv_get`, `cdrv_set` or `cdrv_del`. -/
inductive Ask
  | get
  | set (value : List UInt8) (ttl : ℤ)
  | del

inductive Sent
  | ask (id : ℕ) (key : List UInt8) (what : Ask)
  | cancel (id : ℕ)

/-- What goes on when a callback returns: a function returns a value, the driver is being
withdrawn (and a module unloaded after that), or calls are being expired. -/
inductive Cont (M : Type)
  | done (value : ℕ)
  | withdraw (unload : Option M)
  | expire (now : ℤ)

/-- What is running: the driver's start function for the call at an address, or a callback. -/
inductive Frame (M : Type)
  | starting (a id : ℕ)
  | answering (k : Cont M)

/-- The clock and the `Redis{}` block, the driver, the calls and the counters, the time the timer is
set for, what is running, the innermost first; then what the driver was told, the values returned
and the ledger of calls. -/
structure World (M F : Type) where
  now : ℤ
  conf : Option CacheConf
  driver : Option (Driver M)
  calls : Roster (CacheCall M F)
  lastId : ℕ
  pending : ℕ
  total : ℕ
  failed : ℕ
  hit : ℕ
  armed : Option ℤ
  stack : List (Frame M)
  sent : List Sent
  returned : List ℕ
  book : List (Posting (CacheCall M F) CacheResult M)

variable {M F : Type}

def World.init (now : ℤ) : World M F where
  now
  conf := none
  driver := none
  calls := .empty
  lastId := 0
  pending := 0
  total := 0
  failed := 0
  hit := 0
  armed := none
  stack := []
  sent := []
  returned := []
  book := []

variable (w : World M F)

def World.enter (f : Frame M) : World M F := { w with stack := f :: w.stack }

/-! ### Starting a call -/

def cacheFind (id : ℕ) : Option (Option ℕ) :=
  w.calls.find fun call => call.id = id

def cacheDeadline : Option ℤ :=
  w.calls.fold (fun e call => Deadline.sooner e call.deadline) 0

def cacheArm : Option (World M F) :=
  match w.armed with
  | some _ => some w
  | none => (cacheDeadline w).map fun e => { w with armed := Deadline.arm none e }

/-- The loop takes at most two turns more than there are calls. -/
def cacheNewId : Option ℕ :=
  Token.seek ULONG (fun id => (cacheFind w id).map Option.isSome) (w.pending + 2) w.lastId

def newDeadline (now : ℤ) (conf : CacheConf) : ℤ := now + (conf.timeoutMs + 999) / 1000 + 1

variable (mod : Option M) (key : List UInt8) (fn : Option F)

def cacheBegin :
    Option (World M F × Option (ℕ × CacheCall M F)) :=
  match w.driver, w.conf with
  | some _, some conf =>
    let full := conf.keyStart.getD [] ++ key
    if key = [] ∨ CACHE_PENDING_MAX ≤ w.pending ∨ CACHE_KEY_MAX < full.length then some (w, none)
    else
      (cacheNewId w).bind fun id =>
        let call : CacheCall M F :=
          { id, fn, owner := mod, deadline := newDeadline w.now conf, key := full }
        let a := w.calls.next
        (cacheArm { w with
          calls := w.calls.push call
          lastId := id
          pending := w.pending + 1
          total := w.total + 1
          book := .opened a call :: w.book }).map fun w => (w, some (a, call))
  | _, _ => some (w, none)

/-- `cache_get`, `cache_set` and `cache_del`, up to the driver's start function. -/
def cacheStart (what : Ask) :
    Option (World M F) :=
  (cacheBegin w mod key fn).map fun
    | (w, none) => { w with returned := 0 :: w.returned }
    | (w, some (a, call)) =>
      { w with sent := .ask call.id call.key what :: w.sent }.enter (.starting a call.id)

def cacheGet :
    Option (World M F) :=
  cacheStart w mod key fn .get

def cacheSet (value : Option (List UInt8))
    (ttl : ℤ) (fn : Option F) : Option (World M F) :=
  match value with
  | none => some { w with returned := 0 :: w.returned }
  | some value =>
    if CACHE_VALUE_MAX < value.length then some { w with returned := 0 :: w.returned }
    else
      let ttl := if ttl ≤ 0 then CACHE_TTL_DEFAULT else ttl
      let ttl := if CACHE_TTL_MAX < ttl then CACHE_TTL_MAX else ttl
      cacheStart w mod key fn (.set value ttl)

def cacheDel :
    Option (World M F) :=
  cacheStart w mod key fn .del

/-! ### Answering calls -/

def cacheFree (a : ℕ) : Option (World M F) :=
  (w.calls.remove a).map fun (calls, found) =>
    { w with calls, pending := if found then w.pending - 1 else w.pending }

/-- `cache_answer`, up to the callback. The result says whether there is one. -/
def cacheAnswer (a : ℕ) (value : Option (List UInt8)) (code : CacheError)
    (message : Option (List UInt8)) : Option (World M F × Bool) :=
  (w.calls.get a).bind fun call =>
    (cacheFree w a).map fun w =>
      let failed := if code = .ok then w.failed else w.failed + 1
      let hit := if code = .ok ∧ value.isSome then w.hit + 1 else w.hit
      let res : CacheResult :=
        { code, key := call.key, value, hit := code = .ok ∧ value.isSome, message }
      ({ w with failed, hit, book := .settled a res :: w.book }, call.fn.isSome)

/-- The second loop of `cache_drop_module`. -/
def dropCalls [DecidableEq M] (w : World M F) (mod : M) : Option (World M F) :=
  (w.calls.sweep fun call => call.owner = some mod).bind fun (calls, gone) =>
    let cancel := w.driver.bind Driver.cancel
    -- a call that is answered when it is cancelled is freed twice
    if gone ≠ [] ∧ cancel = some .answers then none
    else some { w with
      calls
      pending := w.pending - gone.length
      sent := (if cancel = none then [] else (gone.map fun x => .cancel x.2.id).reverse) ++ w.sent
      book := (gone.map fun x => .dropped x.1 mod).reverse ++ w.book }

/-- The loop of `cache_unregister_driver`, up to a callback; after it, if a module is being
unloaded, the rest of `cache_drop_module`. -/
def withdrawLoop [DecidableEq M] (unload : Option M) : ℕ → World M F → Option (World M F)
  | 0, _ => none
  | fuel + 1, w =>
    match w.calls.head with
    | none =>
      match unload with
      | none => some w
      | some mod => dropCalls w mod
    | some a =>
      (cacheAnswer w a none .unavailable none).bind fun (w, called) =>
        if called then some (w.enter (.answering (.withdraw unload)))
        else withdrawLoop unload fuel w

/-- The loop of `cache_expire`, up to a callback; after it the rest of `cache_timeout`. -/
def expireLoop (now : ℤ) : ℕ → World M F → Option (World M F)
  | 0, _ => none
  | fuel + 1, w =>
    match w.calls.find fun call => call.deadline ≤ now with
    | none => none
    | some none => cacheArm w
    | some (some a) =>
      (w.calls.get a).bind fun call =>
        let cancel := w.driver.bind Driver.cancel
        -- a call that is answered when it is cancelled has been freed before `cache_answer`
        if cancel = some .answers then none
        else
          let w := { w with sent := if cancel = none then w.sent else .cancel call.id :: w.sent }
          (cacheAnswer w a none .timeout none).bind fun (w, called) =>
            if called then some (w.enter (.answering (.expire now)))
            else expireLoop now fuel w

def resume [DecidableEq M] (w : World M F) : Cont M → Option (World M F)
  | .done value => some { w with returned := value :: w.returned }
  | .withdraw unload => withdrawLoop unload w.calls.turns w
  | .expire now => expireLoop now w.calls.turns w

def answerThen (a : ℕ) (value : Option (List UInt8)) (code : CacheError)
    (message : Option (List UInt8)) (result : ℕ) : Option (World M F) :=
  (cacheAnswer w a value code message).map fun (w, called) =>
    if called then w.enter (.answering (.done result))
    else { w with returned := result :: w.returned }

def cacheComplete (id : ℕ) (value : Option (List UInt8)) (code : CacheError)
    (message : Option (List UInt8)) : Option (World M F) :=
  (cacheFind w id).bind fun
    | none => some { w with returned := 0 :: w.returned }
    | some a => answerThen w a value code message 1

/-- `cache_timeout`, when the timer has expired. -/
def cacheTimeout : Option (World M F) :=
  let w := { w with armed := none }
  expireLoop w.now w.calls.turns w

def cacheRegisterDriver (driver : Driver M) : World M F :=
  match w.driver with
  | some _ => { w with returned := 0 :: w.returned }
  | none => { w with driver := some driver, returned := 1 :: w.returned }

def cacheUnregisterDriver [DecidableEq M] (w : World M F) (mod : M) : Option (World M F) :=
  if w.driver.map Driver.owner = some mod then
    withdrawLoop none w.calls.turns { w with driver := none }
  else some w

def cacheDropModule [DecidableEq M] (w : World M F) (mod : M) : Option (World M F) :=
  if w.driver.map Driver.owner = some mod then
    withdrawLoop (some mod) w.calls.turns { w with driver := none }
  else dropCalls w mod

/-- `cache_conf_commit`, as far as the timeout goes. -/
def commitTimeout (ms : ℤ) : ℤ :=
  let ms := if ms ≤ 0 then CACHE_TIMEOUT_DEFAULT_MS else ms
  if CACHE_TIMEOUT_MAX_MS < ms then CACHE_TIMEOUT_MAX_MS else ms

/-! ### Events -/

inductive Event (M F : Type)
  | get (mod : Option M) (key : List UInt8) (fn : Option F)
  | set (mod : Option M) (key : List UInt8) (value : Option (List UInt8)) (ttl : ℤ) (fn : Option F)
  | del (mod : Option M) (key : List UInt8) (fn : Option F)
  | started (code : CacheError)
  | complete (id : ℕ) (value : Option (List UInt8)) (code : CacheError)
      (message : Option (List UInt8))
  | ret
  | fire
  | register (driver : Driver M)
  | withdraw (mod : M)
  | unload (mod : M)
  | configure (conf : Option CacheConf)
  | tick (now : ℤ)

/-- One event: a call of one of the functions, by the server, a callback or the driver; the
driver's start function returns a code, or a callback returns; the timer expires, the
configuration is read or the clock is set. -/
def step [DecidableEq M] (w : World M F) : Event M F → Option (World M F)
  | .get mod key fn => cacheGet w mod key fn
  | .set mod key value ttl fn => cacheSet w mod key value ttl fn
  | .del mod key fn => cacheDel w mod key fn
  | .started code =>
    match w.stack with
    | .starting a id :: stack =>
      let w := { w with stack }
      if code = .ok then some { w with returned := id :: w.returned }
      else answerThen w a none code none 0
    | _ => none
  | .complete id value code message => cacheComplete w id value code message
  | .ret =>
    match w.stack with
    | .answering k :: stack => resume { w with stack } k
    | _ => none
  | .fire => cacheTimeout w
  | .register driver => some (cacheRegisterDriver w driver)
  | .withdraw mod => cacheUnregisterDriver w mod
  | .unload mod => cacheDropModule w mod
  | .configure conf =>
    some { w with conf := conf.map fun c => { c with timeoutMs := commitTimeout c.timeoutMs } }
  | .tick now => some { w with now }

/-- What the surroundings keep to: what returns has been called, and the timer expires in the
event loop. -/
def Possible : Event M F → Prop
  | .started _ => ∃ a id stack, w.stack = .starting a id :: stack
  | .ret => ∃ k stack, w.stack = .answering k :: stack
  | .fire => w.stack = []
  | .tick now => 0 < now
  | _ => True

/-- The driver answers no call when it is told to forget it. -/
def Forgets : Prop := w.driver.bind Driver.cancel ≠ some .answers

/-- The driver forgets what it is told to, and a start function refuses a call only while the call
is on the list. -/
def Kept (e : Event M F) : Prop :=
  Forgets w ∧ ∀ code, e = .started code →
    code = .ok ∨ ∀ a id stack, w.stack = .starting a id :: stack →
      ∃ xs, w.calls.Holds xs ∧ a ∈ Roster.addrs xs

end Ircu.CacheCalls
