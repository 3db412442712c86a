import Ircu.CacheCalls.Basic

/-!
Every call of the cache is answered once.

* `Core`: the invariant of the list of calls. The counter is the number of calls on the list, and
  the ledger of calls is balanced.
* `Core.answer`, `Core.begin`, `Core.withdrawLoop`, `Core.expireLoop`, `Core.dropCalls`: what the
  functions do to the list.
-/

namespace Ircu.CacheCalls

open Ledger Roster Run List Option

variable {M F : Type} {w w' : World M F} {xs ys : List (ℕ × CacheCall M F)} {a : ℕ}
  {call : CacheCall M F}

/-! ### The list of calls -/

/-- **The invariant of the list.** -/
structure Core (w : World M F) (xs : List (ℕ × CacheCall M F)) : Prop where
  holds : w.calls.Holds xs
  pending : w.pending = xs.length
  bound : w.pending ≤ CACHE_PENDING_MAX
  balanced : Balanced (fun call mod => call.owner = some mod) w.book xs w.calls.next

def deadlines (xs : List (ℕ × CacheCall M F)) : List ℤ := xs.map fun x => x.2.deadline

structure Aside (w w' : World M F) : Prop where
  stack : w'.stack = w.stack
  armed : w'.armed = w.armed
  now : w'.now = w.now
  conf : w'.conf = w.conf
  driver : w'.driver = w.driver

lemma Aside.refl (w : World M F) : Aside w w := ⟨rfl, rfl, rfl, rfl, rfl⟩

lemma Aside.trans {w''} (h : Aside w w') (h' : Aside w' w'') : Aside w w'' :=
  ⟨h'.stack.trans h.stack, h'.armed.trans h.armed, h'.now.trans h.now, h'.conf.trans h.conf,
    h'.driver.trans h.driver⟩

lemma Aside.enter (h : Aside w w') (f : Frame M) : Aside (w.enter f) (w'.enter f) :=
  ⟨congrArg (f :: ·) h.stack, h.armed, h.now, h.conf, h.driver⟩

lemma Aside.forgets (h : Aside w w') (hw : Forgets w) : Forgets w' := by
  rwa [Forgets, h.driver]

lemma Core.init (now) : Core (World.init now : World M F) [] :=
  ⟨holds_empty, rfl, Nat.zero_le _, .empty⟩

lemma Core.congr (h : Core w xs) (hcalls : w'.calls = w.calls) (hpending : w'.pending = w.pending)
    (hbook : w'.book = w.book) : Core w' xs := by
  refine ⟨?_, ?_, ?_, ?_⟩
  · rw [hcalls]
    exact h.holds
  · rw [hpending]
    exact h.pending
  · rw [hpending]
    exact h.bound
  · rw [hbook, hcalls]
    exact h.balanced

def World.setTimer (w : World M F) (ds : List ℤ) : World M F :=
  { w with armed := Deadline.arm w.armed (Deadline.earliest ds) }

lemma Aside.setTimer (h : Aside w w') (ds) : Aside (w.setTimer ds) (w'.setTimer ds) :=
  ⟨h.stack, by rw [World.setTimer, World.setTimer, h.armed], h.now, h.conf, h.driver⟩

lemma Core.arm (h : Core w xs) : cacheArm w = some (w.setTimer (deadlines xs)) := by
  rw [cacheArm, World.setTimer]
  cases harmed : w.armed with
  | some t =>
    dsimp only
    rw [Deadline.arm, ← harmed]
  | none =>
    rw [cacheDeadline, h.holds.fold, map_some, Deadline.earliest, deadlines, foldl_map]

lemma Core.newId (h : Core w xs) : ∃ id, cacheNewId w = some id := by
  have hbound := h.bound
  rw [CACHE_PENDING_MAX] at hbound
  rw [cacheNewId, h.pending]
  exact h.holds.seek CacheCall.id w.lastId (by rw [ULONG]; have := h.pending; omega)

lemma Core.begin (h : Core w xs) (mod : Option M) (key : List UInt8) (fn : Option F) :
    cacheBegin w mod key fn = some (w, none) ∨
      ∃ conf call w', w.conf = some conf ∧ call.deadline = newDeadline w.now conf ∧
        cacheBegin w mod key fn = some (w', some (w.calls.next, call)) ∧
        Core w' ((w.calls.next, call) :: xs) ∧
        Aside (w.setTimer (deadlines ((w.calls.next, call) :: xs))) w' := by
  rw [cacheBegin]
  split
  · rename_i driver conf hdriver hconf
    dsimp only
    split_ifs with hrefuse
    · exact .inl rfl
    right
    push Not at hrefuse
    obtain ⟨id, hid⟩ := h.newId
    obtain ⟨call, hcall⟩ : ∃ call : CacheCall M F, CacheCall.mk id fn mod
        (newDeadline w.now conf) (conf.keyStart.getD [] ++ key) = call := ⟨_, rfl⟩
    obtain ⟨w1, hw1⟩ : ∃ w1 : World M F, { w with
        calls := w.calls.push call
        lastId := id
        pending := w.pending + 1
        total := w.total + 1
        book := .opened w.calls.next call :: w.book } = w1 := ⟨_, rfl⟩
    have hcore : Core w1 ((w.calls.next, call) :: xs) := by
      rw [← hw1]
      refine ⟨h.holds.push call, ?_, hrefuse.2.1, h.balanced.opened call⟩
      rw [length_cons, ← h.pending]
    refine ⟨conf, call, w1.setTimer (deadlines ((w.calls.next, call) :: xs)), hconf,
      by rw [← hcall], ?_, hcore.congr rfl rfl rfl, ?_⟩
    · rw [hid, bind_some, hcall, hw1, hcore.arm]
      rfl
    · rw [← hw1]
      exact ⟨rfl, rfl, rfl, rfl, rfl⟩
  · exact .inl rfl

lemma Core.answer (h : Core w xs) (ha : (a, call) ∈ xs) (value : Option (List UInt8))
    (code : CacheError) (message : Option (List UInt8)) :
    ∃ w', cacheAnswer w a value code message = some (w', call.fn.isSome) ∧
      Core w' (without a xs) ∧ Aside w w' := by
  obtain ⟨calls, hremove, hholds, hnext⟩ := h.holds.remove ha
  have hlen : (without a xs).length + 1 = xs.length :=
    length_without h.holds.nodup (mem_addrs_of_mem ha)
  rw [cacheAnswer, h.holds.get ha, bind_some, cacheFree, hremove]
  refine ⟨_, rfl, ⟨hholds, ?_, ?_, ?_⟩, rfl, rfl, rfl, rfl, rfl⟩
  · have := h.pending
    dsimp only
    rw [if_pos rfl]
    omega
  · have := h.bound
    dsimp only
    rw [if_pos rfl]
    omega
  have hbal := h.balanced.settled ha (fun x => mem_without)
    { code, key := call.key, value, hit := code = .ok ∧ value.isSome, message }
  change Balanced _ _ _ calls.heap.next
  rw [hnext]
  exact hbal

lemma Core.dropCalls [DecidableEq M] (h : Core w xs) (hforgets : Forgets w) (mod : M) :
    ∃ w' ys, dropCalls w mod = some w' ∧ Core w' ys ∧ ys ⊆ xs ∧ Aside w w' := by
  obtain ⟨calls, hsweep, hholds, hnext⟩ := h.holds.sweep fun call => decide (call.owner = some mod)
  rw [CacheCalls.dropCalls, hsweep, bind_some]
  dsimp only
  rw [if_neg fun hand => hforgets hand.2]
  have hlen := length_others (fun call : CacheCall M F => decide (call.owner = some mod)) xs
  refine ⟨_, _, rfl, ⟨hholds, ?_, ?_, ?_⟩, filter_sublist.subset, rfl, rfl, rfl, rfl, rfl⟩
  · have := h.pending
    dsimp only
    omega
  · have := h.bound
    dsimp only
    omega
  change Balanced _ _ _ calls.heap.next
  rw [hnext]
  refine h.balanced.endedAll ?_ filter_sublist.subset (fun x => h.holds.mem_others) ?_
  · exact h.holds.nodup.sublist (filter_sublist.map _)
  · intro x hx
    exact .inr ⟨mod, rfl, by simpa using (mem_filter.mp hx).2⟩

lemma Core.withdrawLoop [DecidableEq M] (unload : Option M) {fuel} (h : Core w xs)
    (hforgets : Forgets w) (hfuel : xs.length < fuel) :
    ∃ w' ys, withdrawLoop unload fuel w = some w' ∧ Core w' ys ∧ ys ⊆ xs ∧
      (Aside w w' ∨ Aside (w.enter (.answering (.withdraw unload))) w') := by
  induction fuel generalizing w xs with
  | zero => exact absurd hfuel (Nat.not_lt_zero _)
  | succ fuel ih =>
    unfold CacheCalls.withdrawLoop
    rw [h.holds.chain.ptr]
    cases xs with
    | nil =>
      cases unload with
      | none => exact ⟨w, [], rfl, h, List.Subset.refl _, .inl (.refl _)⟩
      | some mod =>
        obtain ⟨w', ys, heq, hcore, hsub, haside⟩ := h.dropCalls hforgets mod
        exact ⟨w', ys, heq, hcore, hsub, .inl haside⟩
    | cons x xs =>
      obtain ⟨w1, hanswer, hcore, haside⟩ :=
        h.answer (show (x.1, x.2) ∈ x :: xs from mem_cons_self) none .unavailable none
      have hsub : without x.1 (x :: xs) ⊆ x :: xs := filter_sublist.subset
      rw [show headPtr (x :: xs) = some x.1 from rfl]
      dsimp only
      rw [hanswer]
      cases x.2.fn with
      | some f =>
        exact ⟨_, _, rfl, hcore.congr rfl rfl rfl, hsub, .inr (haside.enter _)⟩
      | none =>
        have hlen := length_without (a := x.1) h.holds.nodup (by simp)
        obtain ⟨w', ys, heq, hcore', hsub', hout⟩ := ih hcore (haside.forgets hforgets) (by omega)
        refine ⟨w', ys, heq, hcore', List.Subset.trans hsub' hsub, ?_⟩
        rcases hout with hout | hout
        · exact .inl (haside.trans hout)
        · exact .inr ((haside.enter _).trans hout)

lemma Core.expireLoop (now) {fuel} (h : Core w xs) (hforgets : Forgets w)
    (hfuel : xs.length < fuel) :
    ∃ w' ys, expireLoop now fuel w = some w' ∧ Core w' ys ∧ ys ⊆ xs ∧
      (Aside (w.setTimer (deadlines ys)) w' ∨ Aside (w.enter (.answering (.expire now))) w') := by
  induction fuel generalizing w xs with
  | zero => exact absurd hfuel (Nat.not_lt_zero _)
  | succ fuel ih =>
    unfold CacheCalls.expireLoop
    rw [h.holds.find]
    cases hfind : xs.find? fun x => decide (x.2.deadline ≤ now) with
    | none =>
      exact ⟨_, xs, h.arm, h.congr rfl rfl rfl, List.Subset.refl _, .inl (.refl _)⟩
    | some x =>
      have hx := mem_of_find?_eq_some hfind
      rw [map_some]
      dsimp only
      rw [h.holds.get hx, bind_some, if_neg hforgets]
      obtain ⟨w0, hw0⟩ : ∃ w0 : World M F, { w with
          sent := if w.driver.bind Driver.cancel = none then w.sent
            else .cancel x.2.id :: w.sent } = w0 := ⟨_, rfl⟩
      have hcore0 : Core w0 xs := hw0 ▸ h.congr rfl rfl rfl
      have haside0 : Aside w w0 := hw0 ▸ ⟨rfl, rfl, rfl, rfl, rfl⟩
      obtain ⟨w1, hanswer, hcore, haside⟩ :=
        hcore0.answer (show (x.1, x.2) ∈ xs from hx) none .timeout none
      have hsub : without x.1 xs ⊆ xs := filter_sublist.subset
      rw [hw0, hanswer]
      cases x.2.fn with
      | some f =>
        exact ⟨_, _, rfl, hcore.congr rfl rfl rfl, hsub, .inr ((haside0.trans haside).enter _)⟩
      | none =>
        have hlen := length_without h.holds.nodup (mem_addrs_of_mem hx)
        obtain ⟨w', ys, heq, hcore', hsub', hout⟩ :=
          ih hcore ((haside0.trans haside).forgets hforgets) (by omega)
        refine ⟨w', ys, heq, hcore', List.Subset.trans hsub' hsub, ?_⟩
        rcases hout with hout | hout
        · exact .inl (((haside0.trans haside).setTimer _).trans hout)
        · exact .inr (((haside0.trans haside).enter _).trans hout)

/-! ### The timer -/

/-- All deadlines are times, none of them is before the time that the timer is set for, and new
ones will be times too. -/
structure Steady (w : World M F) (xs : List (ℕ × CacheCall M F)) : Prop where
  ahead : Deadline.Ahead w.armed (deadlines xs)
  now : 0 < w.now
  conf : ∀ conf, w.conf = some conf → 0 < conf.timeoutMs

/-- The timer is set if there are calls, unless its expiry is being executed. -/
structure Timed (w : World M F) (xs : List (ℕ × CacheCall M F)) : Prop extends Steady w xs where
  set : xs ≠ [] → w.armed ≠ none ∨ ∃ now, .answering (.expire now) ∈ w.stack

lemma deadlines_subset (h : ys ⊆ xs) : deadlines ys ⊆ deadlines xs := map_subset _ h

lemma Steady.of_aside (h : Steady w xs) (hsub : ys ⊆ xs) (ha : Aside w w') : Steady w' ys := by
  refine ⟨?_, by rw [ha.now]; exact h.now, by rw [ha.conf]; exact h.conf⟩
  rw [ha.armed]
  exact h.ahead.mono (deadlines_subset hsub)

lemma Timed.of_aside (h : Timed w xs) (hsub : ys ⊆ xs) (ha : Aside w w') : Timed w' ys := by
  refine ⟨h.toSteady.of_aside hsub ha, fun hne => ?_⟩
  rw [ha.armed, ha.stack]
  refine h.set ?_
  rintro rfl
  exact hne (subset_nil.mp hsub)

lemma Timed.enter (h : Timed w xs) (f : Frame M) : Timed (w.enter f) xs := by
  refine ⟨⟨h.ahead, h.now, h.conf⟩, fun hne => ?_⟩
  rcases h.set hne with harmed | ⟨now, hin⟩
  · exact .inl harmed
  · exact .inr ⟨now, mem_cons_of_mem _ hin⟩

lemma Timed.leave {f stack} (h : Timed w xs)
    (hs : w.stack = f :: stack) (hf : ∀ now, f ≠ .answering (.expire now)) :
    Timed { w with stack } xs := by
  refine ⟨⟨h.ahead, h.now, h.conf⟩, fun hne => ?_⟩
  rcases h.set hne with harmed | ⟨now, hin⟩
  · exact .inl harmed
  · rw [hs] at hin
    exact .inr ⟨now, (mem_cons.mp hin).resolve_left (hf now).symm⟩

lemma Steady.setTimer (h : Steady w xs) : Timed (w.setTimer (deadlines xs)) xs := by
  refine ⟨⟨h.ahead.arm, h.now, h.conf⟩, fun hne => .inl ?_⟩
  exact Deadline.arm_ne_none h.ahead.pos (by simpa [deadlines] using hne)

lemma Steady.expired {now} (h : Steady w xs) (hsub : ys ⊆ xs)
    (hout : Aside (w.setTimer (deadlines ys)) w' ∨ Aside (w.enter (.answering (.expire now))) w') :
    Timed w' ys := by
  have hys : Steady w ys := h.of_aside hsub (.refl w)
  rcases hout with hout | hout
  · exact hys.setTimer.of_aside (List.Subset.refl _) hout
  · have henter : Timed (w.enter (.answering (.expire now))) ys :=
      ⟨⟨hys.ahead, hys.now, hys.conf⟩, fun _ => .inr ⟨now, mem_cons_self⟩⟩
    exact henter.of_aside (List.Subset.refl _) hout

/-! ### One event -/

/-- A call is started when the timer is not set for later than its deadline. -/
def Prompt (w : World M F) : Event M F → Prop
  | .get _ _ _ | .set _ _ _ _ _ | .del _ _ _ =>
    ∀ conf t, w.conf = some conf → w.armed = some t → t ≤ newDeadline w.now conf
  | _ => True

/-- What an event leads to: the invariant is kept, and so is what holds of the timer if the event
is prompt. -/
def Leads (w : World M F) (xs : List (ℕ × CacheCall M F)) (prompt : Prop)
    (r : Option (World M F)) : Prop :=
  ∃ w' ys, r = some w' ∧ Core w' ys ∧ (Timed w xs → prompt → Timed w' ys)

lemma Core.leads_aside {prompt} (hcore : Core w' xs) (ha : Aside w w') :
    Leads w xs prompt (some w') :=
  ⟨w', xs, rfl, hcore, fun ht _ => ht.of_aside (List.Subset.refl _) ha⟩

lemma newDeadline_pos (ht : Timed w xs) {conf} (hconf : w.conf = some conf) :
    0 < newDeadline w.now conf := by
  have hnow := ht.now
  have hms := ht.conf conf hconf
  rw [newDeadline]
  omega

lemma Core.start (h : Core w xs) (mod : Option M) (key : List UInt8) (fn : Option F) (what : Ask) :
    Leads w xs (∀ conf t, w.conf = some conf → w.armed = some t → t ≤ newDeadline w.now conf)
      (cacheStart w mod key fn what) := by
  rw [cacheStart]
  rcases h.begin mod key fn with heq | ⟨conf, call, w1, hconf, hdl, heq, hcore, ha⟩
  · rw [heq]
    exact Core.leads_aside (h.congr rfl rfl rfl) ⟨rfl, rfl, rfl, rfl, rfl⟩
  rw [heq]
  refine ⟨_, _, rfl, hcore.congr rfl rfl rfl, fun ht hprompt => ?_⟩
  have hpos : 0 < call.deadline := hdl ▸ newDeadline_pos ht hconf
  have hle : ∀ t, w.armed = some t → t ≤ call.deadline :=
    fun t harmed => hdl ▸ hprompt conf t hconf harmed
  have hsteady : Steady w ((w.calls.next, call) :: xs) :=
    ⟨ht.ahead.cons hpos hle, ht.now, ht.conf⟩
  have hset := hsteady.setTimer.of_aside (List.Subset.refl _) ha
  have hout := hset.enter (.starting w.calls.next call.id)
  exact ⟨⟨hout.ahead, hout.now, hout.conf⟩, hout.set⟩

lemma Core.answerThen (h : Core w xs) (ha : (a, call) ∈ xs) (prompt)
    (value : Option (List UInt8)) (code : CacheError) (message : Option (List UInt8))
    (result : ℕ) : Leads w xs prompt (answerThen w a value code message result) := by
  obtain ⟨w1, hanswer, hcore, haside⟩ := h.answer ha value code message
  have hsub : without a xs ⊆ xs := filter_sublist.subset
  rw [CacheCalls.answerThen, hanswer]
  cases call.fn with
  | some f =>
    exact ⟨_, _, rfl, hcore.congr rfl rfl rfl, fun ht _ => (ht.of_aside hsub haside).enter _⟩
  | none =>
    refine ⟨_, _, rfl, hcore.congr rfl rfl rfl, fun ht _ => ?_⟩
    exact (ht.of_aside hsub haside).of_aside (List.Subset.refl _) ⟨rfl, rfl, rfl, rfl, rfl⟩

lemma Core.leads_withdraw [DecidableEq M] (h : Core w xs) (unload : Option M) {fuel}
    (hforgets : Forgets w) (hfuel : xs.length < fuel) (prompt) :
    Leads w xs prompt (CacheCalls.withdrawLoop unload fuel w) := by
  obtain ⟨w', ys, heq, hcore, hsub, haside | haside⟩ := h.withdrawLoop unload hforgets hfuel
  · exact ⟨w', ys, heq, hcore, fun ht _ => ht.of_aside hsub haside⟩
  · exact ⟨w', ys, heq, hcore, fun ht _ => (ht.enter _).of_aside hsub haside⟩

lemma Core.started [DecidableEq M] (h : Core w xs) {code}
    (hposs : Possible w (.started code)) (hkept : Kept w (.started code)) :
    Leads w xs True (step w (.started code)) := by
  obtain ⟨a, id, stack, hs⟩ := hposs
  have hleave : Core { w with stack } xs := h.congr rfl rfl rfl
  have htimed : Timed w xs → Timed { w with stack } xs :=
    fun ht => ht.leave hs fun now heq => by cases heq
  rw [step, hs]
  dsimp only
  by_cases hok : code = .ok
  · rw [if_pos hok]
    refine ⟨_, xs, rfl, hleave.congr rfl rfl rfl, fun ht _ => ?_⟩
    exact (htimed ht).of_aside (List.Subset.refl _) ⟨rfl, rfl, rfl, rfl, rfl⟩
  rw [if_neg hok]
  obtain ⟨ys, hys, ha⟩ := (hkept.2 code rfl).resolve_left hok a id stack hs
  obtain rfl := hys.eq h.holds
  obtain ⟨call, hcall⟩ := mem_addrs.mp ha
  obtain ⟨w', ys', heq, hcore, ht'⟩ := hleave.answerThen hcall True none code none 0
  exact ⟨w', ys', heq, hcore, fun ht => ht' (htimed ht)⟩

lemma Core.complete (h : Core w xs) (id : ℕ) (value : Option (List UInt8)) (code : CacheError)
    (message : Option (List UInt8)) : Leads w xs True (cacheComplete w id value code message) := by
  rw [cacheComplete, cacheFind, h.holds.find, bind_some]
  cases hfind : xs.find? fun x => decide (x.2.id = id) with
  | none => exact Core.leads_aside (h.congr rfl rfl rfl) ⟨rfl, rfl, rfl, rfl, rfl⟩
  | some x =>
    have hx : (x.1, x.2) ∈ xs := mem_of_find?_eq_some hfind
    exact h.answerThen hx True value code message 1

lemma Core.ret [DecidableEq M] (h : Core w xs) (hforgets : Forgets w) (hposs : Possible w .ret) :
    Leads w xs True (step w .ret) := by
  obtain ⟨k, stack, hs⟩ := hposs
  have hleave : Core { w with stack } xs := h.congr rfl rfl rfl
  rw [step, hs]
  cases k with
  | done value =>
    refine ⟨_, xs, rfl, hleave.congr rfl rfl rfl, fun ht _ => ?_⟩
    exact (ht.leave hs fun now heq => by cases heq).of_aside (List.Subset.refl _)
      ⟨rfl, rfl, rfl, rfl, rfl⟩
  | withdraw unload =>
    obtain ⟨w', ys, heq, hcore, ht'⟩ :=
      hleave.leads_withdraw unload hforgets hleave.holds.length_lt True
    exact ⟨w', ys, heq, hcore, fun ht => ht' (ht.leave hs fun now heq => by cases heq)⟩
  | expire now =>
    obtain ⟨w', ys, heq, hcore, hsub, hout⟩ :=
      hleave.expireLoop now hforgets hleave.holds.length_lt
    have hsteady : Timed w xs → Steady { w with stack } xs :=
      fun ht => ⟨ht.ahead, ht.now, ht.conf⟩
    exact ⟨w', ys, heq, hcore, fun ht _ => (hsteady ht).expired hsub hout⟩

lemma commitTimeout_pos (ms : ℤ) : 0 < commitTimeout ms := by
  rw [commitTimeout, CACHE_TIMEOUT_DEFAULT_MS, CACHE_TIMEOUT_MAX_MS]
  split_ifs <;> omega

/-- **One event.** Nothing that was freed is touched, and the invariant is kept. -/
lemma Core.step [DecidableEq M] (h : Core w xs) {e} (hposs : Possible w e)
    (hkept : Kept w e) : Leads w xs (Prompt w e) (step w e) := by
  have hsame : ∀ {w' : World M F} {prompt : Prop}, w'.calls = w.calls → w'.pending = w.pending →
      w'.book = w.book → Aside w w' → Leads w xs prompt (some w') :=
    fun hcalls hpending hbook ha => Core.leads_aside (h.congr hcalls hpending hbook) ha
  cases e with
  | get mod key fn => exact h.start mod key fn .get
  | del mod key fn => exact h.start mod key fn .del
  | set mod key value ttl fn =>
    rw [CacheCalls.step]
    unfold cacheSet
    split
    · exact hsame rfl rfl rfl ⟨rfl, rfl, rfl, rfl, rfl⟩
    · split
      · exact hsame rfl rfl rfl ⟨rfl, rfl, rfl, rfl, rfl⟩
      · exact h.start mod key fn _
  | started code => exact h.started hposs hkept
  | complete id value code message => exact h.complete id value code message
  | ret => exact h.ret hkept.1 hposs
  | fire =>
    have hoff : Core { w with armed := none } xs := h.congr rfl rfl rfl
    obtain ⟨w', ys, heq, hcore, hsub, hout⟩ := hoff.expireLoop w.now hkept.1 hoff.holds.length_lt
    have hsteady : Timed w xs → Steady { w with armed := none } xs :=
      fun ht => ⟨ht.ahead.off, ht.now, ht.conf⟩
    exact ⟨w', ys, heq, hcore, fun ht _ => (hsteady ht).expired hsub hout⟩
  | register driver =>
    rw [CacheCalls.step, cacheRegisterDriver]
    split
    · exact hsame rfl rfl rfl ⟨rfl, rfl, rfl, rfl, rfl⟩
    · exact ⟨_, xs, rfl, h.congr rfl rfl rfl, fun ht _ => ⟨⟨ht.ahead, ht.now, ht.conf⟩, ht.set⟩⟩
  | withdraw mod =>
    rw [CacheCalls.step, cacheUnregisterDriver]
    split_ifs
    · have hgone : Core { w with driver := none } xs := h.congr rfl rfl rfl
      obtain ⟨w', ys, heq, hcore, ht'⟩ := hgone.leads_withdraw none nofun hgone.holds.length_lt True
      exact ⟨w', ys, heq, hcore, fun ht _ => ht' ⟨⟨ht.ahead, ht.now, ht.conf⟩, ht.set⟩ trivial⟩
    · exact hsame rfl rfl rfl (.refl w)
  | unload mod =>
    rw [CacheCalls.step, cacheDropModule]
    split_ifs
    · have hgone : Core { w with driver := none } xs := h.congr rfl rfl rfl
      obtain ⟨w', ys, heq, hcore, ht'⟩ :=
        hgone.leads_withdraw (some mod) nofun hgone.holds.length_lt True
      exact ⟨w', ys, heq, hcore, fun ht _ => ht' ⟨⟨ht.ahead, ht.now, ht.conf⟩, ht.set⟩ trivial⟩
    · obtain ⟨w', ys, heq, hcore, hsub, haside⟩ := h.dropCalls hkept.1 mod
      exact ⟨w', ys, heq, hcore, fun ht _ => ht.of_aside hsub haside⟩
  | configure conf =>
    refine ⟨_, xs, rfl, h.congr rfl rfl rfl, fun ht _ => ?_⟩
    refine ⟨⟨ht.ahead, ht.now, fun conf' hconf => ?_⟩, ht.set⟩
    obtain ⟨c, -, rfl⟩ := map_eq_some_iff.mp hconf
    exact commitTimeout_pos c.timeoutMs
  | tick now =>
    exact ⟨_, xs, rfl, h.congr rfl rfl rfl, fun ht _ => ⟨⟨ht.ahead, hposs, ht.conf⟩, ht.set⟩⟩

/-! ### Whole runs -/

/-- **Every call is answered once**, as long as no start function refuses a call that has been
released and no driver answers a call that it is told to forget. Nothing is used after it was freed,
and the counter is right. A call that was recorded is on the list, or has been answered once, or was
dropped because its module was unloaded. -/
theorem calls_settled_once [DecidableEq M] (now : ℤ) (es : List (Event M F))
    (hes : Permitted step (fun w e => Possible w e ∧ Kept w e) (World.init now : World M F) es) :
    ∃ w xs, run step (World.init now : World M F) es = some w ∧ w.calls.Holds xs ∧
      w.pending = xs.length ∧
      ∀ a call, .opened a call ∈ w.book →
        ((a, call) ∈ xs ∧ settlements w.book a = 0) ∨
          ((a, call) ∉ xs ∧ settlements w.book a = 1) ∨
          ((a, call) ∉ xs ∧ settlements w.book a = 0 ∧
            ∃ mod, call.owner = some mod ∧ .dropped a mod ∈ w.book) := by
  obtain ⟨w, hrun, xs, hcore⟩ := run_safe (fun w => ∃ xs, Core w xs)
    (fun w e ⟨xs, h⟩ hall => by
      obtain ⟨w', ys, heq, hcore, -⟩ := h.step hall.1 hall.2
      exact ⟨w', heq, ys, hcore⟩) ⟨[], Core.init now⟩ hes
  refine ⟨w, xs, hrun, hcore.holds, hcore.pending, fun a call hopen => ?_⟩
  rcases hcore.balanced.cases hopen with
    ⟨hin, hset, -⟩ | ⟨hin, hset, -⟩ | ⟨hin, hset, mod, hdrop, howner⟩
  · exact .inl ⟨hin, hset⟩
  · exact .inr (.inl ⟨hin, hset⟩)
  · exact .inr (.inr ⟨hin, hset, mod, howner, hdrop⟩)

lemma Kept.started (h : Forgets w) : Kept w (.started .ok) :=
  ⟨h, fun _ heq => .inl (Event.started.inj heq).symm⟩

/-- A driver answers one call at once and is asked a second time in the callback; the module is
unloaded before there is an answer to that. -/
def askTwice : List (Event ℕ ℕ) :=
  [.tick 100, .configure (some ⟨none, 200⟩), .register ⟨1, some .forgets⟩,
    .get (some 2) [107] (some 7), .complete 1 (some [118]) .ok none, .del (some 2) [107] (some 8),
    .started .ok, .ret, .started .ok, .unload 2]

lemma permitted_askTwice : Permitted step (fun w e => Possible w e ∧ Kept w e)
    (World.init 0 : World ℕ ℕ) askTwice := by
  refine .cons ⟨(by decide : (0 : ℤ) < 100), nofun, nofun⟩ rfl
    (.cons ⟨trivial, nofun, nofun⟩ rfl (.cons ⟨trivial, nofun, nofun⟩ rfl
      (.cons ⟨trivial, nofun, nofun⟩ rfl (.cons ⟨trivial, nofun, nofun⟩ rfl
        (.cons ⟨trivial, nofun, nofun⟩ rfl (.cons ⟨?_, .started nofun⟩ rfl
          (.cons ⟨?_, nofun, nofun⟩ rfl (.cons ⟨?_, .started nofun⟩ rfl
            (.cons ⟨trivial, nofun, nofun⟩ rfl trivial)))))))))
  · exact ⟨_, _, _, rfl⟩
  · exact ⟨_, _, rfl⟩
  · exact ⟨_, _, _, rfl⟩

theorem calls_settled_once_askTwice :
    Permitted step (fun w e => Possible w e ∧ Kept w e) (World.init 0 : World ℕ ℕ) askTwice ∧
      ∃ w xs, run step (World.init 0 : World ℕ ℕ) askTwice = some w ∧ w.calls.Holds xs ∧
        w.pending = xs.length := by
  obtain ⟨w, xs, hrun, hholds, hpending, -⟩ := calls_settled_once 0 askTwice permitted_askTwice
  exact ⟨permitted_askTwice, w, xs, hrun, hholds, hpending⟩

/-- A start function withdraws its driver, which answers all calls and frees them, and then
returns an error: `cache_refused` answers the call that is gone. -/
theorem refused_after_withdrawal :
    (run step (World.init 100 : World ℕ ℕ)
        [.configure (some ⟨none, 200⟩), .register ⟨1, some .forgets⟩, .get (some 2) [107] (some 7),
          .withdraw 1, .ret]).map (fun w => (w.pending, w.book.length)) = some (0, 2) ∧
      (run step (World.init 100 : World ℕ ℕ)
        [.configure (some ⟨none, 200⟩), .register ⟨1, some .forgets⟩, .get (some 2) [107] (some 7),
          .withdraw 1, .ret, .started .connect]).isNone = true := by
  decide +kernel

end Ircu.CacheCalls
