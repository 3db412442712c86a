import Ircu.CacheCalls.Account
import Ircu.Hooks.Account
import Ircu.Http.Account

/-!
The timers of the three registers whose entries have deadlines: the calls of the cache, the
requests that HTTP handlers hold and the operations that hooks hold.

All three set their timer only when it is not running. A new entry with an earlier deadline than
the time that the timer is set for is served too late, so what is known of the timer depends on
deadlines not going back while it runs.

* `CacheCalls.timed_run`, `Http.timed_run`, `Hooks.timed_run`: one register each.
-/

namespace Ircu

open Run Deadline.Ahead

/-- The timer is set for no later than the earliest of some deadlines. -/
def InTime (armed : Option ℤ) (ds : List ℤ) : Prop := ∃ t, armed = some t ∧ ∀ d ∈ ds, t ≤ d

lemma inTime_of_ahead {armed ds} (h : Deadline.Ahead armed ds)
    (hset : armed ≠ none) : InTime armed ds := by
  obtain ⟨t, ht⟩ := Option.ne_none_iff_exists'.mp hset
  exact ⟨t, ht, h.le t ht⟩

lemma InTime.le {armed ds t} (h : InTime armed ds) (ht : armed = some t) : ∀ d ∈ ds, t ≤ d := by
  obtain ⟨t', heq, hle⟩ := h
  cases ht.symm.trans heq
  exact hle

/-! ### One register each -/

lemma CacheCalls.timed_run {M F} [DecidableEq M] {now} (hnow : 0 < now) {es}
    (hes : Permitted step (fun w e => Possible w e ∧ Kept w e ∧ Prompt w e)
      (World.init now : World M F) es) :
    ∃ w xs, run step (World.init now) es = some w ∧ Core w xs ∧ Timed w xs := by
  have hinit : Timed (World.init now : World M F) [] :=
    ⟨⟨nil _, hnow, fun _ h => by cases h⟩, fun h => absurd rfl h⟩
  obtain ⟨w, hrun, xs, hw⟩ := run_safe (fun w => ∃ xs, Core w xs ∧ Timed w xs)
    (fun w e ⟨xs, h, ht⟩ hall => by
      obtain ⟨w', ys, heq, hcore, htimed⟩ := h.step hall.1 hall.2.1
      exact ⟨w', heq, ys, hcore, htimed ht hall.2.2⟩) ⟨[], Core.init now, hinit⟩ hes
  exact ⟨w, xs, hrun, hw⟩

lemma Http.timed_run {M H P ρ} [DecidableEq M] {now timeout} (hnow : 0 < now) {es}
    (hes : Permitted step (fun w e => Possible w e ∧ Held w e ∧ Prompt w e)
      (World.init now timeout : World M H P ρ) es) :
    ∃ w xs, run step (World.init now timeout) es = some w ∧ Core w xs ∧ Timed w xs := by
  have hinit : Timed (World.init now timeout : World M H P ρ) [] :=
    ⟨⟨nil _, hnow⟩, fun _ h => absurd h List.not_mem_nil⟩
  obtain ⟨w, hrun, xs, hinv, ht⟩ := run_safe (fun w => ∃ xs, Inv w xs ∧ Timed w xs)
    (fun w e ⟨xs, h, ht⟩ hall => by
      obtain ⟨w', ys, heq, hinv, htimed⟩ := h.step hall.1 hall.2.1
      exact ⟨w', heq, ys, hinv, htimed ht hall.2.2⟩) ⟨[], Inv.init now timeout, hinit⟩ hes
  exact ⟨w, xs, hrun, hinv.core, ht⟩

lemma Hooks.timed_run {M F C K} [DecidableEq M] [DecidableEq F] [DecidableEq C] {now es}
    (hes : Permitted step (fun w e => Possible w e ∧ Registered w e ∧ Prompt w e)
      (World.init now : World M F C K) es) :
    ∃ w ps, run step (World.init now) es = some w ∧ Core w ps ∧ Timed w ps := by
  have hinit : Timed (World.init now : World M F C K) [] :=
    ⟨nil _, fun h => absurd rfl h⟩
  obtain ⟨w, hrun, hs, ps, -, hw⟩ :=
    run_safe (fun w => ∃ hs ps, Chains w hs ∧ Core w ps ∧ Timed w ps)
      (fun w e ⟨hs, ps, hc, h, ht⟩ hall => by
        obtain ⟨w', hs', qs, heq, hc', hcore, htimed⟩ := h.step hc hall.1 hall.2.1
        exact ⟨w', heq, hs', qs, hc', hcore, htimed ht hall.2.2⟩)
      ⟨_, [], Chains.init now, Core.init now, hinit⟩ hes
  exact ⟨w, ps, hrun, hw⟩

/-! ### All three -/

/-- **The timers are set in time**, in every run in which nothing is started, comes in or is held
with a deadline before the time its timer is set for. A timer that is needed is set for no later
than the earliest deadline, unless that of calls or holds has just expired and its loop is being
executed. -/
theorem timers_in_time {M F H P ρ C K : Type} [DecidableEq M] [DecidableEq F] [DecidableEq C]
    (now timeout : ℤ) (calls : List (CacheCalls.Event M F)) (requests : List (Http.Event M H P ρ))
    (holds : List (Hooks.Event M F C K)) :
    (0 < now →
      Permitted CacheCalls.step
        (fun w e => CacheCalls.Possible w e ∧ CacheCalls.Kept w e ∧ CacheCalls.Prompt w e)
        (CacheCalls.World.init now) calls →
      ∃ w xs, run CacheCalls.step (CacheCalls.World.init now) calls = some w ∧ w.calls.Holds xs ∧
        (xs ≠ [] → (∀ t, .answering (.expire t) ∉ w.stack) →
          InTime w.armed (CacheCalls.deadlines xs))) ∧
    (0 < now →
      Permitted Http.step (fun w e => Http.Possible w e ∧ Http.Held w e ∧ Http.Prompt w e)
        (Http.World.init now timeout) requests →
      ∃ w xs, run Http.step (Http.World.init now timeout) requests = some w ∧ w.calls.Holds xs ∧
        ∀ x ∈ xs, x.1 ∉ w.stack → InTime w.armed (Http.deadlines xs)) ∧
    (Permitted Hooks.step
        (fun w e => Hooks.Possible w e ∧ Hooks.Registered w e ∧ Hooks.Prompt w e)
        (Hooks.World.init now) holds →
      ∃ w ps, run Hooks.step (Hooks.World.init now) holds = some w ∧ w.holds.Holds ps ∧
        (ps ≠ [] → ¬ Hooks.Expiring w.stack → InTime w.armed (Hooks.deadlines ps))) := by
  refine ⟨fun hnow hes => ?_, fun hnow hes => ?_, fun hes => ?_⟩
  · obtain ⟨w, xs, hrun, hcore, ht⟩ := CacheCalls.timed_run hnow hes
    refine ⟨w, xs, hrun, hcore.holds, fun hne hquiet => inTime_of_ahead ht.ahead ?_⟩
    exact (ht.set hne).resolve_right fun ⟨t, hin⟩ => hquiet t hin
  · obtain ⟨w, xs, hrun, hcore, ht⟩ := Http.timed_run hnow hes
    exact ⟨w, xs, hrun, hcore.holds,
      fun x hx hout => inTime_of_ahead ht.ahead (ht.set x hx hout)⟩
  · obtain ⟨w, ps, hrun, hcore, ht⟩ := Hooks.timed_run hes
    refine ⟨w, ps, hrun, hcore.holds, fun hne hquiet => inTime_of_ahead ht.ahead ?_⟩
    exact (ht.set hne).resolve_right hquiet

/-- Two calls with the same timeout; the timer is set for the first. -/
def twoCalls : List (CacheCalls.Event ℕ ℕ) :=
  [.configure (some ⟨none, 200⟩), .register ⟨1, some .forgets⟩, .get (some 2) [107] (some 7),
    .started .ok, .tick 101, .get (some 2) [107] (some 8), .started .ok]

lemma permitted_twoCalls : Permitted CacheCalls.step
    (fun w e => CacheCalls.Possible w e ∧ CacheCalls.Kept w e ∧ CacheCalls.Prompt w e)
    (.init 100) twoCalls := by
  refine .cons ⟨trivial, ⟨nofun, nofun⟩, trivial⟩ rfl (.cons ⟨trivial, ⟨nofun, nofun⟩, trivial⟩ rfl
    (.cons ⟨trivial, ⟨nofun, nofun⟩, nofun⟩ rfl (.cons ⟨⟨_, _, _, rfl⟩, .started nofun, trivial⟩ rfl
      (.cons ⟨?_, ⟨nofun, nofun⟩, trivial⟩ rfl (.cons ⟨trivial, ⟨nofun, nofun⟩, ?_⟩ rfl
        (.cons ⟨⟨_, _, _, rfl⟩, .started nofun, trivial⟩ rfl trivial))))))
  · exact (by decide : (0 : ℤ) < 101)
  · rintro _ _ ⟨⟩ ⟨⟩
    decide

/-- Two requests that are held, the second after a second. -/
def twoRequests : List (Http.Event ℕ ℕ ℕ ℕ) :=
  [.setTransport, .addRoute 1 (str "GET") (str "/x") 7, .dispatch (str "GET") (str "/x") 5,
    .ret false, .tick 101, .dispatch (str "GET") (str "/x") 6, .ret false]

lemma permitted_twoRequests : Permitted Http.step
    (fun w e => Http.Possible w e ∧ Http.Held w e ∧ Http.Prompt w e) (.init 100 0) twoRequests := by
  refine .cons ⟨trivial, trivial, trivial⟩ rfl (.cons ⟨trivial, trivial, trivial⟩ rfl
    (.cons ⟨trivial, trivial, nofun⟩ rfl (.cons ⟨List.cons_ne_nil 0 [], trivial, trivial⟩ rfl
      (.cons ⟨?_, trivial, trivial⟩ rfl (.cons ⟨trivial, trivial, ?_⟩ rfl
        (.cons ⟨List.cons_ne_nil 1 [], trivial, trivial⟩ rfl trivial))))))
  · exact (by decide : (0 : ℤ) < 101)
  · rintro _ ⟨⟩
    decide

/-- Two operations that are held, the second until ten seconds later. -/
def twoHolds : List (Hooks.Event ℕ ℕ ℕ ℕ) :=
  [.add 1 (some .clientPreRegister) 10 100, .runSuspendable .clientPreRegister (some 7) 0 130,
    .answer .pending, .runSuspendable .clientPreRegister (some 8) 0 140, .answer .pending]

lemma permitted_twoHolds : Permitted Hooks.step
    (fun w e => Hooks.Possible w e ∧ Hooks.Registered w e ∧ Hooks.Prompt w e)
    (.init 100) twoHolds := by
  refine .cons ⟨trivial, trivial, trivial⟩ rfl (.cons ⟨trivial, trivial, trivial⟩ rfl
    (.cons ⟨rfl, ?_, ?_⟩ rfl (.cons ⟨trivial, trivial, trivial⟩ rfl
      (.cons ⟨rfl, ?_, ?_⟩ rfl trivial))))
  · rintro - _ _ ⟨⟩ - _ ⟨⟩
    rfl
  · rintro _ _ _ _ _ _ ⟨⟩ ⟨⟩
    exact ⟨by decide, nofun⟩
  · rintro - _ _ ⟨⟩ - _ ⟨⟩
    rfl
  · rintro _ _ _ _ _ _ ⟨⟩ ⟨⟩
    refine ⟨by decide, ?_⟩
    rintro _ ⟨⟩
    decide

/-- Two calls, two requests and two holds: each timer is set for the deadline of the first. -/
theorem timers_in_time_two :
    (∃ w xs, run CacheCalls.step (.init 100) twoCalls = some w ∧ w.calls.Holds xs ∧
      w.armed = some 102 ∧ ∀ d ∈ CacheCalls.deadlines xs, 102 ≤ d) ∧
    (∃ w xs, run Http.step (.init 100 0) twoRequests = some w ∧ w.calls.Holds xs ∧
      w.armed = some 105 ∧ ∀ d ∈ Http.deadlines xs, 105 ≤ d) ∧
    ∃ w ps, run Hooks.step (.init 100) twoHolds = some w ∧ w.holds.Holds ps ∧
      w.armed = some 130 ∧ ∀ d ∈ Hooks.deadlines ps, 130 ≤ d := by
  obtain ⟨hcalls, hrequests, hholds⟩ := timers_in_time 100 0 twoCalls twoRequests twoHolds
  refine ⟨?_, ?_, ?_⟩
  · obtain ⟨w, xs, hrun, hxs, ht⟩ := hcalls (by decide) permitted_twoCalls
    have hw : (run CacheCalls.step (.init 100) twoCalls).map (fun w =>
        (w.armed, w.calls.head, w.stack.length)) = some (some 102, some 1, 0) := by decide +kernel
    obtain ⟨harmed, hhead, hstack⟩ : w.armed = some 102 ∧ w.calls.head = some 1 ∧ w.stack = [] := by
      simpa [hrun] using hw
    refine ⟨w, xs, hrun, hxs, harmed, (ht ?_ (by simp [hstack])).le harmed⟩
    rintro rfl
    cases hhead.symm.trans hxs.chain.ptr
  · obtain ⟨w, xs, hrun, hxs, ht⟩ := hrequests (by decide) permitted_twoRequests
    have hw : (run Http.step (.init 100 0) twoRequests).map (fun w =>
        (w.armed, w.calls.head, w.stack)) = some (some 105, some 1, []) := by decide +kernel
    obtain ⟨harmed, hhead, hstack⟩ : w.armed = some 105 ∧ w.calls.head = some 1 ∧ w.stack = [] := by
      simpa [hrun] using hw
    refine ⟨w, xs, hrun, hxs, harmed, ?_⟩
    cases xs with
    | nil => cases hhead.symm.trans hxs.chain.ptr
    | cons x xs => exact (ht x List.mem_cons_self (by simp [hstack])).le harmed
  · obtain ⟨w, ps, hrun, hps, ht⟩ := hholds permitted_twoHolds
    have hw : (run Hooks.step (.init 100) twoHolds).map (fun w =>
        (w.armed, w.holds.head, w.stack.length)) = some (some 130, some 1, 0) := by decide +kernel
    obtain ⟨harmed, hhead, hstack⟩ : w.armed = some 130 ∧ w.holds.head = some 1 ∧ w.stack = [] := by
      simpa [hrun] using hw
    refine ⟨w, ps, hrun, hps, harmed, (ht ?_ (by simp [hstack, Hooks.Expiring])).le harmed⟩
    rintro rfl
    cases hhead.symm.trans hps.chain.ptr

/-- A call is started with a timeout of two seconds, and another one after the timeout has been
lowered to a fifth of a second. -/
def lowerTimeout : List (CacheCalls.Event ℕ ℕ) :=
  [.configure (some ⟨none, 2000⟩), .register ⟨1, some .forgets⟩, .get (some 2) [107] (some 7),
    .started .ok, .configure (some ⟨none, 200⟩), .get (some 2) [107] (some 8), .started .ok]

lemma permitted_lowerTimeout :
    Permitted CacheCalls.step (fun w e => CacheCalls.Possible w e ∧ CacheCalls.Kept w e)
      (CacheCalls.World.init 100) lowerTimeout :=
  .cons ⟨trivial, nofun, nofun⟩ rfl (.cons ⟨trivial, nofun, nofun⟩ rfl
    (.cons ⟨trivial, nofun, nofun⟩ rfl (.cons ⟨⟨_, _, _, rfl⟩, .started nofun⟩ rfl
      (.cons ⟨trivial, nofun, nofun⟩ rfl (.cons ⟨trivial, nofun, nofun⟩ rfl
        (.cons ⟨⟨_, _, _, rfl⟩, .started nofun⟩ rfl trivial))))))

/-- The second call is to be answered by second 102, and the timer is set for second 103. -/
theorem lowered_timeout_late :
    Permitted CacheCalls.step (fun w e => CacheCalls.Possible w e ∧ CacheCalls.Kept w e)
        (CacheCalls.World.init 100) lowerTimeout ∧
      (run CacheCalls.step (CacheCalls.World.init 100) lowerTimeout).map
        (fun w => (w.stack.length, CacheCalls.cacheDeadline w, w.armed)) =
          some (0, some 102, some 103) :=
  ⟨permitted_lowerTimeout, by decide +kernel⟩

end Ircu
