import Ircu.Http.Basic

/-!
Every HTTP request is replied to once, as long as no handler returns non-zero after its call has
been released.

* `Core`: the invariant of the list of calls. The counter is the number of calls on the list,
  the newest first, and the ledger of requests is balanced.
* `Core.takeAndReply`, `Core.expireLoop`, `Core.pruned`: what the functions do to the list.
-/

namespace Ircu.Http

open Ledger Roster Run List Option List.Pairwise

variable {M H P ρ : Type} {w w' : World M H P ρ} {xs ys : List (ℕ × HttpCall M P)} {a : ℕ}

/-! ### The list of calls -/

def requests (xs : List (ℕ × HttpCall M P)) : List (ℕ × P) := xs.map fun x => (x.1, x.2.pid)

def deadlines (xs : List (ℕ × HttpCall M P)) : List ℤ := xs.map fun x => x.2.deadline

/-- **The invariant of the list.** -/
structure Core (w : World M H P ρ) (xs : List (ℕ × HttpCall M P)) : Prop where
  holds : w.calls.Holds xs
  count : w.count = xs.length
  newest : (addrs xs).Pairwise (· > ·)
  balanced : Balanced (fun _ _ => True) w.book (requests xs) w.calls.next

structure Aside (w w' : World M H P ρ) : Prop where
  stack : w'.stack = w.stack
  armed : w'.armed = w.armed
  next : w'.calls.next = w.calls.next
  now : w'.now = w.now

lemma Aside.refl (w : World M H P ρ) : Aside w w := ⟨rfl, rfl, rfl, rfl⟩

lemma Aside.trans {w''} (h : Aside w w') (h' : Aside w' w'') : Aside w w'' :=
  ⟨h'.stack.trans h.stack, h'.armed.trans h.armed, h'.next.trans h.next, h'.now.trans h.now⟩

lemma Core.init (now timeout) : Core (World.init now timeout : World M H P ρ) [] :=
  ⟨holds_empty, rfl, nil, .empty⟩

lemma Core.congr (h : Core w xs) (hcalls : w'.calls = w.calls) (hcount : w'.count = w.count)
    (hbook : w'.book = w.book) : Core w' xs := by
  refine ⟨?_, ?_, h.newest, ?_⟩
  · rw [hcalls]
    exact h.holds
  · rw [hcount]
    exact h.count
  · rw [hbook, hcalls]
    exact h.balanced

def World.setTimer (w : World M H P ρ) (ds : List ℤ) : World M H P ρ :=
  { w with armed := Deadline.arm w.armed (Deadline.earliest ds) }

lemma Aside.setTimer (h : Aside w w') (ds) : Aside (w.setTimer ds) (w'.setTimer ds) :=
  ⟨h.stack, by rw [World.setTimer, World.setTimer, h.armed], h.next, h.now⟩

lemma Core.arm (h : Core w xs) : httpTimerArm w = some (w.setTimer (deadlines xs)) := by
  rw [httpTimerArm, World.setTimer]
  cases harmed : w.armed with
  | some t =>
    dsimp only
    rw [Deadline.arm, ← harmed]
  | none =>
    rw [httpDeadline, h.holds.fold, map_some, Deadline.earliest, deadlines, foldl_map]

lemma closing_cases (w : World M H P ρ) (a : ℕ) (reply : Reply ρ) (pid : P) :
    (∃ res, closing w a reply = .settled a res) ∨
      ∃ d, closing w a reply = .dropped a d ∧ (fun (_ : P) (_ : Unit) => True) pid d := by
  rw [closing]
  cases w.transport with
  | true => exact .inl ⟨reply, rfl⟩
  | false => exact .inr ⟨(), rfl, trivial⟩

lemma Core.takeAndReply (h : Core w xs) (kind reply) :
    (xs.find? (fun x => kind x.2) = none ∧ takeAndReply w kind reply = some (w, false)) ∨
      ∃ x w', xs.find? (fun x => kind x.2) = some x ∧ takeAndReply w kind reply = some (w', true) ∧
        Core w' (without x.1 xs) ∧ Aside w w' := by
  rw [Http.takeAndReply]
  cases hfind : xs.find? fun x => kind x.2 with
  | none =>
    refine .inl ⟨rfl, ?_⟩
    rw [h.holds.take_none hfind]
    rfl
  | some x =>
    obtain ⟨calls, htake, hcalls, hget, hnext⟩ :=
      h.holds.take (k := fun _ call => kind call) hfind
    have hx := mem_of_find?_eq_some hfind
    obtain ⟨calls', hrel, hcalls', hnext'⟩ :=
      hcalls.release (fun hmem => (mem_addrs_without.mp hmem).2 rfl) hget
    have hlen := length_without h.holds.nodup (mem_addrs_of_mem hx)
    have hcount := h.count
    rw [htake, bind_some]
    dsimp only
    rw [httpFinish, hrel]
    refine .inr ⟨x, _, rfl, rfl, ⟨hcalls', ?_, ?_, ?_⟩, rfl, rfl, hnext'.trans hnext, rfl⟩
    · dsimp only
      omega
    · exact h.newest.sublist (filter_sublist.map _)
    · change Balanced _ (closing w x.1 reply :: w.book) _ calls'.heap.next
      rw [hnext', hnext]
      exact h.balanced.without hx (closing_cases w x.1 reply x.2.pid)

lemma Core.pruned (h : Core w xs) (kind) {calls} {e : ℕ → Posting P (Reply ρ) Unit}
    (hholds : calls.Holds (others kind xs)) (hnext : calls.heap.next = w.calls.heap.next)
    (hcalls : w'.calls = calls) (hcount : w'.count = w.count - (xs.filter fun x => kind x.2).length)
    (hbook : w'.book = ((xs.filter fun x => kind x.2).map fun x => e x.1).reverse ++ w.book)
    (he : ∀ a, (∃ res, e a = .settled a res) ∨ e a = .dropped a ()) : Core w' (others kind xs) := by
  have hlen := length_others kind xs
  have hold := h.count
  refine ⟨hcalls ▸ hholds, by omega, h.newest.sublist (filter_sublist.map _), ?_⟩
  rw [hbook, hcalls, Roster.next, hnext]
  exact h.balanced.others h.holds kind fun x _ _ =>
    (he x.1).imp_right fun hdrop => ⟨(), hdrop, trivial⟩

lemma Core.expireLoop (now) {fuel} (h : Core w xs) (hfuel : xs.length < fuel) :
    ∃ w' ys, expireLoop now fuel w = some w' ∧ Core w' ys ∧ ys ⊆ xs ∧
      Aside (w.setTimer (deadlines ys)) w' := by
  induction fuel generalizing w xs with
  | zero => exact absurd hfuel (Nat.not_lt_zero _)
  | succ fuel ih =>
    rw [Http.expireLoop]
    rcases h.takeAndReply (fun call => decide (call.deadline ≤ now)) (.respond (.status 504)) with
      ⟨-, heq⟩ | ⟨x, w1, hfind, heq, hcore, haside⟩
    · rw [heq]
      exact ⟨_, xs, h.arm, h.congr rfl rfl rfl, List.Subset.refl _, .refl _⟩
    have hx := mem_of_find?_eq_some hfind
    have hlen := length_without h.holds.nodup (mem_addrs_of_mem hx)
    obtain ⟨w', ys, heq', hcore', hsub, haside'⟩ := ih hcore (by omega)
    rw [heq]
    exact ⟨w', ys, heq', hcore', List.Subset.trans hsub filter_sublist.subset,
      (haside.setTimer _).trans haside'⟩

/-! ### The timer -/

/-- All deadlines are times, and none is before the time that the timer is set for. -/
structure Steady (w : World M H P ρ) (xs : List (ℕ × HttpCall M P)) : Prop where
  ahead : Deadline.Ahead w.armed (deadlines xs)
  now : 0 < w.now

structure Timed (w : World M H P ρ) (xs : List (ℕ × HttpCall M P)) : Prop extends Steady w xs where
  set : ∀ x ∈ xs, x.1 ∉ w.stack → w.armed ≠ none

lemma deadlines_subset (h : ys ⊆ xs) : deadlines ys ⊆ deadlines xs := map_subset _ h

lemma Steady.of_aside (h : Steady w xs) (hsub : ys ⊆ xs) (ha : Aside w w') : Steady w' ys := by
  refine ⟨?_, by rw [ha.now]; exact h.now⟩
  rw [ha.armed]
  exact h.ahead.mono (deadlines_subset hsub)

lemma Timed.of_aside (h : Timed w xs) (hsub : ys ⊆ xs) (ha : Aside w w') : Timed w' ys := by
  refine ⟨h.toSteady.of_aside hsub ha, fun x hx hout => ?_⟩
  rw [ha.armed]
  rw [ha.stack] at hout
  exact h.set x (hsub hx) hout

lemma Steady.setTimer (h : Steady w xs) : Timed (w.setTimer (deadlines xs)) xs := by
  refine ⟨⟨h.ahead.arm, h.now⟩, fun x hx _ => ?_⟩
  refine Deadline.arm_ne_none h.ahead.pos ?_
  exact ne_nil_of_mem (mem_map_of_mem hx)

/-! ### One event -/

/-- **The invariant.** The innermost handler is the one of the newest call. -/
structure Inv (w : World M H P ρ) (xs : List (ℕ × HttpCall M P)) : Prop where
  core : Core w xs
  stack : w.stack.Pairwise (· > ·)
  lt : ∀ a ∈ w.stack, a < w.calls.next

/-- A request comes in when the timer is not set for later than its deadline. -/
def Prompt (w : World M H P ρ) : Event M H P ρ → Prop
  | .dispatch _ _ _ => ∀ t, w.armed = some t → t ≤ newDeadline w
  | _ => True

/-- What an event leads to: the invariant is kept, and so is what holds of the timer if the event
is prompt. -/
def Leads (w : World M H P ρ) (xs : List (ℕ × HttpCall M P)) (prompt : Prop)
    (r : Option (World M H P ρ)) : Prop :=
  ∃ w' ys, r = some w' ∧ Inv w' ys ∧ (Timed w xs → prompt → Timed w' ys)

lemma Inv.init (now timeout) : Inv (World.init now timeout : World M H P ρ) [] :=
  ⟨.init now timeout, nil, fun _ h => absurd h not_mem_nil⟩

lemma Inv.of_aside (h : Inv w xs) (hcore : Core w' ys) (ha : Aside w w') : Inv w' ys :=
  ⟨hcore, by rw [ha.stack]; exact h.stack, by rw [ha.stack, ha.next]; exact h.lt⟩

lemma Inv.leads {prompt} (h : Inv w xs) (hcore : Core w' ys) (hsub : ys ⊆ xs)
    (ha : Aside w w') : Leads w xs prompt (some w') :=
  ⟨w', ys, rfl, h.of_aside hcore ha, fun ht _ => ht.of_aside hsub ha⟩

lemma Inv.leave {stack} (h : Inv w xs) (hs : w.stack = a :: stack) : Inv { w with stack } xs := by
  have hstack := h.stack
  have hlt := h.lt
  rw [hs] at hstack hlt
  exact ⟨h.core.congr rfl rfl rfl, (pairwise_cons.mp hstack).2,
    fun b hb => hlt b (mem_cons_of_mem _ hb)⟩

lemma newDeadline_pos (hnow : 0 < w.now) : 0 < newDeadline w := by
  have hms : 0 < httpTimeoutMs w := by
    rw [httpTimeoutMs, HTTP_TIMEOUT_DEFAULT_MS, HTTP_TIMEOUT_MAX_MS]
    split_ifs <;> omega
  rw [newDeadline]
  omega

lemma Inv.dispatch (h : Inv w xs) (method path : List UInt8) (pid : P) :
    Leads w xs (∀ t, w.armed = some t → t ≤ newDeadline w)
      (some (httpDispatch w method path pid)) := by
  rw [httpDispatch]
  split_ifs
  · exact h.leads (h.core.congr rfl rfl rfl) (List.Subset.refl _) ⟨rfl, rfl, rfl, rfl⟩
  split
  · exact h.leads (h.core.congr rfl rfl rfl) (List.Subset.refl _) ⟨rfl, rfl, rfl, rfl⟩
  rename_i route _
  have hcount := h.core.count
  refine ⟨_, (w.calls.next, _) :: xs, rfl, ⟨⟨h.core.holds.push _, ?_, ?_, ?_⟩, ?_, ?_⟩, ?_⟩
  · simp only [length_cons]
    push_cast
    omega
  · exact pairwise_cons.mpr ⟨fun b hb => h.core.holds.lt_next hb, h.core.newest⟩
  · exact h.core.balanced.opened pid
  · exact pairwise_cons.mpr ⟨h.lt, h.stack⟩
  · intro b hb
    rcases mem_cons.mp hb with rfl | hb
    · exact Nat.lt_succ_self _
    · exact Nat.lt_succ_of_lt (h.lt b hb)
  intro ht hprompt
  refine ⟨⟨ht.ahead.cons (newDeadline_pos ht.now) hprompt, ht.now⟩, fun x hx hout => ?_⟩
  rcases mem_cons.mp hx with rfl | hx
  · exact absurd mem_cons_self hout
  · exact ht.set x hx fun hin => hout (mem_cons_of_mem _ hin)

lemma Core.lt_of_find (h : Core w xs) (kind : HttpCall M P → Bool) {x y}
    (hx : xs.find? (fun x => kind x.2) = some x) (hy : y ∈ xs) (hkind : kind y.2 = true)
    (hne : y.1 ≠ x.1) : y.1 < x.1 := by
  obtain ⟨-, as, bs, rfl, has⟩ := List.find?_eq_some_iff_append.mp hx
  have hnewest := h.newest
  rw [addrs_append, addrs_cons, pairwise_append, pairwise_cons] at hnewest
  rcases mem_append.mp hy with hin | hin
  · have := has y hin
    simp [hkind] at this
  · rcases mem_cons.mp hin with rfl | hin
    · exact absurd rfl hne
    · exact hnewest.2.1.1 y.1 (mem_addrs_of_mem hin)

lemma Inv.timed_done {stack call x} (h : Inv w xs)
    (hs : w.stack = a :: stack) (hget : w.calls.get a = some call)
    (hx : xs.find? (fun x => decide (x.2.id = call.id)) = some x) (ht : Timed w xs) :
    Timed { w with stack } (without x.1 xs) := by
  refine ⟨⟨ht.ahead.mono (deadlines_subset filter_sublist.subset), ht.now⟩, fun y hy hout => ?_⟩
  obtain ⟨hin, hne⟩ := mem_without.mp hy
  by_cases hya : y.1 = a
  · -- another call with the same handle was taken: it is newer, so its handler has returned
    have hcall : y.2 = call := by
      have hget' := h.core.holds.get hin
      rw [hya, hget] at hget'
      exact (some.inj hget').symm
    have hlt := h.core.lt_of_find (fun c => decide (c.id = call.id)) hx hin (by simp [hcall]) hne
    refine ht.set x (mem_of_find?_eq_some hx) fun hmem => ?_
    have hstack := h.stack
    rw [hs, pairwise_cons] at hstack
    rw [hs] at hmem
    rcases mem_cons.mp hmem with heq | hmem
    · omega
    · have := hstack.1 x.1 hmem
      omega
  · refine ht.set y hin fun hmem => ?_
    rw [hs] at hmem
    exact hout ((mem_cons.mp hmem).resolve_left hya)

lemma Inv.ret [DecidableEq M] (h : Inv w xs) {done} (hne : w.stack ≠ [])
    (hheld : Held w (.ret done)) : Leads w xs True (step w (.ret done)) := by
  obtain ⟨a, stack, hs⟩ := exists_cons_of_ne_nil hne
  have hleave := h.leave hs
  rw [step, hs]
  dsimp only
  rw [dispatched]
  cases done with
  | false =>
    rw [hleave.core.arm]
    refine ⟨_, xs, rfl, ⟨hleave.core.congr rfl rfl rfl, hleave.stack, hleave.lt⟩, fun ht _ => ?_⟩
    have hsteady : Steady { w with stack } xs := ⟨ht.ahead, ht.now⟩
    exact hsteady.setTimer.of_aside (List.Subset.refl _) ⟨rfl, rfl, rfl, rfl⟩
  | true =>
    have hlive : (w.calls.get a).isSome = true := hheld a (by rw [hs]; rfl)
    obtain ⟨call, hcall⟩ := isSome_iff_exists.mp hlive
    rw [hcall, bind_some]
    rcases hleave.core.takeAndReply (fun c => decide (c.id = call.id)) (.respond .own) with
      ⟨hfind, heq⟩ | ⟨x, w', hfind, heq, hcore, haside⟩
    · rw [heq]
      refine ⟨_, xs, rfl, hleave.of_aside (hleave.core.congr rfl rfl rfl) ⟨rfl, rfl, rfl, rfl⟩,
        fun ht _ => ⟨⟨ht.ahead, ht.now⟩, fun y hy hout => ht.set y hy fun hmem => ?_⟩⟩
      rw [hs] at hmem
      rcases mem_cons.mp hmem with hya | hmem
      · have hget := h.core.holds.get hy
        rw [hya, hcall] at hget
        have := List.find?_eq_none.mp hfind y hy
        simp [some.inj hget] at this
      · exact hout hmem
    · rw [heq]
      refine ⟨_, _, rfl, hleave.of_aside (hcore.congr rfl rfl rfl)
        ⟨haside.stack, haside.armed, haside.next, haside.now⟩, fun ht _ => ?_⟩
      exact (h.timed_done hs hcall hfind ht).of_aside (List.Subset.refl _)
        ⟨haside.stack, haside.armed, haside.next, haside.now⟩

/-- **One event.** Nothing that was freed is touched, and the invariant is kept. -/
lemma Inv.step [DecidableEq M] (h : Inv w xs) {e} (hposs : Possible w e)
    (hheld : Held w e) : Leads w xs (Prompt w e) (step w e) := by
  have hsame : ∀ {w' : World M H P ρ} {prompt : Prop}, w'.calls = w.calls → w'.count = w.count →
      w'.book = w.book → Aside w w' → Leads w xs prompt (some w') :=
    fun hcalls hcount hbook ha =>
      h.leads (h.core.congr hcalls hcount hbook) (List.Subset.refl _) ha
  cases e with
  | addRoute mod method path fn =>
    rw [Http.step, httpAddRoute]
    split_ifs <;> exact hsame rfl rfl rfl ⟨rfl, rfl, rfl, rfl⟩
  | delRoute mod method path | configure timeout => exact hsame rfl rfl rfl ⟨rfl, rfl, rfl, rfl⟩
  | dispatch method path pid => exact h.dispatch method path pid
  | ret done => exact h.ret hposs hheld
  | respond id res =>
    rw [Http.step, httpRespond]
    rcases h.core.takeAndReply (fun call => decide (call.id = id))
      (.respond ((res.map .given).getD .own)) with ⟨-, heq⟩ | ⟨x, w', -, heq, hcore, haside⟩
    · rw [heq]
      exact hsame rfl rfl rfl (.refl w)
    · rw [heq]
      exact h.leads hcore filter_sublist.subset haside
  | fire =>
    have hoff : Core { w with armed := none } xs := h.core.congr rfl rfl rfl
    obtain ⟨w', ys, heq, hcore, hsub, haside⟩ := hoff.expireLoop w.now hoff.holds.length_lt
    refine ⟨w', ys, heq, ⟨hcore, ?_, ?_⟩, fun ht _ => ?_⟩
    · rw [haside.stack]
      exact h.stack
    · rw [haside.stack, haside.next]
      exact h.lt
    · have hsteady : Steady { w with armed := none } ys :=
        ⟨ht.ahead.off.mono (deadlines_subset hsub), ht.now⟩
      exact hsteady.setTimer.of_aside (List.Subset.refl _) haside
  | unload mod =>
    obtain ⟨calls, hprune, hholds, hnext⟩ :=
      h.core.holds.prune fun call => decide (call.mod = mod)
    rw [Http.step, httpDropModule, hprune]
    refine h.leads (h.core.pruned (fun call => decide (call.mod = mod)) (e := fun a =>
      closing w a .cancel) hholds hnext rfl rfl rfl fun a => ?_) filter_sublist.subset
      ⟨rfl, rfl, hnext, rfl⟩
    rw [closing]
    cases w.transport with
    | true => exact .inl ⟨_, rfl⟩
    | false => exact .inr rfl
  | setTransport =>
    rw [Http.step, httpSetTransport]
    split_ifs <;> exact hsame rfl rfl rfl ⟨rfl, rfl, rfl, rfl⟩
  | clearTransport =>
    rw [Http.step, httpClearTransport]
    split_ifs
    · exact hsame rfl rfl rfl (.refl w)
    obtain ⟨calls, hprune, hholds, hnext⟩ := h.core.holds.prune fun _ => true
    rw [hprune]
    exact h.leads (h.core.pruned (fun _ => true) hholds hnext rfl rfl rfl fun a => .inr rfl)
      filter_sublist.subset ⟨rfl, rfl, hnext, rfl⟩
  | tick now =>
    exact ⟨_, xs, rfl, ⟨h.core.congr rfl rfl rfl, h.stack, h.lt⟩,
      fun ht _ => ⟨⟨ht.ahead, hposs⟩, ht.set⟩⟩

/-! ### Requests that are dropped -/

/-- A book that goes on from another one, with nothing dropped since. -/
def Adds (base book : List (Posting P (Reply ρ) Unit)) : Prop :=
  ∃ new, book = new ++ base ∧ ∀ a, .dropped a () ∉ new

variable {base book : List (Posting P (Reply ρ) Unit)}

lemma Adds.refl (base : List (Posting P (Reply ρ) Unit)) : Adds base base :=
  ⟨[], rfl, fun _ => not_mem_nil⟩

lemma Adds.append (h : Adds base book) {new} (hnew : ∀ a, .dropped a () ∉ new) :
    Adds base (new ++ book) := by
  obtain ⟨old, rfl, hold⟩ := h
  refine ⟨new ++ old, (append_assoc ..).symm, fun a hin => ?_⟩
  exact (mem_append.mp hin).elim (hnew a) (hold a)

lemma Adds.cons (h : Adds base book) {e} (he : ∀ a, .dropped a () ≠ e) : Adds base (e :: book) :=
  h.append (show ∀ a, .dropped a () ∉ [e] from fun a hin => he a (mem_singleton.mp hin))

lemma Adds.subset (h : Adds base book) : base ⊆ book := by
  obtain ⟨new, rfl, -⟩ := h
  exact subset_append_right _ _

lemma Adds.dropped (h : Adds base book) (hin : .dropped a () ∈ book) : .dropped a () ∈ base := by
  obtain ⟨new, rfl, hnew⟩ := h
  exact (mem_append.mp hin).resolve_left (hnew a)

/-- Without a transport nothing is held; nothing has been dropped since some time before. -/
structure Connected (base : List (Posting P (Reply ρ) Unit)) (w : World M H P ρ) : Prop where
  calls : w.transport = false → w.calls.head = none
  book : Adds base w.book

lemma Connected.congr (h : Connected base w) (htransport : w'.transport = w.transport)
    (hcalls : w'.calls = w.calls) (hbook : w'.book = w.book) : Connected base w' := by
  refine ⟨?_, ?_⟩
  · rw [htransport, hcalls]
    exact h.calls
  · rw [hbook]
    exact h.book

lemma Connected.httpTimerArm (h : Connected base w) (heq : httpTimerArm w = some w') :
    Connected base w' := by
  rw [Http.httpTimerArm] at heq
  split at heq
  · cases heq
    exact h
  · obtain ⟨e, -, rfl⟩ := map_eq_some_iff.mp heq
    exact h.congr rfl rfl rfl

lemma Connected.takeAndReply {kind reply found}
    (h : Connected base w) (heq : takeAndReply w kind reply = some (w', found)) :
    Connected base w' := by
  rw [Http.takeAndReply] at heq
  cases htr : w.transport with
  | false =>
    rw [take_of_head_none (h.calls htr)] at heq
    cases heq
    exact h.congr rfl rfl rfl
  | true =>
    obtain ⟨⟨calls, found⟩, -, heq⟩ := bind_eq_some_iff.mp heq
    cases found with
    | none =>
      cases heq
      exact ⟨fun hfalse => absurd (htr.symm.trans hfalse) (by decide), h.book⟩
    | some a =>
      simp only [httpFinish, Option.map_map, Option.map_eq_some_iff] at heq
      obtain ⟨calls', -, heq⟩ := heq
      cases heq
      refine ⟨fun hfalse => absurd (htr.symm.trans hfalse) (by decide), h.book.cons fun b => ?_⟩
      rw [closing, htr]
      exact nofun

lemma Connected.expireLoop {now fuel} (h : Connected base w)
    (heq : expireLoop now fuel w = some w') : Connected base w' := by
  induction fuel generalizing w with
  | zero => cases heq
  | succ fuel ih =>
    rw [Http.expireLoop] at heq
    split at heq
    · cases heq
    · rename_i htake
      exact (h.takeAndReply htake).httpTimerArm heq
    · rename_i htake
      exact ih (h.takeAndReply htake) heq

/-- As long as the transport is not cleared, nothing is dropped. -/
lemma Connected.step [DecidableEq M] {e} (h : Connected base w)
    (he : e ≠ .clearTransport) (heq : step w e = some w') : Connected base w' := by
  cases e with
  | addRoute mod method path fn =>
    rw [Http.step, httpAddRoute] at heq
    split_ifs at heq
    all_goals
      cases heq
      exact h.congr rfl rfl rfl
  | delRoute mod method path | configure timeout | tick now =>
    cases heq
    exact h.congr rfl rfl rfl
  | dispatch method path pid =>
    rw [Http.step, httpDispatch] at heq
    split_ifs at heq with htr
    · cases heq
      exact h.congr rfl rfl rfl
    split at heq
    · cases heq
      exact h.congr rfl rfl rfl
    · cases heq
      exact ⟨fun hfalse => absurd hfalse htr, h.book.cons nofun⟩
  | ret done =>
    rw [Http.step] at heq
    split at heq
    · cases heq
    rename_i a stack _
    have hleave : Connected base { w with stack } := h.congr rfl rfl rfl
    rw [dispatched] at heq
    split_ifs at heq
    · obtain ⟨call, -, heq⟩ := bind_eq_some_iff.mp heq
      obtain ⟨⟨w1, found⟩, htake, rfl⟩ := map_eq_some_iff.mp heq
      exact (hleave.takeAndReply htake).congr rfl rfl rfl
    · obtain ⟨w1, harm, rfl⟩ := map_eq_some_iff.mp heq
      exact (hleave.httpTimerArm harm).congr rfl rfl rfl
  | respond id res =>
    obtain ⟨⟨w1, found⟩, htake, rfl⟩ := map_eq_some_iff.mp heq
    exact h.takeAndReply htake
  | fire =>
    have hoff : Connected base { w with armed := none } := h.congr rfl rfl rfl
    exact hoff.expireLoop heq
  | unload mod =>
    obtain ⟨⟨calls, gone⟩, hprune, rfl⟩ := map_eq_some_iff.mp heq
    cases htr : w.transport with
    | false =>
      rw [prune_of_head_none (h.calls htr)] at hprune
      cases hprune
      exact h.congr htr.symm rfl rfl
    | true =>
      refine ⟨fun hfalse => (by cases hfalse), h.book.append fun b hb => ?_⟩
      simp [closing, htr] at hb
  | setTransport =>
    rw [Http.step, httpSetTransport] at heq
    split_ifs at heq with htr
    · cases heq
      exact h.congr rfl rfl rfl
    · cases heq
      exact ⟨fun hfalse => (by cases hfalse), h.book⟩
  | clearTransport => exact absurd rfl he

lemma Inv.clear (h : Inv w xs) (htr : w.transport = true) (heq : httpClearTransport w = some w') :
    w'.calls.head = none ∧ w.book ⊆ w'.book ∧
      ∀ a v, .opened a v ∈ w'.book → .opened a v ∈ w.book := by
  obtain ⟨calls, hprune, hholds, -⟩ := h.core.holds.prune fun _ => true
  rw [httpClearTransport, if_neg (by simp [htr]), hprune] at heq
  cases heq
  refine ⟨?_, subset_append_right _ _, fun a v hin => ?_⟩
  · have hnone : Roster.others (fun _ => true) xs = [] := by simp [Roster.others]
    rw [hnone] at hholds
    exact hholds.chain.ptr
  · simpa using hin

/-- The transport was removed at a time at which a request had come in. -/
def RemovedAfter [DecidableEq M] (s : World M H P ρ) (es : List (Event M H P ρ)) (a : ℕ) (pid : P) :
    Prop :=
  ∃ before after u, es = before ++ .clearTransport :: after ∧ run step s before = some u ∧
    u.transport = true ∧ .opened a pid ∈ u.book

/-- What is dropped in a run had come in before the transport was removed. The invariant is carried
along from the state before each event. -/
lemma removedAfter_of_dropped [DecidableEq M] {s es} (hinv : Inv s xs)
    (hcalls : s.transport = false → s.calls.head = none)
    (hes : Permitted step (fun w e => Possible w e ∧ Held w e) s es)
    (hrun : run step s es = some w) :
    s.book ⊆ w.book ∧ ∀ a, .dropped a () ∈ w.book → .dropped a () ∈ s.book ∨
      ∃ pid, RemovedAfter s es a pid ∧ .opened a pid ∈ w.book := by
  induction es generalizing s xs with
  | nil =>
    cases hrun
    exact ⟨List.Subset.refl _, fun a h => .inl h⟩
  | cons e es ih =>
    obtain ⟨s', heq, hrest⟩ := run_cons_eq_some.mp hrun
    obtain ⟨_, ys, heq', hinv', -⟩ := hinv.step hes.1.1 hes.1.2
    cases heq'.symm.trans heq
    have hhead : (s'.transport = false → s'.calls.head = none) ∧ s.book ⊆ s'.book ∧
        ∀ a, .dropped a () ∈ s'.book → .dropped a () ∈ s.book ∨
          e = .clearTransport ∧ s.transport = true ∧ ∃ pid, .opened a pid ∈ s.book := by
      by_cases hclear : e = .clearTransport ∧ s.transport = true
      · obtain ⟨rfl, htr⟩ := hclear
        obtain ⟨hempty, hsub, hopened⟩ := hinv.clear htr heq
        refine ⟨fun _ => hempty, hsub, fun a hin => .inr ⟨rfl, htr, ?_⟩⟩
        obtain ⟨pid, hpid, -⟩ := hinv'.core.balanced.fit a () hin
        exact ⟨pid, hopened a pid hpid⟩
      · have hconn : Connected s.book s' := by
          by_cases he : e = .clearTransport
          · obtain rfl := he
            rw [Http.step, httpClearTransport, if_pos (by simpa using hclear)] at heq
            cases heq
            exact ⟨hcalls, .refl _⟩
          · exact Connected.step ⟨hcalls, .refl _⟩ he heq
        exact ⟨hconn.calls, hconn.book.subset, fun a hin => .inl (hconn.book.dropped hin)⟩
    obtain ⟨hcalls', hsub, hnew⟩ := hhead
    obtain ⟨hsub', hlater⟩ := ih hinv' hcalls' (hes.2 s' heq) hrest
    refine ⟨List.Subset.trans hsub hsub', fun a hin => ?_⟩
    rcases hlater a hin with hin | ⟨pid, ⟨before, after, u, rfl, hu, htr, hopen⟩, hw⟩
    · refine (hnew a hin).imp_right fun ⟨he, htr, pid, hopen⟩ => ?_
      exact ⟨pid, ⟨[], es, s, by rw [he, nil_append], rfl, htr, hopen⟩, hsub' (hsub hopen)⟩
    · exact .inr ⟨pid, ⟨e :: before, after, u, rfl, run_cons_eq_some.mpr ⟨s', heq, hu⟩, htr, hopen⟩,
        hw⟩

/-! ### Whole runs -/

/-- **Every request is replied to once**, as long as no handler returns non-zero after its own call
has been released. No call is used after it was released, and the counter is right. A request that
was accepted is held, or had one response or one cancel, or the transport was removed after it had
come in. -/
theorem requests_settled_once [DecidableEq M] (now timeout : ℤ) (es : List (Event M H P ρ))
    (hes : Permitted step (fun w e => Possible w e ∧ Held w e)
      (World.init now timeout : World M H P ρ) es) :
    ∃ w xs, run step (World.init now timeout : World M H P ρ) es = some w ∧ w.calls.Holds xs ∧
      w.count = xs.length ∧
      ∀ a pid, .opened a pid ∈ w.book →
        ((a, pid) ∈ requests xs ∧ settlements w.book a = 0 ∧ drops w.book a = 0) ∨
          ((a, pid) ∉ requests xs ∧ settlements w.book a = 1 ∧ drops w.book a = 0) ∨
          ((a, pid) ∉ requests xs ∧ settlements w.book a = 0 ∧
            RemovedAfter (World.init now timeout) es a pid) := by
  obtain ⟨w, hrun, xs, hinv⟩ := run_safe (fun w => ∃ xs, Inv w xs)
    (fun w e ⟨xs, h⟩ hall => by
      obtain ⟨w', ys, heq, hinv, -⟩ := h.step hall.1 hall.2
      exact ⟨w', heq, ys, hinv⟩) ⟨[], Inv.init now timeout⟩ hes
  refine ⟨w, xs, hrun, hinv.core.holds, hinv.core.count, fun a pid hopen => ?_⟩
  rcases hinv.core.balanced.cases hopen with hheld | hset | ⟨hin, hset, d, hdrop, -⟩
  · exact .inl hheld
  · exact .inr (.inl hset)
  · obtain ⟨-, hdropped⟩ := removedAfter_of_dropped (Inv.init now timeout) (fun _ => rfl) hes hrun
    obtain ⟨pid', hremoved, hopen'⟩ := (hdropped a hdrop).resolve_left not_mem_nil
    obtain rfl := hinv.core.balanced.unique a pid pid' hopen hopen'
    exact .inr (.inr ⟨hin, hset, hremoved⟩)

/-- A module claims a route and keeps the request that comes in; the answer is given later, and a
second time. -/
def answerTwice : List (Event ℕ ℕ ℕ ℕ) :=
  [.setTransport, .addRoute 1 (str "GET") (str "/x") 7, .dispatch (str "GET") (str "/x") 5,
    .ret false, .respond 1 (some 200), .respond 1 none]

lemma permitted_answerTwice : Permitted step (fun w e => Possible w e ∧ Held w e)
    (World.init 0 0 : World ℕ ℕ ℕ ℕ) answerTwice := by
  refine .cons ⟨trivial, trivial⟩ rfl (.cons ⟨trivial, trivial⟩ rfl (.cons ⟨trivial, trivial⟩ rfl
    (.cons ⟨?_, trivial⟩ rfl (.cons ⟨trivial, trivial⟩ rfl
      (.cons ⟨trivial, trivial⟩ rfl trivial)))))
  exact cons_ne_nil 0 []

theorem requests_settled_once_answerTwice :
    Permitted step (fun w e => Possible w e ∧ Held w e)
        (World.init 0 0 : World ℕ ℕ ℕ ℕ) answerTwice ∧
      ∃ w xs, run step (World.init 0 0 : World ℕ ℕ ℕ ℕ) answerTwice = some w ∧
        w.calls.Holds xs ∧ w.count = xs.length := by
  obtain ⟨w, xs, hrun, hholds, hcount, -⟩ :=
    requests_settled_once 0 0 answerTwice permitted_answerTwice
  exact ⟨permitted_answerTwice, w, xs, hrun, hholds, hcount⟩

/-- A handler answers through `http_respond` and returns non-zero as well: `http_dispatch` reads the
handle of a call that has been freed. -/
theorem dispatch_reads_released :
    (run step (World.init 0 0 : World ℕ ℕ ℕ ℕ)
        [.setTransport, .addRoute 1 (str "GET") (str "/x") 7, .dispatch (str "GET") (str "/x") 5,
          .respond 1 (some 200)]).map (fun w => (w.stack, w.count)) = some ([0], 0) ∧
      (run step (World.init 0 0 : World ℕ ℕ ℕ ℕ)
        [.setTransport, .addRoute 1 (str "GET") (str "/x") 7, .dispatch (str "GET") (str "/x") 5,
          .respond 1 (some 200), .ret true]).isNone = true := by
  decide +kernel

end Ircu.Http
