import Mathlib.Tactic

/-!
Two processes that talk to each other over a link.

Each side has a handler for one message, which changes its state and sends messages
back. Both directions keep the order of messages; which side gets its next one is left
open. Deliveries to the two sides commute (`deliver_comm`), so nothing depends on the
interleaving: if one schedule empties both directions, then every schedule can be
continued to the same end, and ends there when nothing is under way any more
(`run_confluent`).
-/

namespace Ircu

variable {σ τ M : Type*}

/-- The states of two processes and the messages under way to each of them. -/
@[ext] structure Duplex (σ τ M : Type*) where
  left : σ
  right : τ
  toLeft : List M
  toRight : List M

namespace Duplex

def Quiet (s : Duplex σ τ M) : Prop := s.toLeft = [] ∧ s.toRight = []

variable (f : σ → M → σ × List M) (g : τ → M → τ × List M)

def deliver (s : Duplex σ τ M) : Bool → Option (Duplex σ τ M)
  | true =>
    match s.toLeft with
    | [] => none
    | m :: ms => some ⟨(f s.left m).1, s.right, ms, s.toRight ++ (f s.left m).2⟩
  | false =>
    match s.toRight with
    | [] => none
    | m :: ms => some ⟨s.left, (g s.right m).1, s.toLeft ++ (g s.right m).2, ms⟩

/-- Deliver according to a schedule. Where there is nothing to deliver, nothing
happens. -/
def run : List Bool → Duplex σ τ M → Duplex σ τ M
  | [], s => s
  | d :: ds, s => run ds ((deliver f g s d).getD s)

inductive Steps : ℕ → Duplex σ τ M → Duplex σ τ M → Prop
  | refl (s) : Steps 0 s s
  | step {n s t q} (d : Bool) (h : deliver f g s d = some t) (hs : Steps n t q) : Steps (n + 1) s q

@[simp] lemma run_nil (s) : run f g [] s = s := rfl

variable (ds : List Bool)

@[simp] lemma run_left (x : σ) (y : τ) (m : M) (ms out : List M) :
    run f g (true :: ds) ⟨x, y, m :: ms, out⟩ =
      run f g ds ⟨(f x m).1, y, ms, out ++ (f x m).2⟩ := rfl

@[simp] lemma run_left_nil (x : σ) (y : τ) (out : List M) :
    run f g (true :: ds) ⟨x, y, [], out⟩ = run f g ds ⟨x, y, [], out⟩ := rfl

@[simp] lemma run_right (x : σ) (y : τ) (m : M) (ms out : List M) :
    run f g (false :: ds) ⟨x, y, out, m :: ms⟩ =
      run f g ds ⟨x, (g y m).1, out ++ (g y m).2, ms⟩ := rfl

@[simp] lemma run_right_nil (x : σ) (y : τ) (out : List M) :
    run f g (false :: ds) ⟨x, y, out, []⟩ = run f g ds ⟨x, y, out, []⟩ := rfl

variable {f g} {s t u q : Duplex σ τ M} {n : ℕ} {d : Bool}

lemma deliver_comm (ht : deliver f g s true = some t) (hu : deliver f g s false = some u) :
    ∃ w, deliver f g t false = some w ∧ deliver f g u true = some w := by
  cases hl : s.toLeft with
  | nil => simp [deliver, hl] at ht
  | cons m ms =>
    cases hr : s.toRight with
    | nil => simp [deliver, hr] at hu
    | cons k ks =>
      simp only [deliver, hl, hr, Option.some_inj] at ht hu
      subst ht hu
      refine ⟨⟨(f s.left m).1, (g s.right k).1, ms ++ (g s.right k).2,
        ks ++ (f s.left m).2⟩, ?_, ?_⟩
      all_goals simp [deliver]

lemma deliver_comm_ne {d d'} (hne : d ≠ d') (ht : deliver f g s d = some t)
    (hu : deliver f g s d' = some u) :
    ∃ w, deliver f g t d' = some w ∧ deliver f g u d = some w := by
  cases d with
  | true =>
    obtain rfl : d' = false := by simpa using hne.symm
    exact deliver_comm ht hu
  | false =>
    obtain rfl : d' = true := by simpa using hne.symm
    obtain ⟨w, hw, hw'⟩ := deliver_comm hu ht
    exact ⟨w, hw', hw⟩

lemma Quiet.deliver_eq_none (hq : Quiet s) (d) : deliver f g s d = none := by
  cases d with
  | true => rw [deliver, hq.1]
  | false => rw [deliver, hq.2]

lemma Steps.pass (hs : Steps f g n s q) (hq : Quiet q) (ht : deliver f g s d = some t) :
    ∃ m, n = m + 1 ∧ Steps f g m t q := by
  induction n generalizing s t with
  | zero =>
    cases hs
    rw [hq.deliver_eq_none] at ht
    cases ht
  | succ n ih =>
    cases hs with
    | step d' hu hs =>
      refine ⟨n, rfl, ?_⟩
      by_cases hd : d = d'
      · subst hd
        rw [hu, Option.some_inj] at ht
        rwa [← ht]
      · obtain ⟨w, hw, hw'⟩ := deliver_comm_ne hd ht hu
        obtain ⟨m, rfl, hm⟩ := ih hs hw'
        exact .step d' hw hm

lemma Steps.run (hs : Steps f g n s q) (hq : Quiet q) (ds) : ∃ m, Steps f g m (run f g ds s) q := by
  induction ds generalizing n s with
  | nil => exact ⟨n, hs⟩
  | cons d ds ih =>
    rw [Duplex.run]
    cases ht : deliver f g s d with
    | none => exact ih hs
    | some t =>
      obtain ⟨m, -, hm⟩ := hs.pass hq ht
      exact ih hm

lemma run_append (ds ds' : List Bool) (s) : run f g (ds ++ ds') s = run f g ds' (run f g ds s) := by
  induction ds generalizing s with
  | nil => rfl
  | cons d ds ih => exact ih _

lemma Steps.exists_run (hs : Steps f g n s q) : ∃ ds, Duplex.run f g ds s = q := by
  induction hs with
  | refl s => exact ⟨[], rfl⟩
  | step d h hs ih =>
    obtain ⟨ds, hds⟩ := ih
    exact ⟨d :: ds, by rw [Duplex.run, h]; exact hds⟩

lemma exists_steps (ds s) : ∃ n, Steps f g n s (run f g ds s) := by
  induction ds generalizing s with
  | nil => exact ⟨0, .refl s⟩
  | cons d ds ih =>
    rw [run]
    cases ht : deliver f g s d with
    | none => exact ih s
    | some t =>
      obtain ⟨n, hn⟩ := ih t
      exact ⟨n + 1, .step d ht hn⟩

/-- **If one schedule comes to an end, every schedule comes to the same one.** -/
theorem run_confluent {ds₀} (hq : Quiet (run f g ds₀ s)) (ds) :
    (Quiet (run f g ds s) → run f g ds s = run f g ds₀ s) ∧
      ∃ ds', run f g (ds ++ ds') s = run f g ds₀ s := by
  obtain ⟨n, hn⟩ := exists_steps ds₀ s
  obtain ⟨m, hm⟩ := hn.run hq ds
  constructor
  · intro hquiet
    generalize run f g ds s = t at hm hquiet
    cases hm with
    | refl => rfl
    | step d h _ =>
      rw [hquiet.deliver_eq_none] at h
      cases h
  · obtain ⟨ds', hds'⟩ := hm.exists_run
    exact ⟨ds', by rw [run_append]; exact hds'⟩

end Duplex

end Ircu
