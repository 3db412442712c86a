import Mathlib.Tactic

/-!
Deadlines and the timer that is set for the earliest of them.

A deadline of zero stands for none. The timer is set when it is not running, and left alone
when it is.

* `earliest_le`, `earliest_eq_zero`: what the walk over the deadlines finds.
* `Ahead`: if the timer is set, then for no later than any deadline. `Ahead.arm` keeps this when
  the timer is set, `Ahead.cons` when a deadline is added that is no earlier than the timer.
-/

namespace Deadline

open List Option

def sooner (e d : ℤ) : ℤ := if e = 0 ∨ d < e then d else e

def earliest (ds : List ℤ) : ℤ := ds.foldl sooner 0

/-- The timer is set for the earliest deadline, unless it is set already. -/
def arm (armed : Option ℤ) (e : ℤ) : Option ℤ :=
  match armed with
  | some t => some t
  | none => if e = 0 then none else some e

variable {ds ds' : List ℤ} {d e : ℤ} {armed : Option ℤ}

lemma foldl_sooner (he : 0 < e) (hds : ∀ d ∈ ds, 0 < d) :
    0 < ds.foldl sooner e ∧ ds.foldl sooner e ≤ e ∧ ∀ d ∈ ds, ds.foldl sooner e ≤ d := by
  induction ds generalizing e with
  | nil => exact ⟨he, le_rfl, fun d hd => by cases hd⟩
  | cons d ds ih =>
    have hd := hds d mem_cons_self
    have hsooner : 0 < sooner e d ∧ sooner e d ≤ e ∧ sooner e d ≤ d := by
      rw [sooner]
      split_ifs with h <;> omega
    obtain ⟨hpos, hle, hall⟩ := ih hsooner.1 fun d' hd' => hds d' (mem_cons_of_mem _ hd')
    refine ⟨hpos, hle.trans hsooner.2.1, fun d' hd' => ?_⟩
    rcases mem_cons.mp hd' with rfl | hd'
    · exact hle.trans hsooner.2.2
    · exact hall d' hd'

lemma earliest_cons : earliest (d :: ds) = ds.foldl sooner d := by
  rw [earliest, foldl_cons, sooner, if_pos (Or.inl rfl)]

lemma earliest_le (hds : ∀ d ∈ ds, 0 < d) (hd : d ∈ ds) : earliest ds ≤ d := by
  cases ds with
  | nil => cases hd
  | cons d' ds =>
    rw [earliest_cons]
    obtain ⟨-, hle, hall⟩ := foldl_sooner (hds d' mem_cons_self)
      fun d hd => hds d (mem_cons_of_mem _ hd)
    rcases mem_cons.mp hd with rfl | hd
    · exact hle
    · exact hall d hd

lemma earliest_eq_zero (hds : ∀ d ∈ ds, 0 < d) : earliest ds = 0 ↔ ds = [] := by
  cases ds with
  | nil => exact ⟨fun _ => rfl, fun _ => rfl⟩
  | cons d ds =>
    have hpos := (foldl_sooner (hds d mem_cons_self)
      fun d hd => hds d (mem_cons_of_mem _ hd)).1
    exact ⟨fun h => absurd h hpos.ne', fun h => by cases h⟩

/-- All deadlines are times, and if the timer is set, it is set for no later than any. -/
structure Ahead (armed : Option ℤ) (ds : List ℤ) : Prop where
  pos : ∀ d ∈ ds, 0 < d
  le : ∀ t, armed = some t → ∀ d ∈ ds, t ≤ d

lemma Ahead.nil (armed) : Ahead armed [] :=
  ⟨fun _ hd => absurd hd not_mem_nil, fun _ _ _ hd => absurd hd not_mem_nil⟩

lemma Ahead.mono (h : Ahead armed ds) (hsub : ds' ⊆ ds) : Ahead armed ds' :=
  ⟨fun d hd => h.pos d (hsub hd), fun t ht d hd => h.le t ht d (hsub hd)⟩

lemma Ahead.off (h : Ahead armed ds) : Ahead none ds := ⟨h.pos, fun t ht => by cases ht⟩

lemma Ahead.cons (h : Ahead armed ds) (hd : 0 < d) (hle : ∀ t, armed = some t → t ≤ d) :
    Ahead armed (d :: ds) where
  pos d' hd' := by
    rcases mem_cons.mp hd' with rfl | hd'
    · exact hd
    · exact h.pos d' hd'
  le t ht d' hd' := by
    rcases mem_cons.mp hd' with rfl | hd'
    · exact hle t ht
    · exact h.le t ht d' hd'

lemma Ahead.arm (h : Ahead armed ds) : Ahead (arm armed (earliest ds)) ds where
  pos := h.pos
  le t ht d hd := by
    cases armed with
    | some t' => exact h.le t ht d hd
    | none =>
      rw [Deadline.arm] at ht
      split_ifs at ht with hz
      rw [← some.inj ht]
      exact earliest_le h.pos hd

lemma arm_ne_none (hds : ∀ d ∈ ds, 0 < d) (hne : ds ≠ []) : arm armed (earliest ds) ≠ none := by
  cases armed with
  | some t => exact some_ne_none t
  | none =>
    rw [arm]
    rw [if_neg (fun hz => hne ((earliest_eq_zero hds).mp hz))]
    exact some_ne_none _

end Deadline
