import Ircu.Ipcheck.Basic

/-!
The clock of sixteen bits in `IPcheck.c`.

`CONNECTED_SINCE` subtracts two times of sixteen bits as integers. If the clock has
wrapped since the last attempt the difference is not the elapsed time but 65536 less, so
it is negative: nothing expires, no attempts lapse, and the free targets, to which a
negative number is added in `unsigned int`, are all given back.
-/

namespace Ircu.Ipcheck

open Target (TARGET_DELAY)

variable (m : Moment)

def Moment.ago (d : ℤ) : ℤ := Moment.now { m with currentTime := m.currentTime - d }

/-- **What `CONNECTED_SINCE` gives**: the elapsed time, or 65536 less if the clock has
wrapped since. -/
lemma connectedSince_eq {d} (h0 : 0 ≤ d) (h1 : d < 65536) :
    connectedSince m (m.ago d) = if d ≤ m.now then d else d - 65536 := by
  simp only [connectedSince, Moment.ago, Moment.now]
  split_ifs <;> omega

lemma lapsed_iff {d} (h0 : 0 ≤ d) (h1 : d < 65536) (bound : ℤ) :
    decide (connectedSince m (m.ago d) > bound) = decide (d > bound) ↔
      d ≤ m.now ∨ d ≤ bound ∨ bound < d - 65536 := by
  rw [connectedSince_eq m h0 h1, decide_eq_decide]
  split_ifs <;> omega

lemma freeTargets_of_nonneg {d} (h0 : 0 ≤ d) (h1 : d < 65536) (t : IPTargetEntry) :
    freeTargets d (some t) = min (t.count + d.toNat / 128) STARTTARGETS := by
  have ht : t.count ≤ 10 := t.count_le
  have hdiv : d.tdiv TARGET_DELAY = d / 128 := Int.tdiv_eq_ediv_of_nonneg h0
  rw [freeTargets, hdiv]
  congr 1
  omega

lemma freeTargets_of_wrapped {d} (h0 : 0 < d) (h1 : d ≤ 600) (t : IPTargetEntry) :
    freeTargets (d - 65536) (some t) = STARTTARGETS := by
  have ht : t.count ≤ 10 := t.count_le
  have hdiv : (d - 65536).tdiv TARGET_DELAY = -((65536 - d) / 128) := by
    rw [← neg_sub 65536 d, Int.neg_tdiv, Int.tdiv_eq_ediv_of_nonneg (by omega)]
    rfl
  refine min_eq_right ?_
  simp only [STARTTARGETS]
  omega

lemma expiry_iff {d} (h0 : 0 ≤ d) (h1 : d < 65536) (target : Option IPTargetEntry) :
    expiry (connectedSince m (m.ago d)) target = expiry d target ↔
      d ≤ m.now ∨ d ≤ 600 ∧ (target = none ∨ d ≤ 120) := by
  rw [connectedSince_eq m h0 h1]
  split_ifs with hwrap
  · exact ⟨fun _ => .inl hwrap, fun _ => rfl⟩
  have hleft : expiry (d - 65536) target = .nothing := by
    rw [expiry, if_neg (by omega), if_neg (by omega)]
  rw [hleft, expiry]
  by_cases h600 : d > 600
  · rw [if_pos h600]
    refine ⟨fun h => absurd h (by decide), ?_⟩
    rintro (h | ⟨h, -⟩)
    · exact absurd h hwrap
    · exact absurd h600 (not_lt.mpr h)
  rw [if_neg h600]
  by_cases h120 : d > 120 ∧ target ≠ none
  · rw [if_pos h120]
    refine ⟨fun h => absurd h (by decide), ?_⟩
    rintro (h | ⟨-, h | h⟩)
    · exact absurd h hwrap
    · exact absurd h h120.2
    · exact absurd h120.1 (not_lt.mpr h)
  · rw [if_neg h120]
    refine ⟨fun _ => .inr ⟨not_lt.mp h600, ?_⟩, fun _ => rfl⟩
    by_cases hnone : target = none
    · exact .inl hnone
    · exact .inr (not_lt.mp fun h => h120 ⟨h, hnone⟩)

/-- Where the expiration is right, the free targets are right if the clock has not
wrapped, or if there are no targets or none used up. -/
lemma freeTargets_iff {d} (h0 : 0 ≤ d) (h1 : d < 65536)
    (target : Option IPTargetEntry) (h : d ≤ m.now ∨ d ≤ 600 ∧ (target = none ∨ d ≤ 120)) :
    freeTargets (connectedSince m (m.ago d)) target = freeTargets d target ↔
      d ≤ m.now ∨ ∀ t, target = some t → t.count = STARTTARGETS := by
  rw [connectedSince_eq m h0 h1]
  split_ifs with hwrap
  · exact ⟨fun _ => .inl hwrap, fun _ => rfl⟩
  have hnow : 0 ≤ m.now := Int.emod_nonneg _ (by decide)
  cases target with
  | none => exact ⟨fun _ => .inr fun t ht => absurd ht (by simp), fun _ => rfl⟩
  | some t =>
    have h120 : d ≤ 120 := by
      rcases h with h | ⟨-, h | h⟩
      · exact absurd h hwrap
      · simp at h
      · exact h
    rw [freeTargets_of_wrapped (by omega) (by omega), freeTargets_of_nonneg h0 h1,
      show d.toNat / 128 = 0 by omega, add_zero, min_eq_left t.count_le]
    constructor
    · intro heq
      refine .inr fun t' ht' => ?_
      cases ht'
      exact heq.symm
    · rintro (h | h)
      · exact absurd h hwrap
      · exact (h t rfl).symm

/-- **The decisions of IPcheck are those of the elapsed time** `d` if and only if the clock of
sixteen bits has not wrapped since, or the attempt is so recent that nothing is due and nothing to
be given back. -/
theorem elapsed_decisions_iff (d : ℤ) (h0 : 0 ≤ d) (h1 : d < 65536) :
    (∀ e : IPRegistryEntry, e.lastConnect = m.ago d →
      ((expiry (connectedSince m e.lastConnect) e.target = expiry d e.target ∧
        attemptsLapsed m.features (connectedSince m e.lastConnect) =
          attemptsLapsed m.features d ∧
        visitLapsed m.features (connectedSince m e.lastConnect) = visitLapsed m.features d ∧
        freeTargets (connectedSince m e.lastConnect) e.target = freeTargets d e.target) ↔
      (d ≤ m.now ∨
        d ≤ 600 ∧ (∀ t, e.target = some t → d ≤ 120 ∧ t.count = STARTTARGETS) ∧
        (d ≤ m.features.clonePeriod ∨ m.features.clonePeriod < d - 65536) ∧
        (d ≤ m.features.cloneLimit * m.features.clonePeriod ∨
          m.features.cloneLimit * m.features.clonePeriod < d - 65536)))) ∧
    ∀ b : IPRegistry48, b.lastConnect = m.ago d →
      ((expired48 (connectedSince m b.lastConnect) = expired48 d ∧
        attempts48Lapsed m.features (connectedSince m b.lastConnect) =
          attempts48Lapsed m.features d) ↔
      (d ≤ m.now ∨
        d ≤ 600 ∧ (d ≤ m.features.clone48Period ∨ m.features.clone48Period < d - 65536))) := by
  constructor
  · intro e he
    rw [he, expiry_iff m h0 h1]
    unfold attemptsLapsed visitLapsed
    rw [lapsed_iff m h0 h1, lapsed_iff m h0 h1]
    constructor
    · rintro ⟨hexp, hatt, hvisit, hfree⟩
      rw [freeTargets_iff m h0 h1 _ hexp] at hfree
      by_cases hwrap : d ≤ m.now
      · exact .inl hwrap
      obtain ⟨h600, h120⟩ := hexp.resolve_left hwrap
      refine .inr ⟨h600, fun t ht => ⟨?_, hfree.resolve_left hwrap t ht⟩,
        hatt.resolve_left hwrap, hvisit.resolve_left hwrap⟩
      exact h120.resolve_left (by simp [ht])
    rintro (hwrap | ⟨h600, htargets, hatt, hvisit⟩)
    · exact ⟨.inl hwrap, .inl hwrap, .inl hwrap,
        (freeTargets_iff m h0 h1 _ (.inl hwrap)).mpr (.inl hwrap)⟩
    have hexp : d ≤ m.now ∨ d ≤ 600 ∧ (e.target = none ∨ d ≤ 120) := by
      refine .inr ⟨h600, ?_⟩
      cases ht : e.target with
      | none => exact .inl rfl
      | some t => exact .inr (htargets t ht).1
    exact ⟨hexp, .inr hatt, .inr hvisit,
      (freeTargets_iff m h0 h1 _ hexp).mpr (.inr fun t ht => (htargets t ht).2)⟩
  · intro b hb
    rw [hb]
    unfold expired48 attempts48Lapsed
    rw [lapsed_iff m h0 h1, lapsed_iff m h0 h1]
    omega

/-- An hour after an attempt the clock may have wrapped: at a time of 65536 seconds, an
attempt 3600 seconds ago. -/
def wrappedMoment : Moment := ⟨65536, 0, ⟨4, 40, 50, 10, 600⟩⟩

/-- The entry of that attempt, which does not expire. -/
theorem wrapped_not_expired :
    expiry (connectedSince wrappedMoment (wrappedMoment.ago 3600)) none = .nothing ∧
      expiry 3600 none = .entry := by
  decide +kernel

/-- A recent attempt, and the same attempt as above looked at before the clock wraps. -/
theorem elapsed_decisions_recent :
    expiry (connectedSince wrappedMoment (wrappedMoment.ago 30)) none = expiry 30 none ∧
      expiry (connectedSince ⟨65535, 0, ⟨4, 40, 50, 10, 600⟩⟩
        (Moment.ago ⟨65535, 0, ⟨4, 40, 50, 10, 600⟩⟩ 3600)) none = expiry 3600 none := by
  have hrecent := (elapsed_decisions_iff wrappedMoment 30 (by decide) (by decide)).1
    ⟨none, ipRegistryCanonicalize ⟨fun _ => 0⟩, wrappedMoment.ago 30, 0, 0⟩ rfl
  have hbefore := (elapsed_decisions_iff ⟨65535, 0, ⟨4, 40, 50, 10, 600⟩⟩ 3600 (by decide)
    (by decide)).1 ⟨none, ipRegistryCanonicalize ⟨fun _ => 0⟩, 61935, 0, 0⟩ (by decide +kernel)
  refine ⟨(hrecent.mpr (.inr ⟨by decide, ?_, .inl (by decide), .inl (by decide)⟩)).1,
    (hbefore.mpr (.inl (by decide +kernel))).1⟩
  intro t ht
  cases ht

end Ircu.Ipcheck
