import Mathlib.Tactic

/-!
Handles from a counter that wraps around.

The counter is moved on until it is neither zero nor in use. If there are fewer handles in use
than there are numbers, this comes to an end, after as many turns as there are handles in use
and two more.
-/

namespace Token

variable (modulus : ℕ) (used : ℕ → Option Bool)

/-- The counter is moved on from `last`. Asking whether a number is in use may fail. -/
def seek : ℕ → ℕ → Option ℕ
  | 0, _ => none
  | fuel + 1, last =>
    let id := (last + 1) % modulus
    if id = 0 then seek fuel id
    else
      match used id with
      | none => none
      | some true => seek fuel id
      | some false => some id

variable {modulus used} {inUse : List ℕ}

open List

lemma seek_none (hused : ∀ id, used id = some (decide (id ∈ inUse))) {fuel last}
    (h : seek modulus used fuel last = none) :
    ∀ i < fuel, (last + 1 + i) % modulus ∈ 0 :: inUse := by
  induction fuel generalizing last with
  | zero => exact fun i hi => absurd hi (Nat.not_lt_zero i)
  | succ fuel ih =>
    have hbad : (last + 1) % modulus ∈ 0 :: inUse ∧
        seek modulus used fuel ((last + 1) % modulus) = none := by
      rw [seek, hused] at h
      split_ifs at h with hzero
      · exact ⟨by simp [hzero], h⟩
      by_cases hin : (last + 1) % modulus ∈ inUse
      · simp only [hin, decide_true] at h
        exact ⟨mem_cons_of_mem _ hin, h⟩
      · simp [hin] at h
    intro i hi
    cases i with
    | zero => exact hbad.1
    | succ i =>
      have hnext := ih hbad.2 i (by omega)
      rwa [Nat.add_assoc, Nat.mod_add_mod, show last + 1 + (1 + i) = last + 1 + (i + 1) by omega]
        at hnext

lemma seek_some (hused : ∀ id, used id = some (decide (id ∈ inUse))) {fuel last id}
    (h : seek modulus used fuel last = some id) : id ≠ 0 ∧ id ∉ inUse := by
  induction fuel generalizing last with
  | zero => cases h
  | succ fuel ih =>
    rw [seek, hused] at h
    split_ifs at h with hzero
    · exact ih h
    by_cases hin : (last + 1) % modulus ∈ inUse
    · simp only [hin, decide_true] at h
      exact ih h
    · simp only [hin, decide_false, Option.some.injEq] at h
      exact ⟨h ▸ hzero, h ▸ hin⟩

/-- **A handle is found**, which is not zero and not in use. -/
theorem seek_eq (hused : ∀ id, used id = some (decide (id ∈ inUse))) {fuel} (last : ℕ)
    (hfuel : inUse.length + 1 < fuel) (hmod : fuel ≤ modulus) :
    ∃ id, seek modulus used fuel last = some id ∧ id ≠ 0 ∧ id ∉ inUse := by
  cases h : seek modulus used fuel last with
  | some id => exact ⟨id, rfl, seek_some hused h⟩
  | none =>
    -- the numbers it went through are different, and there are too many of them
    have hsub : (range fuel).map (fun i => (last + 1 + i) % modulus) ⊆ 0 :: inUse := by
      intro id hid
      obtain ⟨i, hi, rfl⟩ := mem_map.mp hid
      exact seek_none hused h i (mem_range.mp hi)
    have hnodup : ((range fuel).map fun i => (last + 1 + i) % modulus).Nodup := by
      refine List.Nodup.map_on (fun i hi j hj heq => ?_) nodup_range
      rw [mem_range] at hi hj
      have hmodEq : i ≡ j [MOD modulus] := Nat.ModEq.add_left_cancel' (last + 1) heq
      exact hmodEq.eq_of_lt_of_lt (by omega) (by omega)
    have hlen := (hnodup.subperm hsub).length_le
    simp only [length_map, length_range, length_cons] at hlen
    omega

end Token
