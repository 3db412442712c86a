import Mathlib.Tactic

/-!
Bit masks: a set of flags as a bit vector, tested with a conjunction.

`meets m f` is the test `m & f` of a C condition. A flag that is one bit is
written `1 <<< k`, and testing it is reading bit `k` (`meets_bit`).
-/

namespace Ircu

variable {w : ℕ}

/-- The C condition `m & f`: the masks have a bit in common. -/
def meets (m f : BitVec w) : Bool := m &&& f != 0#w

lemma meets_iff {m f : BitVec w} :
    meets m f = true ↔ ∃ k, m.getLsbD k = true ∧ f.getLsbD k = true := by
  rw [meets, bne_iff_ne, ← not_iff_not, not_not, not_exists]
  constructor
  · intro h k hk
    have := congrArg (·.getLsbD k) h
    simp [hk.1, hk.2] at this
  intro h
  apply BitVec.eq_of_getLsbD_eq
  intro k _
  have := h k
  simp only [BitVec.getLsbD_and, BitVec.getLsbD_zero]
  grind

lemma getLsbD_bit {k} (hk : k < w) (i : ℕ) : (1#w <<< k).getLsbD i = decide (i = k) := by
  simp only [BitVec.getLsbD_shiftLeft, BitVec.getLsbD_one]
  grind

lemma meets_bit (m) {k} (hk : k < w) : meets m (1#w <<< k) = m.getLsbD k := by
  rw [Bool.eq_iff_iff, meets_iff]
  constructor
  · rintro ⟨i, hm, hi⟩
    rw [getLsbD_bit hk, decide_eq_true_iff] at hi
    rwa [← hi]
  · intro h
    exact ⟨k, h, by rw [getLsbD_bit hk, decide_eq_true_iff]⟩

lemma meets_or_left (m n f : BitVec w) : meets (m ||| n) f = (meets m f || meets n f) := by
  rw [Bool.eq_iff_iff, Bool.or_eq_true, meets_iff, meets_iff, meets_iff]
  simp only [BitVec.getLsbD_or, Bool.or_eq_true]
  grind

lemma meets_and_bit (m n) {k} (hk : k < w) : meets (m &&& n) (1#w <<< k) = true ↔
      meets m (1#w <<< k) = true ∧ meets n (1#w <<< k) = true := by
  rw [meets_bit _ hk, meets_bit _ hk, meets_bit _ hk, BitVec.getLsbD_and, Bool.and_eq_true]

end Ircu
