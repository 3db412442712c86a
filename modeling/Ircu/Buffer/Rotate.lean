import Mathlib.Tactic

/-!
Moving pieces of a buffer in place.

A buffer is a list that is written through indices, as an array is. Three
loops are given as a program runs them, with what they compute:

* `swapBlocks_append`: two blocks of one length change places;
* `rotateLoop_append`: the block-swap rotation, which exchanges two neighbouring
  blocks of any lengths by swapping as much as the shorter one allows and going
  on with what is left.
-/

namespace Buffer

open List

variable {α : Type*}

/-- Exchange the cells `i` and `j`. -/
def swapAt (l : List α) (i j : ℕ) : List α :=
  match l[i]?, l[j]? with
  | some a, some b => (l.set i b).set j a
  | _, _ => l

lemma swapAt_append (p q r : List α) (a b : α) {i j} (hi : i = p.length)
    (hj : j = p.length + 1 + q.length) :
    swapAt (p ++ a :: (q ++ b :: r)) i j = p ++ b :: (q ++ a :: r) := by
  have hjq : j = (p ++ a :: q).length := by
    rw [length_append, length_cons]
    omega
  have hassoc : ∀ x y : α, p ++ x :: (q ++ y :: r) = (p ++ x :: q) ++ y :: r := by simp
  have ha : (p ++ a :: (q ++ b :: r))[i]? = some a := by rw [hi]; simp
  have hb : (p ++ a :: (q ++ b :: r))[j]? = some b := by rw [hjq]; simp
  rw [swapAt, ha, hb]
  show ((p ++ a :: (q ++ b :: r)).set i b).set j a = _
  have hset : (p ++ a :: (q ++ b :: r)).set i b = p ++ b :: (q ++ b :: r) := by rw [hi]; simp
  have hjb : j = (p ++ b :: q).length := by rw [hjq]; simp
  rw [hset, hjb]
  simp

/-- Swap the cells `x1` and `x2` and move the two indices towards each other,
until they meet. -/
def reverseLoop (l : List α) (x1 x2 : ℕ) : List α :=
  if x1 < x2 then reverseLoop (swapAt l x1 x2) (x1 + 1) (x2 - 1) else l
termination_by x2 - x1

/-- The loop reverses the piece of the buffer from `x1` to `x2`. -/
theorem reverseLoop_append (p m r : List α) {x1 x2} (h1 : x1 = p.length)
    (h2 : x2 = p.length + m.length - 1) :
    reverseLoop (p ++ (m ++ r)) x1 x2 = p ++ (m.reverse ++ r) := by
  induction hk : m.length using Nat.strong_induction_on generalizing p m r x1 x2 with
  | _ k ih =>
    rcases m with _ | ⟨a, m⟩
    · rw [reverseLoop, if_neg (by simp at h2; omega)]
      simp
    rcases eq_nil_or_concat m with rfl | ⟨m, b, rfl⟩
    · rw [reverseLoop, if_neg (by simp at h2; omega)]
      simp
    simp only [length_cons, length_concat] at h2 hk
    rw [reverseLoop, if_pos (by omega)]
    have hswap := swapAt_append p m r a b h1 (show x2 = p.length + 1 + m.length by omega)
    have hl : p ++ (a :: m.concat b ++ r) = p ++ a :: (m ++ b :: r) := by simp
    have hl' : p ++ b :: (m ++ a :: r) = (p ++ [b]) ++ (m ++ a :: r) := by simp
    rw [hl, hswap, hl', ih m.length (by omega) (p ++ [b]) m (a :: r) (by simp [h1])
      (by simp; omega) rfl]
    simp

/-- Exchange `n` cells from `x1` on with `n` cells from `x2` on, one by one. -/
def swapBlocks : ℕ → List α → ℕ → ℕ → List α
  | 0, l, _, _ => l
  | n + 1, l, x1, x2 => swapBlocks n (swapAt l x1 x2) (x1 + 1) (x2 + 1)

theorem swapBlocks_append (p u m v r : List α) {n x1 x2} (hu : u.length = n)
    (hv : v.length = n) (h1 : x1 = p.length) (h2 : x2 = p.length + u.length + m.length) :
    swapBlocks n (p ++ (u ++ (m ++ (v ++ r)))) x1 x2 = p ++ (v ++ (m ++ (u ++ r))) := by
  induction n generalizing p u m v x1 x2 with
  | zero =>
    rw [length_eq_zero_iff.mp hu, length_eq_zero_iff.mp hv]
    rfl
  | succ n ih =>
    obtain _ | ⟨a, u⟩ := u
    · simp at hu
    obtain _ | ⟨b, v⟩ := v
    · simp at hv
    simp only [length_cons, Nat.add_right_cancel_iff] at hu hv
    have hl : p ++ (a :: u ++ (m ++ (b :: v ++ r))) = p ++ a :: ((u ++ m) ++ b :: (v ++ r)) := by
      simp
    have hl' : p ++ b :: ((u ++ m) ++ a :: (v ++ r))
        = (p ++ [b]) ++ (u ++ ((m ++ [a]) ++ (v ++ r))) := by
      simp
    rw [swapBlocks, hl, swapAt_append p (u ++ m) (v ++ r) a b h1
      (by rw [h2, length_cons, length_append]; omega), hl',
      ih (p ++ [b]) u (m ++ [a]) v hu hv (by simp [h1]) (by simp at h2 ⊢; omega)]
    simp

/-- The block-swap rotation: the block of `l1` cells at `x1` and the block of
`l2` cells behind it change places. -/
def rotateLoop (l : List α) (x1 l1 l2 : ℕ) : List α :=
  if min l1 l2 = 0 then l
  else
    rotateLoop (swapBlocks (min l1 l2) l x1 (x1 + l1)) (x1 + min l1 l2)
      (if l1 < l2 then l1 else l1 - min l1 l2) (if l2 < l1 then l2 else l2 - min l1 l2)
termination_by l1 + l2
decreasing_by split_ifs <;> omega

theorem rotateLoop_append (p u v r : List α) {x1 l1 l2} (h1 : x1 = p.length)
    (hu : l1 = u.length) (hv : l2 = v.length) :
    rotateLoop (p ++ (u ++ (v ++ r))) x1 l1 l2 = p ++ (v ++ (u ++ r)) := by
  induction hk : l1 + l2 using Nat.strong_induction_on generalizing p u v r x1 l1 l2 with
  | _ k ih =>
    rw [rotateLoop]
    by_cases hlt : l1 < l2
    · -- the left block is the shorter one and reaches its final place
      rw [min_eq_left hlt.le, if_pos hlt, if_neg (Nat.lt_asymm hlt)]
      by_cases h0 : l1 = 0
      · rw [if_pos h0, length_eq_zero_iff.mp (hu.symm.trans h0)]
        simp
      rw [if_neg h0]
      obtain ⟨v1, v2, hv12, hlen⟩ : ∃ v1 v2, v = v1 ++ v2 ∧ v1.length = l1 :=
        ⟨v.take l1, v.drop l1, (take_append_drop _ _).symm, by simp; omega⟩
      have hswap := swapBlocks_append p u [] v1 (v2 ++ r) hu.symm hlen h1
        (show x1 + l1 = _ by rw [h1, hu]; rfl)
      have hl : p ++ (u ++ (v ++ r)) = p ++ (u ++ ([] ++ (v1 ++ (v2 ++ r)))) := by simp [hv12]
      have hl' : p ++ (v1 ++ ([] ++ (u ++ (v2 ++ r)))) = (p ++ v1) ++ (u ++ (v2 ++ r)) := by simp
      have hv2 : v2.length = l2 - l1 := by
        rw [hv12, length_append] at hv
        omega
      rw [hl, hswap, hl', ih (l1 + (l2 - l1)) (by omega) (p ++ v1) u v2 r
        (by rw [length_append]; omega) hu hv2.symm rfl, hv12]
      simp
    -- the right block is, and the left one is left in two pieces
    rw [min_eq_right (Nat.not_lt.mp hlt), if_neg hlt]
    by_cases h0 : l2 = 0
    · rw [if_pos h0, length_eq_zero_iff.mp (hv.symm.trans h0)]
      simp
    rw [if_neg h0]
    obtain ⟨u1, u2, hu12, hlen⟩ : ∃ u1 u2, u = u1 ++ u2 ∧ u1.length = l2 :=
      ⟨u.take l2, u.drop l2, (take_append_drop _ _).symm, by simp; omega⟩
    have hu2 : u2.length = l1 - l2 := by
      rw [hu12, length_append] at hu
      omega
    have hswap := swapBlocks_append p u1 u2 v r hlen hv.symm h1
      (show x1 + l1 = _ by omega)
    have hl : p ++ (u ++ (v ++ r)) = p ++ (u1 ++ (u2 ++ (v ++ r))) := by simp [hu12]
    have hl' : p ++ (v ++ (u2 ++ (u1 ++ r))) = (p ++ v) ++ (u2 ++ (u1 ++ r)) := by simp
    rw [hl, hswap, hl']
    by_cases heq : l2 < l1
    · rw [if_pos heq, ih (l1 - l2 + l2) (by omega) (p ++ v) u2 u1 r
        (by rw [length_append]; omega) hu2.symm hlen.symm rfl, hu12]
      simp
    have hu2nil : u2 = [] := length_eq_zero_iff.mp (by omega)
    rw [rotateLoop]
    have h12 : l1 - l2 = 0 := by omega
    simp [h12, hu12, hu2nil]

end Buffer
