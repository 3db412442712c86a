import Mathlib.Tactic

/-!
Items that are written out piece by piece.

Each item has a body of symbols. A `Parcel` is an item with the number of symbols
that are already out, which is never all of them. What is to be written is a list of
parcels in the order in which they go out, of which only the first may have been begun
(`Fresh`). Writing some number of symbols (`advance`) finishes items from the front
(`finished`) and may begin another one.
-/

namespace Ircu

open List

variable {κ M α : Type*} {body : M → List α}

structure Parcel (body : M → List α) where
  item : M
  sent : ℕ
  lt : sent < (body item).length

namespace Parcel

variable (p : Parcel body)

def rest : List α := (body p.item).drop p.sent

def left : ℕ := (body p.item).length - p.sent

/-- The parcel after `k` more symbols. -/
def add (k : ℕ) (h : k < p.left) : Parcel body :=
  ⟨p.item, p.sent + k, by rw [left] at h; omega⟩

@[simp] lemma length_rest : p.rest.length = p.left := length_drop

lemma left_pos : 0 < p.left := by
  have h := p.lt
  rw [left]
  omega

lemma take_append_rest : (body p.item).take p.sent ++ p.rest = body p.item :=
  take_append_drop _ _

end Parcel

/-! ### Lists of parcels -/

/-- The parcels after `k` symbols have been written. -/
def advance : ℕ → List (κ × Parcel body) → List (κ × Parcel body)
  | _, [] => []
  | k, x :: xs => if h : k < x.2.left then (x.1, x.2.add k h) :: xs else advance (k - x.2.left) xs

/-- The items that are finished after `k` symbols. -/
def finished : ℕ → List (κ × Parcel body) → List (κ × M)
  | _, [] => []
  | k, x :: xs => if k < x.2.left then [] else (x.1, x.2.item) :: finished (k - x.2.left) xs

variable (xs : List (κ × Parcel body))

def items : List (κ × M) := xs.map fun x => (x.1, x.2.item)

def unsent : List α := xs.flatMap fun x => x.2.rest

def begun : List (κ × Parcel body) → List α
  | [] => []
  | x :: _ => (body x.2.item).take x.2.sent

def Fresh : Prop := ∀ x ∈ xs.tail, x.2.sent = 0

@[simp] lemma items_cons (x : κ × Parcel body) (xs) :
    items (x :: xs) = (x.1, x.2.item) :: items xs := rfl

@[simp] lemma unsent_cons (x : κ × Parcel body) (xs) :
    unsent (x :: xs) = x.2.rest ++ unsent xs := flatMap_cons

variable {xs : List (κ × Parcel body)}

variable {x : κ × Parcel body}

lemma Fresh.of_tail (h : Fresh (x :: xs)) : Fresh xs :=
  fun y hy => h y (mem_of_mem_tail hy)

lemma Fresh.begun_tail (h : Fresh (x :: xs)) : begun xs = [] := by
  cases xs with
  | nil => rfl
  | cons y xs => rw [begun, h y (by simp), take_zero]

lemma begun_eq_nil (h : begun (x :: xs) = []) : x.2.sent = 0 := by
  have hlen := congrArg List.length h
  rw [begun, length_take, length_nil] at hlen
  have hlt := x.2.lt
  omega

lemma Fresh.insert {xs ys : List (κ × Parcel body)} (h : Fresh (xs ++ ys))
    (hnil : xs = [] → begun ys = []) (hx : x.2.sent = 0) :
    Fresh (xs ++ x :: ys) ∧ begun (xs ++ x :: ys) = begun (xs ++ ys) := by
  cases xs with
  | nil =>
    have hys := hnil rfl
    refine ⟨fun y hy => ?_, ?_⟩
    swap
    · rw [nil_append, nil_append, hys, begun, hx, take_zero]
    cases ys with
    | nil => simp at hy
    | cons z ys =>
      rcases mem_cons.mp hy with rfl | hy
      · exact begun_eq_nil hys
      · exact h y hy
  | cons z xs =>
    refine ⟨fun y hy => ?_, rfl⟩
    have hy' : y ∈ xs ++ x :: ys := hy
    rcases mem_append.mp hy' with hy' | hy'
    · exact h y (mem_append_left _ hy')
    rcases mem_cons.mp hy' with rfl | hy'
    · exact hx
    · exact h y (mem_append_right _ hy')

lemma fresh_of_forall (h : ∀ x ∈ xs, x.2.sent = 0) : Fresh xs ∧ begun xs = [] := by
  refine ⟨fun x hx => h x (mem_of_mem_tail hx), ?_⟩
  cases xs with
  | nil => rfl
  | cons x xs => simp [begun, h x (by simp)]

lemma advance_zero (xs : List (κ × Parcel body)) : advance 0 xs = xs := by
  cases xs with
  | nil => rfl
  | cons x xs =>
    rw [advance, dif_pos x.2.left_pos]
    rfl

open Parcel

lemma advance_append {xs : List (κ × Parcel body)} (ys : List (κ × Parcel body)) {k}
    (h : k ≤ (unsent xs).length) : advance k (xs ++ ys) = advance k xs ++ ys := by
  induction xs generalizing k with
  | nil =>
    have hk : k = 0 := by simpa [unsent] using h
    rw [hk, advance_zero, advance_zero]
  | cons x xs ih =>
    rw [unsent_cons, length_append, length_rest] at h
    rw [cons_append, advance, advance]
    split_ifs with hk
    · rfl
    · exact ih (by omega)

lemma finished_append (k) (xs : List (κ × Parcel body)) :
    finished k xs ++ items (advance k xs) = items xs := by
  induction xs generalizing k with
  | nil => rfl
  | cons x xs ih =>
    by_cases h : k < x.2.left
    · rw [finished, if_pos h, advance, dif_pos h]
      rfl
    · rw [finished, if_neg h, advance, dif_neg h, cons_append, ih]
      rfl

lemma Fresh.advance (h : Fresh xs) (k) : Fresh (advance k xs) := by
  induction xs generalizing k with
  | nil => simpa [Ircu.advance] using h
  | cons x xs ih =>
    by_cases hk : k < x.2.left
    · rw [Ircu.advance, dif_pos hk]
      exact h
    · rw [Ircu.advance, dif_neg hk]
      exact ih h.of_tail _

/-- **What is out after `k` more symbols**: the items that are finished, and a part of
the next one. -/
lemma begun_append_take (h : Fresh xs) (k) : begun xs ++ (unsent xs).take k =
      (finished k xs).flatMap (fun x => body x.2) ++ begun (advance k xs) := by
  induction xs generalizing k with
  | nil => simp [begun, unsent, finished, advance]
  | cons x xs ih =>
    rw [unsent_cons, begun, take_append, length_rest]
    by_cases hk : k < x.2.left
    · rw [finished, if_pos hk, advance, dif_pos hk, show k - x.2.left = 0 by omega]
      rw [take_zero, append_nil, flatMap_nil, begun, add, take_add]
      rfl
    have hall : x.2.rest.take k = x.2.rest :=
      take_of_length_le (by rw [length_rest]; omega)
    rw [finished, if_neg hk, advance, dif_neg hk, flatMap_cons, append_assoc,
      ← ih h.of_tail, h.begun_tail, nil_append, hall, ← append_assoc,
      take_append_rest]

end Ircu
