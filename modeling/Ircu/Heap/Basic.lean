import Mathlib.Tactic

/-!
A heap of cells that are allocated, changed and freed through their addresses.

Addresses are given out in ascending order and never again, so everything from
`next` on is free; the structure carries this as a field. Using an address that
is not live has no result.

* `store_eq`: writing to a live cell is `modify`.
* `cell_alloc`, `cell_insert`, `cell_modify`, `cell_free`: what is in a cell
  afterwards.
-/

structure Heap (V : Type*) where
  cell : ℕ → Option V
  next : ℕ
  fresh : ∀ p, next ≤ p → cell p = none

namespace Heap

variable {V : Type*} (h : Heap V) {p q : ℕ} {v : V}

def empty : Heap V := ⟨fun _ => none, 0, fun _ _ => rfl⟩

/-- A new cell, at the address `next`. -/
def alloc (v : V) : Heap V where
  cell q := if q = h.next then some v else h.cell q
  next := h.next + 1
  fresh q hq := by rw [if_neg (by omega), h.fresh q (by omega)]

/-- A new cell at the address `x`. -/
def insert (x : ℕ) (v : V) : Heap V where
  cell q := if q = x then some v else h.cell q
  next := max h.next (x + 1)
  fresh q hq := by rw [if_neg (by omega), h.fresh q (by omega)]

def modify (p : ℕ) (f : V → V) : Heap V where
  cell q := if q = p then (h.cell q).map f else h.cell q
  next := h.next
  fresh q hq := by simp [h.fresh q hq]

def free (p : ℕ) : Heap V where
  cell q := if q = p then none else h.cell q
  next := h.next
  fresh q hq := by simp [h.fresh q hq]

def store (p : ℕ) (f : V → V) : Option (Heap V) :=
  if (h.cell p).isSome then some (h.modify p f) else none

@[simp] lemma cell_alloc : (h.alloc v).cell q = if q = h.next then some v else h.cell q := rfl

@[simp] lemma cell_insert {x} : (h.insert x v).cell q = if q = x then some v else h.cell q := rfl

@[simp] lemma cell_modify {f} :
    (h.modify p f).cell q = if q = p then (h.cell q).map f else h.cell q := rfl

@[simp] lemma cell_free : (h.free p).cell q = if q = p then none else h.cell q := rfl

@[simp] lemma next_alloc : (h.alloc v).next = h.next + 1 := rfl

@[simp] lemma next_insert {x} : (h.insert x v).next = max h.next (x + 1) := rfl

@[simp] lemma next_modify {f} : (h.modify p f).next = h.next := rfl

@[simp] lemma next_free : (h.free p).next = h.next := rfl

lemma isSome_modify {f} : ((h.modify p f).cell q).isSome = (h.cell q).isSome := by
  rw [cell_modify]
  split_ifs <;> simp

lemma isSome_alloc : ((h.alloc v).cell q).isSome = (q == h.next || (h.cell q).isSome) := by
  rw [cell_alloc]
  split_ifs with hq <;> simp [hq]

@[ext] lemma ext {h h' : Heap V} (hc : ∀ p, h.cell p = h'.cell p) (hn : h.next = h'.next) :
    h = h' := by
  obtain ⟨c, n, _⟩ := h
  obtain ⟨c', n', _⟩ := h'
  obtain rfl : c = c' := funext hc
  obtain rfl : n = n' := hn
  rfl

variable {h}

lemma store_eq {f} (hp : (h.cell p).isSome) : h.store p f = some (h.modify p f) :=
  if_pos hp

lemma modify_congr {f g} (hp : h.cell p = some v) (hfg : f v = g v) :
    h.modify p f = h.modify p g := by
  apply ext
  · intro q
    rw [cell_modify, cell_modify]
    split_ifs with hq
    · rw [hq, hp, Option.map_some, Option.map_some, hfg]
    · rfl
  · rfl

lemma cell_inj {w} (hv : h.cell p = some v) (hw : h.cell p = some w) : v = w :=
  Option.some.inj (hv.symm.trans hw)

lemma ne_of_cell (hp : h.cell p = none) (hq : h.cell q = some v) : p ≠ q := by
  rintro rfl
  cases hp.symm.trans hq

lemma lt_next (hp : h.cell p = some v) : p < h.next := by
  by_contra hge
  rw [h.fresh p (by omega)] at hp
  exact absurd hp (by simp)

lemma ne_next (hp : h.cell p = some v) : p ≠ h.next := (lt_next hp).ne

end Heap
