import Ircu.Heap.Basic

/-!
Linked lists in a heap.

`next` reads the link of a cell. A segment `Seg next h p xs q` starts at the
pointer `p`, runs through the cells `xs`, given with their addresses, and ends at
the pointer `q`; a list that ends is a segment to `none`.

* `seg_append`: a segment is cut where its list of cells is cut.
* `Seg.modify_head`, `Seg.modify_last`: changing the cell at either end.
-/

namespace Heap

variable {V : Type*}

def addrs (xs : List (ℕ × V)) : List ℕ := xs.map Prod.fst

@[simp] lemma addrs_nil : addrs ([] : List (ℕ × V)) = [] := rfl

@[simp] lemma addrs_cons (x : ℕ × V) (xs : List (ℕ × V)) : addrs (x :: xs) = x.1 :: addrs xs := rfl

open List

@[simp] lemma addrs_append (xs ys : List (ℕ × V)) : addrs (xs ++ ys) = addrs xs ++ addrs ys :=
  map_append

lemma mem_addrs {p} {xs : List (ℕ × V)} : p ∈ addrs xs ↔ ∃ x ∈ xs, x.1 = p := mem_map

variable (next : V → Option ℕ)

/-- The cells `xs`, linked one to the next, from the pointer `p` to the pointer
`q`. -/
def Seg (h : Heap V) : Option ℕ → List (ℕ × V) → Option ℕ → Prop
  | p, [], q => p = q
  | p, x :: xs, q => p = some x.1 ∧ h.cell x.1 = some x.2 ∧ Seg h (next x.2) xs q

variable {next} {h h' : Heap V} {a b : Option ℕ} {p : ℕ} {v : V} {xs ys : List (ℕ × V)}

@[simp] lemma seg_nil : Seg next h a [] b ↔ a = b := Iff.rfl

lemma seg_cons {x} :
    Seg next h a (x :: xs) b ↔ a = some x.1 ∧ h.cell x.1 = some x.2 ∧ Seg next h (next x.2) xs b :=
  Iff.rfl

lemma seg_append : Seg next h a (xs ++ ys) b ↔ ∃ c, Seg next h a xs c ∧ Seg next h c ys b := by
  induction xs generalizing a with
  | nil => simp
  | cons x xs ih =>
    rw [cons_append, seg_cons, ih]
    constructor
    · rintro ⟨ha, hx, c, hxs, hys⟩
      exact ⟨c, ⟨ha, hx, hxs⟩, hys⟩
    · rintro ⟨c, ⟨ha, hx, hxs⟩, hys⟩
      exact ⟨ha, hx, c, hxs, hys⟩

lemma Seg.cell (hs : Seg next h a xs b) {x} (hx : x ∈ xs) : h.cell x.1 = some x.2 := by
  induction xs generalizing a with
  | nil => cases hx
  | cons y xs ih =>
    rcases mem_cons.mp hx with rfl | hx
    · exact hs.2.1
    · exact ih hs.2.2 hx

lemma Seg.congr (hs : Seg next h a xs b) (heq : ∀ q ∈ addrs xs, h'.cell q = h.cell q) :
    Seg next h' a xs b := by
  induction xs generalizing a with
  | nil => exact hs
  | cons x xs ih =>
    refine ⟨hs.1, (heq x.1 (by simp)).trans hs.2.1, ih hs.2.2 fun q hq => heq q ?_⟩
    exact mem_cons_of_mem _ hq

lemma Seg.lt_next (hs : Seg next h a xs b) {q} (hq : q ∈ addrs xs) : q < h.next := by
  obtain ⟨x, hx, rfl⟩ := mem_addrs.mp hq
  exact Heap.lt_next (hs.cell hx)

lemma Seg.modify_of_notMem (hs : Seg next h a xs b) (hp : p ∉ addrs xs) (f : V → V) :
    Seg next (h.modify p f) a xs b := by
  refine hs.congr fun q hq => ?_
  have hne : q ≠ p := by
    rintro rfl
    exact hp hq
  rw [cell_modify, if_neg hne]

lemma Seg.alloc (hs : Seg next h a xs b) (v) : Seg next (h.alloc v) a xs b := by
  refine hs.congr fun q hq => ?_
  rw [cell_alloc, if_neg (hs.lt_next hq).ne]

lemma Seg.modify_head (hs : Seg next h a ((p, v) :: xs) b) (hp : p ∉ addrs xs) {f}
    (hf : next (f v) = next v) : Seg next (h.modify p f) a ((p, f v) :: xs) b := by
  refine ⟨hs.1, ?_, ?_⟩
  · rw [cell_modify, if_pos rfl, hs.2.1]
    rfl
  · rw [show next (p, f v).2 = next v from hf]
    exact Seg.modify_of_notMem hs.2.2 hp f

lemma Seg.modify_last (hs : Seg next h a (xs ++ [(p, v)]) b) (hp : p ∉ addrs xs) (f : V → V) :
    Seg next (h.modify p f) a (xs ++ [(p, f v)]) (next (f v)) := by
  obtain ⟨c, hxs, hc, hv, -⟩ := seg_append.mp hs
  refine seg_append.mpr ⟨c, hxs.modify_of_notMem hp f, hc, ?_, rfl⟩
  rw [cell_modify, if_pos rfl, hv]
  rfl

lemma Seg.end_eq (hs : Seg next h a (xs ++ [(p, v)]) b) : next v = b := by
  obtain ⟨c, -, -, -, hb⟩ := seg_append.mp hs
  exact hb

end Heap
