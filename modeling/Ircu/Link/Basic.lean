import Mathlib.Tactic

/-!
Lists whose items are linked in both directions, the second link being the address of
the pointer that leads to the item.

A `Place` is where a pointer of the list is kept: in the head of the list, or in the
`next` of an item. The link back of an item is a place, or null if the item is on no
list.

* `Linked L xs`: the links stand for the list `xs`.
-/

namespace Link

open List Option Ne

variable {ι : Type*}

/-- Where a pointer is kept: in the head, or in the `next` of an item. -/
abbrev Place (ι : Type*) := Option ι

/-- The head of the list and the two links of every item. -/
@[ext] structure Links (ι : Type*) where
  head : Option ι
  next : ι → Option ι
  prev : ι → Option (Place ι)

def Links.empty : Links ι := ⟨none, fun _ => none, fun _ => none⟩

def Links.read (L : Links ι) : Place ι → Option ι
  | none => L.head
  | some i => L.next i

variable [DecidableEq ι]

def Links.write (L : Links ι) (p : Place ι) (v : Option ι) : Links ι :=
  match p with
  | none => { L with head := v }
  | some i => { L with next := fun j => if j = i then v else L.next j }

variable (L : Links ι)

def Links.setPrev (i : ι) (p : Option (Place ι)) : Links ι :=
  { L with prev := fun j => if j = i then p else L.prev j }

/-- An item is taken out: its neighbours are linked to each other, and its own links are
cleared. -/
def Links.unlink (i : ι) : Links ι :=
  let L := match L.next i with
    | some j => L.setPrev j (L.prev i)
    | none => L
  let L := match L.prev i with
    | some p => L.write p (L.next i)
    | none => L
  (L.write (some i) none).setPrev i none

def Links.insertAt (p : Place ι) (i : ι) : Links ι :=
  let after := L.read p
  let L := (L.write (some i) after).setPrev i (some p)
  let L := match after with
    | some j => L.setPrev j (some (some i))
    | none => L
  L.write p (some i)

/-! ### The list that links stand for -/

def nextIn : List ι → ι → Option ι
  | [], _ => none
  | x :: xs, i => if i = x then xs.head? else nextIn xs i

/-- The place that leads to an item, for a list that starts at the place `p`. -/
def prevIn : Place ι → List ι → ι → Option (Place ι)
  | _, [], _ => none
  | p, x :: xs, i => if i = x then some p else prevIn (some x) xs i

structure Linked (L : Links ι) (xs : List ι) : Prop where
  nodup : xs.Nodup
  head : L.head = xs.head?
  next : ∀ i, L.next i = nextIn xs i
  prev : ∀ i, L.prev i = prevIn none xs i

lemma Linked.empty : Linked (Links.empty : Links ι) [] :=
  ⟨nodup_nil, rfl, fun _ => rfl, fun _ => rfl⟩

variable {xs as bs : List ι} {i j : ι} {p : Place ι} {L : Links ι}

lemma nextIn_of_notMem (h : i ∉ xs) : nextIn xs i = none := by
  induction xs with
  | nil => rfl
  | cons x xs ih =>
    rw [mem_cons, not_or] at h
    rw [nextIn, if_neg h.1, ih h.2]

lemma nextIn_append_cons (hnodup : (as ++ i :: bs).Nodup) :
    nextIn (as ++ i :: bs) i = bs.head? := by
  induction as with
  | nil => exact if_pos rfl
  | cons x as ih =>
    rw [cons_append, nodup_cons] at hnodup
    have hix : i ≠ x := by
      rintro rfl
      exact hnodup.1 (by simp)
    rw [cons_append, nextIn, if_neg hix, ih hnodup.2]

lemma prevIn_isSome : (prevIn p xs i).isSome ↔ i ∈ xs := by
  induction xs generalizing p with
  | nil => simp [prevIn]
  | cons x xs ih =>
    rw [prevIn]
    split_ifs with hi
    · simp [hi]
    · rw [ih]
      simp [hi]

lemma Linked.prev_isSome (h : Linked L xs) : (L.prev i).isSome ↔ i ∈ xs := by
  rw [h.prev, prevIn_isSome]

lemma Linked.prev_eq_none (h : Linked L xs) : L.prev i = none ↔ i ∉ xs := by
  rw [← h.prev_isSome, ← not_isSome_iff_eq_none]

lemma Linked.unique {ys} (hx : Linked L xs) (hy : Linked L ys) : xs = ys := by
  have hhead : xs.head? = ys.head? := hx.head.symm.trans hy.head
  have hnext : ∀ i, nextIn xs i = nextIn ys i := fun i => (hx.next i).symm.trans (hy.next i)
  have hnodup := hx.nodup
  have hnodup' := hy.nodup
  clear hx hy
  induction xs generalizing ys with
  | nil =>
    cases ys with
    | nil => rfl
    | cons y ys => cases hhead
  | cons x xs ih =>
    cases ys with
    | nil => cases hhead
    | cons y ys =>
      obtain rfl : x = y := some.inj hhead
      rw [nodup_cons] at hnodup hnodup'
      congr 1
      refine ih ?_ ?_ hnodup.2 hnodup'.2
      · simpa [nextIn] using hnext x
      intro i
      by_cases hi : i = x
      · rw [hi, nextIn_of_notMem hnodup.1, nextIn_of_notMem hnodup'.1]
      · simpa [nextIn, hi] using hnext i

/-! ### Taking out -/

lemma mem_of_nextIn (h : nextIn xs i = some j) : j ∈ xs := by
  induction xs with
  | nil => cases h
  | cons x xs ih =>
    rw [nextIn] at h
    split_ifs at h with hi
    · exact mem_cons_of_mem _ (mem_of_mem_head? h)
    · exact mem_cons_of_mem _ (ih h)

lemma prevIn_eq_start (hp : ∀ q ∈ xs, p ≠ some q) : prevIn p xs i = some p ↔ xs.head? = some i := by
  cases xs with
  | nil => simp [prevIn]
  | cons x xs =>
    rw [prevIn, List.head?_cons, some_inj]
    split_ifs with hi
    · simp [hi]
    refine iff_of_false (fun h => ?_) (fun h => hi h.symm)
    have hmem : ∀ {ys : List ι} {r : Place ι}, (∀ q ∈ ys, p ≠ some q) → p ≠ r →
        prevIn r ys i ≠ some p := by
      intro ys
      induction ys with
      | nil => intro r _ _ h; cases h
      | cons y ys ih =>
        intro r hys hr
        rw [prevIn]
        split_ifs
        · exact fun h => hr (some.inj h).symm
        · exact ih (fun q hq => hys q (mem_cons_of_mem _ hq)) (hys y mem_cons_self)
    exact hmem (fun q hq => hp q (mem_cons_of_mem _ hq)) (hp x mem_cons_self) h

lemma head?_erase (hp : ∀ q ∈ xs, p ≠ some q) :
    (xs.erase i).head? = if prevIn p xs i = some p then nextIn xs i else xs.head? := by
  simp only [prevIn_eq_start hp]
  cases xs with
  | nil => rfl
  | cons x xs =>
    rw [List.head?_cons, nextIn]
    by_cases hi : x = i
    · rw [if_pos (congrArg some hi), if_pos hi.symm, hi, erase_cons_head]
    · rw [if_neg (by simpa using hi), erase_cons_tail (by simpa using hi), List.head?_cons]

lemma nextIn_erase (hnodup : xs.Nodup) (hp : ∀ q ∈ xs, p ≠ some q) (hpj : p ≠ some j)
    (hji : j ≠ i) :
    nextIn (xs.erase i) j = if prevIn p xs i = some (some j) then nextIn xs i else nextIn xs j := by
  induction xs generalizing p with
  | nil => rfl
  | cons x xs ih =>
    rw [nodup_cons] at hnodup
    have hx : ∀ q ∈ xs, some x ≠ some q := by
      rintro q hq heq
      exact hnodup.1 (some.inj heq ▸ hq)
    by_cases hi : i = x
    · rw [hi, erase_cons_head, prevIn, if_neg (by simpa using hpj), nextIn, if_neg (hi ▸ hji)]
    rw [erase_cons_tail (by simpa using symm hi), prevIn, if_neg hi]
    by_cases hj : j = x
    · rw [hj, nextIn, if_pos rfl, head?_erase hx, nextIn, if_neg hi, nextIn, if_pos rfl]
    · rw [nextIn, if_neg hj, ih hnodup.2 hx (by simpa using symm hj), nextIn, if_neg hi,
        nextIn, if_neg hj]

lemma prevIn_erase (hnodup : xs.Nodup) (hji : j ≠ i) :
    prevIn p (xs.erase i) j = if nextIn xs i = some j then prevIn p xs i else prevIn p xs j := by
  induction xs generalizing p with
  | nil => rfl
  | cons x xs ih =>
    rw [nodup_cons] at hnodup
    by_cases hi : i = x
    · subst hi
      have hfirst : prevIn p (i :: xs) i = some p := if_pos rfl
      have hrest : prevIn p (i :: xs) j = prevIn (some i) xs j := if_neg hji
      rw [erase_cons_head, nextIn, if_pos rfl, hfirst, hrest]
      cases xs with
      | nil => rfl
      | cons y ys =>
        rw [prevIn, prevIn, List.head?_cons]
        by_cases hy : j = y
        · rw [if_pos hy, if_pos (congrArg some hy.symm)]
        · rw [if_neg hy, if_neg (by simpa using symm hy), if_neg hy]
    · rw [erase_cons_tail (by simpa using symm hi), nextIn, if_neg hi, prevIn]
      by_cases hj : j = x
      · have hne : nextIn xs i ≠ some j := fun h => hnodup.1 (hj ▸ mem_of_nextIn h)
        rw [if_pos hj, if_neg hne, prevIn, if_pos hj]
      · rw [if_neg hj, ih hnodup.2, prevIn, if_neg hi, prevIn, if_neg hj]

lemma unlink_eq (hnext : L.next i ≠ some i) : L.unlink i =
    { head := if L.prev i = some none then L.next i else L.head
      next := fun j =>
        if j = i then none else if L.prev i = some (some j) then L.next i else L.next j
      prev := fun j =>
        if j = i then none else if L.next i = some j then L.prev i else L.prev j } := by
  have hset : ∀ k, L.next i = some k → i ≠ k := by
    rintro k hk rfl
    exact hnext hk
  cases hn : L.next i with
  | none =>
    cases hp : L.prev i with
    | none => ext <;> simp [Links.unlink, Links.write, Links.setPrev, hn, hp]
    | some q =>
      cases q with
      | none => ext <;> simp [Links.unlink, Links.write, Links.setPrev, hn, hp]
      | some q => ext <;> simp [Links.unlink, Links.write, Links.setPrev, hn, hp, eq_comm]
  | some k =>
    have hik := hset k hn
    cases hp : L.prev i with
    | none => ext <;> simp [Links.unlink, Links.write, Links.setPrev, hn, hp, hik, eq_comm]
    | some q =>
      cases q with
      | none | some q =>
        ext <;> simp [Links.unlink, Links.write, Links.setPrev, hn, hp, hik, eq_comm]

lemma nextIn_ne_self (hnodup : xs.Nodup) : nextIn xs i ≠ some i := by
  induction xs with
  | nil => simp [nextIn]
  | cons x xs ih =>
    rw [nodup_cons] at hnodup
    rw [nextIn]
    split_ifs with hi
    · exact fun h => hnodup.1 (hi ▸ mem_of_mem_head? h)
    · exact ih hnodup.2

lemma Linked.unlink (h : Linked L xs) (i) : Linked (L.unlink i) (xs.erase i) := by
  have hnext : L.next i ≠ some i := by
    rw [h.next]
    exact nextIn_ne_self h.nodup
  have hself : i ∉ xs.erase i := h.nodup.not_mem_erase
  have hstart : ∀ q ∈ xs, (none : Place ι) ≠ some q := fun _ _ => by simp
  rw [unlink_eq hnext]
  refine ⟨h.nodup.erase i, ?_, fun j => ?_, fun j => ?_⟩
  · rw [head?_erase hstart, h.prev, h.next, h.head]
  · dsimp only
    split_ifs with hj hlead
    · rw [hj, nextIn_of_notMem hself]
    · rw [nextIn_erase h.nodup hstart (by simp) hj, ← h.prev, if_pos hlead, h.next]
    · rw [nextIn_erase h.nodup hstart (by simp) hj, ← h.prev, if_neg hlead, h.next]
  dsimp only
  split_ifs with hj hlead
  · rw [hj, eq_comm, ← not_isSome_iff_eq_none, prevIn_isSome]
    exact hself
  · rw [prevIn_erase h.nodup hj, ← h.next, if_pos hlead, h.prev]
  · rw [prevIn_erase h.nodup hj, ← h.next, if_neg hlead, h.prev]

/-! ### Putting in -/

/-- The place behind the items `as` of a list that starts at `p`. -/
def endPlace : Place ι → List ι → Place ι
  | p, [] => p
  | _, x :: xs => endPlace (some x) xs

omit [DecidableEq ι] in
lemma endPlace_cases (p : Place ι) (as : List ι) :
    (as = [] ∧ endPlace p as = p) ∨ ∃ x ∈ as, endPlace p as = some x := by
  induction as generalizing p with
  | nil => exact .inl ⟨rfl, rfl⟩
  | cons x as ih =>
    rcases ih (some x) with ⟨-, h⟩ | ⟨y, hy, h⟩
    · exact .inr ⟨x, mem_cons_self, h⟩
    · exact .inr ⟨y, mem_cons_of_mem _ hy, h⟩

lemma nextIn_insert (hnodup : (as ++ bs).Nodup) (hi : i ∉ as ++ bs) (hpj : p ≠ some j) :
    nextIn (as ++ i :: bs) j =
      if j = i then bs.head?
      else if endPlace p as = some j then some i else nextIn (as ++ bs) j := by
  induction as generalizing p with
  | nil =>
    rw [nil_append, nil_append, nextIn, endPlace, if_neg hpj]
  | cons x as ih =>
    rw [cons_append, nodup_cons] at hnodup
    rw [cons_append, mem_cons, not_or] at hi
    rw [cons_append, cons_append, nextIn, nextIn, endPlace]
    by_cases hj : j = x
    · have hji : j ≠ i := by rintro rfl; exact hi.1 hj
      rw [if_pos hj, if_neg hji, if_pos hj]
      rcases endPlace_cases (some x) as with ⟨rfl, h⟩ | ⟨y, hy, h⟩
      · rw [h, if_pos (by rw [hj]), nil_append, List.head?_cons]
      have hyx : y ≠ j := by
        rintro rfl
        exact hnodup.1 (hj ▸ mem_append_left _ hy)
      rw [h, if_neg (by simpa using hyx)]
      cases as with
      | nil => cases hy
      | cons z as => rfl
    · rw [if_neg hj, if_neg hj, ih (p := some x) hnodup.2 hi.2 (by simpa using symm hj)]

lemma prevIn_insert (hi : i ∉ as ++ bs) (hnodup : (as ++ bs).Nodup) : prevIn p (as ++ i :: bs) j =
      if j = i then some (endPlace p as)
      else if bs.head? = some j then some (some i) else prevIn p (as ++ bs) j := by
  induction as generalizing p with
  | nil =>
    rw [nil_append, nil_append, prevIn]
    split_ifs with hj hhead
    · rfl
    · cases bs with
      | nil => cases hhead
      | cons b bs =>
        obtain rfl : b = j := some.inj hhead
        rw [prevIn, if_pos rfl]
    cases bs with
    | nil => rfl
    | cons b bs =>
      have hjb : j ≠ b := by
        rintro rfl
        exact hhead rfl
      rw [prevIn, if_neg hjb, prevIn, if_neg hjb]
  | cons x as ih =>
    rw [cons_append, nodup_cons] at hnodup
    rw [cons_append, mem_cons, not_or] at hi
    rw [cons_append, cons_append, prevIn, prevIn, endPlace]
    by_cases hj : j = x
    · have hji : j ≠ i := by rintro rfl; exact hi.1 hj
      have hhead : bs.head? ≠ some j := fun h =>
        hnodup.1 (hj ▸ mem_append_right _ (mem_of_mem_head? h))
      rw [if_pos hj, if_neg hji, if_neg hhead, if_pos hj]
    · rw [if_neg hj, if_neg hj, ih hi.2 hnodup.2]

omit [DecidableEq ι] in
lemma endPlace_append_singleton (as : List ι) : endPlace p (as ++ [i]) = some i := by
  induction as generalizing p with
  | nil => rfl
  | cons x as ih => exact ih

lemma read_endPlace (h : Linked L (as ++ bs)) : L.read (endPlace none as) = bs.head? := by
  rcases eq_nil_or_concat as with rfl | ⟨as, x, rfl⟩
  · exact h.head
  · rw [concat_eq_append, append_assoc] at h
    rw [concat_eq_append, endPlace_append_singleton, Links.read, h.next]
    exact nextIn_append_cons h.nodup

lemma insertAt_eq (hp : p ≠ some i) (hread : L.read p ≠ some i) : L.insertAt p i =
    { head := if p = none then some i else L.head
      next := fun j => if j = i then L.read p else if p = some j then some i else L.next j
      prev := fun j =>
        if j = i then some p else if L.read p = some j then some (some i) else L.prev j } := by
  have hset : ∀ k, L.read p = some k → i ≠ k := by
    rintro k hk rfl
    exact hread hk
  cases p with
  | none =>
    cases hr : L.read none with
    | none => ext <;> simp [Links.insertAt, Links.write, Links.setPrev, hr]
    | some k =>
      ext <;> simp [Links.insertAt, Links.write, Links.setPrev, hr]
      grind
  | some q =>
    cases hr : L.read (some q) with
    | none =>
      ext <;> simp [Links.insertAt, Links.write, Links.setPrev, hr]
      grind
    | some k =>
      ext <;> simp [Links.insertAt, Links.write, Links.setPrev, hr] <;> grind

lemma Linked.insertAt (h : Linked L (as ++ bs)) (hi : i ∉ as ++ bs) :
    Linked (L.insertAt (endPlace none as) i) (as ++ i :: bs) := by
  have hread := read_endPlace h
  have hplace : endPlace none as ≠ some i := by
    rcases endPlace_cases none as with ⟨-, h⟩ | ⟨x, hx, h⟩
    · rw [h]
      simp
    · rw [h]
      rintro heq
      exact hi (some.inj heq ▸ mem_append_left _ hx)
  have hhead : bs.head? ≠ some i := fun hb =>
    hi (mem_append_right _ (mem_of_mem_head? hb))
  rw [insertAt_eq hplace (by rwa [hread]), hread]
  refine ⟨?_, ?_, fun j => ?_, fun j => ?_⟩
  · exact (nodup_middle).mpr (nodup_cons.mpr ⟨hi, h.nodup⟩)
  · rcases endPlace_cases none as with ⟨rfl, hend⟩ | ⟨x, hx, hend⟩
    · rw [hend, if_pos rfl, nil_append, List.head?_cons]
    rw [hend, h.head]
    cases as with
    | nil => cases hx
    | cons a as => rfl
  · rw [nextIn_insert (p := none) h.nodup hi (by simp), ← h.next]
  · rw [prevIn_insert hi h.nodup, ← h.prev]

lemma Linked.insertAt_head (h : Linked L bs) (hi : i ∉ bs) :
    Linked (L.insertAt none i) (i :: bs) := by
  rw [← nil_append bs] at h hi
  exact h.insertAt hi

end Link
