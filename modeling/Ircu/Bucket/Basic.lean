import Mathlib.Tactic

/-!
Chains of items, one for each bucket of a table, linked in one direction.

* `Stands B f`: the chain of the bucket `k` is the list `f k`.
-/

namespace Bucket

open List Function Nat

variable {κ ι : Type*}

/-- Where a pointer is kept: at the head of a chain, or in an item. -/
inductive Place (κ ι : Type*)
  | head (k : κ)
  | next (i : ι)
  deriving DecidableEq

/-- The heads of the chains and the link of every item. -/
structure Buckets (κ ι : Type*) where
  head : κ → Option ι
  next : ι → Option ι

def Buckets.empty : Buckets κ ι := ⟨fun _ => none, fun _ => none⟩

def Buckets.read (B : Buckets κ ι) : Place κ ι → Option ι
  | .head k => B.head k
  | .next i => B.next i

/-- The first item of a chain that answers a question, from a pointer on. Asking may fail. -/
def Buckets.findFrom (B : Buckets κ ι) (ask : ι → Option Bool) : ℕ → Option ι → Option (Option ι)
  | 0, _ => none
  | _ + 1, none => some none
  | fuel + 1, some i =>
    match ask i with
    | none => none
    | some true => some (some i)
    | some false => B.findFrom ask fuel (B.next i)

section

variable [DecidableEq κ] [DecidableEq ι]

def Buckets.write (B : Buckets κ ι) (p : Place κ ι) (v : Option ι) : Buckets κ ι where
  head k := if p = .head k then v else B.head k
  next i := if p = .next i then v else B.next i

def Buckets.push (B : Buckets κ ι) (k : κ) (i : ι) : Buckets κ ι :=
  (B.write (.next i) (B.head k)).write (.head k) (some i)

def Buckets.removeFrom (B : Buckets κ ι) (i : ι) : ℕ → Place κ ι → Option (Buckets κ ι)
  | 0, _ => none
  | fuel + 1, p =>
    match B.read p with
    | none => some B
    | some j => if j = i then some (B.write p (B.next i)) else B.removeFrom i fuel (.next j)

def Buckets.remove (B : Buckets κ ι) (fuel : ℕ) (k : κ) (i : ι) : Option (Buckets κ ι) :=
  B.removeFrom i fuel (.head k)

end

/-! ### The lists that chains stand for -/

/-- The links lead from a pointer through the items of a list, to its end. -/
def Path (next : ι → Option ι) : Option ι → List ι → Prop
  | p, [] => p = none
  | p, x :: xs => p = some x ∧ Path next (next x) xs

/-- The chain of each bucket is a list, and no item is on two of them. -/
structure Stands (B : Buckets κ ι) (f : κ → List ι) : Prop where
  path : ∀ k, Path B.next (B.head k) (f k)
  nodup : ∀ k, (f k).Nodup
  apart : ∀ {k l i}, i ∈ f k → i ∈ f l → k = l

variable {B : Buckets κ ι} {f : κ → List ι} {p : Option ι} {i : ι} {k : κ} {xs as bs : List ι}
  {next next' : ι → Option ι}

lemma Stands.empty : Stands (Buckets.empty : Buckets κ ι) fun _ => [] :=
  ⟨fun _ => rfl, fun _ => nodup_nil, fun h => absurd h not_mem_nil⟩

lemma Path.congr (h : Path next p xs) (heq : ∀ x ∈ xs, next' x = next x) : Path next' p xs := by
  induction xs generalizing p with
  | nil => exact h
  | cons x xs ih =>
    refine ⟨h.1, ?_⟩
    rw [heq x mem_cons_self]
    exact ih h.2 fun y hy => heq y (mem_cons_of_mem _ hy)

lemma Path.find (h : Path B.next p xs) {ask q}
    (hask : ∀ x ∈ xs, ask x = some (q x)) {fuel} (hfuel : xs.length < fuel) :
    B.findFrom ask fuel p = some (xs.find? q) := by
  induction xs generalizing p fuel with
  | nil =>
    obtain ⟨fuel, rfl⟩ := exists_eq_add_one_of_ne_zero hfuel.ne'
    obtain rfl : p = none := h
    rfl
  | cons x xs ih =>
    rw [length_cons] at hfuel
    obtain ⟨fuel, rfl⟩ := exists_eq_add_one_of_ne_zero (ne_zero_of_lt hfuel)
    rw [h.1, Buckets.findFrom, hask x mem_cons_self, List.find?_cons]
    cases q x with
    | true => rfl
    | false => exact ih h.2 (fun y hy => hask y (mem_cons_of_mem _ hy)) (by omega)

lemma Stands.find (h : Stands B f) {ask q}
    (hask : ∀ x ∈ f k, ask x = some (q x)) {fuel} (hfuel : (f k).length < fuel) :
    B.findFrom ask fuel (B.head k) = some ((f k).find? q) :=
  (h.path k).find hask hfuel

variable [DecidableEq κ] [DecidableEq ι]

lemma Stands.push (h : Stands B f) (hi : ∀ l, i ∉ f l) (k) :
    Stands (B.push k i) (Function.update f k (i :: f k)) := by
  have hnext : ∀ l, ∀ x ∈ f l, (B.push k i).next x = B.next x := by
    intro l x hx
    have hne : i ≠ x := by
      rintro rfl
      exact hi l hx
    simp [Buckets.push, Buckets.write, hne]
  refine ⟨fun l => ?_, fun l => ?_, fun {l m j} hl hm => ?_⟩
  · by_cases hl : l = k
    · subst hl
      rw [update_self]
      refine ⟨by simp [Buckets.push, Buckets.write], ?_⟩
      have hlink : (B.push l i).next i = B.head l := by simp [Buckets.push, Buckets.write]
      rw [hlink]
      exact (h.path l).congr (hnext l)
    · rw [update_of_ne hl]
      have hhead : (B.push k i).head l = B.head l := by
        simp [Buckets.push, Buckets.write, Ne.symm hl]
      rw [hhead]
      exact (h.path l).congr (hnext l)
  · by_cases hl : l = k
    · subst hl
      rw [update_self]
      exact nodup_cons.mpr ⟨hi l, h.nodup l⟩
    · rw [update_of_ne hl]
      exact h.nodup l
  by_cases hj : j = i
  · subst hj
    have honly : ∀ {n}, j ∈ Function.update f k (j :: f k) n → n = k := by
      intro n hn
      by_contra hne
      rw [update_of_ne hne] at hn
      exact hi n hn
    rw [honly hl, honly hm]
  have hold : ∀ {n}, j ∈ Function.update f k (i :: f k) n → j ∈ f n := by
    intro n hn
    by_cases hne : n = k
    · subst hne
      rw [update_self, mem_cons] at hn
      exact hn.resolve_left hj
    · rwa [update_of_ne hne] at hn
  exact h.apart (hold hl) (hold hm)

/-! ### Taking out -/

/-- The place behind the items `as` of a chain that starts at a place. -/
def endPlace : Place κ ι → List ι → Place κ ι
  | p, [] => p
  | _, x :: xs => endPlace (.next x) xs

omit [DecidableEq κ] [DecidableEq ι] in
lemma endPlace_cases (p : Place κ ι) (as : List ι) :
    endPlace p as = p ∨ ∃ x ∈ as, endPlace p as = .next x := by
  induction as generalizing p with
  | nil => exact .inl rfl
  | cons x as ih =>
    rcases ih (.next x) with h | ⟨y, hy, h⟩
    · exact .inr ⟨x, mem_cons_self, h⟩
    · exact .inr ⟨y, mem_cons_of_mem _ hy, h⟩

lemma removeFrom_eq {p} (h : Path B.next (B.read p) (as ++ i :: bs)) (hi : i ∉ as)
    {fuel} (hfuel : as.length < fuel) :
    B.removeFrom i fuel p = some (B.write (endPlace p as) (B.next i)) := by
  induction as generalizing p fuel with
  | nil =>
    obtain ⟨fuel, rfl⟩ := exists_eq_add_one_of_ne_zero hfuel.ne'
    rw [Buckets.removeFrom, h.1]
    exact if_pos rfl
  | cons x as ih =>
    rw [length_cons] at hfuel
    obtain ⟨fuel, rfl⟩ := exists_eq_add_one_of_ne_zero (ne_zero_of_lt hfuel)
    rw [mem_cons, not_or] at hi
    rw [Buckets.removeFrom, h.1]
    dsimp only
    rw [if_neg (Ne.symm hi.1)]
    exact ih (p := .next x) h.2 hi.2 (by omega)

lemma path_write {p} (h : Path B.next (B.read p) (as ++ i :: bs))
    (hnodup : (as ++ i :: bs).Nodup) (hp : ∀ x ∈ as ++ i :: bs, p ≠ .next x) :
    Path (B.write (endPlace p as) (B.next i)).next ((B.write (endPlace p as) (B.next i)).read p)
      (as ++ bs) := by
  induction as generalizing p with
  | nil =>
    have hread : (B.write p (B.next i)).read p = B.next i := by
      cases p <;> simp [Buckets.read, Buckets.write]
    rw [endPlace, hread]
    refine h.2.congr fun x hx => ?_
    exact if_neg (hp x (by simp [hx]))
  | cons x as ih =>
    rw [cons_append, nodup_cons] at hnodup
    have hread : (B.write (endPlace (.next x) as) (B.next i)).read p = B.read p := by
      have hne : endPlace (.next x) as ≠ p := by
        rcases endPlace_cases (.next x : Place κ ι) as with heq | ⟨y, hy, heq⟩
        · rw [heq]
          exact (hp x (by simp)).symm
        · rw [heq]
          exact (hp y (by simp [hy])).symm
      cases p with
      | head l | next j => exact if_neg hne
    rw [endPlace, hread]
    refine ⟨h.1, ih h.2 hnodup.2 fun y hy heq => ?_⟩
    exact hnodup.1 (Place.next.inj heq ▸ hy)

omit [DecidableEq ι] in
lemma notMem_of_nodup_middle (hnodup : (as ++ i :: bs).Nodup) : i ∉ as := fun hmem =>
  (nodup_append.mp hnodup).2.2 i hmem i mem_cons_self rfl

lemma erase_middle (hnodup : (as ++ i :: bs).Nodup) : (as ++ i :: bs).erase i = as ++ bs := by
  rw [erase_append_right _ (notMem_of_nodup_middle hnodup), erase_cons_head]

lemma Stands.remove (h : Stands B f) (hi : i ∈ f k) {fuel} (hfuel : (f k).length < fuel) :
    ∃ B', B.remove fuel k i = some B' ∧ Stands B' (Function.update f k ((f k).erase i)) := by
  obtain ⟨as, bs, hcut⟩ := append_of_mem hi
  have hnodup := h.nodup k
  rw [hcut] at hnodup
  have hias := notMem_of_nodup_middle hnodup
  have hpath : Path B.next (B.read (.head k)) (as ++ i :: bs) := hcut ▸ h.path k
  have hshort : as.length < fuel := by
    rw [hcut, length_append] at hfuel
    omega
  have herase : (f k).erase i = as ++ bs := by rw [hcut, erase_middle hnodup]
  have hsub : ∀ {l j}, j ∈ Function.update f k ((f k).erase i) l → j ∈ f l := by
    intro l j hj
    by_cases hl : l = k
    · subst hl
      rw [update_self] at hj
      exact mem_of_mem_erase hj
    · rwa [update_of_ne hl] at hj
  refine ⟨_, removeFrom_eq hpath hias hshort, fun l => ?_, fun l => ?_,
    fun hl hm => h.apart (hsub hl) (hsub hm)⟩
  · by_cases hl : l = k
    · subst hl
      rw [update_self, herase]
      exact path_write hpath hnodup fun x _ => by simp
    -- the place that is written is on the chain of `k`
    rw [update_of_ne hl]
    have hplace : ∀ x ∈ f l, endPlace (.head k) as ≠ .next x := by
      intro x hx heq
      rcases endPlace_cases (.head k : Place κ ι) as with hend | ⟨y, hy, hend⟩
      · rw [hend] at heq
        cases heq
      · obtain rfl : y = x := Place.next.inj (hend.symm.trans heq)
        exact hl (h.apart hx (hcut ▸ mem_append_left _ hy))
    have hhead : endPlace (.head k : Place κ ι) as ≠ .head l := by
      rcases endPlace_cases (.head k : Place κ ι) as with hend | ⟨y, -, hend⟩
      · rw [hend]
        exact fun heq => hl (Place.head.inj heq).symm
      · rw [hend]
        simp
    have hkept : (B.write (endPlace (.head k) as) (B.next i)).head l = B.head l := if_neg hhead
    rw [hkept]
    exact (h.path l).congr fun x hx => if_neg (hplace x hx)
  · by_cases hl : l = k
    · subst hl
      rw [update_self]
      exact (h.nodup l).erase i
    · rw [update_of_ne hl]
      exact h.nodup l

end Bucket
