import Ircu.Heap.Basic

/-!
Rosters: lists of records in a heap, each with a pointer to the next one, and a pointer to
the first.

Records are put in front, looked for, unlinked and freed the way C code does it: by following
pointers, or by following pointers to the pointers. A record that is not there any more has no
contents, and an operation that comes across one has no result.

* `Holds r xs`: the roster consists of the records `xs`, given with their addresses.
* `Holds.push`, `Holds.find`, `Holds.take`, `Holds.remove`: one record.
* `Holds.sweep`, `Holds.prune`: all records of a kind are removed, with the next pointer kept
  aside or with a pointer to the pointer.
-/

/-- Records, each with the pointer to the next one, and the pointer to the first. -/
structure Roster (V : Type*) where
  heap : Heap (Option ℕ × V)
  head : Option ℕ

namespace Roster

open List Option Nat

variable {V : Type*} (r : Roster V)

/-! ### Operations -/

def empty : Roster V := ⟨Heap.empty, none⟩

def next : ℕ := r.heap.next

def push (v : V) : Roster V := ⟨r.heap.alloc (r.head, v), some r.heap.next⟩

def get (a : ℕ) : Option V := (r.heap.cell a).map Prod.snd

/-- A walk cannot take more turns than addresses have been given out. -/
def turns : ℕ := r.heap.next + 1

def findFrom (p : V → Bool) : ℕ → Option ℕ → Option (Option ℕ)
  | 0, _ => none
  | _ + 1, none => some none
  | fuel + 1, some a =>
    match r.heap.cell a with
    | none => none
    | some (n, v) => if p v then some (some a) else findFrom p fuel n

def find (p : V → Bool) : Option (Option ℕ) := r.findFrom p r.turns r.head

/-- The pointer at a place: the first one (`none`), or the one in a record. -/
def read : Option ℕ → Option (Option ℕ)
  | none => some r.head
  | some a => (r.heap.cell a).map Prod.fst

def write : Option ℕ → Option ℕ → Roster V
  | none, q => { r with head := q }
  | some a, q => { r with heap := r.heap.modify a fun c => (q, c.2) }

def takeFrom (p : ℕ → V → Bool) : ℕ → Option ℕ → Option (Roster V × Option ℕ)
  | 0, _ => none
  | fuel + 1, place =>
    match r.read place with
    | none => none
    | some none => some (r, none)
    | some (some a) =>
      match r.heap.cell a with
      | none => none
      | some (n, v) =>
        if p a v then some (r.write place n, some a) else takeFrom p fuel (some a)

def take (p : ℕ → V → Bool) : Option (Roster V × Option ℕ) := r.takeFrom p r.turns none

def release (a : ℕ) : Option (Roster V) :=
  if (r.heap.cell a).isSome then some { r with heap := r.heap.free a } else none

/-- A record is unlinked and freed. The result says whether it was found on the list. -/
def remove (a : ℕ) : Option (Roster V × Bool) :=
  (r.take fun b _ => b = a).bind fun s => (s.1.release a).map fun r => (r, s.2.isSome)

def foldFrom {β : Type*} (f : β → V → β) : ℕ → Option ℕ → β → Option β
  | 0, _, _ => none
  | _ + 1, none, b => some b
  | fuel + 1, some a, b =>
    match r.heap.cell a with
    | none => none
    | some (n, v) => foldFrom f fuel n (f b v)

def fold {β : Type*} (f : β → V → β) (b : β) : Option β := r.foldFrom f r.turns r.head b

/-- All records of a kind are removed; the pointer to the next one is read before. The result
says which they were. -/
def sweepFrom (p : V → Bool) : ℕ → Roster V → Option ℕ → Option (Roster V × List (ℕ × V))
  | 0, _, _ => none
  | _ + 1, r, none => some (r, [])
  | fuel + 1, r, some a =>
    match r.heap.cell a with
    | none => none
    | some (n, v) =>
      if p v then
        (r.remove a).bind fun s =>
          (sweepFrom p fuel s.1 n).map fun s => (s.1, (a, v) :: s.2)
      else sweepFrom p fuel r n

def sweep (p : V → Bool) : Option (Roster V × List (ℕ × V)) := sweepFrom p r.turns r r.head

/-- All records of a kind are removed, through the pointer to the pointer. -/
def pruneFrom (p : V → Bool) : ℕ → Roster V → Option ℕ → Option (Roster V × List (ℕ × V))
  | 0, _, _ => none
  | fuel + 1, r, place =>
    match r.read place with
    | none => none
    | some none => some (r, [])
    | some (some a) =>
      match r.heap.cell a with
      | none => none
      | some (n, v) =>
        if p v then
          ((r.write place n).release a).bind fun r =>
            (pruneFrom p fuel r place).map fun s => (s.1, (a, v) :: s.2)
        else pruneFrom p fuel r (some a)

/-- All records of a kind are removed, through the pointer to the pointer. -/
def prune (p : V → Bool) : Option (Roster V × List (ℕ × V)) := pruneFrom p r.turns r none

variable {r} in
lemma take_of_head_none {p : ℕ → V → Bool} (h : r.head = none) : r.take p = some (r, none) := by
  rw [take, turns, takeFrom, read, h]

variable {r} in
lemma prune_of_head_none {p : V → Bool} (h : r.head = none) : r.prune p = some (r, []) := by
  rw [prune, turns, pruneFrom, read, h]

/-! ### Chains of records -/

/-- The records `xs`, linked one to the next, from the pointer `p` to the pointer `q`. -/
def Chain (h : Heap (Option ℕ × V)) : Option ℕ → List (ℕ × V) → Option ℕ → Prop
  | p, [], q => p = q
  | p, x :: xs, q => p = some x.1 ∧ ∃ n, h.cell x.1 = some (n, x.2) ∧ Chain h n xs q

def addrs (xs : List (ℕ × V)) : List ℕ := xs.map Prod.fst

@[simp] lemma addrs_nil : addrs ([] : List (ℕ × V)) = [] := rfl

@[simp] lemma addrs_cons (x) (xs : List (ℕ × V)) : addrs (x :: xs) = x.1 :: addrs xs := rfl

@[simp] lemma addrs_append (xs ys : List (ℕ × V)) : addrs (xs ++ ys) = addrs xs ++ addrs ys :=
  map_append

lemma mem_addrs {a} {xs : List (ℕ × V)} : a ∈ addrs xs ↔ ∃ v, (a, v) ∈ xs := by
  simp [addrs]

variable {x : ℕ × V} {fuel : ℕ} {k : V → Bool} {as bs : List (ℕ × V)}

lemma mem_addrs_of_mem {xs} (h : x ∈ xs) : x.1 ∈ addrs xs :=
  mem_map_of_mem h

variable {r} {h h' : Heap (Option ℕ × V)} {p q : Option ℕ} {xs ys : List (ℕ × V)} {a : ℕ} {v : V}

lemma chain_append : Chain h p (xs ++ ys) q ↔ ∃ n, Chain h p xs n ∧ Chain h n ys q := by
  induction xs generalizing p with
  | nil => simp [Chain]
  | cons x xs ih =>
    simp only [cons_append, Chain, ih]
    constructor
    · rintro ⟨hp, n, hx, m, hxs, hys⟩
      exact ⟨m, ⟨hp, n, hx, hxs⟩, hys⟩
    · rintro ⟨m, ⟨hp, n, hx, hxs⟩, hys⟩
      exact ⟨hp, n, hx, m, hxs, hys⟩

lemma Chain.cell (hc : Chain h p xs q) (hx : x ∈ xs) : ∃ n, h.cell x.1 = some (n, x.2) := by
  induction xs generalizing p with
  | nil => cases hx
  | cons y xs ih =>
    obtain ⟨-, n, hy, hxs⟩ := hc
    rcases mem_cons.mp hx with rfl | hx
    · exact ⟨n, hy⟩
    · exact ih hxs hx

lemma Chain.congr (hc : Chain h p xs q) (heq : ∀ a ∈ addrs xs, h'.cell a = h.cell a) :
    Chain h' p xs q := by
  induction xs generalizing p with
  | nil => exact hc
  | cons x xs ih =>
    obtain ⟨hp, n, hx, hxs⟩ := hc
    refine ⟨hp, n, (heq x.1 mem_cons_self).trans hx, ih hxs fun a ha => heq a ?_⟩
    exact mem_cons_of_mem _ ha

lemma Chain.lt_next (hc : Chain h p xs q) (ha : a ∈ addrs xs) : a < h.next := by
  obtain ⟨v, hv⟩ := mem_addrs.mp ha
  obtain ⟨n, hn⟩ := hc.cell hv
  exact Heap.lt_next hn

/-- The place behind the records `xs`. -/
def endPlace (xs : List (ℕ × V)) : Option ℕ := xs.getLast?.map Prod.fst

@[simp] lemma endPlace_nil : endPlace ([] : List (ℕ × V)) = none := rfl

@[simp] lemma endPlace_concat (xs) (x : ℕ × V) : endPlace (xs ++ [x]) = some x.1 := by
  simp [endPlace]

lemma Chain.read (hc : Chain r.heap r.head xs q) : r.read (endPlace xs) = some q := by
  induction xs using List.reverseRecOn with
  | nil => exact congrArg some hc
  | append_singleton xs x _ =>
    obtain ⟨n, -, -, m, hx, rfl⟩ := chain_append.mp hc
    rw [endPlace_concat, Roster.read, hx]
    rfl

lemma get_write (place : Option ℕ) : (r.write place q).get a = r.get a := by
  cases place with
  | none => rfl
  | some b =>
    rw [get, get, write, Heap.cell_modify]
    split_ifs
    · cases r.heap.cell a <;> rfl
    · rfl

@[simp] lemma heap_next_write (place : Option ℕ) : (r.write place q).heap.next = r.heap.next := by
  cases place <;> rfl

lemma cell_write {place} (ha : place ≠ some a) : (r.write place q).heap.cell a = r.heap.cell a := by
  cases place with
  | none => rfl
  | some b =>
    rw [write, Heap.cell_modify, if_neg]
    rintro rfl
    exact ha rfl

lemma endPlace_ne (ha : a ∉ addrs xs) : endPlace xs ≠ some a := by
  induction xs using List.reverseRecOn with
  | nil => simp
  | append_singleton xs x _ =>
    rw [endPlace_concat]
    rintro heq
    exact ha (by simp [some.inj heq])

lemma Chain.write (hc : Chain r.heap r.head xs p) (hnodup : (addrs xs).Nodup) (q) :
    Chain (r.write (endPlace xs) q).heap (r.write (endPlace xs) q).head xs q := by
  induction xs using List.reverseRecOn with
  | nil => rfl
  | append_singleton xs x _ =>
    obtain ⟨n, hxs, rfl, m, hx, -⟩ := chain_append.mp hc
    rw [addrs_append, nodup_append] at hnodup
    have hnotMem : x.1 ∉ addrs xs := fun hmem => hnodup.2.2 x.1 hmem x.1 (by simp) rfl
    rw [endPlace_concat]
    refine chain_append.mpr ⟨some x.1, hxs.congr fun a ha => cell_write ?_, rfl, q, ?_, rfl⟩
    · rintro heq
      exact hnotMem (some.inj heq ▸ ha)
    · rw [Roster.write, Heap.cell_modify, if_pos rfl, hx]
      rfl

/-! ### What a roster holds -/

variable (r) in
/-- The roster consists of the records `xs`. -/
structure Holds (xs : List (ℕ × V)) : Prop where
  chain : Chain r.heap r.head xs none
  nodup : (addrs xs).Nodup

lemma holds_empty : Holds (empty : Roster V) [] := ⟨rfl, nodup_nil⟩

namespace Holds

variable (hr : Holds r xs)

include hr

lemma get (hx : (a, v) ∈ xs) : r.get a = some v := by
  obtain ⟨n, hn⟩ := hr.chain.cell hx
  rw [Roster.get, hn]
  rfl

lemma lt_next (ha : a ∈ addrs xs) : a < r.heap.next := hr.chain.lt_next ha

lemma length_lt : xs.length < r.turns := by
  have hsub : addrs xs ⊆ List.range r.heap.next := fun a ha => mem_range.mpr (hr.lt_next ha)
  have hlen := (hr.nodup.subperm hsub).length_le
  rw [addrs, length_map, length_range] at hlen
  exact lt_succ_of_le hlen

lemma unique {w} (hv : (a, v) ∈ xs) (hw : (a, w) ∈ xs) : v = w :=
  some.inj ((hr.get hv).symm.trans (hr.get hw))

lemma push (v) : Holds (r.push v) ((r.heap.next, v) :: xs) where
  chain := by
    refine ⟨rfl, r.head, by simp [Roster.push], hr.chain.congr fun a ha => ?_⟩
    simp [Roster.push, (hr.lt_next ha).ne]
  nodup := nodup_cons.mpr ⟨fun hmem => (hr.lt_next hmem).ne rfl, hr.nodup⟩

end Holds

lemma exists_fuel {n} (h : n < fuel) : ∃ f, fuel = f + 1 := ⟨fuel - 1, by omega⟩

lemma findFrom_eq (hc : Chain r.heap p xs none) (hfuel : xs.length < fuel) :
    r.findFrom k fuel p = some ((xs.find? fun x => k x.2).map Prod.fst) := by
  induction xs generalizing p fuel with
  | nil =>
    obtain ⟨fuel, rfl⟩ := exists_fuel hfuel
    obtain rfl : p = none := hc
    rfl
  | cons x xs ih =>
    obtain ⟨fuel, rfl⟩ := exists_fuel hfuel
    obtain ⟨rfl, n, hx, hxs⟩ := hc
    rw [findFrom, hx]
    dsimp only
    by_cases hk : k x.2 = true
    · have hfind : (x :: xs).find? (fun x => k x.2) = some x := List.find?_cons_of_pos hk
      rw [if_pos hk, hfind]
      rfl
    · have hfind : (x :: xs).find? (fun x => k x.2) = xs.find? fun x => k x.2 :=
        List.find?_cons_of_neg hk
      rw [if_neg hk, hfind, ih hxs (lt_of_succ_lt_succ hfuel)]

lemma Holds.find (hr : Holds r xs) (k) : r.find k = some ((xs.find? fun x => k x.2).map Prod.fst) :=
  findFrom_eq hr.chain hr.length_lt

lemma foldFrom_eq {β f} {b : β} (hc : Chain r.heap p xs none) (hfuel : xs.length < fuel) :
    r.foldFrom f fuel p b = some (xs.foldl (fun b x => f b x.2) b) := by
  induction xs generalizing p fuel b with
  | nil =>
    obtain ⟨fuel, rfl⟩ := exists_fuel hfuel
    obtain rfl : p = none := hc
    rfl
  | cons x xs ih =>
    obtain ⟨fuel, rfl⟩ := exists_fuel hfuel
    obtain ⟨rfl, n, hx, hxs⟩ := hc
    rw [foldFrom, hx]
    exact ih hxs (lt_of_succ_lt_succ hfuel)

lemma Holds.fold {β} (hr : Holds r xs) (f) (b : β) :
    r.fold f b = some (xs.foldl (fun b x => f b x.2) b) :=
  foldFrom_eq hr.chain hr.length_lt

def without (a : ℕ) (xs : List (ℕ × V)) : List (ℕ × V) := xs.filter fun x => x.1 ≠ a

lemma mem_without : x ∈ without a xs ↔ x ∈ xs ∧ x.1 ≠ a := by
  simp [without]

lemma mem_addrs_without {b} : b ∈ addrs (without a xs) ↔ b ∈ addrs xs ∧ b ≠ a := by
  simp only [mem_addrs, mem_without]
  constructor
  · rintro ⟨v, hv, hb⟩
    exact ⟨⟨v, hv⟩, hb⟩
  · rintro ⟨⟨v, hv⟩, hb⟩
    exact ⟨v, hv, hb⟩

lemma without_eq_self (ha : a ∉ addrs xs) : without a xs = xs := by
  refine filter_eq_self.mpr fun x hx => ?_
  simp only [ne_eq, decide_not, Bool.not_eq_eq_eq_not, Bool.not_true, decide_eq_false_iff_not]
  rintro rfl
  exact ha (mem_addrs_of_mem hx)

lemma without_append_cons (hnodup : (addrs (as ++ (a, v) :: bs)).Nodup) :
    without a (as ++ (a, v) :: bs) = as ++ bs := by
  rw [addrs_append, addrs_cons, nodup_append, nodup_cons] at hnodup
  have has : a ∉ addrs as := fun hmem => hnodup.2.2 a hmem a mem_cons_self rfl
  rw [without, filter_append, filter_cons_of_neg (by simp)]
  exact congrArg₂ (· ++ ·) (without_eq_self has) (without_eq_self hnodup.2.1.1)

lemma length_without (hnodup : (addrs xs).Nodup) (ha : a ∈ addrs xs) :
    (without a xs).length + 1 = xs.length := by
  obtain ⟨v, hv⟩ := mem_addrs.mp ha
  obtain ⟨as, bs, rfl⟩ := append_of_mem hv
  rw [without_append_cons hnodup]
  simp only [length_append, length_cons]
  omega

lemma Chain.unlink {n} (has : Chain r.heap r.head as (some a))
    (hbs : Chain r.heap n bs none) (hnodup : (addrs (as ++ (a, v) :: bs)).Nodup) :
    Holds (r.write (endPlace as) n) (as ++ bs) := by
  have hnodup' : (addrs (as ++ bs)).Nodup := by
    rw [← without_append_cons hnodup]
    exact hnodup.sublist (filter_sublist.map _)
  rw [addrs_append, nodup_append] at hnodup hnodup'
  refine ⟨chain_append.mpr ⟨n, has.write hnodup.1 n, hbs.congr fun b hb => cell_write ?_⟩, ?_⟩
  · exact endPlace_ne fun hmem => hnodup'.2.2 b hmem b hb rfl
  · rw [addrs_append, nodup_append]
    exact hnodup'

lemma takeFrom_eq {k} (as bs) {n} (has : Chain r.heap r.head as n) (hbs : Chain r.heap n bs none)
    (hnodup : (addrs (as ++ bs)).Nodup) (hfuel : bs.length < fuel) :
    (bs.find? (fun x => k x.1 x.2) = none → r.takeFrom k fuel (endPlace as) = some (r, none)) ∧
      ∀ x, bs.find? (fun x => k x.1 x.2) = some x →
        ∃ place q, r.takeFrom k fuel (endPlace as) = some (r.write place q, some x.1) ∧
          Holds (r.write place q) (without x.1 (as ++ bs)) := by
  induction bs generalizing as n fuel with
  | nil =>
    obtain ⟨fuel, rfl⟩ := exists_fuel hfuel
    obtain rfl : n = none := hbs
    refine ⟨fun _ => ?_, fun x hx => (by cases hx)⟩
    rw [takeFrom, has.read]
  | cons y bs ih =>
    obtain ⟨fuel, rfl⟩ := exists_fuel hfuel
    obtain ⟨rfl, m, hy, hrest⟩ := hbs
    rw [takeFrom, has.read]
    dsimp only
    rw [hy]
    dsimp only
    by_cases hk : k y.1 y.2 = true
    · have hfind : (y :: bs).find? (fun x => k x.1 x.2) = some y := List.find?_cons_of_pos hk
      rw [if_pos hk, hfind]
      refine ⟨fun h => (by cases h), fun x hx => ?_⟩
      obtain rfl := some.inj hx
      refine ⟨_, _, rfl, ?_⟩
      rw [without_append_cons hnodup]
      exact Chain.unlink has hrest hnodup
    have hfind : (y :: bs).find? (fun x => k x.1 x.2) = bs.find? fun x => k x.1 x.2 :=
      List.find?_cons_of_neg hk
    rw [if_neg hk, hfind]
    have hnext := ih (as ++ [y]) (chain_append.mpr ⟨_, has, rfl, m, hy, rfl⟩) hrest
      (by simpa using hnodup) (lt_of_succ_lt_succ hfuel)
    rw [endPlace_concat, append_assoc] at hnext
    exact hnext

lemma Holds.take_none (hr : Holds r xs) {k}
    (hk : xs.find? (fun x => k x.1 x.2) = none) : r.take k = some (r, none) :=
  (takeFrom_eq [] xs rfl hr.chain hr.nodup hr.length_lt).1 hk

/-- **Unlinking a record.** Its contents stay until it is freed. -/
lemma Holds.take (hr : Holds r xs) {k} (hk : xs.find? (fun x => k x.1 x.2) = some x) :
    ∃ r', r.take k = some (r', some x.1) ∧ Holds r' (without x.1 xs) ∧ r'.get x.1 = some x.2 ∧
      r'.heap.next = r.heap.next := by
  obtain ⟨place, q, heq, hholds⟩ :=
    (takeFrom_eq [] xs rfl hr.chain hr.nodup hr.length_lt).2 x hk
  refine ⟨_, heq, hholds, ?_, heap_next_write place⟩
  rw [get_write]
  exact hr.get (mem_of_find?_eq_some hk)

lemma Holds.release (hr : Holds r xs) (ha : a ∉ addrs xs) (hget : r.get a = some v) :
    ∃ r', r.release a = some r' ∧ Holds r' xs ∧ r'.heap.next = r.heap.next := by
  refine ⟨{ r with heap := r.heap.free a }, if_pos ?_,
    ⟨hr.chain.congr fun b hb => ?_, hr.nodup⟩, rfl⟩
  · rw [Roster.get, map_eq_some_iff] at hget
    obtain ⟨c, hc, -⟩ := hget
    rw [hc]
    rfl
  · rw [Heap.cell_free, if_neg]
    rintro rfl
    exact ha hb

lemma Holds.remove (hr : Holds r xs) (hx : (a, v) ∈ xs) :
    ∃ r', r.remove a = some (r', true) ∧ Holds r' (without a xs) ∧ r'.heap.next = r.heap.next := by
  have hfind : xs.find? (fun x => decide (x.1 = a)) = some (a, v) := by
    rw [List.find?_eq_some_iff_append]
    obtain ⟨as, bs, rfl⟩ := append_of_mem hx
    refine ⟨by simp, as, bs, rfl, fun y hy => ?_⟩
    have hnodup := hr.nodup
    rw [addrs_append, nodup_append] at hnodup
    have hne : y.1 ≠ a := hnodup.2.2 y.1 (mem_addrs_of_mem hy) a (by simp)
    simpa using hne
  obtain ⟨r1, htake, hr1, hget, hnext⟩ := hr.take (k := fun b _ => decide (b = a)) hfind
  obtain ⟨r', hrel, hr', hnext'⟩ :=
    hr1.release (fun hmem => (mem_addrs_without.mp hmem).2 rfl) hget
  refine ⟨r', ?_, hr', hnext'.trans hnext⟩
  rw [Roster.remove, htake, bind_some, hrel]
  rfl

/-! ### All records of a kind -/

/-- The pointer to the first of the records `xs`. -/
def headPtr (xs : List (ℕ × V)) : Option ℕ := xs.head?.map Prod.fst

lemma Chain.ptr (hc : Chain h p xs none) : p = headPtr xs := by
  cases xs with
  | nil => exact hc
  | cons x xs => exact hc.1

lemma Holds.cut (hr : Holds r (as ++ bs)) :
    Chain r.heap r.head as (headPtr bs) ∧ Chain r.heap (headPtr bs) bs none := by
  obtain ⟨n, has, hbs⟩ := chain_append.mp hr.chain
  obtain rfl := hbs.ptr
  exact ⟨has, hbs⟩

lemma Chain.eq (hxs : Chain h p xs none) (hys : Chain h p ys none) : xs = ys := by
  induction xs generalizing p ys with
  | nil =>
    cases ys with
    | nil => rfl
    | cons y ys => cases hxs.symm.trans hys.1
  | cons x xs ih =>
    obtain ⟨rfl, n, hx, hxs⟩ := hxs
    cases ys with
    | nil => cases hys
    | cons y ys =>
      obtain ⟨hp, m, hy, hys⟩ := hys
      have haddr : x.1 = y.1 := some.inj hp
      rw [← haddr, hx, some.injEq, Prod.mk.injEq] at hy
      obtain ⟨rfl, hval⟩ := hy
      rw [ih hxs hys, Prod.ext haddr hval]

lemma Holds.eq (hr : Holds r xs) (hr' : Holds r ys) : xs = ys := hr.chain.eq hr'.chain

def others (k : V → Bool) (xs : List (ℕ × V)) : List (ℕ × V) := xs.filter fun x => !k x.2

lemma Holds.mem_others (hr : Holds r xs) :
    x ∈ others k xs ↔ x ∈ xs ∧ x.1 ∉ addrs (xs.filter fun x => k x.2) := by
  rw [others, mem_filter, mem_addrs]
  constructor
  · rintro ⟨hx, hk⟩
    refine ⟨hx, ?_⟩
    rintro ⟨v, hv⟩
    obtain ⟨hin, hkv⟩ := mem_filter.mp hv
    have hsame : v = x.2 := hr.unique hin hx
    rw [← hsame] at hk
    simp [hkv] at hk
  · rintro ⟨hx, hout⟩
    refine ⟨hx, ?_⟩
    by_contra hk
    exact hout ⟨x.2, mem_filter.mpr ⟨hx, by simpa using hk⟩⟩

lemma length_others (k) (xs : List (ℕ × V)) :
    (others k xs).length + (xs.filter fun x => k x.2).length = xs.length := by
  have := length_eq_length_filter_add (l := xs) fun x => k x.2
  rw [others]
  omega

lemma sweepFrom_eq (as bs) (hr : Holds r (as ++ bs)) (hfuel : bs.length < fuel) :
    ∃ r', sweepFrom k fuel r (headPtr bs) = some (r', bs.filter fun x => k x.2) ∧
      Holds r' (as ++ others k bs) ∧ r'.heap.next = r.heap.next := by
  induction bs generalizing as r fuel with
  | nil =>
    obtain ⟨fuel, rfl⟩ := exists_fuel hfuel
    exact ⟨r, rfl, hr, rfl⟩
  | cons x bs ih =>
    obtain ⟨fuel, rfl⟩ := exists_fuel hfuel
    have hfuel' : bs.length < fuel := lt_of_succ_lt_succ hfuel
    obtain ⟨-, -, n, hx, hrest⟩ := hr.cut
    obtain rfl := hrest.ptr
    rw [show headPtr (x :: bs) = some x.1 from rfl, sweepFrom, hx]
    dsimp only
    by_cases hk : k x.2 = true
    · obtain ⟨r1, hremove, hr1, hnext⟩ := hr.remove (a := x.1) (v := x.2) (by simp)
      rw [without_append_cons hr.nodup] at hr1
      obtain ⟨r', hsweep, hr', hnext'⟩ := ih as hr1 hfuel'
      refine ⟨r', ?_, ?_, hnext'.trans hnext⟩
      · rw [if_pos hk, hremove, bind_some, hsweep, filter_cons_of_pos (by simpa using hk)]
        rfl
      · rwa [others, filter_cons_of_neg (by simpa using hk)]
    · obtain ⟨r', hsweep, hr', hnext⟩ := ih (as ++ [x]) (by simpa using hr) hfuel'
      refine ⟨r', ?_, ?_, hnext⟩
      · rw [if_neg hk, hsweep, filter_cons_of_neg (by simpa using hk)]
      · rw [others, filter_cons_of_pos (by simpa using hk)]
        simpa [others] using hr'

/-- **Removing all records of a kind**, with the next pointer read before. -/
lemma Holds.sweep (hr : Holds r xs) (k) :
    ∃ r', r.sweep k = some (r', xs.filter fun x => k x.2) ∧ Holds r' (others k xs) ∧
      r'.heap.next = r.heap.next := by
  rw [Roster.sweep, hr.chain.ptr]
  exact sweepFrom_eq [] xs hr hr.length_lt

lemma pruneFrom_eq (as bs) (hr : Holds r (as ++ bs)) (hfuel : bs.length < fuel) :
    ∃ r', pruneFrom k fuel r (endPlace as) = some (r', bs.filter fun x => k x.2) ∧
      Holds r' (as ++ others k bs) ∧ r'.heap.next = r.heap.next := by
  induction bs generalizing as r fuel with
  | nil =>
    obtain ⟨fuel, rfl⟩ := exists_fuel hfuel
    refine ⟨r, ?_, hr, rfl⟩
    rw [pruneFrom, hr.cut.1.read]
    rfl
  | cons x bs ih =>
    obtain ⟨fuel, rfl⟩ := exists_fuel hfuel
    have hfuel' : bs.length < fuel := lt_of_succ_lt_succ hfuel
    obtain ⟨has, -, n, hx, hrest⟩ := hr.cut
    rw [pruneFrom, has.read, show headPtr (x :: bs) = some x.1 from rfl]
    dsimp only
    rw [hx]
    dsimp only
    by_cases hk : k x.2 = true
    · have hunlink := Chain.unlink has hrest hr.nodup
      have hout : x.1 ∉ addrs (as ++ bs) := by
        have hnodup := hr.nodup
        rw [addrs_append, addrs_cons, nodup_middle, nodup_cons, ← addrs_append] at hnodup
        exact hnodup.1
      have hget : (r.write (endPlace as) n).get x.1 = some x.2 := by
        rw [get_write]
        exact hr.get (by simp)
      obtain ⟨r1, hrel, hr1, hnext⟩ := hunlink.release hout hget
      obtain ⟨r', hprune, hr', hnext'⟩ := ih as hr1 hfuel'
      refine ⟨r', ?_, ?_, hnext'.trans (hnext.trans (heap_next_write _))⟩
      · rw [if_pos hk, hrel, bind_some, hprune, filter_cons_of_pos (by simpa using hk)]
        rfl
      · rwa [others, filter_cons_of_neg (by simpa using hk)]
    · obtain ⟨r', hprune, hr', hnext⟩ := ih (as ++ [x]) (by simpa using hr) hfuel'
      rw [endPlace_concat] at hprune
      refine ⟨r', ?_, ?_, hnext⟩
      · rw [if_neg hk, hprune, filter_cons_of_neg (by simpa using hk)]
      · rw [others, filter_cons_of_pos (by simpa using hk)]
        simpa [others] using hr'

/-- **Removing all records of a kind**, through the pointer to the pointer. -/
lemma Holds.prune (hr : Holds r xs) (k) :
    ∃ r', r.prune k = some (r', xs.filter fun x => k x.2) ∧ Holds r' (others k xs) ∧
      r'.heap.next = r.heap.next :=
  pruneFrom_eq [] xs hr hr.length_lt

end Roster
