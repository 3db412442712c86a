import Ircu.Heap.Roster

/-!
Rosters that are kept in an order, and whose records are changed in place.

* `Holds.revise`, `Holds.reviseAll`: one record is changed, or all of a kind.
-/

namespace Roster

open List Heap Nat

variable {V : Type*} (r : Roster V)

/-! ### Operations -/

/-- A new record is put in at a place, before the record at `q`. -/
def link (place : Option ℕ) (v : V) (q : Option ℕ) : Roster V :=
  ({ r with heap := r.heap.alloc (q, v) } : Roster V).write place (some r.heap.next)

/-- A new record is put in before the first one of a kind, from a place on. -/
def insertFrom (p : V → Bool) (v : V) : ℕ → Option ℕ → Option (Roster V)
  | 0, _ => none
  | fuel + 1, place =>
    match r.read place with
    | none => none
    | some none => some (r.link place v none)
    | some (some a) =>
      match r.heap.cell a with
      | none => none
      | some (_, u) =>
        if p u then some (r.link place v (some a)) else insertFrom p v fuel (some a)

def insert (p : V → Bool) (v : V) : Option (Roster V) := r.insertFrom p v r.turns none

def revise (a : ℕ) (f : V → V) : Option (Roster V) :=
  (r.heap.store a fun c => (c.1, f c.2)).map fun heap => { r with heap }

/-- All records of a kind are changed, from a pointer on. The result says what was in them. -/
def reviseFrom (p : V → Bool) (f : V → V) :
    ℕ → Roster V → Option ℕ → Option (Roster V × List (ℕ × V))
  | 0, _, _ => none
  | _ + 1, r, none => some (r, [])
  | fuel + 1, r, some a =>
    match r.heap.cell a with
    | none => none
    | some (n, v) =>
      if p v then
        (r.revise a f).bind fun r =>
          (reviseFrom p f fuel r n).map fun s => (s.1, (a, v) :: s.2)
      else reviseFrom p f fuel r n

def reviseAll (p : V → Bool) (f : V → V) : Option (Roster V × List (ℕ × V)) :=
  reviseFrom p f r.turns r r.head

def findAfter (p : V → Bool) (a : ℕ) : Option (Option ℕ) :=
  (r.read (some a)).bind fun n => r.findFrom p r.turns n

/-! ### Putting a record in -/

variable {r} {xs as bs : List (ℕ × V)} {a : ℕ} {v : V} {p : V → Bool} {f : V → V}

/-- The records `xs` with a new one before the first of a kind. -/
def inserted (p : V → Bool) (x : ℕ × V) (xs : List (ℕ × V)) : List (ℕ × V) :=
  xs.takeWhile (fun y => !p y.2) ++ x :: xs.dropWhile fun y => !p y.2

lemma Holds.link (hr : Holds r (as ++ bs)) (v) :
    Holds (r.link (endPlace as) v (headPtr bs)) (as ++ (r.heap.next, v) :: bs) := by
  obtain ⟨has, hbs⟩ := hr.cut
  have hnodup := hr.nodup
  rw [addrs_append, nodup_append] at hnodup
  have hfresh : ∀ b ∈ addrs (as ++ bs), b ≠ r.heap.next := fun b hb => (hr.lt_next hb).ne
  have hfresh' : r.heap.next ∉ addrs as := fun hmem =>
    hfresh _ (by rw [addrs_append]; exact mem_append_left _ hmem) rfl
  have halloc : ∀ b ∈ addrs (as ++ bs),
      (r.heap.alloc (headPtr bs, v)).cell b = r.heap.cell b := fun b hb => by
    rw [cell_alloc, if_neg (hfresh b hb)]
  rw [addrs_append] at halloc
  have has' : Chain (r.heap.alloc (headPtr bs, v)) r.head as (headPtr bs) :=
    has.congr fun b hb => halloc b (mem_append_left _ hb)
  refine ⟨chain_append.mpr ⟨_, Chain.write has'
    hnodup.1 (some r.heap.next), rfl, headPtr bs, ?_, hbs.congr fun b hb => ?_⟩, ?_⟩
  · rw [Roster.link, cell_write (endPlace_ne hfresh')]
    simp
  · have hb' : b ∉ addrs as := fun hmem => hnodup.2.2 b hmem b hb rfl
    rw [Roster.link, cell_write (endPlace_ne hb')]
    exact halloc b (mem_append_right _ hb)
  have hold := hr.nodup
  rw [addrs_append] at hold
  rw [addrs_append, addrs_cons, nodup_middle, nodup_cons, ← addrs_append]
  refine ⟨fun hmem => hfresh _ hmem rfl, ?_⟩
  rw [addrs_append]
  exact hold

lemma insertFrom_eq {fuel} (as bs) (hr : Holds r (as ++ bs)) (hfuel : bs.length < fuel) :
    ∃ r', r.insertFrom p v fuel (endPlace as) = some r' ∧
      Holds r' (as ++ inserted p (r.heap.next, v) bs) ∧ r'.heap.next = r.heap.next + 1 := by
  induction bs generalizing as fuel with
  | nil =>
    obtain ⟨fuel, rfl⟩ := exists_fuel hfuel
    rw [insertFrom, hr.cut.1.read]
    exact ⟨_, rfl, hr.link v, heap_next_write _⟩
  | cons y bs ih =>
    obtain ⟨fuel, rfl⟩ := exists_fuel hfuel
    obtain ⟨has, -, n, hy, -⟩ := hr.cut
    rw [insertFrom, has.read, show headPtr (y :: bs) = some y.1 from rfl]
    dsimp only
    rw [hy]
    by_cases hp : p y.2 = true
    · refine ⟨_, if_pos hp, ?_, heap_next_write _⟩
      have hins : inserted p (r.heap.next, v) (y :: bs) = (r.heap.next, v) :: y :: bs := by
        simp [inserted, hp]
      rw [hins]
      exact hr.link v
    obtain ⟨r', heq, hr', hnext⟩ := ih (as ++ [y]) (by simpa using hr)
      (lt_of_succ_lt_succ hfuel)
    rw [endPlace_concat] at heq
    refine ⟨r', (if_neg hp).trans heq, ?_, hnext⟩
    have hins : inserted p (r.heap.next, v) (y :: bs) = y :: inserted p (r.heap.next, v) bs := by
      simp [inserted, hp]
    rw [hins]
    simpa using hr'

lemma Holds.insert (hr : Holds r xs) (p v) :
    ∃ r', r.insert p v = some r' ∧ Holds r' (inserted p (r.heap.next, v) xs) ∧
      r'.heap.next = r.heap.next + 1 :=
  insertFrom_eq [] xs hr hr.length_lt

/-! ### Changing records -/

def amended (k : ℕ × V → Bool) (f : V → V) (xs : List (ℕ × V)) : List (ℕ × V) :=
  xs.map fun x => if k x then (x.1, f x.2) else x

lemma addrs_amended (k : ℕ × V → Bool) (f xs) : addrs (amended k f xs) = addrs xs := by
  rw [addrs, amended, map_map]
  refine map_congr_left fun x _ => ?_
  rw [Function.comp_apply]
  split_ifs <;> rfl

lemma amended_eq_self {k} (h : ∀ x ∈ xs, k x = false) : amended k f xs = xs := by
  have hid : xs.map (fun x => if k x then (x.1, f x.2) else x) = xs.map id :=
    map_congr_left fun x hx => by
      rw [h x hx]
      rfl
  rw [amended, hid, map_id]

lemma Holds.revise (hr : Holds r xs) (ha : a ∈ addrs xs) (f) :
    ∃ r', r.revise a f = some r' ∧ Holds r' (amended (fun x => decide (x.1 = a)) f xs) ∧
      r'.head = r.head ∧ r'.heap.next = r.heap.next ∧
      ∀ b, b ≠ a → r'.heap.cell b = r.heap.cell b := by
  obtain ⟨w, hw⟩ := mem_addrs.mp ha
  obtain ⟨n, hn⟩ := hr.chain.cell hw
  have hstore : r.heap.store a (fun c => (c.1, f c.2)) =
      some (r.heap.modify a fun c => (c.1, f c.2)) := by
    rw [store, hn]
    rfl
  have hchain : ∀ {ys : List (ℕ × V)} {q : Option ℕ}, Chain r.heap q ys none →
      Chain (r.heap.modify a fun c => (c.1, f c.2)) q
        (amended (fun x => decide (x.1 = a)) f ys) none := by
    intro ys
    induction ys with
    | nil => exact fun hc => hc
    | cons y ys ih =>
      rintro q ⟨rfl, m, hy, hys⟩
      have hrest := ih hys
      rw [amended] at hrest ⊢
      rw [map_cons]
      by_cases hya : y.1 = a
      · rw [if_pos (by simpa using hya)]
        refine ⟨rfl, m, ?_, hrest⟩
        rw [cell_modify, if_pos hya, hy]
        rfl
      · rw [if_neg (by simpa using hya)]
        refine ⟨rfl, m, ?_, hrest⟩
        rw [cell_modify, if_neg hya, hy]
  refine ⟨⟨r.heap.modify a fun c => (c.1, f c.2), r.head⟩, ?_, ⟨hchain hr.chain, ?_⟩, rfl, rfl,
    fun b hb => ?_⟩
  · rw [Roster.revise, hstore]
    rfl
  · rw [addrs_amended]
    exact hr.nodup
  · rw [cell_modify, if_neg hb]

lemma reviseFrom_eq {fuel} (as bs) (hr : Holds r (as ++ bs)) (hfuel : bs.length < fuel) :
    ∃ r', reviseFrom p f fuel r (headPtr bs) = some (r', bs.filter fun x => p x.2) ∧
      Holds r' (as ++ amended (fun x => p x.2) f bs) ∧ r'.heap.next = r.heap.next := by
  induction bs generalizing as r fuel with
  | nil =>
    obtain ⟨fuel, rfl⟩ := exists_fuel hfuel
    exact ⟨r, rfl, hr, rfl⟩
  | cons x bs ih =>
    obtain ⟨fuel, rfl⟩ := exists_fuel hfuel
    have hfuel' : bs.length < fuel := lt_of_succ_lt_succ hfuel
    obtain ⟨-, -, n, hx, hrest⟩ := hr.cut
    obtain rfl := hrest.ptr
    rw [show headPtr (x :: bs) = some x.1 from rfl, reviseFrom, hx]
    dsimp only
    by_cases hp : p x.2 = true
    · obtain ⟨r1, hrev, hr1, -, hnext, -⟩ := hr.revise (a := x.1) (by simp) f
      have hlist : amended (fun y => decide (y.1 = x.1)) f (as ++ x :: bs) =
          (as ++ [(x.1, f x.2)]) ++ bs := by
        have hnodup := hr.nodup
        rw [addrs_append, addrs_cons, nodup_middle, nodup_cons, mem_append, not_or] at hnodup
        have hne : ∀ {ys : List (ℕ × V)}, x.1 ∉ addrs ys → ∀ y ∈ ys, decide (y.1 = x.1) = false :=
          fun hout y hy => decide_eq_false fun heq => hout (heq ▸ mem_addrs_of_mem hy)
        have has := amended_eq_self (f := f) (hne hnodup.1.1)
        have hbs := amended_eq_self (f := f) (hne hnodup.1.2)
        rw [amended] at has hbs ⊢
        rw [map_append, map_cons, has, hbs]
        simp
      rw [hlist] at hr1
      obtain ⟨r', heq, hr', hnext'⟩ := ih _ hr1 hfuel'
      refine ⟨r', ?_, ?_, hnext'.trans hnext⟩
      · rw [if_pos hp, hrev, Option.bind_some, heq, filter_cons_of_pos (by simpa using hp)]
        rfl
      · rw [amended, map_cons, if_pos hp]
        simpa [amended] using hr'
    · obtain ⟨r', heq, hr', hnext⟩ := ih (as ++ [x]) (by simpa using hr) hfuel'
      refine ⟨r', ?_, ?_, hnext⟩
      · rw [if_neg hp, heq, filter_cons_of_neg (by simpa using hp)]
      · rw [amended, map_cons, if_neg hp]
        simpa [amended] using hr'

lemma Holds.reviseAll (hr : Holds r xs) (p f) :
    ∃ r', r.reviseAll p f = some (r', xs.filter fun x => p x.2) ∧
      Holds r' (amended (fun x => p x.2) f xs) ∧ r'.heap.next = r.heap.next := by
  rw [Roster.reviseAll, hr.chain.ptr]
  exact reviseFrom_eq [] xs hr hr.length_lt

/-! ### Walks -/

lemma Holds.findRest (hr : Holds r (as ++ bs)) (p) :
    r.findFrom p r.turns (headPtr bs) = some ((bs.find? fun x => p x.2).map Prod.fst) := by
  refine findFrom_eq hr.cut.2 (lt_of_le_of_lt ?_ hr.length_lt)
  rw [length_append]
  exact le_add_left _ _

lemma Holds.findAfter (hr : Holds r (as ++ (a, v) :: bs)) (p) :
    r.findAfter p a = some ((bs.find? fun x => p x.2).map Prod.fst) := by
  obtain ⟨-, -, n, hn, hrest⟩ := hr.cut
  obtain rfl := hrest.ptr
  have hr' : Holds r ((as ++ [(a, v)]) ++ bs) := by simpa using hr
  have hread : r.read (some a) = some (headPtr bs) := by
    rw [Roster.read, hn]
    rfl
  rw [Roster.findAfter, hread, Option.bind_some, hr'.findRest]

end Roster
