import Ircu.Heap.Chain
import Ircu.Dbuf.Basic

/-!
What the operations of `dbuf.c` do to the blocks of a queue.

`Linked` says how a queue and the pool hang together: the chain of blocks from
`head`, the free list, no address in both. `Keeps` says that an operation leaves
the blocks of every other queue alone. Each elementary change of the source (drop
bytes at the front, give the first block back, link a new block at the end, copy
bytes to the last block) has one lemma about both.
-/

namespace Ircu.Dbuf

open Heap List Option Block List.Subset Place

/-! ### Blocks -/

namespace Block

@[simp] lemma length_bytes (b : Block) : b.bytes.length = b.stop - b.start := by
  simp [bytes]

lemma bytes_put {b : Block} (h : b.start ≤ b.stop) (bs : List UInt8) :
    (b.put bs).bytes = b.bytes ++ bs := by
  have hlen : b.stop + bs.length - b.start = b.stop - b.start + bs.length := by omega
  rw [bytes, put]
  dsimp only
  rw [hlen, ← range'_append_1, map_append, show b.start + (b.stop - b.start) = b.stop by omega]
  congr 1
  · refine map_congr_left fun i hi => if_neg ?_
    have := mem_range'_1.mp hi
    omega
  apply ext_getElem
  · simp
  · intro i h1 h2
    simp [h2]

lemma bytes_skip (b : Block) (n) : (b.skip n).bytes = b.bytes.drop n := by
  apply ext_getElem
  · simp [skip]
    omega
  · intro i h1 h2
    simp [skip, bytes, Nat.add_assoc]

lemma bytes_eq_cons {b : Block} (h : b.start < b.stop) :
    b.bytes = b.data b.start :: (b.skip 1).bytes := by
  rw [bytes, show b.stop - b.start = (b.stop - b.start - 1) + 1 by omega, range'_succ]
  rfl

end Block

def contents (xs : List (ℕ × Block)) : List UInt8 := xs.flatMap (·.2.bytes)

@[simp] lemma contents_nil : contents [] = [] := rfl

@[simp] lemma contents_cons (x : ℕ × Block) (xs) :
    contents (x :: xs) = x.2.bytes ++ contents xs := flatMap_cons

@[simp] lemma contents_append (xs ys) :
    contents (xs ++ ys) = contents xs ++ contents ys := flatMap_append

/-! ### A queue and the pool -/

structure Linked (cfg : Config) (s : St) (xs fs : List (ℕ × Block)) : Prop where
  chain : Seg Block.next s.pool.heap s.dyn.head xs none
  tail : ∀ a ∈ (addrs xs).getLast?, s.dyn.tail = some a
  free : Seg Block.next s.pool.heap s.pool.freeList fs none
  nodup : (addrs xs ++ addrs fs).Nodup
  count : s.pool.heap.next = s.pool.allocCount
  pool : s.pool.allocCount * DBUF_SIZE < cfg.bufferpool + DBUF_SIZE

/-- What becomes of the blocks `own` of a queue and the free list: blocks of
others stay as they are, and the new ones `own'` are among the old or were just
allocated. -/
structure Keeps (own own' : List ℕ) (p p' : Pool) : Prop where
  grow : p.heap.next ≤ p'.heap.next
  keep : ∀ q, q ∉ own → q < p.heap.next → p'.heap.cell q = p.heap.cell q
  within : ∀ q ∈ own', q ∈ own ∨ p.heap.next ≤ q

lemma Keeps.refl (own p) : Keeps own own p p :=
  ⟨le_refl _, fun _ _ _ => rfl, fun _ h => .inl h⟩

variable {p : Pool} {s : St} {xs fs : List (ℕ × Block)} {cfg : Config}

lemma Keeps.trans {a b c q r} (h : Keeps a b p q) (h' : Keeps b c q r) : Keeps a c p r := by
  refine ⟨h.grow.trans h'.grow, fun x hx hlt => ?_, fun x hx => ?_⟩
  · have hb : x ∉ b := fun hb => (h.within x hb).elim hx fun hle => by omega
    rw [h'.keep x hb (by have := h.grow; omega), h.keep x hx hlt]
  · rcases h'.within x hx with hb | hle
    · exact h.within x hb
    · exact .inr (h.grow.trans hle)

lemma Keeps.mono {a a' b b' q} (h : Keeps a b p q) (ha : a ⊆ a') (hb : b' ⊆ b) : Keeps a' b' p q :=
  ⟨h.grow, fun x hx => h.keep x fun hx' => hx (ha hx'), fun x hx =>
    (h.within x (hb hx)).imp_left fun hx' => ha hx'⟩

lemma Keeps.modify {own own' a} (ha : a ∈ own) (f) (hsub : ∀ q ∈ own', q ∈ own) (fl : Option ℕ) :
    Keeps own own' p { p with heap := p.heap.modify a f, freeList := fl } := by
  refine ⟨le_refl _, fun q hq _ => ?_, fun q hq => .inl (hsub q hq)⟩
  have hne : q ≠ a := by
    rintro rfl
    exact hq ha
  rw [cell_modify, if_neg hne]

/-- The state after the block at `p` has been changed. -/
def St.modify (s : St) (p : ℕ) (f : Block → Block) : St :=
  { s with pool := { s.pool with heap := s.pool.heap.modify p f } }

/-- The state after the block at `p` has been given back. -/
def St.give (s : St) (p : ℕ) : St :=
  { s with
    pool := { s.pool with
      heap := s.pool.heap.modify p fun b => { b with next := s.pool.freeList }
      freeList := some p } }

lemma St.block_modify (s : St) (p q f) :
    (s.modify p f).block q = if q = p then (s.block q).map f else s.block q :=
  cell_modify _

lemma St.write_eq {p b} (h : s.block p = some b) (f) : s.write p f = some (s.modify p f) := by
  rw [St.write, store_eq (by rw [← St.block, h]; rfl)]
  rfl

lemma dbufFree_eq {p b} (h : s.block p = some b) (d : DBuf) :
    dbufFree p { s with dyn := d } = some (St.give { s with dyn := d } p) := by
  rw [dbufFree, St.write_eq (s := ⟨d, s.pool⟩) h]
  rfl

namespace Linked

variable {p : ℕ} {b : Block}

lemma setLength (hs : Linked cfg s xs fs) (n : ℕ) :
    Linked cfg { s with dyn := { s.dyn with length := n } } xs fs :=
  ⟨hs.chain, hs.tail, hs.free, hs.nodup, hs.count, hs.pool⟩

lemma block_head (hs : Linked cfg s ((p, b) :: xs) fs) : s.block p = some b :=
  hs.chain.2.1

lemma head_eq (hs : Linked cfg s ((p, b) :: xs) fs) : s.dyn.head = some p :=
  hs.chain.1

lemma notMem_of_head (hs : Linked cfg s ((p, b) :: xs) fs) : p ∉ addrs xs ∧ p ∉ addrs fs := by
  have := hs.nodup
  rw [addrs_cons, cons_append, nodup_cons, mem_append, not_or] at this
  exact this.1

lemma notMem_of_last (hs : Linked cfg s (xs ++ [(p, b)]) fs) : p ∉ addrs xs ∧ p ∉ addrs fs := by
  have hnodup := hs.nodup
  rw [addrs_append, addrs_cons, append_assoc] at hnodup
  have := nodup_middle.mp hnodup
  rw [nodup_cons, mem_append, not_or] at this
  exact this.1

lemma block_last (hs : Linked cfg s (xs ++ [(p, b)]) fs) : s.block p = some b :=
  hs.chain.cell (x := (p, b)) (by simp)

lemma skip (hs : Linked cfg s ((p, b) :: xs) fs) (n : ℕ) :
    Linked cfg (s.modify p (·.skip n)) ((p, b.skip n) :: xs) fs :=
  ⟨hs.chain.modify_head hs.notMem_of_head.1 rfl, hs.tail,
    hs.free.modify_of_notMem hs.notMem_of_head.2 _, hs.nodup, hs.count, hs.pool⟩

lemma give (hs : Linked cfg s ((p, b) :: xs) fs) :
    Linked cfg (St.give { s with dyn := { s.dyn with head := b.next } } p) xs
      ((p, { b with next := s.pool.freeList }) :: fs) := by
  obtain ⟨hxs, hfs⟩ := hs.notMem_of_head
  refine ⟨Seg.modify_of_notMem hs.chain.2.2 hxs _, fun a ha => hs.tail a ?_,
    ⟨rfl, ?_, hs.free.modify_of_notMem hfs _⟩, ?_, hs.count, hs.pool⟩
  · have hne : addrs xs ≠ [] := by
      rintro h
      rw [h] at ha
      cases ha
    rwa [addrs_cons, List.getLast?_cons_of_ne_nil hne]
  · rw [St.give, cell_modify, if_pos rfl, show s.pool.heap.cell p = some b from hs.block_head]
    rfl
  · have := hs.nodup
    exact nodup_middle.mpr this

lemma keeps_give (s : St) :
    Keeps (addrs ((p, b) :: xs) ++ addrs fs) (addrs xs ++ p :: addrs fs) s.pool (s.give p).pool :=
  Keeps.modify (by simp) _ (fun q hq => by
    simp only [addrs_cons, mem_append, mem_cons, cons_append] at hq ⊢
    tauto) _

lemma keeps_skip (s : St) (n : ℕ) :
    Keeps (addrs ((p, b) :: xs) ++ addrs fs) (addrs ((p, b.skip n) :: xs) ++ addrs fs) s.pool
      (s.modify p (·.skip n)).pool :=
  Keeps.modify (by simp) _ (fun _ hq => hq) _

end Linked

/-- No block is empty, and none is filled beyond its size. -/
def Full (xs : List (ℕ × Block)) : Prop := ∀ x ∈ xs, x.2.start < x.2.stop ∧ x.2.stop ≤ DBUF_SIZE

lemma Full.tail {x} (h : Full (x :: xs)) : Full xs :=
  fun y hy => h y (mem_cons_of_mem _ hy)

lemma Full.length_le (h : Full xs) : (contents xs).length ≤ DBUF_SIZE * xs.length := by
  induction xs with
  | nil => simp
  | cons x xs ih =>
    have hx := h x (by simp)
    have := ih h.tail
    rw [contents_cons, length_append, length_bytes, length_cons, Nat.mul_add]
    omega

lemma Linked.length_le (hs : Linked cfg s xs fs) : xs.length ≤ s.pool.heap.next := by
  have hsub : addrs xs ⊆ List.range s.pool.heap.next := fun q hq =>
    mem_range.mpr (hs.chain.lt_next hq)
  have hle := (subperm_of_subset (List.Nodup.of_append_left hs.nodup) hsub).length_le
  rwa [length_range, addrs, length_map] at hle

/-- **The length of a queue is an `unsigned int`**, because the pool is bounded. -/
lemma Linked.length_lt (hs : Linked cfg s xs fs) (hf : Full xs) :
    (contents xs).length < 2 ^ 32 := by
  have hle := hf.length_le
  have hcount := hs.length_le
  rw [hs.count] at hcount
  have hmul : DBUF_SIZE * xs.length ≤ s.pool.allocCount * DBUF_SIZE := by
    rw [Nat.mul_comm]
    exact Nat.mul_le_mul_right _ hcount
  have hpool := hs.pool
  have hfits := cfg.fits
  omega

/-- A queue with the blocks `xs`, none of them empty, and the free list `fs`, as
another state and its blocks have become. -/
structure Turn (cfg : Config) (s : St) (xs fs : List (ℕ × Block)) (s' : St)
    (xs' fs' : List (ℕ × Block)) : Prop where
  linked : Linked cfg s' xs' fs'
  full : Full xs'
  keeps : Keeps (addrs xs ++ addrs fs) (addrs xs' ++ addrs fs') s.pool s'.pool

lemma Turn.trans {s' s'' xs' fs' xs'' fs''}
    (h : Turn cfg s xs fs s' xs' fs') (h' : Turn cfg s' xs' fs' s'' xs'' fs'') :
    Turn cfg s xs fs s'' xs'' fs'' :=
  ⟨h'.linked, h'.full, h.keeps.trans h'.keeps⟩

lemma Turn.setLength {s'} {xs' fs' : List (ℕ × Block)} (h : Turn cfg s xs fs s' xs' fs') (n : ℕ) :
    Turn cfg s xs fs { s' with dyn := { s'.dyn with length := n } } xs' fs' :=
  ⟨h.linked.setLength n, h.full, h.keeps⟩

/-! ### Taking bytes from the front -/

section Front

variable {p : ℕ} {b : Block} {n length : ℕ}

lemma drop_first (hs : Linked cfg s ((p, b) :: xs) fs) (hf : Full ((p, b) :: xs)) (k len : ℕ) :
    ∃ s' fs', dbufFree p { s.modify p (·.skip k) with dyn := ⟨len, b.next, s.dyn.tail⟩ } = some s' ∧
      Turn cfg s ((p, b) :: xs) fs s' xs fs' ∧ s'.dyn = ⟨len, b.next, s.dyn.tail⟩ :=
  ⟨_, _, dbufFree_eq (hs.skip k).block_head _, ⟨((hs.skip k).give).setLength len, hf.tail,
      (Linked.keeps_skip s k).trans (Linked.keeps_give (s.modify p (·.skip k)))⟩, rfl⟩

lemma shorten_first (hs : Linked cfg s ((p, b) :: xs) fs) (hf : Full ((p, b) :: xs)) {k : ℕ}
    (hk : k < b.stop - b.start) (len : ℕ) : Turn cfg s ((p, b) :: xs) fs
      { s.modify p (·.skip k) with dyn := { s.dyn with length := len } }
      ((p, b.skip k) :: xs) fs := by
  refine ⟨(hs.skip k).setLength len, ?_, Linked.keeps_skip s k⟩
  intro x hx
  rcases mem_cons.mp hx with rfl | hx
  · have hb : b.start < b.stop ∧ b.stop ≤ DBUF_SIZE := hf (p, b) (by simp)
    exact ⟨show b.start + k < b.stop by omega, hb.2⟩
  · exact hf.tail x hx

lemma usub_eq {a c} (hle : c ≤ a) (ha : a < 2 ^ 32) : usub a c = a - c := by
  rw [usub]
  omega

lemma deleteLoop_whole (hs : Linked cfg s ((p, b) :: xs) fs) (hf : Full ((p, b) :: xs))
    (h0 : length ≠ 0) (hle : b.stop - b.start ≤ length) :
    ∃ s' fs', deleteLoop (n + 1) length s = deleteLoop n (length - (b.stop - b.start)) s' ∧
      Turn cfg s ((p, b) :: xs) fs s' xs fs' ∧
      s'.dyn = ⟨usub s.dyn.length (b.stop - b.start), b.next, s.dyn.tail⟩ := by
  have hb : b.start < b.stop ∧ b.stop ≤ DBUF_SIZE := hf (p, b) (by simp)
  obtain ⟨s', fs', hfree, hturn, hdyn⟩ :=
    drop_first hs hf (b.stop - b.start) (usub s.dyn.length (b.stop - b.start))
  refine ⟨s', fs', ?_, hturn, hdyn⟩
  rw [deleteLoop, if_neg h0, hs.head_eq]
  simp only [bind_eq_bind, hs.block_head, bind_some, St.write_eq hs.block_head, min_eq_left hle]
  rw [if_pos (by omega)]
  exact congrArg (Option.bind · _) hfree

lemma deleteLoop_part (hs : Linked cfg s ((p, b) :: xs) fs) (h0 : length ≠ 0)
    (hlt : length < b.stop - b.start) :
    deleteLoop (n + 1) length s = deleteLoop n 0 { s.modify p (·.skip length) with
      dyn := { s.dyn with length := usub s.dyn.length length } } := by
  rw [deleteLoop, if_neg h0, hs.head_eq]
  simp only [bind_eq_bind, hs.block_head, bind_some, St.write_eq hs.block_head,
    min_eq_right hlt.le, Nat.sub_self]
  rw [if_neg (by omega)]
  rfl

/-- **`dbuf_delete` drops bytes from the front**, as long as the recorded length
is right. -/
lemma deleteLoop_spec (hs : Linked cfg s xs fs) (hf : Full xs)
    (hlen : s.dyn.length = (contents xs).length) (hle : length ≤ (contents xs).length)
    (hn : length < n) :
    ∃ s' xs' fs', deleteLoop n length s = some s' ∧ Turn cfg s xs fs s' xs' fs' ∧
      contents xs' = (contents xs).drop length ∧ s'.dyn.length = (contents xs').length ∧
      s'.dyn.tail = s.dyn.tail := by
  induction n generalizing s xs fs length with
  | zero => omega
  | succ n ih =>
    by_cases h0 : length = 0
    · subst h0
      exact ⟨s, xs, fs, by rw [deleteLoop, if_pos rfl], ⟨hs, hf, .refl _ _⟩, rfl, hlen, rfl⟩
    cases xs with
    | nil =>
      rw [contents_nil, length_nil] at hle
      omega
    | cons x xs =>
      obtain ⟨p, b⟩ := x
      have hb : b.start < b.stop ∧ b.stop ≤ DBUF_SIZE := hf (p, b) (by simp)
      have hlt := hs.length_lt hf
      simp only [contents_cons, length_append, length_bytes] at hle hlen hlt
      by_cases hwhole : b.stop - b.start ≤ length
      · obtain ⟨s1, fs1, hrun, hturn, hdyn⟩ := deleteLoop_whole hs hf h0 hwhole
        rw [usub_eq (by omega) (by omega)] at hdyn
        obtain ⟨s', xs', fs', hrun', hturn', hcont, hlen', htail⟩ :=
          ih hturn.linked hturn.full (by rw [hdyn]; dsimp only; omega)
            (by omega : length - (b.stop - b.start) ≤ _) (by omega)
        refine ⟨s', xs', fs', hrun.trans hrun', hturn.trans hturn', ?_, hlen', ?_⟩
        · rw [hcont, contents_cons, drop_append, length_bytes, drop_of_length_le
            (i := length) (by rw [length_bytes]; exact hwhole), nil_append]
        · rw [htail, hdyn]
      have hpart : length < b.stop - b.start := not_le.mp hwhole
      rw [deleteLoop_part hs h0 hpart, usub_eq (by omega) (by omega)]
      have hturn := shorten_first hs hf hpart (s.dyn.length - length)
      obtain ⟨s', xs', fs', hrun', hturn', hcont, hlen', htail⟩ :=
        ih hturn.linked hturn.full
          (by simp only [contents_cons, length_append, length_bytes, skip]; omega)
          (Nat.zero_le _) (by omega)
      refine ⟨s', xs', fs', hrun', hturn.trans hturn', ?_, hlen', htail⟩
      rw [hcont, drop_zero, contents_cons, contents_cons, bytes_skip,
        drop_append_of_le_length (by rw [length_bytes]; exact hpart.le)]

lemma flushLoop_whole (hs : Linked cfg s ((p, b) :: xs) fs) (hf : Full ((p, b) :: xs))
    (heol : isEol (b.data b.start) = true) (hone : b.start + 1 = b.stop) :
    ∃ s' fs', (flushLoop (n + 1) p s = match b.next with
        | none => some { s' with dyn := { s'.dyn with tail := none, length := 0 } }
        | some db =>
          flushLoop n db { s' with dyn := { s'.dyn with length := usub s'.dyn.length 1 } }) ∧
      Turn cfg s ((p, b) :: xs) fs s' xs fs' ∧ s'.dyn = ⟨s.dyn.length, b.next, s.dyn.tail⟩ := by
  obtain ⟨s', fs', hfree, hturn, hdyn⟩ := drop_first hs hf 1 s.dyn.length
  refine ⟨s', fs', ?_, hturn, hdyn⟩
  rw [flushLoop]
  simp only [bind_eq_bind, hs.block_head, bind_some, heol, if_true,
    St.write_eq hs.block_head, if_pos hone]
  exact congrArg (Option.bind · _) hfree

lemma flushLoop_part (hs : Linked cfg s ((p, b) :: xs) fs)
    (heol : isEol (b.data b.start) = true) (hone : b.start + 1 ≠ b.stop) :
    flushLoop (n + 1) p s = flushLoop n p { s.modify p (·.skip 1) with
      dyn := { s.dyn with length := usub s.dyn.length 1 } } := by
  rw [flushLoop]
  simp only [bind_eq_bind, hs.block_head, bind_some, heol, if_true,
    St.write_eq hs.block_head, if_neg hone]
  rfl

lemma flushLoop_stop (hs : Linked cfg s ((p, b) :: xs) fs)
    (heol : isEol (b.data b.start) = false) : flushLoop (n + 1) p s = some s := by
  rw [flushLoop]
  simp only [bind_eq_bind, hs.block_head, bind_some, heol, Bool.false_eq_true, if_false]

lemma flushLoop_spec (hs : Linked cfg s ((p, b) :: xs) fs) (hf : Full ((p, b) :: xs))
    (hlen : s.dyn.length = (contents ((p, b) :: xs)).length)
    (hn : (contents ((p, b) :: xs)).length < n) :
    ∃ s' xs' fs', flushLoop n p s = some s' ∧ Turn cfg s ((p, b) :: xs) fs s' xs' fs' ∧
      contents xs' = (contents ((p, b) :: xs)).dropWhile isEol ∧
      s'.dyn.length = (contents xs').length ∧ (xs' = [] → s'.dyn.tail = none) := by
  induction n generalizing s p b xs fs with
  | zero => omega
  | succ n ih =>
    have hb : b.start < b.stop ∧ b.stop ≤ DBUF_SIZE := hf (p, b) (by simp)
    have hlt := hs.length_lt hf
    have hcons : contents ((p, b) :: xs) = b.data b.start :: ((b.skip 1).bytes ++ contents xs) := by
      rw [contents_cons, bytes_eq_cons hb.1, cons_append]
    have hpos : (contents ((p, b) :: xs)).length =
        ((b.skip 1).bytes ++ contents xs).length + 1 := by
      rw [hcons, length_cons]
    cases heol : isEol (b.data b.start) with
    | false =>
      refine ⟨s, _, fs, flushLoop_stop hs heol, ⟨hs, hf, .refl _ _⟩, ?_, hlen, by simp⟩
      rw [hcons, dropWhile_cons_of_neg (by simp [heol])]
    | true =>
      rw [hcons, dropWhile_cons_of_pos heol]
      by_cases hone : b.start + 1 = b.stop
      · have hnil : (b.skip 1).bytes = [] := by
          apply eq_nil_of_length_eq_zero
          rw [length_bytes]
          exact Nat.sub_eq_zero_of_le hone.ge
        rw [hnil, nil_append] at hpos ⊢
        obtain ⟨s1, fs1, hrun, hturn, hdyn⟩ := flushLoop_whole hs hf heol hone
        rw [hrun]
        cases xs with
        | nil =>
          have hnext : b.next = none := hs.chain.2.2
          rw [hnext]
          refine ⟨_, [], fs1, rfl, ⟨?_, hturn.full, hturn.keeps⟩, rfl, rfl, fun _ => rfl⟩
          have := hturn.linked
          exact ⟨this.chain, by simp, this.free, this.nodup, this.count, this.pool⟩
        | cons x xs =>
          obtain ⟨p', b'⟩ := x
          have hnext : b.next = some p' := hs.chain.2.2.1
          have hlen1 : usub s1.dyn.length 1 = (contents ((p', b') :: xs)).length := by
            rw [hdyn, usub_eq (by dsimp only; omega) (by dsimp only; omega)]
            dsimp only
            omega
          rw [hnext]
          have hturn1 := hturn.setLength (usub s1.dyn.length 1)
          obtain ⟨s', xs', fs', hrun', hturn', hrest⟩ :=
            ih hturn1.linked hturn1.full hlen1 (by omega)
          exact ⟨s', xs', fs', hrun', hturn1.trans hturn', hrest⟩
      · rw [flushLoop_part hs heol hone]
        have hturn := shorten_first hs hf (k := 1) (by omega) (usub s.dyn.length 1)
        have hlen1 : usub s.dyn.length 1 = (contents ((p, b.skip 1) :: xs)).length := by
          rw [usub_eq (by omega) (by omega), contents_cons]
          dsimp only
          omega
        obtain ⟨s', xs', fs', hrun', hturn', hrest⟩ :=
          ih hturn.linked hturn.full hlen1 (by rw [contents_cons]; dsimp only; omega)
        exact ⟨s', xs', fs', hrun', hturn.trans hturn', hrest⟩

end Front

/-! ### Putting bytes at the end -/

section Back

variable {p : ℕ} {b : Block}

/-- A block `p` taken from the pool: it is in neither list any more. -/
structure Taken (cfg : Config) (s : St) (xs fs : List (ℕ × Block)) (p : ℕ) (s' : St)
    (fs' : List (ℕ × Block)) : Prop where
  linked : Linked cfg s' xs fs'
  block : (s'.block p).isSome
  notMem : p ∉ addrs xs ++ addrs fs'
  dyn : s'.dyn = s.dyn
  keeps : Keeps (addrs xs ++ addrs fs) (p :: (addrs xs ++ addrs fs')) s.pool s'.pool

lemma dbufAlloc_spec (hs : Linked cfg s xs fs) :
    (cfg.bufferpool ≤ s.pool.allocCount * DBUF_SIZE ∧ dbufAlloc cfg s = some (none, s)) ∨
      ∃ p s' fs', dbufAlloc cfg s = some (some p, s') ∧ Taken cfg s xs fs p s' fs' := by
  cases fs with
  | nil =>
    have hfree : s.pool.freeList = none := hs.free
    by_cases hroom : s.pool.allocCount * DBUF_SIZE < cfg.bufferpool
    · have hrun : dbufAlloc cfg s = some (some s.pool.heap.next, { s with pool := { s.pool with
          heap := s.pool.heap.alloc ⟨none, 0, 0, fun _ => 0⟩
          allocCount := s.pool.allocCount + 1 } }) := by
        rw [dbufAlloc, hfree]
        exact if_pos hroom
      refine .inr ⟨_, _, [], hrun, ?_, ?_, ?_, rfl, ?_⟩
      · refine ⟨hs.chain.alloc _, hs.tail, hfree, hs.nodup, ?_, ?_⟩
        · rw [next_alloc, hs.count]
        · rw [Nat.add_mul]
          omega
      · rw [St.block, cell_alloc, if_pos rfl]
        rfl
      · rw [addrs_nil, append_nil]
        exact fun hmem => (hs.chain.lt_next hmem).ne rfl
      refine ⟨by rw [next_alloc]; omega, fun q _ hlt => ?_, fun q hq => ?_⟩
      · rw [cell_alloc, if_neg hlt.ne]
      · rcases mem_cons.mp hq with rfl | hq
        · exact .inr (le_refl _)
        · exact .inl hq
    · exact .inl ⟨not_lt.mp hroom, by rw [dbufAlloc, hfree]; exact if_neg hroom⟩
  | cons x fs =>
    obtain ⟨p, b⟩ := x
    obtain ⟨hfree, hcell, hfs⟩ := hs.free
    have hnodup := nodup_middle.mp hs.nodup
    have hrun : dbufAlloc cfg s =
        some (some p, { s with pool := { s.pool with freeList := b.next } }) := by
      rw [dbufAlloc, hfree]
      simp only [bind_eq_bind, St.block, hcell, bind_some]
    refine .inr ⟨p, _, fs, hrun, ⟨hs.chain, hs.tail, hfs, hnodup.of_cons, hs.count, hs.pool⟩, ?_,
      (nodup_cons.mp hnodup).1, rfl, le_refl _, fun _ _ _ => rfl, fun q hq => .inl ?_⟩
    · rw [St.block, hcell]
      rfl
    · simp only [addrs_cons, mem_append, mem_cons] at hq ⊢
      tauto

lemma dbufAllocRetry_spec (hs : Linked cfg s xs fs) :
    (cfg.bufferpool ≤ s.pool.allocCount * DBUF_SIZE ∧ dbufAllocRetry cfg s = some (none, s)) ∨
      ∃ p s' fs', dbufAllocRetry cfg s = some (some p, s') ∧ Taken cfg s xs fs p s' fs' := by
  rcases dbufAlloc_spec hs with ⟨hpool, hnone⟩ | ⟨p, s', fs', hsome, htaken⟩
  · refine .inl ⟨hpool, ?_⟩
    rw [dbufAllocRetry, hnone]
    refine ite_eq_right_iff.mpr fun hferguson => ?_
    rw [cfg.sends hferguson.2]
    exact hnone
  · refine .inr ⟨p, s', fs', ?_, htaken⟩
    rw [dbufAllocRetry, hsome]
    rfl

def AtEnd (h : Place) (xs : List (ℕ × Block)) : Prop :=
  h = .head ∧ xs = [] ∨ ∃ ys q c, h = .next q ∧ xs = ys ++ [(q, c)]

variable {h : Place} {c : Block} {q n : ℕ} {ys : List (ℕ × Block)} {buf : List UInt8}

lemma AtEnd.deref (hend : AtEnd h xs) (hs : Linked cfg s xs fs) : h.deref s = some none := by
  rcases hend with ⟨rfl, rfl⟩ | ⟨ys, q, c, rfl, rfl⟩
  · rw [deref, show s.dyn.head = none from hs.chain]
  · have hcell := hs.chain.cell (x := (q, c)) (by simp)
    rw [deref, St.block, hcell, map_some, hs.chain.end_eq]

def Block.clear (b : Block) : Block := { b with next := none, start := 0, stop := 0 }

lemma link_head (hs : Linked cfg s [] fs) (hb : s.block p = some b) (hp : p ∉ addrs fs) :
    ∃ s', link .head p s = some s' ∧ Linked cfg s' [(p, b.clear)] fs ∧
      s'.dyn.length = s.dyn.length ∧ Keeps (p :: addrs fs) (p :: addrs fs) s.pool s'.pool := by
  have hrun : link .head p s =
      some (St.modify { s with dyn := ⟨s.dyn.length, some p, some p⟩ } p clear) :=
    St.write_eq (s := { s with dyn := ⟨s.dyn.length, some p, some p⟩ }) hb _
  refine ⟨_, hrun, ⟨⟨rfl, ?_, rfl⟩, ?_, ?_, ?_, hs.count, hs.pool⟩, rfl, ?_⟩
  · rw [St.modify, cell_modify, if_pos rfl, show s.pool.heap.cell p = some b from hb]
    rfl
  · rintro a ⟨⟩
    rfl
  · exact hs.free.modify_of_notMem hp _
  · have := hs.nodup
    exact nodup_cons.mpr ⟨hp, this⟩
  · exact Keeps.modify (by simp) _ (fun _ hq => hq) _

lemma link_next (hs : Linked cfg s (ys ++ [(q, c)]) fs) (hb : s.block p = some b)
    (hp : p ∉ addrs (ys ++ [(q, c)]) ++ addrs fs) : ∃ s', link (.next q) p s = some s' ∧
      Linked cfg s' (ys ++ [(q, { c with next := some p })] ++ [(p, b.clear)]) fs ∧
      s'.dyn.length = s.dyn.length ∧
      Keeps (p :: (addrs (ys ++ [(q, c)]) ++ addrs fs)) (p :: (addrs (ys ++ [(q, c)]) ++ addrs fs))
        s.pool s'.pool := by
  have hnodup := hs.nodup
  simp only [addrs_append, addrs_cons, addrs_nil, mem_append, mem_singleton, not_or] at hp
  obtain ⟨⟨hpy, hpq⟩, hpf⟩ := hp
  obtain ⟨hqy, hqf⟩ := hs.notMem_of_last
  have hcell := hs.block_last
  let f : Block → Block := fun b => { b with next := some p }
  let s1 : St := St.modify { s with dyn := { s.dyn with tail := some p } } q f
  have hb1 : s1.block p = some b := by
    rw [St.block_modify, if_neg hpq]
    exact hb
  have hb2 : (s1.modify p clear).block p = some b.clear := by
    rw [St.block_modify, if_pos rfl, hb1, map_some]
  have hrun : link (.next q) p s = some (s1.modify p clear) := by
    rw [link, assign, St.write_eq (s := { s with dyn := { s.dyn with tail := some p } }) hcell]
    exact St.write_eq hb1 _
  refine ⟨_, hrun, ⟨?_, ?_, ?_, ?_, hs.count, hs.pool⟩, rfl, ?_⟩
  · -- the chain up to `q` now ends at `p`
    have hlast := hs.chain.modify_last hqy f
    refine seg_append.mpr ⟨some p, hlast.modify_of_notMem ?_ _, rfl, hb2, rfl⟩
    simp [hpy, hpq]
  · intro a ha
    simp only [addrs_append, addrs_cons, addrs_nil, List.getLast?_append_of_ne_nil _
      (cons_ne_nil _ _), List.getLast?_singleton, mem_def, some.injEq] at ha
    rw [← ha]
    rfl
  · exact (hs.free.modify_of_notMem hqf _).modify_of_notMem hpf _
  · have hadd : (p :: (addrs (ys ++ [(q, c)]) ++ addrs fs)).Nodup :=
      nodup_cons.mpr ⟨by simp [hpy, hpq, hpf], hnodup⟩
    have hmid := nodup_middle.mpr hadd
    simpa only [addrs_append, addrs_cons, addrs_nil, append_assoc, cons_append,
      nil_append] using hmid
  · exact (Keeps.modify (by simp) f (fun _ hq => hq) _).trans
      (Keeps.modify (by simp) clear (fun _ hq => hq) _)

lemma link_spec (hs : Linked cfg s xs fs) (hend : AtEnd h xs) (hb : s.block p = some b)
    (hp : p ∉ addrs xs ++ addrs fs) :
    ∃ s' xs', link h p s = some s' ∧ Linked cfg s' (xs' ++ [(p, b.clear)]) fs ∧
      contents xs' = contents xs ∧ addrs xs' = addrs xs ∧ (Full xs → Full xs') ∧
      s'.dyn.length = s.dyn.length ∧
      Keeps (p :: (addrs xs ++ addrs fs)) (p :: (addrs xs ++ addrs fs)) s.pool s'.pool := by
  rcases hend with ⟨rfl, rfl⟩ | ⟨ys, q, c, rfl, rfl⟩
  · obtain ⟨s', hrun, hlinked, hlen, hkeeps⟩ := link_head hs hb hp
    exact ⟨s', [], hrun, hlinked, rfl, rfl, id, hlen, hkeeps⟩
  obtain ⟨s', hrun, hlinked, hlen, hkeeps⟩ := link_next hs hb hp
  refine ⟨s', _, hrun, hlinked, ?_, ?_, ?_, hlen, hkeeps⟩
  · rw [contents_append, contents_append]
    rfl
  · rw [addrs_append, addrs_append]
    rfl
  intro hf x hx
  rcases mem_append.mp hx with hx | hx
  · exact hf x (mem_append_left _ hx)
  · obtain rfl := mem_singleton.mp hx
    exact hf (q, c) (by simp)

lemma fill_spec (buf) (hs : Linked cfg s (ys ++ [(q, c)]) fs) :
    ∃ s', fill q buf s = some (buf.drop (min (DBUF_SIZE - c.stop) buf.length), s') ∧
      Linked cfg s' (ys ++ [(q, c.put (buf.take (min (DBUF_SIZE - c.stop) buf.length)))]) fs ∧
      s'.dyn = s.dyn ∧
      Keeps (addrs (ys ++ [(q, c)]) ++ addrs fs) (addrs (ys ++ [(q, c)]) ++ addrs fs)
        s.pool s'.pool := by
  have hnodup := hs.nodup
  obtain ⟨hqy, hqf⟩ := hs.notMem_of_last
  have hcell := hs.block_last
  have hnext : c.next = none := hs.chain.end_eq
  let f : Block → Block := fun b => b.put (buf.take (min (DBUF_SIZE - c.stop) buf.length))
  refine ⟨s.modify q f, ?_, ⟨?_, ?_, hs.free.modify_of_notMem hqf f, ?_, hs.count, hs.pool⟩,
    rfl, ?_⟩
  · rw [fill]
    simp only [bind_eq_bind, hcell, bind_some, St.write_eq hcell]
    rfl
  · have := hs.chain.modify_last hqy f
    rwa [show (f c).next = none from hnext] at this
  · have := hs.tail
    rwa [addrs_append] at this ⊢
  · rwa [addrs_append] at hnodup ⊢
  · exact Keeps.modify (by simp) f (fun _ hq => hq) _

/-- A round of the loop of `dbuf_put` at the end of the chain: a block with at
least one byte is added, or the pool is used up. -/
lemma put_round (hs : Linked cfg s xs fs) (hf : Full xs) (hend : AtEnd h xs) (hbuf : buf ≠ []) :
    (cfg.bufferpool ≤ s.pool.allocCount * DBUF_SIZE ∧ target cfg h s = some (none, s)) ∨
      ∃ p s₁ s₂ xs' fs' k, target cfg h s = some (some p, s₁) ∧ 0 < k ∧
        fill p buf s₁ = some (buf.drop k, s₂) ∧ Turn cfg s xs fs s₂ xs' fs' ∧
        AtEnd (.next p) xs' ∧ contents xs' = contents xs ++ buf.take k ∧
        s₂.dyn.length = s.dyn.length := by
  have hderef := hend.deref hs
  rcases dbufAllocRetry_spec hs with ⟨hpool, hnone⟩ | ⟨p, s', fs', hsome, htaken⟩
  · refine .inl ⟨hpool, ?_⟩
    rw [target]
    simp only [bind_eq_bind, hderef, bind_some, hnone]
  obtain ⟨b, hb⟩ := isSome_iff_exists.mp htaken.block
  obtain ⟨s₁, xs1, hlink, hlinked, hcont, haddrs, hfull, hlen, hkeeps⟩ :=
    link_spec htaken.linked hend hb htaken.notMem
  obtain ⟨s₂, hfill, hlinked2, hdyn, hkeeps2⟩ := fill_spec buf hlinked
  have hk : min (DBUF_SIZE - b.clear.stop) buf.length = min DBUF_SIZE buf.length := rfl
  rw [hk] at hfill hlinked2
  have hpos : 0 < min DBUF_SIZE buf.length :=
    lt_min (by decide) (length_pos_of_ne_nil hbuf)
  refine .inr ⟨p, s₁, s₂, _, fs', min DBUF_SIZE buf.length, ?_, hpos, hfill,
    ⟨hlinked2, ?_, ?_⟩, .inr ⟨xs1, p, _, rfl, rfl⟩, ?_, ?_⟩
  · rw [target]
    simp only [bind_eq_bind, hderef, bind_some, hsome, hlink]
  · intro x hx
    rcases mem_append.mp hx with hx | hx
    · exact hfull hf x hx
    obtain rfl := mem_singleton.mp hx
    have htake : (buf.take (min DBUF_SIZE buf.length)).length = min DBUF_SIZE buf.length := by
      rw [length_take]
      omega
    simp only [put, clear, htake, Nat.zero_add]
    exact ⟨hpos, min_le_left _ _⟩
  · have hown : addrs (xs1 ++ [(p, b.clear)]) ++ addrs fs' ⊆ p :: (addrs xs ++ addrs fs') := by
      intro x hx
      simp only [addrs_append, haddrs, addrs_cons, addrs_nil, mem_append, mem_cons,
        not_mem_nil, or_false] at hx ⊢
      tauto
    refine (htaken.keeps.trans hkeeps).trans (hkeeps2.mono hown ?_)
    rw [addrs_append, addrs_append]
    exact refl _
  · rw [contents_append, hcont, contents_cons, contents_nil, append_nil, bytes_put (le_refl 0)]
    rfl
  · rw [hdyn, hlen, htaken.dyn]

lemma freeAll_spec {a : Option ℕ} (hs : Linked cfg { s with dyn := { s.dyn with head := a } } xs fs)
    (hn : xs.length ≤ n) :
    ∃ s' fs', freeAll n a s = some s' ∧ s'.pool.allocCount = s.pool.allocCount ∧
      Linked cfg { s' with dyn := ⟨0, none, none⟩ } [] fs' ∧
      Keeps (addrs xs ++ addrs fs) (addrs fs') s.pool s'.pool := by
  induction xs generalizing s a fs n with
  | nil =>
    obtain rfl : a = none := hs.chain
    refine ⟨s, fs, by rw [freeAll], rfl, ⟨rfl, by simp, hs.free, hs.nodup, hs.count, hs.pool⟩,
      .refl _ _⟩
  | cons x xs ih =>
    obtain ⟨p, b⟩ := x
    obtain rfl : a = some p := hs.head_eq
    cases n with
    | zero => simp at hn
    | succ n =>
      have hb : s.block p = some b := hs.block_head
      obtain ⟨s', fs', hrun, hcount, hlinked, hkeeps⟩ :=
        ih (s := s.give p) hs.give (by simpa using hn)
      refine ⟨s', fs', ?_, hcount, hlinked, (Linked.keeps_give s).trans hkeeps⟩
      rw [freeAll]
      simp only [bind_eq_bind, hb, bind_some, dbufFree_eq hb s.dyn]
      exact hrun

lemma dbufMallocError_spec (hs : Linked cfg s xs fs) :
    ∃ s' fs', dbufMallocError s = some s' ∧ s'.dyn = ⟨0, none, none⟩ ∧
      s'.pool.allocCount = s.pool.allocCount ∧ Turn cfg s xs fs s' [] fs' := by
  obtain ⟨s', fs', hrun, hcount, hlinked, hkeeps⟩ :=
    freeAll_spec hs
      (hs.length_le.trans (Nat.le_succ _))
  have hfull : Full [] := fun x hx => absurd hx not_mem_nil
  refine ⟨{ s' with dyn := ⟨0, none, none⟩ }, fs', ?_, rfl, hcount, ⟨hlinked, hfull, hkeeps⟩⟩
  rw [dbufMallocError, hrun]
  rfl

/-- What `dbuf_put` makes of a queue: the bytes are appended, or the pool is used
up and the queue is emptied. -/
def PutDone (cfg : Config) (s : St) (xs : List (ℕ × Block)) (buf : List UInt8) (s' : St)
    (xs' : List (ℕ × Block)) : Bool → Prop
  | true => contents xs' = contents xs ++ buf ∧ s'.dyn.length = s.dyn.length ∧ (buf = [] → s' = s)
  | false => xs' = [] ∧ s'.dyn = ⟨0, none, none⟩ ∧ cfg.bufferpool ≤ s'.pool.allocCount * DBUF_SIZE

lemma putLoop_spec (hs : Linked cfg s xs fs) (hf : Full xs) (hend : AtEnd h xs)
    (hn : buf.length < n) :
    ∃ ok s' xs' fs', putLoop cfg n h buf s = some (ok, s') ∧ Turn cfg s xs fs s' xs' fs' ∧
      PutDone cfg s xs buf s' xs' ok := by
  induction n generalizing s xs fs h buf with
  | zero => omega
  | succ n ih =>
    by_cases hbuf : buf = []
    · refine ⟨true, s, xs, fs, ?_, ⟨hs, hf, .refl _ _⟩, ?_, rfl, fun _ => rfl⟩
      · rw [putLoop, if_pos hbuf]
      · rw [hbuf, append_nil]
    rw [putLoop, if_neg hbuf]
    rcases put_round hs hf hend hbuf with
      ⟨hpool, hnone⟩ | ⟨p, s1, s2, xs2, fs2, k, htarget, hk, hfill, hturn, hend2, hcont, hlen⟩
    · obtain ⟨s', fs', hrun, hdyn, hcount, hturn⟩ := dbufMallocError_spec hs
      refine ⟨false, s', [], fs', ?_, hturn, rfl, hdyn, by rwa [hcount]⟩
      simp only [bind_eq_bind, hnone, bind_some, hrun]
    have hlt : (buf.drop k).length < n := by
      have := length_pos_of_ne_nil hbuf
      rw [length_drop]
      omega
    obtain ⟨ok, s', xs', fs', hrun, hturn', hdone⟩ :=
      ih hturn.linked hturn.full hend2 hlt
    refine ⟨ok, s', xs', fs', ?_, hturn.trans hturn', ?_⟩
    · simp only [bind_eq_bind, htarget, bind_some, hfill, hrun]
    cases ok with
    | true =>
      obtain ⟨hcont', hlen', -⟩ := hdone
      refine ⟨?_, hlen'.trans hlen, fun h => absurd h hbuf⟩
      rw [hcont', hcont, append_assoc, take_append_drop]
    | false => exact hdone

lemma putLoop_tail (hs : Linked cfg s (ys ++ [(q, c)]) fs) (hf : Full (ys ++ [(q, c)]))
    (hn : buf.length + 1 < n) : ∃ ok s' xs' fs', putLoop cfg n .tail buf s = some (ok, s') ∧
      Turn cfg s (ys ++ [(q, c)]) fs s' xs' fs' ∧ PutDone cfg s (ys ++ [(q, c)]) buf s' xs' ok := by
  cases n with
  | zero => omega
  | succ n =>
    by_cases hbuf : buf = []
    · refine ⟨true, s, _, fs, ?_, ⟨hs, hf, .refl _ _⟩, ?_, rfl, fun _ => rfl⟩
      · rw [putLoop, if_pos hbuf]
      · rw [hbuf, append_nil]
    have hc : c.start < c.stop ∧ c.stop ≤ DBUF_SIZE := hf (q, c) (by simp)
    have htail : s.dyn.tail = some q := hs.tail q (by simp)
    have htarget : target cfg .tail s = some (some q, s) := by
      rw [target]
      simp only [bind_eq_bind, deref, htail, bind_some]
    obtain ⟨s1, hfill, hlinked, hdyn, hkeeps⟩ := fill_spec buf hs
    generalize hk : min (DBUF_SIZE - c.stop) buf.length = k at hfill hlinked
    have hfull : Full (ys ++ [(q, c.put (buf.take k))]) := by
      intro x hx
      rcases mem_append.mp hx with hx | hx
      · exact hf x (mem_append_left _ hx)
      obtain rfl := mem_singleton.mp hx
      have htake : (buf.take k).length = k := by
        rw [length_take]
        omega
      simp only [put, htake]
      omega
    have hcont : contents (ys ++ [(q, c.put (buf.take k))]) =
        contents (ys ++ [(q, c)]) ++ buf.take k := by
      simp only [contents_append, contents_cons, contents_nil, append_nil,
        bytes_put hc.1.le, append_assoc]
    have hturn : Turn cfg s (ys ++ [(q, c)]) fs s1 (ys ++ [(q, c.put (buf.take k))]) fs := by
      refine ⟨hlinked, hfull, hkeeps.mono (refl _) ?_⟩
      rw [addrs_append, addrs_append]
      exact refl _
    obtain ⟨ok, s', xs', fs', hrun, hturn', hdone⟩ :=
      putLoop_spec hlinked hfull (.inr ⟨ys, q, _, rfl, rfl⟩)
        (by rw [length_drop]; omega : (buf.drop k).length < n)
    refine ⟨ok, s', xs', fs', ?_, hturn.trans hturn', ?_⟩
    · rw [putLoop, if_neg hbuf]
      simp only [bind_eq_bind, htarget, bind_some, hfill, hrun]
    cases ok with
    | true =>
      obtain ⟨hcont', hlen', -⟩ := hdone
      refine ⟨?_, by rw [hlen', hdyn], fun h => absurd h hbuf⟩
      rw [hcont', hcont, append_assoc, take_append_drop]
    | false => exact hdone

end Back

end Ircu.Dbuf
