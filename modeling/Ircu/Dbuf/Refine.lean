import Mathlib.Data.List.TakeWhile
import Ircu.Dbuf.Chain

/-!
The receive queues behave as queues of bytes.

The abstract model of a queue is a list of bytes, and `Queue.Step` says what each
operation does to it and returns. `Holds` relates a queue in memory to its bytes,
and each operation keeps it (`Op.run_spec`). All queues share the pool, so the
invariant of the whole (`Good`) also keeps their blocks apart; a step on one of
them leaves the others as they are (`Good.step`).
-/

namespace Ircu.Dbuf

open Heap List Option Function Nat

/-! ### Queues of bytes -/

def inLine (c : UInt8) : Bool := !isEol c

def lineIn (bs : List UInt8) : Option (List UInt8) :=
  let part := bs.takeWhile inLine
  if part.length < bs.length then some part else none

/-- A line of at most `length` bytes taken from a queue, empty if there is none,
and the queue afterwards. Line ends at the front are dropped before and after. -/
def Queue.getmsg (length : ℕ) (q : List UInt8) : List UInt8 × List UInt8 :=
  let q := q.dropWhile isEol
  match lineIn (q.take length) with
  | none => ([], q)
  | some line => (line, (q.drop line.length).dropWhile isEol)

/-- `dbuf_flood_length`, at the start of a line or in a tag section. -/
def Queue.floodLoop : Bool → Bool → List UInt8 → ℕ
  | _, _, [] => 0
  | atLineStart, inTags, c :: q =>
    if atLineStart && c = ch '@' then floodLoop false true q
    else if !atLineStart && inTags then
      if c = ch ' ' then floodLoop false false q
      else if isEol c then floodLoop true false q
      else floodLoop false true q
    else floodLoop (isEol c) false q + 1

/-- `dbuf_flood_length`: the bytes outside of tag sections. -/
def Queue.floodLength (q : List UInt8) : ℕ := floodLoop true false q

inductive Op where
  | put (buf : List UInt8)
  | delete (length : ℕ)
  | get (length : ℕ)
  | map
  | getmsg (length : ℕ)

/-- What an operation returns: success, nothing, bytes, or a block. -/
inductive Out where
  | put (ok : Bool)
  | delete
  | get (bytes : List UInt8)
  | map (block : Option (List UInt8))
  | getmsg (line : List UInt8)
  deriving DecidableEq

/-- **The queue of bytes**: what an operation returns and what it leaves. A put
that fails empties the queue, whose connection is then closed; a map shows some
bytes from the front. -/
inductive Queue.Step : Op → Out → List UInt8 → List UInt8 → Prop
  | put (buf q) : Step (.put buf) (.put true) q (q ++ buf)
  | putFail (buf q) : Step (.put buf) (.put false) q []
  | delete (n q) : Step (.delete n) .delete q (q.drop n)
  | get (n q) : Step (.get n) (.get (q.take n)) q (q.drop n)
  | mapNone : Step .map (.map none) [] []
  | mapSome (block rest) (h : block ≠ []) :
      Step .map (.map (some block)) (block ++ rest) (block ++ rest)
  | getmsg (n q) : Step (.getmsg n) (.getmsg (getmsg n q).1) q (getmsg n q).2

def Op.run (cfg : Surroundings) (s : St) : Op → Option (Out × St)
  | .put buf => (dbufPut cfg buf s).map fun r => (.put r.1, r.2)
  | .delete n => (dbufDelete n s).map fun s => (.delete, s)
  | .get n => (dbufGet n s).map fun r => (.get r.1, r.2)
  | .map => (dbufMap s).map fun block => (.map block, s)
  | .getmsg n => (dbufGetmsg n s).map fun r => (.getmsg r.1, r.2)

/-! ### One queue -/

structure Holds (cfg : Config) (s : St) (q : List UInt8) (xs fs : List (ℕ × Block)) : Prop where
  linked : Linked cfg s xs fs
  full : Full xs
  bytes : contents xs = q
  length : s.dyn.length = q.length
  tail : xs = [] → s.dyn.tail = none

/-- From a queue with the blocks `xs`, the state `s'` is reached, with the bytes
`q'`. -/
def Reaches (cfg : Config) (s : St) (xs fs : List (ℕ × Block)) (s' : St) (q' : List UInt8) : Prop :=
  ∃ xs' fs', Holds cfg s' q' xs' fs' ∧
    Keeps (addrs xs ++ addrs fs) (addrs xs' ++ addrs fs') s.pool s'.pool

section One

variable {cfg : Config} {s : St} {q : List UInt8} {xs fs : List (ℕ × Block)}

lemma Full.eq_nil (hf : Full xs) (h : contents xs = []) : xs = [] := by
  cases xs with
  | nil => rfl
  | cons x xs =>
    have hx := hf x (by simp)
    have hlen := congrArg List.length h
    rw [contents_cons, length_append, Block.length_bytes, length_nil] at hlen
    omega

lemma Holds.eq_nil_iff (h : Holds cfg s q xs fs) : xs = [] ↔ q = [] := by
  constructor
  · rintro rfl
    exact h.bytes.symm
  · intro hq
    exact h.full.eq_nil (h.bytes.trans hq)

lemma Holds.length_eq_zero (h : Holds cfg s q xs fs) : s.dyn.length = 0 ↔ xs = [] := by
  rw [h.length, length_eq_zero_iff, h.eq_nil_iff]

lemma Holds.reaches (h : Holds cfg s q xs fs) : Reaches cfg s xs fs s q :=
  ⟨xs, fs, h, .refl _ _⟩

lemma dbufDelete_spec (h : Holds cfg s q xs fs) (n) :
    ∃ s', dbufDelete n s = some s' ∧ Reaches cfg s xs fs s' (q.drop n) := by
  have hlen : s.dyn.length = (contents xs).length := by rw [h.bytes, h.length]
  obtain ⟨s', xs', fs', hrun, hturn, hcont, hlen', htail⟩ :=
    deleteLoop_spec h.linked h.full hlen (by omega) (lt_succ_self (min n s.dyn.length))
  have hdrop : contents xs' = q.drop n := by
    rw [hcont, h.bytes, h.length]
    rcases le_total n q.length with hle | hle
    · rw [min_eq_left hle]
    · rw [min_eq_right hle, drop_of_length_le hle, drop_length]
  rw [dbufDelete]
  simp only [bind_eq_bind, hrun, bind_some]
  cases xs' with
  | nil =>
    have hhead : s'.dyn.head = none := hturn.linked.chain
    rw [if_pos hhead]
    have hl := hturn.linked
    exact ⟨_, rfl, [], fs', ⟨⟨hl.chain, by simp, hl.free, hl.nodup, hl.count, hl.pool⟩, hturn.full,
      hdrop, by rw [← hdrop]; rfl, fun _ => rfl⟩, hturn.keeps⟩
  | cons x xs' =>
    have hhead : s'.dyn.head = some x.1 := hturn.linked.chain.1
    rw [hhead]
    exact ⟨s', rfl, _, fs', ⟨hturn.linked, hturn.full, hdrop, by rw [hlen', hdrop], by simp⟩,
      hturn.keeps⟩

lemma dbufMap_spec (h : Holds cfg s q xs fs) : (q = [] ∧ dbufMap s = some none) ∨
      ∃ block rest, block ≠ [] ∧ q = block ++ rest ∧ dbufMap s = some (some block) := by
  cases xs with
  | nil => exact .inl ⟨h.bytes.symm, by rw [dbufMap, if_pos (h.length_eq_zero.mpr rfl)]⟩
  | cons x xs =>
    obtain ⟨p, b⟩ := x
    have hb : b.start < b.stop ∧ b.stop ≤ DBUF_SIZE := h.full (p, b) (by simp)
    refine .inr ⟨b.bytes, contents xs, ?_, by rw [← h.bytes, contents_cons], ?_⟩
    · intro hnil
      have := b.length_bytes
      rw [hnil, length_nil] at this
      omega
    · rw [dbufMap, if_neg (by rw [h.length_eq_zero]; simp), h.linked.head_eq]
      simp only [bind_eq_bind, bind_some, h.linked.block_head]

lemma getLoop_spec {n length} (moved : List UInt8) (h : Holds cfg s q xs fs) (hn : length < n) :
    ∃ s', getLoop n length moved s = some (moved ++ q.take length, s') ∧
      Reaches cfg s xs fs s' (q.drop length) := by
  induction n generalizing s q xs fs length moved with
  | zero => omega
  | succ n ih =>
    by_cases h0 : length = 0
    · subst h0
      exact ⟨s, by rw [getLoop, if_pos rfl, take_zero, append_nil], h.reaches⟩
    rw [getLoop, if_neg h0]
    rcases dbufMap_spec h with ⟨rfl, hmap⟩ | ⟨block, rest, hblock, rfl, hmap⟩
    · simp only [bind_eq_bind, hmap, bind_some, take_nil, append_nil, drop_nil]
      exact ⟨s, rfl, h.reaches⟩
    have hpos := length_pos_of_ne_nil hblock
    obtain ⟨s1, hdel, xs1, fs1, hholds, hkeeps⟩ := dbufDelete_spec h (min block.length length)
    obtain ⟨s', hrun, xs', fs', hholds', hkeeps'⟩ :=
      ih (moved ++ block.take (min block.length length)) hholds
        (by omega : length - min block.length length < n)
    have hlen : min block.length length + (length - min block.length length) = length := by omega
    refine ⟨s', ?_, xs', fs', ?_, hkeeps.trans hkeeps'⟩
    · have htake : block.take (min block.length length) =
          (block ++ rest).take (min block.length length) :=
        (take_append_of_le_length (min_le_left _ _)).symm
      simp only [bind_eq_bind, hmap, bind_some, hdel, hrun, append_assoc]
      rw [htake, ← take_add, hlen]
    · rwa [drop_drop, hlen] at hholds'

lemma dbufFlush_spec (h : Holds cfg s q xs fs) :
    ∃ s', dbufFlush s = some s' ∧ Reaches cfg s xs fs s' (q.dropWhile isEol) := by
  rw [dbufFlush]
  cases xs with
  | nil =>
    obtain rfl : q = [] := h.bytes.symm
    rw [show s.dyn.head = none from h.linked.chain]
    exact ⟨s, rfl, h.reaches⟩
  | cons x xs =>
    obtain ⟨p, b⟩ := x
    have hb : b.start < b.stop ∧ b.stop ≤ DBUF_SIZE := h.full (p, b) (by simp)
    have hlen : s.dyn.length = (contents ((p, b) :: xs)).length := by rw [h.bytes, h.length]
    obtain ⟨s', xs', fs', hrun, hturn, hcont, hlen', htail⟩ :=
      flushLoop_spec (n := s.dyn.length + 1) h.linked h.full hlen (by omega)
    rw [h.bytes] at hcont
    rw [h.linked.head_eq]
    simp only [bind_eq_bind, h.linked.block_head, bind_some, if_pos hb.1, hrun]
    exact ⟨s', rfl, xs', fs', ⟨hturn.linked, hturn.full, hcont, by rw [hlen', hcont], htail⟩,
      hturn.keeps⟩

lemma lineIn_append_left {a} (b)
    (h : (a.takeWhile inLine).length < a.length) : lineIn (a ++ b) = some (a.takeWhile inLine) := by
  have htake : (a ++ b).takeWhile inLine = a.takeWhile inLine := by
    rw [takeWhile_append, if_neg h.ne]
  rw [lineIn, htake, length_append]
  exact if_pos (by omega)

lemma lineIn_append_right {a : List UInt8} (b : List UInt8) (h : ∀ c ∈ a, inLine c = true) :
    lineIn (a ++ b) = (lineIn b).map (a ++ ·) := by
  rw [lineIn, lineIn, takeWhile_append_of_pos h, length_append, length_append]
  split_ifs with h1 h2 h2
  · rfl
  · omega
  · omega
  · rfl

/-- **The search for a line end across the blocks.** -/
lemma scanLoop_spec {p n length : ℕ} {copied : List UInt8} {xs : List (ℕ × Block)}
    (hs : Seg Block.next s.pool.heap (some p) xs none) (hn : xs.length < n) :
    scanLoop s n p length copied =
      some ((lineIn ((contents xs).take length)).map (copied ++ ·)) := by
  induction n generalizing p length copied xs with
  | zero => omega
  | succ n ih =>
    by_cases h0 : length = 0
    · rw [scanLoop, h0]
      rfl
    cases xs with
    | nil => cases hs
    | cons x xs =>
      obtain ⟨p', b⟩ := x
      obtain ⟨hp, hb, hrest⟩ := hs
      obtain rfl : p = p' := some.inj hp
      have hsplit : (contents ((p, b) :: xs)).take length =
          b.bytes.take length ++ (contents xs).take (length - b.bytes.length) := by
        rw [contents_cons, take_append]
      rw [scanLoop, if_neg h0, hsplit]
      simp only [bind_eq_bind, St.block, hb, bind_some]
      split_ifs with hfound
      · rw [lineIn_append_left _ hfound]
        rfl
      -- the whole part of this block is copied
      have hpart : (b.bytes.take length).takeWhile (fun c => !isEol c) = b.bytes.take length :=
        (List.takeWhile_prefix _).eq_of_length_le (not_lt.mp hfound)
      have hall : ∀ c ∈ b.bytes.take length, inLine c = true :=
        takeWhile_eq_self_iff.mp hpart
      rw [lineIn_append_right _ hall, hpart]
      cases xs with
      | nil =>
        rw [show b.next = none from hrest]
        simp [lineIn]
      | cons y xs =>
        have hnext : b.next = some y.1 := hrest.1
        rw [hnext]
        dsimp only
        rw [ih (hnext ▸ hrest) (by simpa using hn), Option.map_map, List.length_take,
          show length - min length b.bytes.length = length - b.bytes.length by omega]
        congr 2
        funext l
        exact append_assoc _ _ _

variable (h : Holds cfg s q xs fs)

include h

lemma dbufGetmsg_spec (n) : ∃ s', dbufGetmsg n s = some ((Queue.getmsg n q).1, s') ∧
      Reaches cfg s xs fs s' (Queue.getmsg n q).2 := by
  obtain ⟨s1, hflush, xs1, fs1, hholds1, hkeeps1⟩ := dbufFlush_spec h
  rw [dbufGetmsg]
  simp only [bind_eq_bind, hflush, bind_some]
  cases xs1 with
  | nil =>
    have hq : q.dropWhile isEol = [] := hholds1.bytes.symm
    have hmsg : Queue.getmsg n q = ([], []) := by
      rw [Queue.getmsg, hq, take_nil]
      rfl
    rw [if_pos (.inl hholds1.linked.chain), hmsg]
    rw [hq] at hholds1
    exact ⟨s1, rfl, [], fs1, hholds1, hkeeps1⟩
  | cons x xs1 =>
    obtain ⟨p, b⟩ := x
    have hb : b.start < b.stop ∧ b.stop ≤ DBUF_SIZE := hholds1.full (p, b) (by simp)
    have hne : ¬ (s1.dyn.head = none ∨ s1.dyn.length = 0) := by
      rw [hholds1.linked.head_eq, hholds1.length_eq_zero]
      simp
    have hscan : scanLoop s1 (s1.pool.heap.next + 1) p (min n s1.dyn.length) [] =
        some ((lineIn ((contents ((p, b) :: xs1)).take (min n s1.dyn.length))).map ([] ++ ·)) :=
      scanLoop_spec (hholds1.linked.head_eq ▸ hholds1.linked.chain)
        (lt_succ_of_le hholds1.linked.length_le)
    have htake : (q.dropWhile isEol).take (min n s1.dyn.length) = (q.dropWhile isEol).take n := by
      rw [hholds1.length]
      rcases le_total n (q.dropWhile isEol).length with hle | hle
      · rw [min_eq_left hle]
      · rw [min_eq_right hle, take_length, take_of_length_le hle]
    rw [hholds1.bytes, htake] at hscan
    rw [if_neg hne, hholds1.linked.head_eq]
    simp only [bind_some, hholds1.linked.block_head, if_pos hb.1, hscan, Queue.getmsg]
    cases hline : lineIn ((q.dropWhile isEol).take n) with
    | none => exact ⟨s1, rfl, _, fs1, hholds1, hkeeps1⟩
    | some line =>
      obtain ⟨s2, hdel, xs2, fs2, hholds2, hkeeps2⟩ := dbufDelete_spec hholds1 line.length
      obtain ⟨s3, hflush3, xs3, fs3, hholds3, hkeeps3⟩ := dbufFlush_spec hholds2
      refine ⟨s3, ?_, xs3, fs3, hholds3, (hkeeps1.trans hkeeps2).trans hkeeps3⟩
      simp only [map_some, nil_append, hdel, bind_some, hflush3]

lemma Holds.of_put {buf : List UInt8} {s'} {xs' fs' : List (ℕ × Block)} {ok}
    (hturn : Turn cfg s xs fs s' xs' fs')
    (hdone : PutDone cfg
      { s with dyn := { s.dyn with length := uadd s.dyn.length buf.length } } xs buf
      s' xs' ok) :
    Holds cfg s' (if ok then q ++ buf else []) xs' fs' := by
  cases ok with
  | true =>
    obtain ⟨hcont, hlen, hnil⟩ := hdone
    rw [h.bytes] at hcont
    have hlt := hturn.linked.length_lt hturn.full
    rw [hcont, length_append] at hlt
    refine ⟨hturn.linked, hturn.full, hcont, ?_, fun hxs => ?_⟩
    · rw [hlen]
      rw [if_pos rfl, length_append, h.length, uadd, mod_eq_of_lt hlt]
    have hboth : q = [] ∧ buf = [] := by
      rw [hxs] at hcont
      exact append_eq_nil_iff.mp hcont.symm
    rw [hnil hboth.2]
    exact h.tail (h.eq_nil_iff.mpr hboth.1)
  | false =>
    obtain ⟨rfl, hdyn, -⟩ := hdone
    exact ⟨hturn.linked, hturn.full, rfl, by rw [hdyn]; rfl, fun _ => by rw [hdyn]⟩

lemma dbufPut_spec (buf) : ∃ ok s', dbufPut cfg buf s = some (ok, s') ∧
      Reaches cfg s xs fs s' (if ok then q ++ buf else []) ∧
      (ok = false → cfg.bufferpool ≤ s'.pool.allocCount * DBUF_SIZE) := by
  let s0 : St := { s with dyn := { s.dyn with length := uadd s.dyn.length buf.length } }
  have hs0 : Linked cfg s0 xs fs := h.linked.setLength _
  have hput : ∃ ok s' xs' fs', dbufPut cfg buf s = some (ok, s') ∧ Turn cfg s0 xs fs s' xs' fs' ∧
      PutDone cfg s0 xs buf s' xs' ok := by
    rw [dbufPut]
    by_cases hzero : s.dyn.length = 0
    · have hxs := h.length_eq_zero.mp hzero
      rw [if_pos hzero]
      exact putLoop_spec hs0 h.full (.inl ⟨rfl, hxs⟩) (by omega)
    have hxs : xs ≠ [] := fun hxs => hzero (h.length_eq_zero.mpr hxs)
    obtain ⟨ys, ⟨p, c⟩, rfl⟩ := (eq_nil_or_concat' xs).resolve_left hxs
    rw [if_neg hzero]
    have hn : buf.length + 1 < buf.length + 2 := by omega
    exact putLoop_tail hs0 h.full hn
  obtain ⟨ok, s', xs', fs', hrun, hturn, hdone⟩ := hput
  refine ⟨ok, s', hrun, ⟨xs', fs', h.of_put ⟨hturn.linked, hturn.full, hturn.keeps⟩ hdone,
    hturn.keeps⟩, ?_⟩
  rintro rfl
  exact hdone.2.2

/-- **Each operation does what the queue of bytes does**, and leaves the blocks
of other queues alone. A put only fails when the pool is used up. -/
theorem Op.run_spec (op) : ∃ out s' q', op.run cfg s = some (out, s') ∧ Queue.Step op out q q' ∧
      Reaches cfg s xs fs s' q' ∧
      (out = .put false → cfg.bufferpool ≤ s'.pool.allocCount * DBUF_SIZE) := by
  cases op with
  | put buf =>
    obtain ⟨ok, s', hrun, hreach, hpool⟩ := dbufPut_spec h buf
    refine ⟨.put ok, s', _, by rw [Op.run, hrun]; rfl, ?_, hreach, fun hout => hpool ?_⟩
    · cases ok with
      | true => exact .put buf q
      | false => exact .putFail buf q
    · cases hout
      rfl
  | delete n =>
    obtain ⟨s', hrun, hreach⟩ := dbufDelete_spec h n
    exact ⟨.delete, s', _, by rw [Op.run, hrun]; rfl, .delete n q, hreach, by simp⟩
  | get n =>
    obtain ⟨s', hrun, hreach⟩ := getLoop_spec [] h (lt_succ_self n)
    exact ⟨.get (q.take n), s', _, by rw [Op.run, dbufGet, hrun]; rfl, .get n q, hreach, by simp⟩
  | map =>
    rcases dbufMap_spec h with ⟨rfl, hmap⟩ | ⟨block, rest, hblock, rfl, hmap⟩
    · exact ⟨.map none, s, [], by rw [Op.run, hmap]; rfl, .mapNone, h.reaches, by simp⟩
    · exact ⟨.map (some block), s, _, by rw [Op.run, hmap]; rfl, .mapSome block rest hblock,
        h.reaches, by simp⟩
  | getmsg n =>
    obtain ⟨s', hrun, hreach⟩ := dbufGetmsg_spec h n
    exact ⟨.getmsg (Queue.getmsg n q).1, s', _, by rw [Op.run, hrun]; rfl, .getmsg n q, hreach,
      by simp⟩

end One

/-! ### All queues -/

structure Dbufs (ι : Type*) where
  bufs : ι → DBuf
  pool : Pool

section All

variable {ι : Type*} [DecidableEq ι]

/-- An operation on the queue of `i`. -/
def Dbufs.run (cfg : Surroundings) (i : ι) (op : Op) (d : Dbufs ι) : Option (Out × Dbufs ι) :=
  (op.run cfg ⟨d.bufs i, d.pool⟩).map fun r =>
    (r.1, { bufs := Function.update d.bufs i r.2.dyn, pool := r.2.pool })

def Dbufs.runAll (cfg : Surroundings) : List (ι × Op) → Dbufs ι → Option (List Out × Dbufs ι)
  | [], d => some ([], d)
  | (i, op) :: ops, d =>
    (d.run cfg i op).bind fun r =>
      (r.2.runAll cfg ops).map fun r' => (r.1 :: r'.1, r'.2)

def Dbufs.init : Dbufs ι :=
  { bufs := fun _ => { length := 0, head := none, tail := none }
    pool := { heap := Heap.empty, freeList := none, allocCount := 0 } }

inductive Queue.Run : List (ι × Op) → List Out → (ι → List UInt8) → (ι → List UInt8) → Prop
  | nil (q) : Run [] [] q q
  | cons {i op out q b ops outs q'} (hstep : Step op out (q i) b)
      (hrun : Run ops outs (Function.update q i b) q') : Run ((i, op) :: ops) (out :: outs) q q'

/-- The queues hold the bytes `q`, each in blocks of its own. -/
def Good (cfg : Config) (d : Dbufs ι) (q : ι → List UInt8) : Prop :=
  ∃ (chains : ι → List (ℕ × Block)) (fs : List (ℕ × Block)),
    (∀ i, Holds cfg ⟨d.bufs i, d.pool⟩ (q i) (chains i) fs) ∧
    ∀ i j, i ≠ j → List.Disjoint (addrs (chains i)) (addrs (chains j))

variable {cfg : Config} {d : Dbufs ι} {q : ι → List UInt8}

lemma Holds.frame {dyn dyn' p p' q q'}
    {xs fs ys own own' fs' : List (ℕ × Block)} (h : Holds cfg ⟨dyn, p⟩ q xs fs)
    (h' : Holds cfg ⟨dyn', p'⟩ q' ys fs')
    (hkeeps : Keeps (addrs own ++ addrs fs) (addrs own' ++ addrs fs') p p')
    (hdisj : List.Disjoint (addrs xs) (addrs own)) : Holds cfg ⟨dyn, p'⟩ q xs fs' := by
  have hout : ∀ a ∈ addrs xs, a ∉ addrs own ++ addrs fs := by
    intro a ha hmem
    rcases mem_append.mp hmem with hmem | hmem
    · exact hdisj ha hmem
    · exact disjoint_of_nodup_append h.linked.nodup ha hmem
  have hlt : ∀ a ∈ addrs xs, a < p.heap.next := fun a ha => h.linked.chain.lt_next ha
  refine ⟨⟨h.linked.chain.congr fun a ha => hkeeps.keep a (hout a ha) (hlt a ha), h.linked.tail,
    h'.linked.free, ?_, h'.linked.count, h'.linked.pool⟩, h.full, h.bytes, h.length, h.tail⟩
  refine nodup_append'.mpr ⟨(nodup_append'.mp h.linked.nodup).1,
    (nodup_append'.mp h'.linked.nodup).2.1, fun a ha hmem => ?_⟩
  rcases hkeeps.within a (mem_append_right _ hmem) with hown | hle
  · exact hout a ha hown
  · exact absurd (hlt a ha) (by omega)

/-- **One operation.** The others' queues stay as they are. -/
theorem Good.step (h : Good cfg d q) (i op) :
    ∃ out d' b, d.run cfg i op = some (out, d') ∧ Queue.Step op out (q i) b ∧
      Good cfg d' (Function.update q i b) ∧ d.pool.allocCount ≤ d'.pool.allocCount ∧
      (out = .put false → cfg.bufferpool ≤ d'.pool.allocCount * DBUF_SIZE) := by
  obtain ⟨chains, fs, hholds, hapart⟩ := h
  obtain ⟨out, s', b, hrun, hstep, ⟨xs', fs', hholds', hkeeps⟩, hpool⟩ := Op.run_spec (hholds i) op
  have hgrow : d.pool.allocCount ≤ s'.pool.allocCount := by
    have hle := hkeeps.grow
    rw [(hholds i).linked.count, hholds'.linked.count] at hle
    exact hle
  refine ⟨out, { bufs := Function.update d.bufs i s'.dyn, pool := s'.pool }, b,
    by rw [Dbufs.run, hrun]; rfl, hstep, ?_, hgrow, hpool⟩
  refine ⟨Function.update chains i xs', fs', fun j => ?_, ?_⟩
  · by_cases hj : j = i
    · subst hj
      simpa using hholds'
    · simp only [update_of_ne hj]
      exact (hholds j).frame hholds' hkeeps (hapart j i hj)
  -- blocks of `i` are old ones of its own or of the free list, or new
  have hfresh : ∀ j, j ≠ i → List.Disjoint (addrs (chains j)) (addrs xs') := by
    intro j hj a ha hmem
    rcases hkeeps.within a (mem_append_left _ hmem) with hown | hle
    · rcases mem_append.mp hown with hown | hown
      · exact hapart j i hj ha hown
      · exact disjoint_of_nodup_append (hholds j).linked.nodup ha hown
    · have hlt := (hholds j).linked.chain.lt_next ha
      dsimp only at hlt hle
      omega
  intro j k hjk
  by_cases hj : j = i
  · subst hj
    rw [update_self, update_of_ne hjk.symm]
    exact (hfresh k hjk.symm).symm
  by_cases hk : k = i
  · subst hk
    rw [update_self, update_of_ne hjk]
    exact hfresh j hjk
  rw [update_of_ne hj, update_of_ne hk]
  exact hapart j k hjk

lemma Good.runAll (ops) : ∀ {d : Dbufs ι} {q : ι → List UInt8}, Good cfg d q →
      ∃ outs d' q', d.runAll cfg ops = some (outs, d') ∧ Queue.Run ops outs q q' ∧
        Good cfg d' q' ∧ d.pool.allocCount ≤ d'.pool.allocCount ∧
        (.put false ∈ outs → cfg.bufferpool ≤ d'.pool.allocCount * DBUF_SIZE) := by
  induction ops with
  | nil =>
    intro d q h
    exact ⟨[], d, q, rfl, .nil q, h, le_refl _, by simp⟩
  | cons x ops ih =>
    intro d q h
    obtain ⟨i, op⟩ := x
    obtain ⟨out, d1, b, hrun, hstep, hgood, hgrow, hpool⟩ := h.step i op
    obtain ⟨outs, d', q', hruns, hsteps, hgood', hgrow', hpool'⟩ := ih hgood
    refine ⟨out :: outs, d', q', ?_, .cons hstep hsteps, hgood', hgrow.trans hgrow', ?_⟩
    · rw [Dbufs.runAll, hrun, bind_some, hruns]
      rfl
    intro hmem
    rcases mem_cons.mp hmem with hmem | hmem
    · exact (hpool hmem.symm).trans (mul_le_mul_right _ hgrow')
    · exact hpool' hmem

omit [DecidableEq ι] in
lemma good_init (cfg : Config) : Good cfg (Dbufs.init (ι := ι)) fun _ => [] := by
  refine ⟨fun _ => [], [], fun i => ?_, by simp⟩
  refine ⟨⟨seg_nil.mpr rfl, by simp, seg_nil.mpr rfl, by simp, rfl, ?_⟩, by simp [Full], rfl, rfl,
    fun _ => rfl⟩
  simp [Dbufs.init, DBUF_SIZE]

/-- **The receive queues are queues of bytes.** Any sequence of operations on any queues runs
through, returns what the queues of bytes return, and leaves each queue with its bytes in its
blocks. -/
theorem dbuf_refines (cfg : Config) (ops : List (ι × Op)) :
    ∃ outs d q, Dbufs.runAll cfg ops Dbufs.init = some (outs, d) ∧
      Queue.Run ops outs (fun _ => []) q ∧ Good cfg d q ∧
      (.put false ∈ outs → cfg.bufferpool ≤ d.pool.allocCount * DBUF_SIZE) := by
  obtain ⟨outs, d, q, hrun, hsteps, hgood, -, hpool⟩ := Good.runAll ops (good_init cfg)
  exact ⟨outs, d, q, hrun, hsteps, hgood, hpool⟩

end All

/-- A pool of one block, which is full. The write to the connection fails and the queue is cleared
while a byte is being put to it: the block is used again, but it is linked to itself and not to the
queue. The put succeeds, and the byte is gone. -/
theorem put_to_cleared :
    (Dbufs.runAll ⟨2048, true, true, by decide⟩
        [((), .put (List.replicate 2048 97)), ((), .put [98]), ((), .get 1)] Dbufs.init).map
      (fun r => (r.1, r.2.bufs ())) =
        some ([.put true, .put true, .get []], { length := 0, head := none, tail := some 0 }) := by
  decide +kernel

end Ircu.Dbuf
