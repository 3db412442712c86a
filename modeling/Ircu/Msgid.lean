import Mathlib.Data.List.Nodup
import Mathlib.Data.List.Range
import Ircu.Chattr

/-!
Message identifiers (`msgid.c`).

An identifier is the numeric of the server and a counter in base 62. The counter has
64 bits; `msgid_init` sets it from the clock, with 20 bits for the sequence, and
`msgid_new` counts up from there. A start forgets everything about the one before it, so
whether identifiers repeat depends on how far the clock has gone since then.
-/

namespace Ircu.Msgid

open List Int

/-! ### The generator -/

def msgidDigits : List UInt8 :=
  str "0123456789ABCDEFGHIJKLMNOPQRSTUVWXYZabcdefghijklmnopqrstuvwxyz"

def MSGID_BASE : ℕ := 62
def MSGID_SEQ_BITS : ℕ := 20
def MSGIDLEN : ℕ := 64

/-- What `msgid.c` keeps: the numeric of the server and the counter. -/
structure Generator where
  numeric : List UInt8
  counter : ℕ

def msgidInit (numeric : List UInt8) (now : ℤ) : Generator where
  numeric := numeric.take 15
  counter := (now % 2 ^ 64).toNat * 2 ^ MSGID_SEQ_BITS % 2 ^ 64

/-- The loop that writes the digits, the last one first, with `room` left in the buffer. -/
def digitLoop : ℕ → ℕ → List UInt8
  | 0, _ => []
  | room + 1, n =>
    msgidDigits.getD (n % MSGID_BASE) 0 ::
      if 0 < n / MSGID_BASE then digitLoop room (n / MSGID_BASE) else []

def ident (numeric : List UInt8) (n : ℕ) : List UInt8 :=
  (numeric ++ (digitLoop 24 n).reverse).take MSGIDLEN

def msgidNew (g : Generator) : Generator × List UInt8 :=
  let counter := (g.counter + 1) % 2 ^ 64
  ({ g with counter }, ident g.numeric counter)

/-- Several calls of `msgid_new` in a row. -/
def msgidNews : ℕ → Generator → List (List UInt8)
  | 0, _ => []
  | k + 1, g => (msgidNew g).2 :: msgidNews k (msgidNew g).1

/-- What a server gives out that is started again and again: for each start, the time
and the number of identifiers that are asked for before the next one. -/
def issued (numeric : List UInt8) : List (ℤ × ℕ) → List (List UInt8)
  | [] => []
  | (now, k) :: starts => msgidNews k (msgidInit numeric now) ++ issued numeric starts

/-! ### Digits -/

def readDigits (s : List UInt8) : ℕ := s.foldr (fun c v => msgidDigits.idxOf c + 62 * v) 0

lemma idxOf_digit {d} (hd : d < 62) : msgidDigits.idxOf (msgidDigits.getD d 0) = d := by
  have h : ∀ d : Fin 62, msgidDigits.idxOf (msgidDigits.getD d 0) = d := by decide +kernel
  exact h ⟨d, hd⟩

lemma readDigits_digitLoop {room n} (hn : n < 62 ^ room) : readDigits (digitLoop room n) = n := by
  induction room generalizing n with
  | zero =>
    have h0 : n = 0 := by simpa using hn
    rw [h0]
    rfl
  | succ room ih =>
    have hdigit : msgidDigits.idxOf (msgidDigits.getD (n % 62) 0) = n % 62 :=
      idxOf_digit (Nat.mod_lt n (by decide))
    have hquot : n / 62 < 62 ^ room := by
      rw [pow_succ] at hn
      exact Nat.div_lt_of_lt_mul (by rwa [mul_comm] at hn)
    rw [digitLoop, MSGID_BASE, readDigits, foldr_cons]
    by_cases hpos : 0 < n / 62
    · rw [if_pos hpos]
      have hrest : readDigits (digitLoop room (n / 62)) = n / 62 := ih hquot
      rw [readDigits] at hrest
      omega
    · rw [if_neg hpos, foldr_nil]
      omega

lemma length_digitLoop (room n : ℕ) : (digitLoop room n).length ≤ room := by
  induction room generalizing n with
  | zero => exact le_rfl
  | succ room ih =>
    rw [digitLoop, length_cons]
    split_ifs
    · exact Nat.succ_le_succ (ih _)
    · simp

variable {numeric : List UInt8}

lemma ident_injective (hlen : numeric.length ≤ 15) {m n}
    (hm : m < 2 ^ 64) (hn : n < 2 ^ 64) (h : ident numeric m = ident numeric n) : m = n := by
  have hwhole : ∀ k, ident numeric k = numeric ++ (digitLoop 24 k).reverse := by
    intro k
    have := length_digitLoop 24 k
    rw [ident, take_of_length_le]
    rw [length_append, length_reverse, MSGIDLEN]
    omega
  rw [hwhole, hwhole, append_cancel_left_eq, reverse_inj] at h
  have hread := congrArg readDigits h
  have hroom : (2 : ℕ) ^ 64 < 62 ^ 24 := by norm_num
  rwa [readDigits_digitLoop (hm.trans hroom), readDigits_digitLoop (hn.trans hroom)] at hread

/-! ### One start -/

lemma msgidNews_eq (k : ℕ) (g) (hg : g.counter < 2 ^ 64) : msgidNews k g =
      (List.range' 1 k).map fun i => ident g.numeric ((g.counter + i) % 2 ^ 64) := by
  induction k generalizing g with
  | zero => rfl
  | succ k ih =>
    have hnext : (msgidNew g).1.counter < 2 ^ 64 := Nat.mod_lt _ (by norm_num)
    have hshift : List.range' (1 + 1) k = (List.range' 1 k).map (1 + ·) :=
      (map_add_range' 1 k 1).symm
    rw [msgidNews, ih _ hnext, range'_succ, map_cons, hshift, map_map]
    refine cons_eq_cons.mpr ⟨rfl, map_congr_left fun i _ => ?_⟩
    change ident g.numeric (((g.counter + 1) % 2 ^ 64 + i) % 2 ^ 64) = _
    rw [Nat.mod_add_mod, Function.comp_apply, add_assoc]

/-- The counter behind the start of a server, after `i` identifiers. -/
def counterAfter (now : ℤ) (i : ℕ) : ℕ := ((msgidInit [] now).counter + i) % 2 ^ 64

lemma counterAfter_lt (now i) : counterAfter now i < 2 ^ 64 :=
  Nat.mod_lt _ (by norm_num)

lemma counterAfter_eq (now i) : (counterAfter now i : ℤ) = (now * 2 ^ 20 + i) % 2 ^ 64 := by
  rw [counterAfter, msgidInit, MSGID_SEQ_BITS]
  push_cast
  rw [toNat_of_nonneg (emod_nonneg now (by norm_num))]
  omega

lemma msgidNews_msgidInit (numeric now) (k : ℕ) : msgidNews k (msgidInit numeric now) =
      (List.range' 1 k).map fun i => ident (numeric.take 15) (counterAfter now i) :=
  msgidNews_eq k _ (Nat.mod_lt _ (by norm_num))

lemma mem_msgidNews {id now k} : id ∈ msgidNews k (msgidInit numeric now) ↔
      ∃ i, 1 ≤ i ∧ i ≤ k ∧ id = ident (numeric.take 15) (counterAfter now i) := by
  rw [msgidNews_msgidInit, mem_map]
  constructor
  · rintro ⟨i, hi, rfl⟩
    rw [mem_range'_1] at hi
    exact ⟨i, hi.1, by omega, rfl⟩
  · rintro ⟨i, hlo, hhi, rfl⟩
    exact ⟨i, mem_range'_1.mpr ⟨hlo, by omega⟩, rfl⟩

lemma ident_counterAfter_inj {t t' i j} :
    ident (numeric.take 15) (counterAfter t i) = ident (numeric.take 15) (counterAfter t' j) ↔
      counterAfter t i = counterAfter t' j := by
  refine ⟨fun h => ?_, fun h => by rw [h]⟩
  exact ident_injective (length_take_le 15 numeric) (counterAfter_lt t i)
    (counterAfter_lt t' j) h

lemma nodup_msgidNews {now k} : (msgidNews k (msgidInit numeric now)).Nodup ↔ k ≤ 2 ^ 64 := by
  rw [msgidNews_msgidInit]
  constructor
  · intro hnodup
    by_contra hk
    have h1 : 1 ∈ List.range' 1 k := mem_range'_1.mpr (by omega)
    have h2 : 2 ^ 64 + 1 ∈ List.range' 1 k := mem_range'_1.mpr (by omega)
    have hsame : counterAfter now 1 = counterAfter now (2 ^ 64 + 1) := by
      rw [counterAfter, counterAfter]
      omega
    exact absurd (inj_on_of_nodup_map hnodup h1 h2 (congrArg _ hsame)) (by norm_num)
  · intro hk
    refine List.Nodup.map_on (fun i hi j hj hij => ?_) nodup_range'
    rw [mem_range'_1] at hi hj
    have hcount := ident_counterAfter_inj.mp hij
    rw [counterAfter, counterAfter] at hcount
    omega

/-! ### Start after start -/

/-- How far the clock, and the counter with it, has gone between two starts, on 64 bits. -/
def ahead (t t' : ℤ) : ℕ := ((t' - t) * 2 ^ 20 % 2 ^ 64).toNat

/-- One start is clear of a later one: the clock has gone past everything the first one
gave out, and the second one does not come round to it again. -/
def Clear (a b : ℤ × ℕ) : Prop :=
  a.2 = 0 ∨ b.2 = 0 ∨ (a.2 ≤ ahead a.1 b.1 ∧ ahead a.1 b.1 + b.2 ≤ 2 ^ 64)

lemma meet_iff_not_clear {a b} (ha : a.2 ≤ 2 ^ 64) (hb : b.2 ≤ 2 ^ 64) :
    (∃ i j, 1 ≤ i ∧ i ≤ a.2 ∧ 1 ≤ j ∧ j ≤ b.2 ∧ counterAfter a.1 i = counterAfter b.1 j) ↔
      ¬ Clear a b := by
  have hahead : (ahead a.1 b.1 : ℤ) = (b.1 - a.1) * 2 ^ 20 % 2 ^ 64 :=
    toNat_of_nonneg (emod_nonneg _ (by norm_num))
  have hcount : ∀ i j, counterAfter a.1 i = counterAfter b.1 j ↔
      (a.1 * 2 ^ 20 + i) % 2 ^ 64 = (b.1 * 2 ^ 20 + j) % 2 ^ 64 := by
    intro i j
    rw [← counterAfter_eq, ← counterAfter_eq, Nat.cast_inj]
  simp only [hcount]
  rw [Clear]
  constructor
  · rintro ⟨i, j, hi, hia, hj, hjb, hij⟩
    omega
  intro hclear
  by_cases hfirst : ahead a.1 b.1 < a.2
  · -- the second start begins within what the first one gave out
    refine ⟨ahead a.1 b.1 + 1, 1, by omega, by omega, le_rfl, by omega, ?_⟩
    omega
  · -- the second start comes round to the beginning of the first one
    refine ⟨1, 2 ^ 64 - ahead a.1 b.1 + 1, le_rfl, by omega, by omega, by omega, ?_⟩
    omega

lemma disjoint_msgidNews {a b} (ha : a.2 ≤ 2 ^ 64) (hb : b.2 ≤ 2 ^ 64) :
    List.Disjoint (msgidNews a.2 (msgidInit numeric a.1))
      (msgidNews b.2 (msgidInit numeric b.1)) ↔ Clear a b := by
  rw [← not_iff_not, ← meet_iff_not_clear ha hb, disjoint_left]
  push Not
  constructor
  · rintro ⟨id, hida, hidb⟩
    obtain ⟨i, hi, hia, rfl⟩ := mem_msgidNews.mp hida
    obtain ⟨j, hj, hjb, hij⟩ := mem_msgidNews.mp hidb
    exact ⟨i, j, hi, hia, hj, hjb, ident_counterAfter_inj.mp hij⟩
  · rintro ⟨i, j, hi, hia, hj, hjb, hij⟩
    exact ⟨_, mem_msgidNews.mpr ⟨i, hi, hia, rfl⟩,
      mem_msgidNews.mpr ⟨j, hj, hjb, ident_counterAfter_inj.mpr hij⟩⟩

lemma issued_eq (numeric starts) :
    issued numeric starts = starts.flatMap fun a => msgidNews a.2 (msgidInit numeric a.1) := by
  induction starts with
  | nil => rfl
  | cons a starts ih =>
    rw [issued, flatMap_cons, ih]

/-- **No identifier is given out twice** exactly if no start gives out more than the
counter has room for and every start is clear of those behind it. -/
theorem issued_nodup_iff (numeric : List UInt8) (starts : List (ℤ × ℕ)) :
    (issued numeric starts).Nodup ↔ (∀ a ∈ starts, a.2 ≤ 2 ^ 64) ∧ starts.Pairwise Clear := by
  rw [issued_eq, nodup_flatMap]
  constructor
  · rintro ⟨hnodup, hpair⟩
    have hroom : ∀ a ∈ starts, a.2 ≤ 2 ^ 64 := fun a ha => nodup_msgidNews.mp (hnodup a ha)
    refine ⟨hroom, hpair.imp_of_mem fun ha hb hdisj => ?_⟩
    exact (disjoint_msgidNews (hroom _ ha) (hroom _ hb)).mp hdisj
  · rintro ⟨hroom, hpair⟩
    refine ⟨fun a ha => nodup_msgidNews.mpr (hroom a ha), hpair.imp_of_mem fun ha hb hclear => ?_⟩
    exact (disjoint_msgidNews (hroom _ ha) (hroom _ hb)).mpr hclear

/-- A server that is started again within the second gives out its first identifier
again, although the clock has not gone back. -/
theorem issued_restart_repeats :
    [1700000000, (1700000000 : ℤ)].Pairwise (· ≤ ·) ∧
      issued (str "AB") [(1700000000, 1), (1700000000, 1)] =
        [str "AB8ABJ00bKr", str "AB8ABJ00bKr"] := by
  decide +kernel

end Ircu.Msgid
