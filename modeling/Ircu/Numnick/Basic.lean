import Ircu.Chattr
import Ircu.ZeroRuns

/-!
Numbers and addresses in the base 64 of `numnicks.c`.

A NICK message carries the address of the user in the form that `iptobase64` writes:
six digits for an IPv4 address, three digits for each group of an IPv6 address, with an
underscore for the run of zero groups that its loop picks. The counter of the loop goes
back to zero only behind a run that is longer than all before it, so the run it picks may
have other groups in it. `base64toip` reads the address back.
-/

namespace Ircu.Numnick

open List

/-! ### Digits -/

def convert2y : List UInt8 :=
  str "ABCDEFGHIJKLMNOPQRSTUVWXYZabcdefghijklmnopqrstuvwxyz0123456789[]"

def convert2n (c : UInt8) : ℕ :=
  if ch '0' ≤ c ∧ c ≤ ch '9' then 52 + (c - ch '0').toNat
  else if ch 'A' ≤ c ∧ c ≤ ch 'Z' then (c - ch 'A').toNat
  else if c = ch '[' then 62
  else if c = ch ']' then 63
  else if ch 'a' ≤ c ∧ c ≤ ch 'z' then 26 + (c - ch 'a').toNat
  else 0

/-- The last `count` digits of a number. -/
def inttobase64 (v : ℕ) : ℕ → List UInt8
  | 0 => []
  | count + 1 => inttobase64 (v / 64) count ++ [convert2y.getD (v % 64) 0]

def base64toint (s : List UInt8) : ℕ := s.foldl (fun i c => (i * 64 + convert2n c) % 2 ^ 32) 0

@[simp] lemma length_inttobase64 (v count : ℕ) : (inttobase64 v count).length = count := by
  induction count generalizing v with
  | zero => rfl
  | succ n ih => simp [inttobase64, ih]

variable {d ii k : ℕ} {acc : List (BitVec 16)}

lemma convert2n_digit (hd : d < 64) : convert2n (convert2y.getD d 0) = d := by
  have h : ∀ d : Fin 64, convert2n (convert2y.getD d 0) = d := by decide +kernel
  exact h ⟨d, hd⟩

lemma digit_ne_underscore (hd : d < 64) : convert2y.getD d 0 ≠ ch '_' := by
  have h : ∀ d : Fin 64, convert2y.getD d 0 ≠ ch '_' := by decide +kernel
  exact h ⟨d, hd⟩

lemma foldl_inttobase64 (v count i : ℕ) (hi : i < 2 ^ 32) :
    (inttobase64 v count).foldl (fun i c => (i * 64 + convert2n c) % 2 ^ 32) i =
      (i * 64 ^ count + v % 64 ^ count) % 2 ^ 32 := by
  induction count generalizing v with
  | zero =>
    rw [inttobase64, foldl_nil, pow_zero, Nat.mod_one, mul_one, add_zero, Nat.mod_eq_of_lt hi]
  | succ n ih =>
    rw [inttobase64, foldl_append, ih]
    simp only [foldl_cons, foldl_nil]
    rw [convert2n_digit (Nat.mod_lt v (by decide))]
    have hv : v % 64 ^ (n + 1) = v / 64 % 64 ^ n * 64 + v % 64 := by
      rw [pow_succ', Nat.mod_mul, mul_comm, add_comm]
    rw [hv, Nat.add_mod, Nat.mod_mul_mod, ← Nat.add_mod]
    congr 1
    ring

lemma base64toint_inttobase64 {v n} (hn : v < 64 ^ n) (hv : v < 2 ^ 32) :
    base64toint (inttobase64 v n) = v := by
  rw [base64toint, foldl_inttobase64 v n 0 (by decide), Nat.zero_mul, Nat.zero_add,
    Nat.mod_eq_of_lt hn, Nat.mod_eq_of_lt hv]

/-! ### Addresses -/

/-- The leading groups that are not zero: the index behind them, with `k` groups to go. -/
def leading (addr : InAddr) : ℕ → ℕ → ℕ
  | 0, ii => ii
  | k + 1, ii => if addr.group ii ≠ 0 then leading addr k (ii + 1) else ii

/-- The loop of the search, with `k` groups to go. -/
def zeroLoop (addr : InAddr) : ℕ → ℕ → ZeroRun → ZeroRun
  | 0, ii, r => r.close ii
  | k + 1, ii, r =>
    zeroLoop addr k (ii + 1) (r.turn addr ii)

def longestRun (addr : InAddr) : ZeroRun :=
  let first := leading addr 8 0
  zeroLoop addr (8 - first) first ⟨first, 0, 0⟩

def groupDigits (addr : InAddr) (ii : ℕ) : List UInt8 := inttobase64 (addr.group ii).toNat 3

/-- The loop that prints the address from the group `ii` on. Each round passes a group at
least, so `8 - ii` rounds are enough. -/
def printRest (addr : InAddr) (r : ZeroRun) : ℕ → ℕ → List UInt8
  | 0, _ => []
  | k + 1, ii =>
    if ii < 8 then
      if ii = r.maxStart ∧ r.maxZeros ≠ 0 then ch '_' :: printRest addr r k (ii + r.maxZeros)
      else groupDigits addr ii ++ printRest addr r k (ii + 1)
    else []

/-- `iptobase64`, for a buffer that is large enough. -/
def iptobase64 (addr : InAddr) (v6_ok : Bool) : List UInt8 :=
  if isIpv4 addr then inttobase64 ((addr.group 6).toNat * 2 ^ 16 + (addr.group 7).toNat) 6
  else if !v6_ok then
    if addr.group 0 = 0x2002 then
      inttobase64 ((addr.group 1).toNat * 2 ^ 16 + (addr.group 2).toNat) 6
    else str "AAAAAA"
  else
    let first := leading addr 8 0
    (List.range first).flatMap (groupDigits addr) ++
      printRest addr (longestRun addr) (8 - first) first

/-- Three digits as an `unsigned short`. -/
def readGroup (c₁ c₂ c₃ : UInt8) : BitVec 16 :=
  (BitVec.ofNat 16 (convert2n c₁) <<< 6 ||| BitVec.ofNat 16 (convert2n c₂)) <<< 6 |||
    BitVec.ofNat 16 (convert2n c₃)

/-- `(25 - strlen(input)) / 3 - pos` in a `size_t`, kept in an `unsigned int`: the number of
groups that an underscore stands for. -/
def elided (len pos : ℕ) : ℕ := ((25 + 2 ^ 64 - len) % 2 ^ 64 / 3 + 2 ^ 64 - pos) % 2 ^ 64 % 2 ^ 32

/-- The loop of `base64toip` on what is left of the input, behind the groups `acc`. It
gives `none` where it reads behind the terminator, or writes behind the address. The terminator
itself may be read as the last digit of a group. -/
def readGroups : List UInt8 → List (BitVec 16) → Option (List (BitVec 16))
  | [], _ => none
  | c :: rest, acc =>
    if c = ch '_' then
      let left := elided (rest.length + 1) acc.length
      if 8 < acc.length + left then none
      else
        let acc := acc ++ List.replicate left 0
        if acc.length < 8 then readGroups rest acc else some acc
    else
      match rest with
      | c₂ :: c₃ :: rest =>
        let acc := acc ++ [readGroup c c₂ c₃]
        if acc.length < 8 then readGroups rest acc else some acc
      | [c₂] =>
        let acc := acc ++ [readGroup c c₂ 0]
        if acc.length < 8 then none else some acc
      | [] => none

def ofGroups (l : List (BitVec 16)) : InAddr := ⟨fun i => l.getD i 0⟩

def noAddr : InAddr := ⟨fun _ => 0⟩

def base64toip (input : List UInt8) : Option InAddr :=
  if input.length = 6 then
    let i := base64toint input
    some (if i ≠ 0 then mapped (BitVec.ofNat 16 (i / 2 ^ 16)) (BitVec.ofNat 16 i) else noAddr)
  else (readGroups input []).map ofGroups

/-! ### What arrives -/

def ofIpv4 (g h : BitVec 16) : InAddr := if g = 0 ∧ h = 0 then noAddr else mapped g h

/-- The address that the other side of a link reads for `addr`. -/
def carried (addr : InAddr) (v6_ok : Bool) : InAddr :=
  if isIpv4 addr then ofIpv4 (addr.group 6) (addr.group 7)
  else if !v6_ok then
    if addr.group 0 = 0x2002 then ofIpv4 (addr.group 1) (addr.group 2) else noAddr
  else (longestRun addr).clear addr

lemma base64toip_pair (g h) :
    base64toip (inttobase64 (g.toNat * 2 ^ 16 + h.toNat) 6) = some (ofIpv4 g h) := by
  have hi : base64toint (inttobase64 (g.toNat * 2 ^ 16 + h.toNat) 6) = g.toNat * 2 ^ 16 + h.toNat :=
    base64toint_inttobase64 (by omega) (by omega)
  have hdiv : (g.toNat * 2 ^ 16 + h.toNat) / 2 ^ 16 = g.toNat := by omega
  have hlow : BitVec.ofNat 16 (g.toNat * 2 ^ 16 + h.toNat) = h := by
    apply BitVec.eq_of_toNat_eq
    rw [BitVec.toNat_ofNat]
    omega
  have hzero : g.toNat * 2 ^ 16 + h.toNat ≠ 0 ↔ ¬(g = 0 ∧ h = 0) := by
    rw [← BitVec.toNat_inj, ← BitVec.toNat_inj]
    simp only [BitVec.ofNat_eq_ofNat, BitVec.toNat_ofNat]
    omega
  rw [base64toip, if_pos (length_inttobase64 _ _)]
  simp only [hi, hdiv, hlow, BitVec.ofNat_toNat, BitVec.setWidth_eq, hzero, ite_not, ofIpv4]

lemma ofNat_shift_or {a} (hd : d < 64) :
    BitVec.ofNat 16 a <<< 6 ||| BitVec.ofNat 16 d = BitVec.ofNat 16 (a * 64 + d) := by
  have hor : a * 64 + d = a <<< 6 ||| d := by
    rw [← Nat.shiftLeft_add_eq_or_of_lt (show d < 2 ^ 6 from hd), Nat.shiftLeft_eq]
  rw [hor]
  apply BitVec.eq_of_toNat_eq
  simp [Nat.shiftLeft_eq]

lemma groupDigits_eq (addr ii) : ∃ c₁ c₂ c₃, groupDigits addr ii = [c₁, c₂, c₃] ∧ c₁ ≠ ch '_' ∧
      readGroup c₁ c₂ c₃ = addr.group ii := by
  have hv := (addr.group ii).isLt
  refine ⟨_, _, _, rfl, digit_ne_underscore (Nat.mod_lt _ (by decide)), ?_⟩
  have hd : ∀ v : ℕ, v % 64 < 64 := fun v => Nat.mod_lt v (by decide)
  rw [readGroup, convert2n_digit (hd _), convert2n_digit (hd _), convert2n_digit (hd _),
    ofNat_shift_or (hd _), ofNat_shift_or (hd _)]
  apply BitVec.eq_of_toNat_eq
  rw [BitVec.toNat_ofNat]
  omega

variable {addr : InAddr} {r : ZeroRun}

/-- The loop of `base64toip` behind its first round. -/
def readMore (input : List UInt8) (acc : List (BitVec 16)) : Option (List (BitVec 16)) :=
  if acc.length < 8 then readGroups input acc else some acc

lemma readMore_digits (l : List ℕ) (tail : List UInt8) (hlen : acc.length + l.length ≤ 8) :
    readMore (l.flatMap (groupDigits addr) ++ tail) acc =
      readMore tail (acc ++ l.map addr.group) := by
  induction l generalizing acc with
  | nil => simp
  | cons i l ih =>
    rw [length_cons] at hlen
    obtain ⟨c1, c2, c3, hd, hne, hgroup⟩ := groupDigits_eq addr i
    have hlen' : (acc ++ [addr.group i]).length + l.length ≤ 8 := by
      rw [length_append, length_singleton]
      omega
    have hround : readMore ((i :: l).flatMap (groupDigits addr) ++ tail) acc =
        readMore (l.flatMap (groupDigits addr) ++ tail) (acc ++ [addr.group i]) := by
      rw [readMore, if_pos (by omega), flatMap_cons, hd]
      simp only [cons_append, nil_append, readGroups, if_neg hne, hgroup]
      rfl
    rw [hround, ih hlen', map_cons, append_assoc, singleton_append]

lemma elided_eq {len pos} (hlen : len ≤ 25) (hpos : pos ≤ (25 - len) / 3) :
    elided len pos = (25 - len) / 3 - pos := by
  rw [elided]
  omega

lemma readMore_underscore {n tail}
    (htail : tail.length = 3 * n) (hacc : acc.length < 8) (hn : acc.length + n ≤ 8) :
    readMore (ch '_' :: tail) acc =
      readMore tail (acc ++ List.replicate (8 - n - acc.length) 0) := by
  have hleft : elided (tail.length + 1) acc.length = 8 - n - acc.length := by
    rw [elided_eq (by omega) (by omega)]
    omega
  have hfits : ¬8 < acc.length + (8 - n - acc.length) := by omega
  rw [readMore, if_pos hacc, readGroups.eq_def]
  simp only [if_true, hleft, if_neg hfits]
  rfl

/-! ### What is sent -/

lemma leading_le (k ii) : leading addr k ii ≤ ii + k := by
  induction k generalizing ii with
  | zero => exact le_rfl
  | succ k ih =>
    rw [leading]
    split
    · exact (ih (ii + 1)).trans (by omega)
    · omega

lemma zeroLoop_within (k) {lo} (h : r.Within lo ii) :
    (zeroLoop addr k ii r).Within lo (ii + k) := by
  induction k generalizing ii r with
  | zero => exact h.close
  | succ k ih =>
    rw [show ii + (k + 1) = ii + 1 + k by omega]
    exact ih h.turn

lemma longestRun_within (addr) : (longestRun addr).Within (leading addr 8 0) 8 := by
  have hle : leading addr 8 0 ≤ 0 + 8 := leading_le 8 0
  have hstart : ZeroRun.Within ⟨leading addr 8 0, 0, 0⟩ (leading addr 8 0) (leading addr 8 0) :=
    ⟨le_rfl, by simp, by simp⟩
  have h : (longestRun addr).Within (leading addr 8 0) _ :=
    zeroLoop_within (8 - leading addr 8 0) hstart
  rwa [show leading addr 8 0 + (8 - leading addr 8 0) = 8 by omega] at h

lemma printRest_plain (hr : r.maxZeros = 0 ∨ r.maxStart < ii) (hk : 8 - ii ≤ k) :
    printRest addr r k ii = (List.range' ii (8 - ii)).flatMap (groupDigits addr) := by
  induction k generalizing ii with
  | zero => rw [show 8 - ii = 0 by omega]; rfl
  | succ k ih =>
    rw [printRest]
    by_cases hii : ii < 8
    · rw [if_pos hii, if_neg (by omega), ih (by omega) (by omega),
        show 8 - ii = 8 - (ii + 1) + 1 by omega, range'_succ, flatMap_cons]
    · rw [if_neg hii, show 8 - ii = 0 by omega]
      rfl

lemma printRest_run (hz : r.maxZeros ≠ 0) (hii : ii ≤ r.maxStart)
    (hle : r.maxStart + r.maxZeros ≤ 8) (hk : 8 - ii ≤ k) : printRest addr r k ii =
      (List.range' ii (r.maxStart - ii)).flatMap (groupDigits addr) ++ ch '_' ::
        (List.range' (r.maxStart + r.maxZeros) (8 - (r.maxStart + r.maxZeros))).flatMap
          (groupDigits addr) := by
  induction k generalizing ii with
  | zero => omega
  | succ k ih =>
    rw [printRest, if_pos (by omega)]
    by_cases heq : ii = r.maxStart
    · rw [if_pos ⟨heq, hz⟩, heq, Nat.sub_self, printRest_plain (Or.inr (by omega)) (by omega)]
      rfl
    · rw [if_neg (by tauto), ih (by omega) (by omega),
        show r.maxStart - ii = r.maxStart - (ii + 1) + 1 by omega, range'_succ,
        flatMap_cons, append_assoc]

lemma length_flatMap_groupDigits (l : List ℕ) :
    (l.flatMap (groupDigits addr)).length = 3 * l.length := by
  induction l with
  | nil => rfl
  | cons i l ih =>
    rw [flatMap_cons, length_append, ih, groupDigits, length_inttobase64, length_cons]
    ring

lemma range'_join {i j} (hij : i ≤ j) (hjk : j ≤ k) :
    List.range' i (j - i) ++ List.range' j (k - j) = List.range' i (k - i) := by
  have h := range'_append_1 (s := i) (m := j - i) (n := k - j)
  rwa [show i + (j - i) = j by omega, show j - i + (k - j) = k - i by omega] at h

def runMark (r : ZeroRun) : List UInt8 := if r.maxZeros = 0 then [] else [ch '_']

lemma iptobase64_ipv6 (h4 : isIpv4 addr = false) (hr : r = longestRun addr) : iptobase64 addr true =
      (List.range' 0 r.maxStart).flatMap (groupDigits addr) ++ (runMark r ++
        (List.range' (r.maxStart + r.maxZeros) (8 - (r.maxStart + r.maxZeros))).flatMap
          (groupDigits addr)) := by
  have hw := longestRun_within addr
  rw [← hr] at hw
  have hlo := hw.lo_le
  have hle := hw.le_ii
  have hjoin : ∀ {j k : ℕ}, j ≤ k →
      List.range' 0 j ++ List.range' j (k - j) = List.range' 0 k := range'_join (Nat.zero_le _)
  rw [iptobase64, h4, ← hr, runMark]
  simp only [Bool.false_eq_true, if_false, Bool.not_true, range_eq_range']
  by_cases hz : r.maxZeros = 0
  · rw [if_pos hz, printRest_plain (Or.inl hz) le_rfl, ← flatMap_append, nil_append,
      ← flatMap_append, hz, Nat.add_zero, hjoin (by omega), hjoin (by omega)]
  · rw [if_neg hz, printRest_run hz hlo hle le_rfl, ← append_assoc, ← flatMap_append, hjoin hlo]
    rfl

lemma ofGroups_clear (hle : r.maxStart + r.maxZeros ≤ 8) :
    ofGroups ((List.range' 0 r.maxStart).map addr.group ++ List.replicate r.maxZeros 0 ++
      (List.range' (r.maxStart + r.maxZeros) (8 - (r.maxStart + r.maxZeros))).map addr.group) =
      r.clear addr := by
  rw [ofGroups]
  congr 1
  funext i
  have hi := i.isLt
  have hgroup : addr.group i = addr.in6_16 i := by rw [InAddr.group, dif_pos hi]
  rw [getD_eq_getElem?_getD, List.getElem?_append, List.getElem?_append]
  simp only [length_append, length_map, length_range', length_replicate]
  by_cases h1 : (i : ℕ) < r.maxStart
  · rw [if_pos (by omega), if_pos h1, if_neg (by omega), List.getElem?_map, List.getElem?_range' h1]
    simp [hgroup]
  by_cases h2 : (i : ℕ) < r.maxStart + r.maxZeros
  · rw [if_pos h2, if_neg h1, if_pos (by omega), List.getElem?_replicate, if_pos (by omega)]
    rfl
  · rw [if_neg h2, if_neg (by omega), List.getElem?_map, List.getElem?_range' (by omega)]
    simp only [one_mul, Option.map_some, Option.getD_some]
    rw [show r.maxStart + r.maxZeros + (i - (r.maxStart + r.maxZeros)) = i by omega, hgroup]

lemma readMore_mark {tail} (hacc : acc.length = r.maxStart) (hle : r.maxStart + r.maxZeros ≤ 8)
    (htail : tail.length = 3 * (8 - (r.maxStart + r.maxZeros))) :
    readMore (runMark r ++ tail) acc = readMore tail (acc ++ List.replicate r.maxZeros 0) := by
  rw [runMark]
  by_cases hz : r.maxZeros = 0
  · rw [if_pos hz, hz, replicate_zero, nil_append, append_nil]
  · rw [if_neg hz, singleton_append, readMore_underscore htail (by omega) (by omega),
      show 8 - (8 - (r.maxStart + r.maxZeros)) - acc.length = r.maxZeros by omega]

lemma base64toip_ipv6 (h4 : isIpv4 addr = false) :
    base64toip (iptobase64 addr true) = some ((longestRun addr).clear addr) := by
  generalize hr : longestRun addr = r
  have hw := longestRun_within addr
  rw [hr] at hw
  have hle := hw.le_ii
  rw [iptobase64_ipv6 h4 hr.symm, base64toip, if_neg, ← ofGroups_clear hle]
  · have hmore : ∀ input, readGroups input [] = readMore input [] := fun _ => rfl
    rw [hmore, readMore_digits _ _ (by simp; omega), readMore_mark (by simp) hle,
      ← append_nil (List.flatMap _ (List.range' (r.maxStart + r.maxZeros) _)),
      readMore_digits _ _ (by simp; omega), readMore, if_neg (by simp; omega)]
    · rfl
    · rw [length_flatMap_groupDigits, length_range']
  -- three digits a group and an underscore are never six characters
  rw [runMark]
  split <;>
    simp only [length_append, length_singleton, length_nil,
      length_flatMap_groupDigits, length_range'] <;>
    omega

/-- **An address arrives on the other side of a link.** -/
theorem base64toip_iptobase64 (addr v6_ok) :
    base64toip (iptobase64 addr v6_ok) = some (carried addr v6_ok) := by
  rw [carried]
  by_cases h4 : isIpv4 addr
  · rw [iptobase64, if_pos h4, if_pos h4, base64toip_pair]
  rw [Bool.not_eq_true] at h4
  cases v6_ok with
  | false =>
    rw [iptobase64, h4]
    simp only [Bool.false_eq_true, if_false, Bool.not_false, if_true]
    split
    · exact base64toip_pair _ _
    · decide +kernel
  | true =>
    rw [h4]
    exact base64toip_ipv6 h4

lemma carried_mapped {g h} (hne : ¬(g = 0 ∧ h = 0)) (v6_ok) :
    carried (mapped g h) v6_ok = mapped g h := by
  have h4 : isIpv4 (mapped g h) = true := by simp [isIpv4, mapped, InAddr.group]
  rw [carried, if_pos h4]
  exact if_neg hne

lemma carried_ipv6_iff (h4 : isIpv4 addr = false) : carried addr true = addr ↔
      ∀ i : Fin 8, (longestRun addr).maxStart ≤ i →
        i < (longestRun addr).maxStart + (longestRun addr).maxZeros → addr.in6_16 i = 0 := by
  rw [carried, h4]
  simp only [Bool.false_eq_true, if_false, Bool.not_true]
  constructor
  · intro h i hlo hhi
    rw [← h, ZeroRun.clear]
    exact if_pos ⟨hlo, hhi⟩
  intro h
  rw [ZeroRun.clear]
  congr 1
  funext i
  split
  next hi => exact (h i hi.1 hi.2).symm
  next => rfl

end Ircu.Numnick
