import Ircu.Prefix.Basic

/-!
Addresses, and the bits of them that `cidr_lookups.c` compares.

An address is `struct irc_in_addr`: eight groups of sixteen bits, read here in
host order. `_cidr_bit_diff` compares two addresses group by group from the
group of `lo` on, so it may look at bits in front of `lo`; it finds the first
difference in a group with `__builtin_clz`.

* `bitDiff_spec`: between addresses that agree below `lo`, it is the index of
  the first bit below `hi` where they differ, and `hi` if there is none.
-/

namespace Ircu

open Prefix BitVec

/-- `struct irc_in_addr`, with its groups in host order. -/
structure InAddr where
  in6_16 : Fin 8 → BitVec 16
deriving DecidableEq

variable (a : InAddr)

/-- A group of an address. There are eight of them; the callers never ask for
another. -/
def InAddr.group (i : ℕ) : BitVec 16 := if h : i < 8 then a.in6_16 ⟨i, h⟩ else 0

lemma InAddr.ext_group {a b : InAddr} (h : ∀ k < 8, a.group k = b.group k) : a = b := by
  cases a
  cases b
  congr 1
  funext i
  simpa [group] using h i i.isLt

/-- The macro `irc_in_addr_is_ipv4`: IPv4-mapped addresses, and IPv4-compatible
ones with something in their seventh group. -/
def isIpv4 : Bool :=
  a.group 0 = 0 ∧ a.group 1 = 0 ∧ a.group 2 = 0 ∧ a.group 3 = 0 ∧ a.group 4 = 0 ∧
    ((a.group 5 = 0 ∧ a.group 6 ≠ 0) ∨ a.group 5 = 65535)

def mapped (g h : BitVec 16) : InAddr := ⟨![0, 0, 0, 0, 0, 0xffff, g, h]⟩

/-- `_cidr_get_bit`, as the truth value it is used as. -/
def getBit (i : ℕ) : Bool :=
  (a.group (7 - (127 - i) / 16)).getLsbD ((127 - i) % 16)

lemma getBit_eq {i} (hi : i < 128) : getBit a i = (a.group (i / 16)).getLsbD (15 - i % 16) := by
  rw [getBit, show 7 - (127 - i) / 16 = i / 16 by omega, show (127 - i) % 16 = 15 - i % 16 by omega]

/-! ### The first difference -/

/-- The difference of two groups as the `int` that `__builtin_clz` reads. -/
def diffWord (a b : InAddr) (ii : ℕ) : BitVec 32 := (a.group ii ^^^ b.group ii).setWidth 32

/-- The bit index `ii * 16 + __builtin_clz(word) + 16 - sizeof(int) * CHAR_BIT`. -/
def clzIndex (ii : ℕ) (word : BitVec 32) : ℕ := ii * 16 + word.clz.toNat + 16 - 32

/-- The loop over whole groups, with `k` of them to go. -/
def diffLoop (a b : InAddr) : ℕ → ℕ → Option ℕ
  | 0, _ => none
  | k + 1, ii =>
    if a.group ii ≠ b.group ii then some (clzIndex ii (diffWord a b ii))
    else diffLoop a b k (ii + 1)

/-- `_cidr_bit_diff` on the address of a node. -/
def bitDiff (a b : InAddr) (lo hi : ℕ) : ℕ :=
  match diffLoop a b (hi / 16 - lo / 16) (lo / 16) with
  | some i => i
  | none =>
    let ii := max (lo / 16) (hi / 16)
    let word := diffWord a b ii &&& (0xffff0000#32 >>> (hi % 16))
    if hi % 16 ≠ 0 ∧ a.group ii ≠ b.group ii ∧ word ≠ 0 then clzIndex ii word else hi

lemma clzIndex_spec {word} (hw : word ≠ 0) (hhi : ∀ j, 16 ≤ j → word.getLsbD j = false) (ii) :
    ∃ k < 16, clzIndex ii word = ii * 16 + k ∧ word.getLsbD (15 - k) = true ∧
      ∀ j < k, word.getLsbD (15 - j) = false := by
  have htop := getLsbD_true_clz_of_ne_zero (by decide : 0 < 32) hw
  have hlt := toNat_lt_two_pow_sub_clz (x := word)
  have hc16 : 16 ≤ word.clz.toNat := by
    by_contra hlt16
    rw [hhi _ (by omega)] at htop
    exact absurd htop (by simp)
  have hc32 : word.clz.toNat < 32 := lt_def.mp (clz_lt_iff_ne_zero.mpr hw)
  refine ⟨word.clz.toNat - 16, by omega, by rw [clzIndex]; omega, ?_, ?_⟩
  · rwa [show 15 - (word.clz.toNat - 16) = 32 - 1 - word.clz.toNat by omega]
  · intro j hj
    exact Nat.testBit_lt_two_pow (hlt.trans_le (Nat.pow_le_pow_right (by decide) (by omega)))

variable {a b : InAddr} {lo hi : ℕ}

lemma getLsbD_diffWord (a b) (ii j : ℕ) :
    (diffWord a b ii).getLsbD j = ((a.group ii).getLsbD j ^^ (b.group ii).getLsbD j) := by
  by_cases hj : j < 32
  · simp [diffWord, hj]
  · have hj16 : 16 ≤ j := by omega
    simp [getLsbD_of_ge _ j hj16, getLsbD_of_ge _ j (not_lt.mp hj)]

lemma getBit_eq_iff (a b) {ii k} (hii : ii < 8) (hk : k < 16) :
    getBit a (ii * 16 + k) = getBit b (ii * 16 + k) ↔
      (diffWord a b ii).getLsbD (15 - k) = false := by
  rw [getBit_eq a (by omega), getBit_eq b (by omega), show (ii * 16 + k) / 16 = ii by omega,
    show (ii * 16 + k) % 16 = k by omega, getLsbD_diffWord]
  cases (a.group ii).getLsbD (15 - k) <;> cases (b.group ii).getLsbD (15 - k) <;> simp

lemma agree_group {ii k} (hii : ii < 8) (hk : k ≤ 16) (h : Agree getBit a b (ii * 16))
    (hword : ∀ j < k, (diffWord a b ii).getLsbD (15 - j) = false) :
    Agree getBit a b (ii * 16 + k) := by
  intro i hi
  by_cases hlt : i < ii * 16
  · exact h i hlt
  · obtain ⟨j, rfl⟩ : ∃ j, i = ii * 16 + j := ⟨i - ii * 16, by omega⟩
    exact (getBit_eq_iff a b hii (by omega)).mpr (hword j (by omega))

/-- The index `i` is the first one below `hi` at which the addresses differ, or
`hi` if there is none. -/
structure FirstDiff (a b : InAddr) (hi i : ℕ) : Prop where
  agree : Agree getBit a b i
  le : i ≤ hi
  ne : i < hi → getBit a i ≠ getBit b i

lemma diffLoop_spec (k ii : ℕ) (hk : ii + k ≤ 8) (h : Agree getBit a b (ii * 16)) :
    match diffLoop a b k ii with
    | none => Agree getBit a b ((ii + k) * 16)
    | some i => Agree getBit a b i ∧ i < (ii + k) * 16 ∧ getBit a i ≠ getBit b i := by
  induction k generalizing ii with
  | zero => exact h
  | succ k ih =>
    rw [diffLoop]
    by_cases hne : a.group ii ≠ b.group ii
    · rw [if_pos hne]
      have hword : diffWord a b ii ≠ 0 := by
        intro h0
        apply hne
        have hz : a.group ii ^^^ b.group ii = 0 := by
          apply eq_of_getLsbD_eq
          intro j hj
          have := congrArg (fun w => w.getLsbD j) h0
          simpa [getLsbD_diffWord] using this
        exact BitVec.xor_eq_zero_iff.mp hz
      obtain ⟨m, hm, hidx, htrue, hfalse⟩ := clzIndex_spec hword (fun j hj => by
        rw [getLsbD_diffWord, getLsbD_of_ge _ j hj, getLsbD_of_ge _ j hj]
        rfl) ii
      simp only [hidx]
      refine ⟨agree_group (by omega) hm.le h hfalse, by omega, ?_⟩
      rw [ne_eq, getBit_eq_iff a b (by omega) hm, htrue]
      simp
    · rw [if_neg hne]
      have hstep : Agree getBit a b ((ii + 1) * 16) := by
        rw [Nat.succ_mul]
        refine agree_group (by omega) le_rfl h (fun j _ => ?_)
        rw [getLsbD_diffWord, not_not.mp hne, Bool.xor_self]
      have := ih (ii + 1) (by omega) hstep
      rwa [show ii + 1 + k = ii + (k + 1) by omega] at this

lemma getLsbD_mask {n j} (hn : n < 16) (hj : j < 16) :
    (0xffff0000#32 >>> n).getLsbD (15 - j) = decide (j < n) := by
  interval_cases n <;> interval_cases j <;> rfl

lemma lastGroup_spec {ii n} (hn : n < 16) (hii : n ≠ 0 → ii < 8)
    (h : Agree getBit a b (ii * 16)) {word}
    (hword : word = diffWord a b ii &&& (0xffff0000#32 >>> n)) : FirstDiff a b (ii * 16 + n)
      (if n ≠ 0 ∧ a.group ii ≠ b.group ii ∧ word ≠ 0 then clzIndex ii word else ii * 16 + n) := by
  have hbit : ∀ j < 16, word.getLsbD (15 - j) =
      ((diffWord a b ii).getLsbD (15 - j) && decide (j < n)) := by
    intro j hj
    rw [hword, getLsbD_and, getLsbD_mask hn hj]
  split_ifs with hc
  · obtain ⟨hn0, _, hne⟩ := hc
    obtain ⟨k, hk, hidx, htrue, hfalse⟩ := clzIndex_spec hne (fun j hj => by
      rw [hword, getLsbD_and, getLsbD_diffWord, getLsbD_of_ge _ j hj, getLsbD_of_ge _ j hj]
      rfl) ii
    rw [hbit k hk, Bool.and_eq_true, decide_eq_true_iff] at htrue
    rw [hidx]
    refine ⟨agree_group (hii hn0) hk.le h (fun j hj => ?_), by omega, fun _ => ?_⟩
    · have hj' := hfalse j hj
      rw [hbit j (by omega)] at hj'
      simpa [hj.trans htrue.2] using hj'
    · rw [ne_eq, getBit_eq_iff a b (hii hn0) hk, htrue.1]
      simp
  · refine ⟨?_, le_rfl, fun hlt => absurd hlt (lt_irrefl _)⟩
    by_cases hn0 : n = 0
    · simpa [hn0] using h
    refine agree_group (hii hn0) hn.le h (fun j hj => ?_)
    by_cases hg : a.group ii = b.group ii
    · rw [getLsbD_diffWord, hg, Bool.xor_self]
    have hw0 : word = 0 := by
      by_contra hne
      exact hc ⟨hn0, hg, hne⟩
    have hj' := hbit j (by omega)
    rw [hw0] at hj'
    simpa [hj] using hj'.symm

/-- **`_cidr_bit_diff`** on addresses that agree below `lo`. -/
theorem bitDiff_spec (hlo : lo ≤ hi) (hhi : hi ≤ 128) (h : Agree getBit a b lo) :
    FirstDiff a b hi (bitDiff a b lo hi) := by
  have hdiv : lo / 16 ≤ hi / 16 := Nat.div_le_div_right hlo
  have hloop := diffLoop_spec (hi / 16 - lo / 16) (lo / 16) (by omega)
    (h.mono (by omega : lo / 16 * 16 ≤ lo))
  rw [bitDiff]
  cases hl : diffLoop a b (hi / 16 - lo / 16) (lo / 16) with
  | some i =>
    rw [hl] at hloop
    obtain ⟨hagree, hlt, hne⟩ := hloop
    exact ⟨hagree, show i ≤ hi by omega, fun _ => hne⟩
  | none =>
    rw [hl, show lo / 16 + (hi / 16 - lo / 16) = hi / 16 by omega] at hloop
    simp only [max_eq_right hdiv]
    have hlast := lastGroup_spec (n := hi % 16) (by omega) (by omega) hloop rfl
    rwa [show hi / 16 * 16 + hi % 16 = hi by omega] at hlast

end Ircu
