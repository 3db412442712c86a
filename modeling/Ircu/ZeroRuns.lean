import Ircu.Cidr.Addr

/-!
The runs of zero groups in an address.

`ircd_ntoa_r` and `iptobase64` leave out the longest of them. Both count the zeros since the last
time that the count was a new maximum, and not since the last group that is not zero, so what they
leave out may have other groups in it (`leftOut`).

* `ZeroRun.turn`: the turn that both searches make at a group.
* `ZeroRun.clear`: the address that is read back if the groups of a run are left out.
-/

namespace Ircu

/-- The lengths of the runs of zeros among the given groups, behind `n` zeros. -/
def zeroRuns (a : InAddr) : ℕ → List ℕ → List ℕ
  | n, [] => if n = 0 then [] else [n]
  | n, i :: is =>
    if a.group i = 0 then zeroRuns a (n + 1) is
    else if n = 0 then zeroRuns a 0 is
    else n :: zeroRuns a 0 is

/-- The runs of zeros among the given groups, behind `n` zeros: the group that ends it, and its
length. -/
def zeroSpans (a : InAddr) : ℕ → List ℕ → List (ℕ × ℕ)
  | n, [] => if n = 0 then [] else [(8, n)]
  | n, i :: is =>
    if a.group i = 0 then zeroSpans a (n + 1) is
    else if n = 0 then zeroSpans a 0 is
    else (i, n) :: zeroSpans a 0 is

/-- What is left out of an address, by its end and its length. Runs are added up until there are
more zeros than have been left out so far; then as many groups in front of the end of the last run
take their place. -/
def leftOut : ℕ × ℕ → ℕ → List (ℕ × ℕ) → ℕ × ℕ
  | out, _, [] => out
  | out, sum, (e, n) :: runs =>
    if out.2 < sum + n then leftOut (e, sum + n) 0 runs else leftOut out (sum + n) runs

/-- Each run is longer than all before it, up to one from which on there are, all in all, no more
zeros than in the longest run before it. -/
def Unmixed : ℕ → List ℕ → Prop
  | _, [] => True
  | longest, n :: ns => if longest < n then Unmixed n ns else n + ns.sum ≤ longest

instance Unmixed.decidable : ∀ (longest : ℕ) (ns : List ℕ), Decidable (Unmixed longest ns)
  | _, [] => .isTrue trivial
  | longest, n :: ns =>
    if h : longest < n then
      haveI := Unmixed.decidable n ns
      decidable_of_iff (Unmixed n ns) (by rw [Unmixed, if_pos h])
    else decidable_of_iff (n + ns.sum ≤ longest) (by rw [Unmixed, if_neg h])

def ofZeros (z : Fin 8 → Bool) : InAddr := ⟨fun i => if z i then 0 else 1⟩

def SameZeros (a b : InAddr) : Prop := ∀ i, a.group i = 0 ↔ b.group i = 0

lemma sameZeros_ofZeros (a) : SameZeros a (ofZeros fun i => decide (a.in6_16 i = 0)) := by
  intro i
  by_cases hi : i < 8
  · simp [InAddr.group, ofZeros, hi]
  · simp [InAddr.group, hi]

/-- **A statement about the zeros of an address** is one about addresses of zeros and ones. -/
lemma forall_zeroGroups {P : InAddr → Prop} (hP : ∀ a b, SameZeros a b → P b → P a)
    (h : ∀ z, P (ofZeros z)) (a) : P a :=
  hP a _ (sameZeros_ofZeros a) (h _)

lemma SameZeros.zeroRuns {a b} (h : SameZeros a b) (n : ℕ) (is : List ℕ) :
    zeroRuns a n is = zeroRuns b n is := by
  induction is generalizing n with
  | nil => rfl
  | cons i is ih => simp only [Ircu.zeroRuns, h i, ih]

lemma SameZeros.zeroSpans {a b} (h : SameZeros a b) (n : ℕ) (is : List ℕ) :
    zeroSpans a n is = zeroSpans b n is := by
  induction is generalizing n with
  | nil => rfl
  | cons i is ih => simp only [Ircu.zeroSpans, h i, ih]

/-! ### The search -/

/-- The run that is left out, as far as it has been found, and the zeros counted since. -/
structure ZeroRun where
  maxStart : ℕ
  maxZeros : ℕ
  currZeros : ℕ
deriving DecidableEq

namespace ZeroRun

/-- The counted zeros end in front of the group `ii`. -/
def close (r : ZeroRun) (ii : ℕ) : ZeroRun :=
  if r.maxZeros < r.currZeros then ⟨ii - r.currZeros, r.currZeros, 0⟩ else r

/-- One turn of the search, at the group `ii`. -/
def turn (a : InAddr) (r : ZeroRun) (ii : ℕ) : ZeroRun :=
  if a.group ii = 0 then { r with currZeros := r.currZeros + 1 } else r.close ii

/-- The address with zeros in all groups of the run. -/
def clear (r : ZeroRun) (a : InAddr) : InAddr :=
  ⟨fun i => if r.maxStart ≤ i ∧ i < r.maxStart + r.maxZeros then 0 else a.in6_16 i⟩

def OfZeros (r : ZeroRun) (a : InAddr) : Prop :=
  ∀ i : Fin 8, r.maxStart ≤ i → i < r.maxStart + r.maxZeros → a.group i = 0

instance (r : ZeroRun) (a : InAddr) : Decidable (r.OfZeros a) :=
  inferInstanceAs (Decidable (∀ _ : Fin 8, _))

/-- The run that has been found by the group `ii`, and the zeros counted since, lie behind
the group `lo`. -/
structure Within (r : ZeroRun) (lo ii : ℕ) : Prop where
  lo_le : lo ≤ r.maxStart
  le_ii : r.maxStart + r.maxZeros ≤ ii
  curr_le : lo + r.currZeros ≤ ii

variable {r : ZeroRun} {a b : InAddr} {lo ii : ℕ}

lemma turn_congr (h : SameZeros a b) (r : ZeroRun) (ii) : r.turn a ii = r.turn b ii := by
  simp only [turn, h ii]

lemma Within.close (h : r.Within lo ii) : (r.close ii).Within lo ii := by
  have hcurr := h.curr_le
  rw [ZeroRun.close]
  split
  · exact ⟨by simp only; omega, by simp only; omega, by simp only; omega⟩
  · exact h

lemma Within.turn (h : r.Within lo ii) : (r.turn a ii).Within lo (ii + 1) := by
  rw [ZeroRun.turn]
  split
  · exact ⟨h.lo_le, h.le_ii.trans (by omega), by have := h.curr_le; simp only; omega⟩
  · have hc := h.close
    exact ⟨hc.lo_le, hc.le_ii.trans (by omega), hc.curr_le.trans (by omega)⟩

lemma group_clear (r : ZeroRun) (a) {k} (hk : k < 8) : (r.clear a).group k =
      if r.maxStart ≤ k ∧ k < r.maxStart + r.maxZeros then 0 else a.group k := by
  simp only [InAddr.group, dif_pos hk, clear]

/-- **What is read back is the address** if and only if only zeros have been left out. -/
lemma clear_eq_iff (r : ZeroRun) : r.clear a = a ↔ r.OfZeros a := by
  constructor
  · intro h i hlo hhi
    rw [← h, r.group_clear a i.isLt, if_pos ⟨hlo, hhi⟩]
  intro h
  refine InAddr.ext_group fun k hk => ?_
  rw [r.group_clear a hk]
  split_ifs with hin
  · exact (h ⟨k, hk⟩ hin.1 hin.2).symm
  · rfl

end ZeroRun

end Ircu
