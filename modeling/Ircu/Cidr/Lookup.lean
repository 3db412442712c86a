import Ircu.Cidr.Tree

/-!
The shape of a CIDR tree in memory, and what `_cidr_find_node` finds in it.

`Linked` is a statement about every node by itself: the two directions of a link
belong together, and a child extends the prefix of its parent by the bit of its
side at least. For a query, the nodes that the descent from the root of its
family can meet form a chain (`chain`), and every node whose prefix covers the
query is on it (`exists_chain`). Going up from a node of the chain by parent
pointers is going down in the chain's indices, so the closest data-bearing
parent is the last data-bearing node before it (`dataParentLoop_spec`).
-/

namespace Ircu

open Prefix Option Heap

/-! ### Linked trees -/

def baseIp (v4 : Bool) : InAddr := if v4 then CidrTree.v4Base else CidrTree.v6Base

def baseBits (v4 : Bool) : ℕ := if v4 then 96 else 0

structure Covered (ip : InAddr) (bits : ℕ) : Prop where
  base_le : baseBits (isIpv4 ip) ≤ bits
  le : bits ≤ 128
  agree : Agree getBit (baseIp (isIpv4 ip)) ip (baseBits (isIpv4 ip))

instance (ip : InAddr) (bits : ℕ) : Decidable (Covered ip bits) :=
  decidable_of_iff (baseBits (isIpv4 ip) ≤ bits ∧ bits ≤ 128 ∧
    Agree getBit (baseIp (isIpv4 ip)) ip (baseBits (isIpv4 ip)))
    ⟨fun h => ⟨h.1, h.2.1, h.2.2⟩, fun h => ⟨h.base_le, h.le, h.agree⟩⟩

/-- The prefix of the node covers the prefix `ip/bits`, in one family. -/
structure CidrNode.Covers {D : Type} (n : CidrNode D) (ip : InAddr) (bits : ℕ) : Prop where
  family : isIpv4 n.ip = isIpv4 ip
  le : n.bits ≤ bits
  agree : Agree getBit n.ip ip n.bits

/-- The prefix of `n` extends the one of `m`, with the bit `b` next. -/
structure CidrNode.Extends {D : Type} (n m : CidrNode D) (b : Bool) : Prop where
  family : isIpv4 n.ip = isIpv4 m.ip
  lt : m.bits < n.bits
  agree : Agree getBit m.ip n.ip m.bits
  side : getBit n.ip m.bits = b

namespace CidrTree

variable {D : Type}

def rootOf (t : CidrTree D) (v4 : Bool) : Ptr := if v4 then t.ipv4 else t.ipv6

lemma root_eq (t : CidrTree D) (ip) : t.root ip = t.rootOf (isIpv4 ip) := rfl

structure Linked (t : CidrTree D) : Prop where
  base : ∀ v4, ∃ n, t.heap.cell (t.rootOf v4) = some n ∧ n.parent = none ∧
    isIpv4 n.ip = v4 ∧ n.bits = baseBits v4
  covered : ∀ {p n}, t.heap.cell p = some n → Covered n.ip n.bits
  orphan : ∀ {p n}, t.heap.cell p = some n → n.parent = none → p = t.root n.ip
  up : ∀ {p n q}, t.heap.cell p = some n → n.parent = some q →
    ∃ m, t.heap.cell q = some m ∧ m.child (getBit n.ip m.bits) = some p
  down : ∀ {q m b p}, t.heap.cell q = some m → m.child b = some p →
    ∃ n, t.heap.cell p = some n ∧ n.parent = some q ∧ n.Extends m b

end CidrTree

namespace CidrNode

variable {D : Type} {n m : CidrNode D} {ip : InAddr} {bits : ℕ} {b : Bool}

lemma Covers.of_extends (h : n.Covers ip bits) (he : n.Extends m b) : m.Covers ip bits where
  family := he.family.symm.trans h.family
  le := he.lt.le.trans h.le
  agree := he.agree.trans (h.agree.mono he.lt.le)

lemma Covers.side (h : n.Covers ip bits) (he : n.Extends m b) : getBit ip m.bits = b := by
  rw [← he.side, h.agree _ he.lt]

end CidrNode

namespace CidrTree

section Chain

variable {D : Type} {t : CidrTree D} (hL : t.Linked) {ip : InAddr} {bits : ℕ}

/-! ### The chain of a query -/

variable (t ip) in
/-- The nodes met on the way down from the root of the family of `ip`, turning
as the bits of `ip` say. -/
def chain : ℕ → Option Ptr
  | 0 => some (t.root ip)
  | k + 1 => do
      let p ← chain k
      let n ← t.heap.cell p
      n.child (getBit ip n.bits)

variable {k i j : ℕ} {n m : CidrNode D} {p s : Ptr}

lemma chain_succ (hk : t.chain ip k = some p) (hp : t.heap.cell p = some n) :
    t.chain ip (k + 1) = n.child (getBit ip n.bits) := by
  rw [chain, hk]
  simp [hp]

lemma chain_pred (h : t.chain ip (k + 1) = some p) :
    ∃ q m, t.chain ip k = some q ∧ t.heap.cell q = some m ∧
      m.child (getBit ip m.bits) = some p := by
  obtain ⟨q, hq, h⟩ := bind_eq_some_iff.mp h
  obtain ⟨m, hm, h⟩ := bind_eq_some_iff.mp h
  exact ⟨q, m, hq, hm, h⟩

include hL

lemma chain_link (h : t.chain ip (k + 1) = some p) :
    ∃ q m n, t.chain ip k = some q ∧ t.heap.cell q = some m ∧ t.heap.cell p = some n ∧
      n.parent = some q ∧ n.Extends m (getBit ip m.bits) := by
  obtain ⟨q, m, hq, hm, hc⟩ := chain_pred h
  obtain ⟨n, hn, hpar, hext⟩ := hL.down hm hc
  exact ⟨q, m, n, hq, hm, hn, hpar, hext⟩

lemma chain_live (h : t.chain ip k = some p) :
    ∃ n, t.heap.cell p = some n ∧ isIpv4 n.ip = isIpv4 ip ∧ k ≤ n.bits := by
  induction k generalizing p with
  | zero =>
    obtain ⟨n, hn, _, hfam, _⟩ := hL.base (isIpv4 ip)
    obtain rfl : t.rootOf (isIpv4 ip) = p := by simpa [chain, root_eq] using h
    exact ⟨n, hn, hfam, Nat.zero_le _⟩
  | succ k ih =>
    obtain ⟨q, m, n, hq, hm, hn, _, hext⟩ := chain_link hL h
    obtain ⟨m', hm', hfam, hle⟩ := ih hq
    obtain rfl := cell_inj hm hm'
    exact ⟨n, hn, hext.family.trans hfam, by have := hext.lt; omega⟩

lemma chain_extends (hij : i < j) (hs : t.chain ip i = some s) (hp : t.chain ip j = some p)
    (hm : t.heap.cell s = some m) (hn : t.heap.cell p = some n) :
    n.Extends m (getBit n.ip m.bits) := by
  induction j generalizing p n with
  | zero => omega
  | succ j ih =>
    obtain ⟨q, k, n', hq, hk, hn', _, hext⟩ := chain_link hL hp
    obtain rfl := cell_inj hn hn'
    rcases Nat.lt_succ_iff_lt_or_eq.mp hij with hlt | rfl
    · have h := ih hlt hq hk
      exact ⟨hext.family.trans h.family, h.lt.trans hext.lt,
        h.agree.trans (hext.agree.mono h.lt.le), rfl⟩
    · obtain rfl : s = q := some.inj (hs.symm.trans hq)
      obtain rfl := cell_inj hm hk
      exact ⟨hext.family, hext.lt, hext.agree, rfl⟩

lemma exists_chain (hs : t.heap.cell s = some n) (hc : n.Covers ip bits) :
    ∃ k, t.chain ip k = some s := by
  -- by the length of the prefix: a node that is not a root hangs below a shorter one
  induction hk : n.bits using Nat.strong_induction_on generalizing s n with
  | _ k ih =>
    cases hpar : n.parent with
    | none =>
      refine ⟨0, ?_⟩
      rw [chain, hL.orphan hs hpar, root_eq, root_eq, hc.family]
    | some q =>
      obtain ⟨m, hm, hchild⟩ := hL.up hs hpar
      obtain ⟨n', hn', _, hext⟩ := hL.down hm hchild
      obtain rfl := cell_inj hs hn'
      obtain ⟨j, hj⟩ := ih m.bits (hk ▸ hext.lt) hm (hc.of_extends hext) rfl
      exact ⟨j + 1, by rw [chain_succ hj hm, hc.side hext, hchild]⟩

lemma chain_zero (hp : t.chain ip 0 = some p) (hn : t.heap.cell p = some n) : n.parent = none := by
  obtain ⟨n', hn', hpar, _⟩ := hL.base (isIpv4 ip)
  obtain rfl : t.rootOf (isIpv4 ip) = p := by simpa [chain, root_eq] using hp
  obtain rfl := cell_inj hn hn'
  exact hpar

/-! ### Going up -/

variable (t ip) in
/-- The last data-bearing node of the chain before the index `j`. -/
def LastData (j : ℕ) : Option Ptr → Prop
  | none => ∀ i < j, ∀ s n, t.chain ip i = some s → t.heap.cell s = some n → n.data = none
  | some s => ∃ i < j, t.chain ip i = some s ∧ (∃ n, t.heap.cell s = some n ∧ n.data ≠ none) ∧
      ∀ i', i < i' → i' < j → ∀ s' n', t.chain ip i' = some s' → t.heap.cell s' = some n' →
        n'.data = none

omit hL in
lemma LastData.succ {o : Option Ptr} (h : LastData t ip j o) (hp : t.chain ip j = some p)
    (hn : t.heap.cell p = some n) (hd : n.data = none) : LastData t ip (j + 1) o := by
  have hj : ∀ s m, t.chain ip j = some s → t.heap.cell s = some m → m.data = none := by
    intro s m hs hm
    obtain rfl : p = s := some.inj (hp.symm.trans hs)
    obtain rfl := cell_inj hn hm
    exact hd
  cases o with
  | none =>
    intro i hi s m hs hm
    rcases Nat.lt_succ_iff_lt_or_eq.mp hi with hlt | rfl
    · exact h i hlt s m hs hm
    · exact hj s m hs hm
  | some s =>
    obtain ⟨i, hi, hs, hdata, hlast⟩ := h
    refine ⟨i, hi.trans (Nat.lt_succ_self j), hs, hdata, ?_⟩
    intro i' hii' hi' s' n' hs' hn'
    rcases Nat.lt_succ_iff_lt_or_eq.mp hi' with hlt | rfl
    · exact hlast i' hii' hlt s' n' hs' hn'
    · exact hj s' n' hs' hn'

omit hL in
lemma LastData.here (hp : t.chain ip j = some p) (hn : t.heap.cell p = some n)
    (hd : n.data ≠ none) :
    LastData t ip (j + 1) (some p) :=
  ⟨j, Nat.lt_succ_self j, hp, ⟨n, hn, hd⟩, fun i' h h' => absurd h' (by omega)⟩

lemma dataParentLoop_spec (j fuel : ℕ) (hf : j ≤ fuel) (hp : t.chain ip j = some p)
    (hn : t.heap.cell p = some n) :
    ∃ o, dataParentLoop t.heap fuel n.parent = some o ∧ LastData t ip j o := by
  induction j generalizing fuel p n with
  | zero =>
    rw [chain_zero hL hp hn]
    exact ⟨none, by simp [dataParentLoop], fun i hi => absurd hi (Nat.not_lt_zero i)⟩
  | succ j ih =>
    obtain ⟨q, m, n', hq, hm, hn', hpar, _⟩ := chain_link hL hp
    obtain rfl := cell_inj hn hn'
    obtain ⟨fuel, rfl⟩ : ∃ f, fuel = f + 1 := ⟨fuel - 1, by omega⟩
    rw [hpar, dataParentLoop]
    simp only [hm, bind_eq_bind, bind_some]
    cases hd : m.data with
    | some d => exact ⟨some q, rfl, LastData.here hq hm (by simp [hd])⟩
    | none =>
      obtain ⟨o, ho, hlast⟩ := ih fuel (by omega) hq hm
      exact ⟨o, by simpa using ho, hlast.succ hq hm hd⟩

lemma closestDataParent_spec (hp : t.chain ip j = some p) (hn : t.heap.cell p = some n) :
    ∃ o, closestDataParent t.heap n = some o ∧ LastData t ip j o := by
  obtain ⟨n', hn', _, hle⟩ := chain_live hL hp
  obtain rfl := cell_inj hn hn'
  have hb := (hL.covered hn).le
  exact dataParentLoop_spec hL j maxDepth (by rw [maxDepth]; omega) hp hn

/-! ### Going down -/

variable (t ip bits) in
/-- The descent for `ip/bits` is at the node `p`, with every node before it
covering the query properly. -/
structure Walk (k : ℕ) (p : Ptr) (n : CidrNode D) : Prop where
  at_chain : t.chain ip k = some p
  cell : t.heap.cell p = some n
  before : ∀ i < k, ∀ s m, t.chain ip i = some s → t.heap.cell s = some m →
    m.Covers ip bits ∧ m.bits < bits

lemma Walk.live (hw : Walk t ip bits k p n) : isIpv4 n.ip = isIpv4 ip ∧ k ≤ n.bits := by
  obtain ⟨n', hn', h⟩ := chain_live hL hw.at_chain
  exact cell_inj hw.cell hn' ▸ h

lemma Walk.lt (hw : Walk t ip bits k p n) : k < 129 :=
  Nat.lt_succ_of_le ((hw.live hL).2.trans (hL.covered hw.cell).le)

omit hL in
lemma Walk.next {c : Ptr} (hw : Walk t ip bits k p n) (hcov : n.Covers ip bits)
    (hlt : n.bits < bits) (hc : n.child (getBit ip n.bits) = some c) (hm : t.heap.cell c = some m) :
    Walk t ip bits (k + 1) c m where
  at_chain := by rw [chain_succ hw.at_chain hw.cell, hc]
  cell := hm
  before i hi s m' hs hm' := by
    rcases Nat.lt_succ_iff_lt_or_eq.mp hi with hlt' | rfl
    · exact hw.before i hlt' s m' hs hm'
    · obtain rfl : p = s := some.inj (hw.at_chain.symm.trans hs)
      obtain rfl := cell_inj hw.cell hm'
      exact ⟨hcov, hlt⟩

lemma walk_root (hq : Covered ip bits) : ∃ n, Walk t ip bits 0 (t.root ip) n ∧
    n.Covers ip bits ∧ n.parent = none := by
  obtain ⟨n, hn, hpar, hfam, hbits⟩ := hL.base (isIpv4 ip)
  refine ⟨n, ⟨rfl, hn, fun i hi => absurd hi (Nat.not_lt_zero i)⟩, ⟨hfam, ?_, ?_⟩, hpar⟩
  · rw [hbits]
    exact hq.base_le
  have hc := (hL.covered hn).agree
  rw [hfam] at hc
  rw [hbits]
  exact hc.symm.trans hq.agree

omit hL in
lemma bitDiff_cases {d : ℕ} (hn : n.bits ≤ 128) (hfam : isIpv4 n.ip = isIpv4 ip) (hi : i ≤ n.bits)
    (hib : i ≤ bits) (ha : Agree getBit n.ip ip i)
    (hd : d = bitDiff n.ip ip i (if n.bits < bits then n.bits else bits)) :
    d ≤ n.bits ∧ d ≤ bits ∧ Agree getBit n.ip ip d ∧ (d = n.bits ↔ n.Covers ip bits) ∧
      (d < n.bits → d < bits → getBit n.ip d ≠ getBit ip d) := by
  have hmin : (if n.bits < bits then n.bits else bits) = min n.bits bits := by
    split_ifs <;> omega
  rw [hmin] at hd
  have h : FirstDiff n.ip ip (min n.bits bits) d := by
    rw [hd]
    exact bitDiff_spec (le_min hi hib) ((min_le_left _ _).trans hn) ha
  have hle := h.le
  refine ⟨by omega, by omega, h.agree, ⟨?_, ?_⟩, fun h1 h2 => h.ne (by omega)⟩
  · rintro rfl
    exact ⟨hfam, by omega, h.agree⟩
  intro hcov
  have hle' := hcov.le
  by_contra hne
  exact h.ne (by omega) (hcov.agree d (by omega))

/-- How the descent ends, at the node `n`: at the node of the query itself, at a
node without the child to go to, or at a node that does not cover the query. -/
inductive Stop (n : CidrNode D) (ip : InAddr) (bits : ℕ) : Prop
  | exact (hcov : n.Covers ip bits) (heq : n.bits = bits)
  | leaf (hcov : n.Covers ip bits) (hlt : n.bits < bits) (hc : n.child (getBit ip n.bits) = none)
  | past (hcov : ¬ n.Covers ip bits)

open Classical in
/-- What `_cidr_find_node` returns from the node at which its descent ends. -/
noncomputable def stopResult (h : Heap (CidrNode D)) (ip : InAddr) (bits isExact : ℕ) (p : Ptr)
    (n : CidrNode D) : Option (Option Ptr) :=
  if isExact = 0 then
    if n.Covers ip bits ∧ n.data.isSome then some (some p) else closestDataParent h n
  else if n.Covers ip bits ∧ n.bits = bits ∧ (n.data.isSome ∨ isExact = 2) then some (some p)
  else some none

lemma findLoop_spec (hq : Covered ip bits) (isExact fuel k : ℕ) (hf : 129 ≤ k + fuel)
    (hw : Walk t ip bits k p n) (hi : i ≤ n.bits) (hib : i ≤ bits) (ha : Agree getBit n.ip ip i) :
    ∃ k' p' n', Walk t ip bits k' p' n' ∧ Stop n' ip bits ∧
      findLoop t.heap ip bits isExact fuel p i = stopResult t.heap ip bits isExact p' n' := by
  induction fuel generalizing k p n i with
  | zero =>
    have := hw.lt hL
    omega
  | succ fuel ih =>
    have hn128 := (hL.covered hw.cell).le
    obtain ⟨hdn, hdb, hagree, hcov, -⟩ := bitDiff_cases hn128 (hw.live hL).1 hi hib ha rfl
    rw [findLoop]
    simp only [hw.cell, bind_eq_bind, bind_some]
    generalize bitDiff n.ip ip i (if n.bits < bits then n.bits else bits) = d at *
    rw [if_neg (not_not.mpr ⟨hdn, hdb⟩)]
    by_cases hd : d = n.bits
    · have hc := hcov.mp hd
      rw [if_pos hd]
      by_cases hb : d = bits
      · refine ⟨k, p, n, hw, .exact hc (hd.symm.trans hb), ?_⟩
        rw [if_pos hb, stopResult]
        by_cases he : isExact = 0
        · by_cases hdata : n.data.isSome <;> simp [he, hdata, hc]
        · by_cases hdata : n.data.isSome ∨ isExact = 2 <;>
            simp [he, hdata, hc, hd.symm.trans hb]
      have hlt : n.bits < bits := by omega
      have hturn : (if d < 128 then getBit ip d else false) = getBit ip n.bits := by
        rw [hd, if_pos (hlt.trans_le hq.le)]
      rw [if_neg hb, hturn]
      cases hch : n.child (getBit ip n.bits) with
      | none =>
        refine ⟨k, p, n, hw, .leaf hc hlt hch, ?_⟩
        rw [stopResult]
        by_cases he : isExact = 0
        · by_cases hdata : n.data.isSome
          · simp [he, hdata, hc, isSome_iff_ne_none.mp hdata]
          · simp [he, not_isSome_iff_eq_none.mp hdata]
        · simp [he, hlt.ne]
      | some c =>
        obtain ⟨m, hm, _, hext⟩ := hL.down hw.cell hch
        simp only [if_pos (show d ≤ 128 by omega)]
        refine ih (k + 1) (by omega) (hw.next hc hlt hch hm) ?_ hdb ?_
        · rw [hd]
          exact hext.lt.le
        · rw [hd]
          exact hext.agree.symm.trans hc.agree
    · refine ⟨k, p, n, hw, .past (fun hc => hd (hcov.mpr hc)), ?_⟩
      have hc : ¬ n.Covers ip bits := fun hc => hd (hcov.mpr hc)
      rw [if_neg hd, stopResult]
      by_cases he : isExact = 0 <;> simp [he, hc]

lemma findNode_stop (hq : Covered ip bits) (isExact) :
    ∃ k p n, Walk t ip bits k p n ∧ Stop n ip bits ∧
      t.findNode ip bits isExact = stopResult t.heap ip bits isExact p n := by
  obtain ⟨n, hw, hcov, _⟩ := walk_root hL hq
  rw [findNode]
  simp only [hw.cell, bind_eq_bind, bind_some, if_pos (hL.covered hw.cell).le]
  exact findLoop_spec hL hq isExact maxDepth 0 (by decide) hw le_rfl hcov.le hcov.agree

lemma Stop.index (hstop : Stop n ip bits) (hw : Walk t ip bits k p n) (hs : t.heap.cell s = some m)
    (hm : m.Covers ip bits) : ∃ i ≤ k, t.chain ip i = some s := by
  obtain ⟨i, hi⟩ := exists_chain hL hs hm
  refine ⟨i, ?_, hi⟩
  by_contra hlt
  cases hstop with
  | exact hcov heq =>
    have hext := chain_extends hL (not_le.mp hlt) hw.at_chain hi hw.cell hs
    have := hext.lt
    have := hm.le
    omega
  | leaf hcov hlt' hc =>
    have hnone : ∀ j, t.chain ip (k + 1 + j) = none := by
      intro j
      induction j with
      | zero => rw [chain_succ hw.at_chain hw.cell, hc]
      | succ j ih =>
        rw [← Nat.add_assoc, chain, ih]
        rfl
    rw [show i = k + 1 + (i - (k + 1)) by omega, hnone] at hi
    exact absurd hi (by simp)
  | past hcov =>
    exact hcov (hm.of_extends (chain_extends hL (not_le.mp hlt) hw.at_chain hi hw.cell hs))

/-! ### What is found -/

variable (t) in
/-- The data-bearing node with the longest prefix, among the nodes with the
property `C`. -/
def Best (C : CidrNode D → Prop) : Option Ptr → Prop
  | none => ∀ s n, t.heap.cell s = some n → C n → n.data = none
  | some s => ∃ n, t.heap.cell s = some n ∧ C n ∧ n.data ≠ none ∧
      ∀ s' n', t.heap.cell s' = some n' → C n' → n'.data ≠ none → s' ≠ s → n'.bits < n.bits

lemma LastData.best {C o} (h : LastData t ip j o)
    (hcov : ∀ i < j, ∀ s m, t.chain ip i = some s → t.heap.cell s = some m → C m)
    (hall : ∀ s m, t.heap.cell s = some m → C m → ∃ i < j, t.chain ip i = some s) : Best t C o := by
  cases o with
  | none =>
    intro s n hs hn
    obtain ⟨i, hi, hc⟩ := hall s n hs hn
    exact h i hi s n hc hs
  | some s =>
    obtain ⟨i, hi, hs, ⟨n, hn, hd⟩, hlast⟩ := h
    refine ⟨n, hn, hcov i hi s n hs hn, hd, ?_⟩
    intro s' n' hs' hn' hd' hne
    obtain ⟨i', hi', hc⟩ := hall s' n' hs' hn'
    rcases lt_trichotomy i' i with hlt | rfl | hgt
    · exact (chain_extends hL hlt hc hs hs' hn).lt
    · exact absurd (some.inj (hc.symm.trans hs)) hne
    · exact absurd (hlast i' hgt hi' s' n' hc hs') hd'

/-- **`cidr_search_best`** finds the longest data-bearing prefix that covers the
query. -/
theorem findNode_best (hq : Covered ip bits) :
    ∃ o, t.findNode ip bits 0 = some o ∧ Best t (·.Covers ip bits) o := by
  obtain ⟨k, p, n, hw, hstop, hfind⟩ := findNode_stop hL hq 0
  rw [hfind, stopResult, if_pos rfl]
  obtain ⟨o, ho, hlast⟩ := closestDataParent_spec hL hw.at_chain hw.cell
  have hbefore := fun i hi s m hs hm => (hw.before i hi s m hs hm).1
  by_cases hcov : n.Covers ip bits
  · -- the node at which the descent ends counts as well
    have hcov' : ∀ i < k + 1, ∀ s m, t.chain ip i = some s → t.heap.cell s = some m →
        m.Covers ip bits := by
      intro i hi s m hs hm
      rcases Nat.lt_succ_iff_lt_or_eq.mp hi with hlt | rfl
      · exact hbefore i hlt s m hs hm
      · obtain rfl : p = s := some.inj (hw.at_chain.symm.trans hs)
        rwa [← cell_inj hw.cell hm]
    have hall : ∀ s m, t.heap.cell s = some m → m.Covers ip bits →
        ∃ i < k + 1, t.chain ip i = some s := by
      intro s m hs hm
      obtain ⟨i, hi, hc⟩ := hstop.index hL hw hs hm
      exact ⟨i, Nat.lt_succ_of_le hi, hc⟩
    by_cases hd : n.data.isSome
    · rw [if_pos ⟨hcov, hd⟩]
      have hhere := LastData.here hw.at_chain hw.cell (isSome_iff_ne_none.mp hd)
      exact ⟨some p, rfl, hhere.best hL hcov' hall⟩
    · rw [if_neg (fun h => hd h.2)]
      have hnone := not_isSome_iff_eq_none.mp hd
      exact ⟨o, ho, (hlast.succ hw.at_chain hw.cell hnone).best hL hcov' hall⟩
  · rw [if_neg (fun h => hcov h.1)]
    refine ⟨o, ho, hlast.best hL hbefore ?_⟩
    intro s m hs hm
    obtain ⟨i, hi, hc⟩ := hstop.index hL hw hs hm
    refine ⟨i, lt_of_le_of_ne hi ?_, hc⟩
    rintro rfl
    obtain rfl : p = s := some.inj (hw.at_chain.symm.trans hc)
    rw [cell_inj hw.cell hs] at hcov
    exact hcov hm

/-- **`cidr_get_closest_data_parent`** of a covering node finds the longest of the
shorter prefixes that cover the query. -/
theorem closestDataParent_best (hn : t.heap.cell p = some n) (hc : n.Covers ip bits) :
    ∃ o, closestDataParent t.heap n = some o ∧
      Best t (fun m => m.Covers ip bits ∧ m.bits < n.bits) o := by
  obtain ⟨j, hj⟩ := exists_chain hL hn hc
  obtain ⟨o, ho, hlast⟩ := closestDataParent_spec hL hj hn
  refine ⟨o, ho, hlast.best hL ?_ ?_⟩
  · intro i hi s m hs hm
    have hext := chain_extends hL hi hs hj hm hn
    exact ⟨hc.of_extends hext, hext.lt⟩
  rintro s m hs ⟨hm, hlt⟩
  obtain ⟨i, hi⟩ := exists_chain hL hs hm
  refine ⟨i, ?_, hi⟩
  by_contra hle
  rcases (not_lt.mp hle).lt_or_eq with hji | rfl
  · have := (chain_extends hL hji hj hi hn hs).lt
    omega
  · obtain rfl : s = p := some.inj (hi.symm.trans hj)
    rw [cell_inj hs hn] at hlt
    exact absurd hlt (lt_irrefl _)

/-- **The exact lookups** find the node of the prefix itself: `1` asks for one
with data, `2` for any. -/
theorem findNode_exact (hq : Covered ip bits) {isExact} (he : isExact ≠ 0) :
    ∃ o, t.findNode ip bits isExact = some o ∧ ∀ s, o = some s ↔ ∃ n, t.heap.cell s = some n ∧
      n.Covers ip bits ∧ n.bits = bits ∧ (n.data ≠ none ∨ isExact = 2) := by
  obtain ⟨k, p, n, hw, hstop, hfind⟩ := findNode_stop hL hq isExact
  -- only the node at which the descent ends can have the length of the query
  have honly : ∀ s m, t.heap.cell s = some m → m.Covers ip bits → m.bits = bits → s = p := by
    intro s m hs hm hb
    obtain ⟨i, hi, hc⟩ := hstop.index hL hw hs hm
    rcases hi.lt_or_eq with hlt | rfl
    · have := (hw.before i hlt s m hc hs).2
      omega
    · exact some.inj (hc.symm.trans hw.at_chain)
  rw [hfind, stopResult, if_neg he]
  simp only [← isSome_iff_ne_none]
  by_cases hp : n.Covers ip bits ∧ n.bits = bits ∧ (n.data.isSome ∨ isExact = 2)
  · rw [if_pos hp]
    refine ⟨some p, rfl, fun s => ⟨?_, ?_⟩⟩
    · intro h
      rw [← some.inj h]
      exact ⟨n, hw.cell, hp⟩
    · rintro ⟨m, hs, hm, hb, _⟩
      exact congrArg some (honly s m hs hm hb).symm
  · rw [if_neg hp]
    refine ⟨none, rfl, fun s => ⟨fun h => absurd h (by simp), ?_⟩⟩
    rintro ⟨m, hs, hm, hb, hdata⟩
    rw [honly s m hs hm hb] at hs
    rw [cell_inj hw.cell hs] at hp
    exact absurd ⟨hm, hb, hdata⟩ hp

end Chain

end CidrTree

end Ircu
