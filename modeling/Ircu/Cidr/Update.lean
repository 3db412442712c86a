import Ircu.Cidr.Lookup

/-!
The changes that `cidr_lookups.c` makes to a tree.

Each of them is put together from five elementary ones, which keep the tree
linked: new data for a node, a new leaf (`putLeaf`), a new node between a parent
and its child (`putAbove`), and the removals that undo the last two (`cutLeaf`
and `cutOut`). What a change does to the stored prefixes is said by `entryAt`,
the prefix and the data of a data-bearing node.

They keep the tree linked (`Linked.putLeaf` and the like), touch the entry of one node
at most (`entryAt_putLeaf`), and leave other nodes compact (`CompactAt.putLeaf`).
-/

namespace Ircu

open Prefix CidrTree Heap CidrNode Option

namespace CidrNode

variable {D : Type} (n : CidrNode D) (b c : Bool) (p : Option Ptr)

@[simp, grind =] lemma setChild_ip : (n.setChild b p).ip = n.ip := by cases b <;> rfl

@[simp, grind =] lemma setChild_bits : (n.setChild b p).bits = n.bits := by cases b <;> rfl

@[simp, grind =] lemma setChild_parent : (n.setChild b p).parent = n.parent := by cases b <;> rfl

@[simp, grind =] lemma setChild_data : (n.setChild b p).data = n.data := by cases b <;> rfl

@[simp, grind =] lemma child_setChild :
    (n.setChild b p).child c = if c = b then p else n.child c := by
  cases b <;> cases c <;> rfl

def entry : Option (InAddr × ℕ × D) := n.data.map (n.ip, n.bits, ·)

@[simp] lemma entry_setChild : (n.setChild b p).entry = n.entry := by simp [entry]

@[simp] lemma entry_with_parent (q : Option Ptr) :
    entry { n with parent := q } = n.entry := rfl

@[simp, grind =] lemma child_with_parent (q : Option Ptr) :
    child { n with parent := q } c = n.child c := rfl

@[simp, grind =] lemma child_with_data (d : Option D) :
    child { n with data := d } c = n.child c := rfl

end CidrNode

namespace CidrTree

variable {D : Type} {t : CidrTree D}

abbrev onHeap (t : CidrTree D) (h : Heap (CidrNode D)) : CidrTree D := { t with heap := h }

/-! ### Elementary changes -/

/-- A new leaf `v` at the address `x`, on the side `b` of `p`. -/
def putLeaf (h : Heap (CidrNode D)) (x p : Ptr) (b : Bool) (v : CidrNode D) :
    Heap (CidrNode D) :=
  (h.insert x { v with parent := some p }).modify p (·.setChild b (some x))

/-- A new node `v` at the address `x`, between `q` and its child `p` on the side
`b`, with `p` on its side `c`. -/
def putAbove (h : Heap (CidrNode D)) (x q : Ptr) (b : Bool) (p : Ptr) (v : CidrNode D)
    (c : Bool) : Heap (CidrNode D) :=
  ((h.insert x (CidrNode.setChild { v with parent := some q } c (some p))).modify q
    (·.setChild b (some x))).modify p ({ · with parent := some x })

/-- The leaf `p` is taken from the side `b` of `q`. -/
def cutLeaf (h : Heap (CidrNode D)) (q : Ptr) (b : Bool) (p : Ptr) : Heap (CidrNode D) :=
  (h.modify q (·.setChild b none)).free p

/-- The only child `s` of `p` takes its place on the side `b` of `q`. -/
def cutOut (h : Heap (CidrNode D)) (q : Ptr) (b : Bool) (p s : Ptr) : Heap (CidrNode D) :=
  ((h.modify s ({ · with parent := some q })).modify q (·.setChild b (some s))).free p

section Cells

variable {h : Heap (CidrNode D)} {x q p s : Ptr} {m n k v : CidrNode D} {b c : Bool}

lemma cell_putLeaf (hx : h.cell x = none) (hp : h.cell p = some m) (z : Ptr) :
    (putLeaf h x p b v).cell z = if z = p then some (m.setChild b (some x))
      else if z = x then some { v with parent := some p } else h.cell z := by
  simp only [putLeaf, cell_modify, cell_insert]
  split_ifs <;> simp_all

lemma cell_putAbove (hx : h.cell x = none) (hq : h.cell q = some m) (hp : h.cell p = some n)
    (hne : q ≠ p) (z : Ptr) : (putAbove h x q b p v c).cell z =
      if z = q then some (m.setChild b (some x)) else if z = p then some { n with parent := some x }
      else if z = x then some (setChild { v with parent := some q } c (some p))
      else h.cell z := by
  simp only [putAbove, cell_modify, cell_insert]
  split_ifs <;> simp_all

lemma cell_cutLeaf (hq : h.cell q = some m) (z : Ptr) : (cutLeaf h q b p).cell z =
    if z = p then none else if z = q then some (m.setChild b none) else h.cell z := by
  simp only [cutLeaf, cell_modify, cell_free]
  split_ifs <;> simp_all

lemma cell_cutOut (hq : h.cell q = some m) (hs : h.cell s = some k) (hne : q ≠ s) (z : Ptr) :
    (cutOut h q b p s).cell z = if z = p then none else if z = q then some (m.setChild b (some s))
      else if z = s then some { k with parent := some q }
      else h.cell z := by
  simp only [cutOut, cell_modify, cell_free]
  split_ifs <;> simp_all

end Cells

namespace Linked

lemma child_of_parent (hL : t.Linked) {p q : Ptr} {n} (hp : t.heap.cell p = some n)
    (hq : n.parent = some q) : ∃ m, t.heap.cell q = some m ∧ m.child (getBit n.ip m.bits) = some p ∧
      n.Extends m (getBit n.ip m.bits) := by
  obtain ⟨m, hm, hc⟩ := hL.up hp hq
  obtain ⟨n', hn', _, hext⟩ := hL.down hm hc
  obtain rfl := cell_inj hp hn'
  exact ⟨m, hm, hc, hext⟩

lemma link (hL : t.Linked) {q p : Ptr} {m b} (hq : t.heap.cell q = some m)
    (hc : m.child b = some p) :
    ∃ n, t.heap.cell p = some n ∧ n.parent = some q ∧ q ≠ p ∧ n.Extends m b ∧
      m.child (!b) ≠ some p := by
  obtain ⟨n, hn, hpar, hext⟩ := hL.down hq hc
  refine ⟨n, hn, hpar, ?_, hext, ?_⟩
  · rintro rfl
    obtain rfl := cell_inj hq hn
    exact lt_irrefl _ hext.lt
  intro hc'
  obtain ⟨n', hn', _, hext'⟩ := hL.down hq hc'
  obtain rfl := cell_inj hn hn'
  have := hext.side.symm.trans hext'.side
  simp at this

lemma link_cell (hL : t.Linked) {q p : Ptr} {m n b}
    (hq : t.heap.cell q = some m) (hc : m.child b = some p) (hp : t.heap.cell p = some n) :
    n.parent = some q ∧ q ≠ p ∧ n.Extends m b ∧ m.child (!b) ≠ some p := by
  obtain ⟨n', hn', h⟩ := hL.link hq hc
  exact cell_inj hp hn' ▸ h

lemma of_change (hL : t.Linked) {h : Heap (CidrNode D)} (hold : ∀ {z k}, h.cell z = some k →
      (∃ n, t.heap.cell z = some n ∧ n.ip = k.ip ∧ n.bits = k.bits ∧
        (k.parent = none → n.parent = none)) ∨ (Covered k.ip k.bits ∧ k.parent ≠ none))
    (hroot : ∀ {z n}, t.heap.cell z = some n → n.parent = none →
      ∃ k, h.cell z = some k ∧ k.ip = n.ip ∧ k.bits = n.bits ∧ k.parent = none)
    (hup : ∀ {p n q}, h.cell p = some n → n.parent = some q →
      ∃ m, h.cell q = some m ∧ m.child (getBit n.ip m.bits) = some p)
    (hdown : ∀ {q m b p}, h.cell q = some m → m.child b = some p →
      ∃ n, h.cell p = some n ∧ n.parent = some q ∧ n.Extends m b) : Linked (t.onHeap h) where
  base v4 := by
    obtain ⟨n, hn, hpar, hf, hbits⟩ := hL.base v4
    obtain ⟨k, hk, hip, hkb, hkp⟩ := hroot hn hpar
    exact ⟨k, hk, hkp, by rw [hip, hf], by rw [hkb, hbits]⟩
  covered hk := by
    obtain ⟨n, hn, hip, hb, _⟩ | ⟨hc, _⟩ := hold hk
    · rw [← hip, ← hb]
      exact hL.covered hn
    · exact hc
  orphan hk hpar := by
    obtain ⟨n, hn, hip, _, hp⟩ | ⟨_, hne⟩ := hold hk
    · have := hL.orphan hn (hp hpar)
      rwa [hip] at this
    · exact absurd hpar hne
  up := hup
  down := hdown

section

variable (hL : t.Linked) {x q p s : Ptr} {m n v : CidrNode D} {b c : Bool}
include hL

lemma grand_ne (hq : t.heap.cell q = some m) (hb : m.child b = some p)
    (hp : t.heap.cell p = some n) (hs : n.child c = some s) : q ≠ s := by
  rintro rfl
  obtain ⟨_, _, hext, _⟩ := hL.link_cell hq hb hp
  obtain ⟨_, _, hextk, _⟩ := hL.link_cell hp hs hq
  exact absurd (hext.lt.trans hextk.lt) (lt_irrefl _)

lemma putLeaf (hx : t.heap.cell x = none) (hp : t.heap.cell p = some m) (hb : m.child b = none)
    (hv : v.Extends m b) (hcov : Covered v.ip v.bits) (hleaf : ∀ c, v.child c = none) :
    Linked (t.onHeap (putLeaf t.heap x p b v)) := by
  have hcell := cell_putLeaf (v := v) (b := b) hx hp
  refine hL.of_change ?_ ?_ ?_ ?_
  all_goals grind [CidrNode.Extends, hL.up, hL.link]

lemma putAbove (hx : t.heap.cell x = none) (hq : t.heap.cell q = some m) (hb : m.child b = some p)
    (hp : t.heap.cell p = some n) (hv : v.Extends m b) (hn : n.Extends v c)
    (hcov : Covered v.ip v.bits) (hleaf : ∀ c, v.child c = none) :
    Linked (t.onHeap (putAbove t.heap x q b p v c)) := by
  obtain ⟨hpar, hne, _, hother⟩ := hL.link_cell hq hb hp
  have hcell := cell_putAbove (v := v) (b := b) (c := c) hx hq hp hne
  refine hL.of_change ?_ ?_ ?_ ?_
  all_goals grind [CidrNode.Extends, hL.up, hL.link]

lemma cutLeaf (hp : t.heap.cell p = some n) (hleaf : ∀ c, n.child c = none)
    (hq : t.heap.cell q = some m) (hb : m.child b = some p) :
    Linked (t.onHeap (cutLeaf t.heap q b p)) := by
  obtain ⟨hpar, hne, _, hother⟩ := hL.link_cell hq hb hp
  have hcell := cell_cutLeaf (b := b) (p := p) hq
  refine hL.of_change ?_ ?_ ?_ ?_
  all_goals grind [CidrNode.Extends, hL.up, hL.link]

lemma cutOut {k} (hp : t.heap.cell p = some n) (hs : n.child c = some s)
    (honly : n.child (!c) = none) (hk : t.heap.cell s = some k) (hq : t.heap.cell q = some m)
    (hb : m.child b = some p) : Linked (t.onHeap (cutOut t.heap q b p s)) := by
  obtain ⟨hpar, hne, hext, hother⟩ := hL.link_cell hq hb hp
  obtain ⟨hpark, hnek, hextk, hotherk⟩ := hL.link_cell hp hs hk
  have hqs := hL.grand_ne hq hb hp hs
  have hext' : k.Extends m b := ⟨hextk.family.trans hext.family, hext.lt.trans hextk.lt,
    hext.agree.trans (hextk.agree.mono hext.lt.le), by
      rw [← hextk.agree _ hext.lt, hext.side]⟩
  have hsole : ∀ d z, n.child d = some z → z = s := by
    intro d z hz
    by_cases hd : d = c
    · rw [hd, hs] at hz
      exact (some.inj hz).symm
    · rw [Bool.eq_not_of_ne hd, honly] at hz
      exact absurd hz (by simp)
  have hcell := cell_cutOut (b := b) (p := p) hq hk hqs
  refine hL.of_change ?_ ?_ ?_ ?_
  all_goals grind [CidrNode.Extends, hL.up, hL.link]

end

end Linked

/-! ### Entries -/

/-- The prefix and the data of a data-bearing node. -/
def entryAt (t : CidrTree D) (z : Ptr) : Option (InAddr × ℕ × D) := (t.heap.cell z).bind (·.entry)

lemma entryAt_eq_some {z e} : t.entryAt z = some e ↔
      ∃ n, t.heap.cell z = some n ∧ n.ip = e.1 ∧ n.bits = e.2.1 ∧ n.data = some e.2.2 := by
  obtain ⟨ip, bits, d⟩ := e
  simp only [entryAt, entry, bind_eq_some_iff, map_eq_some_iff, Prod.mk.injEq]
  constructor
  · rintro ⟨n, hn, d, hd, rfl, rfl, rfl⟩
    exact ⟨n, hn, rfl, rfl, hd⟩
  · rintro ⟨n, hn, rfl, rfl, hd⟩
    exact ⟨n, hn, d, hd, rfl, rfl, rfl⟩

/-- A node without data has two children, or is a root. -/
def CompactAt (t : CidrTree D) (z : Ptr) : Prop :=
  ∀ n, t.heap.cell z = some n → n.parent ≠ none → n.data = none → ∀ b, n.child b ≠ none

section

variable {x q p s : Ptr} {m n k v : CidrNode D} {b c : Bool}

lemma entryAt_putLeaf (hx : t.heap.cell x = none) (hp : t.heap.cell p = some m) (z) :
    (t.onHeap (putLeaf t.heap x p b v)).entryAt z = if z = x then v.entry else t.entryAt z := by
  simp only [entryAt, cell_putLeaf hx hp]
  split_ifs <;> simp_all

lemma entryAt_putAbove (hx : t.heap.cell x = none) (hq : t.heap.cell q = some m)
    (hp : t.heap.cell p = some n) (hne : q ≠ p) (z) :
    (t.onHeap (putAbove t.heap x q b p v c)).entryAt z =
      if z = x then v.entry else t.entryAt z := by
  simp only [entryAt, cell_putAbove hx hq hp hne]
  split_ifs <;> simp_all

lemma entryAt_cutLeaf (hq : t.heap.cell q = some m) (z) :
    (t.onHeap (cutLeaf t.heap q b p)).entryAt z = if z = p then none else t.entryAt z := by
  simp only [entryAt, cell_cutLeaf hq]
  split_ifs <;> simp_all

lemma entryAt_cutOut (hq : t.heap.cell q = some m) (hs : t.heap.cell s = some k) (hne : q ≠ s) (z) :
    (t.onHeap (cutOut t.heap q b p s)).entryAt z = if z = p then none else t.entryAt z := by
  simp only [entryAt, cell_cutOut hq hs hne]
  split_ifs <;> simp_all

lemma CompactAt.putLeaf {z} (h : t.CompactAt z) (hx : t.heap.cell x = none)
    (hp : t.heap.cell p = some m) (hz : z ≠ x) :
    (t.onHeap (putLeaf t.heap x p b v)).CompactAt z := by
  simp only [CompactAt, cell_putLeaf hx hp] at h ⊢
  grind

lemma CompactAt.putAbove {z} (h : t.CompactAt z) (hx : t.heap.cell x = none)
    (hq : t.heap.cell q = some m) (hp : t.heap.cell p = some n) (hne : q ≠ p)
    (hpar : n.parent ≠ none) (hz : z ≠ x) :
    (t.onHeap (putAbove t.heap x q b p v c)).CompactAt z := by
  simp only [CompactAt, cell_putAbove hx hq hp hne] at h ⊢
  grind

lemma CompactAt.cutLeaf {z} (h : t.CompactAt z) (hq : t.heap.cell q = some m)
    (hz : z ≠ q) : (t.onHeap (cutLeaf t.heap q b p)).CompactAt z := by
  simp only [CompactAt, cell_cutLeaf hq] at h ⊢
  grind

lemma CompactAt.cutOut {z} (h : t.CompactAt z) (hq : t.heap.cell q = some m)
    (hs : t.heap.cell s = some k) (hne : q ≠ s) (hpar : k.parent ≠ none) :
    (t.onHeap (cutOut t.heap q b p s)).CompactAt z := by
  simp only [CompactAt, cell_cutOut hq hs hne] at h ⊢
  grind

end

end CidrTree

end Ircu
