import Ircu.Cidr.Remove
import Ircu.Ipmask

/-!
The CIDR tree as a set of prefixes.

What the tree is for is said by a list of entries: an insertion replaces the
entry of its prefix, a removal drops an entry, and a lookup scans the list for
the longest prefix that covers the query. `Stores` relates a tree in memory to
such a list, and every operation keeps it.

* `Stores.add`, `Stores.rem`, `Stores.remByCidr`, `Stores.clear`: the operations
  return, and change the tree as they change the list.
* `Stores.findNode`: the lookup returns the node of the entry that the scan finds.
-/

namespace Ircu

open Prefix Option List CidrTree Heap

/-- A stored prefix, with the node that `cidr_add_node` returned for it. -/
structure Entry (D : Type) where
  node : Ptr
  ip : InAddr
  bits : ℕ
  data : D

namespace Entry

variable {D : Type}

/-- The prefix of the entry contains `ip/bits`, in one family. -/
def covers (ip : InAddr) (bits : ℕ) (e : Entry D) : Bool :=
  decide (isIpv4 e.ip = isIpv4 ip ∧ e.bits ≤ bits ∧ Agree getBit e.ip ip e.bits)

def isFor (ip : InAddr) (bits : ℕ) (e : Entry D) : Bool := e.covers ip bits && e.bits == bits

end Entry

/-- The longest stored prefix that contains `ip/bits`, by a linear scan. -/
def scan {D : Type} (es : List (Entry D)) (ip : InAddr) (bits : ℕ) : Option (Entry D) :=
  longest (Entry.covers ip bits) Entry.bits es

inductive TreeOp (D : Type)
  | add (ip : InAddr) (bits : ℕ) (data : D)
  | remByCidr (ip : InAddr) (bits : ℕ)
  | rem (node : Option Ptr)
  /-- `node->data = NULL` and `cidr_rem_empty_node`. -/
  | clear (node : Ptr)

/-- A tree, and the list of the prefixes it should hold. -/
structure CidrStore (D : Type) where
  tree : CidrTree D
  entries : List (Entry D)

namespace CidrStore

variable {D : Type}

def new : CidrStore D := ⟨CidrTree.newTree, []⟩

variable (s : CidrStore D)

def run : TreeOp D → Option (CidrStore D)
  | .add ip bits data => do
      let (tree, node) ← s.tree.addNode ip bits (some data)
      return ⟨tree, ⟨node, ip, bits, data⟩ :: s.entries.filter (!·.isFor ip bits)⟩
  | .remByCidr ip bits => do
      let (tree, _) ← s.tree.remNodeByCidr ip bits
      return ⟨tree, s.entries.filter (!·.isFor ip bits)⟩
  | .rem node => do
      let (tree, _) ← s.tree.remNode node
      return ⟨tree, s.entries.filter (some ·.node ≠ node)⟩
  | .clear node => do
      let tree ← s.tree.setData node none
      let (tree, _) ← tree.remEmptyNode (some node)
      return ⟨tree, s.entries.filter (·.node ≠ node)⟩

/-- The arguments are prefixes covered by the root of their family, and nodes of
the tree. -/
def Valid : TreeOp D → Prop
  | .add ip bits _ => Covered ip bits
  | .remByCidr ip bits => Covered ip bits
  | .rem node => ∀ p, node = some p → (s.tree.heap.cell p).isSome
  | .clear p => (s.tree.heap.cell p).isSome

def Step (s s' : CidrStore D) : Prop := ∃ op, s.Valid op ∧ s.run op = some s'

/-- What a run of calls can make of a new tree. -/
def Reachable : Prop := Relation.ReflTransGen Step new s

end CidrStore

/-! ### The relation between tree and list -/

namespace CidrTree

variable {D : Type} {t t' : CidrTree D} {es : List (Entry D)} {e : Entry D} {ip : InAddr}
  {bits : ℕ} {p x : Ptr} {n : CidrNode D}

def Holds (t : CidrTree D) (e : Entry D) : Prop :=
  ∃ ip, t.entryAt e.node = some (ip, e.bits, e.data) ∧ isIpv4 ip = isIpv4 e.ip ∧
    Agree getBit ip e.ip e.bits

structure Stores (t : CidrTree D) (es : List (Entry D)) : Prop where
  linked : t.Linked
  compact : ∀ z, t.CompactAt z
  holds : ∀ e ∈ es, t.Holds e
  entry : ∀ z, t.entryAt z ≠ none → ∃ e ∈ es, e.node = z
  inj : ∀ e ∈ es, ∀ e' ∈ es, e.node = e'.node → e = e'

lemma Holds.cell (h : t.Holds e) : ∃ n, t.heap.cell e.node = some n ∧ n.data = some e.data ∧
    n.bits = e.bits ∧ isIpv4 n.ip = isIpv4 e.ip ∧ Agree getBit n.ip e.ip e.bits := by
  obtain ⟨ip, hent, hfam, hagree⟩ := h
  obtain ⟨n, hn, rfl, hb, hd⟩ := entryAt_eq_some.mp hent
  exact ⟨n, hn, hd, hb, hfam, hagree⟩

lemma Holds.congr (h : t.Holds e) (heq : t'.entryAt e.node = t.entryAt e.node) : t'.Holds e := by
  obtain ⟨ip, hent, hrest⟩ := h
  exact ⟨ip, heq.trans hent, hrest⟩

lemma Holds.covers_iff (h : t.Holds e) (hn : t.heap.cell e.node = some n) :
    e.covers ip bits = true ↔ n.Covers ip bits := by
  obtain ⟨n', hn', _, hb, hfam, hagree⟩ := h.cell
  obtain rfl := cell_inj hn hn'
  rw [Entry.covers, decide_eq_true_eq]
  constructor
  · rintro ⟨hf, hle, ha⟩
    exact ⟨hfam.trans hf, hb.trans_le hle, by rw [hb]; exact hagree.trans ha⟩
  · rintro ⟨hf, hle, ha⟩
    rw [hb] at hle ha
    exact ⟨hfam.symm.trans hf, hle, hagree.symm.trans ha⟩

lemma Holds.isFor_iff (h : t.Holds e) (hn : t.heap.cell e.node = some n) :
    e.isFor ip bits = true ↔ n.Covers ip bits ∧ n.bits = bits := by
  obtain ⟨n', hn', _, hb, _⟩ := h.cell
  obtain rfl := cell_inj hn hn'
  rw [Entry.isFor, Bool.and_eq_true, h.covers_iff hn, beq_iff_eq, hb]

lemma Linked.unique (hL : t.Linked) (hq : Covered ip bits) {m}
    (hp : t.heap.cell p = some n) (hx : t.heap.cell x = some m) (hn : n.Covers ip bits)
    (hnb : n.bits = bits) (hm : m.Covers ip bits) (hmb : m.bits = bits) : p = x := by
  obtain ⟨o, _, ho⟩ := findNode_exact hL hq (by decide : 2 ≠ 0)
  have hop := (ho p).mpr ⟨n, hp, hn, hnb, .inr rfl⟩
  have hox := (ho x).mpr ⟨m, hx, hm, hmb, .inr rfl⟩
  exact some.inj (hop.symm.trans hox)

lemma isIpv4_baseIp (v4 : Bool) : isIpv4 (baseIp v4) = v4 := by cases v4 <;> decide

lemma newTree_cell {z : Ptr} (hn : (newTree).heap.cell z = some n) :
    ∃ v4, z = (newTree (D := D)).rootOf v4 ∧ n = createNode (baseIp v4) (baseBits v4) none := by
  simp only [newTree, cell_alloc, next_alloc, empty] at hn
  split_ifs at hn with h1 h0
  · exact ⟨false, h1, (some.inj hn).symm⟩
  · exact ⟨true, h0, (some.inj hn).symm⟩

lemma entryAt_newTree (z) : (newTree (D := D)).entryAt z = none := by
  by_contra hne
  obtain ⟨e, he⟩ := ne_none_iff_exists'.mp hne
  obtain ⟨n, hn, _, _, hd⟩ := entryAt_eq_some.mp he
  obtain ⟨v4, _, rfl⟩ := newTree_cell hn
  simp [createNode] at hd

lemma stores_newTree : Stores (newTree (D := D)) [] where
  linked := by
    refine ⟨?_, ?_, ?_, ?_, ?_⟩
    · intro v4
      exact ⟨createNode (baseIp v4) (baseBits v4) none, by cases v4 <;> rfl, rfl,
        isIpv4_baseIp v4, rfl⟩
    · intro p n hn
      obtain ⟨v4, _, rfl⟩ := newTree_cell hn
      simp only [createNode]
      exact ⟨by rw [isIpv4_baseIp], by cases v4 <;> decide, by rw [isIpv4_baseIp]; exact .refl _ _⟩
    · intro p n hn _
      obtain ⟨v4, rfl, rfl⟩ := newTree_cell hn
      rw [createNode, root_eq, isIpv4_baseIp]
    · intro p n q hn hq
      obtain ⟨v4, _, rfl⟩ := newTree_cell hn
      exact absurd hq (by simp [createNode])
    · intro q m b p hm hp
      obtain ⟨v4, _, rfl⟩ := newTree_cell hm
      simp [child_createNode] at hp
  compact z n hn hpar := by
    obtain ⟨v4, _, rfl⟩ := newTree_cell hn
    exact absurd rfl hpar
  holds e he := absurd he not_mem_nil
  entry z hz := absurd (entryAt_newTree z) hz
  inj e he := absurd he not_mem_nil

namespace Stores

variable (h : Stores t es)
include h

lemma removed (hr : Removed t t' p) : Stores t' (es.filter (some ·.node ≠ some p)) where
  linked := hr.linked
  compact := hr.compact
  holds e he := by
    obtain ⟨hmem, hne⟩ := mem_filter.mp he
    exact (h.holds e hmem).congr (by rw [hr.entries, if_neg (by simpa using hne)])
  entry z hz := by
    rw [hr.entries] at hz
    split_ifs at hz with hzp
    · exact absurd rfl hz
    · obtain ⟨e, hmem, rfl⟩ := h.entry z hz
      exact ⟨e, mem_filter.mpr ⟨hmem, by simpa using hzp⟩, rfl⟩
  inj e he e' he' := h.inj e (mem_of_mem_filter he) e' (mem_of_mem_filter he')

lemma filter_eq_self (hp : t.entryAt p = none) : es.filter (some ·.node ≠ some p) = es := by
  rw [List.filter_eq_self]
  intro e he
  obtain ⟨ip, hent, _⟩ := h.holds e he
  have hne : e.node ≠ p := by
    rintro rfl
    simp [hent] at hp
  simpa using hne

lemma rem {node : Option Ptr} (hlive : ∀ p, node = some p → (t.heap.cell p).isSome) :
    ∃ t' r, t.remNode node = some (t', r) ∧ Stores t' (es.filter (some ·.node ≠ node)) := by
  cases node with
  | none => exact ⟨t, 0, rfl, by simpa using h⟩
  | some p =>
    obtain ⟨n, hp⟩ := isSome_iff_exists.mp (hlive p rfl)
    cases hd : n.data with
    | none =>
      refine ⟨t, 0, by simp [remNode, hp, hd], ?_⟩
      rw [h.filter_eq_self (entryAt_of_data hp hd)]
      exact h
    | some d =>
      obtain ⟨hp', r, hrun, hrem⟩ := removed_of_collapse h.linked h.compact hp
      refine ⟨t.onHeap hp', 1, ?_, h.removed hrem⟩
      simp [remNode, hp, hd, store_eq, hrun]

lemma remByCidr (hq : Covered ip bits) :
    ∃ t' r, t.remNodeByCidr ip bits = some (t', r) ∧ Stores t' (es.filter (!·.isFor ip bits)) := by
  obtain ⟨o, hfind, ho⟩ := findNode_exact h.linked hq (by decide : 1 ≠ 0)
  -- an entry is dropped if and only if the exact lookup has found its node
  have hsame : ∀ e ∈ es, (!e.isFor ip bits) = decide (some e.node ≠ o) := by
    intro e he
    obtain ⟨n, hn, hd, _⟩ := (h.holds e he).cell
    have hiff : e.isFor ip bits = true ↔ some e.node = o := by
      rw [(h.holds e he).isFor_iff hn, @eq_comm _ (some e.node), ho e.node]
      simp [hn, hd]
    rw [Bool.eq_iff_iff, Bool.not_eq_true', ← Bool.not_eq_true, hiff, decide_eq_true_eq]
  have hlive : ∀ p, o = some p → (t.heap.cell p).isSome := by
    intro p hp
    obtain ⟨n, hn, _⟩ := (ho p).mp hp
    simp [hn]
  obtain ⟨t', r, hrun, hst⟩ := h.rem hlive
  refine ⟨t', r, by simp [remNodeByCidr, hfind, hrun], ?_⟩
  rwa [filter_congr hsame]

lemma clear (hlive : (t.heap.cell p).isSome) :
    ∃ t₁ t' r, t.setData p none = some t₁ ∧ t₁.remEmptyNode (some p) = some (t', r) ∧
      Stores t' (es.filter (·.node ≠ p)) := by
  obtain ⟨n, hp⟩ := isSome_iff_exists.mp hlive
  obtain ⟨hp', r, hrun, hrem⟩ := removed_of_collapse h.linked h.compact hp
  refine ⟨t.onHeap (t.heap.modify p ({ · with data := none })), t.onHeap hp', r, ?_, ?_, ?_⟩
  · simp [setData, store_eq hlive]
  · simp [remEmptyNode, hp, hrun]
  · simpa using h.removed hrem

lemma add (hq : Covered ip bits) (data) : ∃ t' x, t.addNode ip bits (some data) = some (t', x) ∧
      Stores t' (⟨x, ip, bits, data⟩ :: es.filter (!·.isFor ip bits)) := by
  obtain ⟨hp', x, hrun, hadd⟩ := addNode_spec h.linked hq (some data)
  obtain ⟨m, hm, hmc, hmb, hmd⟩ := hadd.node
  -- the entries that are dropped are those of the node that is returned
  have hkeep : ∀ e ∈ es, e.isFor ip bits = true ↔ e.node = x := by
    intro e he
    obtain ⟨n, hn, _⟩ := (h.holds e he).cell
    constructor
    · intro hf
      by_contra hne
      have hhold := (h.holds e he).congr (hadd.others e.node hne)
      obtain ⟨n', hn', _⟩ := hhold.cell
      obtain ⟨hc, hb⟩ := (hhold.isFor_iff hn').mp hf
      exact hne (hadd.linked.unique hq hn' hm hc hb hmc hmb)
    · rintro rfl
      exact ((h.holds e he).isFor_iff hn).mpr (hadd.old n hn)
  have hfilter : ∀ e, e ∈ es.filter (!·.isFor ip bits) ↔ e ∈ es ∧ e.node ≠ x := by
    intro e
    rw [mem_filter]
    exact and_congr_right fun he => by
      rw [Bool.not_eq_true', ← Bool.not_eq_true, hkeep e he]
  have hx : (t.onHeap hp').entryAt x = some (m.ip, bits, data) :=
    entryAt_eq_some.mpr ⟨m, hm, rfl, hmb, hmd⟩
  refine ⟨t.onHeap hp', x, hrun, hadd.linked, ?_, ?_, ?_, ?_⟩
  · intro z
    by_cases hz : z = x
    · intro k hk _ hd
      rw [hz] at hk
      obtain rfl := cell_inj hm hk
      simp [hmd] at hd
    · exact hadd.compact h.compact z hz
  · intro e he
    rcases mem_cons.mp he with rfl | he
    · exact ⟨m.ip, hx, hmc.family, by rw [← hmb]; exact hmc.agree⟩
    · obtain ⟨hmem, hne⟩ := (hfilter e).mp he
      exact (h.holds e hmem).congr (hadd.others _ hne)
  · intro z hz
    by_cases hzx : z = x
    · exact ⟨_, mem_cons_self, hzx.symm⟩
    · rw [hadd.others z hzx] at hz
      obtain ⟨e, hmem, rfl⟩ := h.entry z hz
      exact ⟨e, mem_cons_of_mem _ ((hfilter e).mpr ⟨hmem, hzx⟩), rfl⟩
  · intro e he e' he' heq
    rcases mem_cons.mp he with rfl | he <;> rcases mem_cons.mp he' with rfl | he'
    · rfl
    · exact absurd heq.symm ((hfilter e').mp he').2
    · exact absurd heq ((hfilter e).mp he).2
    · exact h.inj e ((hfilter e).mp he).1 e' ((hfilter e').mp he').1 heq

/-- **The lookup is the scan**: `_cidr_find_node` returns the node of the entry
that a scan of the list finds. -/
lemma findNode (hq : Covered ip bits) :
    t.findNode ip bits 0 = some ((scan es ip bits).map (·.node)) := by
  obtain ⟨o, hfind, hbest⟩ := findNode_best h.linked hq
  rw [hfind]
  cases o with
  | none =>
    have hnone : scan es ip bits = none := by
      rw [scan, longest_eq_none]
      intro e he
      obtain ⟨n, hn, hd, _⟩ := (h.holds e he).cell
      by_contra hc
      rw [Bool.not_eq_false, (h.holds e he).covers_iff hn] at hc
      simp [hbest e.node n hn hc] at hd
    rw [hnone, map_none]
  | some s =>
    obtain ⟨n, hs, hc, hd, hmax⟩ := hbest
    obtain ⟨d, hd⟩ := ne_none_iff_exists'.mp hd
    have hent : t.entryAt s = some (n.ip, n.bits, d) := entryAt_eq_some.mpr ⟨n, hs, rfl, rfl, hd⟩
    obtain ⟨e, he, rfl⟩ := h.entry s (by simp [hent])
    obtain ⟨n', hn', _, hb, _⟩ := (h.holds e he).cell
    obtain rfl := cell_inj hs hn'
    have hscan : scan es ip bits = some e := by
      refine longest_eq_some he (((h.holds e he).covers_iff hs).mpr hc) ?_
      intro e' he' hc' hne
      obtain ⟨k, hk, hkd, hkb, _⟩ := (h.holds e' he').cell
      rw [← hb, ← hkb]
      exact hmax e'.node k hk (((h.holds e' he').covers_iff hk).mp hc') (by simp [hkd])
        fun heq => hne (h.inj e' he' e he heq)
    rw [hscan, map_some]

end Stores

end CidrTree

namespace CidrStore

variable {D : Type} {s s' : CidrStore D}

lemma run_spec (h : s.tree.Stores s.entries) {op} (hop : s.Valid op) :
    ∃ s', s.run op = some s' ∧ s'.tree.Stores s'.entries := by
  cases op with
  | add ip bits data =>
    obtain ⟨t', x, hrun, hst⟩ := h.add hop data
    exact ⟨⟨t', _⟩, by rw [run, hrun]; rfl, hst⟩
  | remByCidr ip bits =>
    obtain ⟨t', r, hrun, hst⟩ := h.remByCidr hop
    exact ⟨⟨t', _⟩, by rw [run, hrun]; rfl, hst⟩
  | rem node =>
    obtain ⟨t', r, hrun, hst⟩ := h.rem hop
    exact ⟨⟨t', _⟩, by rw [run, hrun]; rfl, hst⟩
  | clear p =>
    obtain ⟨t1, t', r, hset, hrun, hst⟩ := h.clear hop
    exact ⟨⟨t', _⟩, by simp only [run, hset, hrun, bind_eq_bind, bind_some]; rfl, hst⟩

lemma Reachable.stores (h : s.Reachable) : s.tree.Stores s.entries := by
  induction h with
  | refl => exact stores_newTree
  | tail _ hstep ih =>
    obtain ⟨op, hop, hrun⟩ := hstep
    obtain ⟨s', hrun', hst⟩ := run_spec ih hop
    rw [hrun] at hrun'
    rwa [some.inj hrun']

/-- **Longest prefix match.** After every run of insertions and removals every further call returns,
every stored prefix has its node, and the lookup of a covered prefix returns the node that a linear
scan finds, or null. -/
theorem findNode_eq_scan (h : s.Reachable) :
    (∀ op, s.Valid op → ∃ s', s.run op = some s') ∧
    (∀ e ∈ s.entries, s.tree.Holds e) ∧
    ∀ ip bits, Covered ip bits →
      s.tree.findNode ip bits 0 = some ((scan s.entries ip bits).map (·.node)) := by
  refine ⟨?_, h.stores.holds, fun ip bits hq => h.stores.findNode hq⟩
  intro op hop
  obtain ⟨s', hrun, _⟩ := run_spec h.stores hop
  exact ⟨s', hrun⟩

lemma Reachable.get (h : s.Reachable) (op : TreeOp D) (hop : s.Valid op)
    (hrun : (s.run op).isSome) : ((s.run op).get hrun).Reachable :=
  h.tail ⟨op, hop, (some_get hrun).symm⟩

/-- `10.0.0.0/8`, `10.1.0.0/16` and `10.2.0.0/16` are inserted and the second one is removed again,
with the virtual node above it. -/
lemma exists_removed : ∃ s : CidrStore ℕ, s.Reachable ∧ s.entries.map (·.data) = [3, 1] ∧
    (scan s.entries (mapped 0x0a02 0x0304) 128).map (·.data) = some 3 := by
  have h1 := Reachable.get .refl (.add (mapped 0x0a00 0) 104 1)
    (by decide : Covered _ _) (by decide)
  have h2 := h1.get (.add (mapped 0x0a01 0) 112 2) (by decide : Covered _ _) (by decide)
  have h3 := h2.get (.add (mapped 0x0a02 0) 112 3) (by decide : Covered _ _) (by decide)
  have h4 := h3.get (.remByCidr (mapped 0x0a01 0) 112) (by decide : Covered _ _) (by decide)
  exact ⟨_, h4, by decide, by decide⟩

/-- The lookup of `10.2.3.4` goes through a tree whose virtual node has been collapsed. -/
theorem findNode_eq_scan_apply :
    ∃ s : CidrStore ℕ, s.Reachable ∧
      (scan s.entries (mapped 0x0a02 0x0304) 128).map (·.data) = some 3 ∧
      s.tree.findNode (mapped 0x0a02 0x0304) 128 0 =
        some ((scan s.entries (mapped 0x0a02 0x0304) 128).map (·.node)) := by
  obtain ⟨s, h, -, hscan⟩ := exists_removed
  exact ⟨s, h, hscan, (findNode_eq_scan h).2.2 _ _ (by decide)⟩

/-- **The shape of the tree.** After every run it is linked in both directions, with prefixes that
grow downwards; a node without data is a root or holds two subtrees together; and the nodes with
data are those of the entries. -/
theorem tree_shape (h : s.Reachable) :
    s.tree.Linked ∧ (∀ z, s.tree.CompactAt z) ∧
      ∀ z, s.tree.entryAt z ≠ none ↔ ∃ e ∈ s.entries, e.node = z := by
  refine ⟨h.stores.linked, h.stores.compact, fun z => ⟨h.stores.entry z, ?_⟩⟩
  rintro ⟨e, he, rfl⟩
  obtain ⟨ip, hent, -⟩ := h.stores.holds e he
  simp [hent]

/-- After a removal, no node is superfluous, and those with data are those of the two entries. -/
theorem tree_shape_removed :
    ∃ s : CidrStore ℕ, s.Reachable ∧ s.entries.map (·.data) = [3, 1] ∧
      (∀ z, s.tree.CompactAt z) ∧
      ∀ z, s.tree.entryAt z ≠ none ↔ ∃ e ∈ s.entries, e.node = z := by
  obtain ⟨s, h, hdata, -⟩ := exists_removed
  exact ⟨s, h, hdata, (tree_shape h).2⟩

/-! ### The masks of G-lines -/

lemma addNode_uncovered {t : CidrTree D} (hL : t.Linked) {ip bits}
    (hle : bits ≤ 128) (hnot : ¬ Covered ip bits) (data) : t.addNode ip bits data = none := by
  obtain ⟨n, hn, _, hfam, hbits⟩ := hL.base (isIpv4 ip)
  have hcov := hL.covered hn
  have hne : ¬ n.Covers ip bits := by
    intro hc
    have hagree := hcov.agree
    rw [hfam] at hagree
    exact hnot ⟨hbits ▸ hc.le, hle, hagree.trans (hbits ▸ hc.agree)⟩
  obtain ⟨hdn, hdb, -, hiff, -⟩ := bitDiff_cases hcov.le hfam (Nat.zero_le _)
    (Nat.zero_le bits) (fun i hi => absurd hi (Nat.not_lt_zero i)) rfl
  rw [← hiff] at hne
  rw [addNode, show maxDepth = 129 + 1 from rfl, addLoop, root_eq, hn]
  simp only [bind_eq_bind, bind_some]
  rw [if_neg (not_not.mpr ⟨hdn, hdb⟩), if_neg hne, addAbove]
  split_ifs <;> simp [storeChild, store]

/-- **Which masks can be inserted.** For a mask that `ipmask_parse` has read, `cidr_add_node`
returns the node of the mask unless the address looks like one of IPv4: then it has to be
IPv4-mapped, with all of the 96 bits before it in the mask. -/
theorem addNode_mask_iff (h : s.Reachable) {host : List UInt8} {m : ParsedMask} {bits : ℕ}
    (hparse : ipmaskParse host true = some m) (hbits : m.bits = some bits) (data : Option D) :
    (∃ t' x n, s.tree.addNode m.addr bits data = some (t', x) ∧ t'.heap.cell x = some n ∧
        n.Covers m.addr bits ∧ n.bits = bits) ↔
      (isIpv4 m.addr = true → m.addr.group 5 = 0xffff ∧ 96 ≤ bits) := by
  have hle := ipmaskParse_bits hparse hbits
  have hcov : Covered m.addr bits ↔ (isIpv4 m.addr = true → m.addr.group 5 = 0xffff ∧ 96 ≤ bits) :=
    covered_iff.trans (and_iff_right hle)
  rw [← hcov]
  constructor
  · rintro ⟨t', x, n, hrun, -⟩
    by_contra hnot
    rw [addNode_uncovered h.stores.linked hle hnot] at hrun
    cases hrun
  intro hq
  obtain ⟨hp, x, hrun, hadd⟩ := CidrTree.addNode_spec h.stores.linked hq data
  obtain ⟨n, hn, hnc, hnb, -⟩ := hadd.node
  exact ⟨_, x, n, hrun, hn, hnc, hnb⟩

/-- The mask `10.0.0.0/8`, in a new tree. -/
theorem addNode_mask_mapped :
    ∃ m, ipmaskParse (str "10.0.0.0/8") true = some m ∧
      ∃ t' x n, (CidrTree.newTree (D := ℕ)).addNode m.addr 104 none = some (t', x) ∧
        t'.heap.cell x = some n ∧ n.Covers m.addr 104 ∧ n.bits = 104 := by
  have hm := (some_get
    (show (ipmaskParse (str "10.0.0.0/8") true).isSome by decide +kernel)).symm
  exact ⟨_, hm, (addNode_mask_iff .refl hm (by decide +kernel) none).mpr (by decide +kernel)⟩

/-- **Masks without a place in the tree**: an IPv4-compatible address, and an IPv4-mapped mask that
is shorter than 96 bits. `make_gline` passes both on, and `child_pptr` is null. -/
theorem addNode_mask_no_parent :
    (ipmaskParse (str "::1.2.3.4") true).any (fun m => m.bits == some 128 &&
      ipmaskIsSingleFamily m.addr 128 &&
      ((CidrTree.newTree (D := ℕ)).addNode m.addr 128 none).isNone) ∧
    (ipmaskParse (str "::ffff:0:0/90") true).any (fun m => m.bits == some 90 &&
      ipmaskIsSingleFamily m.addr 90 &&
      ((CidrTree.newTree (D := ℕ)).addNode m.addr 90 none).isNone) := by
  decide +kernel

end CidrStore

end Ircu
