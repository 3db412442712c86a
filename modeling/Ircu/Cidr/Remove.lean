import Ircu.Cidr.Insert

/-!
`_cidr_collapse_node` and the removals.

A node that has lost its data is taken out unless it is a root or holds two
subtrees together. If it was a leaf below a virtual node, that one has a single
child left and is taken out as well.

* `collapseNode_spec`: no entry changes, and the tree is compact again.
-/

namespace Ircu

open Prefix Option CidrNode

namespace CidrTree

variable {D : Type} {t : CidrTree D} {p q s g : Ptr} {m n k l : CidrNode D} {b c : Bool}

/-- What the clean-up after the node `p` has lost its data does. -/
structure Collapsed (t t' : CidrTree D) : Prop where
  linked : t'.Linked
  entries : ∀ z, t'.entryAt z = t.entryAt z
  compact : ∀ z, t'.CompactAt z

lemma replaceChild_eq {h : Heap (CidrNode D)} (hq : h.cell q = some m) (hb : m.child b = some p)
    (hother : m.child (!b) ≠ some p) (c : Option Ptr) :
    replaceChild h q p c = some (h.modify q (·.setChild b c)) := by
  rw [replaceChild, Heap.store_eq (by simp [hq])]
  congr 1
  apply Heap.modify_congr hq
  cases b with
  | false => exact if_pos hb
  | true => exact if_neg hother

lemma collapsed_self (hL : t.Linked) (hc : ∀ z, z ≠ p → t.CompactAt z) (hp : t.CompactAt p) :
    Collapsed t t where
  linked := hL
  entries _ := rfl
  compact z := by
    by_cases hz : z = p
    · rwa [hz]
    · exact hc z hz

lemma entryAt_of_data (hp : t.heap.cell p = some n) (hd : n.data = none) : t.entryAt p = none := by
  simp [entryAt, hp, entry, hd]

lemma compactAt_of_dead (hp : t.heap.cell p = none) : t.CompactAt p := by
  intro n hn
  simp [hp] at hn

section

variable (hL : t.Linked) (hc : ∀ z, z ≠ p → t.CompactAt z) (hp : t.heap.cell p = some n)
  (hd : n.data = none) (hq : t.heap.cell q = some m) (hb : m.child b = some p)
include hL hc hp hd hq hb

lemma collapsed_cutOut (hs : n.child c = some s) (honly : n.child (!c) = none) :
    Collapsed t (t.onHeap (cutOut t.heap q b p s)) := by
  obtain ⟨k, hk, hpar, _⟩ := hL.link hp hs
  have hqs := hL.grand_ne hq hb hp hs
  refine ⟨hL.cutOut hp hs honly hk hq hb, ?_, ?_⟩
  · intro z
    rw [entryAt_cutOut hq hk hqs]
    split_ifs with hz
    · rw [hz, entryAt_of_data hp hd]
    · rfl
  · intro z
    by_cases hz : z = p
    · exact compactAt_of_dead (by rw [cell_cutOut hq hk hqs, if_pos hz])
    · exact (hc z hz).cutOut hq hk hqs (by simp [hpar])

omit hL hc hb in
lemma entryAt_cutLeaf_self (z : Ptr) :
    (t.onHeap (cutLeaf t.heap q b p)).entryAt z = t.entryAt z := by
  rw [entryAt_cutLeaf hq]
  split_ifs with hz
  · rw [hz, entryAt_of_data hp hd]
  · rfl

omit hL hp hd hb in
lemma compactAt_cutLeaf {z : Ptr} (hz : z ≠ q) : (t.onHeap (cutLeaf t.heap q b p)).CompactAt z := by
  by_cases hzp : z = p
  · exact compactAt_of_dead (by rw [cell_cutLeaf hq, if_pos hzp])
  · exact (hc z hzp).cutLeaf hq hz

lemma collapsed_cutLeaf (hleaf : ∀ c, n.child c = none) (hstay : m.data ≠ none ∨ m.parent = none) :
    Collapsed t (t.onHeap (cutLeaf t.heap q b p)) := by
  refine ⟨hL.cutLeaf hp hleaf hq hb, entryAt_cutLeaf_self hp hd hq, ?_⟩
  intro z
  by_cases hz : z = q
  · intro k hk hpar hdk
    obtain ⟨_, _, _, hne, _⟩ := hL.link hq hb
    have hk' : (cutLeaf t.heap q b p).cell z = some (m.setChild b none) := by
      rw [cell_cutLeaf hq, if_neg (by rw [hz]; exact hne), if_pos hz]
    obtain rfl := Heap.cell_inj hk' hk
    simp at hpar hdk
    exact absurd hstay (by simp [hpar, hdk])
  · exact compactAt_cutLeaf hc hq hz

lemma collapsed_both (hleaf : ∀ c, n.child c = none) (hdq : m.data = none)
    (hg : m.parent = some g) :
    ∃ s l, m.child (!b) = some s ∧ t.heap.cell g = some l ∧ l.child (getBit m.ip l.bits) = some q ∧
      Collapsed t (t.onHeap (cutOut (cutLeaf t.heap q b p) g (getBit m.ip l.bits) q s)) := by
  obtain ⟨hpar, hne, _, _⟩ := hL.link_cell hq hb hp
  obtain ⟨l, hl, hlc, _⟩ := hL.child_of_parent hq hg
  have hgp := hL.grand_ne hl hlc hq hb
  have hgq : g ≠ q := by
    obtain ⟨_, _, _, hgq, _⟩ := hL.link hl hlc
    exact hgq
  -- the virtual node has its other child
  have hboth := hc q hne m hq (by simp [hg]) hdq
  obtain ⟨s, hs⟩ := ne_none_iff_exists'.mp (hboth (!b))
  refine ⟨s, l, hs, hl, hlc, ?_⟩
  have hL1 := hL.cutLeaf hp hleaf hq hb
  have hcell := cell_cutLeaf (b := b) (p := p) hq
  have hq1 : (cutLeaf t.heap q b p).cell q = some (m.setChild b none) := by
    rw [hcell, if_neg hne, if_pos rfl]
  have hl1 : (cutLeaf t.heap q b p).cell g = some l := by
    rw [hcell, if_neg hgp, if_neg hgq, hl]
  have hent := entryAt_cutLeaf_self (b := b) hp hd hq
  have hcol := collapsed_cutOut (c := !b) hL1
    (fun z hz => compactAt_cutLeaf hc hq hz) hq1 (by simpa using hdq) hl1 hlc
    (by simpa using hs) (by simp)
  exact ⟨hcol.linked, fun z => (hcol.entries z).trans (hent z), hcol.compact⟩

end

/-! ### The statements of the source -/

section

variable {h : Heap (CidrNode D)} (hp : h.cell p = some n) (hd : n.data = none)
  (hpar : n.parent = some q) (hq : h.cell q = some m) (hb : m.child b = some p)
  (hother : m.child (!b) ≠ some p)
include hp hd hpar hq hb hother

lemma collapseNode_one (hs : n.child c = some s) (honly : n.child (!c) = none)
    (hk : h.cell s = some k) (hqs : q ≠ s) : collapseNode h p = some (cutOut h q b p s, 1) := by
  have hq' : (h.modify s ({ · with parent := some q })).cell q = some m := by
    simp [hqs, hq]
  have hrep := replaceChild_eq hq' hb hother (some s)
  have hstore := Heap.store_eq (f := fun v => { v with parent := some q }) (p := s) (h := h)
    (by simp [hk])
  cases c with
  | false =>
    have hl : n.l = some s := hs
    have hr : n.r = none := honly
    simp [collapseNode, hp, hd, hpar, hl, hr, hstore, hrep, cutOut]
  | true =>
    have hr : n.r = some s := hs
    have hl : n.l = none := honly
    simp [collapseNode, hp, hd, hpar, hl, hr, hstore, hrep, cutOut]

lemma collapseNode_leaf (hleaf : ∀ c, n.child c = none) (hstay : m.data ≠ none ∨ m.parent = none) :
    collapseNode h p = some (cutLeaf h q b p, 1) := by
  have hl : n.l = none := hleaf false
  have hr : n.r = none := hleaf true
  have hrep := replaceChild_eq hq hb hother none
  simp [collapseNode, hp, hd, hpar, hl, hr, hrep, hq, cutLeaf]
  rcases hstay with hdm | hroot
  · obtain ⟨d, hdm⟩ := ne_none_iff_exists'.mp hdm
    simp [hdm]
  · simp [hroot]

omit hp hd hpar hq hb hother in
lemma remaining_child (m : CidrNode D) (b : Bool) :
    (if (m.setChild b none).l.isSome then (m.setChild b none).l else (m.setChild b none).r) =
      m.child (!b) := by
  cases b with
  | false => simp [setChild, child]
  | true => cases hl : m.l <;> simp [setChild, child, hl]

lemma collapseNode_both (hleaf : ∀ c, n.child c = none) (hdq : m.data = none)
    (hg : m.parent = some g) (hs : m.child (!b) = some s) (hl : h.cell g = some l)
    (hc : l.child c = some q) (hc' : l.child (!c) ≠ some q) (hk : h.cell s = some k)
    (hgq : g ≠ q) (hgs : g ≠ s) (hgp : g ≠ p) (hsp : s ≠ p) :
    collapseNode h p = some (cutOut (cutLeaf h q b p) g c q s, 1) := by
  have hnl : n.l = none := hleaf false
  have hnr : n.r = none := hleaf true
  have hrep := replaceChild_eq hq hb hother none
  have hl' : (h.modify q (·.setChild b none)).cell g = some l := by simp [hgq, hl]
  have hrep' := replaceChild_eq hl' hc hc' (some s)
  simp only [collapseNode, hp, hd, hpar, hnl, hnr, hrep, bind_eq_bind, bind_some,
    isSome_none, Bool.false_eq_true, if_false, Heap.cell_modify, if_true, hq,
    map_some, setChild_data, setChild_parent, hdq, hg, remaining_child,
    hs, hrep', pure]
  rw [Heap.store_eq (by simp only [Heap.isSome_modify, hk, isSome_some]), bind_some]
  congr 2
  apply Heap.ext
  · intro z
    simp only [cutOut, cutLeaf, Heap.cell_modify, Heap.cell_free]
    split_ifs <;> simp_all
  · rfl

end

section

variable (hL : t.Linked) (hc : ∀ z, z ≠ p → t.CompactAt z) (hp : t.heap.cell p = some n)
  (hd : n.data = none) (hpar : n.parent = some q)
include hL hc hp hd hpar

lemma collapse_one (hs : n.child c = some s) (honly : n.child (!c) = none) :
    ∃ h r, collapseNode t.heap p = some (h, r) ∧ Collapsed t (t.onHeap h) := by
  obtain ⟨m, hq, hb, _⟩ := hL.child_of_parent hp hpar
  obtain ⟨_, _, _, _, _, hother⟩ := hL.link hq hb
  obtain ⟨k, hk, _⟩ := hL.link hp hs
  exact ⟨_, _, collapseNode_one hp hd hpar hq hb hother hs honly hk (hL.grand_ne hq hb hp hs),
    collapsed_cutOut hL hc hp hd hq hb hs honly⟩

lemma collapse_leaf (hleaf : ∀ c, n.child c = none) :
    ∃ h r, collapseNode t.heap p = some (h, r) ∧ Collapsed t (t.onHeap h) := by
  obtain ⟨m, hq, hb, _⟩ := hL.child_of_parent hp hpar
  obtain ⟨_, _, _, _, _, hother⟩ := hL.link hq hb
  by_cases hstay : m.data ≠ none ∨ m.parent = none
  · exact ⟨_, _, collapseNode_leaf hp hd hpar hq hb hother hleaf hstay,
      collapsed_cutLeaf hL hc hp hd hq hb hleaf hstay⟩
  obtain ⟨hdq, hgne⟩ := not_or.mp hstay
  rw [not_not] at hdq
  obtain ⟨g, hg⟩ := ne_none_iff_exists'.mp hgne
  obtain ⟨s, l, hs, hl, hlc, hcol⟩ := collapsed_both hL hc hp hd hq hb hleaf hdq hg
  obtain ⟨_, _, _, hgq, _, hother'⟩ := hL.link hl hlc
  obtain ⟨k, hk, _⟩ := hL.link hq hs
  have hsp : s ≠ p := by
    rintro rfl
    exact hother hs
  exact ⟨_, _, collapseNode_both hp hd hpar hq hb hother hleaf hdq hg hs hl hlc hother' hk hgq
    (hL.grand_ne hl hlc hq hs) (hL.grand_ne hl hlc hq hb) hsp, hcol⟩

end

/-- **`_cidr_collapse_node`** on a node without data. -/
theorem collapseNode_spec (hL : t.Linked) (hc : ∀ z, z ≠ p → t.CompactAt z)
    (hp : t.heap.cell p = some n) (hd : n.data = none) :
    ∃ h r, collapseNode t.heap p = some (h, r) ∧ Collapsed t (t.onHeap h) := by
  cases hpar : n.parent with
  | none =>
    refine ⟨t.heap, 0, by simp [collapseNode, hp, hd, hpar], collapsed_self hL hc ?_⟩
    intro n' hn' hne
    obtain rfl := Heap.cell_inj hp hn'
    exact absurd hpar hne
  | some q =>
    cases hl : n.child false with
    | none =>
      cases hr : n.child true with
      | none => exact collapse_leaf hL hc hp hd hpar (by simp [hl, hr])
      | some s => exact collapse_one hL hc hp hd hpar hr hl
    | some s =>
      cases hr : n.child true with
      | none => exact collapse_one hL hc hp hd hpar hl hr
      | some s' =>
        have hl' : n.l = some s := hl
        have hr' : n.r = some s' := hr
        refine ⟨t.heap, 0, by simp [collapseNode, hp, hd, hpar, hl', hr'], collapsed_self hL hc ?_⟩
        intro n' hn' _ _ c
        obtain rfl := Heap.cell_inj hp hn'
        cases c <;> simp [hl, hr]

/-! ### Removals -/

/-- What a removal does: it takes the entry of `p` away, and no other. -/
structure Removed (t t' : CidrTree D) (p : Ptr) : Prop where
  linked : t'.Linked
  entries : ∀ z, t'.entryAt z = if z = p then none else t.entryAt z
  compact : ∀ z, t'.CompactAt z

lemma entryAt_setData (hp : t.heap.cell p = some n) (d : Option D) (z) :
    (t.onHeap (t.heap.modify p ({ · with data := d }))).entryAt z =
      if z = p then d.map (n.ip, n.bits, ·) else t.entryAt z := by
  simp only [entryAt, Heap.cell_modify]
  split_ifs with hz
  · simp [hz, hp, entry]
  · rfl

lemma CompactAt.setData {z} (h : t.CompactAt z) (hz : z ≠ p) (d : Option D) :
    (t.onHeap (t.heap.modify p ({ · with data := d }))).CompactAt z := by
  simpa [CompactAt, hz] using h

lemma removed_of_collapse (hL : t.Linked) (hc : ∀ z, t.CompactAt z) (hp : t.heap.cell p = some n) :
    ∃ h r, collapseNode (t.heap.modify p ({ · with data := none })) p = some (h, r) ∧
      Removed t (t.onHeap h) p := by
  obtain ⟨h, r, hrun, hcol⟩ := collapseNode_spec (hL.setData hp none)
    (fun z hz => (hc z).setData hz none)
    (n := { n with data := none }) (by simp [hp]) rfl
  refine ⟨h, r, hrun, hcol.linked, ?_, hcol.compact⟩
  intro z
  rw [hcol.entries z, entryAt_setData hp, map_none]

end CidrTree

end Ircu
