import Ircu.Cidr.Update

/-!
`cidr_add_node`.

The descent is the one of the lookups, with the address of the child field it
came through kept in `child_pptr`. It ends with one of four changes: new data
for the node of the prefix, a new leaf, a new node above the one that was
reached, or a virtual node above it that gets the new node as its other child.

* `addNode_spec`: insertion of a covered prefix returns, and `Added` says what it
  did.
-/

namespace Ircu

open Prefix Option Nat

namespace CidrTree

variable {D : Type} {t : CidrTree D} {ip : InAddr} {bits : ℕ} {data : Option D}

/-- What the insertion of `ip/bits` has done when it returns the node `x`. -/
structure Added (t t' : CidrTree D) (ip : InAddr) (bits : ℕ) (data : Option D) (x : Ptr) :
    Prop where
  linked : t'.Linked
  node : ∃ n, t'.heap.cell x = some n ∧ n.Covers ip bits ∧ n.bits = bits ∧ n.data = data
  old : ∀ n, t.heap.cell x = some n → n.Covers ip bits ∧ n.bits = bits
  others : ∀ z, z ≠ x → t'.entryAt z = t.entryAt z
  compact : (∀ z, t.CompactAt z) → ∀ z, z ≠ x → t'.CompactAt z

/-! ### The four changes -/

variable {n : CidrNode D} {p : Ptr} {b : Bool} {h : Heap (CidrNode D)}

lemma Linked.setData (hL : t.Linked) (hp : t.heap.cell p = some n) (d : Option D) :
    Linked (t.onHeap (t.heap.modify p ({ · with data := d }))) := by
  have hup := @hL.up
  have hlink := @hL.link
  refine hL.of_change ?_ ?_ ?_ ?_
  all_goals simp only [Heap.cell_modify]; grind [CidrNode.Extends]

lemma added_update (hL : t.Linked) (hp : t.heap.cell p = some n) (hc : n.Covers ip bits)
    (hb : n.bits = bits) :
    Added t (t.onHeap (t.heap.modify p ({ · with data }))) ip bits data p where
  linked := hL.setData hp data
  node := ⟨{ n with data }, by simp [hp], ⟨hc.family, hc.le, hc.agree⟩, hb, rfl⟩
  old m hm := by
    obtain rfl := Heap.cell_inj hp hm
    exact ⟨hc, hb⟩
  others z hz := by simp [entryAt, hz]
  compact h z hz m hm := by
    simp only [Heap.cell_modify, if_neg hz] at hm
    exact h z m hm

lemma child_createNode (ip bits) (data : Option D) (c : Bool) :
    (createNode ip bits data).child c = none := by cases c <;> rfl

lemma added_leaf (hL : t.Linked) (hq : Covered ip bits) {x : Ptr} (hx : t.heap.cell x = none)
    (hp : t.heap.cell p = some n) (hc : n.Covers ip bits) (hlt : n.bits < bits)
    (hchild : n.child (getBit ip n.bits) = none) :
    Added t (t.onHeap (putLeaf t.heap x p (getBit ip n.bits) (createNode ip bits data))) ip bits
      data x := by
  have hne : x ≠ p := Heap.ne_of_cell hx hp
  refine ⟨?_, ?_, ?_, ?_, ?_⟩
  · exact hL.putLeaf hx hp hchild ⟨hc.family.symm, hlt, hc.agree, rfl⟩ hq (child_createNode _ _ _)
  · refine ⟨{ createNode ip bits data with parent := some p }, ?_, ⟨rfl, le_rfl, .refl _ _⟩, rfl,
      rfl⟩
    rw [cell_putLeaf hx hp, if_neg hne, if_pos rfl]
  · intro m hm
    simp [hx] at hm
  · intro z hz
    rw [entryAt_putLeaf hx hp, if_neg hz]
  · exact fun h z hz => (h z).putLeaf hx hp hz

section Above

variable (hL : t.Linked) {q : Ptr} {m : CidrNode D} (hm : t.heap.cell q = some m)
  (hmc : m.Covers ip bits)
  (hchild : m.child (getBit ip m.bits) = some p) (hp : t.heap.cell p = some n)
include hL hm hmc hchild hp

lemma added_above (hmlt : m.bits < bits) (hq : Covered ip bits) {x : Ptr}
    (hx : t.heap.cell x = none) (hlt : bits < n.bits) (ha : Agree getBit n.ip ip bits) :
    Added t (t.onHeap (putAbove t.heap x q (getBit ip m.bits) p (createNode ip bits data)
      (getBit n.ip bits))) ip bits data x := by
  obtain ⟨hpar, hne, hext, _⟩ := hL.link_cell hm hchild hp
  have hxq : x ≠ q := Heap.ne_of_cell hx hm
  have hxp : x ≠ p := Heap.ne_of_cell hx hp
  refine ⟨?_, ?_, ?_, ?_, ?_⟩
  · exact hL.putAbove hx hm hchild hp ⟨hmc.family.symm, hmlt, hmc.agree, rfl⟩
      ⟨hext.family.trans hmc.family, hlt, ha.symm, rfl⟩ hq (child_createNode _ _ _)
  · refine ⟨_, by rw [cell_putAbove hx hm hp hne, if_neg hxq, if_neg hxp, if_pos rfl], ?_⟩
    refine ⟨⟨?_, ?_, ?_⟩, ?_, ?_⟩
    all_goals simp [createNode, Agree.refl]
  · intro k hk
    simp [hx] at hk
  · intro z hz
    rw [entryAt_putAbove hx hm hp hne, if_neg hz]
  · exact fun h z hz => (h z).putAbove hx hm hp hne (by simp [hpar]) hz

lemma added_virtual (hq : Covered ip bits) {x y : Ptr} (hx : t.heap.cell x = none)
    (hy : t.heap.cell y = none) (hxy : x ≠ y) {i} (him : m.bits < i) (hin : i < n.bits)
    (hib : i < bits) (ha : Agree getBit n.ip ip i) (hside : getBit n.ip i ≠ getBit ip i) :
    Added t (t.onHeap (putLeaf (putAbove t.heap y q (getBit ip m.bits) p (createNode ip i none)
      (getBit n.ip i)) x y (getBit ip i) (createNode ip bits data))) ip bits data x := by
  have hmi : m.Covers ip i := ⟨hmc.family, him.le, hmc.agree⟩
  have hqi : Covered ip i := by
    refine ⟨?_, hib.le.trans hq.le, hq.agree⟩
    have := (hL.covered hm).base_le
    rw [hmc.family] at this
    omega
  have h1 : Added t (t.onHeap (putAbove t.heap y q (getBit ip m.bits) p (createNode ip i none)
      (getBit n.ip i))) ip i none y := added_above hL hm hmi hchild hp him hqi hy hin ha
  obtain ⟨hpar, hne, _⟩ := hL.link_cell hm hchild hp
  have hyq : y ≠ q := Heap.ne_of_cell hy hm
  have hyp : y ≠ p := Heap.ne_of_cell hy hp
  have hcell := cell_putAbove (v := createNode ip i none) (b := getBit ip m.bits)
    (c := getBit n.ip i) hy hm hp hne
  generalize putAbove t.heap y q (getBit ip m.bits) p (createNode ip i none) (getBit n.ip i) = g
    at h1 hcell ⊢
  have hgy := hcell y
  rw [if_neg hyq, if_neg hyp, if_pos rfl] at hgy
  have hgx : g.cell x = none := by
    rw [hcell, if_neg, if_neg, if_neg hxy, hx]
    · rintro rfl
      simp [hx] at hp
    · rintro rfl
      simp [hx] at hm
  obtain ⟨w, hw, hwc, hwb, hwd⟩ := h1.node
  have hchildren : ∀ c, w.child c = if c = getBit n.ip i then some p else none := by
    intro c
    rw [Heap.cell_inj hw hgy]
    simp [child_createNode]
  have h2 : Added (t.onHeap g) (t.onHeap (putLeaf g x y (getBit ip w.bits)
      (createNode ip bits data))) ip bits data x :=
    added_leaf h1.linked hq hgx hw ⟨hwc.family, by omega, hwc.agree⟩ (by omega)
      (by rw [hwb, hchildren, if_neg hside.symm])
  rw [hwb] at h2
  refine ⟨h2.linked, h2.node, ?_, ?_, ?_⟩
  · intro k hk
    simp [hx] at hk
  · intro z hz
    refine (h2.others z hz).trans ?_
    by_cases hzy : z = y
    · rw [hzy, entryAt, entryAt, hw, hy]
      simp [CidrNode.entry, hwd]
    · exact h1.others z hzy
  intro h z hz
  by_cases hzy : z = y
  · -- the virtual node has both children
    intro k hk _ _ c
    have hk' := cell_putLeaf (v := createNode ip bits data) (b := getBit ip i) hgx hw z
    rw [if_pos hzy] at hk'
    obtain rfl := Heap.cell_inj hk' hk
    by_cases hc : c = getBit ip i
    · simp [hc]
    have hc' : c = getBit n.ip i := by
      cases c <;> cases hb : getBit ip i <;> cases hb' : getBit n.ip i <;> simp_all
    rw [CidrNode.child_setChild, if_neg hc, hchildren, if_pos hc']
    simp
  · exact (h1.compact h z hzy).putLeaf hgx hw hz

end Above

/-! ### The code of the changes -/

lemma storeLeaf_eq {v : CidrNode D} (hp : h.cell p = some n) :
    (((h.alloc v).store h.next ({ · with parent := some p })).bind fun h' =>
      (h'.store p (·.setChild b (some h.next))).bind fun h' => pure (h', h.next))
      = some (putLeaf h h.next p b v, h.next) := by
  have hx := Heap.ne_next hp
  simp (disch := simp [Heap.isSome_modify, Heap.isSome_alloc, hp, -Heap.cell_modify,
    -Heap.cell_alloc]) only [Heap.store_eq, bind_some]
  congr 2
  apply Heap.ext
  · intro z
    rw [cell_putLeaf (h.fresh _ le_rfl) hp]
    split_ifs <;> simp_all
  · simp [putLeaf]

lemma addAbove_exact {q : Ptr} {m r} (hq : h.cell q = some m)
    (hp : h.cell p = some n) (hne : q ≠ p) (hpar : n.parent = some q) :
    addAbove h ip bits data p n bits r (some (q, b)) = some
      (putAbove h h.next q b p (createNode ip bits data) (getBit n.ip bits), h.next) := by
  have hxq := Heap.ne_next hq
  have hxp := Heap.ne_next hp
  simp (disch := simp [Heap.isSome_modify, Heap.isSome_alloc, hq, hp, -Heap.cell_modify,
    -Heap.cell_alloc]) only [addAbove, storeChild, Heap.store_eq, bind_eq_bind,
    bind_some, if_pos, hpar]
  congr 2
  apply Heap.ext
  · intro z
    rw [cell_putAbove (h.fresh _ le_rfl) hq hp hne]
    split_ifs <;> simp_all
  · simp [putAbove]

lemma addAbove_virtual {q : Ptr} {m i} (hq : h.cell q = some m)
    (hp : h.cell p = some n) (hne : q ≠ p) (hpar : n.parent = some q) (hi : i ≠ bits)
    (hside : getBit n.ip i ≠ getBit ip i) :
    addAbove h ip bits data p n i (getBit ip i) (some (q, b)) = some
      (putLeaf (putAbove h (h.next + 1) q b p (createNode ip i none) (getBit n.ip i)) h.next
        (h.next + 1) (getBit ip i) (createNode ip bits data), h.next) := by
  have hxq := Heap.lt_next hq
  have hxp := Heap.lt_next hp
  simp (disch := simp [Heap.isSome_modify, Heap.isSome_alloc, hq, hp, -Heap.cell_modify,
    -Heap.cell_alloc]) only [addAbove, storeChild, Heap.store_eq, bind_eq_bind,
    bind_some, if_neg hi, hpar]
  congr 2
  apply Heap.ext
  · intro z
    have hside' : getBit n.ip i = !getBit ip i := Bool.eq_not_of_ne hside
    simp only [putLeaf, Heap.cell_modify, Heap.cell_alloc, Heap.cell_insert, Heap.next_alloc]
    rw [cell_putAbove (h.fresh _ (by omega)) hq hp hne]
    split_ifs <;> simp_all <;> rfl
  · simp [putLeaf, putAbove]
    omega

/-! ### The descent -/

/-- Where `child_pptr` points when the descent is at the `k`-th node `p`: nowhere
at the root, and at the field of its parent that holds `p` otherwise. -/
def FieldOf (t : CidrTree D) (ip : InAddr) (bits : ℕ) (k : ℕ) (p : Ptr) (n : CidrNode D) :
    Option (Ptr × Bool) → Prop
  | none => k = 0 ∧ n.Covers ip bits
  | some (q, b) => ∃ m, t.heap.cell q = some m ∧ m.Covers ip bits ∧ m.bits < bits ∧
      b = getBit ip m.bits ∧ m.child b = some p

lemma addLoop_spec (hL : t.Linked) (hq : Covered ip bits) (data) (fuel k : ℕ)
    (hf : 129 ≤ k + fuel) (hw : Walk t ip bits k p n) {i} (hi : i ≤ n.bits) (hib : i ≤ bits)
    (ha : Agree getBit n.ip ip i) (childPptr : Option (Ptr × Bool))
    (hfield : FieldOf t ip bits k p n childPptr) :
    ∃ h x, addLoop t.heap ip bits data fuel p i childPptr = some (h, x) ∧
      Added t (t.onHeap h) ip bits data x := by
  induction fuel generalizing k p n i childPptr with
  | zero =>
    have := hw.lt hL
    omega
  | succ fuel ih =>
    have hn128 := (hL.covered hw.cell).le
    obtain ⟨hdn, hdb, hagree, hcov, hdiff⟩ := bitDiff_cases hn128 (hw.live hL).1 hi hib ha rfl
    rw [addLoop]
    simp only [hw.cell, bind_eq_bind, bind_some]
    generalize bitDiff n.ip ip i (if n.bits < bits then n.bits else bits) = d at *
    rw [if_neg (not_not.mpr ⟨hdn, hdb⟩)]
    by_cases hd : d = n.bits
    · have hc := hcov.mp hd
      rw [if_pos hd]
      by_cases hb : d = bits
      · rw [if_pos hb, Heap.store_eq (by simp [hw.cell])]
        exact ⟨_, p, rfl, added_update hL hw.cell hc (hd.symm.trans hb)⟩
      have hlt : n.bits < bits := by omega
      have hturn : (if d < 128 then getBit ip d else false) = getBit ip n.bits := by
        rw [hd, if_pos (hlt.trans_le hq.le)]
      rw [if_neg hb, hturn]
      cases hch : n.child (getBit ip n.bits) with
      | none =>
        simp only [storeLeaf_eq hw.cell]
        exact ⟨_, t.heap.next, rfl, added_leaf hL hq (t.heap.fresh _ le_rfl) hw.cell hc hlt hch⟩
      | some c =>
        obtain ⟨m, hm, _, hext⟩ := hL.down hw.cell hch
        simp only [if_pos (show d < 128 by have := hq.le; omega)]
        refine ih (k + 1) (by omega) (hw.next hc hlt hch hm) ?_ hdb ?_ _
          ⟨n, hw.cell, hc, hlt, rfl, hch⟩
        · rw [hd]
          exact hext.lt.le
        · rw [hd]
          exact hext.agree.symm.trans hc.agree
    rw [if_neg hd]
    -- the root covers the query, so the descent has come through a field
    obtain _ | ⟨q, b⟩ := childPptr
    · exact absurd (hcov.mpr hfield.2) hd
    obtain ⟨m, hm, hmc, hmlt, rfl, hch⟩ := hfield
    obtain ⟨hpar, hne, hext, _⟩ := hL.link_cell hm hch hw.cell
    by_cases hb : d = bits
    · rw [hb] at hdn hagree hd ⊢
      rw [addAbove_exact hm hw.cell hne hpar]
      exact ⟨_, _, rfl, added_above hL hm hmc hch hw.cell hmlt hq (t.heap.fresh _ le_rfl)
        (by omega) hagree⟩
    have hside := hdiff (by omega) (by omega)
    have him : m.bits < d := by
      by_contra hle
      rcases (not_lt.mp hle).lt_or_eq with hlt | heq
      · exact hside ((hext.agree _ hlt).symm.trans (hmc.agree _ hlt))
      · rw [heq] at hside
        exact hside hext.side
    have hd128 : d < 128 := by omega
    rw [if_pos hd128, addAbove_virtual hm hw.cell hne hpar hb hside]
    have hx := t.heap.fresh t.heap.next le_rfl
    have hy := t.heap.fresh (t.heap.next + 1) (by omega)
    exact ⟨_, _, rfl, added_virtual hL hm hmc hch hw.cell hq hx hy (lt_succ_self _).ne
      him (by omega) (by omega) hagree hside⟩

/-- **`cidr_add_node`** on a covered prefix. -/
theorem addNode_spec (hL : t.Linked) (hq : Covered ip bits) (data) :
    ∃ h x, t.addNode ip bits data = some (t.onHeap h, x) ∧ Added t (t.onHeap h) ip bits data x := by
  obtain ⟨n, hw, hcov, _⟩ := walk_root hL hq
  obtain ⟨h, x, hadd, hspec⟩ := addLoop_spec hL hq data maxDepth 0 (by decide) hw
    (zero_le _) (zero_le _) (fun i hi => absurd hi (not_lt_zero i)) none ⟨rfl, hcov⟩
  exact ⟨h, x, by simp [addNode, hadd], hspec⟩

end CidrTree

end Ircu
