import Ircu.Cidr.Refine
import Ircu.Gline.Basic

/-!
How making, freeing and expiring a G-line change the lists.

`view` is the list at a head, empty where there is none. `Sound` says that the
tree is linked and compact, that no node has an empty list, and that the G-lines
on a node have its prefix. Every change keeps the state sound and touches one list
only (`Edited`), although it may restructure the tree.

* `makeGline_tree`, `makeGline_list`: linking a G-line, with the insertion of a
  tree node if it needs one.
-/

namespace Ircu

open Prefix Option CidrTree Heap

structure Gline.HasPrefix (g : Gline) (ip : InAddr) (bits : ℕ) : Prop where
  len : g.bits = bits
  family : isIpv4 ip = isIpv4 g.addr
  agree : Agree getBit ip g.addr bits

namespace GlineState

def view (s : GlineState) (k : GlList) : List Gline := (s.getList k).getD []

structure TreeOk (t : CidrTree (List Gline)) : Prop where
  linked : t.Linked
  compact : ∀ z, t.CompactAt z
  entry : ∀ z ip bits l, t.entryAt z = some (ip, bits, l) → l ≠ [] ∧ ∀ g ∈ l, g.HasPrefix ip bits

def Sound (s : GlineState) : Prop := ∀ t, s.tree = some t → TreeOk t

/-- The list `k` has become `l` and no other list has changed. -/
structure Edited (s s' : GlineState) (k : GlList) (l : List Gline) : Prop where
  sound : s'.Sound
  view : ∀ k', s'.view k' = if k' = k then l else s.view k'

variable {s s' : GlineState} {t t' : CidrTree (List Gline)} {p : Ptr} {l : List Gline} {g : Gline}
  {n : CidrNode (List Gline)} {ip : InAddr} {bits : ℕ} {k : GlList}

/-! ### Lists on nodes -/

lemma view_node (ht : s.tree = some t) (p) :
    s.view (.node p) = ((t.entryAt p).map (·.2.2)).getD [] := by
  simp only [view, getList, ht, entryAt]
  cases hn : t.heap.cell p with
  | none => simp [hn]
  | some n => cases hd : n.data <;> simp [hn, CidrNode.entry, hd]

lemma view_node_none (ht : s.tree = none) (p) : s.view (.node p) = [] := by
  simp [view, getList, ht]

lemma mem_view_node (hg : g ∈ s.view (.node p)) :
    ∃ t n l, s.tree = some t ∧ t.heap.cell p = some n ∧ n.data = some l ∧
      t.entryAt p = some (n.ip, n.bits, l) ∧ s.view (.node p) = l := by
  cases ht : s.tree with
  | none =>
    rw [view_node_none ht] at hg
    exact absurd hg List.not_mem_nil
  | some t =>
    rw [view_node ht] at hg
    cases he : t.entryAt p with
    | none => simp [he] at hg
    | some e =>
      obtain ⟨ip, bits, l⟩ := e
      obtain ⟨n, hn, rfl, rfl, hd⟩ := entryAt_eq_some.mp he
      exact ⟨t, n, _, rfl, hn, hd, he, by rw [view_node ht, he]; rfl⟩

structure TreeEdit (t t' : CidrTree (List Gline)) (p : Ptr) (ip : InAddr) (bits : ℕ)
    (l : List Gline) : Prop where
  linked : t'.Linked
  compact : ∀ z, t'.CompactAt z
  entries : ∀ z, t'.entryAt z =
    if z = p then (if l = [] then none else some (ip, bits, l)) else t.entryAt z

lemma TreeEdit.congr {t₁} (h : TreeEdit t₁ t' p ip bits l)
    (hent : ∀ z, t₁.entryAt z = t.entryAt z) : TreeEdit t t' p ip bits l :=
  ⟨h.linked, h.compact, fun z => by rw [h.entries, hent]⟩

lemma Edited.of_tree (hview : ∀ z, s.view (.node z) = ((t.entryAt z).map (·.2.2)).getD [])
    (ht : TreeOk t) (he : TreeEdit t t' p ip bits l) (hl : ∀ g ∈ l, g.HasPrefix ip bits)
    (htree : s'.tree = some t') (hglobal : s'.global = s.global)
    (hbad : s'.badChan = s.badChan) : Edited s s' (.node p) l where
  sound t₁ ht₁ := by
    obtain rfl : t' = t₁ := some.inj (htree.symm.trans ht₁)
    refine ⟨he.linked, he.compact, ?_⟩
    intro z ip' bits' l' hz
    rw [he.entries] at hz
    split_ifs at hz with hzp hnil
    · obtain ⟨rfl, rfl, rfl⟩ : ip = ip' ∧ bits = bits' ∧ l = l' := by simpa using hz
      exact ⟨hnil, hl⟩
    · exact ht.entry z ip' bits' l' hz
  view k' := by
    cases k' with
    | badChan => simp [GlineState.view, getList, hbad]
    | global => simp [GlineState.view, getList, hglobal]
    | node z =>
      rw [view_node htree, he.entries, hview]
      by_cases hzp : z = p
      · by_cases hnil : l = [] <;> simp [hzp, hnil]
      · simp [hzp]

lemma treeEdit_setData (hL : t.Linked) (hc : ∀ z, z ≠ p → t.CompactAt z)
    (hp : t.heap.cell p = some n) (hl : l ≠ []) :
    TreeEdit t (t.onHeap (t.heap.modify p ({ · with data := some l }))) p n.ip n.bits l where
  linked := hL.setData hp _
  compact z := by
    by_cases hz : z = p
    · intro m hm _ hd
      simp only [hz, cell_modify, if_true, hp, map_some, some.injEq] at hm
      subst hm
      exact absurd hd (by simp)
    · exact (hc z hz).setData hz _
  entries z := by rw [entryAt_setData hp, map_some, if_neg hl]

def Fits (s : GlineState) (l : List Gline) : GlList → Prop
  | .node p => l ≠ [] ∧ ∃ t n, s.tree = some t ∧ t.heap.cell p = some n ∧
      ∀ g ∈ l, g.HasPrefix n.ip n.bits
  | _ => True

lemma setList_spec (hs : s.Sound) (hfit : s.Fits l k) :
    ∃ s', s.setList l k = some s' ∧ Edited s s' k l ∧ s'.nextId = s.nextId := by
  cases k with
  | badChan | global =>
    refine ⟨_, rfl, ⟨hs, fun k' => ?_⟩, rfl⟩
    cases k' <;> simp [GlineState.view, getList]
  | node p =>
    obtain ⟨hl, t, n, ht, hp, hpre⟩ := hfit
    have hok := hs t ht
    refine ⟨{ s with tree := some (t.onHeap (t.heap.modify p ({ · with data := some l }))) },
      by simp [setList, ht, hl, setData, store_eq, hp], ?_, rfl⟩
    exact Edited.of_tree (view_node ht) hok
      (treeEdit_setData hok.linked (fun z _ => hok.compact z) hp hl) hpre rfl rfl rfl

lemma getList_of_mem (hg : g ∈ s.view k) : s.getList k = some (s.view k) := by
  rw [view] at hg ⊢
  cases h : s.getList k with
  | none => simp [h] at hg
  | some l => rfl

def Placed (g : Gline) : Prop :=
  match g.prevP with
  | .node _ => g.onTree ∧ Covered g.addr g.bits
  | _ => g.onTree = false

lemma findNode_raw (hL : t.Linked) (hq : Covered ip bits) (hp : t.heap.cell p = some n)
    (hc : n.Covers ip bits) (hb : n.bits = bits) : t.findNode ip bits 2 = some (some p) := by
  obtain ⟨o, hfind, ho⟩ := findNode_exact hL hq (by decide : 2 ≠ 0)
  rw [hfind, (ho p).mpr ⟨n, hp, hc, hb, .inr rfl⟩]

lemma glineFree_node (hok : TreeOk t) (ht : s.tree = some t) (hk : g.prevP = .node p)
    (hon : g.onTree) (hcov : Covered g.addr g.bits) (hp : t.heap.cell p = some n)
    (hd : n.data = some l) (hg : g ∈ l) {l' : List Gline} (hl' : l' = l.filter (·.id ≠ g.id)) :
    ∃ t', s.glineFree g = some { s with tree := some t' } ∧ TreeEdit t t' p n.ip n.bits l' := by
  have hent : t.entryAt p = some (n.ip, n.bits, l) :=
    entryAt_eq_some.mpr ⟨n, hp, rfl, rfl, hd⟩
  have hpre := (hok.entry _ _ _ _ hent).2 g hg
  -- the tree with the shorter list
  obtain ⟨d, hdef⟩ : ∃ d, d = if l' = [] then none else some l' := ⟨_, rfl⟩
  have hL1 := hok.linked.setData hp d
  have hset : s.setList l' (.node p) =
      some { s with tree := some (t.onHeap (t.heap.modify p ({ · with data := d }))) } := by
    simp [setList, ht, setData, store_eq, hp, hdef]
  have hp1 : (t.heap.modify p ({ · with data := d })).cell p = some { n with data := d } := by
    simp [hp]
  have hfind := findNode_raw hL1 hcov hp1 ⟨hpre.family, hpre.len.ge, hpre.agree⟩ hpre.len.symm
  have hget : s.getList (.node p) = some l := by simp [getList, ht, hp, hd]
  by_cases hnil : l' = []
  · obtain rfl : d = none := by rw [hdef, if_pos hnil]
    obtain ⟨h2, r, hrun, hrem⟩ := removed_of_collapse hok.linked hok.compact hp
    refine ⟨t.onHeap h2, ?_, hrem.linked, hrem.compact, ?_⟩
    · simp only [glineFree, hk, hget, ← hl', hset, hon, hfind, hp1, remEmptyNode, hrun,
        bind_eq_bind, bind_some, if_true, isNone_none, isSome_none,
        Bool.false_eq_true, if_false, pure]
    · intro z
      rw [hrem.entries, if_pos hnil]
  · obtain rfl : d = some l' := by rw [hdef, if_neg hnil]
    refine ⟨t.onHeap (t.heap.modify p ({ · with data := some l' })), ?_,
      treeEdit_setData hok.linked (fun z _ => hok.compact z) hp hnil⟩
    simp only [glineFree, hk, hget, ← hl', hset, hon, hfind, hp1, bind_eq_bind,
      bind_some, if_true, isNone_some, Bool.false_eq_true, if_false, pure]

lemma glineFree_list (hon : g.onTree = false) (hget : s.getList g.prevP = some l)
    (hset : s.setList (l.filter (·.id ≠ g.id)) g.prevP = some s') : s.glineFree g = some s' := by
  simp only [glineFree, hget, hset, hon, bind_eq_bind, bind_some, Bool.false_eq_true,
    if_false, pure]
  cases s'.tree <;> rfl

/-- **`gline_free`** takes the G-line from its list. -/
theorem glineFree_spec (hs : s.Sound) (hg : g ∈ s.view g.prevP) (hplace : Placed g) :
    ∃ s', s.glineFree g = some s' ∧ s'.nextId = s.nextId ∧
      Edited s s' g.prevP ((s.view g.prevP).filter (·.id ≠ g.id)) := by
  have hlist : g.onTree = false → s.Fits ((s.view g.prevP).filter (·.id ≠ g.id)) g.prevP →
      ∃ s', s.glineFree g = some s' ∧ s'.nextId = s.nextId ∧
        Edited s s' g.prevP ((s.view g.prevP).filter (·.id ≠ g.id)) := by
    intro hon hfit
    obtain ⟨s', hset, hedit, hid⟩ := setList_spec hs hfit
    exact ⟨s', glineFree_list hon (getList_of_mem hg) hset, hid, hedit⟩
  cases hk : g.prevP with
  | badChan | global =>
    rw [Placed, hk] at hplace
    rw [hk] at hlist
    exact hlist hplace trivial
  | node p =>
    rw [Placed, hk] at hplace
    rw [hk] at hg
    obtain ⟨t, n, l, ht, hp, hd, hent, hview⟩ := mem_view_node hg
    rw [hview] at hg ⊢
    obtain ⟨t', hrun, hedit⟩ := glineFree_node (hs t ht) ht hk hplace.1 hplace.2 hp hd hg rfl
    refine ⟨_, hrun, rfl, ?_⟩
    exact Edited.of_tree (view_node ht) (hs t ht) hedit
      (fun g' hg' => ((hs t ht).entry _ _ _ _ hent).2 g' (List.mem_of_mem_filter hg')) rfl rfl rfl

/-! ### Making a G-line -/

lemma treeOk_newTree : TreeOk newTree where
  linked := stores_newTree.linked
  compact := stores_newTree.compact
  entry z ip bits l he := by
    rw [entryAt_newTree] at he
    exact absurd he (by simp)

lemma treeNode_spec (hok : TreeOk t) (hq : Covered ip bits) :
    ∃ t₁ p n, treeNode t ip bits = some (t₁, p) ∧ t₁.Linked ∧ (∀ z, z ≠ p → t₁.CompactAt z) ∧
      t₁.heap.cell p = some n ∧ n.Covers ip bits ∧ n.bits = bits ∧
      ∀ z, t₁.entryAt z = t.entryAt z := by
  obtain ⟨o, hfind, ho⟩ := findNode_exact hok.linked hq (by decide : 1 ≠ 0)
  cases o with
  | some p =>
    obtain ⟨n, hp, hc, hb, _⟩ := (ho p).mp rfl
    exact ⟨t, p, n, by simp [treeNode, hfind], hok.linked, fun z _ => hok.compact z, hp, hc, hb,
      fun _ => rfl⟩
  | none =>
    obtain ⟨h, x, hrun, hadd⟩ := addNode_spec hok.linked hq none
    obtain ⟨n, hx, hc, hb, hd⟩ := hadd.node
    refine ⟨t.onHeap h, x, n, by simp [treeNode, hfind, hrun], hadd.linked,
      hadd.compact hok.compact, hx, hc, hb, ?_⟩
    intro z
    by_cases hz : z = x
    · -- a node that was there before has no data either, or it had been found
      rw [hz, entryAt_of_data hx hd]
      cases hold : t.heap.cell x with
      | none => simp [entryAt, hold]
      | some m =>
        obtain ⟨hmc, hmb⟩ := hadd.old m hold
        by_contra hne
        have hmd : m.data ≠ none := fun hmd => hne (entryAt_of_data hold hmd).symm
        exact absurd ((ho x).mpr ⟨m, hold, hmc, hmb, .inl hmd⟩) (by simp)
    · exact hadd.others z hz

lemma view_getD (s : GlineState) (z : Ptr) :
    s.view (.node z) = (((s.tree.getD newTree).entryAt z).map (·.2.2)).getD [] := by
  cases ht : s.tree with
  | some t => rw [view_node ht, getD_some]
  | none => rw [view_node_none ht, getD_none, entryAt_newTree]; rfl

section Make

variable {a : Args} {mem : ℕ} (hs : s.Sound) (hexp : a.expire ≠ 0)
  (hnew : s.newGline a mem = some g)
include hs hexp hnew

lemma makeGline_tree (hon : g.onTree) (hcov : Covered g.addr g.bits) :
    ∃ s' p, s.makeGline a mem = some (s', { g with prevP := .node p }) ∧ s'.nextId = s.nextId + 1 ∧
      Edited s s' (.node p) ({ g with prevP := .node p } :: s.view (.node p)) := by
  have hok : TreeOk (s.tree.getD newTree) := by
    cases ht : s.tree with
    | none => exact treeOk_newTree
    | some t => exact hs t ht
  obtain ⟨t1, p, n, hrun, hL1, hc1, hp, hc, hb, hent⟩ := treeNode_spec hok hcov
  obtain ⟨l, hl⟩ : ∃ l, l = { g with prevP := .node p } :: n.data.getD [] := ⟨_, rfl⟩
  have hedit := treeEdit_setData hL1 hc1 hp (l := l) (by simp [hl])
  have hdata : s.view (.node p) = n.data.getD [] := by
    rw [view_getD, ← hent, entryAt, hp]
    cases hd : n.data <;> simp [CidrNode.entry, hd]
  refine ⟨⟨s.global, some (t1.onHeap (t1.heap.modify p ({ · with data := some l }))), s.badChan,
    s.nextId + 1⟩, p, ?_, rfl, ?_⟩
  · simp [makeGline, hexp, hnew, hon, hrun, getList, setList, hp, hl, setData, store_eq]
  rw [hdata, ← hl]
  refine Edited.of_tree (view_getD s) hok (hedit.congr hent) ?_ rfl rfl rfl
  intro g' hg'
  rw [hl, List.mem_cons] at hg'
  rcases hg' with rfl | hg'
  · exact ⟨hb.symm, hc.family, hc.agree⟩
  cases hd : n.data with
  | none => simp [hd] at hg'
  | some l0 =>
    have he : (s.tree.getD newTree).entryAt p = some (n.ip, n.bits, l0) :=
      (hent p).symm.trans (entryAt_eq_some.mpr ⟨n, hp, rfl, rfl, hd⟩)
    exact (hok.entry _ _ _ _ he).2 g' (by simpa [hd] using hg')

lemma makeGline_list (hon : g.onTree = false) (hhead : ∀ p, g.prevP ≠ .node p) :
    ∃ s', s.makeGline a mem = some (s', g) ∧ s'.nextId = s.nextId + 1 ∧
      Edited s s' g.prevP (g :: s.view g.prevP) := by
  have hget : ∀ k, getList { s with nextId := s.nextId + 1 } k = s.getList k := by
    intro k
    cases k <;> rfl
  obtain ⟨s', hset, hedit, hid⟩ := setList_spec (s := { s with nextId := s.nextId + 1 })
    (l := g :: s.view g.prevP) (k := g.prevP) hs (by
      cases hk : g.prevP with
      | node p => exact absurd hk (hhead p)
      | badChan => trivial
      | global => trivial)
  have hl : s.getList g.prevP = some (s.view g.prevP) := by
    cases hk : g.prevP with
    | node p => exact absurd hk (hhead p)
    | badChan | global => rfl
  refine ⟨s', ?_, hid, hedit.sound, fun k' => ?_⟩
  · simp [makeGline, hexp, hnew, hon, hget, hl, hset]
  have hview : view { s with nextId := s.nextId + 1 } k' = s.view k' := by
    rw [view, hget]
    rfl
  rw [hedit.view, hview]

end Make

end GlineState

end Ircu
