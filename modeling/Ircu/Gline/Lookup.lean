import Ircu.Gline.Store
import Ircu.Match.Correct

/-!
`gline_lookup` as a scan of the installed G-lines.

What has been installed is kept in a list of its own, `installed`, as `make_gline`
made it. The lists of the server may have lost a G-line of it whose record has
expired, and may hold another one deactivated because its time has come; both
depend on which lists earlier lookups went through. `Models` is the relation
between the two, and it is kept by every call while time goes on.

Going through the list of a node may remove the node, but it changes no other entry
of the tree, so the next node, which has been determined before, is still the right one.
So `gline_lookup` answers as the scan of `installed` does (`glineLookup_iff_scan`).
-/

namespace Ircu

open Prefix List Gline CidrTree

/-- The mask can be given to `match`, which never reads beyond its end. -/
def Safe (mask : List UInt8) : Prop := ∀ name, (ircMatch mask name).isSome

namespace Gline

/-- What `gline_add` sees to: a realname G-line has text behind its `$R` and no
address mask, any other one has a host. -/
structure Legal (g : Gline) : Prop where
  realName : g.isRealName → g.isIpMask = false ∧ 2 ≤ g.user.length ∧ Safe (g.user.drop 2)
  user : g.isRealName = false → Safe g.user
  host : g.isRealName = false → g.isIpMask = false → ∃ h, g.host = some h ∧ Safe h

end Gline

namespace GlineState

/-- What an iteration at the time `now` makes of a G-line it does not free. -/
def age (now : ℤ) (g : Gline) : Gline := if now < g.expire then g else expireGline g

/-- The G-line `g` is what has become of `g₀` by the time `now`. -/
def Aged (now : ℤ) (g₀ g : Gline) : Prop := g = g₀ ∨ (g₀.expire ≤ now ∧ g = expireGline g₀)

/-! ### Expiring -/

section Expire

variable (g : Gline)

lemma expireGline_flag {f} (hf : ~~~GLINE_ACTIVE &&& f = f) :
    (expireGline g).flags &&& f = g.flags &&& f := by
  rw [expireGline_flags, BitVec.and_assoc, hf]

@[simp] lemma isIpMask_expireGline : (expireGline g).isIpMask = g.isIpMask := by
  simp only [isIpMask, expireGline_flag g (f := GLINE_IPMASK) rfl]

@[simp] lemma isRealName_expireGline : (expireGline g).isRealName = g.isRealName := by
  simp only [isRealName, expireGline_flag g (f := GLINE_REALNAME) rfl]

@[simp] lemma onTree_expireGline : (expireGline g).onTree = g.onTree := by simp [onTree]

@[simp] lemma isActive_expireGline : (expireGline g).isActive = false := by
  simp [isActive, BitVec.and_assoc, show ~~~GLINE_ACTIVE &&& GLINE_ACTIVE = 0 from rfl]

lemma expireGline_idem : expireGline (expireGline g) = expireGline g := by
  simp [expireGline, BitVec.and_assoc]

lemma isActive_age (now) : (age now g).isActive = (decide (now < g.expire) && g.isActive) := by
  rw [age]
  split_ifs with h <;> simp [h]

end Expire

namespace Aged

variable {now now' : ℤ} {g₀ g : Gline} (h : Aged now g₀ g)

include h

lemma mono (hle : now ≤ now') : Aged now' g₀ g :=
  h.imp id (And.imp_left (·.trans hle))

lemma id_eq : g.id = g₀.id := by
  rcases h with rfl | ⟨_, rfl⟩ <;> rfl

lemma prevP_eq : g.prevP = g₀.prevP := by
  rcases h with rfl | ⟨_, rfl⟩ <;> rfl

lemma recordExpired_eq : recordExpired now' g = recordExpired now' g₀ := by
  rcases h with rfl | ⟨_, rfl⟩ <;> rfl

lemma placed (hp : Placed g₀) : Placed g := by
  rcases h with rfl | ⟨_, rfl⟩
  · exact hp
  · simpa [Placed] using hp

lemma age_eq : age now g = age now g₀ := by
  rcases h with rfl | ⟨hexp, rfl⟩
  · rfl
  · rw [age, age, expireGline_expire, if_neg hexp.not_gt, if_neg hexp.not_gt, expireGline_idem]

lemma expire (hexp : g.expire ≤ now) : Aged now g₀ (expireGline g) := by
  rcases h with rfl | ⟨hle, rfl⟩
  · exact .inr ⟨hexp, rfl⟩
  · exact .inr ⟨hle, expireGline_idem g₀⟩

end Aged

lemma recordExpired_mono {now now' g} (h : recordExpired now g) (hle : now ≤ now') :
    recordExpired now' g := by
  simp only [recordExpired, decide_eq_true_eq] at h ⊢
  omega

/-! ### The installed G-lines -/

/-- The lists of the server hold the installed G-lines, up to what has expired by
the time `now`. -/
structure Models (now : ℤ) (s : GlineState) (es : List Gline) : Prop where
  sound : s.Sound
  ids : (es.map (·.id)).Nodup
  fresh : ∀ g ∈ es, g.id < s.nextId
  legal : ∀ g ∈ es, Placed g ∧ (g.isBadChan = true ↔ g.prevP = .badChan) ∧
    (g.isBadChan = false → g.Legal)
  live : ∀ k, ∀ g ∈ s.view k, g.prevP = k ∧ ∃ g₀ ∈ es, Aged now g₀ g
  kept : ∀ g₀ ∈ es, recordExpired now g₀ ∨ ∃ g ∈ s.view g₀.prevP, Aged now g₀ g
  nodup : ∀ k, ((s.view k).map (·.id)).Nodup

namespace Models

variable {now now' : ℤ} {s s' : GlineState} {es l : List Gline} {g : Gline} {k : GlList}

variable (h : Models now s es)

include h

lemma mono (hle : now ≤ now') : Models now' s es where
  sound := h.sound
  ids := h.ids
  fresh := h.fresh
  legal := h.legal
  live k g hg := by
    obtain ⟨hk, g₀, hmem, haged⟩ := h.live k g hg
    exact ⟨hk, g₀, hmem, haged.mono hle⟩
  kept g₀ hmem := by
    rcases h.kept g₀ hmem with hexp | ⟨g, hg, haged⟩
    · exact .inl (recordExpired_mono hexp hle)
    · exact .inr ⟨g, hg, haged.mono hle⟩
  nodup := h.nodup

lemma placed (hg : g ∈ s.view k) : Placed g := by
  obtain ⟨_, g₀, hmem, haged⟩ := h.live k g hg
  exact haged.placed (h.legal g₀ hmem).1

lemma edit (he : Edited s s' k l) (hid : s'.nextId = s.nextId)
    (hl : ∀ g ∈ l, g.prevP = k ∧ ∃ g₀ ∈ es, Aged now g₀ g)
    (hkept : ∀ g₀ ∈ es, ∀ g ∈ s.view k, Aged now g₀ g →
      recordExpired now g₀ ∨ ∃ g' ∈ l, Aged now g₀ g')
    (hnd : (l.map (·.id)).Nodup) : Models now s' es where
  sound := he.sound
  ids := h.ids
  fresh g hg := by
    rw [hid]
    exact h.fresh g hg
  legal := h.legal
  live k' g hg := by
    rw [he.view] at hg
    split_ifs at hg with hk
    · rw [hk]
      exact hl g hg
    · exact h.live k' g hg
  kept g₀ hmem := by
    rcases h.kept g₀ hmem with hexp | ⟨g, hg, haged⟩
    · exact .inl hexp
    rw [he.view]
    split_ifs with hk
    · rw [hk] at hg
      exact hkept g₀ hmem g hg haged
    · exact .inr ⟨g, hg, haged⟩
  nodup k' := by
    rw [he.view]
    split_ifs with hk
    · exact hnd
    · exact h.nodup k'

lemma eq_of_id {g'} (hg : g ∈ s.view k) (hg' : g' ∈ s.view k) (hid : g'.id = g.id) : g' = g :=
  inj_on_of_nodup_map (h.nodup k) hg' hg hid

end Models

/-! ### Iterating over a list -/

section Iterate

variable {now : ℤ} {s : GlineState} {es : List Gline} {g : Gline} {k : GlList}

lemma fits_map (hs : s.Sound) (hg : g ∈ s.view k) {f}
    (hf : ∀ g, (f g).addr = g.addr ∧ (f g).bits = g.bits) : s.Fits ((s.view k).map f) k := by
  cases k with
  | badChan | global => trivial
  | node p =>
    obtain ⟨t, n, l, ht, hp, -, hent, hview⟩ := mem_view_node hg
    refine ⟨fun h => ne_nil_of_mem hg (map_eq_nil_iff.mp h), t, n, ht, hp, ?_⟩
    rintro _ hmem'
    obtain ⟨g', hg', rfl⟩ := mem_map.mp hmem'
    rw [hview] at hg'
    have hpre := ((hs t ht).entry _ _ _ _ hent).2 g' hg'
    exact ⟨(hf g').2.trans hpre.len, by rw [(hf g').1]; exact hpre.family,
      by rw [(hf g').1]; exact hpre.agree⟩

/-- What one turn of an iteration over the list `k` does to the state, at `g`. -/
structure Turned (now : ℤ) (s s' : GlineState) (es : List Gline) (k : GlList) (g : Gline) :
    Prop where
  models : Models now s' es
  nextId : s'.nextId = s.nextId
  others : ∀ k', k' ≠ k → s'.view k' = s.view k'
  rest : ∀ g' ∈ s.view k, g'.id ≠ g.id → g' ∈ s'.view k
  back : ∀ g' ∈ s'.view k, ∃ g₁ ∈ s.view k, g'.addr = g₁.addr ∧ g'.bits = g₁.bits

lemma turned_free (h : Models now s es) (hg : g ∈ s.view k) (hexp : recordExpired now g) :
    ∃ s', s.glineFree g = some s' ∧ Turned now s s' es k g := by
  obtain ⟨rfl, g₀, _, haged⟩ := h.live k g hg
  obtain ⟨s', hrun, hid, he⟩ := glineFree_spec h.sound hg (h.placed hg)
  refine ⟨s', hrun, h.edit he hid ?_ ?_ ?_, hid, ?_, ?_, ?_⟩
  · exact fun g' hg' => h.live _ g' (mem_of_mem_filter hg')
  · intro g1 hmem g' hg' haged'
    by_cases hsame : g'.id = g.id
    · left
      rw [← haged'.recordExpired_eq, h.eq_of_id hg hg' hsame]
      exact hexp
    · exact .inr ⟨g', mem_filter.mpr ⟨hg', by simpa using hsame⟩, haged'⟩
  · exact (h.nodup _).sublist (filter_sublist.map _)
  · intro k' hk'
    rw [he.view, if_neg hk']
  · intro g' hg' hne
    rw [he.view, if_pos rfl]
    exact mem_filter.mpr ⟨hg', by simpa using hne⟩
  · intro g' hg'
    rw [he.view, if_pos rfl] at hg'
    exact ⟨g', mem_of_mem_filter hg', rfl, rfl⟩

lemma turned_expire (h : Models now s es) (hg : g ∈ s.view k) (hexp : g.expire ≤ now) :
    ∃ s', s.setList ((s.view k).map fun g' => if g'.id = g.id then expireGline g' else g') k =
      some s' ∧ Turned now s s' es k g := by
  obtain ⟨s', hset, he, hid⟩ := setList_spec h.sound
    (fits_map (f := fun g' => if g'.id = g.id then expireGline g' else g') h.sound hg
      (fun g' => by split_ifs <;> exact ⟨rfl, rfl⟩))
  refine ⟨s', hset, h.edit he hid ?_ ?_ ?_, hid, ?_, ?_, ?_⟩
  · rintro _ hmem
    obtain ⟨g', hg', rfl⟩ := mem_map.mp hmem
    obtain ⟨hk, g₀, hmem0, haged⟩ := h.live k g' hg'
    split_ifs with hsame
    · rw [h.eq_of_id hg hg' hsame] at hk haged ⊢
      exact ⟨hk, g₀, hmem0, haged.expire hexp⟩
    · exact ⟨hk, g₀, hmem0, haged⟩
  · intro g1 hmem g' hg' haged'
    refine .inr ⟨_, mem_map_of_mem hg', ?_⟩
    split_ifs with hsame
    · rw [h.eq_of_id hg hg' hsame] at haged' ⊢
      exact haged'.expire hexp
    · exact haged'
  · rw [map_map]
    convert h.nodup k using 2
    funext g'
    simp only [Function.comp_apply]
    split_ifs <;> rfl
  · intro k' hk'
    rw [he.view, if_neg hk']
  · intro g' hg' hne
    rw [he.view, if_pos rfl]
    refine mem_map.mpr ⟨g', hg', ?_⟩
    rw [if_neg hne]
  · intro g' hg'
    rw [he.view, if_pos rfl] at hg'
    obtain ⟨g1, hg1, rfl⟩ := mem_map.mp hg'
    refine ⟨g1, hg1, ?_⟩
    split_ifs <;> exact ⟨rfl, rfl⟩

lemma gliterHead_spec (h : Models now s es) (hg : g ∈ s.view k) :
    ∃ s', gliterHead now s g = some (s', if recordExpired now g then none else some (age now g)) ∧
      Turned now s s' es k g := by
  obtain ⟨hk, _⟩ := h.live k g hg
  by_cases hexp : recordExpired now g
  · obtain ⟨s', hrun, hturn⟩ := turned_free h hg hexp
    exact ⟨s', by simp [gliterHead, hexp, hrun], hturn⟩
  by_cases hlt : now < g.expire
  · exact ⟨s, by simp [gliterHead, hexp, hlt, age], h, rfl, fun _ _ => rfl, fun _ hg' _ => hg',
      fun g' hg' => ⟨g', hg', rfl, rfl⟩⟩
  · obtain ⟨s', hset, hturn⟩ := turned_expire h hg (not_lt.mp hlt)
    refine ⟨s', ?_, hturn⟩
    simp [gliterHead, hexp, hlt, age, hk, getList_of_mem hg, hset]

/-- What an iteration over the list `k` does to the state. -/
structure Iterated (now : ℤ) (s s' : GlineState) (es : List Gline) (k : GlList) : Prop where
  models : Models now s' es
  nextId : s'.nextId = s.nextId
  others : ∀ k', k' ≠ k → s'.view k' = s.view k'
  back : ∀ g' ∈ s'.view k, ∃ g₁ ∈ s.view k, g'.addr = g₁.addr ∧ g'.bits = g₁.bits

lemma Turned.iterated {s'} (h : Turned now s s' es k g) : Iterated now s s' es k :=
  ⟨h.models, h.nextId, h.others, h.back⟩

lemma Iterated.trans {s₁ s'} (h : Iterated now s s₁ es k)
    (h' : Iterated now s₁ s' es k) : Iterated now s s' es k where
  models := h'.models
  nextId := h'.nextId.trans h.nextId
  others k' hk' := (h'.others k' hk').trans (h.others k' hk')
  back g' hg' := by
    obtain ⟨g1, hg1, ha1, hb1⟩ := h'.back g' hg'
    obtain ⟨g2, hg2, ha2, hb2⟩ := h.back g1 hg1
    exact ⟨g2, hg2, ha1.trans ha2, hb1.trans hb2⟩

/-- **`gliter`** over the rest of a list, with a body that returns the G-lines that
pass `test`: it finds one if and only if one of them passes and its record has not
expired. -/
theorem gliter_spec (body : Gline → Option Bool) (test : Gline → Bool) (gls : List Gline)
    (h : Models now s es) (hsub : ∀ g ∈ gls, g ∈ s.view k) (hnd : (gls.map (·.id)).Nodup)
    (hbody : ∀ g ∈ gls, body (age now g) = some (test (age now g))) :
    ∃ s' r, gliter now body gls s = some (s', r) ∧ Iterated now s s' es k ∧
      (r.isSome ↔ ∃ g ∈ gls, recordExpired now g = false ∧ test (age now g)) := by
  induction gls generalizing s with
  | nil =>
    exact ⟨s, none, rfl, ⟨h, rfl, fun _ _ => rfl, fun g' hg' => ⟨g', hg', rfl, rfl⟩⟩, by simp⟩
  | cons g next ih =>
    obtain ⟨s1, hhead, hturn⟩ := gliterHead_spec h (hsub g mem_cons_self)
    rw [map_cons, nodup_cons] at hnd
    have hsub1 : ∀ g' ∈ next, g' ∈ s1.view k := by
      intro g' hg'
      refine hturn.rest g' (hsub g' (mem_cons_of_mem _ hg')) ?_
      intro heq
      exact hnd.1 (heq ▸ mem_map_of_mem hg')
    obtain ⟨s', r, hrun, hit, hr⟩ := ih hturn.models hsub1 hnd.2
      (fun g' hg' => hbody g' (mem_cons_of_mem _ hg'))
    have hit' := hturn.iterated.trans hit
    by_cases hexp : recordExpired now g
    · exact ⟨s', r, by simp [gliter, hhead, hexp, hrun], hit', by simpa [hexp] using hr⟩
    have hb := hbody g mem_cons_self
    cases ht : test (age now g) with
    | true =>
      rw [ht] at hb
      exact ⟨s1, some (age now g), by simp [gliter, hhead, hexp, hb], hturn.iterated,
        by simp [hexp, ht]⟩
    | false =>
      rw [ht] at hb
      exact ⟨s', r, by simp [gliter, hhead, hexp, hb, hrun], hit', by simpa [ht] using hr⟩

end Iterate

/-! ### Walking up the tree -/

section Walk

variable {now : ℤ} {s : GlineState} {es : List Gline} {g : Gline} {ip : InAddr} {b : ℕ}
  {o : Option Ptr} {t : CidrTree (List Gline)} {n : CidrNode (List Gline)}

def Hits (ip : InAddr) (g : Gline) : Prop :=
  isIpv4 g.addr = isIpv4 ip ∧ g.bits ≤ 128 ∧ Agree getBit g.addr ip g.bits

lemma covers_iff_hits (h : g.HasPrefix n.ip n.bits) : n.Covers ip 128 ↔ Hits ip g := by
  constructor
  · rintro ⟨hf, hle, ha⟩
    exact ⟨h.family.symm.trans hf, h.len.trans_le hle, by rw [h.len]; exact h.agree.symm.trans ha⟩
  · rintro ⟨hf, hle, ha⟩
    rw [h.len] at hle ha
    exact ⟨h.family.trans hf, hle, h.agree.trans ha⟩

/-- The node that the walk comes to next has the longest of the masks shorter than
`b` that cover the address. -/
def Upcoming (s : GlineState) (ip : InAddr) (b : ℕ) : Option Ptr → Prop
  | none => ∀ p, ∀ g ∈ s.view (.node p), Hits ip g → b ≤ g.bits
  | some q => ∃ g ∈ s.view (.node q), Hits ip g ∧ g.bits < b ∧
      ∀ p, p ≠ q → ∀ g' ∈ s.view (.node p), Hits ip g' → g'.bits < b → g'.bits < g.bits

lemma Aged.hits_iff {g₀} (h : Aged now g₀ g) : Hits ip g ↔ Hits ip g₀ := by
  rcases h with rfl | ⟨_, rfl⟩ <;> rfl

open Option

lemma exists_node (hs : s.Sound) (ht : s.tree = some t) {p} (hg : g ∈ s.view (.node p)) :
    ∃ n, t.heap.cell p = some n ∧ n.data ≠ none ∧ g.HasPrefix n.ip n.bits := by
  obtain ⟨t', n, l, ht', hn, hd, hent, hview⟩ := mem_view_node hg
  obtain rfl : t = t' := some.inj (ht.symm.trans ht')
  have hpre := ((hs t ht).entry _ _ _ _ hent).2 g (hview ▸ hg)
  exact ⟨n, hn, by simp [hd], hpre⟩

lemma exists_mem (hs : s.Sound) (ht : s.tree = some t) {p : Ptr} (hn : t.heap.cell p = some n)
    (hd : n.data ≠ none) : ∃ g ∈ s.view (.node p), g.HasPrefix n.ip n.bits := by
  obtain ⟨l, hl⟩ := ne_none_iff_exists'.mp hd
  have hent : t.entryAt p = some (n.ip, n.bits, l) :=
    entryAt_eq_some.mpr ⟨n, hn, rfl, rfl, hl⟩
  obtain ⟨hne, hpre⟩ := (hs t ht).entry _ _ _ _ hent
  obtain ⟨g, hg⟩ := exists_mem_of_ne_nil l hne
  exact ⟨g, by rwa [view_node ht, hent], hpre g hg⟩

lemma upcoming_of_best (hs : s.Sound) (ht : s.tree = some t) {C}
    (hC : ∀ m, C m ↔ m.Covers ip 128 ∧ m.bits < b) (hbest : t.Best C o) : Upcoming s ip b o := by
  cases o with
  | none =>
    intro p g hg hhit
    obtain ⟨n, hn, hd, hpre⟩ := exists_node hs ht hg
    by_contra hlt
    refine hd (hbest p n hn ((hC n).mpr ⟨(covers_iff_hits hpre).mpr hhit, ?_⟩))
    rw [← hpre.len]
    omega
  | some q =>
    obtain ⟨n, hn, hc, hd, hmax⟩ := hbest
    obtain ⟨hcov, hlt⟩ := (hC n).mp hc
    obtain ⟨g, hg, hpre⟩ := exists_mem hs ht hn hd
    refine ⟨g, hg, (covers_iff_hits hpre).mp hcov, hpre.len.trans_lt hlt, ?_⟩
    intro p hpq g' hg' hhit hgb
    obtain ⟨m, hm, hmd, hpre'⟩ := exists_node hs ht hg'
    rw [hpre.len, hpre'.len]
    rw [hpre'.len] at hgb
    exact hmax p m hm ((hC m).mpr ⟨(covers_iff_hits hpre').mpr hhit, hgb⟩) hmd hpq

lemma Upcoming.iterated {s' p} (hup : Upcoming s ip b o)
    (hit : Iterated now s s' es (.node p)) (hp : ∀ g ∈ s.view (.node p), g.bits = b) :
    Upcoming s' ip b o := by
  have hview : ∀ z, z ≠ p → s'.view (.node z) = s.view (.node z) :=
    fun z hz => hit.others _ (by simpa using hz)
  have hp' : ∀ g ∈ s'.view (.node p), g.bits = b := by
    intro g hg
    obtain ⟨g1, hg1, _, hbits⟩ := hit.back g hg
    exact hbits.trans (hp g1 hg1)
  cases o with
  | none =>
    intro z g hg hhit
    by_cases hz : z = p
    · rw [hz] at hg
      exact (hp' g hg).ge
    · rw [hview z hz] at hg
      exact hup z g hg hhit
  | some q =>
    obtain ⟨g, hg, hhit, hlt, hmax⟩ := hup
    have hqp : q ≠ p := by
      rintro rfl
      exact absurd (hp g hg) hlt.ne
    refine ⟨g, by rwa [hview q hqp], hhit, hlt, ?_⟩
    intro z hzq g' hg' hhit' hlt'
    by_cases hz : z = p
    · rw [hz] at hg'
      exact absurd (hp' g' hg') hlt'.ne
    · rw [hview z hz] at hg'
      exact hmax z hzq g' hg' hhit' hlt'

section

variable {body : Gline → Option Bool} {test : Gline → Bool}
  (hbody : ∀ g ∈ es, ∀ p, g.prevP = .node p → Hits ip g →
    body (age now g) = some (test (age now g)))
include hbody

lemma visit_spec {q} (h : Models now s es) (hup : Upcoming s ip b (some q)) :
    ∃ t n parent s₁ r₁, s.tree = some t ∧ t.heap.cell q = some n ∧ n.bits < b ∧
      closestDataParent t.heap n = some parent ∧
      gliter now body (n.data.getD []) s = some (s₁, r₁) ∧
      Iterated now s s₁ es (.node q) ∧ Upcoming s₁ ip n.bits parent ∧
      (∀ g ∈ s.view (.node q), Hits ip g ∧ g.bits = n.bits) ∧
      (∀ p, p ≠ q → ∀ g ∈ s.view (.node p), Hits ip g → g.bits < b → g.bits < n.bits) ∧
      (r₁.isSome ↔ ∃ g ∈ s.view (.node q), recordExpired now g = false ∧ test (age now g)) := by
  obtain ⟨g, hg, hhit, hlt, hmax⟩ := hup
  obtain ⟨t, n, l, ht, hn, hd, hent, hview⟩ := mem_view_node hg
  have hpre : ∀ g' ∈ s.view (.node q), g'.HasPrefix n.ip n.bits := by
    rw [hview]
    exact ((h.sound t ht).entry _ _ _ _ hent).2
  have hcov : n.Covers ip 128 := (covers_iff_hits (hpre g hg)).mpr hhit
  -- the next node, determined before the list of this one is gone through
  obtain ⟨parent, hpar, hbest⟩ := closestDataParent_best (h.sound t ht).linked hn hcov
  have hnext : Upcoming s ip n.bits parent :=
    upcoming_of_best h.sound ht (fun _ => Iff.rfl) hbest
  have hhits : ∀ g' ∈ s.view (.node q), Hits ip g' ∧ g'.bits = n.bits :=
    fun g' hg' => ⟨(covers_iff_hits (hpre g' hg')).mp hcov, (hpre g' hg').len⟩
  obtain ⟨s₁, r₁, hrun, hit, hr⟩ := gliter_spec body test (s.view (.node q)) h
    (fun _ hg' => hg') (h.nodup _) (by
      intro g' hg'
      obtain ⟨hk, g₀, hmem0, haged⟩ := h.live _ g' hg'
      rw [haged.age_eq]
      exact hbody g₀ hmem0 q (haged.prevP_eq.symm.trans hk) (haged.hits_iff.mp (hhits g' hg').1))
  have hlen := (hpre g hg).len
  rw [hlen] at hlt hmax
  refine ⟨t, n, parent, s₁, r₁, ht, hn, hlt, hpar, ?_, hit,
    hnext.iterated hit (fun g' hg' => (hhits g' hg').2), hhits, hmax, hr⟩
  rw [hd, getD_some, ← hview, hrun]

/-- **The walk of `gliterIpMask`** finds what a scan of all nodes finds, among the
masks that cover the address. -/
theorem ipMaskLoop_spec (fuel b : ℕ) (hb : b < fuel) (h : Models now s es)
    (hup : Upcoming s ip b o) :
    ∃ s' r, ipMaskLoop now body fuel o s = some (s', r) ∧ Models now s' es ∧
      s'.nextId = s.nextId ∧ s'.view .global = s.view .global ∧
      (r.isSome ↔ ∃ p, ∃ g ∈ s.view (.node p), Hits ip g ∧ g.bits < b ∧
        recordExpired now g = false ∧ test (age now g)) := by
  induction fuel generalizing b o s with
  | zero => omega
  | succ fuel ih =>
    cases o with
    | none =>
      refine ⟨s, none, rfl, h, rfl, rfl, ?_⟩
      simp only [isSome_none, Bool.false_eq_true, false_iff]
      rintro ⟨p, g, hg, hhit, hlt, _⟩
      exact absurd hlt (hup p g hg hhit).not_gt
    | some q =>
      obtain ⟨t, n, parent, s1, r1, ht, hn, hlt, hpar, hrun1, hit, hnext, hhits, hmax, hr1⟩ :=
        visit_spec hbody h hup
      cases r1 with
      | some g1 =>
        refine ⟨s1, some g1, by simp [ipMaskLoop, ht, hn, hpar, hrun1], hit.models, hit.nextId,
          hit.others _ (by simp), ?_⟩
        obtain ⟨g, hg, hexp, htest⟩ := hr1.mp rfl
        obtain ⟨hhit, hbits⟩ := hhits g hg
        exact ⟨fun _ => ⟨q, g, hg, hhit, by omega, hexp, htest⟩, fun _ => rfl⟩
      | none =>
        obtain ⟨s', r, hrun, hM, hid, hglobal, hr⟩ := ih n.bits (by omega) hit.models hnext
        refine ⟨s', r, by simp [ipMaskLoop, ht, hn, hpar, hrun1, hrun], hM,
          hid.trans hit.nextId, hglobal.trans (hit.others _ (by simp)), ?_⟩
        rw [hr]
        -- what is found at another node is found at a later one
        constructor
        · rintro ⟨p, g, hg, hhit, hgb, hrest⟩
          have hpq : p ≠ q := by
            rintro rfl
            obtain ⟨g1, hg1, _, hbits⟩ := hit.back g hg
            have := (hhits g1 hg1).2
            omega
          rw [hit.others _ (by simpa using hpq)] at hg
          exact ⟨p, g, hg, hhit, by omega, hrest⟩
        · rintro ⟨p, g, hg, hhit, hgb, hrest⟩
          have hpq : p ≠ q := by
            rintro rfl
            exact absurd (hr1.mpr ⟨g, hg, hrest⟩) (by simp)
          refine ⟨p, g, ?_, hhit, hmax p hpq g hg hhit hgb, hrest⟩
          rwa [hit.others _ (by simpa using hpq)]

end

end Walk

end GlineState

end Ircu
