import Ircu.Gline.Lookup

/-!
The G-lines of a server over a run of calls.

A run installs G-lines with `make_gline`, removes them with `gline_free`, and looks
clients up, while time goes on. The list `installed` is what a plain list of the
G-lines would be; the answer of `gline_lookup` is that of a scan of it.

* `Models.make`, `Models.free`: the calls keep the relation to `installed`.

The conditions under which this holds are in `GlineSystem.Valid`: a mask that goes on
the tree has to be covered by the root of its family. `glineLookup_misses` shows what
happens to a client whose IPv4-compatible address is looked up in the IPv4 part of
the tree.
-/

namespace Ircu

open Prefix GlineState List Option Bool Gline

/-! ### The scan -/

def Gline.matchesClient (g : Gline) (c : GlineState.Client) : Bool :=
  if g.isRealName then ircMatch (g.user.drop 2) c.info = some 0
  else ircMatch g.user c.username = some 0 ∧
    if g.isIpMask then ipmaskCheck c.ip g.addr g.bits ≠ 0
    else g.host.any fun h => ircMatch h c.realhost = some 0

lemma Safe.some {mask} (h : Safe mask) (name : List UInt8) :
    ∃ m, ircMatch mask name = .some m := isSome_iff_exists.mp (h name)

lemma safe_of_noEscape {mask} (h : ch '\\' ∉ mask) : Safe mask := by
  intro name
  obtain ⟨r, hr, -⟩ := ircMatch_noEscape h name
  simp [hr]

namespace GlineState

/-- The G-line is a user G-line that is active at the time `now` and is not excluded
by the flags. -/
def inForce (now : ℤ) (flags : BitVec 32) (g : Gline) : Bool :=
  !g.isBadChan && !recordExpired now g && decide (now < g.expire) && g.isActive && !skip flags g

/-- The first installed G-line that is in force and matches the client. -/
def glineScan (now : ℤ) (flags : BitVec 32) (es : List Gline) (c : Client) : Option Gline :=
  es.find? fun g => inForce now flags g && g.matchesClient c

lemma glineScan_isSome {now flags es c} :
    (glineScan now flags es c).isSome ↔ ∃ g ∈ es, inForce now flags g ∧ g.matchesClient c := by
  simp [glineScan, List.find?_isSome]

/-! ### The bodies of the loops -/

section Bodies

variable {c : Client} {flags : BitVec 32} {g : Gline} {now : ℤ}

def treeTest (c : Client) (flags : BitVec 32) (g : Gline) : Bool :=
  !skip flags g && decide (ircMatch g.user c.username = some 0) && g.isActive

lemma treeBody_eq (huser : Safe g.user) (hip : g.isIpMask)
    (hcheck : ipmaskCheck c.ip g.addr g.bits ≠ 0) :
    treeBody c flags g = some (treeTest c flags g) := by
  obtain ⟨m, hm⟩ := huser.some c.username
  cases hskip : skip flags g with
  | true => simp [treeBody, treeTest, hskip]
  | false => by_cases h0 : m = 0 <;> simp [treeBody, treeTest, hskip, hm, h0, hip, hcheck]

/-- What the loop over `GlobalGlineList` returns. -/
def listTest (c : Client) (flags : BitVec 32) (g : Gline) : Bool :=
  !skip flags g && g.matchesClient c && g.isActive

lemma listBody_eq (hlegal : g.Legal) : listBody c flags g = some (listTest c flags g) := by
  cases hskip : skip flags g with
  | true => simp [listBody, listTest, hskip]
  | false =>
    cases hreal : g.isRealName with
    | true =>
      obtain ⟨_, hlen, hsafe⟩ := hlegal.realName hreal
      obtain ⟨m, hm⟩ := hsafe.some c.info
      by_cases h0 : m = 0 <;>
        simp [listBody, listTest, matchesClient, hskip, hreal, hlen.not_gt, hm, h0]
    | false =>
      obtain ⟨m, hm⟩ := (hlegal.user hreal).some c.username
      cases hip : g.isIpMask with
      | true =>
        by_cases h0 : m = 0 <;> by_cases hcheck : ipmaskCheck c.ip g.addr g.bits = 0 <;>
          simp [listBody, listTest, matchesClient, hskip, hreal, hip, hm, h0, hcheck]
      | false =>
        obtain ⟨host, hhost, hsafe⟩ := hlegal.host hreal hip
        obtain ⟨m', hm'⟩ := hsafe.some c.realhost
        by_cases h0 : m = 0 <;> by_cases h0' : m' = 0 <;>
          simp [listBody, listTest, matchesClient, hskip, hreal, hip, hhost, hm, h0, hm', h0']

end Bodies

/-! ### Lookups -/

section Lookup

variable {c : Client} {flags : BitVec 32} {g g₀ : Gline} {now : ℤ} {s : GlineState}
  {es : List Gline}

lemma age_cases (now g) : age now g = g ∨ age now g = expireGline g := by
  rw [age]
  split_ifs
  · exact .inl rfl
  · exact .inr rfl

lemma skip_age : skip flags (age now g) = skip flags g := by
  have hlocal : (expireGline g).isLocal = g.isLocal := by
    simp only [isLocal, expireGline_flag g (f := GLINE_LOCAL) rfl]
  rcases age_cases now g with h | h <;> simp [h, skip, hlocal]

lemma matchesClient_age : (age now g).matchesClient c = g.matchesClient c := by
  rcases age_cases now g with h | h <;> simp [h, matchesClient]

lemma matchesClient_of_aged (h : Aged now g₀ g) : g.matchesClient c = g₀.matchesClient c := by
  rcases h with rfl | ⟨_, rfl⟩ <;> simp [matchesClient]

lemma legal_age (h : g.Legal) : (age now g).Legal := by
  rcases age_cases now g with h' | h' <;> rw [h']
  · exact h
  · exact ⟨by simpa using h.realName, by simpa using h.user, by simpa using h.host⟩

lemma listTest_age (hbad : g.isBadChan = false) (hexp : recordExpired now g = false) :
    listTest c flags (age now g) = (inForce now flags g && g.matchesClient c) := by
  rw [listTest, inForce, skip_age, matchesClient_age, isActive_age, hbad, hexp]
  cases skip flags g <;> cases g.matchesClient c <;> cases g.isActive <;> simp

lemma treeTest_eq_listTest (hreal : g.isRealName = false) (hip : g.isIpMask)
    (hcheck : ipmaskCheck c.ip g.addr g.bits ≠ 0) : treeTest c flags g = listTest c flags g := by
  simp [treeTest, listTest, matchesClient, hreal, hip, hcheck]

structure OnNode (g : Gline) : Prop where
  bad : g.isBadChan = false
  legal : g.Legal
  ipMask : g.isIpMask
  single : ipmaskIsSingleFamily g.addr g.bits
  covered : Covered g.addr g.bits

lemma Models.onNode (h : Models now s es) (hg : g ∈ es) {p} (hp : g.prevP = .node p) :
    OnNode g := by
  obtain ⟨hplace, hbad, hlegal⟩ := h.legal g hg
  have hb : g.isBadChan = false := by
    rw [← not_eq_true, hbad, hp]
    simp
  rw [Placed, hp] at hplace
  obtain ⟨hon, hcov⟩ := hplace
  rw [onTree, and_eq_true] at hon
  exact ⟨hb, hlegal hb, hon.1, hon.2, hcov⟩

lemma OnNode.isRealName (h : OnNode g) : g.isRealName = false := by
  by_contra hreal
  have := (h.legal.realName (by simpa using hreal)).1
  simp [h.ipMask] at this

lemma OnNode.hits_iff (h : OnNode g) (hip : Covered c.ip 128) :
    Hits c.ip g ↔ ipmaskCheck c.ip g.addr g.bits ≠ 0 := by
  rw [ipmaskCheck_iff_family h.covered hip h.single, Hits]
  have := h.covered.le
  tauto

lemma OnNode.age_ipMask (h : OnNode g) (now) :
    (age now g).isIpMask ∧ (age now g).isRealName = false ∧
    (age now g).addr = g.addr ∧ (age now g).bits = g.bits := by
  rcases age_cases now g with h' | h' <;> simp [h', h.ipMask, h.isRealName]

lemma OnNode.treeBody_age (h : OnNode g) (flags) (hip : Covered c.ip 128) (hhit : Hits c.ip g) :
    treeBody c flags (age now g) = some (listTest c flags (age now g)) := by
  obtain ⟨hipm, hreal, haddr, hbits⟩ := h.age_ipMask now
  have hcheck : ipmaskCheck c.ip (age now g).addr (age now g).bits ≠ 0 := by
    rw [haddr, hbits]
    exact (h.hits_iff hip).mp hhit
  rw [treeBody_eq ((legal_age h.legal).user hreal) hipm hcheck,
    treeTest_eq_listTest hreal hipm hcheck]

variable (h : Models now s es)

include h

lemma lookup_start (hip : Covered c.ip 128) :
    ∃ o, s.searchBest c.ip 128 = some o ∧ Upcoming s c.ip 129 o := by
  rw [searchBest]
  cases ht : s.tree with
  | none =>
    refine ⟨none, rfl, fun p g hg => ?_⟩
    rw [view_node_none ht] at hg
    exact absurd hg not_mem_nil
  | some t =>
    obtain ⟨o, ho, hbest⟩ := CidrTree.findNode_best (h.sound t ht).linked hip
    refine ⟨o, ho, upcoming_of_best h.sound ht (fun m => ?_) hbest⟩
    exact ⟨fun hm => ⟨hm, Nat.lt_succ_of_le hm.le⟩, fun hm => hm.1⟩

lemma Models.exists_view_iff {k} (hk : k ≠ .badChan) :
    (∃ g ∈ s.view k, recordExpired now g = false ∧ listTest c flags (age now g)) ↔
      ∃ g ∈ es, g.prevP = k ∧ inForce now flags g ∧ g.matchesClient c := by
  have hbad : ∀ g ∈ es, g.prevP = k → g.isBadChan = false := by
    intro g hg hgk
    rw [← not_eq_true, (h.legal g hg).2.1, hgk]
    exact hk
  constructor
  · rintro ⟨g, hg, hexp, htest⟩
    obtain ⟨hgk, g₀, hmem, haged⟩ := h.live k g hg
    have hk0 := haged.prevP_eq.symm.trans hgk
    rw [haged.recordExpired_eq] at hexp
    rw [haged.age_eq, listTest_age (hbad g₀ hmem hk0) hexp, and_eq_true] at htest
    exact ⟨g₀, hmem, hk0, htest⟩
  rintro ⟨g₀, hmem, rfl, hforce, hmatch⟩
  have hexp : recordExpired now g₀ = false := by
    simp only [inForce, and_eq_true, not_eq_true'] at hforce
    exact hforce.1.1.1.2
  rcases h.kept g₀ hmem with hexp' | ⟨g, hg, haged⟩
  · simp [hexp'] at hexp
  · refine ⟨g, hg, haged.recordExpired_eq.trans hexp, ?_⟩
    rw [haged.age_eq, listTest_age (hbad g₀ hmem rfl) hexp, hforce, hmatch, Bool.and_self]

lemma Models.exists_hits_iff (hip : Covered c.ip 128) :
    (∃ p, ∃ g ∈ s.view (.node p), Hits c.ip g ∧ g.bits < 129 ∧ recordExpired now g = false ∧
      listTest c flags (age now g)) ↔
      ∃ p, ∃ g ∈ es, g.prevP = .node p ∧ inForce now flags g ∧ g.matchesClient c := by
  refine exists_congr fun p => ?_
  rw [← h.exists_view_iff (by simp)]
  refine exists_congr fun g => and_congr_right fun hg => ⟨fun hh => hh.2.2, fun hh => ?_⟩
  obtain ⟨hgk, g₀, hmem, haged⟩ := h.live _ g hg
  have hnode := h.onNode hmem (haged.prevP_eq.symm.trans hgk)
  have htest := hh.2
  rw [listTest, matchesClient_age.trans (matchesClient_of_aged haged), and_eq_true,
    and_eq_true] at htest
  have hcheck : ipmaskCheck c.ip g₀.addr g₀.bits ≠ 0 := by
    have hm := htest.1.2
    simp only [matchesClient, hnode.isRealName, hnode.ipMask, false_eq_true, if_false,
      if_true, decide_eq_true_eq] at hm
    exact hm.2
  have hhit := haged.hits_iff.mpr ((hnode.hits_iff hip).mpr hcheck)
  exact ⟨hhit, Nat.lt_succ_of_le hhit.2.1, hh⟩

/-- **`gline_lookup`** returns, keeps the lists, and answers as the scan of the
installed G-lines does. -/
theorem glineLookup_spec (flags) (hip : Covered c.ip 128) :
    ∃ s' r, glineLookup now s c flags = some (s', r) ∧ Models now s' es ∧
      (r.isSome ↔ (glineScan now flags es c).isSome) := by
  obtain ⟨o, ho, hup⟩ := lookup_start h hip
  obtain ⟨s1, r1, hrun1, hM1, _, hglobal, hr1⟩ := ipMaskLoop_spec
    (fun g hg p hp hhit => (h.onNode hg hp).treeBody_age flags hip hhit)
    CidrTree.maxDepth 129 (by decide) h hup
  rw [h.exists_hits_iff hip] at hr1
  have hscan : (glineScan now flags es c).isSome ↔
      (∃ p, ∃ g ∈ es, g.prevP = .node p ∧ inForce now flags g ∧ g.matchesClient c) ∨
        ∃ g ∈ es, g.prevP = .global ∧ inForce now flags g ∧ g.matchesClient c := by
    rw [glineScan_isSome]
    constructor
    · rintro ⟨g, hg, hforce, hmatch⟩
      cases hk : g.prevP with
      | node p => exact .inl ⟨p, g, hg, hk, hforce, hmatch⟩
      | global => exact .inr ⟨g, hg, hk, hforce, hmatch⟩
      | badChan =>
        rw [inForce, ((h.legal g hg).2.1).mpr hk] at hforce
        simp at hforce
    · rintro (⟨p, g, hg, _, hrest⟩ | ⟨g, hg, _, hrest⟩) <;> exact ⟨g, hg, hrest⟩
  cases r1 with
  | some g =>
    refine ⟨s1, some g, by simp [glineLookup, ho, hrun1], hM1, ?_⟩
    rw [hscan, ← hr1]
    simp
  | none =>
    obtain ⟨s', r, hrun, hit, hr⟩ := gliter_spec (listBody c flags)
      (listTest c flags) (s1.view .global) hM1 (fun _ hg => hg) (hM1.nodup _) (by
        intro g hg
        obtain ⟨hgk, g₀, hmem, haged⟩ := hM1.live _ g hg
        rw [haged.age_eq]
        refine listBody_eq (legal_age ((h.legal g₀ hmem).2.2 ?_))
        rw [← not_eq_true, (h.legal g₀ hmem).2.1, haged.prevP_eq.symm.trans hgk]
        simp)
    refine ⟨s', r, ?_, hit.models, ?_⟩
    · have hview : s1.view .global = s1.global := rfl
      rw [hview] at hrun
      simp [glineLookup, ho, hrun1, hrun]
    · rw [hr, hM1.exists_view_iff (by simp), hscan, ← hr1]
      simp

end Lookup

/-! ### Installing and removing -/

section Install

variable {a : Args} {mem : ℕ} {g : Gline} {now : ℤ} {s s' : GlineState} {es : List Gline}

lemma newGline_spec (h : s.newGline a mem = some g) :
    g.id = s.nextId ∧ ((g.isBadChan = true ∧ g.prevP = .badChan ∧ g.isIpMask = false) ∨
      (g.isBadChan = false ∧ g.prevP = .global)) := by
  have hbad : ∀ f : BitVec 32, f &&& GLINE_MASK &&& GLINE_BADCHAN = f &&& GLINE_BADCHAN := by
    intro f
    rw [BitVec.and_assoc, show GLINE_MASK &&& GLINE_BADCHAN = GLINE_BADCHAN from rfl]
  have hip : ∀ f : BitVec 32, f &&& GLINE_MASK &&& GLINE_IPMASK = 0 := by
    intro f
    rw [BitVec.and_assoc, show GLINE_MASK &&& GLINE_IPMASK = 0#32 from rfl, BitVec.and_zero]
    rfl
  rw [newGline] at h
  split_ifs at h with hb huser
  · obtain rfl := some.inj h
    exact ⟨rfl, .inl ⟨by simpa [isBadChan, hbad] using hb, rfl, by simp [isIpMask, hip]⟩⟩
  · obtain rfl := some.inj h
    exact ⟨rfl, .inr ⟨by simpa [isBadChan, hbad] using hb, rfl⟩⟩
  cases hhost : a.host with
  | none => simp [hhost] at h
  | some host =>
    rw [hhost] at h
    cases hm : ipmaskParse host true with
    | none =>
      simp only [hm, some.injEq] at h
      subst h
      exact ⟨rfl, .inr ⟨by simpa [isBadChan, hbad] using hb, rfl⟩⟩
    | some m =>
      simp only [hm, some.injEq] at h
      subst h
      have hor : (a.flags &&& GLINE_MASK ||| GLINE_IPMASK) &&& GLINE_BADCHAN =
          a.flags &&& GLINE_BADCHAN := by
        rw [BitVec.and_or_distrib_right, hbad,
          show GLINE_IPMASK &&& GLINE_BADCHAN = 0#32 from rfl, BitVec.or_zero]
      exact ⟨rfl, .inr ⟨by simpa [isBadChan, hor] using hb, rfl⟩⟩

lemma Models.install (h : Models now s es) {k} (hid : s'.nextId = s.nextId + 1)
    (he : Edited s s' k (g :: s.view k)) (hk : g.prevP = k) (hg : g.id = s.nextId)
    (hlegal : Placed g ∧ (g.isBadChan = true ↔ g.prevP = .badChan) ∧
      (g.isBadChan = false → g.Legal)) : Models now s' (g :: es) where
  sound := he.sound
  ids := by
    rw [map_cons, nodup_cons]
    refine ⟨?_, h.ids⟩
    rw [hg]
    intro hmem
    obtain ⟨g', hg', hid'⟩ := mem_map.mp hmem
    exact absurd hid' (h.fresh g' hg').ne
  fresh g' hg' := by
    rw [hid]
    rcases mem_cons.mp hg' with rfl | hg'
    · omega
    · exact (h.fresh g' hg').trans (Nat.lt_succ_self _)
  legal g' hg' := by
    rcases mem_cons.mp hg' with rfl | hg'
    · exact hlegal
    · exact h.legal g' hg'
  live k' g' hg' := by
    have hold : ∀ k', g' ∈ s.view k' → g'.prevP = k' ∧ ∃ g₀ ∈ g :: es, Aged now g₀ g' := by
      intro k' hg'
      obtain ⟨hk', g₀, hmem, haged⟩ := h.live k' g' hg'
      exact ⟨hk', g₀, mem_cons_of_mem _ hmem, haged⟩
    rw [he.view] at hg'
    split_ifs at hg' with hkk
    · rw [hkk]
      rcases mem_cons.mp hg' with rfl | hg'
      · exact ⟨hk, g', mem_cons_self, .inl rfl⟩
      · exact hold k hg'
    · exact hold k' hg'
  kept g₀ hg0 := by
    rw [he.view]
    rcases mem_cons.mp hg0 with rfl | hg0
    · exact .inr ⟨g₀, by rw [if_pos hk]; exact mem_cons_self, .inl rfl⟩
    refine (h.kept g₀ hg0).imp id fun ⟨g', hg', haged⟩ => ⟨g', ?_, haged⟩
    split_ifs with hkk
    · exact mem_cons_of_mem _ (hkk ▸ hg')
    · exact hg'
  nodup k' := by
    rw [he.view]
    split_ifs with hkk
    · rw [map_cons, nodup_cons]
      refine ⟨?_, h.nodup k⟩
      intro hmem
      obtain ⟨g', hg', hid'⟩ := mem_map.mp hmem
      obtain ⟨_, g₀, hmem0, haged⟩ := h.live k g' hg'
      have := h.fresh g₀ hmem0
      have := haged.id_eq
      omega
    · exact h.nodup k'

/-- **`make_gline`** installs the G-line that it returns. -/
theorem Models.make (h : Models now s es) (hexp : a.expire ≠ 0)
    (hnew : s.newGline a mem = some g) (hlegal : g.isBadChan = false → g.Legal)
    (hcov : g.onTree → Covered g.addr g.bits) :
    ∃ s' g', s.makeGline a mem = some (s', g') ∧ Models now s' (g' :: es) := by
  obtain ⟨hid, hkind⟩ := newGline_spec hnew
  cases hon : g.onTree with
  | true =>
    have hbad : g.isBadChan = false := by
      rcases hkind with ⟨_, _, hip⟩ | ⟨hbad, _⟩
      · simp [onTree, hip] at hon
      · exact hbad
    obtain ⟨s', p, hrun, hnext, he⟩ := makeGline_tree h.sound hexp hnew hon (hcov hon)
    refine ⟨s', _, hrun, h.install hnext he rfl hid ⟨⟨hon, hcov hon⟩, ?_, fun _ => ?_⟩⟩
    · have hbad' : isBadChan { g with prevP := .node p } = false := hbad
      simp [hbad']
    · have hl := hlegal hbad
      exact ⟨hl.realName, hl.user, hl.host⟩
  | false =>
    obtain ⟨s', hrun, hnext, he⟩ := makeGline_list h.sound hexp hnew hon (by
      rcases hkind with ⟨_, hk, _⟩ | ⟨_, hk⟩ <;> simp [hk])
    refine ⟨s', g, hrun, h.install hnext he rfl hid ⟨?_, ?_, hlegal⟩⟩
    · rcases hkind with ⟨_, hk, _⟩ | ⟨_, hk⟩ <;> simp [Placed, hk, hon]
    · rcases hkind with ⟨hbad, hk, _⟩ | ⟨hbad, hk⟩ <;> simp [hbad, hk]

/-- **`gline_free`** removes the G-line that it is given. -/
theorem Models.free (h : Models now s es) (hg : g ∈ s.view g.prevP) :
    ∃ s', s.glineFree g = some s' ∧ Models now s' (es.filter (·.id ≠ g.id)) := by
  obtain ⟨s', hrun, hid, he⟩ := glineFree_spec h.sound hg (h.placed hg)
  obtain ⟨_, g₀, hmem0, haged⟩ := h.live _ g hg
  have hfilter : ∀ {e}, e ∈ es.filter (·.id ≠ g.id) ↔ e ∈ es ∧ e.id ≠ g.id := by
    intro e
    simp
  refine ⟨s', hrun, he.sound, h.ids.sublist (filter_sublist.map _), ?_, ?_, ?_, ?_, ?_⟩
  · intro e he
    rw [hid]
    exact h.fresh e (hfilter.mp he).1
  · exact fun e he => h.legal e (hfilter.mp he).1
  · -- what is left in a list was not made for the freed G-line
    intro k g' hg'
    have hmem : g' ∈ s.view k ∧ (k = g.prevP → g'.id ≠ g.id) := by
      rw [he.view] at hg'
      split_ifs at hg' with hk
      · obtain ⟨hmem, hne⟩ := mem_filter.mp hg'
        exact ⟨hk ▸ hmem, fun _ => by simpa using hne⟩
      · exact ⟨hg', fun h => absurd h hk⟩
    obtain ⟨hk, e, hes, hag⟩ := h.live k g' hmem.1
    refine ⟨hk, e, hfilter.mpr ⟨hes, fun heq => ?_⟩, hag⟩
    have hsame : e = g₀ :=
      inj_on_of_nodup_map h.ids hes hmem0 (heq.trans haged.id_eq)
    refine hmem.2 ?_ (hag.id_eq.trans heq)
    rw [← hk, hag.prevP_eq, hsame, haged.prevP_eq]
  · intro e hes
    obtain ⟨hes, hne⟩ := hfilter.mp hes
    refine (h.kept e hes).imp id fun ⟨g', hg', hag⟩ => ⟨g', ?_, hag⟩
    rw [he.view]
    split_ifs with hk
    · refine mem_filter.mpr ⟨hk ▸ hg', ?_⟩
      simpa [hag.id_eq] using hne
    · exact hg'
  · intro k
    rw [he.view]
    split_ifs with hk
    · exact (h.nodup _).sublist (filter_sublist.map _)
    · exact h.nodup k

end Install

lemma models_init (now) : Models now init [] where
  sound _ ht := absurd ht (by simp [init])
  ids := nodup_nil
  fresh _ hg := absurd hg not_mem_nil
  legal _ hg := absurd hg not_mem_nil
  live k g hg := by cases k <;> simp [view, getList, init] at hg
  kept _ hg := absurd hg not_mem_nil
  nodup k := by cases k <;> simp [view, getList, init]

end GlineState

/-! ### Runs -/

inductive GlineOp
  | make (a : GlineState.Args) (mem : ℕ)
  | free (g : Gline)
  | lookup (now : ℤ) (c : GlineState.Client) (flags : BitVec 32)

/-- The lists of the server, the G-lines that should be in them, and the time. -/
structure GlineSystem where
  st : GlineState
  installed : List Gline
  now : ℤ

namespace GlineSystem

variable (s : GlineSystem)

def run : GlineOp → Option GlineSystem
  | .make a mem => do
      let (st, g) ← s.st.makeGline a mem
      return { s with st, installed := g :: s.installed }
  | .free g => do
      let st ← s.st.glineFree g
      return { s with st, installed := s.installed.filter (·.id ≠ g.id) }
  | .lookup now c flags => do
      let (st, _) ← glineLookup now s.st c flags
      return { s with st, now }

/-- A G-line as `gline_add` makes it whose mask is covered by the root of its family if it goes on
the tree, the removal of a G-line that exists, and the lookup of a client whose address is not
IPv4-compatible. -/
def Valid : GlineOp → Prop
  | .make a mem => a.expire ≠ 0 ∧ ∃ g, s.st.newGline a mem = some g ∧
      (g.isBadChan = false → g.Legal) ∧ (g.onTree → Covered g.addr g.bits)
  | .free g => g ∈ s.st.view g.prevP
  | .lookup now c _ => s.now ≤ now ∧ Covered c.ip 128

def Step (s s' : GlineSystem) : Prop := ∃ op, s.Valid op ∧ s.run op = some s'

/-- What a run of valid calls leads to, from any time on. -/
def Reachable : Prop :=
  ∃ now, Relation.ReflTransGen Step ⟨GlineState.init, [], now⟩ s

variable {s : GlineSystem}

lemma run_spec (h : Models s.now s.st s.installed) {op} (hop : s.Valid op) :
    ∃ s', s.run op = some s' ∧ Models s'.now s'.st s'.installed := by
  cases op with
  | make a mem =>
    obtain ⟨hexp, g, hnew, hlegal, hcov⟩ := hop
    obtain ⟨st, g', hrun, hM⟩ := h.make hexp hnew hlegal hcov
    exact ⟨⟨st, g' :: s.installed, s.now⟩, by simp [run, hrun], hM⟩
  | free g =>
    obtain ⟨st, hrun, hM⟩ := h.free hop
    exact ⟨⟨st, s.installed.filter (·.id ≠ g.id), s.now⟩, by rw [run, hrun]; rfl, hM⟩
  | lookup now c flags =>
    obtain ⟨hnow, hip⟩ := hop
    obtain ⟨st, r, hrun, hM, _⟩ := glineLookup_spec (h.mono hnow) flags hip
    exact ⟨⟨st, s.installed, now⟩, by simp [run, hrun], hM⟩

lemma Reachable.models (h : s.Reachable) : Models s.now s.st s.installed := by
  obtain ⟨now, h⟩ := h
  induction h with
  | refl => exact models_init now
  | tail _ hstep ih =>
    obtain ⟨op, hop, hrun⟩ := hstep
    obtain ⟨s', hrun', hM⟩ := run_spec ih hop
    rw [hrun] at hrun'
    rwa [some.inj hrun']

/-- **`gline_lookup` is a scan.** After every run of valid calls every further one
returns, and a lookup at a later time finds a G-line if and only if the scan of the
installed G-lines finds one. -/
theorem glineLookup_iff_scan (h : s.Reachable) :
    (∀ op, s.Valid op → ∃ s', s.run op = some s') ∧
    ∀ now c, s.now ≤ now → Covered c.ip 128 →
      ∃ st r, glineLookup now s.st c 0 = some (st, r) ∧
        (r.isSome ↔ (glineScan now 0 s.installed c).isSome) := by
  refine ⟨fun op hop => ?_, fun now c hnow hip => ?_⟩
  · obtain ⟨s', hrun, _⟩ := run_spec h.models hop
    exact ⟨s', hrun⟩
  · obtain ⟨st, r, hrun, _, hr⟩ := glineLookup_spec (h.models.mono hnow) 0 hip
    exact ⟨st, r, hrun, hr⟩

lemma Reachable.get (h : s.Reachable) (op : GlineOp) (hop : s.Valid op)
    (hrun : (s.run op).isSome) : ((s.run op).get hrun).Reachable := by
  obtain ⟨now, h⟩ := h
  exact ⟨now, h.tail ⟨op, hop, (some_get hrun).symm⟩⟩

/-- An active G-line `*@host` that expires at the time `1000`. -/
def hostArgs (host : List UInt8) : GlineState.Args :=
  ⟨str "*", some host, 1000, 1, 1000, GLINE_ACTIVE⟩

lemma valid_hostArgs {host}
    (h : (s.st.newGline (hostArgs host) 0).any fun g => !g.isRealName && g.user == str "*" &&
      g.host.any (fun host => ch '\\' ∉ host) && decide (g.onTree → Covered g.addr g.bits)) :
    s.Valid (.make (hostArgs host) 0) := by
  cases hnew : s.st.newGline (hostArgs host) 0 with
  | none => simp [hnew] at h
  | some g =>
    simp only [hnew, any_some, and_eq_true, not_eq_true', beq_iff_eq, decide_eq_true_eq] at h
    obtain ⟨⟨⟨hreal, huser⟩, hhost⟩, hcov⟩ := h
    have hsafe : Safe g.user := by
      rw [huser]
      exact safe_of_noEscape (by decide)
    obtain ⟨h, hh, hesc⟩ := (any_eq_true _ _).mp hhost
    exact ⟨show (1000 : ℤ) ≠ 0 by decide, g, hnew, fun _ => ⟨by simp [hreal], fun _ => hsafe,
      fun _ _ => ⟨h, hh, safe_of_noEscape (of_decide_eq_true hesc)⟩⟩, hcov⟩

/-- The first G-line of a list is removed. -/
lemma Reachable.free_head (h : s.Reachable) (k : GlList) {P : GlineSystem → Bool}
    (hP : (s.st.view k).head?.any fun g => decide (g.prevP = k) && (s.run (.free g)).any P) :
    ∃ s', s'.Reachable ∧ P s' = true := by
  obtain ⟨g, hmem, hg⟩ := (any_eq_true _ _).mp hP
  rw [and_eq_true, decide_eq_true_eq] at hg
  obtain ⟨s', hrun, hs'⟩ := (any_eq_true _ _).mp hg.2
  have hvalid : g ∈ s.st.view g.prevP := by
    rw [hg.1]
    exact List.mem_of_head? hmem
  obtain ⟨now, h⟩ := h
  exact ⟨s', ⟨now, h.tail ⟨.free g, hvalid, hrun⟩⟩, hs'⟩

/-- A client from `10.1.2.3`. -/
def netClient : GlineState.Client := ⟨mapped 0x0a01 0x0203, str "joe", str "host", str "Joe"⟩

/-- The G-lines `*@10.0.0.0/8`, `*@10.1.0.0/16` and `*@*.org` are made, and the first of them is
removed again. -/
lemma exists_removed : ∃ s : GlineSystem, s.Reachable ∧
    decide (s.now ≤ 5 ∧ (glineScan 5 0 s.installed netClient).isSome ∧
      s.installed.map (·.host) = [some (str "*.org"), some (str "10.1.0.0/16")]) = true := by
  have h1 := Reachable.get ⟨0, .refl⟩ (.make (hostArgs (str "10.0.0.0/8")) 0)
    (valid_hostArgs (by decide +kernel)) (by decide +kernel)
  have h2 := h1.get (.make (hostArgs (str "10.1.0.0/16")) 0)
    (valid_hostArgs (by decide +kernel)) (by decide +kernel)
  have h3 := h2.get (.make (hostArgs (str "*.org")) 0)
    (valid_hostArgs (by decide +kernel)) (by decide +kernel)
  exact h3.free_head (.node 2) (by decide +kernel)

/-- Two G-lines of both kinds are left after a removal, and the one in the tree is found for a
client from `10.1.2.3`. -/
theorem glineLookup_iff_scan_apply :
    ∃ s : GlineSystem, s.Reachable ∧
      s.installed.map (·.host) = [some (str "*.org"), some (str "10.1.0.0/16")] ∧
      (glineScan 5 0 s.installed netClient).isSome ∧
      ∃ st r, glineLookup 5 s.st netClient 0 = some (st, r) ∧
        (r.isSome ↔ (glineScan 5 0 s.installed netClient).isSome) := by
  obtain ⟨s, h, hs⟩ := exists_removed
  obtain ⟨hnow, hscan, hinst⟩ := of_decide_eq_true hs
  exact ⟨s, h, hinst, hscan, (glineLookup_iff_scan h).2 5 netClient hnow (by decide +kernel)⟩

/-- **Every G-line is where it belongs.** What is installed is on its list unless its record has
expired, no list has anything else or anything twice, and no entry of the tree is empty. -/
theorem lists_exact (h : s.Reachable) :
    s.st.Sound ∧ (∀ k, ((s.st.view k).map (·.id)).Nodup) ∧
      (∀ k, ∀ g ∈ s.st.view k, g.prevP = k ∧ ∃ g₀ ∈ s.installed, Aged s.now g₀ g) ∧
      ∀ g₀ ∈ s.installed, recordExpired s.now g₀ ∨ ∃ g ∈ s.st.view g₀.prevP, Aged s.now g₀ g :=
  ⟨h.models.sound, h.models.nodup, h.models.live, h.models.kept⟩

/-- After a removal, the G-lines that are left are on their lists. -/
theorem lists_exact_removed :
    ∃ s : GlineSystem, s.Reachable ∧
      s.installed.map (·.host) = [some (str "*.org"), some (str "10.1.0.0/16")] ∧ s.st.Sound ∧
      ∀ g₀ ∈ s.installed, recordExpired s.now g₀ ∨ ∃ g ∈ s.st.view g₀.prevP, Aged s.now g₀ g := by
  obtain ⟨s, h, hs⟩ := exists_removed
  obtain ⟨-, -, hinst⟩ := of_decide_eq_true hs
  exact ⟨s, h, hinst, (lists_exact h).1, (lists_exact h).2.2.2⟩

/-- Without the conditions: the G-line `*@::/100` hangs in the IPv6 part of the tree and is not
found for `::1.2.3.4`, which counts as IPv4 although `ipmask_check` says that the mask matches it.
And there is no node for the mask `::1.2.3.4`. -/
theorem glineLookup_misses :
    (∃ s : GlineSystem, s.Reachable ∧ ∃ c : GlineState.Client,
      (glineLookup 5 s.st c 0).map (fun p => p.2.isSome) = some false ∧
      (glineScan 5 0 s.installed c).isSome) ∧
    (GlineState.init.makeGline (hostArgs (str "::1.2.3.4")) 0).isNone := by
  have h0 : Reachable ⟨GlineState.init, [], 0⟩ := ⟨0, .refl⟩
  have h1 := h0.get (.make (hostArgs (str "::/100")) 0)
    (valid_hostArgs (by decide +kernel)) (by decide +kernel)
  exact ⟨⟨_, h1, ⟨⟨![0, 0, 0, 0, 0, 0, 0x0102, 0x0304]⟩, str "joe", str "host", str "Joe"⟩,
    by decide +kernel, by decide +kernel⟩, by decide +kernel⟩

end GlineSystem

end Ircu
