import Ircu.Modsync.Sides

/-!
What holds of one server at any time.

* `Core.Sane`: its transactions and its records fit together; `Effect.sane`;
* `Effect.booked`: its records are right;
* `Effect.orders`, `Message.Proper`, `Effect.proper`: orders come from the coordinator, and messages
  are about transactions of the right server.
-/

namespace Ircu.Modsync

open List Option Message Modsync.Core Relay Nat

open TwoPhase (Steps Step Good Doomed)

variable {σ : Type} {W : World σ} {me v : σ}

/-! ### One server -/

section Sane

variable {c c' : Core σ} {k k' : Coord σ} {p : Part σ} {t : Txid σ} {order : Order} {u : σ}
  {mods init : List ModuleHandle} {b : Bool} {F : Part σ → Prop}

def Core.readied (c : Core σ) : List (Txid σ) :=
  (c.deals.filter fun d => d.fate ≠ .refused).map (·.txid)

structure Core.Leads (me : σ) (c : Core σ) (k : Coord σ) : Prop where
  part : ∃ p, c.part = some p ∧ p.txid = k.txid
  nodup : k.waiting.Nodup
  server : k.txid.server = me
  count : k.txid.count ≤ c.counter
  live : ∀ o ∈ c.outcomes, o.1 ≠ k.txid

structure Core.Sane (me : σ) (c : Core σ) : Prop where
  coord : ∀ k, c.coord = some k → c.Leads me k
  part : ∀ p, c.part = some p → p.coordinator = p.txid.server
  outcomes : ∀ o ∈ c.outcomes, o.1.server = me ∧ o.1.count ≤ c.counter
  once : (c.outcomes.map Prod.fst).Nodup
  deals : ∀ d ∈ c.deals, d.txid.server = me → d.txid.count ≤ c.counter
  readied : c.readied.Nodup
  ended : ∀ o ∈ c.outcomes, ∃ d ∈ c.deals, d.txid = o.1 ∧ d.fate = .settled o.2

lemma settle_deals (hbooked : Booked W me init c) (hp : c.part = some p) (b) :
    ∃ d ds, c.deals = d :: ds ∧ d.Open W me p ∧ (c.settle b p).deals =
        { d with fate := .settled b, after := settled b p c.modules } :: ds := by
  obtain ⟨d, ds, hdeals, hopen⟩ := hbooked.part p hp
  exact ⟨d, ds, hdeals, hopen, by rw [settle, hdeals, closeDeal]⟩

lemma readied_settle (hbooked : Booked W me init c) (hp : c.part = some p) (b) :
    (c.settle b p).readied = c.readied := by
  obtain ⟨d, ds, hdeals, hopen, hsettle⟩ := settle_deals hbooked hp b
  rw [readied, readied, hsettle, hdeals, filter_cons_of_pos (by simp),
    filter_cons_of_pos (by simp [hopen.fate])]
  rfl

lemma Core.Sane.deals_settle (h : c.Sane me) (hbooked : Booked W me init c) (hp : c.part = some p)
    (b) : ∀ d ∈ (c.settle b p).deals, d.txid.server = me → d.txid.count ≤ c.counter := by
  obtain ⟨d, ds, hdeals, hopen, hsettle⟩ := settle_deals hbooked hp b
  have hold := h.deals
  rw [hdeals] at hold
  rw [hsettle]
  intro d' hd'
  rcases mem_cons.mp hd' with rfl | hd'
  · exact hold d mem_cons_self
  · exact hold d' (mem_cons_of_mem _ hd')

lemma Core.Sane.ended_settle (h : c.Sane me) (hbooked : Booked W me init c) (hp : c.part = some p)
    (b) : ∀ o ∈ c.outcomes, ∃ d ∈ (c.settle b p).deals, d.txid = o.1 ∧ d.fate = .settled o.2 := by
  obtain ⟨d, ds, hdeals, hopen, hsettle⟩ := settle_deals hbooked hp b
  intro o ho
  obtain ⟨d', hd', htxid, hfate⟩ := h.ended o ho
  rw [hdeals] at hd'
  rcases mem_cons.mp hd' with rfl | hd'
  · rw [hopen.fate] at hfate
    cases hfate
  · exact ⟨d', hsettle ▸ mem_cons_of_mem _ hd', htxid, hfate⟩

lemma Core.Sane.settle (h : c.Sane me) (hbooked : Booked W me init c) (hp : c.part = some p)
    (hcoord : c.coord = none) : (c.settle b p).Sane me where
  coord k hk := absurd (hcoord.symm.trans hk) (by simp)
  part q hq := by cases hq
  outcomes := h.outcomes
  once := h.once
  deals := h.deals_settle hbooked hp b
  readied := readied_settle hbooked hp b ▸ h.readied
  ended := h.ended_settle hbooked hp b

lemma Core.Sane.finish (h : c.Sane me) (hbooked : Booked W me init c) (hk : c.coord = some k)
    (hp : c.part = some p) (htxid : p.txid = k.txid) : (c.finish b k p).Sane me := by
  have hleads := h.coord k hk
  obtain ⟨d, ds, hdeals, hopen, hsettle⟩ := settle_deals hbooked hp b
  refine ⟨fun k hk => ?_, fun q hq => ?_, fun o ho => ?_, ?_, h.deals_settle hbooked hp b,
    readied_settle hbooked hp b ▸ h.readied, fun o ho => ?_⟩
  · cases hk
  · cases hq
  · rcases mem_cons.mp ho with rfl | ho
    · exact ⟨hleads.server, hleads.count⟩
    · exact h.outcomes o ho
  · refine nodup_cons.mpr ⟨fun hmem => ?_, h.once⟩
    obtain ⟨o, ho, heq⟩ := mem_map.mp hmem
    exact hleads.live o ho heq
  rcases mem_cons.mp ho with rfl | ho
  · have hmem : _ ∈ (c.settle b p).deals := hsettle.symm ▸ mem_cons_self
    exact ⟨_, hmem, hopen.txid.trans htxid, rfl⟩
  · exact h.ended_settle hbooked hp b o ho

lemma readied_pending : (c.record t order .pending mods).readied = t :: c.readied := by
  rw [readied, record, filter_cons_of_pos (by simp)]
  rfl

lemma Core.Sane.record {fate} {x : Option (Coord σ)} {y : Option (Part σ)} {n : ℕ}
    (h : c.Sane me) (hcount : c.counter ≤ n) (ht : t.server = me → t.count ≤ n)
    (hreadied : (c.record t order fate mods).readied.Nodup) (hcoord : ∀ k, x = some k →
      Core.Leads me { c.record t order fate mods with coord := x, part := y, counter := n } k)
    (hpart : ∀ p, y = some p → p.coordinator = p.txid.server) :
    Core.Sane me { c.record t order fate mods with coord := x, part := y, counter := n } where
  coord := hcoord
  part := hpart
  outcomes o ho := ⟨(h.outcomes o ho).1, (h.outcomes o ho).2.trans hcount⟩
  once := h.once
  deals d hd hserver := by
    rcases mem_cons.mp hd with rfl | hd
    · exact ht hserver
    · exact (h.deals d hd hserver).trans hcount
  readied := hreadied
  ended o ho := by
    obtain ⟨d, hd, hrest⟩ := h.ended o ho
    exact ⟨d, mem_cons_of_mem _ hd, hrest⟩

variable [DecidableEq σ]

lemma Core.Sane.hear (h : c.Sane me) (hk : c.coord = some k) (hk' : Hears k u b k') :
    Core.Sane me { c with coord := some k' } := by
  have hleads := h.coord k hk
  refine ⟨fun j hj => ?_, h.part, h.outcomes, h.once, h.deals, h.readied, h.ended⟩
  obtain rfl : k' = j := some.inj hj
  refine ⟨hk'.txid ▸ hleads.part, ?_, hk'.txid ▸ hleads.server, hk'.txid ▸ hleads.count,
    hk'.txid ▸ hleads.live⟩
  rw [hk'.waiting]
  exact hleads.nodup.erase u

lemma notMem_readied (h : partView t c = .out) : t ∉ c.readied := by
  intro hmem
  obtain ⟨d, hd, rfl⟩ := mem_map.mp hmem
  obtain ⟨hd, hfate⟩ := mem_filter.mp hd
  have hne : c.held d.txid ≠ none := by
    intro hnone
    have hnot := List.find?_eq_none.mp hnone d hd
    exact hnot (by simpa using hfate)
  obtain ⟨d', hd'⟩ := ne_none_iff_exists'.mp hne
  have hprop := List.find?_some hd'
  rw [partView, hd', map_some] at h
  cases hf : d'.fate <;> rw [hf] at h hprop <;> simp [Fate.view] at h hprop

lemma Core.Sane.start (h : c.Sane me) (hk : Begins W me c k p) : (c.start k p mods).Sane me := by
  have hnew : k.txid ∉ c.readied := by
    intro hmem
    obtain ⟨d, hd, htx⟩ := mem_map.mp hmem
    have hcount := h.deals d (mem_filter.mp hd).1 (by rw [htx, hk.txid])
    rw [htx, hk.txid] at hcount
    exact absurd hcount (not_succ_le_self _)
  refine h.record ?_ (fun _ => le_rfl)
    (readied_pending ▸ nodup_cons.mpr ⟨hnew, h.readied⟩) (fun j hj => ?_) fun q hq => ?_
  · rw [hk.txid]
    exact le_succ _
  · obtain rfl : k = j := some.inj hj
    refine ⟨⟨p, rfl, hk.same.1⟩, ?_, by rw [hk.txid], le_rfl, fun o ho heq => ?_⟩
    · rw [hk.waiting]
      exact nodup_reverse.mpr (W.nodup.filter _)
    · have hcount := (h.outcomes o ho).2
      rw [heq, hk.txid] at hcount
      exact absurd hcount (not_succ_le_self _)
  · obtain rfl : p = q := some.inj hq
    rw [hk.same.2.2, hk.same.1, hk.txid]

structure Incoming (me : σ) (inp : Option (σ × Message σ)) : Prop where
  ne : ∀ u m, inp = some (u, m) → u ≠ me
  order : ∀ u m t order, inp = some (u, m) → m.order = some (t, order) → t.server = u
  outcome : ∀ u m t b, inp = some (u, m) → m.outcome = some (t, b) → t.server = u

lemma Effect.sane {inp outs}
    (heff : Effect W me F c inp c' outs) (h : c.Sane me) (hbooked : Booked W me init c)
    (hinp : Incoming me inp)
    (hout : ∀ u m t order, inp = some (u, m) → m.order = some (t, order) → partView t c = .out) :
    c'.Sane me := by
  cases heff with
  | quiet | busy | stale | ignore => exact h
  | @decline u m t order why mods hm hcoord hpart hprep =>
    have hne : t.server ≠ me := hinp.order u m t order rfl hm ▸ hinp.ne u m rfl
    refine h.record le_rfl (fun h => absurd h hne) ?_ (fun k hk => ?_) h.part
    · exact h.readied
    · exact absurd (hcoord.symm.trans hk) (by simp)
  | @agree u m t order undo mods hm hcoord hpart hprep =>
    have hu := hinp.order u m t order rfl hm
    refine h.record le_rfl (fun h => absurd h (hu ▸ hinp.ne u m rfl)) ?_
      (fun k hk => ?_) fun q hq => ?_
    · exact nodup_cons.mpr ⟨notMem_readied (hout u m t order rfl hm), h.readied⟩
    · exact absurd (hcoord.symm.trans hk) (by simp)
    · cases hq
      exact hu.symm
  | heard hk hm hk' => exact h.hear hk hk'
  | decide hk hm hk' hwaiting hp htxid hn | timeout hk hp htxid hn =>
    exact h.finish hbooked hk hp htxid
  | @settle u m q commit hp hm =>
    refine h.settle hbooked hp ?_
    -- a coordinator does not get the outcome of its own transaction
    by_contra hsome
    obtain ⟨k, hk⟩ := ne_none_iff_exists'.mp hsome
    obtain ⟨q', hq', htxid⟩ := (h.coord k hk).part
    rw [hp] at hq'
    cases hq'
    have hu := hinp.outcome u m q.txid commit rfl hm
    rw [htxid, (h.coord k hk).server] at hu
    exact hinp.ne u m rfl hu.symm
  | giveUp hcoord hp hF => exact h.settle hbooked hp hcoord
  | stillborn hcoord hpart hprep =>
    refine h.record (le_succ _) (fun _ => le_rfl) ?_ (fun k hk => ?_)
      h.part
    · exact h.readied
    · exact absurd (hcoord.symm.trans hk) (by simp)
  | start hk => exact h.start hk
  | alone hk hlen hprep hwaiting hm hn =>
    exact (h.start hk).finish (hbooked.start hk hprep) rfl rfl hk.same.1

lemma Effect.booked {inp outs}
    (heff : Effect W me F c inp c' outs) (h : Booked W me init c) : Booked W me init c' := by
  cases heff with
  | quiet | busy | stale | ignore => exact h
  | decline hm hcoord hpart hprep => exact h.decline hpart hprep
  | agree hm hcoord hpart hprep => exact h.agree hpart hprep _
  | heard => exact h.congr rfl rfl rfl
  | decide hk hm hk' hwaiting hp htxid hn | timeout hk hp => exact (h.settle hp _).congr rfl rfl rfl
  | settle hp | giveUp hcoord hp => exact h.settle hp _
  | stillborn hcoord hpart hprep => exact (h.decline hpart hprep).congr rfl rfl rfl
  | start hk hlen hprep => exact h.start hk hprep
  | alone hk hlen hprep =>
    exact ((h.start hk hprep).settle rfl _).congr rfl rfl rfl

end Sane

/-! ### Orders -/

section Orders

variable [DecidableEq σ] {c c' : Core σ} {F : Part σ → Prop} {init : List ModuleHandle}
  {inp : Option (σ × Message σ)} {outs : Outgoing σ} {p : Part σ}

def Core.orders (c : Core σ) : List (Txid σ × Order) := c.deals.map fun d => (d.txid, d.order)

omit [DecidableEq σ] in
lemma orders_settle (hbooked : Booked W me init c) (hp : c.part = some p) (b : Bool) :
    (c.settle b p).orders = c.orders := by
  obtain ⟨d, ds, hdeals, hopen, hsettle⟩ := settle_deals hbooked hp b
  rw [orders, orders, hsettle, hdeals]
  rfl

lemma Effect.orders (heff : Effect W me F c inp c' outs) (hbooked : Booked W me init c) :
    c'.orders = c.orders ∨ ∃ o, c'.orders = o :: c.orders ∧
      (o.1.server = me ∨ ∃ u m order, inp = some (u, m) ∧ m.order = some (o.1, order) ∧
        o.2 = order.received) := by
  cases heff with
  | quiet | busy | stale | heard | ignore => exact .inl rfl
  | decline hm | agree hm => exact .inr ⟨_, rfl, .inr ⟨_, _, _, rfl, hm, rfl⟩⟩
  | decide hk hm hk' hwaiting hp | settle hp | giveUp hcoord hp | timeout hk hp =>
    exact .inl (orders_settle hbooked hp _)
  | stillborn => exact .inr ⟨_, rfl, .inl rfl⟩
  | start hk => exact .inr ⟨_, rfl, .inl (by rw [hk.txid])⟩
  | alone hk hlen hprep =>
    exact .inr ⟨_, orders_settle (hbooked.start hk hprep) rfl _, .inl (by rw [hk.txid])⟩

lemma Effect.orders_subset (heff : Effect W me F c inp c' outs) (hbooked : Booked W me init c) :
    c.orders ⊆ c'.orders := by
  rcases heff.orders hbooked with h | ⟨o, h, -⟩
  · rw [h]
    exact List.Subset.refl _
  · rw [h]
    exact subset_cons_self _ _

/-- A message from `i` to `j` is about a transaction of the right server, and an order is one that
its coordinator has prepared. -/
structure Message.Proper (orders : List (Txid σ × Order)) (i j : σ) (m : Message σ) : Prop where
  order : ∀ t o, m.order = some (t, o) → t.server = i ∧ (t, o) ∈ orders ∧ o.received = o
  outcome : ∀ t b, m.outcome = some (t, b) → t.server = i
  answer : ∀ t b, m.answer = some (t, b) → t.server = j

variable {m : Message σ} {orders : List (Txid σ × Order)} {t : Txid σ} {j : σ}

omit [DecidableEq σ] in
lemma proper_answer {b : Bool} (hm : m.answer = some (t, b)) (i : σ) :
    m.Proper orders i t.server := by
  cases m <;> cases hm
  all_goals exact ⟨by simp [order], by simp [outcome], by simp [answer]⟩

omit [DecidableEq σ] in
lemma proper_outcome {b : Bool} (hm : m.outcome = some (t, b)) (j : σ) :
    m.Proper orders t.server j := by
  cases m <;> cases hm
  all_goals exact ⟨by simp [order], by simp [outcome], by simp [answer]⟩

omit [DecidableEq σ] in
lemma proper_order {o : Order} (hm : m.order = some (t, o)) (hmem : (t, o) ∈ orders)
    (ho : o.received = o) (j : σ) : m.Proper orders t.server j := by
  cases m <;> cases hm
  exact ⟨by simp [order, hmem, ho], by simp [outcome], by simp [answer]⟩

lemma mem_outbox_one {u m'} (h : m' ∈ outbox me [(some u, m)] j) : m' = m ∧ u = j := by
  rw [outbox_one] at h
  split_ifs at h with hj
  · exact ⟨mem_singleton.mp h, hj.2⟩
  · cases h

lemma mem_outbox_all {m'} (h : m' ∈ outbox me [(none, m)] j) : m' = m := by
  obtain ⟨o, ho, heq⟩ := mem_filterMap.mp h
  rw [mem_singleton.mp ho] at heq
  split_ifs at heq
  all_goals exact (some.inj heq).symm

lemma Effect.proper (heff : Effect W me F c inp c' outs) (hsane : c.Sane me)
    (hinp : Incoming me inp) (hm : m ∈ outbox me outs j) : m.Proper c'.orders me j := by
  cases heff with
  | quiet | stale | heard | ignore | settle | giveUp | stillborn => cases hm
  | busy hmess | decline hmess | agree hmess =>
    obtain ⟨rfl, rfl⟩ := mem_outbox_one hm
    rw [← hinp.order _ _ _ _ rfl hmess]
    exact proper_answer rfl me
  | decide hk hmess hk' hwaiting hp htxid hn | timeout hk hp htxid hn =>
    rw [mem_outbox_all hm, ← (hsane.coord _ hk).server]
    exact proper_outcome hn j
  | @start k p m mods hk hlen hprep hmess =>
    have hserver : k.txid.server = me := by rw [hk.txid]
    rw [mem_outbox_all hm, ← hserver]
    exact proper_order hmess mem_cons_self hlen j
  | @alone k p m n mods hk hlen hprep hwaiting hmess hn =>
    have hserver : k.txid.server = me := by rw [hk.txid]
    rw [outbox_cons] at hm
    rcases mem_append.mp hm with hm | hm
    · rw [mem_outbox_all hm, ← hserver]
      exact proper_order hmess mem_cons_self hlen j
    · rw [mem_outbox_all hm, ← hserver]
      exact proper_outcome hn j

end Orders

end Ircu.Modsync
