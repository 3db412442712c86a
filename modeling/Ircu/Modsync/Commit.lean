import Ircu.Modsync.Servers

/-!
Module transactions are all or nothing, unless a server gives up waiting too early.

* `Inv`: the invariant of the network, and `Inv.step`: every transaction is a two-phase commit
  between its coordinator and each of the other servers.
-/

namespace Ircu.Modsync

open List Function List.Subset Option

open TwoPhase (Steps Step Good Doomed)
open Relay (Net Mesh)

variable {σ : Type} [DecidableEq σ] {W : World σ} {me v : σ}

/-! ### The invariant -/

/-- A transaction as a two-phase commit between its coordinator and another server. -/
def view (t : Net σ (Message σ) (Server σ)) (txid : Txid σ) (v : σ) : TwoPhase.State where
  coord := coordView txid v (t.node txid.server).toCore
  part := partView txid (t.node v).toCore
  down := downs txid (t.chan txid.server v)
  up := ups txid (t.chan v txid.server)

/-- What holds of the network at any time. -/
structure Inv (W : World σ) (init : σ → List ModuleHandle) (t : Net σ (Message σ) (Server σ)) :
    Prop where
  sane : ∀ v, (t.node v).toCore.Sane v
  booked : ∀ v, Booked W v (init v) (t.node v).toCore
  self : ∀ v, t.chan v v = []
  proper : ∀ i j, ∀ m ∈ t.chan i j, m.Proper (t.node i).orders i j
  orders : ∀ v, ∀ o ∈ (t.node v).orders, o ∈ (t.node o.1.server).orders
  good : ∀ txid v, v ≠ txid.server → Good (view t txid v)

/-- A message is taken from a queue of the server `me`, or none is. -/
inductive Popped (chan : σ → σ → List (Message σ)) (me : σ) :
    Option (σ × Message σ) → (σ → σ → List (Message σ)) → Prop
  | nothing : Popped chan me none chan
  | head {u m ms} (h : chan u me = m :: ms) :
      Popped chan me (some (u, m)) (Relay.setQueue chan u me ms)

section Step

lemma outbox_self (outs : Outgoing σ) : Relay.outbox me outs me = [] :=
  filterMap_eq_nil_iff.mpr fun _ _ => if_neg fun h => h.1 rfl

variable {init : σ → List ModuleHandle} {t t' : Net σ (Message σ) (Server σ)}
  {inp : Option (σ × Message σ)} {q : σ → σ → List (Message σ)} {s' : Server σ} {outs : Outgoing σ}

lemma net_effect (h : Inv W init t) {e}
    (he : Relay.Allowed allowed t.node e) (hstep : Net.step (program W) t e = some t') :
    ∃ me inp s' outs q, Effect W me (Failing t.node) (t.node me).toCore inp s'.toCore outs ∧
      Popped t.chan me inp q ∧ t' = ⟨Function.update t.node me s', Relay.post me outs q⟩ := by
  have hown : ∀ v, (t.node v).toCore.Own := fun v k hk => ((h.sane v).coord k hk).part
  cases e with
  | act v e =>
    obtain ⟨r, hr, rfl⟩ := map_eq_some_iff.mp hstep
    exact ⟨v, none, r.1, r.2, t.chan, effect_deed (hown v) he hr, .nothing, rfl⟩
  | deliver i j =>
    rw [Net.step] at hstep
    cases hq : t.chan i j with
    | nil =>
      rw [hq] at hstep
      cases hstep
    | cons m ms =>
      rw [hq] at hstep
      cases hstep
      exact ⟨j, some (i, m), _, _, _, effect_recv (hown j) i m, .head hq, rfl⟩

lemma Popped.subset (hq : Popped t.chan me inp q) (i j : σ) : q i j ⊆ t.chan i j := by
  cases hq with
  | nothing => exact refl _
  | head h =>
    rw [Relay.setQueue]
    split_ifs with hij
    · rw [hij.1, hij.2, h]
      exact subset_cons_self _ _
    · exact refl _

lemma Popped.other (hq : Popped t.chan me inp q) {j} (hj : j ≠ me) (i : σ) :
    q i j = t.chan i j := by
  cases hq with
  | nothing => rfl
  | head h => rw [Relay.setQueue, if_neg fun hij => hj hij.2]

lemma Popped.incoming (h : Inv W init t) (hq : Popped t.chan me inp q) : Incoming me inp := by
  cases hq with
  | nothing => exact ⟨by simp, by simp, by simp⟩
  | @head u m ms hhead =>
    have hproper := h.proper u me m (hhead ▸ mem_cons_self)
    refine ⟨fun u' m' heq => ?_, fun u' m' t o heq hm => ?_, fun u' m' t b heq hm => ?_⟩
    · cases heq
      rintro rfl
      rw [h.self] at hhead
      cases hhead
    · cases heq
      exact (hproper.order t o hm).1
    · cases heq
      exact hproper.outcome t b hm

variable {txid : Txid σ}

lemma Popped.answers (hq : Popped t.chan me inp q) (v) :
    ups txid (t.chan v me) = answers txid v inp ++ ups txid (q v me) := by
  cases hq with
  | nothing => rfl
  | @head u m ms hhead =>
    rw [Modsync.answers, Relay.setQueue]
    by_cases hu : u = v
    · subst hu
      rw [if_pos rfl, if_pos ⟨rfl, rfl⟩, hhead, ups, filterMap_cons]
      cases m.up txid <;> rfl
    · rw [if_neg hu, if_neg fun h => hu h.1.symm]
      rfl

lemma Popped.tells (h : Inv W init t) (hq : Popped t.chan me inp q) :
    downs txid (t.chan txid.server me) = tells txid inp ++ downs txid (q txid.server me) := by
  cases hq with
  | nothing => rfl
  | @head u m ms hhead =>
    rw [Modsync.tells, Relay.setQueue]
    by_cases hu : txid.server = u
    · rw [if_pos ⟨hu, rfl⟩, hu, hhead, downs, filterMap_cons]
      cases m.down txid <;> rfl
    have hproper := h.proper u me m (hhead ▸ mem_cons_self)
    have hnone : m.down txid = none := by
      cases m with
      | prepare t o =>
        exact if_neg (c := t = txid) fun ht => hu (ht ▸ (hproper.order t o rfl).1)
      | commit t => exact if_neg (c := t = txid) fun ht => hu (ht ▸ hproper.outcome t true rfl)
      | abort t why =>
        exact if_neg (c := t = txid) fun ht => hu (ht ▸ hproper.outcome t false rfl)
      | ready t | failed t why => rfl
    rw [if_neg fun h => hu h.1, hnone]
    rfl

lemma pastView_of_mem {c b}
    (honce : (c.outcomes.map Prod.fst).Nodup) (hmem : (txid, b) ∈ c.outcomes) :
    pastView txid c = .done b := by
  rw [pastView]
  cases hfind : c.outcomes.find? (·.1 = txid) with
  | none =>
    exact absurd (decide_eq_true rfl) (List.find?_eq_none.mp hfind _ hmem)
  | some o =>
    have htxid : o.1 = txid := by simpa using List.find?_some hfind
    have heq : o = (txid, b) :=
      inj_on_of_nodup_map honce (mem_of_find?_eq_some hfind) hmem htxid
    rw [heq]

lemma coordView_of_mem {c} (hc : c.Sane me) {b}
    (hmem : (txid, b) ∈ c.outcomes) (v) : coordView txid v c = .done b := by
  have hpast := pastView_of_mem hc.once hmem
  cases hk : c.coord with
  | none => rw [coordView_none hk, hpast]
  | some k => rw [coordView_other hk fun h => (hc.coord k hk).live _ hmem h.symm, hpast]

lemma Inv.doomed (h : Inv W init t) {p} (hp : (t.node me).part = some p)
    (hF : Failing t.node p) (v) : Doomed (coordView p.txid v (t.node p.txid.server).toCore) := by
  rw [Failing, (h.sane me).part p hp] at hF
  rcases hF with hF | hF
  · cases hk : (t.node p.txid.server).coord with
    | none =>
      rw [hk] at hF
      cases hF
    | some k =>
      rw [hk, any_some, Bool.and_eq_true, decide_eq_true_eq] at hF
      rw [coordView_self hk hF.1, hF.2]
      exact .failed _
  · rw [coordView_of_mem (h.sane _) hF]
    exact .aborted

lemma Inv.good_step (h : Inv W init t)
    (heff : Effect W me (Failing t.node) (t.node me).toCore inp s'.toCore outs)
    (hq : Popped t.chan me inp q) (hv : v ≠ txid.server) :
    Good (view ⟨Function.update t.node me s', Relay.post me outs q⟩ txid v) := by
  have hgood := h.good txid v hv
  have hinp := hq.incoming h
  rcases eq_or_ne txid.server me with hme | hme
  · -- the coordinator
    have hvme : v ≠ me := hme ▸ hv
    have hsane := h.sane me
    refine hgood.steps ?_
    simp only [view, hme, update_self, update_of_ne hvme, Relay.post, if_true,
      if_neg hvme, hq.other hvme, hq.answers]
    rw [downs, downs, filterMap_append]
    refine heff.coord_side ⟨fun k hk => (hsane.coord k hk).part,
      fun k hk => (hsane.coord k hk).nodup, fun o ho => (hsane.outcomes o ho).2⟩ hvme _ _ _
  rcases eq_or_ne v me with rfl | hvme
  · -- the participant
    rw [view, hq.tells h] at hgood
    refine hgood.steps ?_
    simp only [view, update_self, update_of_ne hme, Relay.post, if_true, if_neg hme, hq.other hme]
    rw [ups, ups, filterMap_append]
    refine heff.part_side (h.booked v) (fun k hk => ((h.sane v).coord k hk).server) hinp.order hme
      (fun p hp hF htxid => ?_) hgood
    subst htxid
    exact h.doomed hp hF v
  · -- somebody else
    simp only [view, update_of_ne hme, update_of_ne hvme, Relay.post, if_neg hme,
      if_neg hvme, hq.other hvme, hq.other hme]
    exact hgood

lemma Inv.asked (h : Inv W init t) (hq : Popped t.chan me inp q) {u m order}
    (hinp : inp = some (u, m)) (hm : m.order = some (txid, order)) :
    partView txid (t.node me).toCore = .out := by
  have hin := hq.incoming h
  have hu := hin.order u m txid order hinp hm
  have hgood := h.good txid me fun heq => hin.ne u m hinp (hu.symm.trans heq.symm)
  rw [view, hq.tells h, hinp, tells, (down_order hm).1, if_pos rfl] at hgood
  exact hgood.asked_out

/-- **One event of the network**, on the server it happens at and on the two channels it uses. -/
lemma Inv.step (h : Inv W init t) {e} (he : Relay.Allowed allowed t.node e)
    (hstep : Net.step (program W) t e = some t') : Inv W init t' := by
  obtain ⟨me, inp, s', outs, q, heff, hq, rfl⟩ := net_effect h he hstep
  have hinp := hq.incoming h
  have hsub : ∀ i, (t.node i).orders ⊆ (Function.update t.node me s' i).orders := by
    intro i
    rcases eq_or_ne i me with rfl | hi
    · rw [update_self]
      exact heff.orders_subset (h.booked i)
    · rw [update_of_ne hi]
      exact refl _
  refine ⟨fun v => ?_, fun v => ?_, fun v => ?_, fun i j m hm => ?_, fun v o ho => ?_,
    fun txid v hv => h.good_step heff hq hv⟩
  · rcases eq_or_ne v me with rfl | hv
    · simp only [update_self]
      exact heff.sane (h.sane v) (h.booked v) hinp fun u m txid order => h.asked hq
    · simp only [update_of_ne hv]
      exact h.sane v
  · rcases eq_or_ne v me with rfl | hv
    · simp only [update_self]
      exact heff.booked (h.booked v)
    · simp only [update_of_ne hv]
      exact h.booked v
  · simp only [Relay.post]
    split_ifs with hv
    · rw [hv, outbox_self, append_nil]
      exact eq_nil_of_subset_nil (h.self me ▸ hq.subset me me)
    · rw [hq.other hv, h.self]
  · simp only [Relay.post] at hm
    have hold : m ∈ q i j → m.Proper (Function.update t.node me s' i).orders i j := fun hm => by
      have hproper := h.proper i j m (hq.subset i j hm)
      refine ⟨fun txid o hmo => ?_, hproper.outcome, hproper.answer⟩
      obtain ⟨hserver, hmem, hlen⟩ := hproper.order txid o hmo
      exact ⟨hserver, hsub i hmem, hlen⟩
    split_ifs at hm with hi
    · rcases mem_append.mp hm with hm | hm
      · exact hold hm
      · subst hi
        simp only [update_self]
        exact heff.proper (h.sane i) hinp hm
    · exact hold hm
  have hold : o ∈ (t.node v).orders → o ∈ (Function.update t.node me s' o.1.server).orders :=
    fun ho => hsub _ (h.orders v o ho)
  rcases eq_or_ne v me with rfl | hv
  · simp only [update_self] at ho
    rcases heff.orders (h.booked v) with heq | ⟨o', heq, hfrom⟩
    · exact hold (heq ▸ ho)
    rw [heq] at ho
    rcases mem_cons.mp ho with rfl | ho
    · rcases hfrom with hserver | ⟨u, m, order, rfl, hm, horder⟩
      · simp only [hserver, update_self]
        exact heq ▸ mem_cons_self
      -- an order is the one that its coordinator has prepared
      cases hq with
      | head hhead =>
        have hproper := h.proper u v m (hhead ▸ mem_cons_self)
        obtain ⟨hserver, hmem, hlen⟩ := hproper.order o.1 order hm
        rw [hlen] at horder
        rw [← horder, ← hserver] at hmem
        exact hsub _ hmem
    · exact hold ho
  · simp only [update_of_ne hv] at ho
    exact hold ho

end Step

/-! ### Whole runs -/

def Message.txid : Message σ → Txid σ
  | .prepare txid _ => txid
  | .ready txid => txid
  | .failed txid _ => txid
  | .commit txid => txid
  | .abort txid _ => txid

/-- Nothing about the transaction is under way. -/
def Delivered (s : Mesh σ (Message σ) (Server σ)) (txid : Txid σ) : Prop :=
  ∀ k j, ∀ p ∈ s.wire k j, p.body.txid ≠ txid

section Runs

variable {T : Relay.Tree σ} {s : Mesh σ (Message σ) (Server σ)} {node : σ → Server σ}
  {init : σ → List ModuleHandle} {txid : Txid σ}

def quietMesh (node : σ → Server σ) : Mesh σ (Message σ) (Server σ) := ⟨node, fun _ _ => []⟩

omit [DecidableEq σ] in
lemma Server.Idle.sane {s : Server σ} (h : s.Idle) : s.toCore.Sane v where
  coord k hk := absurd (h.coord.symm.trans hk) (by simp)
  part p hp := absurd (h.part.symm.trans hp) (by simp)
  outcomes o ho := absurd (h.outcomes ▸ ho) not_mem_nil
  once := by simp [h.outcomes]
  deals d hd := absurd (h.deals ▸ hd) not_mem_nil
  readied := by simp [Core.readied, h.deals]
  ended o ho := absurd (h.outcomes ▸ ho) not_mem_nil

omit [DecidableEq σ] in
lemma Server.Idle.booked {s : Server σ} (h : s.Idle) : Booked W v s.modules s.toCore where
  books := by
    rw [h.deals]
    exact .nil
  part p hp := absurd (h.part.symm.trans hp) (by simp)
  free _ d hd := absurd (h.deals ▸ hd) not_mem_nil
  tail d hd := absurd (mem_of_mem_tail hd) (by simp [h.deals])

lemma inv_quiet (hidle : ∀ v, (node v).Idle) :
    Inv W (fun v => (node v).modules) (Mesh.net T (quietMesh node)) := by
  have hchan : ∀ i j, (Mesh.net T (quietMesh node)).chan i j = [] := fun i j => by
    refine eq_nil_iff_forall_not_mem.mpr fun m hm => ?_
    obtain ⟨k, n, p, hp, -⟩ := Relay.mem_between hm
    cases hp
  refine ⟨fun v => ?_, fun v => ?_, fun v => hchan v v, fun i j m hm => ?_, fun v o ho => ?_,
    fun txid v hv => ?_⟩
  · exact (hidle v).sane
  · exact (hidle v).booked
  · rw [hchan] at hm
    cases hm
  · change o ∈ (node v).orders at ho
    rw [Core.orders, (hidle v).deals] at ho
    cases ho
  rw [view, hchan, hchan]
  change Good ⟨coordView txid v (node txid.server).toCore, partView txid (node v).toCore, [], []⟩
  rw [coordView_none (hidle _).coord, pastView, (hidle _).outcomes, partView, Core.held,
    (hidle v).deals]
  exact .idle

lemma downs_delivered (h : Delivered s txid) (i x : σ) :
    downs txid ((Mesh.net T s).chan i x) = [] := by
  refine filterMap_eq_nil_iff.mpr fun m hm => ?_
  obtain ⟨k, n, p, hp, rfl⟩ := Relay.mem_between hm
  have hne := h k n p hp
  generalize p.body = m at hne
  cases m with
  | prepare t o | commit t | abort t why => exact if_neg hne
  | ready t | failed t why => rfl

lemma fate_of_view {c} (h : c.Sane v) {d} (hd : d ∈ c.deals)
    (hfate : d.fate ≠ .refused) : partView d.txid c = d.fate.view := by
  have hmem : d ∈ c.deals.filter fun d => d.fate ≠ .refused :=
    mem_filter.mpr ⟨hd, decide_eq_true hfate⟩
  rw [partView]
  cases hheld : c.held d.txid with
  | none =>
    have hnot := List.find?_eq_none.mp hheld d hd
    exact absurd (by simpa using hfate) hnot
  | some d' =>
    have hprop := List.find?_some hheld
    simp only [Bool.and_eq_true, decide_eq_true_eq] at hprop
    have hmem' : d' ∈ c.deals.filter fun d => d.fate ≠ .refused :=
      mem_filter.mpr ⟨mem_of_find?_eq_some hheld, decide_eq_true hprop.2⟩
    have heq : d' = d := inj_on_of_nodup_map h.readied hmem' hmem hprop.1
    rw [heq]
    rfl

lemma Inv.settled (h : Inv W init (Mesh.net T s)) (hquiet : Delivered s txid) {b}
    (hmem : (txid, b) ∈ (s.node txid.server).outcomes) {d} (hd : d ∈ (s.node v).deals)
    (htxid : d.txid = txid) (hfate : d.fate ≠ .refused) : d.fate = .settled b := by
  have hview := fate_of_view (h.sane v) hd hfate
  rw [htxid] at hview
  have hsettled : partView txid (s.node v).toCore = .out ∨
      partView txid (s.node v).toCore = .settled b := by
    rcases eq_or_ne v txid.server with rfl | hv
    · obtain ⟨d', hd', htx, hfate'⟩ := (h.sane txid.server).ended _ hmem
      have hview' := fate_of_view (h.sane txid.server) hd' (by rw [hfate']; simp)
      rw [htx, hfate'] at hview'
      exact .inr hview'
    have hgood := h.good txid v hv
    rw [view, downs_delivered hquiet, coordView_of_mem (h.sane txid.server) hmem] at hgood
    cases b with
    | true => exact .inr hgood.committed_settled
    | false => exact hgood.aborted_settled
  change partView txid (s.node v).toCore = _ at hview
  rw [hview] at hsettled
  cases hf : d.fate with
  | refused => exact absurd hf hfate
  | pending =>
    rw [hf] at hsettled
    simp [Fate.view] at hsettled
  | settled b' =>
    rw [hf] at hsettled
    simpa [Fate.view] using hsettled

/-- **All or nothing.** Once nothing about it is under way, a committed transaction has been carried
out by every server that was ready for it, and an aborted load has loaded the module nowhere. -/
theorem module_transaction (T : Relay.Tree σ) (hidle : ∀ v, (node v).Idle)
    {es : List (Relay.Event σ Deed)}
    (hes : Run.Permitted (Mesh.step T (program W)) (fun s e => Relay.Allowed allowed s.node e)
      (quietMesh node) es)
    (hrun : Run.run (Mesh.step T (program W)) (quietMesh node) es = some s)
    (hquiet : Delivered s txid) :
    ((txid, true) ∈ (s.node txid.server).outcomes → ∀ v, ∀ d ∈ (s.node v).deals, d.txid = txid →
      d.fate ≠ .refused →
        d.fate = .settled true ∧ Applied (W.library v) d.order d.before d.after ∧
          ∃ d' ∈ (s.node txid.server).deals, d'.txid = txid ∧ d'.order = d.order) ∧
    ((txid, false) ∈ (s.node txid.server).outcomes → ∀ v, ∀ d ∈ (s.node v).deals, d.txid = txid →
      d.order.op = .load → d.after = d.before) := by
  have hinv : Inv W (fun v => (node v).modules) (Mesh.net T s) := by
    refine Mesh.run_invariant _ (fun t e t' ht he hstep => ht.step he hstep) ?_
      (inv_quiet hidle) hes hrun
    intro k j p hp
    cases hp
  refine ⟨fun hmem v d hd htxid hfate => ?_, fun hmem v d hd htxid hop => ?_⟩
  · have hsettled := hinv.settled hquiet hmem hd htxid hfate
    refine ⟨hsettled, Deal.applied ((hinv.booked v).books.valid d hd) hsettled, ?_⟩
    have horder := hinv.orders v (d.txid, d.order) (mem_map.mpr ⟨d, hd, rfl⟩)
    rw [htxid] at horder
    obtain ⟨d', hd', heq⟩ := mem_map.mp horder
    exact ⟨d', hd', congrArg Prod.fst heq, congrArg Prod.snd heq⟩
  · refine Deal.undone ((hinv.booked v).books.valid d hd) hop ?_
    rcases eq_or_ne d.fate .refused with hfate | hfate
    · exact .inl hfate
    · exact .inr (hinv.settled hquiet hmem hd htxid hfate)

end Runs

/-! ### Three servers -/

inductive Trio
  | hub
  | near
  | far
  deriving DecidableEq

instance : Fintype Trio := ⟨{.hub, .near, .far}, fun v => by cases v <;> simp⟩

/-- They are linked in a line, with `near` in the middle. -/
def line : Relay.Tree Trio where
  hop
    | .hub, .hub => .hub
    | .far, .far => .far
    | .near, j => j
    | _, _ => .near
  dist
    | .hub, .hub | .near, .near | .far, .far => 0
    | .hub, .far | .far, .hub => 2
    | _, _ => 1
  hop_self := by decide
  dist_hop {i j} := by revert i j; decide
  hop_hop := by decide
  hop_back := by decide
  acyclic {i j n} := by revert i j n; decide

def lineWorld : World Trio where
  servers := [.hub, .near, .far]
  nodup := by decide
  mem := by decide
  name _ := str "server"
  library _ := ⟨fun _ => none, fun name _ => .ok name⟩

def lineServer : Server Trio where
  coord := none
  part := none
  counter := 0
  modules := []
  outcomes := []
  deals := []
  timer := none
  now := 0
  sync := true
  seconds := 30

/-- The hub loads a module, and everybody is ready at once. -/
def promptRun : List (Relay.Event Trio Deed) :=
  [.act .hub (.begin .load (str "m") false), .deliver .hub .near, .deliver .near .hub,
    .deliver .near .far, .deliver .far .near, .deliver .near .hub, .deliver .hub .near,
    .deliver .near .far]

/-- The near server is ready at once. The far one takes its time, and when it is ready and the hub
hears of it, the near one has given up. -/
def splitRun : List (Relay.Event Trio Deed) :=
  [.act .hub (.begin .load (str "m") false), .deliver .hub .near, .act .hub (.tick 1),
    .deliver .near .hub, .act .hub (.tick 29), .act .near (.tick 30), .act .far (.tick 30),
    .act .near .expire, .deliver .near .far, .deliver .far .near, .deliver .near .hub,
    .deliver .hub .near, .deliver .near .far]

instance (s : Mesh Trio (Message Trio) (Server Trio)) (txid : Txid Trio) :
    Decidable (Delivered s txid) :=
  inferInstanceAs (Decidable (∀ k j, ∀ p ∈ s.wire k j, p.body.txid ≠ txid))

def lineRun (es : List (Relay.Event Trio Deed)) :
    Option (Mesh Trio (Message Trio) (Server Trio)) :=
  Run.run (Mesh.step line (program lineWorld)) (quietMesh fun _ => lineServer) es

/-- Everybody is ready in time. -/
theorem module_transaction_three :
    ∃ s, lineRun promptRun = some s ∧ (⟨.hub, 1⟩, true) ∈ (s.node .hub).outcomes ∧
      ∀ v, ∀ d ∈ (s.node v).deals, d.txid = ⟨.hub, 1⟩ → d.fate ≠ .refused →
        d.fate = .settled true := by
  obtain ⟨s, hs⟩ := Option.isSome_iff_exists.mp
    (show (lineRun promptRun).isSome = true by decide +kernel)
  have hend : (lineRun promptRun).all (fun s =>
      decide (Delivered s ⟨.hub, 1⟩ ∧ (⟨.hub, 1⟩, true) ∈ (s.node .hub).outcomes)) = true := by
    decide +kernel
  rw [hs, Option.all_some, decide_eq_true_eq] at hend
  have hpermitted : Run.Permitted (Mesh.step line (program lineWorld))
      (fun s e => Relay.Allowed allowed s.node e) (quietMesh fun _ => lineServer) promptRun := by
    refine ⟨⟨⟨by decide, by decide, by decide⟩, by decide⟩, fun _ _ => ?_⟩
    exact ⟨trivial, fun _ _ => ⟨trivial, fun _ _ => ⟨trivial, fun _ _ => ⟨trivial, fun _ _ =>
      ⟨trivial, fun _ _ => ⟨trivial, fun _ _ => ⟨trivial, fun _ _ => trivial⟩⟩⟩⟩⟩⟩⟩
  refine ⟨s, hs, hend.2, fun v d hd htxid hfate => ?_⟩
  exact ((module_transaction line (fun _ => ⟨rfl, rfl, rfl, rfl⟩) hpermitted hs hend.1).1 hend.2
    v d hd htxid hfate).1

/-- **A server gives up too early.** The transaction is committed and everything is delivered, but
the near server, which was ready, does not have the module. -/
theorem module_transaction_split :
    ∃ s, lineRun splitRun = some s ∧ Delivered s ⟨.hub, 1⟩ ∧
      (⟨.hub, 1⟩, true) ∈ (s.node .hub).outcomes ∧
      (∃ d ∈ (s.node .near).deals, d.txid = ⟨.hub, 1⟩ ∧ d.fate = .settled false) ∧
      (s.node .hub).modules = [⟨str "m", str "m", false⟩] ∧ (s.node .near).modules = [] := by
  obtain ⟨s, hs⟩ := Option.isSome_iff_exists.mp
    (show (lineRun splitRun).isSome = true by decide +kernel)
  have hend : (lineRun splitRun).all (fun s =>
      decide (Delivered s ⟨.hub, 1⟩ ∧ (⟨.hub, 1⟩, true) ∈ (s.node .hub).outcomes ∧
        (∃ d ∈ (s.node .near).deals, d.txid = ⟨.hub, 1⟩ ∧ d.fate = .settled false) ∧
        (s.node .hub).modules = [⟨str "m", str "m", false⟩] ∧
        (s.node .near).modules = [])) = true := by
    decide +kernel
  rw [hs, Option.all_some, decide_eq_true_eq] at hend
  exact ⟨s, hs, hend⟩

end Ircu.Modsync
