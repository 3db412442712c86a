import Ircu.Batch.Run

/-!
The batches of safe runs.

`Settled` says how the three contexts stand between two calls. The cache of a message to
several clients makes no difference in a safe call (`sendAll_eq_sendEach`). Every safe call keeps
it, and keeps for every client that what it has been sent is well nested, with the batches
open that `view` gives (`Good.step`). A line can bring the one that opens a labelled
response with it (`Good.after_openLabel`); `Orderly.line` is what any one line has to satisfy.
-/

namespace Ircu.Batch

open MsgTag List Nest LabelCtx World

variable {κ : Type} {peers : κ → Peer} {w w' : World κ} {c dst : κ} {body : Body} {x : Ctx κ}
  {gone fanTo : List κ}

/-! ### Between two calls -/

structure LabelSettled (peers : κ → Peer) (gone : List κ) (l : LabelCtx κ) : Prop where
  quiet : l.emitting = false
  untagged : l.emitLabel = false
  live : ∀ c, l.client = some c → Live peers gone c

structure OutSettled (peers : κ → Peer) (gone : List κ) (o : OutCtx κ) : Prop where
  quiet : o.emitting = false
  isOpen : o.isOpen = o.client.isSome
  live : ∀ c, o.client = some c → Live peers gone c

/-- The context of a long message between two calls. -/
structure FanSettled (peers : κ → Peer) (gone : List κ) (f : FanoutCtx) (fanTo : List κ) :
    Prop where
  quiet : f.emitting = false
  told : ∀ c ∈ fanTo, hasMultiline peers c = true ∧ c ∉ gone

/-- The batch of a label opens before the one of a command within it. -/
def Apart (l : LabelCtx κ) (o : OutCtx κ) : Prop :=
  ∀ c, l.client = some c → l.isOpen = false → o.client ≠ some c

structure Settled (peers : κ → Peer) (w : World κ) : Prop where
  label : LabelSettled peers w.gone w.ctx.label
  out : OutSettled peers w.gone w.ctx.out
  fan : FanSettled peers w.gone w.ctx.fanout w.fanTo
  apart : Apart w.ctx.label w.ctx.out

lemma labelSettled_clear : LabelSettled peers gone .clear :=
  ⟨rfl, rfl, fun _ h => by cases h⟩

lemma outSettled_clear : OutSettled peers gone .clear :=
  ⟨rfl, rfl, fun _ h => by cases h⟩

lemma fanSettled_clear : FanSettled peers gone .clear [] :=
  ⟨rfl, fun _ h => by cases h⟩

lemma Settled.fenced_of_pending (h : Settled peers w) (hp : LabelPending w.ctx dst)
    (hcover : Covered peers w dst) : Fenced peers w dst := by
  rcases hcover with hf | hl | ho
  · exact hf
  · have := hl.1
    rw [hp.2.1] at this
    cases this
  · exact absurd ho (h.apart dst hp.1 hp.2.1)

lemma Live.cons (h : Live peers gone c) (hne : c ≠ dst) :
    Live peers (dst :: gone) c := ⟨by simp [hne, h.1], h.2⟩

variable [DecidableEq κ]

/-! ### The lines of one client -/

def lineFor (peers : κ → Peer) (x : Ctx κ) (dst : κ) (body : Body) : Line :=
  ⟨body, (batchView peers x dst).1, (batchView peers x dst).2⟩

lemma seen_emit_self : (emit peers c body w).seen c = w.seen c ++ [lineFor peers w.ctx c body] := by
  simp [emit, queue, seen, lineFor]

lemma seen_emit_of_ne (h : dst ≠ c) : (emit peers dst body w).seen c = w.seen c := by
  simp [emit, queue, seen, h]

lemma Orderly.same (h : Orderly w c) (hseen : w'.seen c = w.seen c)
    (hview : view w'.ctx w'.fanTo c = view w.ctx w.fanTo c)
    (hpend : pending w'.ctx c = pending w.ctx c) (hcmd : w'.commands c = w.commands c) :
    Orderly w' c where
  nested := by rw [hseen, hview, h.nested]
  labeled := by rw [hseen]; exact h.labeled
  once := by rw [hseen, hpend, hcmd, h.once]

variable {l : Line} {x₀ : Ctx κ} {dsts : List κ}

lemma Orderly.line (h : Orderly w c) (hseen : w'.seen c = w.seen c ++ [l])
    (hread : readEntry (view w.ctx w.fanTo c) l.entry = some (view w'.ctx w'.fanTo c))
    (hlabel : l.label.isSome → l.body = .ack ∨ ∃ id, l.body = .opensLabeled id)
    (hpend : l.label.toList ++ pending w'.ctx c = pending w.ctx c)
    (hcmd : w'.commands c = w.commands c) : Orderly w' c where
  nested := by
    rw [hseen, map_append, map_singleton, read_concat h.nested, hread]
  labeled := by
    intro l' hl'
    rw [hseen, mem_append, mem_singleton] at hl'
    rcases hl' with hl' | rfl
    · exact h.labeled l' hl'
    · exact hlabel
  once := by
    have hl : [l].filterMap (·.label) = l.label.toList := by cases hl : l.label <;> simp [hl]
    rw [hseen, filterMap_append, hl, append_assoc, hpend, hcmd, h.once]

lemma Orderly.emits (h : Orderly w c) (hl : lineFor peers x₀ c body = l)
    (hread : readEntry (view w.ctx w.fanTo c) l.entry = some (view x w.fanTo c))
    (hlabel : l.label.isSome → l.body = .ack ∨ ∃ id, l.body = .opensLabeled id)
    (hpend : l.label.toList ++ pending x c = pending w.ctx c) :
    Orderly { emit peers c body { w with ctx := x₀ } with ctx := x } c :=
  h.line (hl ▸ seen_emit_self) hread hlabel hpend rfl

lemma Orderly.passes (h : Orderly w c) (hne : dst ≠ c)
    (hview : view x w.fanTo c = view w.ctx w.fanTo c) (hpend : pending x c = pending w.ctx c) :
    Orderly { emit peers dst body { w with ctx := x₀ } with ctx := x } c :=
  h.same (seen_emit_of_ne hne) hview hpend rfl

/-! ### The invariant -/

/-- **The invariant**: the contexts are settled, and every client has seen well-nested
batches. -/
structure Good (peers : κ → Peer) (w : World κ) : Prop extends Settled peers w where
  orderly : ∀ c, Live peers w.gone c → Orderly w c

lemma good_init : Good peers (init : World κ) where
  label := labelSettled_clear
  out := outSettled_clear
  fan := fanSettled_clear
  apart := fun _ h => by cases h
  orderly := fun _ _ => ⟨rfl, (fun _ h => by cases h), rfl⟩

lemma batchCurrent_eq_head (htold : c ∈ fanTo → hasMultiline peers c = true)
    (hcover : hasMultiline peers c = true → x.fanout.isOpen = true → c ∈ fanTo ∨
      outView x c ≠ [] ∨ labelView x c ≠ []) : batchCurrent peers x c = (view x fanTo c).head? := by
  unfold view batchCurrent
  unfold outView labelView at *
  split
  · rfl
  rename_i hout
  split
  · rfl
  rename_i hlabel
  rw [if_neg hout, if_neg hlabel] at hcover
  unfold multilineBatchFor fanView
  cases hopen : x.fanout.isOpen <;> cases hemit : x.fanout.emitting <;>
    cases hmulti : hasMultiline peers c <;> simp_all

lemma outView_of_ne (h : x.out.client ≠ some c) : outView x c = [] := if_neg fun ho => h ho.2.2

lemma labelView_of_ne (h : x.label.client ≠ some c) : labelView x c = [] :=
  if_neg fun hl => h hl.2.2

lemma pending_of_ne (h : x.label.client ≠ some c) : pending x c = [] := if_neg fun hl => h hl.1

lemma lineFor_eq (hbatch : (peers c).caps.batch = true) (htag : x.label.emitLabel = false) :
    lineFor peers x c body = ⟨body, none, batchCurrent peers x c⟩ := by
  simp [lineFor, batchView, hbatch, batchLabelTag, htag]

/-! ### The line that opens a labelled response -/

lemma openLabel_of_pending (h : LabelPending w.ctx dst) : openLabel peers dst w =
    { emit peers dst (.opensLabeled w.ctx.nextId) { w with ctx := labelOpening w.ctx } with
      ctx := labelBeforeSend w.ctx dst } := if_pos h

lemma openLabel_of_not_pending (h : ¬LabelPending w.ctx dst) : openLabel peers dst w = w := if_neg h

lemma labelBeforeSend_of_pending (h : LabelPending x dst) : labelBeforeSend x dst =
    { labelOpening x with
      label := { (labelOpening x).label with emitLabel := false, emitting := false } } := if_pos h

@[simp] lemma openLabel_ctx : (openLabel peers dst w).ctx = labelBeforeSend w.ctx dst := by
  by_cases h : LabelPending w.ctx dst
  · rw [openLabel_of_pending h]
  · rw [openLabel_of_not_pending h, labelBeforeSend, if_neg h]

@[simp] lemma openLabel_gone : (openLabel peers dst w).gone = w.gone := by
  unfold openLabel; split <;> rfl

@[simp] lemma openLabel_fanTo : (openLabel peers dst w).fanTo = w.fanTo := by
  unfold openLabel; split <;> rfl

@[simp] lemma openLabel_commands : (openLabel peers dst w).commands c = w.commands c := by
  unfold openLabel; split <;> rfl

@[simp] lemma labelBeforeSend_out : (labelBeforeSend x dst).out = x.out := by
  unfold labelBeforeSend; split <;> rfl

@[simp] lemma labelBeforeSend_fanout : (labelBeforeSend x dst).fanout = x.fanout := by
  unfold labelBeforeSend; split <;> rfl

@[simp] lemma labelBeforeSend_client : (labelBeforeSend x dst).label.client = x.label.client := by
  unfold labelBeforeSend; split <;> rfl

lemma sendBuffer_live (h : Live peers w.gone dst) : sendBuffer peers dst body { w with ctx := x } =
      emit peers dst body (openLabel peers dst { w with ctx := x }) := by
  rw [sendBuffer]
  simp [h.1, h.2.1]

lemma sendBuffer_quiet (h : Live peers w.gone dst) (hp : ¬LabelPending x dst) :
    sendBuffer peers dst body { w with ctx := x } = emit peers dst body { w with ctx := x } := by
  rw [sendBuffer_live h, openLabel_of_not_pending hp]

lemma seen_openLabel_of_ne (h : dst ≠ c) : (openLabel peers dst w).seen c = w.seen c := by
  by_cases hp : LabelPending w.ctx dst
  · rw [openLabel_of_pending hp]
    exact seen_emit_of_ne h
  · rw [openLabel_of_not_pending hp]

lemma Orderly.openLabel_of_ne (h : Orderly w c) (hne : dst ≠ c) :
    Orderly (openLabel peers dst w) c := by
  by_cases hp : LabelPending w.ctx dst
  · have hc : w.ctx.label.client ≠ some c := by rw [hp.1]; simpa using hne
    refine h.same (seen_openLabel_of_ne hne) ?_ ?_ openLabel_commands
    · simp [view, outView, fanView, labelView, hc]
    · simp [pending, hc]
  · rwa [openLabel_of_not_pending hp]

lemma Orderly.openLabel_self (h : Orderly w dst) (hpend : LabelPending w.ctx dst)
    (hbatch : (peers dst).caps.batch = true) (hout : outView w.ctx dst = [])
    (htold : dst ∈ w.fanTo → hasMultiline peers dst = true) (hfence : Fenced peers w dst) :
    Orderly (openLabel peers dst w) dst := by
  have hopening : view (labelOpening w.ctx) w.fanTo dst = view w.ctx w.fanTo dst := by
    simp [view, labelView, hpend.2.1, outView, fanView, labelOpening]
  have hwithin : batchCurrent peers (labelOpening w.ctx) dst = (view w.ctx w.fanTo dst).head? := by
    rw [← hopening]
    exact batchCurrent_eq_head htold fun hm ho => .inl (hfence hbatch ho hm)
  refine h.line (l := ⟨.opensLabeled w.ctx.nextId, some w.ctx.label.label,
    (view w.ctx w.fanTo dst).head?⟩) ?_ ?_ (fun _ => .inr ⟨_, rfl⟩) ?_ openLabel_commands
  · rw [openLabel_of_pending hpend]
    change (emit peers dst _ _).seen dst = _
    rw [seen_emit_self, lineFor, batchView, if_pos hbatch, hwithin]
    simp [batchLabelTag, labelOpening, hpend.1, seen]
  · have hafter : view (labelBeforeSend w.ctx dst) w.fanTo dst =
        w.ctx.nextId :: view w.ctx w.fanTo dst := by
      have hout' : outView (labelBeforeSend w.ctx dst) dst = [] := by simpa [outView] using hout
      have hlabel : labelView w.ctx dst = [] := by simp [labelView, hpend.2.1]
      have hlabel' : labelView (labelBeforeSend w.ctx dst) dst = [w.ctx.nextId] := by
        simp [labelBeforeSend_of_pending hpend, labelView, labelOpening, hpend.1]
      rw [view, view, hout', hout, hlabel, hlabel']
      simp [fanView]
    rw [openLabel_ctx, openLabel_fanTo, hafter]
    exact readEntry_opens
  · rw [openLabel_ctx, labelBeforeSend_of_pending hpend]
    simp [pending, labelOpening, hpend.1, hpend.2.1]

lemma LabelSettled.after_labelBeforeSend (h : LabelSettled peers gone x.label) :
    LabelSettled peers gone (labelBeforeSend x dst).label := by
  by_cases hp : LabelPending x dst
  · rw [labelBeforeSend_of_pending hp]
    exact ⟨rfl, rfl, h.live⟩
  · rwa [labelBeforeSend, if_neg hp]

lemma labelBeforeSend_isOpen (hquiet : x.label.emitting = false)
    (hclient : x.label.client = some dst) : (labelBeforeSend x dst).label.isOpen = true := by
  by_cases hp : LabelPending x dst
  · rw [labelBeforeSend_of_pending hp]
    rfl
  · rw [labelBeforeSend, if_neg hp]
    simpa [LabelPending, hclient, hquiet] using hp

lemma Settled.after_openLabel (h : Settled peers w) : Settled peers (openLabel peers dst w) := by
  refine ⟨by simpa using h.label.after_labelBeforeSend, by simpa using h.out,
    by simpa using h.fan, ?_⟩
  rw [openLabel_ctx, labelBeforeSend_out]
  intro c hc hopen
  rw [labelBeforeSend_client] at hc
  refine h.apart c hc ?_
  unfold labelBeforeSend at hopen
  split at hopen
  · cases hopen
  · exact hopen

lemma Settled.outView_of_pending (h : Settled peers w) (hp : LabelPending w.ctx dst) :
    outView w.ctx dst = [] := if_neg fun ho => h.apart dst hp.1 hp.2.1 ho.2.2

/-- **The line that opens a labelled response keeps everybody's batches nested.** -/
lemma Good.after_openLabel (h : Good peers w) (hcover : Covered peers w dst) :
    Good peers (openLabel peers dst w) where
  toSettled := h.toSettled.after_openLabel
  orderly := by
    intro c hlive
    rw [openLabel_gone] at hlive
    by_cases hne : dst = c
    · subst hne
      by_cases hp : LabelPending w.ctx dst
      · exact (h.orderly dst hlive).openLabel_self hp hlive.2.2 (h.outView_of_pending hp)
          (fun hm => (h.fan.told dst hm).1) (h.fenced_of_pending hp hcover)
      · rw [openLabel_of_not_pending hp]
        exact h.orderly dst hlive
    · exact (h.orderly c hlive).openLabel_of_ne hne

lemma Covered.after_openLabel (h : Covered peers w c) :
    Covered peers (openLabel peers dst w) c := by
  rcases h with hf | hl | ho
  · exact .inl (by simpa [Fenced] using hf)
  · refine .inr (.inl ⟨?_, by simpa using hl.2⟩)
    rw [openLabel_ctx, labelBeforeSend]
    split
    · rfl
    · exact hl.1
  · exact .inr (.inr (by simpa using ho))

/-! ### The cache -/

/-- `sendAll` without the cache. -/
def sendEach (peers : κ → Peer) (body : Body) (dsts : List κ) (w : World κ) : World κ :=
  dsts.foldl (fun w dst => sendBuffer peers dst body w) w

lemma sendEach_cons (d : κ) : sendEach peers body (d :: dsts) w =
    sendEach peers body dsts (sendBuffer peers d body w) := rfl

lemma sendAll_of_entry {hd} (hrelay : hd.relay = false) (e)
    (h : (e :: asked peers w.gone hd w.ctx dsts).IsChain fun a b => a.1 = b.1 → a.2 = b.2) :
    sendAll peers hd body dsts (some e) w = sendEach peers body dsts w := by
  induction dsts generalizing e w with
  | nil => rfl
  | cons d dsts ih =>
    rw [sendAll, sendEach_cons, sendBuffer]
    rw [asked] at h
    split
    · rename_i hskip
      rw [if_pos hskip] at h
      exact ih e h
    rename_i hsent
    rw [if_neg hsent, isChain_cons_cons] at h
    simp only [hrelay, Bool.false_eq_true, if_false, openLabel_ctx, Cache.lookup]
    rw [emit, openLabel_ctx]
    by_cases hkey : e.1 = msgTagProfile peers (labelBeforeSend w.ctx d) d hd.msgid
    · -- the entry is what would be computed
      have he : e = (msgTagProfile peers (labelBeforeSend w.ctx d) d hd.msgid,
        batchView peers (labelBeforeSend w.ctx d) d) := Prod.ext hkey (h.1 hkey)
      rw [he, if_pos rfl]
      exact ih _ (by simpa [queue] using h.2)
    · rw [if_neg hkey]
      exact ih _ (by simpa [queue] using h.2)

lemma sendAll_of_relay {hd} (hrelay : hd.relay = true) (cache) :
    sendAll peers hd body dsts cache w = sendEach peers body dsts w := by
  induction dsts generalizing w with
  | nil => rfl
  | cons d dsts ih =>
    rw [sendAll, sendEach_cons, sendBuffer]
    simp only [hrelay, if_true]
    split
    · exact ih
    · exact ih

/-- **The cache makes no difference** if it can be used. -/
lemma sendAll_eq_sendEach {hd} (h : Alike peers w.gone hd w.ctx dsts) :
    sendAll peers hd body dsts none w = sendEach peers body dsts w := by
  cases hrelay : hd.relay with
  | true => exact sendAll_of_relay hrelay none
  | false =>
    rw [Alike, hrelay] at h
    replace h := h.resolve_left Bool.false_ne_true
    induction dsts generalizing w with
    | nil => rfl
    | cons d dsts ih =>
      rw [sendAll, sendEach_cons, sendBuffer]
      rw [asked] at h
      split
      · rename_i hskip
        rw [if_pos hskip] at h
        exact ih h
      rename_i hsent
      rw [if_neg hsent] at h
      simp only [hrelay, Bool.false_eq_true, if_false, openLabel_ctx, Cache.lookup]
      rw [emit, openLabel_ctx]
      exact sendAll_of_entry hrelay _ (by simpa [queue] using h)

/-! ### Messages -/

lemma Settled.batchCurrent_eq (h : Settled peers w) (hlive : Live peers w.gone c)
    (hcover : Covered peers w c) : batchCurrent peers w.ctx c = (view w.ctx w.fanTo c).head? := by
  refine batchCurrent_eq_head (fun hm => (h.fan.told c hm).1) fun hm ho => ?_
  rcases hcover with hf | hl | ho'
  · exact .inl (hf hlive.2.2 ho hm)
  · refine .inr (.inr ?_)
    simp [labelView, hl.1, hl.2, h.label.quiet]
  · refine .inr (.inl ?_)
    simp [outView, h.out.isOpen, ho', h.out.quiet]

lemma Good.after_message (h : Good peers w) (hcover : Covered peers w dst) :
    Good peers (emit peers dst .message w) where
  toSettled := ⟨h.label, h.out, h.fan, h.apart⟩
  orderly := by
    intro c (hlive : Live peers w.gone c)
    by_cases hne : dst = c
    · subst hne
      refine (h.orderly dst hlive).line seen_emit_self ?_ ?_ ?_ rfl
      all_goals rw [lineFor_eq hlive.2.2 h.label.untagged, h.batchCurrent_eq hlive hcover]
      · exact readEntry_inside
      · simp
      · rfl
    · exact (h.orderly c hlive).same (seen_emit_of_ne hne) rfl rfl rfl

lemma Good.after_sendMessage (h : Good peers w) (hcover : Covered peers w dst) :
    Good peers (sendBuffer peers dst .message w) := by
  rw [sendBuffer]
  split
  · exact h
  · exact (h.after_openLabel hcover).after_message hcover.after_openLabel

lemma Covered.after_sendMessage (h : Covered peers w c) :
    Covered peers (sendBuffer peers dst .message w) c := by
  rw [sendBuffer]
  split
  · exact h
  · exact h.after_openLabel

lemma Good.after_sendMessages (h : Good peers w) (hcover : ∀ d ∈ dsts, Covered peers w d) :
    Good peers (sendEach peers .message dsts w) := by
  induction dsts generalizing w with
  | nil => exact h
  | cons d dsts ih =>
    refine ih (h.after_sendMessage (hcover d mem_cons_self)) fun d' hd' => ?_
    exact (hcover d' (mem_cons_of_mem d hd')).after_sendMessage

/-! ### The batch of a command -/

/-- The contexts while `batch_out_open` sends its line, which may have brought the one that
opens a labelled response with it. -/
def outOpened (x : Ctx κ) (dst : κ) : Ctx κ := labelBeforeSend (outOpening x dst) dst

lemma outView_outOpened : outView (outOpened x dst) c = [] := by
  simp [outView, outOpened, outOpening]

lemma Good.outOpened_orderly (h : Good peers w) (hopen : w.ctx.out.isOpen = false)
    (hcover : Fenced peers w dst ∨ LabelOpen w dst) (hlive : Live peers w.gone c) :
    Orderly (openLabel peers dst { w with ctx := outOpening w.ctx dst }) c := by
  have ho : Orderly { w with ctx := outOpening w.ctx dst } c := by
    refine (h.orderly c hlive).same rfl ?_ rfl rfl
    simp [view, outView, hopen, labelView, fanView, outOpening]
  by_cases hne : dst = c
  · subst hne
    by_cases hp : LabelPending (outOpening w.ctx dst) dst
    · refine ho.openLabel_self hp hlive.2.2 (by simp [outView, outOpening])
        (fun hm => (h.fan.told dst hm).1) ?_
      exact h.fenced_of_pending hp (hcover.imp_right .inl)
    · rwa [openLabel_of_not_pending (w := { w with ctx := outOpening w.ctx dst }) hp]
  · exact ho.openLabel_of_ne hne

lemma Settled.batchCurrent_outOpened (h : Settled peers w) (hlive : Live peers w.gone dst)
    (hcover : Fenced peers w dst ∨ LabelOpen w dst) :
    batchCurrent peers (outOpened w.ctx dst) dst =
      (view (outOpened w.ctx dst) w.fanTo dst).head? := by
  refine batchCurrent_eq_head (fun hm => (h.fan.told dst hm).1) fun hm ho => ?_
  rcases hcover with hf | ⟨hl, hclient⟩
  · rw [outOpened, labelBeforeSend_fanout] at ho
    exact .inl (hf hlive.2.2 ho hm)
  have hp : ¬LabelPending (outOpening w.ctx dst) dst := fun hp => by
    simp [LabelPending, outOpening, hl] at hp
  refine .inr (.inr ?_)
  rw [outOpened, labelBeforeSend, if_neg hp, labelView]
  simp [outOpening, hl, hclient, h.label.quiet]

lemma Good.after_outOpen (h : Good peers w) (hgone : dst ∉ w.gone)
    (hcover : Fenced peers w dst ∨ LabelOpen w dst) : Good peers (doOutOpen peers dst w) := by
  by_cases hif : (peers dst).myConnect ∧ ¬(peers dst).isServer ∧ (peers dst).caps.batch ∧
      ¬w.ctx.out.isOpen
  case neg =>
    rw [doOutOpen, if_neg hif]
    exact h
  case pos =>
    obtain ⟨hmy, hserver, hbatch, hopen⟩ := hif
    have hlive : Live peers w.gone dst := ⟨hgone, by simpa using hserver, hbatch⟩
    have hw : doOutOpen peers dst w = { emit peers dst (.opens w.ctx.nextId)
            { openLabel peers dst { w with ctx := outOpening w.ctx dst } with
              ctx := outOpened w.ctx dst } with
          ctx := { outOpened w.ctx dst with out := ⟨some dst, w.ctx.nextId, true, false⟩ } } := by
      rw [doOutOpen, if_pos ⟨hmy, hserver, hbatch, hopen⟩, sendBuffer_live hlive]
      simp [emit, queue, outOpened, outOpening]
    have hlabel : LabelSettled peers w.gone (outOpened w.ctx dst).label :=
      LabelSettled.after_labelBeforeSend h.label
    rw [hw]
    refine ⟨⟨?_, ?_, ?_, ?_⟩, fun c hc => ?_⟩
    · simpa [emit, queue] using hlabel
    · refine ⟨rfl, rfl, ?_⟩
      rintro c ⟨⟩
      simpa [emit, queue] using hlive
    · simpa [emit, queue, outOpened, outOpening] using h.fan
    · rintro c hc ho ⟨⟩
      have : (outOpened w.ctx dst).label.isOpen = true :=
        labelBeforeSend_isOpen h.label.quiet (by simpa [outOpened] using hc)
      rw [this] at ho
      cases ho
    have ho := h.outOpened_orderly (by simpa using hopen) hcover (by simpa [emit, queue] using hc)
    by_cases hne : dst = c
    · subst hne
      refine ho.emits (lineFor_eq hbatch hlabel.untagged) ?_ (by simp) ?_
      · have hview : view { outOpened w.ctx dst with out := ⟨some dst, w.ctx.nextId, true, false⟩ }
            w.fanTo dst = w.ctx.nextId :: view (outOpened w.ctx dst) w.fanTo dst := by
          rw [view, view, outView_outOpened]
          simp [outView, labelView, fanView]
        rw [openLabel_fanTo, openLabel_ctx]
        rw [hview, h.batchCurrent_outOpened hlive hcover]
        exact readEntry_opens
      · simp [pending, outOpened]
    · refine ho.passes hne ?_ ?_
      · simp [view, outView, hne, outOpened, outOpening, labelView, fanView]
      · simp [pending, outOpened]

lemma Good.after_outClose (h : Good peers w) (hcover : Fenced peers w dst ∨ LabelOpen w dst) :
    Good peers (doOutClose peers dst w) := by
  by_cases hif : w.ctx.out.isOpen ∧ w.ctx.out.client = some dst
  case neg =>
    rw [doOutClose, if_neg hif]
    exact h
  case pos =>
    obtain ⟨hopen, hclient⟩ := hif
    have hlive := h.out.live dst hclient
    have hpend : ¬LabelPending (outClosing w.ctx) dst := fun hp => h.apart dst hp.1 hp.2.1 hclient
    have hw : doOutClose peers dst w =
        { emit peers dst (.closes w.ctx.out.id) { w with ctx := outClosing w.ctx } with
          ctx := { w.ctx with out := .clear } } := by
      rw [doOutClose, if_pos ⟨hopen, hclient⟩, sendBuffer_quiet hlive hpend]
      rfl
    rw [hw]
    refine ⟨⟨h.label, outSettled_clear, h.fan, fun _ _ _ hc => by cases hc⟩, fun c hc => ?_⟩
    have ho := h.orderly c hc
    by_cases hne : dst = c
    · subst hne
      refine ho.emits (lineFor_eq hlive.2.2 h.label.untagged) ?_ (by simp) rfl
      have hview : view w.ctx w.fanTo dst =
          w.ctx.out.id :: view (outClosing w.ctx) w.fanTo dst := by
        simp [view, outView, labelView, fanView, outClosing, hopen, hclient, h.out.quiet]
      have hafter : view { w.ctx with out := .clear } w.fanTo dst =
          view (outClosing w.ctx) w.fanTo dst := by
        simp [view, outView, labelView, fanView, outClosing, OutCtx.clear]
      have hwithin : batchCurrent peers (outClosing w.ctx) dst =
          (view (outClosing w.ctx) w.fanTo dst).head? := by
        refine batchCurrent_eq_head (fun hm => (h.fan.told dst hm).1) fun hm ho => ?_
        rcases hcover with hf | ⟨hl, hc⟩
        · exact .inl (hf hlive.2.2 ho hm)
        · simp [labelView, outClosing, hl, hc, h.label.quiet]
      rw [hview, hafter, hwithin]
      exact readEntry_closes
    · refine ho.passes hne ?_ rfl
      simp [view, outView, labelView, fanView, OutCtx.clear, hclient, hne]

/-! ### The labelled response -/

lemma Good.after_labelBegin {label} (h : Good peers w) (hnone : w.ctx.label.client = none)
    (hout : w.ctx.out.client ≠ some dst) (hgone : dst ∉ w.gone) :
    Good peers (doLabelBegin peers dst label w) := by
  by_cases hcan : canLabel peers dst label = true
  · have hw : doLabelBegin peers dst label w = { w with
          ctx :=
            { w.ctx with label := ⟨some dst, .copy LABELLEN label, .empty, false, false, false⟩ }
          begun := w.begun ++ [(dst, .copy LABELLEN label)] } := by
      simp [doLabelBegin, labelBegin, hcan]
    have hlive : Live peers w.gone dst := by
      simp [canLabel] at hcan
      exact ⟨hgone, hcan.1.1.2, hcan.2⟩
    rw [hw]
    refine ⟨⟨⟨rfl, rfl, ?_⟩, h.out, h.fan, ?_⟩, ?_⟩
    · rintro c ⟨⟩
      exact hlive
    · rintro c ⟨⟩ -
      exact hout
    intro c hc
    have ho := h.orderly c hc
    have hview : labelView w.ctx c = [] := by simp [labelView, hnone]
    refine ⟨?_, ho.labeled, ?_⟩
    · have := ho.nested
      rw [view, hview] at this
      exact this
    have hpend : pending w.ctx c = [] := by simp [pending, hnone]
    have := ho.once
    rw [hpend, append_nil] at this
    simp only [commands, seen, filterMap_append, pending] at this ⊢
    rw [this]
    by_cases hne : dst = c <;> simp [hne]
  · have hw : doLabelBegin peers dst label w =
        { w with ctx := { w.ctx with label := .clear } } := by
      simp [doLabelBegin, labelBegin, hcan]
    rw [hw]
    refine ⟨⟨labelSettled_clear, h.out, h.fan, fun _ hc => by cases hc⟩, fun c hc => ?_⟩
    refine (h.orderly c hc).same rfl ?_ ?_ rfl
    · simp [view, outView, labelView, fanView, hnone, clear]
    · simp [pending, hnone, clear]

lemma view_clearLabel (h : x.label.client ≠ some c) :
    view { x with label := .clear } fanTo c = view x fanTo c := by
  rw [view, view, labelView_of_ne h]
  rfl

lemma Settled.batchCurrent_ending (h : Settled peers w) (hlive : Live peers w.gone dst)
    (hout : w.ctx.out.client ≠ some dst) (hfence : Fenced peers w dst)
    (hemit : x.label.emitting = true) (hxout : x.out = w.ctx.out)
    (hxfan : x.fanout = w.ctx.fanout) :
    batchCurrent peers x dst = (fanView w.ctx w.fanTo dst).head? := by
  have htold : dst ∈ w.fanTo → hasMultiline peers dst = true := fun hm => (h.fan.told dst hm).1
  rw [batchCurrent_eq_head htold fun hm ho => .inl (hfence hlive.2.2 (hxfan ▸ ho) hm)]
  simp [view, outView, labelView, fanView, hemit, hxout, hxfan, hout]

lemma Good.after_ending (h : Good peers w) (hclient : w.ctx.label.client = some dst)
    (hout : w.ctx.out.client ≠ some dst) (hl : lineFor peers x₀ dst body = l)
    (hread : readEntry (view w.ctx w.fanTo dst) l.entry = some (fanView w.ctx w.fanTo dst))
    (hlabel : l.label.isSome → l.body = .ack ∨ ∃ id, l.body = .opensLabeled id)
    (hpend : l.label.toList = pending w.ctx dst) :
    Good peers { emit peers dst body { w with ctx := x₀ } with
      ctx := { w.ctx with label := .clear } } := by
  refine ⟨⟨labelSettled_clear, h.out, h.fan, fun _ hc => by cases hc⟩, fun c hc => ?_⟩
  by_cases hne : dst = c
  · subst hne
    refine (h.orderly dst hc).emits hl ?_ hlabel (by simpa [pending, clear] using hpend)
    rw [hread]
    simp [view, outView, labelView, fanView, hout, clear]
  · have hc' : w.ctx.label.client ≠ some c := by simpa [hclient] using hne
    exact (h.orderly c hc).passes hne (view_clearLabel hc') (pending_of_ne hc').symm

lemma Good.after_labelEnd (h : Good peers w)
    (hsafe : ∀ c ∈ w.ctx.label.client, w.ctx.out.client ≠ some c ∧ Fenced peers w c) :
    Good peers (doLabelEnd peers w) := by
  cases hclient : w.ctx.label.client with
  | none =>
    rw [doLabelEnd, hclient]
    exact h
  | some dst =>
    obtain ⟨hout, hfence⟩ := hsafe dst hclient
    have hlive := h.label.live dst hclient
    cases hopen : w.ctx.label.isOpen with
    | false =>
      have hw : doLabelEnd peers w = { emit peers dst .ack { w with ctx := labelAcking w.ctx } with
            ctx := { w.ctx with label := .clear } } := by
        rw [doLabelEnd, hclient]
        simp only [hopen, Bool.false_eq_true, if_false]
        rw [sendBuffer_quiet hlive (by simp [LabelPending, labelAcking])]
        rfl
      rw [hw]
      refine h.after_ending hclient hout (l := ⟨.ack, some w.ctx.label.label,
        (fanView w.ctx w.fanTo dst).head?⟩) ?_ ?_ (fun _ => .inl rfl) ?_
      · have hwithin : batchCurrent peers (labelAcking w.ctx) dst = _ :=
          h.batchCurrent_ending hlive hout hfence rfl rfl rfl
        rw [lineFor, batchView, if_pos hlive.2.2, hwithin]
        simp [batchLabelTag, labelAcking, hclient]
      · rw [view, outView_of_ne hout]
        simp only [labelView, hopen]
        exact readEntry_inside
      · simp [pending, hclient, hopen]
    | true =>
      have hw : doLabelEnd peers w =
          { emit peers dst (.closes w.ctx.label.batch) { w with ctx := labelClosing w.ctx } with
            ctx := { w.ctx with label := .clear } } := by
        rw [doLabelEnd, hclient]
        simp only [hopen, if_true]
        rw [sendBuffer_quiet hlive (by simp [LabelPending, labelClosing])]
        rfl
      rw [hw]
      refine h.after_ending hclient hout (lineFor_eq hlive.2.2 h.label.untagged) ?_ (by simp) ?_
      · have hwithin : batchCurrent peers (labelClosing w.ctx) dst = _ :=
          h.batchCurrent_ending hlive hout hfence rfl rfl rfl
        have hview : labelView w.ctx dst = [w.ctx.label.batch] := by
          simp [labelView, hopen, h.label.quiet, hclient]
        rw [view, outView_of_ne hout, hview, hwithin]
        exact readEntry_closes
      · simp [pending, hopen]

/-! ### Long messages -/

lemma mem_reached (h : Live peers gone c) : c ∈ reached peers gone dsts ↔ c ∈ dsts := by
  simp [reached, h.1, h.2.1]

lemma sendEach_eq (hfree : ∀ d ∈ dsts, w.ctx.label.client ≠ some d) :
    sendEach peers body dsts w = { w with
        log := w.log ++
          (reached peers w.gone dsts).map fun d => (d, lineFor peers w.ctx d body) } := by
  induction dsts generalizing w with
  | nil => simp [sendEach, reached]
  | cons d dsts ih =>
    have hp : ¬LabelPending w.ctx d := fun hp => hfree d mem_cons_self hp.1
    have hrest : ∀ d' ∈ dsts, w.ctx.label.client ≠ some d' := fun d' hd' =>
      hfree d' (mem_cons_of_mem d hd')
    rw [sendEach_cons, sendBuffer, openLabel_of_not_pending hp]
    split
    · rename_i hskip
      rw [ih hrest, reached, reached, filter_cons_of_neg]
      simpa [or_iff_not_imp_left] using hskip
    rename_i hsent
    have hcons : reached peers w.gone (d :: dsts) = d :: reached peers w.gone dsts :=
      filter_cons_of_pos (by simpa using hsent)
    rw [ih (w := emit peers d body w) hrest, hcons]
    simp [emit, queue, lineFor]

/-- Nobody is told of a label or a batch by the lines around a long message. -/
lemma batchView_of_free (hemit : x.fanout.emitting = true) (hl : x.label.client ≠ some c)
    (ho : x.out.client ≠ some c) : batchView peers x c = (none, none) := by
  simp [batchView, batchLabelTag, batchCurrent, multilineBatchFor, hemit, hl, ho]

lemma sendAll_of_free {hd} (hemit : w.ctx.fanout.emitting = true)
    (hfree : ∀ d ∈ dsts, Free w d) :
    sendAll peers hd body dsts none w = sendEach peers body dsts w := by
  refine sendAll_eq_sendEach (.inr ?_)
  suffices ∀ a ∈ asked peers w.gone hd w.ctx dsts, a.2 = (none, none) by
    refine (pairwise_of_forall_mem_list fun a ha b hb => ?_).isChain
    exact fun _ => (this a ha).trans (this b hb).symm
  induction dsts with
  | nil => simp [asked]
  | cons d dsts ih =>
    obtain ⟨hl, ho⟩ := hfree d mem_cons_self
    have hp : ¬LabelPending w.ctx d := fun hp => hl hp.1
    have htail := ih fun d' hd' => hfree d' (mem_cons_of_mem d hd')
    rw [asked, labelBeforeSend, if_neg hp]
    split
    · exact htail
    · exact forall_mem_cons.mpr ⟨batchView_of_free hemit hl ho, htail⟩

lemma lines_of_nodup (f : κ → Line) (hnodup : dsts.Nodup) :
    (dsts.map fun d => (d, f d)).filterMap (fun e => if e.1 = c then some e.2 else none) =
      if c ∈ dsts then [f c] else [] := by
  induction dsts with
  | nil => rfl
  | cons d dsts ih =>
    rw [nodup_cons] at hnodup
    rw [map_cons, filterMap_cons, ih hnodup.2]
    by_cases hd : d = c
    · subst hd
      simp [hnodup.1]
    · simp [hd, Ne.symm hd]

lemma seen_sendEach (hfree : ∀ d ∈ dsts, w.ctx.label.client ≠ some d) (hnodup : dsts.Nodup)
    (hlive : Live peers w.gone c) : (sendEach peers body dsts w).seen c =
      w.seen c ++ if c ∈ dsts then [lineFor peers w.ctx c body] else [] := by
  have hreached : (reached peers w.gone dsts).Nodup := hnodup.filter _
  have hlines := lines_of_nodup (c := c) (fun d => lineFor peers w.ctx d body) hreached
  rw [sendEach_eq hfree]
  simp only [seen, filterMap_append]
  rw [hlines]
  simp only [mem_reached hlive]

lemma Good.after_round {rs fanTo'} (h : Good peers w) (hnodup : rs.Nodup)
    (hfree : ∀ r ∈ rs, Free w r) (hlabel₀ : x₀.label = w.ctx.label) (hout₀ : x₀.out = w.ctx.out)
    (hemit : x₀.fanout.emitting = true) (hlabel : x.label = w.ctx.label) (hout : x.out = w.ctx.out)
    (hfan : FanSettled peers w.gone x.fanout fanTo')
    (hin : ∀ c ∈ rs, Live peers w.gone c →
      readEntry (fanView w.ctx w.fanTo c) (Line.mk body none none).entry =
        some (fanView x fanTo' c))
    (hother : ∀ c, c ∉ rs → Live peers w.gone c → fanView x fanTo' c = fanView w.ctx w.fanTo c) :
    Good peers
      { w with
        ctx := x, log := (sendEach peers body rs { w with ctx := x₀ }).log, fanTo := fanTo' } := by
  refine ⟨⟨hlabel ▸ h.label, hout ▸ h.out, hfan, ?_⟩, fun c (hc : Live peers w.gone c) => ?_⟩
  · rw [hlabel, hout]
    exact h.apart
  have hpend : pending x c = pending w.ctx c := by rw [pending, pending, hlabel]
  have hseen : (sendEach peers body rs { w with ctx := x₀ }).seen c =
      w.seen c ++ if c ∈ rs then [lineFor peers x₀ c body] else [] :=
    seen_sendEach (fun r hr => hlabel₀ ▸ (hfree r hr).1) hnodup hc
  by_cases hmem : c ∈ rs
  · obtain ⟨hl, ho⟩ := hfree c hmem
    have hline : lineFor peers x₀ c body = ⟨body, none, none⟩ := by
      rw [lineFor, batchView_of_free hemit (hlabel₀ ▸ hl) (hout₀ ▸ ho)]
    rw [if_pos hmem, hline] at hseen
    refine (h.orderly c hc).line hseen ?_ (by simp) hpend rfl
    rw [view, outView_of_ne ho, labelView_of_ne hl, nil_append, nil_append, hin c hmem hc,
      view, outView_of_ne (hout ▸ ho), labelView_of_ne (hlabel ▸ hl)]
    rfl
  · rw [if_neg hmem, append_nil] at hseen
    refine (h.orderly c hc).same hseen ?_ hpend rfl
    rw [view, view, hother c hmem hc, outView, outView, labelView, labelView, hout, hlabel]

lemma Good.after_fanOpen {members hd} (h : Good peers w)
    (hclosed : w.ctx.fanout.isOpen = false) (hnodup : (recipients peers members).Nodup)
    (hfree : ∀ r ∈ recipients peers members, Free w r) :
    Good peers (doFanOpen peers members hd w) := by
  have hnone : ∀ c, fanView w.ctx w.fanTo c = [] := fun c => by simp [fanView, hclosed]
  have hw : doFanOpen peers members hd w = { w with
        ctx :=
          { fanOpening w.ctx with fanout := { (fanOpening w.ctx).fanout with emitting := false } }
        log := (sendEach peers (.opens w.ctx.nextId) (recipients peers members)
          { w with ctx := fanOpening w.ctx }).log
        fanTo := reached peers w.gone (recipients peers members) } := by
    have hlabel : ∀ r ∈ recipients peers members, (fanOpening w.ctx).label.client ≠ some r :=
      fun r hr => (hfree r hr).1
    rw [doFanOpen, sendAll_of_free (w := { w with ctx := fanOpening w.ctx }) rfl hfree]
    simp only [sendEach_eq (w := { w with ctx := fanOpening w.ctx }) hlabel]
  rw [hw]
  refine h.after_round hnodup hfree rfl rfl rfl rfl rfl ⟨rfl, ?_⟩ ?_ ?_
  · intro c hc
    simp only [reached, recipients, mem_filter, Bool.and_eq_true, decide_eq_true_eq] at hc
    exact ⟨by simpa [hasMultiline, hc.1.2.2] using hc.2.2, hc.2.1⟩
  · intro c hc hlive
    rw [hnone, fanView, if_pos ⟨rfl, by simp, (mem_reached hlive).2 hc⟩]
    rfl
  intro c hc hlive
  rw [hnone, fanView, if_neg]
  rintro ⟨_, _, hm⟩
  exact hc ((mem_reached hlive).1 hm)

lemma Good.after_fanClose {members hd} (h : Good peers w) (hsafe : w.ctx.fanout.isOpen = true →
      (recipients peers members).Nodup ∧ (∀ r ∈ recipients peers members, Free w r) ∧
        (∀ r ∈ recipients peers members, r ∈ w.gone ∨ (peers r).isServer ∨ r ∈ w.fanTo) ∧
        ∀ r ∈ w.fanTo, r ∈ recipients peers members) :
    Good peers (doFanClose peers members w hd) := by
  by_cases hopen : w.ctx.fanout.isOpen = true
  case neg =>
    rw [doFanClose, if_neg hopen]
    exact h
  case pos =>
    obtain ⟨hnodup, hfree, htold, hmem⟩ := hsafe hopen
    have hw : doFanClose peers members w hd = { w with
          ctx := { w.ctx with fanout := .clear }
          log := (sendEach peers (.closes w.ctx.fanout.id) (recipients peers members)
            { w with ctx := fanClosing w.ctx }).log
          fanTo := [] } := by
      have hlabel : ∀ r ∈ recipients peers members, (fanClosing w.ctx).label.client ≠ some r :=
        fun r hr => (hfree r hr).1
      rw [doFanClose, if_pos hopen,
        sendAll_of_free (w := { w with ctx := fanClosing w.ctx }) rfl hfree]
      simp only [sendEach_eq (w := { w with ctx := fanClosing w.ctx }) hlabel]
      rfl
    rw [hw]
    refine h.after_round hnodup hfree rfl rfl rfl rfl rfl fanSettled_clear ?_ ?_
    · intro c hc hlive
      have hm : c ∈ w.fanTo := by
        rcases htold c hc with hg | hs | hm
        · exact absurd hg hlive.1
        · rw [hlive.2.1] at hs
          cases hs
        · exact hm
      rw [fanView, if_pos ⟨hopen, by simp [h.fan.quiet], hm⟩]
      exact readEntry_closes
    · intro c hc _
      have hm : c ∉ w.fanTo := fun hm => hc (hmem c hm)
      simp [fanView, hm]

lemma Good.after_send {hd} (h : Good peers w) (hcover : ∀ d ∈ dsts, Covered peers w d)
    (halike : Alike peers w.gone hd w.ctx dsts) :
    Good peers (sendAll peers hd .message dsts none w) := by
  rw [sendAll_eq_sendEach halike]
  exact h.after_sendMessages hcover

lemma Good.after_piece {concat hd} (h : Good peers w) (hcover : ∀ d ∈ dsts, Covered peers w d)
    (halike : Alike peers w.gone hd (continuing w.ctx concat) dsts) :
    Good peers (doPiece peers concat hd dsts w) := by
  have hconcat : Good peers { w with ctx := continuing w.ctx concat } :=
    ⟨⟨h.label, h.out, ⟨h.fan.quiet, h.fan.told⟩, h.apart⟩, fun c hc =>
      (h.orderly c hc).same rfl rfl rfl rfl⟩
  exact hconcat.after_send hcover halike

/-! ### Exit -/

lemma Good.after_exit (h : Good peers w) : Good peers (doExit dst w) where
  label := by
    simp only [doExit]
    split
    · exact labelSettled_clear
    · rename_i hne
      exact { h.label with live := fun c hc => (h.label.live c hc).cons fun he => hne (he ▸ hc) }
  out := by
    simp only [doExit]
    split
    · exact outSettled_clear
    · rename_i hne
      exact { h.out with live := fun c hc => (h.out.live c hc).cons fun he => hne (he ▸ hc) }
  fan := by
    refine ⟨h.fan.quiet, fun c hc => ?_⟩
    simp only [doExit, mem_filter, decide_eq_true_eq] at hc
    obtain ⟨hm, hg⟩ := h.fan.told c hc.1
    exact ⟨hm, by simp [doExit, hc.2, hg]⟩
  apart := by
    simp only [doExit]
    split <;> split <;> intro c hc
    · cases hc
    · cases hc
    · intro _ ho
      cases ho
    · exact h.apart c hc
  orderly := by
    rintro c ⟨hc, hlive⟩
    simp only [doExit, mem_cons, not_or] at hc
    have hlabelView : labelView (doExit dst w).ctx c = labelView w.ctx c := by
      simp only [doExit, labelView]
      split
      · rename_i he
        simp [he, clear, Ne.symm hc.1]
      · rfl
    have houtView : outView (doExit dst w).ctx c = outView w.ctx c := by
      simp only [doExit, outView]
      split
      · rename_i he
        simp [he, OutCtx.clear, Ne.symm hc.1]
      · rfl
    have hfanView : fanView (doExit dst w).ctx (doExit dst w).fanTo c =
        fanView w.ctx w.fanTo c := by
      simp [fanView, doExit, hc.1]
    refine (h.orderly c ⟨hc.2, hlive⟩).same rfl ?_ ?_ rfl
    · rw [view, view, hlabelView, houtView, hfanView]
    simp only [doExit, pending]
    split
    · rename_i he
      simp [he, clear, Ne.symm hc.1]
    · rfl

/-! ### Runs -/

/-- **One event** that is safe: every client goes on to see well-nested batches. -/
lemma Good.step {ev} (h : Good peers w) (hsafe : Safe peers w ev) :
    Good peers (step peers w ev) := by
  cases ev with
  | labelBegin cptr label => exact h.after_labelBegin hsafe.1 hsafe.2.1 hsafe.2.2
  | labelEnd => exact h.after_labelEnd hsafe
  | send hd dsts => exact h.after_send hsafe.1 hsafe.2
  | outOpen dst => exact h.after_outOpen hsafe.1 hsafe.2
  | outClose dst => exact h.after_outClose hsafe
  | fanOpen hd members => exact h.after_fanOpen hsafe.1 hsafe.2.1 hsafe.2.2
  | piece concat hd dsts => exact h.after_piece hsafe.1 hsafe.2
  | fanClose hd members => exact h.after_fanClose hsafe
  | exit cptr => exact h.after_exit

lemma Good.run {evs} (h : Good peers w) (hsafe : SafeRun peers w evs) :
    Good peers (evs.foldl (Batch.step peers) w) := by
  induction evs generalizing w with
  | nil => exact h
  | cons ev evs ih => exact ih (h.step hsafe.1) hsafe.2

def capable : Fin 3 → Peer := fun _ => ⟨false, true, ⟨true, true, true, true, true⟩⟩

/-- A message without client-only tags and without an identifier. -/
def bare : Heading := ⟨false, none⟩

/-- A labelled command that is answered in a batch, a message to several clients of which one is
in that batch, a long message, a labelled command without an answer, and a client that leaves. -/
def orderlyEvents : List (Event (Fin 3)) :=
  [.labelBegin 0 (str "a"), .send bare [0], .outOpen 0, .send bare [1, 0, 2], .outClose 0,
    .labelEnd, .fanOpen ⟨false, some (.copy MSGIDLEN (str "m"))⟩ [1, 2], .piece true bare [1, 2],
    .send bare [1], .fanClose bare [1, 2], .labelBegin 1 (str "b"), .labelEnd, .exit 2]

/-- A labelled long message. The lines around it go to its sender as well, and its piece is
echoed. -/
def echoEvents : List (Event (Fin 3)) :=
  [.labelBegin 0 (str "a"), .fanOpen bare [0, 1], .piece false bare [1], .send bare [0],
    .fanClose bare [0, 1], .labelEnd]

end Ircu.Batch
