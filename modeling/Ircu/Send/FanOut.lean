import Ircu.Cache.Basic
import Ircu.MsgTag.Format

/-!
One message to many clients: the cache of `send_buffer` in `send.c`.

A send that goes to many recipients keeps the prefix of the last one in `TagSendCache`, with
the profile it was made for, and uses it again for the next recipient if that has the same
profile. A message with client-only tags to relay has its prefix made for each recipient.
Before that, `label_before_send` opens the batch of a labelled response, if the recipient
is the one it is for.
-/

namespace Ircu.Send

open Batch MsgTag List

/-- A recipient, and what `send_buffer` finds out about its connection: `can_send`, and
whether the queue is too long. -/
structure Target (κ : Type) where
  dst : κ
  canSend : Bool
  sendqFull : Bool

/-- The entry of `TagSendCache`: the profile, once there is one, and the prefix. -/
abbrev TagSendCache := Option (Profile × List UInt8)

def noReplay (suppressKey : List UInt8) : Replay := { Replay.none with suppressKey := suppressKey }

section

variable {κ : Type} [DecidableEq κ] (policy : Policy) (peers : κ → Peer) (suppressKey : List UInt8)
  (m : Message)

variable (x : Ctx κ)

def alonePrefix (dst : κ) : List UInt8 :=
  msgTagFormat policy peers x (noReplay suppressKey) m dst

def profilePrefix (dst : κ) : List UInt8 :=
  if msgTagProfile peers x dst m.msgid ≠ .none then alonePrefix policy peers suppressKey m x dst
  else []

/-- The prefix that `send_buffer` takes for a client, and the cache behind it. -/
def cachedPrefix (dst : κ) (cache : TagSendCache) : TagSendCache × List UInt8 :=
  if haveClientRelay policy m.tags then (cache, alonePrefix policy peers suppressKey m x dst)
  else
    let r := Cache.lookup cache (msgTagProfile peers x dst m.msgid)
      (profilePrefix policy peers suppressKey m x dst)
    (some r.1, r.2)

/-- The contexts in which `send_buffer` makes the prefix: behind `label_before_send`. -/
def before (t : Target κ) : Ctx κ :=
  if t.canSend ∧ (peers t.dst).isServer = false then labelBeforeSend x t.dst else x

/-- `send_buffer` queues the line, with a prefix for a client. -/
def served (t : Target κ) : Bool := t.canSend && !t.sendqFull && !(peers t.dst).isServer

def fanOut : Ctx κ → TagSendCache → List (Target κ) → List (κ × List UInt8)
  | _, _, [] => []
  | x, cache, t :: ts =>
    let x := before peers x t
    if served peers t then
      let r := cachedPrefix policy peers suppressKey m x t.dst cache
      (t.dst, r.2) :: fanOut x r.1 ts
    else fanOut x cache ts

/-- The recipients that are served, each with the contexts at that time. -/
def views : Ctx κ → List (Target κ) → List (Ctx κ × κ)
  | _, [] => []
  | x, t :: ts =>
    if served peers t then (before peers x t, t.dst) :: views (before peers x t) ts
    else views (before peers x t) ts

def alone (x : Ctx κ) (ts : List (Target κ)) : List (κ × List UInt8) :=
  (views peers x ts).map fun v => (v.2, alonePrefix policy peers suppressKey m v.1 v.2)

end

/-! ### What a profile says -/

section

variable {κ : Type} {policy : Policy} {peers : κ → Peer} {suppressKey : List UInt8} {m : Message}
  {x y : Ctx κ} {dst dst' : κ}

lemma clientPieces_eq_nil (hrelay : haveClientRelay policy m.tags = false) :
    clientPieces policy peers (noReplay suppressKey) m dst = [] := by
  have hnone : m.tags.filter (relayed policy (noReplay suppressKey)) = [] := by
    rw [filter_eq_nil_iff]
    intro tag htag hrel
    rw [haveClientRelay, any_eq_false] at hrelay
    rw [relayed, Bool.and_eq_true] at hrel
    exact hrelay tag htag hrel.1
  rw [clientPieces, hnone]
  simp

def headPieces (policy : Policy) (suppressKey : List UInt8) (m : Message) (p : Profile) :
    List Piece :=
  (if p.time then
    match lineTime policy (noReplay suppressKey) m with
    | some v => [⟨str "time", some (v.take 31), true⟩]
    | none => [⟨str "time", some (m.localTime.take 31), false⟩]
  else []) ++
    (if p.msgid then (m.msgid.map fun v => ⟨str "msgid", some v.1, false⟩).toList else [])

variable (p : Profile)

def tailPieces : List Piece :=
  if p.concat then [⟨str "draft/multiline-concat", none, false⟩] else []

variable [DecidableEq κ]

lemma msgTagProfile_client (hclient : (peers dst).isServer = false) :
    msgTagProfile peers x dst m.msgid =
      { time := wantsTime peers dst
        msgid := m.msgid.isSome && (peers dst).caps.messageTags
        batch := (peers dst).caps.batch &&
          ((batchCurrent peers x dst).isSome || (batchLabelTag x dst).isSome)
        concat := (peers dst).caps.messageTags && multilineConcatFor peers x dst } := by
  rw [msgTagProfile, hclient]
  rfl

lemma msgTagPieces_eq (hclient : (peers dst).isServer = false)
    (hrelay : haveClientRelay policy m.tags = false) :
    msgTagPieces policy peers x (noReplay suppressKey) m dst =
      headPieces policy suppressKey m (msgTagProfile peers x dst m.msgid) ++
        batchPieces (batchView peers x dst) ++ tailPieces (msgTagProfile peers x dst m.msgid) := by
  have htime : timePieces policy peers (noReplay suppressKey) m dst ++ msgidPieces peers m dst =
      headPieces policy suppressKey m (msgTagProfile peers x dst m.msgid) := by
    rw [timePieces, msgidPieces, msgTagProfile_client hclient]
    congr 1
    · cases wantsTime peers dst <;> rfl
    · cases m.msgid with
      | none => simp
      | some v => cases (peers dst).caps.messageTags <;> rfl
  have hconcat : concatPieces peers x dst = tailPieces (msgTagProfile peers x dst m.msgid) := by
    rw [concatPieces, tailPieces, msgTagProfile_client hclient]
  rw [msgTagPieces, htime, hconcat, clientPieces_eq_nil hrelay]
  simp [notePieces, replayPieces, noReplay, Replay.none]

lemma batchView_eq_none_iff (hclient : (peers dst).isServer = false) :
    batchView peers x dst = (none, none) ↔ (msgTagProfile peers x dst m.msgid).batch = false := by
  rw [msgTagProfile_client hclient, batchView]
  cases (peers dst).caps.batch with
  | false => simp
  | true =>
    simp only [if_true, Prod.mk.injEq, Bool.true_and, Bool.or_eq_false_iff,
      Option.isSome_eq_false_iff, Option.isNone_iff_eq_none]
    exact and_comm

lemma length_escape_le (v : List UInt8) : (v.flatMap escapeByte).length ≤ 2 * v.length := by
  induction v with
  | nil => simp
  | cons c v ih =>
    have hc : (escapeByte c).length ≤ 2 := by
      rw [escapeByte]
      split_ifs <;> simp [str]
    rw [flatMap_cons, length_append, length_cons]
    omega

lemma length_pieceText_le {key v b n} (hv : v.length ≤ n) :
    (pieceText ⟨key, some v, b⟩).length ≤ key.length + 1 + 2 * n := by
  have := length_escape_le v
  simp only [pieceText, length_append, length_cons]
  omega

lemma length_piecesText_singleton (p : Piece) :
    (piecesText [p]).length = (pieceText p).length + 1 := by
  simp [piecesText]

lemma length_headPieces_le :
    (piecesText (headPieces policy suppressKey m p)).length ≤ 68 + 135 := by
  have htime : ∀ (v : List UInt8) (b : Bool),
      (piecesText [⟨str "time", some (v.take 31), b⟩]).length ≤ 68 := by
    intro v b
    rw [length_piecesText_singleton]
    exact Nat.succ_le_succ (length_pieceText_le (length_take_le 31 v))
  have hmsgid : ∀ v : Text MSGIDLEN,
      (piecesText [⟨str "msgid", some v.1, false⟩]).length ≤ 135 := by
    intro v
    rw [length_piecesText_singleton]
    exact Nat.succ_le_succ (length_pieceText_le v.2)
  rw [headPieces, piecesText_append, length_append]
  refine Nat.add_le_add ?_ ?_
  · split
    · split <;> exact htime _ _
    · simp [piecesText]
  split
  · cases m.msgid with
    | none => simp [piecesText]
    | some v => exact hmsgid v
  · simp [piecesText]

variable (v : Option (Text LABELLEN) × Option (Text BATCHIDLEN))

lemma length_batchPieces_le : (piecesText (batchPieces v)).length ≤ 135 + 39 := by
  have hlabel : ∀ l : Text LABELLEN,
      (piecesText [⟨str "label", some l.1, false⟩]).length ≤ 135 := by
    intro l
    rw [length_piecesText_singleton]
    exact Nat.succ_le_succ (length_pieceText_le l.2)
  have hbatch : ∀ i : Text BATCHIDLEN,
      (piecesText [⟨str "batch", some i.1, false⟩]).length ≤ 39 := by
    intro i
    rw [length_piecesText_singleton]
    exact Nat.succ_le_succ (length_pieceText_le i.2)
  obtain ⟨l, i⟩ := v
  rw [batchPieces, piecesText_append, length_append]
  refine Nat.add_le_add ?_ ?_
  · cases l with
    | none => simp [piecesText]
    | some l => exact hlabel l
  · cases i with
    | none => simp [piecesText]
    | some i => exact hbatch i

lemma length_tailPieces_le : (piecesText (tailPieces p)).length ≤ 23 := by
  rw [tailPieces]
  split
  · decide
  · simp [piecesText]

lemma msgTagWrite_profile (hne : batchPieces v ≠ []) : msgTagWrite OUTBOUND_TAG_MAX
        (headPieces policy suppressKey m p ++ batchPieces v ++ tailPieces p) =
      ch '@' :: (piecesText (headPieces policy suppressKey m p ++ batchPieces v ++
        tailPieces p)).tail ++ [ch ' '] := by
  have h1 : (piecesText (headPieces policy suppressKey m p)).length ≤ 68 + 135 :=
    length_headPieces_le p
  have h2 := length_batchPieces_le v
  have h3 := length_tailPieces_le p
  refine msgTagWrite_eq (by simp [hne]) ?_
  rw [piecesText_append, piecesText_append, length_append, length_append,
    OUTBOUND_TAG_MAX]
  omega

lemma batchPieces_ne_nil {v} (h : v ≠ (none, none)) : batchPieces v ≠ [] := by
  obtain ⟨_ | l, _ | i⟩ := v
  · exact absurd rfl h
  all_goals simp [batchPieces]

lemma piecesText_eq_cons {ps} (hne : ps ≠ []) : piecesText ps = ch ';' :: (piecesText ps).tail := by
  obtain ⟨p, ps, rfl⟩ := exists_cons_of_ne_nil hne
  rfl

/-- **Recipients with one profile get the same prefix** if and only if they are told of the
same label and batch. -/
lemma format_eq_iff (hclient : (peers dst).isServer = false)
    (hclient' : (peers dst').isServer = false) (hrelay : haveClientRelay policy m.tags = false)
    (hprofile : msgTagProfile peers x dst m.msgid = msgTagProfile peers y dst' m.msgid) :
    alonePrefix policy peers suppressKey m x dst = alonePrefix policy peers suppressKey m y dst' ↔
      batchView peers x dst = batchView peers y dst' := by
  rw [alonePrefix, alonePrefix, msgTagFormat, msgTagFormat, if_neg (by simp [hclient]),
    if_neg (by simp [hclient']), msgTagPieces_eq hclient hrelay, msgTagPieces_eq hclient' hrelay,
    hprofile]
  constructor
  · intro h
    have hv := batchView_eq_none_iff (x := x) (m := m) hclient
    have hw := batchView_eq_none_iff (x := y) (m := m) hclient'
    rw [hprofile] at hv
    cases hbit : (msgTagProfile peers y dst' m.msgid).batch with
    | false => rw [hv.mpr hbit, hw.mpr hbit]
    | true =>
      have hv' : batchPieces (batchView peers x dst) ≠ [] :=
        batchPieces_ne_nil fun h => by simp [hv.mp h] at hbit
      have hw' : batchPieces (batchView peers y dst') ≠ [] :=
        batchPieces_ne_nil fun h => by simp [hw.mp h] at hbit
      rw [msgTagWrite_profile _ _ hv', msgTagWrite_profile _ _ hw'] at h
      have htail := (List.cons.inj (append_cancel_right h)).2
      have htext := congrArg (List.cons (ch ';')) htail
      rw [← piecesText_eq_cons (by simp [hv']), ← piecesText_eq_cons (by simp [hw'])] at htext
      simp only [piecesText_append] at htext
      exact batchPieces_text_inj (append_cancel_left (append_cancel_right htext))
  · intro h
    rw [h]

lemma profilePrefix_eq (hclient : (peers dst).isServer = false)
    (hrelay : haveClientRelay policy m.tags = false) :
    profilePrefix policy peers suppressKey m x dst =
      alonePrefix policy peers suppressKey m x dst := by
  rw [profilePrefix]
  split
  · rfl
  next hnone =>
    rw [not_not] at hnone
    have hview : batchView peers x dst = (none, none) :=
      (batchView_eq_none_iff hclient).mpr (by rw [hnone]; rfl)
    rw [alonePrefix, msgTagFormat, if_neg (by simp [hclient]), msgTagPieces_eq hclient hrelay,
      hview, hnone]
    rfl

end

/-! ### The cache -/

section

variable {κ : Type} [DecidableEq κ] {policy : Policy} {peers : κ → Peer} {suppressKey : List UInt8}
  {m : Message}

def requests (policy : Policy) (peers : κ → Peer) (suppressKey : List UInt8) (m : Message)
    (vs : List (Ctx κ × κ)) : List (Profile × List UInt8) :=
  vs.map fun v =>
    (msgTagProfile peers v.1 v.2 m.msgid, profilePrefix policy peers suppressKey m v.1 v.2)

lemma isServer_of_mem_views {x ts v}
    (hv : v ∈ views peers x ts) : (peers v.2).isServer = false := by
  induction ts generalizing x with
  | nil => simp [views] at hv
  | cons t ts ih =>
    rw [views] at hv
    split at hv
    next hserved =>
      rcases mem_cons.mp hv with rfl | hv
      · rw [served, Bool.and_eq_true, Bool.not_eq_true'] at hserved
        exact hserved.2
      · exact ih hv
    next => exact ih hv

lemma fanOut_of_relay (hrelay : haveClientRelay policy m.tags = true) (x cache ts) :
    fanOut policy peers suppressKey m x cache ts = alone policy peers suppressKey m x ts := by
  induction ts generalizing x with
  | nil => rfl
  | cons t ts ih =>
    rw [fanOut, alone, views]
    simp only [cachedPrefix, hrelay, if_true]
    split
    · rw [ih]
      rfl
    · exact ih _

lemma fanOut_of_not_relay (hrelay : haveClientRelay policy m.tags = false) (x cache ts) :
    fanOut policy peers suppressKey m x cache ts =
      ((views peers x ts).map Prod.snd).zip
        (Cache.answers cache (requests policy peers suppressKey m (views peers x ts))) := by
  induction ts generalizing x cache with
  | nil => rfl
  | cons t ts ih =>
    rw [fanOut, views]
    simp only [cachedPrefix, hrelay, Bool.false_eq_true, if_false]
    split
    · rw [ih]
      rfl
    · exact ih _ _

lemma alone_of_not_relay (hrelay : haveClientRelay policy m.tags = false) (x ts) :
    alone policy peers suppressKey m x ts =
      ((views peers x ts).map Prod.snd).zip
        ((requests policy peers suppressKey m (views peers x ts)).map Prod.snd) := by
  rw [requests, map_map, zip_map']
  apply map_congr_left
  intro v hv
  rw [Function.comp_apply, profilePrefix_eq (isServer_of_mem_views hv) hrelay]

/-- The recipient `v` that comes after `u` with the same profile is told of the same label and
batch. -/
def Follows (peers : κ → Peer) (m : Message) (u v : Ctx κ × κ) : Prop :=
  msgTagProfile peers u.1 u.2 m.msgid = msgTagProfile peers v.1 v.2 m.msgid →
    batchView peers u.1 u.2 = batchView peers v.1 v.2

lemma requests_isChain_iff (suppressKey) (hrelay : haveClientRelay policy m.tags = false)
    {vs} (hvs : ∀ v ∈ vs, (peers v.2).isServer = false) :
    (requests policy peers suppressKey m vs).IsChain (fun a b => a.1 = b.1 → a.2 = b.2) ↔
      vs.IsChain (Follows peers m) := by
  rw [requests, isChain_map]
  refine List.IsChain.iff_of_mem_imp fun u v hu hv => ?_
  rw [profilePrefix_eq (hvs u hu) hrelay, profilePrefix_eq (hvs v hv) hrelay]
  exact forall_congr' fun hprofile => format_eq_iff (hvs u hu) (hvs v hv) hrelay hprofile

end

/-- **The prefix from the cache is the prefix of the recipient alone**, for every recipient of
every fan-out, if and only if the message has client-only tags to relay, or recipients that
are served one after the other with the same profile are told of the same label and batch. -/
theorem fanOut_eq_alone_iff {κ : Type} [DecidableEq κ] (policy : Policy) (peers : κ → Peer)
    (suppressKey : List UInt8) (m : Message) (x : Ctx κ) (ts : List (Target κ)) :
    fanOut policy peers suppressKey m x none ts = alone policy peers suppressKey m x ts ↔
      haveClientRelay policy m.tags = true ∨ (views peers x ts).IsChain (Follows peers m) := by
  cases hrelay : haveClientRelay policy m.tags with
  | true => exact iff_of_true (fanOut_of_relay hrelay x none ts) (Or.inl rfl)
  | false =>
    rw [fanOut_of_not_relay hrelay, alone_of_not_relay hrelay,
      ← requests_isChain_iff suppressKey hrelay fun _ => isServer_of_mem_views,
      ← Cache.answers_eq_iff]
    constructor
    · intro h
      refine Or.inr ?_
      have hsnd := congrArg (List.map Prod.snd) h
      rwa [map_snd_zip (by simp [requests]), map_snd_zip (by simp [requests])]
        at hsnd
    · rintro (h | h)
      · cases h
      · rw [h]

/-- Both clients of the example have asked for batches and long messages. -/
def twoPeers : Bool → Peer := fun _ =>
  { isServer := false, myConnect := true,
    caps := { serverTime := true, messageTags := true, labeledResponse := true, batch := true,
              multiline := true } }

/-- A labelled command of the client `true` is being answered in the batch `1`, and it is
the end of a long message, which goes out in the batch `2`. -/
def twoBatches : Ctx Bool where
  label := ⟨some true, ⟨str "a", by decide⟩, ⟨str "1", by decide⟩, true, false, false⟩
  out := .clear
  fanout := ⟨⟨str "2", by decide⟩, true, false, false⟩
  seq := 2

/-- **A recipient gets the batch of another.** The JOIN that reveals the sender of the long message
goes to the sender and then to another client, and the prefix made for the sender is used for
both. -/
theorem fanOut_other_batch :
    fanOut ⟨false, false, []⟩ twoPeers [] ⟨[], str "now", none⟩ twoBatches none
        [⟨true, true, false⟩, ⟨false, true, false⟩] =
      [(true, str "@time=now;batch=1 "), (false, str "@time=now;batch=1 ")] ∧
    alone ⟨false, false, []⟩ twoPeers [] ⟨[], str "now", none⟩ twoBatches
        [⟨true, true, false⟩, ⟨false, true, false⟩] =
      [(true, str "@time=now;batch=1 "), (false, str "@time=now;batch=2 ")] := by
  decide +kernel

end Ircu.Send
