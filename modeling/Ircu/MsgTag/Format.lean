import Ircu.Batch.Basic
import Ircu.MsgTag.Basic

/-!
Message tags of an outgoing line: `msg_tag_format` and `msg_tag_profile` of `msg_tag.c`.

`msgTagPieces` lists what the function appends, in its order, each piece with a mark that
says whether it was taken from the tags of an input line. `msgTagFormat` writes them into a
buffer. A prefix that does not fit is not sent at all, and only the value of a tag is ever
cut off.
-/

namespace Ircu.MsgTag

open Batch List Option

def OUTBOUND_TAG_MAX : ℕ := 4094 + 256

def MSGIDLEN : ℕ := 64

/-! ### Client-only tags -/

/-- The features that tags depend on: `NETWORK_TIME`, and the list of `CLIENTTAGDENY`. -/
structure Policy where
  networkTime : Bool
  denyAll : Bool
  names : List (List UInt8)

def msgTagFind (tags : List Tag) (key : List UInt8) : Option Tag :=
  tags.find? fun tag => sameText tag.key key

def keyClientOnly (key : List UInt8) : Bool := key.head? = some (ch '+')

variable (policy : Policy)

def clientAllowed (key : List UInt8) : Bool :=
  if !keyClientOnly key then false
  else if key.tail = [] then false
  else
    let listed := policy.names.any fun name => sameText key.tail name
    if policy.denyAll then listed else !listed

def haveClientRelay (tags : List Tag) : Bool :=
  tags.any fun tag => keyClientOnly tag.key && clientAllowed policy tag.key

def clientMaySend (key : List UInt8) : Bool :=
  if keyClientOnly key then clientAllowed policy key
  else sameText key (str "label") || sameText key (str "batch") ||
    sameText key (str "draft/multiline-concat")

def filterClient (tags : List Tag) : List Tag :=
  tags.filter fun tag => clientMaySend policy tag.key

/-! ### What is appended -/

structure Piece where
  key : List UInt8
  value : Option (List UInt8)
  /-- It was taken from the tags of an input line. -/
  ofLine : Bool
deriving DecidableEq

/-- A stored message that is sent again, and the tag that is not relayed for the moment. -/
structure Replay where
  isOpen : Bool
  time : List UInt8
  tags : List UInt8
  noteKey : List UInt8
  noteValue : List UInt8
  suppressKey : List UInt8

def Replay.none : Replay := ⟨false, [], [], [], [], []⟩

/-- A message: the tags of the line it comes from, the time of delivery as
`msg_tag_format_time` writes it, and its identifier. -/
structure Message where
  tags : List Tag
  localTime : List UInt8
  msgid : Option (Text MSGIDLEN)

section

variable {κ : Type} (policy : Policy) (peers : κ → Peer) (x : Ctx κ) (rp : Replay) (m : Message)
  (dst : κ)

def wantsTime : Bool :=
  !(peers dst).isServer && ((peers dst).caps.serverTime || (peers dst).caps.messageTags)

def lineTime : Option (List UInt8) :=
  if rp.isOpen || !policy.networkTime then none
  else (msgTagFind m.tags (str "time")).bind (·.value)

def timePieces : List Piece :=
  if !wantsTime peers dst then []
  else if rp.isOpen then [⟨str "time", some (rp.time.take 31), false⟩]
  else
    match lineTime policy rp m with
    | some v => [⟨str "time", some (v.take 31), true⟩]
    | none => [⟨str "time", some (m.localTime.take 31), false⟩]

def msgidPieces : List Piece :=
  match m.msgid with
  | some v => if (peers dst).caps.messageTags then [⟨str "msgid", some v.1, false⟩] else []
  | none => []

/-- The tags `label` and `batch`, for what the contexts say about the recipient. -/
def batchPieces (view : Option (Text LABELLEN) × Option (Text BATCHIDLEN)) : List Piece :=
  (view.1.map fun v => ⟨str "label", some v.1, false⟩).toList ++
    (view.2.map fun v => ⟨str "batch", some v.1, false⟩).toList

/-- The tag `draft/multiline-concat`. -/
def concatPieces : List Piece :=
  if (peers dst).caps.messageTags && multilineConcatFor peers x dst then
    [⟨str "draft/multiline-concat", none, false⟩]
  else []

def notePieces : List Piece :=
  if (peers dst).caps.messageTags && rp.isOpen && rp.noteKey ≠ [] then
    [⟨rp.noteKey, if rp.noteValue = [] then none else some rp.noteValue, false⟩]
  else []

def replayPiece (entry : List UInt8) : Piece :=
  ⟨entry.takeWhile (· ≠ ch '='),
    match entry.dropWhile (· ≠ ch '=') with | [] => none | _ :: v => some v, false⟩

def replayPieces : List Piece :=
  if (peers dst).caps.messageTags && rp.isOpen then
    ((tokens (ch ';') rp.tags).map replayPiece).filter fun p =>
      keyClientOnly p.key && clientAllowed policy p.key
  else []

def relayed (tag : Tag) : Bool :=
  keyClientOnly tag.key && clientAllowed policy tag.key &&
    !(rp.suppressKey ≠ [] && sameText tag.key rp.suppressKey)

def clientPieces : List Piece :=
  if (peers dst).caps.messageTags then
    (m.tags.filter (relayed policy rp)).map fun tag => ⟨tag.key, tag.value, true⟩
  else []

variable [DecidableEq κ]

def batchView : Option (Text LABELLEN) × Option (Text BATCHIDLEN) :=
  if (peers dst).caps.batch then (batchLabelTag x dst, batchCurrent peers x dst) else (none, none)

def msgTagPieces : List Piece :=
  timePieces policy peers rp m dst ++ msgidPieces peers m dst ++
    batchPieces (batchView peers x dst) ++ concatPieces peers x dst ++
    notePieces peers rp dst ++ replayPieces policy peers rp dst ++
    clientPieces policy peers rp m dst

end

/-! ### Where it comes from -/

section

variable {κ : Type} {policy : Policy} {peers : κ → Peer} {x : Ctx κ} {rp : Replay} {m : Message}
  {dst : κ} {p : Piece}

lemma timePieces_ofLine_iff : (∃ p ∈ timePieces policy peers rp m dst, p.ofLine = true) ↔
      wantsTime peers dst = true ∧ (lineTime policy rp m).isSome := by
  rw [timePieces]
  cases wantsTime peers dst with
  | false => simp
  | true =>
    cases hrp : rp.isOpen with
    | true => simp [lineTime, hrp]
    | false => cases lineTime policy rp m <;> simp

lemma clientPieces_ofLine_iff : (∃ p ∈ clientPieces policy peers rp m dst, p.ofLine = true) ↔
      (peers dst).caps.messageTags = true ∧ ∃ tag ∈ m.tags, relayed policy rp tag = true := by
  rw [clientPieces]
  cases (peers dst).caps.messageTags <;> simp

lemma ofLine_msgidPieces (hp : p ∈ msgidPieces peers m dst) : p.ofLine = false := by
  rw [msgidPieces] at hp
  split at hp
  · split at hp
    · rw [mem_singleton.mp hp]
    · cases hp
  · cases hp

lemma ofLine_batchPieces {v} (hp : p ∈ batchPieces v) : p.ofLine = false := by
  rw [batchPieces, mem_append, mem_toList, mem_toList, map_eq_some_iff, map_eq_some_iff] at hp
  rcases hp with ⟨v, -, rfl⟩ | ⟨v, -, rfl⟩ <;> rfl

lemma ofLine_concatPieces (hp : p ∈ concatPieces peers x dst) : p.ofLine = false := by
  rw [concatPieces] at hp
  split at hp
  · rw [mem_singleton.mp hp]
  · cases hp

lemma ofLine_notePieces (hp : p ∈ notePieces peers rp dst) : p.ofLine = false := by
  rw [notePieces] at hp
  split at hp
  · rw [mem_singleton.mp hp]
  · cases hp

lemma ofLine_replayPieces (hp : p ∈ replayPieces policy peers rp dst) : p.ofLine = false := by
  rw [replayPieces] at hp
  split at hp
  · obtain ⟨entry, -, rfl⟩ := mem_map.mp (mem_filter.mp hp).1
    rfl
  · cases hp

end

/-! ### How it is written -/

def escapeByte (c : UInt8) : List UInt8 :=
  if c = ch ' ' then str "\\s"
  else if c = ch ';' then str "\\:"
  else if c = ch '\\' then str "\\\\"
  else if c = 0x0d then str "\\r"
  else if c = 0x0a then str "\\n"
  else [c]

/-- `msg_tag_escape`, with room for `outlen` bytes. -/
def msgTagEscape : List UInt8 → ℕ → List UInt8
  | [], _ => []
  | c :: value, outlen =>
    if 2 < outlen then escapeByte c ++ msgTagEscape value (outlen - (escapeByte c).length) else []

/-- `msg_tag_append` behind `out`, in a buffer of `buflen` bytes. -/
def msgTagAppend (buflen : ℕ) (out : List UInt8) (p : Piece) : Option (List UInt8) :=
  if buflen ≤ out.length + 1 then none
  else
    let out := out ++ (if out = [] then ch '@' else ch ';') :: p.key
    if buflen ≤ out.length then none
    else
      match p.value with
      | none => some out
      | some value =>
        let out := out ++ [ch '=']
        let out := out ++ msgTagEscape value (buflen - out.length)
        if out.length < buflen then some out else none

def msgTagFinish (buflen : ℕ) (out : List UInt8) : List UInt8 :=
  if out = [] ∨ buflen ≤ out.length + 1 then [] else out ++ [ch ' ']

def msgTagWrite (buflen : ℕ) (pieces : List Piece) : List UInt8 :=
  match pieces.foldlM (msgTagAppend buflen) [] with
  | some out => msgTagFinish buflen out
  | none => []

section

variable {κ : Type} [DecidableEq κ] (policy : Policy) (peers : κ → Peer) (x : Ctx κ) (rp : Replay)
  (m : Message) (dst : κ)

/-- `msg_tag_format`, in the buffers of `send_buffer`. -/
def msgTagFormat : List UInt8 :=
  if (peers dst).isServer then []
  else msgTagWrite OUTBOUND_TAG_MAX (msgTagPieces policy peers x rp m dst)

structure Profile where
  time : Bool
  msgid : Bool
  batch : Bool
  concat : Bool
deriving DecidableEq

def Profile.none : Profile := ⟨false, false, false, false⟩

def msgTagProfile (msgid : Option (Text MSGIDLEN)) : Profile :=
  if (peers dst).isServer then .none
  else
    { time := wantsTime peers dst
      msgid := msgid.isSome && (peers dst).caps.messageTags
      batch :=
        (peers dst).caps.batch &&
          ((batchCurrent peers x dst).isSome || (batchLabelTag x dst).isSome)
      concat := (peers dst).caps.messageTags && multilineConcatFor peers x dst }

end

/-! ### The text of the tags -/

def pieceText (p : Piece) : List UInt8 :=
  p.key ++ match p.value with | none => [] | some v => ch '=' :: v.flatMap escapeByte

def piecesText (pieces : List Piece) : List UInt8 := pieces.flatMap fun p => ch ';' :: pieceText p

@[simp] lemma piecesText_append (ps qs : List Piece) :
    piecesText (ps ++ qs) = piecesText ps ++ piecesText qs := by
  simp [piecesText]

lemma escapeByte_ne_nil (c) : escapeByte c ≠ [] := by
  rw [escapeByte]
  split_ifs <;> simp [str]

lemma msgTagEscape_eq {value outlen} (h : (value.flatMap escapeByte).length + 2 ≤ outlen) :
    msgTagEscape value outlen = value.flatMap escapeByte := by
  induction value generalizing outlen with
  | nil => rfl
  | cons c value ih =>
    rw [flatMap_cons, length_append] at h
    have hc := length_pos_iff.mpr (escapeByte_ne_nil c)
    rw [msgTagEscape, if_pos (by omega), ih (by omega), flatMap_cons]

lemma msgTagAppend_eq {buflen out p} (h : out.length + (pieceText p).length + 3 ≤ buflen) :
    msgTagAppend buflen out p =
      some (out ++ (if out = [] then ch '@' else ch ';') :: pieceText p) := by
  rw [msgTagAppend, if_neg (by omega)]
  cases hv : p.value with
  | none =>
    have htext : pieceText p = p.key := by rw [pieceText, hv]; simp
    rw [htext] at h ⊢
    simp only [length_append, length_cons]
    rw [if_neg (by omega)]
  | some v =>
    have htext : pieceText p = p.key ++ ch '=' :: v.flatMap escapeByte := by rw [pieceText, hv]
    rw [htext] at h ⊢
    simp only [length_append, length_cons] at h
    simp only [length_append, length_cons, length_nil]
    rw [if_neg (by omega), msgTagEscape_eq (by omega), if_pos (by omega)]
    simp

lemma foldlM_msgTagAppend {buflen} (pieces) {out} (hout : out ≠ [])
    (h : out.length + (piecesText pieces).length + 2 ≤ buflen) :
    pieces.foldlM (msgTagAppend buflen) out = some (out ++ piecesText pieces) := by
  induction pieces generalizing out with
  | nil => simp [piecesText]
  | cons p pieces ih =>
    have hcons : piecesText (p :: pieces) = ch ';' :: pieceText p ++ piecesText pieces := rfl
    rw [hcons, length_append, length_cons] at h
    rw [foldlM_cons, msgTagAppend_eq (by omega), if_neg hout, bind_eq_bind,
      bind_some, ih (by simp), hcons]
    · simp
    · rw [length_append, length_cons]
      omega

lemma msgTagWrite_eq {buflen pieces} (hne : pieces ≠ [])
    (h : (piecesText pieces).length + 2 ≤ buflen) :
    msgTagWrite buflen pieces = ch '@' :: (piecesText pieces).tail ++ [ch ' '] := by
  obtain ⟨p, ps, rfl⟩ := exists_cons_of_ne_nil hne
  have hcons : piecesText (p :: ps) = ch ';' :: (pieceText p ++ piecesText ps) := rfl
  rw [hcons, length_cons, length_append] at h
  rw [msgTagWrite, foldlM_cons, msgTagAppend_eq (by simp; omega),
    bind_eq_bind, bind_some, nil_append,
    foldlM_msgTagAppend ps (by simp) (by simp; omega), hcons]
  simp only [msgTagFinish]
  rw [if_neg (by simp; omega)]
  simp

/-! ### Values read back -/

lemma unescape_cons {c} (hc : c ≠ ch '\\') (l) :
    msgTagUnescape (c :: l) = c :: msgTagUnescape l := by
  cases l with
  | nil => simp [msgTagUnescape, hc]
  | cons d l => rw [msgTagUnescape, if_neg hc]

lemma unescape_escapeByte (c l) : msgTagUnescape (escapeByte c ++ l) = c :: msgTagUnescape l := by
  rw [escapeByte]
  split_ifs with h1 h2 h3 h4 h5
  · rw [h1]; rfl
  · rw [h2]; rfl
  · rw [h3]; rfl
  · rw [h4]; rfl
  · rw [h5]; rfl
  · exact unescape_cons h3 l

lemma unescape_escape (v) : msgTagUnescape (v.flatMap escapeByte) = v := by
  induction v with
  | nil => rfl
  | cons c v ih => rw [flatMap_cons, unescape_escapeByte, ih]

lemma escape_injective {v w : List UInt8} (h : v.flatMap escapeByte = w.flatMap escapeByte) :
    v = w := by
  rw [← unescape_escape v, h, unescape_escape]

lemma semicolon_notMem_escape (v : List UInt8) : ch ';' ∉ v.flatMap escapeByte := by
  intro h
  obtain ⟨c, -, hc⟩ := mem_flatMap.mp h
  rw [escapeByte] at hc
  split_ifs at hc with h1 h2 h3 h4 h5
  · revert hc; decide
  · revert hc; decide
  · revert hc; decide
  · revert hc; decide
  · revert hc; decide
  · exact h2 (mem_singleton.mp hc).symm

lemma escape_append_inj {v w a b : List UInt8} (ha : a = [] ∨ a.head? = some (ch ';'))
    (hb : b = [] ∨ b.head? = some (ch ';'))
    (h : v.flatMap escapeByte ++ a = w.flatMap escapeByte ++ b) : v = w ∧ a = b := by
  have hv := semicolon_notMem_escape v
  have hw := semicolon_notMem_escape w
  have hcons : ∀ {l : List UInt8}, l.head? = some (ch ';') → l = ch ';' :: l.tail := by
    intro l hl
    exact (cons_head?_tail hl).symm
  have htake : ∀ u t : List UInt8,
      (u.flatMap escapeByte ++ ch ';' :: t).takeWhile (· ≠ ch ';') = u.flatMap escapeByte := by
    intro u t
    rw [takeWhile_append_of_pos]
    · simp
    · intro c hc
      exact decide_eq_true fun h => semicolon_notMem_escape u (h ▸ hc)
  rcases ha with rfl | ha <;> rcases hb with rfl | hb
  · rw [append_nil, append_nil] at h
    exact ⟨escape_injective h, rfl⟩
  · rw [append_nil, hcons hb] at h
    exact absurd (by rw [h]; simp) hv
  · rw [append_nil, hcons ha] at h
    exact absurd (by rw [← h]; simp) hw
  have hvw := congrArg (List.takeWhile (· ≠ ch ';')) h
  rw [hcons ha, hcons hb, htake, htake] at hvw
  rw [hvw] at h
  exact ⟨escape_injective hvw, append_cancel_left h⟩

def batchText : Option (Text BATCHIDLEN) → List UInt8
  | none => []
  | some i => str ";batch=" ++ i.1.flatMap escapeByte

variable (i : Option (Text BATCHIDLEN))

lemma piecesText_batch : piecesText (batchPieces (none, i)) = batchText i := by
  cases i <;> simp [piecesText, batchPieces, batchText, pieceText, str]

lemma piecesText_label (l : Text LABELLEN) (i) : piecesText (batchPieces (some l, i)) =
      str ";label=" ++ (l.1.flatMap escapeByte ++ batchText i) := by
  cases i <;> simp [piecesText, batchPieces, batchText, pieceText, str]

lemma batchText_head : batchText i = [] ∨ (batchText i).head? = some (ch ';') := by
  cases i with
  | none => exact Or.inl rfl
  | some i => exact Or.inr rfl

lemma batchText_inj {i i'} (h : batchText i = batchText i') : i = i' := by
  cases i with
  | none =>
    cases i' with
    | none => rfl
    | some i' => cases h
  | some i =>
    cases i' with
    | none => cases h
    | some i' => exact congrArg some (Subtype.ext (escape_injective (append_cancel_left h)))

lemma batchText_ne_label (l) : batchText i ≠ str ";label=" ++ l := by
  cases i with
  | none => simp [batchText, str]
  | some i =>
    intro h
    have := congrArg (·[1]?) h
    revert this
    simp [batchText, str]
    decide

lemma batchPieces_text_inj {v w}
    (h : piecesText (batchPieces v) = piecesText (batchPieces w)) : v = w := by
  obtain ⟨l, i⟩ := v
  obtain ⟨l', i'⟩ := w
  cases l with
  | none =>
    rw [piecesText_batch] at h
    cases l' with
    | none =>
      rw [piecesText_batch] at h
      rw [batchText_inj h]
    | some l' =>
      rw [piecesText_label] at h
      exact absurd h (batchText_ne_label i _)
  | some l =>
    rw [piecesText_label] at h
    cases l' with
    | none =>
      rw [piecesText_batch] at h
      exact absurd h.symm (batchText_ne_label i' _)
    | some l' =>
      rw [piecesText_label] at h
      obtain ⟨hl, hi⟩ :=
        escape_append_inj (batchText_head i) (batchText_head i') (append_cancel_left h)
      rw [batchText_inj hi, Subtype.ext hl]

end Ircu.MsgTag
