import Ircu.MsgTag.Format
import Ircu.Parse.Overread

/-!
The tags of an input line, after the line has been handled.

`parse.c` keeps the tags of the line being handled in `current_tags`, and every message that
is sent reads them there (`parse_tags`). The parser sets them when it begins with a line, and
nothing sets them back when `parse_dispatch` is through with it. The identifier of the line
is different: `msg_tag_line_end` is called on every way out.

The list itself is static, but the strings of the tags lie in the buffer of the connection the
line came from. What that connection sends next is written over them, while the list still
points there.
-/

namespace Ircu.Parse

open MsgTag Batch List

def TAGDATA_CLIENT_MAX : ℕ := 4094

/-! ### The parser -/

/-- `current_tags` behind `parse_server`. A connection that is dead is left alone. -/
def serverTags (dead : Bool) (old : List Tag) (line : List UInt8) : List Tag :=
  if dead then old else lineTags line

/-- `current_tags` behind `parse_client`. With too many tags, the function returns before it
looks at them; with too long a rest, before it drops those that a client may not send. -/
def clientTags (policy : Policy) (dead : Bool) (old : List Tag) (line : List UInt8) : List Tag :=
  let l := line.dropWhile (· = ch ' ')
  if dead then old
  else if l.head? = some (ch '@') ∧ TAGDATA_CLIENT_MAX < (l.tail.takeWhile (· ≠ ch ' ')).length then
    old
  else
    match afterTags line with
    | none => []
    | some rest =>
      if Packet.BUFSIZE - 2 < rest.length then lineTags line
      else filterClient policy (lineTags line)

/-! ### The identifier of the line -/

/-- The static variables of `msg_tag.c` for the identifier of the line. -/
structure MsgidLine where
  isOpen : Bool
  wanted : Bool
  tok : Text 15
  value : Text MSGIDLEN
deriving DecidableEq

def MsgidLine.closed : MsgidLine := ⟨false, false, .empty, .empty⟩

def msgTagLineEnd (line : MsgidLine) : MsgidLine :=
  { line with isOpen := false, wanted := false, tok := .empty, value := .empty }

variable (tok : List UInt8)

/-- `msg_tag_needs_msgid`. -/
def needsMsgid : Bool :=
  sameText tok (str "P") || sameText tok (str "O") || sameText tok (str "TM")

def msgidValid (id : List UInt8) : Bool :=
  id ≠ [] && id.length ≤ MSGIDLEN &&
    id.all fun c => 0x20 < c && c < 0x7f && !(c ∈ str ";=,\\")

def msgTagLineBegin (tags : List Tag) (fromServer : Bool) : MsgidLine :=
  let wanted := needsMsgid tok
  let sent := (msgTagFind tags (str "msgid")).bind (·.value)
  { isOpen := true
    wanted := wanted
    tok := .copy 15 tok
    value :=
      if wanted && fromServer && sent.any msgidValid then .copy MSGIDLEN (sent.getD [])
      else .empty }

/-- `fresh` is the next identifier. -/
def msgTagLineMsgid (line : MsgidLine) (fresh : Text MSGIDLEN) (tok : List UInt8) :
    Option (Text MSGIDLEN) :=
  if !line.isOpen || !line.wanted then none
  else if ¬sameText tok line.tok.1 then none
  else if line.value.1 = [] then some fresh
  else some line.value

/-- `parse_dispatch`, as far as the identifier is concerned. A frozen client and a hook that
refuses the command skip the handler, but not the end. -/
def parseDispatch (tags : List Tag) (fromServer : Bool)
    (handler : MsgidLine → MsgidLine) : MsgidLine :=
  msgTagLineEnd (handler (msgTagLineBegin tok tags fromServer))

/-! ### Runs -/

structure Statics where
  currentTags : List Tag
  line : MsgidLine

/-- A message that is sent while no line is handled: to whom, in which contexts, with which
token, time and next identifier. `stored` is the identifier of a stored message that is
sent again, if it is one. -/
structure Outside (κ : Type) where
  dst : κ
  ctx : Ctx κ
  rp : Replay
  tok : Option (List UInt8)
  localTime : List UInt8
  fresh : Text MSGIDLEN
  stored : Option (Option (Text MSGIDLEN))

inductive Event (κ : Type) where
  /-- A line is parsed, and dispatched if it is a command. -/
  | line (fromServer dead : Bool) (text : List UInt8)
      (dispatch : Option (List UInt8 × (MsgidLine → MsgidLine)))
  /-- The buffer is written to, or freed with its connection: what is found now where the key and
  the value of each tag lie. -/
  | overwritten (strings : ℕ → List UInt8 × List UInt8)
  /-- A message is sent by a timer, a callback or another event. -/
  | outside (e : Outside κ)

section

variable {κ : Type} (policy : Policy)

def tagsAfter (fromServer dead : Bool) (old : List Tag) (text : List UInt8) : List Tag :=
  if fromServer then serverTags dead old text else clientTags policy dead old text

/-- The same tags with other strings. A tag without a value points to none. -/
def reread (tags : List Tag) (strings : ℕ → List UInt8 × List UInt8) : List Tag :=
  tags.mapIdx fun i tag => ⟨(strings i).1, tag.value.map fun _ => (strings i).2⟩

def step (s : Statics) : Event κ → Statics
  | .line fromServer dead text dispatch =>
    let tags := tagsAfter policy fromServer dead s.currentTags text
    ⟨tags, match dispatch with
      | some (tok, handler) => parseDispatch tok tags fromServer handler
      | none => s.line⟩
  | .overwritten strings => { s with currentTags := reread s.currentTags strings }
  | .outside _ => s

def run (evs : List (Event κ)) : Statics := evs.foldl (step policy) ⟨[], .closed⟩

/-- What `msgtagctx_init` puts together for a message. -/
def Outside.message (s : Statics) (e : Outside κ) : Message where
  tags := s.currentTags
  localTime := e.localTime
  msgid := e.stored.getD (e.tok.bind (msgTagLineMsgid s.line e.fresh))

variable [DecidableEq κ] (peers : κ → Peer)

def Outside.shown (s : Statics) (e : Outside κ) : List Piece :=
  if msgTagFormat policy peers e.ctx e.rp (e.message s) e.dst = [] then []
  else msgTagPieces policy peers e.ctx e.rp (e.message s) e.dst

/-- No tag of the message is taken from an input line, and its identifier is not one
either. -/
def Outside.Clean (s : Statics) (e : Outside κ) : Prop :=
  (∀ p ∈ e.shown policy peers s, p.ofLine = false) ∧ (e.message s).msgid = e.stored.join

def CleanRun (evs : List (Event κ)) : Prop :=
  ∀ pre e post, evs = pre ++ .outside e :: post → e.Clean policy peers (run policy pre)

/-- The tags that are left, as they read after the events. -/
def leftover (evs : List (Event κ)) : List Tag :=
  evs.foldl (fun tags ev =>
    match ev with
    | .line fromServer dead text _ => tagsAfter policy fromServer dead tags text
    | .overwritten strings => reread tags strings
    | .outside _ => tags) []

/-- The recipient may see a tag that is left: it wants the time, and times of other servers are
used; or it has asked for tags, and a client-only tag may be relayed. -/
def Outside.Exposed (tags : List Tag) (e : Outside κ) : Prop :=
  (wantsTime peers e.dst = true ∧
      (lineTime policy e.rp ⟨tags, e.localTime, e.stored.join⟩).isSome) ∨
    ((peers e.dst).caps.messageTags = true ∧ ∃ tag ∈ tags, relayed policy e.rp tag = true)

end

section

variable {κ : Type} {policy : Policy} {peers : κ → Peer}

lemma run_append (evs evs' : List (Event κ)) :
    run policy (evs ++ evs') = evs'.foldl (step policy) (run policy evs) := foldl_append

lemma run_currentTags (evs : List (Event κ)) :
    (run policy evs).currentTags = leftover policy evs := by
  induction evs using reverseRecOn with
  | nil => rfl
  | append_singleton evs ev ih =>
    rw [run_append, leftover, foldl_append]
    cases ev with
    | line fromServer dead text dispatch =>
      simp only [foldl_cons, foldl_nil, step]
      rw [ih]
      rfl
    | overwritten strings => exact congrArg (reread · strings) ih
    | outside e => exact ih

lemma run_line (evs : List (Event κ)) : (run policy evs).line.isOpen = false := by
  induction evs using reverseRecOn with
  | nil => rfl
  | append_singleton evs ev ih =>
    rw [run_append]
    cases ev with
    | line fromServer dead text dispatch =>
      cases dispatch with
      | none => exact ih
      | some d => rfl
    | overwritten strings => exact ih
    | outside e => exact ih

lemma message_msgid {s} (hs : s.line.isOpen = false) (e : Outside κ) :
    (e.message s).msgid = e.stored.join := by
  rw [Outside.message]
  cases e.stored with
  | some v => rfl
  | none =>
    cases e.tok with
    | none => rfl
    | some tok => simp [msgTagLineMsgid, hs]

lemma message_run (evs : List (Event κ)) (e : Outside κ) :
    e.message (run policy evs) = ⟨leftover policy evs, e.localTime, e.stored.join⟩ := by
  rw [← message_msgid (run_line evs) e, ← run_currentTags]
  rfl

variable [DecidableEq κ]

lemma msgTagPieces_ofLine_iff {x rp m dst} :
    (∃ p ∈ msgTagPieces policy peers x rp m dst, p.ofLine = true) ↔
      (wantsTime peers dst = true ∧ (lineTime policy rp m).isSome) ∨
        ((peers dst).caps.messageTags = true ∧ ∃ tag ∈ m.tags, relayed policy rp tag = true) := by
  rw [← timePieces_ofLine_iff, ← clientPieces_ofLine_iff]
  constructor
  · rintro ⟨p, hp, hline⟩
    simp only [msgTagPieces, mem_append] at hp
    rcases hp with (((((hp | hp) | hp) | hp) | hp) | hp) | hp
    · exact Or.inl ⟨p, hp, hline⟩
    · exact absurd hline (by simp [ofLine_msgidPieces hp])
    · exact absurd hline (by simp [ofLine_batchPieces hp])
    · exact absurd hline (by simp [ofLine_concatPieces hp])
    · exact absurd hline (by simp [ofLine_notePieces hp])
    · exact absurd hline (by simp [ofLine_replayPieces hp])
    · exact Or.inr ⟨p, hp, hline⟩
  · rintro (⟨p, hp, hline⟩ | ⟨p, hp, hline⟩)
    · exact ⟨p, by simp only [msgTagPieces, mem_append]; tauto, hline⟩
    · exact ⟨p, by simp only [msgTagPieces, mem_append]; tauto, hline⟩

lemma Outside.clean_iff {evs : List (Event κ)} {e : Outside κ} :
    e.Clean policy peers (run policy evs) ↔ (e.Exposed policy peers (leftover policy evs) →
      msgTagFormat policy peers e.ctx e.rp (e.message (run policy evs)) e.dst = []) := by
  rw [Outside.Clean, Outside.shown, Outside.Exposed, message_run,
    ← msgTagPieces_ofLine_iff (x := e.ctx)]
  by_cases hnil : msgTagFormat policy peers e.ctx e.rp
      ⟨leftover policy evs, e.localTime, e.stored.join⟩ e.dst = []
  all_goals simp [hnil]

end

/-- **The messages sent between lines are free of tags of a line** if none of them is exposed to the
tags that are left. If one is, it is free of them only if no prefix is sent at all. -/
theorem cleanRun_of_not_exposed {κ : Type} [DecidableEq κ] (policy : Policy) (peers : κ → Peer)
    (evs : List (Event κ)) :
    ((∀ pre e post, evs = pre ++ .outside e :: post →
        ¬e.Exposed policy peers (leftover policy pre)) → CleanRun policy peers evs) ∧
      (CleanRun policy peers evs → ∀ pre e post, evs = pre ++ .outside e :: post →
        e.Exposed policy peers (leftover policy pre) →
          msgTagFormat policy peers e.ctx e.rp (e.message (run policy pre)) e.dst = []) := by
  constructor
  · intro h pre e post hevs
    exact Outside.clean_iff.mpr fun hexp => absurd hexp (h pre e post hevs)
  · intro h pre e post hevs hexp
    exact Outside.clean_iff.mp (h pre e post hevs) hexp

def taggedPeers : Unit → Peer := fun _ =>
  { isServer := false, myConnect := true,
    caps := { serverTime := false, messageTags := true, labeledResponse := false, batch := false,
              multiline := false } }

def timerSend : Outside Unit where
  dst := ()
  ctx := .init
  rp := .none
  tok := none
  localTime := str "now"
  fresh := .empty
  stored := none

def serverLine : Event Unit := .line true false (str "@xy AB P #c :hi") (some (str "P", id))

/-- A tag of a server is not relayed to a client that has asked for tags. -/
theorem cleanRun_serverLine :
    CleanRun ⟨false, false, []⟩ taggedPeers [serverLine, .outside timerSend] := by
  refine (cleanRun_of_not_exposed _ _ _).1 fun pre e post hevs => ?_
  obtain ⟨rfl, rfl⟩ : pre = [serverLine] ∧ e = timerSend := by
    rcases pre with _ | ⟨_, _ | ⟨_, pre⟩⟩
    · simp [serverLine] at hevs
    · simp at hevs
      exact ⟨by rw [hevs.1], hevs.2.1.symm⟩
    · simp at hevs
  have htags : leftover ⟨false, false, []⟩ [serverLine] = [⟨str "xy", none⟩] := by decide +kernel
  rw [Outside.Exposed, htags]
  decide +kernel

def typingLine : Event Unit :=
  .line false false (str "@+typing=active TAGMSG #c") (some (str "TM", id))

/-- **A message of a timer carries the tag of the line before.** A client has said that it is
typing; then a timer sends something to another one. The same happens if the beginning of
another line is written over a tag that is not relayed. -/
theorem timer_typing :
    ¬CleanRun ⟨false, false, []⟩ taggedPeers [typingLine, .outside timerSend] ∧
      msgTagFormat ⟨false, false, []⟩ taggedPeers .init .none
        (timerSend.message (run ⟨false, false, []⟩ [typingLine])) () =
        str "@time=now;+typing=active " ∧
      msgTagFormat ⟨false, false, []⟩ taggedPeers .init .none
        (timerSend.message (run ⟨false, false, []⟩
          [serverLine, .overwritten fun _ => (str "+y", [])])) () =
        str "@time=now;+y " := by
  refine ⟨?_, by decide +kernel, by decide +kernel⟩
  intro h
  have hclean := (h [typingLine] timerSend [] rfl).1 ⟨str "+typing", some (str "active"), true⟩
  exact absurd (hclean (by decide +kernel)) (by decide)

end Ircu.Parse
