import Ircu.Bucket.Basic
import Ircu.Chattr
import Ircu.Ledger.Basic
import Ircu.Link.Basic
import Ircu.Run.Basic
import Ircu.Text.Basic

/-!
Messages on hold (`sline.c`).

A message that matches an S-line is not delivered but put on hold: an entry with a token of its
own is made for it, which is put on the list `GlobalHoldQueue` and on a chain of the hash table
`sline_hold_table`, and the spam filter is asked. The entry goes when the filter answers, when
nobody has answered for a while, when the sender or the recipient exits, or when the channel is
destroyed.

An entry points to clients and to a channel, which live a life of their own. What is reached
through a pointer to freed memory has no value here: all functions are partial for that reason.
Where new memory lies is said by the event that asks for it. What the functions read from the rest
of the server is in `Env`, and need not be the same from one event to the next.

* `slineHoldAdd`, `slineHoldFree`: an entry is made, or taken off both lists and freed;
* `slineXreplyHandler`, `slineHoldTimeoutCallback`: the filter answers, or it does not;
* `slineCleanupClient`, `slineCleanupChannel`: what an entry points to goes away;
* `step`: everything that happens to the queue.

The book says what has become of each message.
-/

namespace Ircu.Sline

/-! ### Entries -/

/-- The commands a message comes with: `MSG_PRIVATE`, `MSG_NOTICE`, `MSG_WALLCHOPS`,
`MSG_WALLVOICES`. -/
inductive CmdType
  | privmsg
  | notice
  | wallchops
  | wallvoices
  deriving DecidableEq

/-- Whom a message is for. A message for a client is of type `SLINE_PRIVATE`, one for a channel of
type `SLINE_CHANNEL`. -/
inductive Target
  | recipient (p : ℕ)
  | channel (c : ℕ)
  deriving DecidableEq

inductive MsgType
  | slinePrivate
  | slineChannel
  deriving DecidableEq

/-- `struct HoldQueueEntry`, without its links. -/
structure Entry where
  token : ℕ
  cmdtype : CmdType
  sender : ℕ
  target : Target
  text : List UInt8
  captures : Option (List UInt8)
  timestamp : ℤ
  deriving DecidableEq

def Entry.references (e : Entry) (p : ℕ) : Bool := e.sender = p || e.target = .recipient p

inductive Status
  | user
  | server
  deriving DecidableEq

/-- A client: `cli_status` and `FLAG_SPAMHOLD`. -/
structure Client where
  status : Status
  spamHold : Bool
  deriving DecidableEq

/-- What members of a channel are left out: `SKIP_DEAF | SKIP_BURST` and no others, also
`SKIP_NONVOICES`, or also `SKIP_NONOPS`. -/
inductive Skip
  | deaf
  | nonVoices
  | nonOps
  deriving DecidableEq

/-- What is sent: `RPL_AWAY`, a message to a client or to a channel, the echo of one (`mark` if the
channel has an `@` before it), `ERR_NOSUCHNICK` or `ERR_CANNOTSENDTOCHAN`. -/
inductive Line
  | away (dest about : ℕ) (text : List UInt8)
  | message (cmd : CmdType) (sender dest : ℕ) (text : List UInt8)
  | channelMessage (cmd : CmdType) (sender channel : ℕ) (skip : Skip) (text : List UInt8)
  | echo (cmd : CmdType) (sender : ℕ) (mark : Bool) (dest : Target) (text : List UInt8)
  | noSuchNick (dest about : ℕ)
  | cannotSendToChan (dest channel : ℕ)
  deriving DecidableEq

/-- What a held message came to: it was delivered, or its sender was told that it was not. -/
inductive Outcome
  | delivered (lines : List Line)
  | blocked (line : Line)
  deriving DecidableEq

/-- Why a held message was dropped: it was released but cannot be delivered any more, it was
blocked but its sender is not one to be told, a client exited, or the channel was destroyed. -/
inductive Reason
  | undeliverable
  | untold
  | exited (p : ℕ)
  | destroyed (c : ℕ)
  deriving DecidableEq

/-- What the functions read elsewhere: the operators, the S-lines, the spam filter, who silences
whom, who is away, who has `CAP_ECHOMESSAGE`, who may send to a channel, the channels by name, the
time, and the settings of the timeout. -/
structure Env where
  isAnOper : ℕ → Bool
  slineIsEnabled : Bool
  checkPattern : List UInt8 → MsgType → Option (List UInt8)
  spamServer : Bool
  isSilenced : ℕ → ℕ → Bool
  away : ℕ → Option (List UInt8)
  echoMessage : ℕ → Bool
  canSend : ℕ → ℕ → Bool
  named : ℕ → Bool
  now : ℤ
  holdTimeout : ℤ
  holdTimeoutBlock : Bool

/-! ### The queue and the hash table -/

/-- The entries, `GlobalHoldQueue` with its links, `sline_hold_table` with its links,
`next_hold_token`, the clients and the channels there are, and what has happened to the messages.
`allocated` is how many entries there are. -/
structure State where
  entries : ℕ → Option Entry
  allocated : ℕ
  globalHoldQueue : Link.Links ℕ
  holdTable : Bucket.Buckets ℕ ℕ
  nextHoldToken : ℕ
  clients : ℕ → Option Client
  channels : ℕ → Bool
  book : List (Ledger.Posting Entry Outcome Reason)

def State.init : State where
  entries _ := none
  allocated := 0
  globalHoldQueue := .empty
  holdTable := .empty
  nextHoldToken := 1
  clients _ := none
  channels _ := false
  book := []

variable (s : State)

def State.turns : ℕ := s.allocated + 1

def State.post (posting : Ledger.Posting Entry Outcome Reason) : State :=
  { s with book := posting :: s.book }

def SLINE_HASH_SIZE : ℕ := 1024

def slineTokenHash (token : ℕ) : ℕ := token % SLINE_HASH_SIZE

/-- `SetSpamHold` and `ClearSpamHold`. -/
def State.setSpamHold (p : ℕ) (on : Bool) : Option State :=
  (s.clients p).map fun c =>
    { s with clients := Function.update s.clients p (some { c with spamHold := on }) }

def State.markHeld (sender : ℕ) (target : Target) : Option State :=
  (s.setSpamHold sender true).bind fun s =>
    match target with
    | .recipient p => s.setSpamHold p true
    | .channel _ => some s

def State.newEntry (env : Env) (sender : ℕ) (target : Target) (text : List UInt8)
    (captures : Option (List UInt8)) (cmdType : CmdType) : Entry where
  token := s.nextHoldToken
  cmdtype := cmdType
  sender := sender
  target := target
  text := text
  captures := captures
  timestamp := env.now

/-- A new entry at `a` is put at the head of the queue and of its chain. -/
def State.enlist (s : State) (a : ℕ) (e : Entry) : State :=
  { s with
    entries := Function.update s.entries a (some e)
    allocated := s.allocated + 1
    globalHoldQueue := s.globalHoldQueue.insertAt none a
    holdTable := s.holdTable.push (slineTokenHash e.token) a
    nextHoldToken := (s.nextHoldToken + 1) % 2 ^ 64
    book := .opened e.token e :: s.book }

/-- `sline_hold_add`, with new memory at `a`. -/
def slineHoldAdd (s : State) (env : Env) (a : ℕ) (sender : ℕ) (target : Target) (text : List UInt8)
    (captures : Option (List UInt8)) (cmdType : CmdType) : Option State :=
  (s.markHeld sender target).map fun s' =>
    s'.enlist a (s.newEntry env sender target text captures cmdType)

def State.referencedFrom (s : State) (p : ℕ) : ℕ → Option ℕ → Option Bool
  | 0, _ => none
  | _ + 1, none => some false
  | fuel + 1, some a =>
    match s.entries a with
    | none => none
    | some e =>
      if e.references p then some true
      else s.referencedFrom p fuel (s.globalHoldQueue.next a)

def slineCheckClearSpamhold (s : State) (p : ℕ) : Option State :=
  match s.clients p with
  | none => none
  | some c =>
    if c.spamHold then
      match s.referencedFrom p s.turns s.globalHoldQueue.head with
      | none => none
      | some true => some s
      | some false => s.setSpamHold p false
    else some s

def slineHoldUnlinkFree (s : State) (a : ℕ) : Option State :=
  match s.entries a with
  | none => none
  | some e =>
    (s.holdTable.remove s.turns (slineTokenHash e.token) a).map fun table =>
      { s with
        entries := Function.update s.entries a none
        allocated := s.allocated - 1
        globalHoldQueue := s.globalHoldQueue.unlink a
        holdTable := table }

variable (s : State)

def slineHoldFree (a : ℕ) : Option State :=
  match s.entries a with
  | none => none
  | some e =>
    (slineHoldUnlinkFree s a).bind fun s =>
      (slineCheckClearSpamhold s e.sender).bind fun s =>
        match e.target with
        | .recipient p => slineCheckClearSpamhold s p
        | .channel _ => some s

/-! ### Holding a message -/

/-- What `sline_check_privmsg` and `sline_check_chanmsg` have in common. The result also says
whether the message was held. -/
def slineCheck (msgtype : MsgType) (s : State) (env : Env) (a : ℕ) (sender : ℕ) (target : Target)
    (text : List UInt8) (cmdType : CmdType) : Option (State × Bool) :=
  if env.isAnOper sender || !env.slineIsEnabled then some (s, false)
  else
    match env.checkPattern text msgtype with
    | none => some (s, false)
    | some captures =>
      -- without the filter nobody would answer, and the message is delivered
      if !env.spamServer then some (s, false)
      else
        (slineHoldAdd s env a sender target text (some captures) cmdType).map fun s => (s, true)

def slineCheckPrivmsg (env : Env) (a : ℕ) (sender recipient : ℕ) (text : List UInt8)
    (cmdType : CmdType) : Option (State × Bool) :=
  slineCheck .slinePrivate s env a sender (.recipient recipient) text cmdType

def slineCheckChanmsg (env : Env) (a : ℕ) (sender channel : ℕ) (text : List UInt8)
    (cmdType : CmdType) : Option (State × Bool) :=
  slineCheck .slineChannel s env a sender (.channel channel) text cmdType

/-! ### Releasing and blocking -/

def slineFindHoldEntry (token : ℕ) : Option (Option ℕ) :=
  s.holdTable.findFrom (fun a => (s.entries a).map fun e => decide (e.token = token)) s.turns
    (s.holdTable.head (slineTokenHash token))

def slineReleasePrivmsg (env : Env) (e : Entry) (recipient : ℕ) :
    Option (Option (List Line)) :=
  (s.clients e.sender).bind fun c =>
    if c.status ≠ .user then some none
    else
      (s.clients recipient).map fun c =>
        if c.status ≠ .user ∨ env.isSilenced e.sender recipient then none
        else
          let cmd := if e.cmdtype = .notice then .notice else .privmsg
          some (((env.away recipient).map (Line.away e.sender recipient)).toList
            ++ [.message cmd e.sender recipient e.text]
            ++ if env.echoMessage e.sender then
                [.echo cmd e.sender false (.recipient recipient) e.text] else [])

def marked (mark : Char) (text : List UInt8) : List UInt8 := ch mark :: ch ' ' :: text

variable (env : Env)

def slineReleaseChanmsg (e : Entry) (channel : ℕ) :
    Option (Option (List Line)) :=
  (s.clients e.sender).bind fun c =>
    if c.status ≠ .user then some none
    else if !s.channels channel then none
    else if !env.named channel || !env.canSend e.sender channel then some none
    else
      let send (cmd echoCmd : CmdType) (skip : Skip) (mark : Bool) (text : List UInt8) :=
        [Line.channelMessage cmd e.sender channel skip text]
          ++ if env.echoMessage e.sender then
              [Line.echo echoCmd e.sender mark (.channel channel) text] else []
      some (some
        (match e.cmdtype with
        | .notice => send .notice .notice .deaf false e.text
        | .privmsg => send .privmsg .privmsg .deaf false e.text
        | .wallvoices => send .wallvoices .notice .nonVoices true (marked '+' e.text)
        | .wallchops => send .wallchops .notice .nonOps true (marked '@' e.text)))

def slineRelease (e : Entry) : Option (Option (List Line)) :=
  match e.target with
  | .recipient p => slineReleasePrivmsg s env e p
  | .channel c => slineReleaseChanmsg s env e c

def releasePosting (token : ℕ) : Option (List Line) → Ledger.Posting Entry Outcome Reason
  | some lines => .settled token (.delivered lines)
  | none => .dropped token .undeliverable

def slineReleaseHold (token : ℕ) : Option State :=
  match slineFindHoldEntry s token with
  | none => none
  | some none => some s
  | some (some a) =>
    (s.entries a).bind fun e =>
      (slineRelease s env e).bind fun sent =>
        slineHoldFree (s.post (releasePosting e.token sent)) a

def slineBlockMessage (e : Entry) : Option State :=
  (s.clients e.sender).bind fun c =>
    if c.status ≠ .user then some (s.post (.dropped e.token .untold))
    else
      match e.target with
      | .recipient p =>
        (s.clients p).map fun _ => s.post (.settled e.token (.blocked (.noSuchNick e.sender p)))
      | .channel c =>
        if s.channels c then
          some (s.post (.settled e.token (.blocked (.cannotSendToChan e.sender c))))
        else none

def isSpace (c : UInt8) : Bool := c = 32 || (9 ≤ c && c ≤ 13)

/-- `strtoull` in base ten. -/
def strtoull (text : List UInt8) : ℕ :=
  let text := text.dropWhile isSpace
  let negative := text.head? = some (ch '-')
  let digits := if negative || text.head? = some (ch '+') then text.tail else text
  let value := (readDecimal 0 digits).1
  if 2 ^ 64 ≤ value then 2 ^ 64 - 1
  else if negative then (2 ^ 64 - value) % 2 ^ 64
  else value

def slineXreplyHandler (token reply : List UInt8) : Option State :=
  let tokenNum := strtoull token
  if tokenNum = 0 ∧ token ≠ str "0" then some s
  else if sameText reply (str "YES") then
    match slineFindHoldEntry s tokenNum with
    | none => none
    | some none => some s
    | some (some _) => slineReleaseHold s env tokenNum
  else if sameText reply (str "NO") then
    match slineFindHoldEntry s tokenNum with
    | none => none
    | some none => some s
    | some (some a) =>
      (s.entries a).bind fun e =>
        (slineBlockMessage s e).bind fun s => slineHoldFree s a
  else some s

/-! ### Walks over the queue that take entries out -/

def sweep (kind : Entry → Bool) (body : State → ℕ → Entry → Option State) :
    ℕ → State → Option ℕ → Option State
  | 0, _, _ => none
  | _ + 1, s, none => some s
  | fuel + 1, s, some a =>
    match s.entries a with
    | none => none
    | some e =>
      let nextEntry := s.globalHoldQueue.next a
      if kind e then (body s a e).bind fun s => sweep kind body fuel s nextEntry
      else sweep kind body fuel s nextEntry

/-- The client other than `p` that an entry points to. -/
def Entry.other (e : Entry) (p : ℕ) : Option ℕ :=
  if e.sender = p then
    match e.target with
    | .recipient q => some q
    | .channel _ => none
  else some e.sender

def slineDropForClient (p : ℕ) (s : State) (a : ℕ) (e : Entry) : Option State :=
  (slineHoldUnlinkFree (s.post (.dropped e.token (.exited p))) a).bind fun s =>
    match e.other p with
    | some q => if q ≠ p then slineCheckClearSpamhold s q else some s
    | none => some s

def slineCleanupClient (s : State) (p : ℕ) : Option State :=
  (sweep (fun e => e.references p) (slineDropForClient p) s.turns s s.globalHoldQueue.head).bind
    fun s => s.setSpamHold p false

def slineCleanupChannel (s : State) (c : ℕ) : Option State :=
  sweep (fun e => e.target = .channel c)
    (fun s a e => slineHoldFree (s.post (.dropped e.token (.destroyed c))) a) s.turns s
    s.globalHoldQueue.head

def slineExpire (s : State) (a : ℕ) (e : Entry) : Option State :=
  if env.holdTimeoutBlock then (slineBlockMessage s e).bind fun s => slineHoldFree s a
  else slineReleaseHold s env e.token

def slineHoldTimeoutCallback (s : State) (env : Env) : Option State :=
  sweep (fun e => e.timestamp + env.holdTimeout ≤ env.now) (slineExpire env) s.turns s
    s.globalHoldQueue.head

/-! ### Clients and channels that go away -/

/-- `exit_one_client` (`s_misc.c`), as far as it concerns the queue. Only a user's entries are
cleaned up. -/
def exitOneClient (p : ℕ) : Option State :=
  (s.clients p).bind fun c =>
    (if c.status = .user ∧ c.spamHold then slineCleanupClient s p else some s).map fun s =>
      { s with clients := Function.update s.clients p none }

/-- `destruct_channel` (`channel.c`), as far as it concerns the queue. -/
def destructChannel (c : ℕ) : Option State :=
  (slineCleanupChannel s c).map fun s =>
    { s with channels := Function.update s.channels c false }

/-! ### Events -/

/-- What happens: a client connects, a channel is made, a message of a local user for another user,
for a channel or to `nick@server` is checked (`relay_private_message`, `relay_channel_message`,
`relay_directed_message` and their like), the spam filter answers, the timer runs off, a client
exits, a channel is destroyed. -/
inductive Event
  | connect (p : ℕ) (status : Status)
  | create (c : ℕ)
  | relayPrivate (env : Env) (a sptr acptr : ℕ) (text : List UInt8) (cmd : CmdType)
  | relayDirected (env : Env) (a sptr acptr : ℕ) (text : List UInt8) (cmd : CmdType)
  | relayChannel (env : Env) (a sptr chptr : ℕ) (text : List UInt8) (cmd : CmdType)
  | xreply (env : Env) (token reply : List UInt8)
  | timeout (env : Env)
  | exit (p : ℕ)
  | destruct (c : ℕ)

def step : Event → Option State
  | .connect p status =>
    some { s with clients := Function.update s.clients p (some ⟨status, false⟩) }
  | .create c => some { s with channels := Function.update s.channels c true }
  | .relayPrivate env a sptr acptr text cmd =>
    (slineCheckPrivmsg s env a sptr acptr text cmd).map Prod.fst
  | .relayDirected env a sptr acptr text cmd =>
    (slineCheckPrivmsg s env a sptr acptr text cmd).map Prod.fst
  | .relayChannel env a sptr chptr text cmd =>
    (slineCheckChanmsg s env a sptr chptr text cmd).map Prod.fst
  | .xreply env token reply => slineXreplyHandler s env token reply
  | .timeout env => slineHoldTimeoutCallback s env
  | .exit p => exitOneClient s p
  | .destruct c => destructChannel s c

def State.IsUser (p : ℕ) : Prop := ∃ c, s.clients p = some c ∧ c.status = .user

/-- What can happen in a state. New memory is where nothing is. A message comes from a client there
is, a user if it is a local one; `ms_privmsg` and its like may use `relay_directed_message` for a
server. The recipient was found by `FindUser`, the channel by `FindChannel`. -/
def Possible : Event → Prop
  | .connect p _ => s.clients p = none
  | .create c => s.channels c = false
  | .relayPrivate _ a sptr acptr _ _ => s.entries a = none ∧ s.IsUser sptr ∧ s.IsUser acptr
  | .relayDirected _ a sptr acptr _ _ =>
    s.entries a = none ∧ (s.clients sptr).isSome ∧ s.IsUser acptr
  | .relayChannel _ a sptr chptr _ _ => s.entries a = none ∧ s.IsUser sptr ∧ s.channels chptr
  | .xreply _ _ _ => True
  | .timeout _ => True
  | .exit p => (s.clients p).isSome
  | .destruct c => s.channels c

end Ircu.Sline
