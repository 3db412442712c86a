import Ircu.Cache.Basic
import Ircu.MsgTag.Format
import Ircu.Nest.Basic

/-!
What the clients see of the batches of a server.

The world is the contexts and everything that has been sent to clients. An event is a call
of `label_begin`, `label_end`, `batch_out_open` or `batch_out_close`, the begin, a piece and
the end of a long message, a message, or the exit of a client, in any order.

A message to several clients keeps the label and the batch of the last one, as part of its
prefix, in the `TagSendCache` of `send.c`, and the next one with the same profile gets them too.
-/

namespace Ircu.Batch

open MsgTag

inductive Body where
  /-- The line that opens a labelled response. -/
  | opensLabeled (id : Text BATCHIDLEN)
  /-- The line that opens another batch. -/
  | opens (id : Text BATCHIDLEN)
  | closes (id : Text BATCHIDLEN)
  | ack
  | message
deriving DecidableEq

/-- What a line says of the answer and the batch that it belongs to. -/
abbrev Within := Option (Text LABELLEN) × Option (Text BATCHIDLEN)

/-- What `tagsendcache_init_cmd` finds out about a message: whether it has client-only tags to
relay, and its identifier. -/
structure Heading where
  relay : Bool
  msgid : Option (Text MSGIDLEN)

structure Line where
  body : Body
  label : Option (Text LABELLEN)
  batch : Option (Text BATCHIDLEN)
deriving DecidableEq

/-- The world. `gone` are the clients that have left. The last two fields are only kept to
speak about: the clients that a long message has been opened to, and the labels of the
labelled commands so far. -/
structure World (κ : Type) where
  ctx : Ctx κ
  log : List (κ × Line)
  gone : List κ
  fanTo : List κ
  begun : List (κ × Text LABELLEN)

inductive Event (κ : Type) where
  | labelBegin (cptr : κ) (label : List UInt8)
  | labelEnd
  | send (hd : Heading) (dsts : List κ)
  | outOpen (dst : κ)
  | outClose (dst : κ)
  /-- A long message begins; the local members of its channel, or its recipient. -/
  | fanOpen (hd : Heading) (members : List κ)
  | piece (concat : Bool) (hd : Heading) (dsts : List κ)
  | fanClose (hd : Heading) (members : List κ)
  | exit (cptr : κ)

section

variable {κ : Type} [DecidableEq κ] (peers : κ → Peer)

def World.init : World κ := ⟨.init, [], [], [], []⟩

def World.queue (w : World κ) (dst : κ) (body : Body) (v : Within) : World κ :=
  { w with log := w.log ++ [(dst, ⟨body, v.1, v.2⟩)] }

/-- A line is queued, with the tags that `msg_tag_format` gives it. -/
def emit (dst : κ) (body : Body) (w : World κ) : World κ :=
  w.queue dst body (batchView peers w.ctx dst)

/-- `label_before_send`: the line that opens the batch goes out first. -/
def openLabel (dst : κ) (w : World κ) : World κ :=
  if LabelPending w.ctx dst then
    { emit peers dst (.opensLabeled w.ctx.nextId) { w with ctx := labelOpening w.ctx } with
      ctx := labelBeforeSend w.ctx dst }
  else w

/-- `send_buffer` without a cache. -/
def sendBuffer (dst : κ) (body : Body) (w : World κ) : World κ :=
  if dst ∈ w.gone ∨ (peers dst).isServer then w else emit peers dst body (openLabel peers dst w)

/-- `send_buffer` for one client after the other, with a cache. -/
def sendAll (hd : Heading) (body : Body) : List κ → Option (Profile × Within) → World κ → World κ
  | [], _, w => w
  | dst :: dsts, cache, w =>
    if dst ∈ w.gone ∨ (peers dst).isServer then sendAll hd body dsts cache w
    else
      let w := openLabel peers dst w
      let v := batchView peers w.ctx dst
      if hd.relay then sendAll hd body dsts cache (w.queue dst body v)
      else
        let r := Cache.lookup cache (msgTagProfile peers w.ctx dst hd.msgid) v
        sendAll hd body dsts (some r.1) (w.queue dst body r.2)

def doLabelBegin (cptr : κ) (label : List UInt8) (w : World κ) : World κ :=
  { w with
    ctx := labelBegin peers w.ctx cptr label
    begun :=
      if canLabel peers cptr label then w.begun ++ [(cptr, .copy LABELLEN label)] else w.begun }

def doLabelEnd (w : World κ) : World κ :=
  match w.ctx.label.client with
  | none => w
  | some dst =>
    let w :=
      if w.ctx.label.isOpen then
        sendBuffer peers dst (.closes w.ctx.label.batch) { w with ctx := labelClosing w.ctx }
      else sendBuffer peers dst .ack { w with ctx := labelAcking w.ctx }
    { w with ctx := { w.ctx with label := .clear } }

def doOutOpen (dst : κ) (w : World κ) : World κ :=
  if (peers dst).myConnect ∧ ¬(peers dst).isServer ∧ (peers dst).caps.batch ∧ ¬w.ctx.out.isOpen then
    let w := sendBuffer peers dst (.opens w.ctx.nextId) { w with ctx := outOpening w.ctx dst }
    { w with ctx := { w.ctx with out := { w.ctx.out with emitting := false } } }
  else w

def doOutClose (dst : κ) (w : World κ) : World κ :=
  if w.ctx.out.isOpen ∧ w.ctx.out.client = some dst then
    let w := sendBuffer peers dst (.closes w.ctx.out.id) { w with ctx := outClosing w.ctx }
    { w with ctx := { w.ctx with out := .clear } }
  else w

variable (members : List κ)

/-- The clients that the lines around a long message go to. -/
def recipients : List κ :=
  members.filter fun m => (peers m).myConnect && (peers m).caps.multiline

/-- The clients of a list that `send_buffer` does not leave out. -/
def reached (gone dsts : List κ) : List κ := dsts.filter fun d => d ∉ gone ∧ ¬(peers d).isServer

def doFanOpen (hd : Heading) (w : World κ) : World κ :=
  let w :=
    sendAll peers hd (.opens w.ctx.nextId) (recipients peers members) none
      { w with ctx := fanOpening w.ctx }
  { w with
    ctx := { w.ctx with fanout := { w.ctx.fanout with emitting := false } }
    fanTo := reached peers w.gone (recipients peers members) }

/-- The contexts while a piece is sent. -/
def continuing (x : Ctx κ) (concat : Bool) : Ctx κ :=
  { x with fanout := { x.fanout with concat := concat } }

def doPiece (concat : Bool) (hd : Heading) (dsts : List κ) (w : World κ) : World κ :=
  sendAll peers hd .message dsts none { w with ctx := continuing w.ctx concat }

variable (w : World κ)

def doFanClose (hd : Heading) : World κ :=
  if w.ctx.fanout.isOpen then
    let w :=
      sendAll peers hd (.closes w.ctx.fanout.id) (recipients peers members) none
        { w with ctx := fanClosing w.ctx }
    { w with ctx := { w.ctx with fanout := .clear }, fanTo := [] }
  else w

/-- `batch_client_exiting`, and the client is gone. -/
def doExit (cptr : κ) (w : World κ) : World κ :=
  { w with
    ctx :=
      { w.ctx with
        out := if w.ctx.out.client = some cptr then .clear else w.ctx.out
        label := if w.ctx.label.client = some cptr then .clear else w.ctx.label }
    gone := cptr :: w.gone
    fanTo := w.fanTo.filter (· ≠ cptr) }

def step : Event κ → World κ
  | .labelBegin cptr label => doLabelBegin peers cptr label w
  | .labelEnd => doLabelEnd peers w
  | .send hd dsts => sendAll peers hd .message dsts none w
  | .outOpen dst => doOutOpen peers dst w
  | .outClose dst => doOutClose peers dst w
  | .fanOpen hd members => doFanOpen peers members hd w
  | .piece concat hd dsts => doPiece peers concat hd dsts w
  | .fanClose hd members => doFanClose peers members w hd
  | .exit cptr => doExit cptr w

def run (evs : List (Event κ)) : World κ := evs.foldl (step peers) .init

/-! ### What a client sees -/

def World.seen (c : κ) : List Line :=
  w.log.filterMap fun e => if e.1 = c then some e.2 else none

end

def Line.entry (l : Line) : Nest.Entry (Text BATCHIDLEN) :=
  ⟨match l.body with
    | .opensLabeled id => .opens id
    | .opens id => .opens id
    | .closes id => .closes id
    | .ack => .inside
    | .message => .inside, l.batch⟩

section

variable {κ : Type} [DecidableEq κ] (peers : κ → Peer)

def Live (gone : List κ) (c : κ) : Prop :=
  c ∉ gone ∧ (peers c).isServer = false ∧ (peers c).caps.batch = true

instance (gone : List κ) (c : κ) : Decidable (Live peers gone c) :=
  inferInstanceAs (Decidable (_ ∧ _))

variable (x : Ctx κ)

/-- The batch of a command, if it is open to a client and not sending a line of its own. -/
def outView (c : κ) : List (Text BATCHIDLEN) :=
  if x.out.isOpen ∧ ¬x.out.emitting ∧ x.out.client = some c then [x.out.id] else []

def labelView (c : κ) : List (Text BATCHIDLEN) :=
  if x.label.isOpen ∧ ¬x.label.emitting ∧ x.label.client = some c then [x.label.batch] else []

def fanView (fanTo : List κ) (c : κ) : List (Text BATCHIDLEN) :=
  if x.fanout.isOpen ∧ ¬x.fanout.emitting ∧ c ∈ fanTo then [x.fanout.id] else []

/-- The batches that are open to a client, the innermost first, if the one of a command is
within the one of a label, and that within the one of a long message. -/
def view (fanTo : List κ) (c : κ) : List (Text BATCHIDLEN) :=
  outView x c ++ labelView x c ++ fanView x fanTo c

def pending (c : κ) : List (Text LABELLEN) :=
  if x.label.client = some c ∧ x.label.isOpen = false then [x.label.label] else []

def World.commands (w : World κ) (c : κ) : List (Text LABELLEN) :=
  w.begun.filterMap fun e => if e.1 = c then some e.2 else none

/-- **What a client should see**: well-nested batches, each line in the innermost one; labels
only on lines that open a labelled response and on bare ACKs, one for each labelled command
that has been answered. -/
structure Orderly (w : World κ) (c : κ) : Prop where
  nested : Nest.read ((w.seen c).map Line.entry) = some (view w.ctx w.fanTo c)
  labeled : ∀ l ∈ w.seen c, l.label.isSome → l.body = .ack ∨ ∃ id, l.body = .opensLabeled id
  once : (w.seen c).filterMap (·.label) ++ pending w.ctx c = w.commands c

/-! ### The order of calls -/

/-- The batch of a long message has been opened to the client, if that is what the client is
told. -/
def Fenced (w : World κ) (c : κ) : Prop :=
  (peers c).caps.batch = true → w.ctx.fanout.isOpen = true → hasMultiline peers c = true →
    c ∈ w.fanTo

instance (w : World κ) (c : κ) : Decidable (Fenced peers w c) :=
  inferInstanceAs (Decidable (_ → _))

def LabelOpen (w : World κ) (c : κ) : Prop :=
  w.ctx.label.isOpen = true ∧ w.ctx.label.client = some c

instance (w : World κ) (c : κ) : Decidable (LabelOpen w c) := inferInstanceAs (Decidable (_ ∧ _))

/-- The client is not told of the batch of a long message that it has not seen opened. -/
def Covered (w : World κ) (c : κ) : Prop :=
  Fenced peers w c ∨ LabelOpen w c ∨ w.ctx.out.client = some c

instance (w : World κ) (c : κ) : Decidable (Covered peers w c) :=
  inferInstanceAs (Decidable (_ ∨ _))

/-- Neither a label nor a command has a batch for the client, open or about to be. -/
def Free (w : World κ) (c : κ) : Prop := w.ctx.label.client ≠ some c ∧ w.ctx.out.client ≠ some c

instance (w : World κ) (c : κ) : Decidable (Free w c) := inferInstanceAs (Decidable (_ ∧ _))

/-- The profiles of the clients that a message goes to, each with the label and the batch that the
client is told of at that time. -/
def asked (gone : List κ) (hd : Heading) : Ctx κ → List κ → List (Profile × Within)
  | _, [] => []
  | x, dst :: dsts =>
    if dst ∈ gone ∨ (peers dst).isServer then asked gone hd x dsts
    else
      let x := labelBeforeSend x dst
      (msgTagProfile peers x dst hd.msgid, batchView peers x dst) :: asked gone hd x dsts

/-- The cache can be used: the message has client-only tags to relay, or clients that are served one
after the other with the same profile are told of the same label and batch. -/
def Alike (gone : List κ) (hd : Heading) (x : Ctx κ) (dsts : List κ) : Prop :=
  hd.relay = true ∨ (asked peers gone hd x dsts).IsChain fun a b => a.1 = b.1 → a.2 = b.2

instance (gone : List κ) (hd : Heading) (x : Ctx κ) (dsts : List κ) :
    Decidable (Alike peers gone hd x dsts) :=
  inferInstanceAs (Decidable (_ ∨ _))

/-- A call that keeps the order in which `batchCurrent` asks: long messages outermost, then
labels, then commands.

* A label begins when no other is in force, and its sender has no batch of a command.
  Neither of the two begins for a client that has left.
* A label ends when the batch of a command within it has been closed.
* While a long message is being sent, the clients with the capability for it that get
  something else have been sent the line that opened it, or are in a batch of their own.
* A message to several clients can use the cache.
* The line that opens a long message, and the one that closes it, go to the same clients, and
  no label and no command has a batch for one of them at that time. -/
def Safe (w : World κ) : Event κ → Prop
  | .labelBegin cptr _ => w.ctx.label.client = none ∧ w.ctx.out.client ≠ some cptr ∧ cptr ∉ w.gone
  | .labelEnd =>
    ∀ c ∈ w.ctx.label.client, w.ctx.out.client ≠ some c ∧ Fenced peers w c
  | .send hd dsts => (∀ d ∈ dsts, Covered peers w d) ∧ Alike peers w.gone hd w.ctx dsts
  | .outOpen dst => dst ∉ w.gone ∧ (Fenced peers w dst ∨ LabelOpen w dst)
  | .outClose dst => Fenced peers w dst ∨ LabelOpen w dst
  | .fanOpen _ members =>
    w.ctx.fanout.isOpen = false ∧ (recipients peers members).Nodup ∧
      ∀ r ∈ recipients peers members, Free w r
  | .piece concat hd dsts =>
    (∀ d ∈ dsts, Covered peers w d) ∧ Alike peers w.gone hd (continuing w.ctx concat) dsts
  | .fanClose _ members =>
    w.ctx.fanout.isOpen = true →
      (recipients peers members).Nodup ∧ (∀ r ∈ recipients peers members, Free w r) ∧
        (∀ r ∈ recipients peers members, r ∈ w.gone ∨ (peers r).isServer ∨ r ∈ w.fanTo) ∧
        ∀ r ∈ w.fanTo, r ∈ recipients peers members
  | .exit _ => True

instance (w : World κ) (ev : Event κ) : Decidable (Safe peers w ev) := by
  cases ev <;> unfold Safe <;> infer_instance

def SafeRun (w : World κ) : List (Event κ) → Prop
  | [] => True
  | ev :: evs => Safe peers w ev ∧ SafeRun (step peers w ev) evs

instance decidableSafeRun : (w : World κ) → (evs : List (Event κ)) → Decidable (SafeRun peers w evs)
  | _, [] => inferInstanceAs (Decidable True)
  | w, ev :: evs =>
    have := decidableSafeRun (step peers w ev) evs
    inferInstanceAs (Decidable (_ ∧ _))

end

end Ircu.Batch
