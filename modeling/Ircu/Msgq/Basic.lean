import Ircu.Buffer.Parcel
import Ircu.Run.Basic

/-!
Outbound message queues: `msgq.c`, and the send paths of a connection.

A queue has two lists of messages, a normal one and a priority one. Each message knows
how many of its bytes have been sent. `msgqMapiov` lists what is to be written and
`msgqDelete` takes back what was written; between the two, the socket accepts as much as
it likes (`Res`). A TLS connection that is stopped within a message keeps a pointer to
the rest of it (`con_rexmit`), writes this rest before anything else, and then removes
the message by its identity (`msgqExcise`).

A failed assertion has no result. The pools of buffers and their reference counts are
left out: a buffer is its address and its text.
-/

namespace Ircu.Msgq

/-- `struct MsgBuf`. A message that is queued is not empty. -/
structure MsgBuf where
  addr : ℕ
  msg : List UInt8
  pos : 0 < msg.length

/-- `struct Msg`: a buffer and the number of its bytes that have been sent. -/
abbrev Msg := Parcel MsgBuf.msg

structure MsgQ where
  length : UInt32
  count : UInt32
  queue : List Msg
  prio : List Msg

def MsgQ.list (mq : MsgQ) : Bool → List Msg
  | false => mq.queue
  | true => mq.prio

def MsgQ.setList (mq : MsgQ) (ms : List Msg) : Bool → MsgQ
  | false => { mq with queue := ms }
  | true => { mq with prio := ms }

def msgqInit : MsgQ := { length := 0, count := 0, queue := [], prio := [] }

/-- Remove up to `length` bytes from the first message of a list. The queue and the number of bytes
left to remove. -/
def msgqDelmsg (mq : MsgQ) (prio : Bool) (length : ℕ) : Option (MsgQ × ℕ) :=
  match mq.list prio with
  | [] => none
  | m :: ms =>
    if h : length < m.left then
      some ({ mq.setList (m.add length h :: ms) prio with
        length := mq.length - .ofNat length }, 0)
    else
      some ({ mq.setList ms prio with
        length := mq.length - .ofNat m.left, count := mq.count - 1 }, length - m.left)

def headSent : List Msg → Bool
  | [] => false
  | m :: _ => 0 < m.sent

/-- The loop of `msgq_delete`. Every round but the last removes a message, so one more
round than there are messages is enough. -/
def msgqDeleteLoop : ℕ → ℕ → MsgQ → Option MsgQ
  | 0, length, mq => if length = 0 then some mq else none
  | n + 1, length, mq =>
    if length = 0 then some mq
    else if headSent mq.queue then
      (msgqDelmsg mq false length).bind fun r => msgqDeleteLoop n r.2 r.1
    else if mq.prio ≠ [] then
      (msgqDelmsg mq true length).bind fun r => msgqDeleteLoop n r.2 r.1
    else if mq.queue ≠ [] then
      (msgqDelmsg mq false length).bind fun r => msgqDeleteLoop n r.2 r.1
    else some mq

variable (mq : MsgQ)

def msgqDelete (length : ℕ) : Option MsgQ :=
  msgqDeleteLoop (mq.queue.length + mq.prio.length + 1) length mq

/-- `struct iovec`: a pointer into a buffer and the bytes it leads to. -/
structure Iov where
  addr : ℕ
  off : ℕ
  bytes : List UInt8

def iovRest (m : Msg) : Iov := ⟨m.item.addr, m.sent, m.rest⟩

def iovWhole (m : Msg) : Iov := ⟨m.item.addr, 0, m.item.msg⟩

def partialIov : List Msg → List Iov
  | [] => []
  | m :: _ => if 0 < m.sent then [iovRest m] else []

def wholeFrom : List Msg → List Msg
  | [] => []
  | m :: ms => if 0 < m.sent then ms else m :: ms

/-- Partial messages first, then the priority list, then the normal one, until `count` vectors are
filled. -/
def msgqMapiov (count : ℕ) : List Iov :=
  if mq.length < 1 then []
  else
    (partialIov mq.queue ++ partialIov mq.prio ++ (wholeFrom mq.prio).map iovWhole ++
      (wholeFrom mq.queue).map iovWhole).take count

def msgqAdd (mb : MsgBuf) (prio : Bool) : MsgQ :=
  { mq.setList (mq.list prio ++ [⟨mb, 0, mb.pos⟩]) prio with
    length := mq.length + .ofNat mb.msg.length, count := mq.count + 1 }

/-- Remove the first message of a list if the pointer leads into its buffer. -/
def msgqlistExcise (prio : Bool) (addr off : ℕ) : Option MsgQ :=
  match mq.list prio with
  | [] => none
  | m :: _ =>
    if m.item.addr = addr ∧ off < m.item.msg.length then
      (msgqDelmsg mq prio m.left).map fun r => r.1
    else none

def msgqExcise (addr off : ℕ) : Option MsgQ :=
  (msgqlistExcise mq false addr off).or (msgqlistExcise mq true addr off)

/-! ### Connections -/

/-- What the socket makes of a write: it takes some bytes, it is full, or it is
broken. -/
inductive Res where
  | wrote (n : ℕ)
  | blocked
  | failure

inductive Io where
  | success
  | blocked
  | failure
  deriving DecidableEq

/-- The sending side of a connection. `iovMax` is the platform's `IOV_MAX`, `wire` is what has
been written to the socket so far, and `added` what has been queued, with its
priority. -/
structure Conn where
  iovMax : ℕ
  tls : Bool
  dead : Bool
  sendQ : MsgQ
  rexmit : Option Iov
  wire : List UInt8
  added : List (Bool × MsgBuf)

def start (iovMax : ℕ) (tls : Bool) : Conn :=
  { iovMax := iovMax, tls := tls, dead := false, sendQ := msgqInit, rexmit := none, wire := []
    added := [] }

/-- The size of the vector in `ircd_tls_sendv`. -/
def TLS_IOV : ℕ := 512

variable (c : Conn)

def osSendvNonb (rs : List Res) : Conn × ℕ × Io :=
  match rs.head? with
  | some (.wrote n) =>
    let out := ((msgqMapiov c.sendQ c.iovMax).flatMap Iov.bytes).take n
    ({ c with wire := c.wire ++ out }, out.length, .success)
  | some .failure => (c, 0, .failure)
  | _ => (c, 0, .blocked)

/-- What writing a vector to TLS leads to: the bytes accepted, what is left in the
vector where it stopped, and the results not yet used. -/
structure Written where
  out : List UInt8
  left : Option Iov
  io : Io
  rs : List Res

/-- The writes of one vector until it is empty or the socket stops. `SSL_write` accepts
a byte at least, and no more than it was given. -/
def drain : List Res → Iov → Written
  | [], v => ⟨[], some v, .blocked, []⟩
  | .blocked :: rs, v => ⟨[], some v, .blocked, rs⟩
  | .failure :: rs, v => ⟨[], some v, .failure, rs⟩
  | .wrote n :: rs, v =>
    let k := max 1 (min n v.bytes.length)
    if k = v.bytes.length then ⟨v.bytes, none, .success, rs⟩
    else
      let r := drain rs ⟨v.addr, v.off + k, v.bytes.drop k⟩
      { r with out := v.bytes.take k ++ r.out }

/-- The loop over the vectors. A vector of which nothing was accepted is kept for later
like one that was accepted in part. -/
def sendIovs : List Iov → List Res → Written
  | [], rs => ⟨[], none, .success, rs⟩
  | v :: vs, rs =>
    let r := drain rs v
    if r.io = .success then
      let r' := sendIovs vs r.rs
      { r' with out := r.out ++ r'.out }
    else r

variable (rs : List Res)

/-- The first half of `ircd_tls_sendv`: what an earlier write left unfinished. Its bytes
are not counted, and the message is removed by its identity. -/
def tlsResume : Option (Conn × Io × List Res) :=
  match c.rexmit with
  | none => some (c, .success, rs)
  | some v =>
    let r := drain rs v
    let c := { c with wire := c.wire ++ r.out, rexmit := r.left }
    if r.io = .success then
      (msgqExcise c.sendQ v.addr v.off).map fun mq => ({ c with sendQ := mq }, .success, r.rs)
    else some (c, r.io, r.rs)

/-- The second half: the messages of the queue. After a failure nothing is counted. -/
def tlsSendQueue : Conn × ℕ × Io :=
  let r := sendIovs (msgqMapiov c.sendQ TLS_IOV) rs
  ({ c with wire := c.wire ++ r.out, rexmit := r.left },
    if r.io = .failure then 0 else r.out.length, r.io)

def ircdTlsSendv : Option (Conn × ℕ × Io) :=
  (tlsResume c rs).map fun r =>
    if r.2.1 = .success then tlsSendQueue r.1 r.2.2 else (r.1, 0, r.2.1)

/-- The end of `deliver_it`: a failure marks the socket as dead. -/
def markDead (r : Conn × ℕ × Io) : Conn × ℕ :=
  ({ r.1 with dead := r.1.dead || r.2.2 = .failure }, r.2.1)

def deliverIt : Option (Conn × ℕ) :=
  (if c.tls then ircdTlsSendv c rs else some (osSendvNonb c rs)).map markDead

def deadLink : Option Conn :=
  (msgqDelete c.sendQ c.sendQ.length.toNat).map fun mq =>
    { c with dead := true, sendQ := mq, rexmit := none }

/-- The end of a round of `send_queued`: what was accepted is taken back, or a link that
is dead is given up. -/
def settle (r : Conn × ℕ) : Option Conn :=
  if 0 < r.2 then (msgqDelete r.1.sendQ r.2).map fun mq => { r.1 with sendQ := mq }
  else if r.1.dead then deadLink r.1 else some r.1

def sendQueued : Option Conn :=
  if c.dead ∨ c.sendQ.length = 0 then some c else (deliverIt c rs).bind settle

/-- What happens to a connection: a message is sent to it, its queue is flushed, or its
link is given up. -/
inductive Op where
  | add (mb : MsgBuf) (prio : Bool)
  | send (rs : List Res)
  | deadLink

/-- One operation. Nothing is queued for a dead socket (`can_send`). -/
def step : Op → Option Conn
  | .add mb prio =>
    if c.dead then some c
    else some { c with sendQ := msgqAdd c.sendQ mb prio, added := c.added ++ [(prio, mb)] }
  | .send rs => sendQueued c rs
  | .deadLink => Msgq.deadLink c

end Ircu.Msgq
