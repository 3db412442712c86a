import Ircu.Text.Cursor
import Ircu.MsgTag.Basic

/-!
`parse_server` of `parse.c`: a line from a server, taken apart.

The line is read through pointers (`Cursor`), so the buffer is the list of all bytes
from the line to the end of the array, those left behind the terminator included. A
read off the end has no result. The tables in which senders and commands are looked
up are parameters (`Net`); the counters of the statistics are left out.
-/

namespace Ircu.Parse

open Cursor MsgTag

def MAXPARA : ℕ := 15

inductive MessageTree (μ : Type) where
  | node (msg : Option μ) (pointers : Fin 32 → Option (MessageTree μ))

/-- `msg_tree_parse`, on the command as a string. -/
def msgTreeParse {μ : Type} : List UInt8 → MessageTree μ → Option μ
  | [], .node msg _ => msg
  | c :: cmd, .node _ pointers =>
    if isCommand c then (pointers ⟨c.toNat % 32, Nat.mod_lt _ (by decide)⟩).bind (msgTreeParse cmd)
    else none

/-- What `parse_server` looks things up in: the connection `cptr`, the clients by
their name and their numeric, and the commands. -/
structure Net (κ μ : Type) where
  cptr : κ
  isDead : κ → Bool
  cliName : κ → List UInt8
  cliFrom : κ → κ
  seekClient : List UInt8 → Option κ
  findNServer : List UInt8 → Option κ
  findNUser : List UInt8 → Option κ
  tokTree : MessageTree μ
  msgTree : MessageTree μ
  parameters : μ → ℕ

/-- What becomes of a line in the end: nothing but a return value, a numeric for
`do_numeric`, or a command for `parse_dispatch`. -/
inductive Final (κ μ : Type) where
  | ret (code : ℤ)
  | numeric (n : ℤ) (nnn : Bool) (sender : κ) (parv : List (List UInt8))
  | command (mptr : μ) (sender : κ) (parv : List (List UInt8))
  deriving DecidableEq

/-- Everything a line leads to: the tags it sets (`current_tags`; on a dead connection none are set,
and those before stay), the report of a missing prefix, a KILL for an unknown numeric nick, and the
end. -/
structure Outcome (κ μ : Type) where
  tags : List Tag
  violation : Bool
  kill : Option (List UInt8)
  final : Final κ μ
  deriving DecidableEq

/-- Where the prefix of a line has led: an end, or the sender and the rest of the
line. -/
inductive Sender (κ : Type) where
  | ret (code : ℤ)
  | found (sender : κ) (name : List UInt8) (ch : List UInt8)

/-! ### Tags -/

/-- The loop over leading blanks, which stops at `bufend`, `n` bytes ahead. -/
def skipLeading : ℕ → List UInt8 → Option (ℕ × List UInt8)
  | 0, s => some (0, s)
  | _ + 1, [] => none
  | n + 1, c :: s => if c = ch ' ' then skipLeading n s else some (n + 1, c :: s)

/-- The loop of `parse_msg_tags`: the bytes in front of the space, and what is behind
it if it comes before `bufend`. -/
def tagEnd : ℕ → List UInt8 → Option (List UInt8 × Option (List UInt8))
  | 0, _ => some ([], none)
  | _ + 1, [] => none
  | n + 1, c :: s =>
    if c = ch ' ' then some ([], some s) else (tagEnd n s).map fun r => (c :: r.1, r.2)

/-- The tags and the rest of the line. Without a space behind the tags, no tags and no rest. -/
def parseMsgTags (n : ℕ) (s : List UInt8) : Option (List Tag × Option (List UInt8)) := do
  let c ← s.head?
  if c ≠ ch '@' then some ([], some s)
  else
    let r ← tagEnd n s
    match r.2 with
    | none => some ([], none)
    | some rest => some (msgTagParse r.1.tail, some rest)

section

variable {κ μ : Type} [DecidableEq κ] (net : Net κ μ)

/-! ### The prefix -/

/-- No client has the empty name. -/
def Net.findClient (name : List UInt8) : Option κ :=
  if name = [] then none else net.seekClient name

def unknownName (s : List UInt8) : Option (Sender κ) := do
  let s ← skip (ch ' ') s
  let c ← s[1]?
  some (if c = ch 'Q' then .found net.cptr (net.cliName net.cptr) s else .ret 0)

def colonPrefix (s : List UInt8) : Option (Sender κ) := do
  let r ← strchr 0 (ch ' ') s
  match r.2 with
  | none => some (.ret (-1))
  | some s =>
    match net.findClient r.1.tail with
    | none => unknownName net s
    | some sender =>
      some (if net.cliFrom sender ≠ net.cptr then .ret 0 else .found sender r.1.tail s)

/-- The loop that copies `numeric_prefix`. -/
def copyPrefix : ℕ → List UInt8 → Option (List UInt8)
  | 0, _ => some []
  | _ + 1, [] => none
  | n + 1, c :: s => if c = 0 ∨ c = ch ' ' then some [] else (copyPrefix n s).map (c :: ·)

/-- The sender of a numeric prefix: a server if a space is behind the first or the
second byte, otherwise a user. -/
def findNumeric (numericPrefix s : List UInt8) : Option (Option κ) := do
  let c ← s[1]?
  if c = ch ' ' then some (net.findNServer numericPrefix)
  else
    let d ← s[2]?
    if d = ch ' ' then some (net.findNServer numericPrefix)
    else some (net.findNUser numericPrefix)

/-- Whether a nick change of an unknown user is answered with a KILL, which needs
its server. -/
def killUnknown (numericPrefix s : List UInt8) : Option Bool := do
  let c ← s[0]?
  if c = ch 'N' then
    let d ← s[1]?
    some ((d = ch ' ' || d = ch 'I') &&
      (net.findNServer numericPrefix).any fun server => net.cliFrom server = net.cptr)
  else some false

def passUnknown (s : List UInt8) : Option Bool := do
  let c ← s[0]?
  let d ← s[1]?
  if d = ch 'Q' ∨ c = ch 'D' ∧ d = ch ' ' then some true
  else if c = ch 'K' then
    let e ← s[2]?
    some (e = ch 'L')
  else some false

/-- The end of the prefix: the sender's messages have to come over this
connection. -/
def checkDirection (sender : κ) (s : List UInt8) : Sender κ :=
  if net.cliFrom sender ≠ net.cptr then .ret 0 else .found sender (net.cliName sender) s

def unknownNumeric (p s : List UInt8) : Option (Option (List UInt8) × Sender κ) := do
  let s ← skip (ch ' ') s
  let kill ← killUnknown net p s
  let pass ← passUnknown s
  some (if kill then some p else none, if pass then checkDirection net net.cptr s else .ret 0)

/-- The sender a numeric prefix stands for. A missing prefix stands for the connection
itself. -/
def prefixSender (p s : List UInt8) : Option (Option κ) :=
  if p = [] then some (some net.cptr) else findNumeric net p s

/-- What follows from the sender, with `s` behind the prefix. -/
def takeSender (p : List UInt8) (s : List UInt8) : Option κ →
    Option (Option (List UInt8) × Sender κ)
  | some sender => some (none, checkDirection net sender s)
  | none => unknownNumeric net p s

def numericPrefix (s : List UInt8) : Option (Bool × Option (List UInt8) × Sender κ) := do
  let p ← copyPrefix 5 s
  let sender ← prefixSender net p s
  -- the first byte is passed without a look at it
  let r ← word 0 (ch ' ') s.tail
  let x ← takeSender net p r.2 sender
  some (p = [], x)

def parsePrefix (s : List UInt8) : Option (Bool × Option (List UInt8) × Sender κ) := do
  let c ← s.head?
  if c = ch ':' then (colonPrefix net s).map (false, none, ·) else numericPrefix net s

/-! ### Command and parameters -/

/-- The head of the loop over the parameters: blanks are cleaned out, and a colon
takes the rest of the line. The last parameters, or where the next one begins. A
numeric keeps the colon. -/
def nextParameter (numeric : Bool) (s : List UInt8) :
    Option (List (List UInt8) ⊕ List UInt8) := do
  let s ← skip (ch ' ') s
  let c ← s.head?
  if c = 0 then some (.inl [])
  else if c = ch ':' then
    let last ← text 0 (if numeric then s else s.tail)
    some (.inl [last])
  else some (.inr s)

/-- The loop over the parameters, `n` more of which may follow the next one. The last
of them takes the rest of the line. -/
def parameters (numeric : Bool) : ℕ → List UInt8 → Option (List (List UInt8))
  | 0, s =>
    (nextParameter numeric s).bind fun
      | .inl last => some last
      | .inr s => (text 0 s).map fun last => [last]
  | n + 1, s =>
    (nextParameter numeric s).bind fun
      | .inl last => some last
      | .inr s =>
        (word 0 (ch ' ') s).bind fun r => (parameters numeric n r.2).map (r.1 :: ·)

def charValue (c : UInt8) : ℤ := if c < 128 then c.toNat else c.toNat - 256

/-- The parameters behind a command, of which there are `paramcount` at most. -/
def parv (numeric : Bool) (name : List UInt8) (paramcount : ℕ) :
    Option (List UInt8) → Option (List (List UInt8))
  | none => some [name]
  | some s => (parameters numeric (min paramcount MAXPARA - 1) s).map (name :: ·)

def numericValue : List UInt8 → ℤ
  | [a, b, c] => (charValue a - 48) * 100 + (charValue b - 48) * 10 + (charValue c - 48)
  | _ => 0

/-- The command `cmd` and its parameters, which begin at `s` if there are any. Three
bytes that begin with a digit are a numeric. -/
def dispatch (nnn : Bool) (sender : κ) (name cmd : List UInt8) (s : Option (List UInt8)) :
    Option (Final κ μ) :=
  if s.isSome ∧ cmd.length = 3 ∧ cmd.head?.any isDigit then
    let n := numericValue cmd
    if n < 1 ∨ 999 < n then some (.ret (-1))
    else (parv true name 2 s).map (.numeric n nnn sender)
  else
    match (msgTreeParse cmd net.tokTree).or (msgTreeParse cmd net.msgTree) with
    | none => some (.ret (-1))
    | some mptr => (parv false name (net.parameters mptr) s).map (.command mptr sender)

/-- The part of `parse_server` behind the prefix. -/
def command (nnn : Bool) (sender : κ) (name s : List UInt8) : Option (Final κ μ) := do
  let s ← skip (ch ' ') s
  let c ← s.head?
  if c = 0 then some (.ret (-1))
  else
    let r ← strchr 0 (ch ' ') s
    dispatch net nnn sender name r.1 r.2

def follow (nnn : Bool) : Sender κ → Option (Final κ μ)
  | .ret code => some (.ret code)
  | .found sender name s => command net nnn sender name s

/-- `buffer` leads to the line, whose terminator is `n` bytes ahead. -/
def parseServer (n : ℕ) (buffer : List UInt8) : Option (Outcome κ μ) :=
  if net.isDead net.cptr then some ⟨[], false, none, .ret 0⟩
  else do
    let lead ← skipLeading n buffer
    let r ← parseMsgTags lead.1 lead.2
    match r.2 with
    | none => some ⟨r.1, false, none, .ret (-1)⟩
    | some s =>
      let p ← parsePrefix net s
      let final ← follow net (buffer.head? ≠ some (ch ':')) p.2.2
      some ⟨r.1, p.1, p.2.1, final⟩

end

end Ircu.Parse
