import Ircu.Text.Basic
import Ircu.Numnick.Basic

/-!
Nicks between servers: `ms_nick` of `m_nick.c`, `ms_kill` of `m_kill.c`, and what
`set_nick_name` of `s_user.c` does for a client of another server.

The messages are those that one link carries, with their parameters as text. What a
handler sends goes back over the link it was called from: the `sendcmdto_one` to it, and
its part of the `sendcmdto_serv_butone` to all servers. A handler gives `none` where the
source leaves what C defines, which is a number that `atoi` cannot hold, a numeric of
one character, or an address that `base64toip` reads or writes out of bounds.

The hash table of names and the tables of numerics are one list of clients.
-/

namespace Ircu.Nick

open Numnick

def NICKLEN : ℕ := 15
def USERLEN : ℕ := 10

/-- What the handlers read of a `struct Client`. A client that has not registered has no
numeric. -/
structure Client where
  name : List UInt8
  username : List UInt8
  ip : InAddr
  lastnick : ℕ
  numeric : List UInt8
  /-- `MyConnect`. -/
  my : Bool
  /-- `IsUnknown`. -/
  unknown : Bool
deriving DecidableEq

structure Server where
  clients : List Client
  nnMask : ℕ → ℕ

inductive Msg where
  /-- NICK from a server, which introduces a user. -/
  | nickNew (nick lastnick username ip numeric : List UInt8)
  /-- NICK from the user with the given numeric. -/
  | nickChange (who nick lastnick : List UInt8)
  | kill (victim : List UInt8)
deriving DecidableEq

/-- `atoi` on digits. A number that is no `int` has no defined result. -/
def atoi (s : List UInt8) : Option ℕ :=
  let v := (readDecimal 0 s).1
  if v < 2 ^ 31 then some v else none

def doNickName (nick : List UInt8) : List UInt8 :=
  if nick.head?.any fun c => c = ch '-' || isDigit c then []
  else (nick.take NICKLEN).takeWhile isNickChar

/-- A nick that `ms_nick` accepts: it is left as it is. -/
def GoodNick (arg : List UInt8) : Prop :=
  doNickName (arg.take NICKLEN) ≠ [] ∧ doNickName (arg.take NICKLEN) = arg

instance (arg : List UInt8) : Decidable (GoodNick arg) := inferInstanceAs (Decidable (_ ∧ _))

namespace Server

variable (s : Server)

/-- The server and the place in its `client_list` that a numeric names. -/
def slot (yxx : List UInt8) : ℕ × ℕ :=
  let server := base64toint (yxx.take (if yxx.length = 5 then 2 else 1))
  (server, base64toint (yxx.drop (if yxx.length = 5 then 2 else 1)) &&& s.nnMask server)

def Holds (yxx : List UInt8) (c : Client) : Prop := c.numeric ≠ [] ∧ s.slot c.numeric = s.slot yxx

instance (yxx : List UInt8) : DecidablePred (s.Holds yxx) :=
  fun _ => inferInstanceAs (Decidable (_ ∧ _))

variable (nick : List UInt8)

def findClient : Option Client :=
  if nick = [] then none else s.clients.find? fun c => sameText nick c.name

def findNUser (yxx : List UInt8) : Option Client := s.clients.find? fun c => s.Holds yxx c

/-- `exit_client` of the client found by this name. -/
def exitClient : Server :=
  { s with clients := s.clients.eraseP fun c => sameText nick c.name }

/-- `exit_client` of the client found by this numeric. -/
def exitNUser (yxx : List UInt8) : Server :=
  { s with clients := s.clients.eraseP fun c => s.Holds yxx c }

def add (c : Client) : Server := { s with clients := c :: s.clients }

/-- `set_nick_name` for a user that a server introduces. A client that has the numeric
already is a ghost. -/
def introduce (ts : ℕ) (username ip numeric : List UInt8) : Option Server :=
  (base64toip ip).map fun addr =>
    (s.exitNUser numeric).add
      { name := nick, username := username.take USERLEN, ip := addr, lastnick := ts,
        numeric := numeric, my := false, unknown := false }

/-- `set_nick_name` for a user that changes its nick. -/
def rename (sptr : Client) (nick : List UInt8) (ts : ℕ) : Server :=
  (s.exitNUser sptr.numeric).add
    { sptr with name := nick, lastnick := if sameText sptr.name nick then sptr.lastnick else ts }

/-- The incoming nick has to go: it is the younger one of different users, or the older one
of the same user, or neither. -/
def Overruled (differ : Prop) (lastnick : ℕ) (acptr : Client) : Prop :=
  (differ ∧ acptr.lastnick ≤ lastnick) ∨ (¬differ ∧ lastnick ≤ acptr.lastnick)

instance (differ : Prop) [Decidable differ] (lastnick : ℕ) (acptr : Client) :
    Decidable (Overruled differ lastnick acptr) := inferInstanceAs (Decidable (_ ∨ _))

/-- The collision in `ms_nick`. The incoming user is killed by `killed` and `drop`, and gets
its nick by `set`. -/
def collide (acptr : Client) (differ : Prop) [Decidable differ] (lastnick : ℕ)
    (killed : List UInt8) (drop : Server → Server) (set : Server → Option Server) :
    Option (Server × List Msg) :=
  let s' := if Overruled differ lastnick acptr then drop s else s
  let kills := if Overruled differ lastnick acptr then [Msg.kill killed] else []
  if Overruled differ lastnick acptr ∧ lastnick ≠ acptr.lastnick then some (s', kills)
  else
    let kills := kills ++ [Msg.kill acptr.numeric]
    if lastnick = acptr.lastnick then some (s'.exitClient nick, kills)
    else (set (s'.exitClient nick)).map (·, kills)

def msNickNew (nick lastnick username ip numeric : List UInt8) : Option (Server × List Msg) :=
  (atoi lastnick).bind fun ts =>
    if ¬GoodNick nick then some (s, [Msg.kill numeric])
    else
      match s.findClient nick with
      | none => (s.introduce nick ts username ip numeric).map (·, [])
      | some acptr =>
        if acptr.unknown ∧ acptr.my then
          ((s.exitClient nick).introduce nick ts username ip numeric).map (·, [])
        else
          (base64toip ip).bind fun addr =>
            s.collide nick acptr (acptr.ip ≠ addr ∨ ¬sameText acptr.username username) ts numeric
              id (·.introduce nick ts username ip numeric)

/-- `ms_nick` for a message of the user `sptr`. A bad nick is answered with two messages
that name the user by its name. -/
def msNickChange (sptr : Client) (nick lastnick : List UInt8) : Option (Server × List Msg) :=
  (atoi lastnick).bind fun ts =>
    if ¬GoodNick nick then some (s, [Msg.kill sptr.name, Msg.kill sptr.name])
    else
      match s.findClient nick with
      | none => some (s.rename sptr nick ts, [])
      | some acptr =>
        if acptr = sptr then
          if acptr.name ≠ nick then some (s.rename sptr nick ts, []) else some (s, [])
        else if acptr.unknown ∧ acptr.my then some ((s.exitClient nick).rename sptr nick ts, [])
        else
          s.collide nick acptr (acptr.ip ≠ sptr.ip ∨ ¬sameText acptr.username sptr.username) ts
            sptr.numeric (·.exitNUser sptr.numeric) (fun s => some (s.rename sptr nick ts))

/-- `ms_kill`, for a message of a server. A kill of an own user is sent back. -/
def msKill (victim : List UInt8) : Option (Server × List Msg) :=
  if victim.length < 2 then none
  else
    match s.findNUser victim with
    | none => some (s, [])
    | some c => some (s.exitNUser victim, if c.my then [Msg.kill c.numeric] else [])

/-- The handler of a message. A message of a user that is not known does not get to one. -/
def receive : Msg → Option (Server × List Msg)
  | .nickNew nick lastnick username ip numeric => s.msNickNew nick lastnick username ip numeric
  | .nickChange who nick lastnick =>
    match s.findNUser who with
    | none => some (s, [])
    | some sptr => s.msNickChange sptr nick lastnick
  | .kill victim => s.msKill victim

/-- The handler as a step of a server that is lost once a handler gives `none`. -/
def handle (s : Option Server) (m : Msg) : Option Server × List Msg :=
  match s.bind (·.receive m) with
  | some (s, out) => (some s, out)
  | none => (none, [])

end Server

end Ircu.Nick
