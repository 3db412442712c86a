import Ircu.Protocol.Duplex
import Ircu.Nick.Basic
import Ircu.Numnick.Decode

/-!
Two users with one nick, introduced on both sides of a link at the same time.

Each server finds the other's user in a NICK message while its own user still has the
nick, decides alone which of them has to go, and says so in KILL messages that cross the
other's. The two decisions are right if both sides agree on whether the users are the
same one. They compare the address of their own user with the address of the other one
as it arrives, and so they may disagree with the addresses themselves, and with each
other.
-/

namespace Ircu.Nick

open Numnick Server Duplex List Option

/-! ### The meeting -/

/-- The NICK message about a user, for a server that understands IPv6 addresses or not. -/
def Client.announce (c : Client) (v6_ok : Bool) : Msg :=
  .nickNew c.name (decimal c.lastnick) c.username (iptobase64 c.ip v6_ok) c.numeric

/-- One side of the link: its user, its other clients and numerics, and whether the other
side understands IPv6 addresses. -/
structure Side where
  own : Client
  others : List Client
  nnMask : ℕ → ℕ
  v6_ok : Bool

def Side.server (x : Side) : Server := ⟨x.own :: x.others, x.nnMask⟩

/-- The user of the side is a registered local user. It has a proper nick that none of the
other clients has, its numeric and the one of the user `peer` are not the same, and no
other client has one of them. -/
structure Side.Ready (x : Side) (peer : Client) : Prop where
  my : x.own.my
  registered : x.own.unknown = false
  nick : GoodNick x.own.name
  numeric : 2 ≤ x.own.numeric.length
  slot_ne : x.server.slot x.own.numeric ≠ x.server.slot peer.numeric
  name_free : ∀ c ∈ x.others, ¬sameText x.own.name c.name
  own_free : ∀ c ∈ x.others, ¬x.server.Holds x.own.numeric c
  peer_free : ∀ c ∈ x.others, ¬x.server.Holds peer.numeric c

structure Meeting where
  left : Side
  right : Side
  nick : sameText left.own.name right.own.name
  left_ready : left.Ready right.own
  right_ready : right.Ready left.own

/-- Each server has introduced its user to the other one, and neither has heard of it. -/
def Meeting.start (m : Meeting) : Duplex (Option Server) (Option Server) Msg :=
  ⟨some m.left.server, some m.right.server, [m.right.own.announce m.right.v6_ok],
    [m.left.own.announce m.left.v6_ok]⟩

def SameUser (a b : Client) : Prop := a.ip = b.ip ∧ sameText a.username b.username

instance (a b : Client) : Decidable (SameUser a b) := inferInstanceAs (Decidable (_ ∧ _))

/-- The numeric of the user that should keep the nick: the older one of two users, the
younger one if they are the same, nobody's if they are equally old. -/
def rightful (a b : Client) : Option (List UInt8) :=
  let older := if a.lastnick < b.lastnick then a else b
  let younger := if a.lastnick < b.lastnick then b else a
  if a.lastnick = b.lastnick then none
  else if SameUser a b then some younger.numeric
  else some older.numeric

def owner (nick : List UInt8) (s : Option Server) : Option (Option (List UInt8)) :=
  s.map fun s => (s.findClient nick).map (·.numeric)

/-- However the messages are delivered, they come to an end, and then both servers have the
nick with its rightful owner. -/
def Meeting.Settles (m : Meeting) : Prop :=
  ∀ ds : List Bool,
    (Quiet (run handle handle ds m.start) →
      owner m.left.own.name (run handle handle ds m.start).left =
          some (rightful m.left.own m.right.own) ∧
        owner m.left.own.name (run handle handle ds m.start).right =
          some (rightful m.left.own m.right.own)) ∧
      ∃ ds', Quiet (run handle handle (ds ++ ds') m.start)

/-! ### The answer to a NICK -/

/-- What a server does about its own user: it keeps the nick, it gives it to the other one,
or both lose it. -/
inductive Verdict where
  | keep | yield | both
deriving DecidableEq

def Side.seat (x : Side) (new : Client) : Verdict → Server
  | .keep => ⟨x.own :: x.others, x.nnMask⟩
  | .yield => ⟨new :: x.others, x.nnMask⟩
  | .both => ⟨x.others, x.nnMask⟩

def Side.kills (x : Side) (peer : Client) : Verdict → List Msg
  | .keep => [.kill peer.numeric]
  | .yield => [.kill x.own.numeric]
  | .both => [.kill peer.numeric, .kill x.own.numeric]

/-- The user `peer` as the other side gets to know it. -/
def Client.arrived (peer : Client) (v6_ok : Bool) : Client :=
  { name := peer.name, username := peer.username.take USERLEN, ip := carried peer.ip v6_ok,
    lastnick := peer.lastnick, numeric := peer.numeric, my := false, unknown := false }

def Side.verdict (x : Side) (peer : Client) (v6_ok : Bool) : Verdict :=
  if peer.lastnick = x.own.lastnick then .both
  else if Overruled (x.own.ip ≠ carried peer.ip v6_ok ∨ ¬sameText x.own.username peer.username)
    peer.lastnick x.own then .keep
  else .yield

lemma atoi_decimal (n : ℕ) : atoi (decimal n) = if n < 2 ^ 31 then some n else none := by
  have h : readDecimal 0 (decimal n ++ []) = (n, []) := readDecimal_decimal n (by simp)
  rw [append_nil] at h
  rw [atoi, h]

lemma GoodNick.ne_nil {nick} (h : GoodNick nick) : nick ≠ [] := by
  intro h0
  exact h.1 (h.2.trans h0)

section

variable {x : Side} {peer new : Client} {nick : List UInt8} {v : Verdict}

lemma findClient_seat (hx : x.Ready peer) (hnew : sameText x.own.name new.name)
    (hnick : sameText nick x.own.name) (hne : nick ≠ []) :
    (x.seat new v).findClient nick =
      match v with | .keep => some x.own | .yield => some new | .both => none := by
  have hothers : x.others.find? (fun c => sameText nick c.name) = none := by
    rw [List.find?_eq_none]
    intro c hc hsame
    exact hx.name_free c hc (hnick.symm.trans (of_decide_eq_true hsame))
  rw [findClient, if_neg hne]
  cases v with
  | keep => exact List.find?_cons_of_pos (decide_eq_true hnick)
  | yield => exact List.find?_cons_of_pos (decide_eq_true (hnick.trans hnew))
  | both => exact hothers

lemma exitClient_keep (hnick : sameText nick x.own.name) :
    (x.seat new .keep).exitClient nick = x.seat new .both :=
  congrArg (Server.mk · x.nnMask) (eraseP_cons_of_pos (decide_eq_true hnick))

variable {yxx : List UInt8} {s : Server}

lemma findNUser_others (hfree : ∀ c ∈ x.others, ¬x.server.Holds yxx c) :
    x.others.find? (fun c => x.server.Holds yxx c) = none := by
  rw [List.find?_eq_none]
  intro c hc hholds
  exact hfree c hc (of_decide_eq_true hholds)

lemma findNUser_own (hx : x.Ready peer) (hnew : new.numeric = peer.numeric) :
    (x.seat new v).findNUser x.own.numeric = if v = .keep then some x.own else none := by
  have hothers := findNUser_others hx.own_free
  cases v with
  | keep =>
    refine List.find?_cons_of_pos (decide_eq_true ⟨?_, rfl⟩)
    have := hx.numeric
    intro h0
    rw [h0, length_nil] at this
    omega
  | yield =>
    refine (List.find?_cons_of_neg ?_).trans hothers
    intro h
    refine hx.slot_ne ?_
    rw [← hnew]
    exact (of_decide_eq_true h).2.symm
  | both => exact hothers

lemma findNUser_peer (hx : x.Ready peer) (hnew : new.numeric = peer.numeric)
    (hp : 2 ≤ peer.numeric.length) :
    (x.seat new v).findNUser peer.numeric = if v = .yield then some new else none := by
  have hothers := findNUser_others hx.peer_free
  cases v with
  | keep =>
    refine (List.find?_cons_of_neg ?_).trans hothers
    intro h
    exact hx.slot_ne (of_decide_eq_true h).2
  | yield =>
    refine List.find?_cons_of_pos (decide_eq_true ⟨?_, congrArg _ hnew⟩)
    intro h0
    rw [← hnew, h0, length_nil] at hp
    omega
  | both => exact hothers

lemma exitNUser_of_findNUser (h : s.findNUser yxx = none) : s.exitNUser yxx = s := by
  rw [exitNUser, eraseP_of_forall_not]
  intro c hc hholds
  exact List.find?_eq_none.mp h c hc hholds

lemma exitNUser_head {c l mask} (h : (Server.mk (c :: l) mask).Holds yxx c) :
    (Server.mk (c :: l) mask).exitNUser yxx = Server.mk l mask :=
  congrArg (Server.mk · mask) (eraseP_cons_of_pos (decide_eq_true h))

lemma handle_kill_own (hx : x.Ready peer) (hnew : new.numeric = peer.numeric) (v) :
    handle (some (x.seat new v)) (.kill x.own.numeric) =
      if v = .keep then (some (x.seat new .both), [.kill x.own.numeric])
      else (some (x.seat new v), []) := by
  rw [handle, bind_some, receive, msKill, if_neg (by have := hx.numeric; omega),
    findNUser_own hx hnew]
  by_cases hv : v = .keep
  · subst hv
    have hholds := List.find?_some (findNUser_own (v := .keep) hx hnew)
    have hexit : (x.seat new .keep).exitNUser x.own.numeric = x.seat new .both :=
      exitNUser_head (of_decide_eq_true hholds)
    simp only [if_true, hx.my, hexit]
  · rw [if_neg hv, if_neg hv]

lemma handle_kill_peer (hx : x.Ready peer) (hnew : new.numeric = peer.numeric)
    (hmy : new.my = false) (hp : 2 ≤ peer.numeric.length) (v) :
    handle (some (x.seat new v)) (.kill peer.numeric) =
      (some (x.seat new (if v = .yield then .both else v)), []) := by
  rw [handle, bind_some, receive, msKill, if_neg (by omega), findNUser_peer hx hnew hp]
  by_cases hv : v = .yield
  · subst hv
    have hholds := List.find?_some (findNUser_peer (v := .yield) hx hnew hp)
    have hexit : (x.seat new .yield).exitNUser peer.numeric = x.seat new .both :=
      exitNUser_head (of_decide_eq_true hholds)
    simp only [if_true, hmy, Bool.false_eq_true, if_false, hexit]
  · rw [if_neg hv, if_neg hv]

lemma overruled_self (differ : Prop) (c) : Overruled differ c.lastnick c := by
  by_cases hd : differ
  · exact .inl ⟨hd, le_rfl⟩
  · exact .inr ⟨hd, le_rfl⟩

lemma collide_id {c differ} [Decidable differ] {ts : ℕ}
    {killed : List UInt8} {set : Server → Option Server} :
    s.collide nick c differ ts killed id set =
      if ts = c.lastnick then some (s.exitClient nick, [.kill killed, .kill c.numeric])
      else if Overruled differ ts c then some (s, [.kill killed])
      else (set (s.exitClient nick)).map (·, [.kill c.numeric]) := by
  rw [collide]
  by_cases hts : ts = c.lastnick
  · subst hts
    simp [overruled_self]
  · by_cases ho : Overruled differ ts c <;> simp [hts, ho]

lemma receive_announce (hx : x.Ready peer) (hname : sameText x.own.name peer.name)
    (hgood : GoodNick peer.name) (hp : 2 ≤ peer.numeric.length) (hts : peer.lastnick < 2 ^ 31)
    (v6_ok) : x.server.receive (peer.announce v6_ok) =
      some (x.seat (peer.arrived v6_ok) (x.verdict peer v6_ok),
        x.kills peer (x.verdict peer v6_ok)) := by
  have hfind : x.server.findClient peer.name = some x.own :=
    findClient_seat (v := .keep) hx hname hname.symm hgood.ne_nil
  have hset : (x.server.exitClient peer.name).introduce peer.name peer.lastnick peer.username
      (iptobase64 peer.ip v6_ok) peer.numeric = some (x.seat (peer.arrived v6_ok) .yield) := by
    have hgone : x.server.exitClient peer.name = x.seat (peer.arrived v6_ok) .both :=
      exitClient_keep hname.symm
    have hnone : (x.seat (peer.arrived v6_ok) .both).findNUser peer.numeric = none :=
      findNUser_peer hx rfl hp
    rw [hgone, introduce, base64toip_iptobase64, exitNUser_of_findNUser hnone]
    rfl
  have hreg : ¬(x.own.unknown = true ∧ x.own.my = true) := by simp [hx.registered]
  rw [Client.announce, receive, msNickNew, atoi_decimal, if_pos hts, bind_some,
    if_neg (not_not.mpr hgood), hfind]
  simp only [hreg, if_false, base64toip_iptobase64, bind_some]
  rw [collide_id, hset, Side.verdict]
  by_cases hts : peer.lastnick = x.own.lastnick
  · rw [if_pos hts, if_pos hts]
    exact congrArg (fun s => some (s, _)) (exitClient_keep hname.symm)
  rw [if_neg hts]
  split
  · rfl
  · rfl

lemma receive_announce_none (hts : ¬peer.lastnick < 2 ^ 31) (v6_ok) :
    s.receive (peer.announce v6_ok) = none := by
  rw [Client.announce, receive, msNickNew, atoi_decimal, if_neg hts]
  rfl

end

/-! ### Where it ends -/

/-- What becomes of the nick when this side and the other have decided. -/
def Verdict.settle : Verdict → Verdict → Verdict
  | .keep, .yield => .keep
  | .yield, .keep => .yield
  | _, _ => .both

/-- Each side gets its NICK, then the left one gets the kills and the right one the kills
and what the left one sent back, and then the left one what the right one sent back. -/
def inOrder : List Bool := [true, false, true, true, false, false, false, true]

section

variable (m : Meeting)

def Meeting.leftNew : Client := m.right.own.arrived m.right.v6_ok

def Meeting.rightNew : Client := m.left.own.arrived m.left.v6_ok

def Meeting.leftVerdict : Verdict := m.left.verdict m.right.own m.right.v6_ok

def Meeting.rightVerdict : Verdict := m.right.verdict m.left.own m.left.v6_ok

def Meeting.Fits : Prop := m.left.own.lastnick < 2 ^ 31 ∧ m.right.own.lastnick < 2 ^ 31

lemma handle_some {s s' k out} (h : s.receive k = some (s', out)) :
    handle (some s) k = (some s', out) := by
  rw [handle, bind_some, h]

lemma handle_none {s k} (h : s.receive k = none) : handle (some s) k = (none, []) := by
  rw [handle, bind_some, h]

@[simp] lemma handle_lost (k : Msg) : handle none k = (none, []) := rfl

variable {m}

lemma handle_left (hts : m.right.own.lastnick < 2 ^ 31) :
    handle (some m.left.server) (m.right.own.announce m.right.v6_ok) =
      (some (m.left.seat m.leftNew m.leftVerdict), m.left.kills m.right.own m.leftVerdict) :=
  handle_some (receive_announce m.left_ready m.nick m.right_ready.nick m.right_ready.numeric hts _)

lemma handle_right (hts : m.left.own.lastnick < 2 ^ 31) :
    handle (some m.right.server) (m.left.own.announce m.left.v6_ok) =
      (some (m.right.seat m.rightNew m.rightVerdict), m.right.kills m.left.own m.rightVerdict) :=
  handle_some
    (receive_announce m.right_ready m.nick.symm m.left_ready.nick m.left_ready.numeric hts _)

open Verdict

/-- **The servers agree on the nick, whatever each of them has decided.** -/
theorem run_meet (hfits : m.Fits) : run handle handle inOrder m.start =
      ⟨some (m.left.seat m.leftNew (m.leftVerdict.settle m.rightVerdict)),
        some (m.right.seat m.rightNew (m.rightVerdict.settle m.leftVerdict)), [], []⟩ := by
  have hl := m.left_ready
  have hr := m.right_ready
  have hlo := handle_kill_own hl (rfl : m.leftNew.numeric = _)
  have hlp := handle_kill_peer hl (rfl : m.leftNew.numeric = _) rfl hr.numeric
  have hro := handle_kill_own hr (rfl : m.rightNew.numeric = _)
  have hrp := handle_kill_peer hr (rfl : m.rightNew.numeric = _) rfl hl.numeric
  rw [inOrder, Meeting.start, run_left, handle_left hfits.2, singleton_append, run_right,
    handle_right hfits.1]
  cases m.leftVerdict <;> cases m.rightVerdict <;>
    simp [Side.kills, settle, hlo, hlp, hro, hrp]

lemma run_lost (hfits : ¬m.Fits) : Quiet (run handle handle inOrder m.start) ∧
      ((run handle handle inOrder m.start).left = none ∨
        (run handle handle inOrder m.start).right = none) := by
  rw [inOrder, Meeting.start]
  by_cases hr : m.right.own.lastnick < 2 ^ 31
  · have hl : ¬m.left.own.lastnick < 2 ^ 31 := fun hl => hfits ⟨hl, hr⟩
    rw [run_left, handle_left hr, singleton_append, run_right,
      handle_none (receive_announce_none hl _)]
    cases m.leftVerdict <;> simp [Side.kills, Quiet]
  rw [run_left, handle_none (receive_announce_none hr _), append_nil, run_right]
  by_cases hl : m.left.own.lastnick < 2 ^ 31
  · rw [handle_right hl]
    cases m.rightVerdict <;> simp [Side.kills, Quiet]
  · rw [handle_none (receive_announce_none hl _)]
    simp [Quiet]

lemma owner_seat {x : Side} {peer new} (hx : x.Ready peer)
    (hnew : sameText x.own.name new.name) (hnick : sameText nick x.own.name) (hne : nick ≠ [])
    (v) : owner nick (some (x.seat new v)) = some (match v with
      | .keep => some x.own.numeric | .yield => some new.numeric | .both => none) := by
  rw [owner, map_some, findClient_seat hx hnew hnick hne]
  cases v <;> rfl

def Meeting.decided (m : Meeting) : Option (List UInt8) :=
  match m.leftVerdict.settle m.rightVerdict with
  | .keep => some m.left.own.numeric
  | .yield => some m.right.own.numeric
  | .both => none

lemma settles_iff_decided (hfits : m.Fits) :
    m.Settles ↔ m.decided = rightful m.left.own m.right.own := by
  have hend := run_meet hfits
  have hne := m.left_ready.nick.ne_nil
  have hquiet : Quiet (run handle handle inOrder m.start) := by rw [hend]; exact ⟨rfl, rfl⟩
  have hleft : owner m.left.own.name (run handle handle inOrder m.start).left = some m.decided := by
    rw [hend]
    exact owner_seat m.left_ready (show sameText _ m.leftNew.name from m.nick) (.refl _) hne _
  have hright : owner m.left.own.name (run handle handle inOrder m.start).right =
      some m.decided := by
    rw [hend,
      owner_seat m.right_ready (show sameText _ m.rightNew.name from m.nick.symm) m.nick hne,
      Meeting.decided]
    cases m.leftVerdict <;> cases m.rightVerdict <;> rfl
  constructor
  · intro h
    have := ((h inOrder).1 hquiet).1
    rwa [hleft, some_inj] at this
  intro h ds
  obtain ⟨heq, ds', hds'⟩ := run_confluent hquiet ds
  refine ⟨fun hq => ?_, ds', by rw [hds']; exact hquiet⟩
  rw [heq hq, hleft, hright, h]
  exact ⟨rfl, rfl⟩

lemma not_settles_of_not_fits (hfits : ¬m.Fits) : ¬m.Settles := by
  intro h
  obtain ⟨hquiet, hlost⟩ := run_lost hfits
  obtain ⟨hleft, hright⟩ := (h inOrder).1 hquiet
  rcases hlost with hlost | hlost
  · rw [hlost] at hleft
    cases hleft
  · rw [hlost] at hright
    cases hright

def Side.TakesSame (x : Side) (peer : Client) (v6_ok : Bool) : Prop :=
  x.own.ip = carried peer.ip v6_ok ∧ sameText x.own.username peer.username

instance (x : Side) (peer : Client) (v6_ok : Bool) : Decidable (x.TakesSame peer v6_ok) :=
  inferInstanceAs (Decidable (_ ∧ _))

lemma overruled_iff {differ ts c} (hne : ts ≠ c.lastnick) :
    Overruled differ ts c ↔ (¬differ ↔ ts < c.lastnick) := by
  rw [Overruled]
  by_cases hd : differ
  · simp only [hd, true_and, not_true, false_and, or_false, false_iff]
    omega
  · simp only [hd, false_and, not_false_iff, true_and, false_or, true_iff]
    omega

lemma verdict_of_ne {x : Side} {peer v6_ok} (hne : peer.lastnick ≠ x.own.lastnick) :
    x.verdict peer v6_ok =
      if x.TakesSame peer v6_ok ↔ peer.lastnick < x.own.lastnick then .keep else .yield := by
  rw [Side.verdict, if_neg hne]
  congr 1
  rw [overruled_iff hne, Side.TakesSame, not_or, not_not, not_not]

lemma verdict_of_eq {x : Side} {peer v6_ok}
    (heq : peer.lastnick = x.own.lastnick) : x.verdict peer v6_ok = .both := by
  rw [Side.verdict, if_pos heq]

lemma decided_iff : m.decided = rightful m.left.own m.right.own ↔
      m.left.own.lastnick = m.right.own.lastnick ∨
        (m.left.TakesSame m.right.own m.right.v6_ok ↔ SameUser m.left.own m.right.own) ∧
          (m.right.TakesSame m.left.own m.left.v6_ok ↔ SameUser m.left.own m.right.own) := by
  have hnum : m.left.own.numeric ≠ m.right.own.numeric :=
    fun h => m.left_ready.slot_ne (congrArg _ h)
  rw [Meeting.decided, Meeting.leftVerdict, Meeting.rightVerdict, rightful]
  by_cases heq : m.left.own.lastnick = m.right.own.lastnick
  · rw [verdict_of_eq heq.symm]
    simp [heq, settle]
  rw [verdict_of_ne heq, verdict_of_ne (Ne.symm heq)]
  have hlt : m.right.own.lastnick < m.left.own.lastnick ↔
      ¬m.left.own.lastnick < m.right.own.lastnick := by omega
  simp only [heq, if_false, false_or, hlt]
  -- the older one, and what the two sides and the users themselves say
  by_cases hold : m.left.own.lastnick < m.right.own.lastnick <;>
    by_cases hl : m.left.TakesSame m.right.own m.right.v6_ok <;>
    by_cases hr : m.right.TakesSame m.left.own m.left.v6_ok <;>
    by_cases hs : SameUser m.left.own m.right.own <;>
    simp [hold, hl, hr, hs, settle, hnum, hnum.symm]

end

/-- **The nick gets its rightful owner on both servers** if and only if the timestamps can be read,
and they are equal, or the users have different names, or their common address arrives as it is, or
neither of their addresses arrives as the other one. -/
theorem settles_iff (m : Meeting) :
    m.Settles ↔ m.Fits ∧
      (m.left.own.lastnick = m.right.own.lastnick ∨
        (sameText m.left.own.username m.right.own.username →
          if m.left.own.ip = m.right.own.ip then
            Intact m.left.own.ip m.left.v6_ok ∧ Intact m.right.own.ip m.right.v6_ok
          else ¬ TakenFor m.left.own.ip m.left.v6_ok m.right.own.ip ∧
            ¬ TakenFor m.right.own.ip m.right.v6_ok m.left.own.ip)) := by
  by_cases hfits : m.Fits
  · rw [settles_iff_decided hfits, decided_iff, Side.TakesSame, Side.TakesSame, SameUser,
      sameText.comm, ← carried_eq_iff, ← carried_eq_iff, ← carried_self_iff, ← carried_self_iff,
      eq_comm (b := carried m.right.own.ip _), eq_comm (b := carried m.left.own.ip _)]
    split_ifs with hip
    · rw [hip]
      tauto
    · tauto
  · exact iff_of_false (not_settles_of_not_fits hfits) fun h => hfits h.1

/-- Addresses that arrive as they are cause no trouble. -/
theorem settles_of_carried {m : Meeting} (hfits : m.Fits)
    (hleft : carried m.left.own.ip m.left.v6_ok = m.left.own.ip)
    (hright : carried m.right.own.ip m.right.v6_ok = m.right.own.ip) : m.Settles := by
  rw [settles_iff_decided hfits, decided_iff, Side.TakesSame, Side.TakesSame, hleft, hright]
  rw [sameText.comm (a := m.right.own.username), eq_comm (a := m.right.own.ip)]
  exact .inr ⟨Iff.rfl, Iff.rfl⟩

/-- Between users with IPv4 addresses the nick gets its rightful owner. -/
theorem settles_ipv4 {m : Meeting} (hfits : m.Fits) {g h g' h'}
    (hleft : m.left.own.ip = mapped g h) (hne : ¬(g = 0 ∧ h = 0))
    (hright : m.right.own.ip = mapped g' h') (hne' : ¬(g' = 0 ∧ h' = 0)) : m.Settles := by
  apply settles_of_carried hfits
  · rw [hleft, carried_mapped hne]
  · rw [hright, carried_mapped hne']

/-- The address `2001:0:0:1:0:1:0:0`. The zeros counted for it are those of the groups 4, 6
and 7, and the run of three groups at the end of the address has group 5 in it. -/
def ghostAddr : InAddr := ⟨![0x2001, 0, 0, 1, 0, 1, 0, 0]⟩

/-- A side with a user from that address and no other clients. -/
def ghostSide (lastnick : ℕ) (numeric : String) : Side where
  own :=
    { name := str "nick", username := str "user", ip := ghostAddr, lastnick := lastnick,
      numeric := str numeric, my := true, unknown := false }
  others := []
  nnMask := fun _ => 4095
  v6_ok := true

def ghostMeeting : Meeting where
  left := ghostSide 1 "ABAAA"
  right := ghostSide 2 "ACAAA"
  nick := .refl _
  left_ready := ⟨rfl, rfl, by decide +kernel, by decide +kernel, by decide +kernel,
    by simp [ghostSide], by simp [ghostSide], by simp [ghostSide]⟩
  right_ready := ⟨rfl, rfl, by decide +kernel, by decide +kernel, by decide +kernel,
    by simp [ghostSide], by simp [ghostSide], by simp [ghostSide]⟩

def lanSide (lastnick : ℕ) (numeric : String) : Side :=
  let x := ghostSide lastnick numeric
  { x with own := { x.own with ip := mapped 0x0a00 1 } }

theorem settles_ipv4_lan : ∃ m : Meeting, m.left = lanSide 1 "ABAAA" ∧ m.Settles :=
  have hgood : GoodNick (str "nick") := by decide +kernel
  ⟨⟨lanSide 1 "ABAAA", lanSide 2 "ACAAA", .refl _,
    ⟨rfl, rfl, hgood, by decide, by decide +kernel, nofun, nofun, nofun⟩,
    ⟨rfl, rfl, hgood, by decide, by decide +kernel, nofun, nofun, nofun⟩⟩, rfl,
    settles_ipv4 ⟨show 1 < 2 ^ 31 by decide, show 2 < 2 ^ 31 by decide⟩ rfl (by decide) rfl
      (by decide)⟩

/-- **One user, taken for two.** The address arrives without its group 5, and both servers
keep the older nick where they should keep the younger one. -/
theorem ghostMeeting_unsettled :
    ¬ghostMeeting.Settles ∧ SameUser ghostMeeting.left.own ghostMeeting.right.own ∧
      rightful ghostMeeting.left.own ghostMeeting.right.own = some (str "ACAAA") ∧
      ghostMeeting.decided = some (str "ABAAA") ∧
      ghostAddr.group 5 = 1 ∧
      (base64toip (iptobase64 ghostAddr true)).map (·.group 5) = some 0 := by
  have hrightful : rightful ghostMeeting.left.own ghostMeeting.right.own = some (str "ACAAA") := by
    decide +kernel
  have hdecided : ghostMeeting.decided = some (str "ABAAA") := by decide +kernel
  have hfits : ghostMeeting.Fits := ⟨by decide +kernel, by decide +kernel⟩
  refine ⟨?_, by decide +kernel, hrightful, hdecided, by decide +kernel, by decide +kernel⟩
  rw [settles_iff_decided hfits, hdecided, hrightful]
  decide +kernel

end Ircu.Nick
