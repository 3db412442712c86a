import Ircu.Run.Basic

/-!
The marker of `send.c` by which a message is sent along every connection once.

A call takes the next marker, stamps every connection that it sends along with it, and passes over
those that bear the stamp. When the marker wraps around, `bump_sentalong` takes the stamps off the
connections in `LocalClientArray`, up to but not including the one at `HighestFd`, where all other
loops over the array go on.

A client is reached over a connection, and is a local one if the connection is its own. A message
is queued for a connection unless `send_buffer` refuses it; what becomes of it on the queue is not
followed.
-/

namespace Ircu.Sentalong

open Run List Function

/-- The values that an `int` goes through before it is zero again. -/
def MARKER_RANGE : ℕ := 2 ^ 32

/-- The connections: `con_fd` of those that are open, `LocalClientArray` and `HighestFd`. -/
structure Table (κ : Type) where
  fd : κ → Option ℕ
  localClients : ℕ → Option κ
  highestFd : ℕ
  listed : ∀ c i, fd c = some i → localClients i = some c ∧ i ≤ highestFd

/-- `sentalong_marker` and `con_sentalong`; and the connections that the last call has queued its
message for. -/
structure World (κ : Type) where
  table : Table κ
  marker : ℕ
  stamp : κ → ℕ
  queued : List κ

/-- A member of a channel, with what `sendcmdto_channel_butone` looks at. -/
structure Member (υ : Type) where
  user : υ
  zombie : Bool
  deaf : Bool
  chanop : Bool
  voice : Bool
  burst : Bool

structure Skip where
  deaf : Bool
  nonops : Bool
  nonvoices : Bool
  burst : Bool

/-- A channel that the sender is on: whether the sender is a zombie there or has not been seen to
join, and the members. -/
structure Joined (υ : Type) where
  zombie : Bool
  delayed : Bool
  members : List υ

/-- What `send_buffer` finds out about a connection in a call: `can_send`, whether the queue is
longer than `get_sendq`, `IsServer`, and whether the frame can be made if it is a websocket. -/
structure Outlet where
  canSend : Bool
  sendqFull : Bool
  isServer : Bool
  framed : Bool

/-- Whether `send_buffer` comes to `msgq_add`. A `TAGMSG` is not for servers without
`FEAT_NETWORK_FEATURES`. -/
def sendBuffer (o : Outlet) (tagmsg networkFeatures : Bool) : Bool :=
  o.canSend && !o.sendqFull && !(o.isServer && !networkFeatures && tagmsg) && o.framed

/-- Connections are opened and closed, or one of `sendcmdto_common_channels_butone` and
`sendcmdto_channel_butone` is called. -/
inductive Event (υ κ : Type)
  | connections (table : Table κ)
  | common (outlet : κ → Outlet) (networkFeatures : Bool) (source : υ) (one : Option υ)
      (channels : List (Joined υ))
  | channel (outlet : κ → Outlet) (tagmsg networkFeatures : Bool) (one : Option υ) (skip : Skip)
      (members : List (Member υ))

variable {υ κ : Type} [DecidableEq υ] [DecidableEq κ] (connect : υ → κ) (client : κ → υ)

def myConnect (u : υ) : Bool := client (connect u) = u

variable (w : World κ)

def bumpSentalong (one : Option κ) : World κ :=
  let w : World κ :=
    if (w.marker + 1) % MARKER_RANGE = 0 then
      { w with
        marker := 1
        stamp := fun c =>
          if (List.range w.table.highestFd).any (fun ii => w.table.localClients ii = some c) then 0
          else w.stamp c }
    else { w with marker := w.marker + 1 }
  { w with stamp := fun c => if one = some c then w.marker else w.stamp c }

/-- The walk over connections: the stamps, and those that the message is queued for. -/
def walk (marker : ℕ) : (κ → ℕ) → List κ → (κ → ℕ) × List κ
  | stamp, [] => (stamp, [])
  | stamp, c :: cs =>
    if stamp c = marker then walk marker stamp cs
    else
      let r := walk marker (Function.update stamp c marker) cs
      (r.1, c :: r.2)

/-- The members that `sendcmdto_common_channels_butone` does not pass over, by their connections. -/
def commonTargets (t : Table κ) (one : Option υ) (channels : List (Joined υ)) : List κ :=
  (((channels.filter fun chan => !chan.zombie && !chan.delayed).flatMap Joined.members).filter
    fun u => myConnect connect client u && (t.fd (connect u)).isSome && one ≠ some u).map connect

/-- The members that `sendcmdto_channel_butone` does not pass over, by their connections. -/
def channelTargets (t : Table κ) (skip : Skip) (members : List (Member υ)) : List κ :=
  (members.filter fun m => !(m.zombie || skip.deaf && m.deaf || skip.nonops && !m.chanop ||
    skip.nonvoices && !m.chanop && !m.voice || skip.burst && m.burst) &&
      (t.fd (connect m.user)).isSome).map fun m => connect m.user

/-- One event. A connection that has been opened is not stamped. -/
def step : Event υ κ → Option (World κ)
  | .connections table =>
    some { w with
      table
      stamp := fun c => if (w.table.fd c).isSome then w.stamp c else 0
      queued := [] }
  | .common outlet networkFeatures source one channels =>
    let b := bumpSentalong w (some (connect source))
    let r := walk b.marker b.stamp (commonTargets connect client w.table one channels)
    let last :=
      if myConnect connect client source && one ≠ some source then [connect source] else []
    some { b with
      stamp := r.1
      queued := (r.2 ++ last).filter fun c => sendBuffer (outlet c) false networkFeatures }
  | .channel outlet tagmsg networkFeatures one skip members =>
    let b := bumpSentalong w (one.map connect)
    let r := walk b.marker b.stamp (channelTargets connect w.table skip members)
    some { b with
      stamp := r.1
      queued := r.2.filter fun c => sendBuffer (outlet c) tagmsg networkFeatures }

/-- **The marker does not wrap around while the connection at `HighestFd` is stamped.** -/
def Settled : Prop :=
  (w.marker + 1) % MARKER_RANGE = 0 →
    ∀ c ∈ w.table.localClients w.table.highestFd, w.stamp c = 0

def Clean : Event υ κ → Prop
  | .connections _ => True
  | _ => Settled w

/-- The connections that a message is for: those of the members that are not passed over, except for
the one of `source` or `one`, and the one of a local `source`. -/
def IsFor : Event υ κ → κ → Prop
  | .connections _, _ => False
  | .common _ _ source one channels, c =>
    (connect source ≠ c ∧ c ∈ commonTargets connect client w.table one channels) ∨
      connect source = c ∧ myConnect connect client source = true ∧ one ≠ some source
  | .channel _ _ _ one skip members, c =>
    one.map connect ≠ some c ∧ c ∈ channelTargets connect w.table skip members

/-- The connections that `send_buffer` does not refuse. -/
def Accepted : Event υ κ → κ → Prop
  | .connections _, _ => False
  | .common outlet networkFeatures _ _ _, c => sendBuffer (outlet c) false networkFeatures
  | .channel outlet tagmsg networkFeatures _ _ _, c => sendBuffer (outlet c) tagmsg networkFeatures

/-! ### One call -/

variable {w : World κ} {c : κ}

lemma walk_spec (marker) (stamp : κ → ℕ) (cs : List κ) : (walk marker stamp cs).2.Nodup ∧
    (∀ c, c ∈ (walk marker stamp cs).2 ↔ c ∈ cs ∧ stamp c ≠ marker) ∧
    ∀ c, (walk marker stamp cs).1 c = marker ∨ (walk marker stamp cs).1 c = stamp c := by
  induction cs generalizing stamp with
  | nil => simp [walk]
  | cons d cs ih =>
    rw [walk]
    split_ifs with hd
    · obtain ⟨hnodup, hmem, hstamp⟩ := ih stamp
      refine ⟨hnodup, fun c => ?_, hstamp⟩
      rw [hmem, mem_cons]
      grind
    · obtain ⟨hnodup, hmem, hstamp⟩ := ih (update stamp d marker)
      refine ⟨nodup_cons.mpr ⟨fun hin => ?_, hnodup⟩, fun c => ?_, fun c => ?_⟩
      · exact ((hmem d).mp hin).2 (update_self ..)
      · rw [mem_cons, mem_cons, hmem, update_apply]
        grind
      · have := hstamp c
        rw [update_apply] at this
        grind

/-- No stamp is ahead of the marker. -/
structure Inv (w : World κ) : Prop where
  marker : w.marker < MARKER_RANGE
  stamp : ∀ c, (w.table.fd c).isSome → w.stamp c ≤ w.marker

/-- **No connection bears the new stamp** but the one that is marked with it. -/
lemma Inv.bump (h : Inv w) (one) (hclean : Settled w) :
    Inv (bumpSentalong w one) ∧ (bumpSentalong w one).table = w.table ∧ ∀ c, (w.table.fd c).isSome →
        ((bumpSentalong w one).stamp c = (bumpSentalong w one).marker ↔ one = some c) := by
  have hlt := h.marker
  rw [bumpSentalong]
  split_ifs with hwrap
  · have hzero : ∀ c, (w.table.fd c).isSome → (if (List.range w.table.highestFd).any
        (fun ii => w.table.localClients ii = some c) then 0 else w.stamp c) = 0 := by
      intro c hc
      obtain ⟨i, hi⟩ := Option.isSome_iff_exists.mp hc
      obtain ⟨hlist, hle⟩ := w.table.listed c i hi
      split_ifs with hany
      · rfl
      rcases Nat.eq_or_lt_of_le hle with rfl | hlt
      · exact hclean hwrap c hlist
      · exact absurd (any_eq_true.mpr ⟨i, mem_range.mpr hlt, by simp [hlist]⟩) hany
    refine ⟨⟨show 1 < MARKER_RANGE by decide, fun c hc => ?_⟩, rfl, fun c hc => ?_⟩
    all_goals
      dsimp only
      rw [hzero c hc]
      split_ifs with hone <;> simp [hone]
  · rw [MARKER_RANGE] at hlt hwrap
    refine ⟨⟨show w.marker + 1 < 2 ^ 32 by omega, fun c hc => ?_⟩, rfl, fun c hc => ?_⟩
    all_goals
      have := h.stamp c hc
      dsimp only
      split_ifs with hone
    · exact le_rfl
    · omega
    · simp [hone]
    · simp only [hone, iff_false]
      omega

/-- A message is queued once for each connection that it is to go along, but not for `one`. -/
lemma Inv.sends (h : Inv w) (one : Option κ) {cs : List κ}
    (hopen : ∀ c ∈ cs, (w.table.fd c).isSome) (hclean : Settled w) (queued : List κ)
    {r : (κ → ℕ) × List κ}
    (hr : walk (bumpSentalong w one).marker (bumpSentalong w one).stamp cs = r) :
    Inv { bumpSentalong w one with stamp := r.1, queued } ∧ r.2.Nodup ∧
      ∀ c, c ∈ r.2 ↔ one ≠ some c ∧ c ∈ cs := by
  obtain ⟨hinv, -, hnew⟩ := h.bump one hclean
  obtain ⟨hnodup, hmem, hstamp⟩ :=
    walk_spec (bumpSentalong w one).marker (bumpSentalong w one).stamp cs
  rw [hr] at hnodup hmem hstamp
  refine ⟨⟨hinv.marker, fun c hc => ?_⟩, hnodup, fun c => ?_⟩
  · rcases hstamp c with heq | heq
    · exact heq.le
    · exact heq.trans_le (hinv.stamp c hc)
  · rw [hmem, and_comm]
    exact and_congr_left fun hc => not_congr (hnew c (hopen c hc))

/-- **One event** keeps the invariant, and a call queues its message once for each connection that
it is for and that is not refused. -/
lemma Inv.step (h : Inv w) {e} (hclean : Clean w e) :
    ∃ w', step connect client w e = some w' ∧ Inv w' ∧ w'.queued.Nodup ∧
      ∀ c, c ∈ w'.queued ↔ IsFor connect client w e c ∧ Accepted e c := by
  cases e with
  | connections table =>
    refine ⟨_, rfl, ⟨h.marker, fun c _ => ?_⟩, nodup_nil, by simp [IsFor]⟩
    dsimp only
    split_ifs with hc
    · exact h.stamp c hc
    · exact Nat.zero_le _
  | common outlet networkFeatures source one channels =>
    have hopen : ∀ c ∈ commonTargets connect client w.table one channels,
        (w.table.fd c).isSome := by
      simp only [commonTargets, mem_map, mem_filter, Bool.and_eq_true]
      rintro _ ⟨u, hu, rfl⟩
      exact hu.2.1.2
    obtain ⟨hinv, hnodup, hmem⟩ := h.sends (some (connect source)) hopen hclean _ rfl
    refine ⟨_, rfl, hinv, .filter _ ?_, fun c => ?_⟩
    · refine hnodup.append ?_ fun c hc hc' => ?_
      · split_ifs <;> simp
      · split_ifs at hc'
        · exact ((hmem c).mp hc).1 (congrArg some (mem_singleton.mp hc').symm)
        · cases hc'
    · rw [mem_filter, mem_append, hmem]
      refine and_congr_left' (or_congr (by simp) ?_)
      split_ifs with hlocal <;> rw [Bool.and_eq_true, decide_eq_true_eq] at hlocal
      · rw [mem_singleton, eq_comm]
        exact (and_iff_left hlocal).symm
      · exact iff_of_false not_mem_nil fun hc => hlocal hc.2
  | channel outlet tagmsg networkFeatures one skip members =>
    have hopen : ∀ c ∈ channelTargets connect w.table skip members, (w.table.fd c).isSome := by
      simp only [channelTargets, mem_map, mem_filter, Bool.and_eq_true]
      rintro _ ⟨m, hm, rfl⟩
      exact hm.2.2
    obtain ⟨hinv, hnodup, hmem⟩ := h.sends (one.map connect) hopen hclean _ rfl
    refine ⟨_, rfl, hinv, hnodup.filter _, fun c => ?_⟩
    rw [mem_filter, hmem]
    rfl

/-! ### Whole runs -/

def World.init (table : Table κ) : World κ := ⟨table, 0, fun _ => 0, []⟩

/-- **Each connection gets each message once** that is for it and that `send_buffer` does not
refuse, whatever calls have been made before, as long as the marker does not wrap around while the
connection at `HighestFd` is stamped. -/
theorem queued_once (table : Table κ) (es : List (Event υ κ))
    (hes : Permitted (step connect client) Clean (World.init table) es) :
    ∃ w, run (step connect client) (World.init table) es = some w ∧
      ∀ e, Clean w e → ∃ w', step connect client w e = some w' ∧ w'.queued.Nodup ∧
        ∀ c, c ∈ w'.queued ↔ IsFor connect client w e c ∧ Accepted e c := by
  obtain ⟨w, hrun, hinv⟩ := run_safe Inv (fun w e h hclean => by
    obtain ⟨w', heq, hinv, -⟩ := h.step connect client hclean
    exact ⟨w', heq, hinv⟩) ⟨show 0 < MARKER_RANGE by decide, fun _ _ => le_rfl⟩ hes
  refine ⟨w, hrun, fun e hclean => ?_⟩
  obtain ⟨w', heq, -, hexact⟩ := hinv.step connect client hclean
  exact ⟨w', heq, hexact⟩

/-- A connection that takes what is sent along it. -/
def taking : Outlet := ⟨true, false, false, true⟩

/-- A message to a channel with the given members. -/
def message (members : List (Member υ)) : Event υ κ :=
  .channel (fun _ => taking) false true none ⟨false, false, false, false⟩ members

def member (u : υ) : Member υ := ⟨u, false, false, false, false, false⟩

/-- Messages to nobody count up the marker. -/
lemma run_message_nil (w) (n : ℕ) (h : w.marker + n < MARKER_RANGE) :
    Permitted (step connect client) Clean w (List.replicate n (message [])) ∧
      ∃ w', run (step connect client) w (List.replicate n (message [])) = some w' ∧
        w'.table = w.table ∧ w'.stamp = w.stamp ∧ w'.marker = w.marker + n := by
  induction n generalizing w with
  | zero => exact ⟨trivial, w, rfl, rfl, rfl, rfl⟩
  | succ n ih =>
    have hwrap : ¬(w.marker + 1) % MARKER_RANGE = 0 := by
      rw [MARKER_RANGE] at h ⊢
      omega
    have hone : step connect client w (message []) =
        some { w with marker := w.marker + 1, queued := [] } := by
      simp [step, message, bumpSentalong, hwrap, channelTargets, walk]
    obtain ⟨hes, w', hrun, htable, hstamp, hmarker⟩ :=
      ih { w with marker := w.marker + 1, queued := [] } (by dsimp only; omega)
    refine ⟨.cons (fun heq => absurd heq hwrap) hone hes, w', ?_, htable, hstamp,
      by dsimp only at hmarker; omega⟩
    rw [replicate_succ, run_cons, hone, Option.bind_some, hrun]

/-- A client on the descriptor 0, a server on 1 and a client on 2. -/
def three : Table ℕ where
  fd c := if c < 3 then some c else none
  localClients i := if i < 3 then some i else none
  highestFd := 2
  listed c i h := by
    obtain ⟨hlt, heq⟩ := Option.ite_none_right_eq_some.mp h
    obtain rfl := Option.some.inj heq
    exact ⟨if_pos hlt, by omega⟩

/-- The clients 0 and 2 are local, and those from 3 on are on the server, which is 1. -/
def link (u : ℕ) : ℕ := if u < 3 then u else 1

/-- The first message goes to all but the client on the highest descriptor; when the marker wraps
around, there is one for all. -/
theorem queued_once_wrap : ∃ w w', run (step link id) (World.init three)
      (message ([0, 3, 4].map member) :: List.replicate (MARKER_RANGE - 2) (message [])) = some w ∧
    (w.marker + 1) % MARKER_RANGE = 0 ∧
    step link id w (message ([0, 3, 4, 2, 0].map member)) = some w' ∧
    w'.queued.Nodup ∧ ∀ c < 3, c ∈ w'.queued := by
  obtain ⟨w1, h1⟩ : ∃ w1, step link id (World.init three) (message ([0, 3, 4].map member)) =
    some w1 := ⟨_, rfl⟩
  have hw1 : w1.table = three ∧ w1.stamp 2 = 0 ∧ w1.marker = 1 := by
    cases h1
    exact ⟨rfl, rfl, rfl⟩
  obtain ⟨hes, w, hrun, htable, hstamp, hmarker⟩ :=
    run_message_nil link id w1 (MARKER_RANGE - 2) (by rw [hw1.2.2]; decide)
  have hall := run_cons_eq_some.mpr ⟨w1, h1, hrun⟩
  have hclean : Clean (World.init three) (message ([0, 3, 4].map member) : Event ℕ ℕ) :=
    fun h => absurd h (by decide)
  obtain ⟨w0, hrun0, honce⟩ := queued_once link id three _ (.cons hclean h1 hes)
  cases hrun0.symm.trans hall
  obtain ⟨w', heq, hnodup, hmem⟩ := honce (message ([0, 3, 4, 2, 0].map member)) fun _ c hc => by
    rw [htable, hw1.1] at hc
    cases hc
    exact (congrFun hstamp 2).trans hw1.2.1
  refine ⟨w, w', hall, ?_, heq, hnodup, fun c hc => (hmem c).mpr ⟨⟨by simp, ?_⟩, rfl⟩⟩
  · rw [hmarker, hw1.2.2]
    decide
  · rw [htable, hw1.1]
    revert c
    decide

/-- One client, on the descriptor 0. -/
def lonely : Table Unit where
  fd _ := some 0
  localClients i := if i = 0 then some () else none
  highestFd := 0
  listed _ i h := by
    cases h
    exact ⟨rfl, le_rfl⟩

/-- A client gets the first message and no other one until the marker has wrapped around: it bears
the stamp of the next message, which is not queued for it. -/
theorem wrap_loses_message : ∃ (es : List (Event Unit Unit)) (w w' : World Unit),
    run (step id id) (World.init lonely) es = some w ∧
      step id id w (message [member ()]) = some w' ∧ IsFor id id w (message [member ()]) () ∧
      Accepted (message [member ()] : Event Unit Unit) () ∧ () ∉ w'.queued := by
  obtain ⟨w1, h1⟩ : ∃ w1, step id id (World.init lonely) (message [member ()]) = some w1 := ⟨_, rfl⟩
  have hw1 : w1.table = lonely ∧ w1.stamp () = 1 ∧ w1.marker = 1 := by
    cases h1
    exact ⟨rfl, rfl, rfl⟩
  obtain ⟨-, w, hrun, htable, hstamp, hmarker⟩ :=
    run_message_nil id id w1 (MARKER_RANGE - 2) (by rw [hw1.2.2]; decide)
  rw [hw1.2.2] at hmarker
  refine ⟨message [member ()] :: List.replicate (MARKER_RANGE - 2) (message []), w, _, ?_, rfl, ?_,
    rfl, ?_⟩
  · rw [run_cons, h1, Option.bind_some, hrun]
  · simp [IsFor, message, channelTargets, member, htable, hw1, lonely]
  · have hwrap : (w.marker + 1) % MARKER_RANGE = 0 := by
      rw [hmarker]
      decide
    simp [bumpSentalong, hwrap, channelTargets, member, htable, hw1, lonely, walk, hstamp]

end Ircu.Sentalong
