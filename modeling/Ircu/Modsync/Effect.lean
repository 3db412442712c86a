import Ircu.Modsync.Tables

/-!
What can happen to the transactions of one server.

* `effect_recv`, `effect_deed`: there is nothing else.
-/

namespace Ircu.Modsync

variable {σ : Type} [DecidableEq σ] {W : World σ} {me : σ}

def Message.answer : Message σ → Option (Txid σ × Bool)
  | .ready txid => some (txid, true)
  | .failed txid _ => some (txid, false)
  | _ => none

def Message.outcome : Message σ → Option (Txid σ × Bool)
  | .commit txid => some (txid, true)
  | .abort txid _ => some (txid, false)
  | _ => none

def Message.order : Message σ → Option (Txid σ × Order)
  | .prepare txid order => some (txid, order)
  | _ => none

structure Hears (k : Coord σ) (u : σ) (ready : Bool) (k' : Coord σ) : Prop where
  txid : k'.txid = k.txid
  waiting : k'.waiting = k.waiting.erase u
  failed : k'.failed = (k.failed || !ready)

def Core.finish (commit : Bool) (k : Coord σ) (p : Part σ) (c : Core σ) : Core σ :=
  { c.settle commit p with coord := none, outcomes := (k.txid, commit) :: c.outcomes }

def Core.start (k : Coord σ) (p : Part σ) (mods : List ModuleHandle) (c : Core σ) : Core σ :=
  { c.record k.txid k.order .pending mods with
    coord := some k
    part := some p
    counter := k.txid.count }

structure Begins (W : World σ) (me : σ) (c : Core σ) (k : Coord σ) (p : Part σ) : Prop where
  coord : c.coord = none
  part : c.part = none
  txid : k.txid = ⟨me, c.counter + 1⟩
  waiting : k.waiting = coordCollectPeers W me
  failed : k.failed = false
  same : p.txid = k.txid ∧ p.order = k.order ∧ p.coordinator = me

/-- What happens to the transactions of a server, with the message that makes it happen, if there is
one, and what is sent. `F` says when the server may give up waiting. -/
inductive Effect (W : World σ) (me : σ) (F : Part σ → Prop) (c : Core σ) :
    Option (σ × Message σ) → Core σ → Outgoing σ → Prop
  | quiet : Effect W me F c none c []
  | busy {u m txid order why} (hm : Message.order m = some (txid, order)) :
      Effect W me F c (some (u, m)) c [(some u, .failed txid why)]
  | decline {u m txid order why mods} (hm : Message.order m = some (txid, order))
      (hcoord : c.coord = none) (hpart : c.part = none)
      (hprep : partPrepare W me c.modules order.received = (mods, .error why)) :
      Effect W me F c (some (u, m)) (c.record txid order.received .refused mods)
        [(some u, .failed txid why)]
  | agree {u m txid order undo mods} (hm : Message.order m = some (txid, order))
      (hcoord : c.coord = none) (hpart : c.part = none)
      (hprep : partPrepare W me c.modules order.received = (mods, .ok undo)) :
      Effect W me F c (some (u, m))
        { c.record txid order.received .pending mods with
          part := some ⟨txid, order.received, undo, u⟩ }
        [(some u, .ready txid)]
  | stale {u m txid ready} (hm : Message.answer m = some (txid, ready))
      (hcoord : ∀ k, c.coord = some k → k.txid ≠ txid) : Effect W me F c (some (u, m)) c []
  | heard {u m k ready k'} (hk : c.coord = some k) (hm : Message.answer m = some (k.txid, ready))
      (hk' : Hears k u ready k') :
      Effect W me F c (some (u, m)) { c with coord := some k' } []
  | decide {u m k ready k' p n} (hk : c.coord = some k)
      (hm : Message.answer m = some (k.txid, ready)) (hk' : Hears k u ready k')
      (hwaiting : k'.waiting = []) (hp : c.part = some p) (htxid : p.txid = k.txid)
      (hn : Message.outcome n = some (k.txid, !k'.failed)) :
      Effect W me F c (some (u, m)) (c.finish (!k'.failed) k p) [(none, n)]
  | ignore {u m txid commit} (hm : Message.outcome m = some (txid, commit))
      (hpart : ∀ p, c.part = some p → p.txid ≠ txid) : Effect W me F c (some (u, m)) c []
  | settle {u m p commit} (hp : c.part = some p) (hm : Message.outcome m = some (p.txid, commit)) :
      Effect W me F c (some (u, m)) (c.settle commit p) []
  | giveUp {p} (hcoord : c.coord = none) (hp : c.part = some p) (hF : F p) :
      Effect W me F c none (c.settle false p) []
  | timeout {k p n} (hk : c.coord = some k) (hp : c.part = some p) (htxid : p.txid = k.txid)
      (hn : Message.outcome n = some (k.txid, false)) :
      Effect W me F c none (c.finish false k p) [(none, n)]
  | stillborn {order why mods} (hcoord : c.coord = none) (hpart : c.part = none)
      (hprep : partPrepare W me c.modules order = (mods, .error why)) :
      Effect W me F c none
        { c.record ⟨me, c.counter + 1⟩ order .refused mods with counter := c.counter + 1 } []
  | start {k p m mods} (hk : Begins W me c k p) (hlen : k.order.received = k.order)
      (hprep : partPrepare W me c.modules k.order = (mods, .ok p.undoLoad))
      (hm : Message.order m = some (k.txid, k.order)) :
      Effect W me F c none (c.start k p mods) [(none, m)]
  | alone {k p m n mods} (hk : Begins W me c k p) (hlen : k.order.received = k.order)
      (hprep : partPrepare W me c.modules k.order = (mods, .ok p.undoLoad))
      (hwaiting : k.waiting = []) (hm : Message.order m = some (k.txid, k.order))
      (hn : Message.outcome n = some (k.txid, true)) :
      Effect W me F c none ((c.start k p mods).finish true k p) [(none, m), (none, n)]

lemma Booked.start {init mods c k p} (h : Booked W me init c) (hk : Begins W me c k p)
    (hprep : partPrepare W me c.modules k.order = (mods, .ok p.undoLoad)) :
    Booked W me init (c.start k p mods) := by
  obtain ⟨htxid, horder, -⟩ := hk.same
  refine (h.agree hk.part hprep p.coordinator).congr rfl rfl ?_
  rw [← htxid, ← horder]
  rfl

section Functions

variable {s : Server σ} {F : Part σ → Prop}

omit [DecidableEq σ] in
@[simp] lemma modsyncDisarm_core (s : Server σ) : (modsyncDisarm s).toCore = s.toCore := by
  rw [modsyncDisarm]
  split_ifs <;> rfl

omit [DecidableEq σ] in
lemma partEnd_core (h : s.part = none) : (partEnd s).toCore = s.toCore := by
  rw [partEnd, modsyncDisarm_core, ← h]

omit [DecidableEq σ] in
lemma coordEnd_core (h : s.coord = none) : (coordEnd s).toCore = s.toCore := by
  rw [coordEnd, modsyncDisarm_core, ← h]

omit [DecidableEq σ] in
lemma partSettle_none (h : s.part = none) (commit : Bool) : partSettle commit s = s := by
  rw [partSettle, h]

omit [DecidableEq σ] in
lemma partSettle_core {p : Part σ} (h : s.part = some p) (commit : Bool) :
    (partSettle commit s).toCore = s.toCore.settle commit p := by
  rw [partSettle, h]
  exact modsyncDisarm_core _

lemma coordFinish_core {p k} (hp : s.part = some p) (htxid : p.txid = k.txid)
    (commit) : (coordFinish commit k s).1.toCore = s.toCore.finish commit k p := by
  have hany : s.part.any (fun p => decide (p.txid = k.txid)) = true := by
    rw [hp]
    exact decide_eq_true htxid
  simp only [coordFinish, hany, if_true, coordEnd, modsyncDisarm_core]
  rw [partSettle_core (by exact hp)]
  rfl

lemma coordFinish_sends (commit) (k : Coord σ) (s) :
    ∃ m, (coordFinish commit k s).2 = [(none, m)] ∧ m.outcome = some (k.txid, commit) := by
  cases commit with
  | false | true => exact ⟨_, rfl, rfl⟩

omit [DecidableEq σ] in
lemma coordFail_eq (why : List UInt8) (k : Coord σ) :
    (coordFail why k).txid = k.txid ∧ (coordFail why k).waiting = k.waiting ∧
      (coordFail why k).failed = true := by
  rw [coordFail]
  split_ifs with h
  · exact ⟨rfl, rfl, h⟩
  · exact ⟨rfl, rfl, rfl⟩

lemma effect_prepare (u) (txid : Txid σ) (order : Order) (s) :
    Effect W me F s.toCore (some (u, .prepare txid order))
      (recvPrepare W me u txid order s).1.toCore (recvPrepare W me u txid order s).2 := by
  rw [recvPrepare]
  split_ifs with hsync hbusy
  · exact .busy rfl
  · exact .busy rfl
  have hidle : s.coord = none ∧ s.part = none := by simpa [modsyncBusy] using hbusy
  simp only [openDeal]
  generalize hprep : partPrepare W me s.modules _ = r
  obtain ⟨mods, r⟩ := r
  cases r with
  | error why =>
    rw [partEnd_core (by exact hidle.2)]
    exact .decline rfl hidle.1 hidle.2 hprep
  | ok undo => exact .agree rfl hidle.1 hidle.2 hprep

lemma coordHear_hears (u) (why : Option (List UInt8)) (k : Coord σ) :
    Hears k u why.isNone (coordHear u why k) := by
  cases why with
  | none => exact ⟨rfl, rfl, by simp [coordHear]⟩
  | some why =>
    obtain ⟨htxid, hwaiting, hfailed⟩ := coordFail_eq why k
    exact ⟨htxid, congrArg (·.erase u) hwaiting, by simp [coordHear, hfailed]⟩

def Core.Own (c : Core σ) : Prop := ∀ k, c.coord = some k → ∃ p, c.part = some p ∧ p.txid = k.txid

open Option

lemma effect_answer (hown : s.toCore.Own) (u) {m} (why : Option (List UInt8))
    {txid} (hm : m.answer = some (txid, why.isNone)) :
    Effect W me F s.toCore (some (u, m)) (recvAnswer u txid why s).1.toCore
      (recvAnswer u txid why s).2 := by
  rw [recvAnswer]
  cases hk : s.coord with
  | none =>
    refine .stale hm fun k h => ?_
    rw [hk] at h
    cases h
  | some k =>
    simp only
    split_ifs with htxid hwaiting
    · refine .stale hm fun k' h => ?_
      rw [hk] at h
      exact some.inj h ▸ htxid
    · obtain rfl := not_not.mp htxid
      obtain ⟨p, hp, hptx⟩ := hown k hk
      have hhears := coordHear_hears u why k
      rw [coordSettle]
      generalize coordHear u why k = k' at hwaiting hhears
      obtain ⟨m', hsends, hm'⟩ := coordFinish_sends (!k'.failed) k' { s with coord := some k' }
      rw [hsends, coordFinish_core (by exact hp) (by rw [hptx, hhears.txid])]
      rw [hhears.txid] at hm'
      rw [Core.finish, hhears.txid]
      exact .decide hk hm hhears hwaiting hp hptx hm'
    · obtain rfl := not_not.mp htxid
      exact .heard hk hm (coordHear_hears u why k)

lemma effect_outcome (u) {m txid commit} (hm : m.outcome = some (txid, commit)) :
    Effect W me F s.toCore (some (u, m)) (recvOutcome commit txid s).1.toCore
      (recvOutcome commit txid s).2 := by
  rw [recvOutcome]
  cases hp : s.part with
  | none =>
    refine .ignore hm fun p h => ?_
    rw [hp] at h
    cases h
  | some p =>
    simp only [any_some, decide_eq_true_eq]
    split_ifs with htxid
    · obtain rfl := htxid
      rw [partSettle_core hp]
      exact .settle hp hm
    · refine .ignore hm fun p' h => ?_
      rw [hp] at h
      exact some.inj h ▸ htxid

lemma effect_recv (hown : s.toCore.Own) (u) (m : Message σ) :
    Effect W me F s.toCore (some (u, m)) (modsyncRecv W me s u m).1.toCore
      (modsyncRecv W me s u m).2 := by
  cases m with
  | prepare txid order => exact effect_prepare u txid order s
  | ready txid => exact effect_answer hown u none rfl
  | failed txid why => exact effect_answer hown u (some why) rfl
  | commit txid | abort txid why => exact effect_outcome u rfl

lemma effect_timer (hown : s.toCore.Own) (hF : s.coord.isSome = true ∨ ∀ p, s.part = some p → F p) :
    Effect W me F s.toCore none (modsyncTimerCb W s).1.toCore (modsyncTimerCb W s).2 := by
  rw [modsyncTimerCb]
  cases hk : s.coord with
  | some k =>
    obtain ⟨p, hp, hptx⟩ := hown k hk
    simp only [coordSettle]
    generalize (k.waiting.head?.map W.name).getD _ ++ _ = who
    obtain ⟨htxid, -, hfailed⟩ := coordFail_eq who k
    rw [hfailed, Bool.not_true]
    obtain ⟨m', hsends, hm'⟩ := coordFinish_sends false (coordFail who k) s
    rw [hsends, coordFinish_core hp (by rw [hptx, htxid])]
    rw [htxid] at hm'
    rw [Core.finish, htxid]
    exact .timeout hk hp hptx hm'
  | none =>
    cases hp : s.part with
    | none =>
      rw [partSettle_none hp]
      exact .quiet
    | some p =>
      rw [partSettle_core hp]
      refine .giveUp hk hp (hF.resolve_left ?_ p hp)
      simp [hk]

lemma effect_begin (hcount : s.counter + 1 < 2 ^ 32) (op : ModSyncOp) (name : List UInt8)
    (process : Bool) : Effect W me F s.toCore none (modsyncBegin W me op name process s).1.toCore
      (modsyncBegin W me op name process s).2 := by
  rw [modsyncBegin]
  split_ifs with hbusy
  · exact .quiet
  have hidle : s.coord = none ∧ s.part = none := by
    simp only [modsyncBusy, Bool.or_eq_true, not_or, Bool.not_eq_true, isSome_eq_false_iff,
      isNone_iff_eq_none] at hbusy
    exact hbusy.1
  simp only [Nat.mod_eq_of_lt hcount, openDeal]
  generalize hprep : partPrepare W me s.modules _ = r
  obtain ⟨mods, r⟩ := r
  cases r with
  | error why =>
    rw [coordEnd_core (by rw [partEnd_core (by exact hidle.2)]; exact hidle.1),
      partEnd_core (by exact hidle.2)]
    exact .stillborn hidle.1 hidle.2 hprep
  | ok undo =>
    simp only
    have hbegins : Begins W me s.toCore
        ⟨⟨me, s.counter + 1⟩, ⟨op, name.take (MODSYNC_NAME_LEN - 1), process⟩,
          coordCollectPeers W me, false, []⟩
        ⟨⟨me, s.counter + 1⟩, ⟨op, name.take (MODSYNC_NAME_LEN - 1), process⟩, undo, me⟩ :=
      ⟨hidle.1, hidle.2, rfl, rfl, rfl, rfl, rfl, rfl⟩
    have hlen : (Order.mk op (name.take (MODSYNC_NAME_LEN - 1)) process).received =
        ⟨op, name.take (MODSYNC_NAME_LEN - 1), process⟩ := by
      rw [Order.received, List.take_take, min_self]
    split_ifs with hwaiting
    · -- a network of one settles at once
      rw [coordSettle, coordFinish_core (by rfl) (by rfl)]
      exact .alone hbegins hlen hprep hwaiting (by exact rfl) (by exact rfl)
    · exact .start hbegins hlen hprep rfl

lemma effect_deed {node e} (hown : (node me).toCore.Own) (hallowed : allowed node me e) {r}
    (h : deed W me (node me) e = some r) :
    Effect W me (Failing node) (node me).toCore none r.1.toCore r.2 := by
  cases e with
  | begin op name process =>
    cases h
    exact effect_begin hallowed.2 op name process
  | expire =>
    rw [deed] at h
    split_ifs at h
    cases h
    exact effect_timer (s := { node me with timer := none }) hown hallowed
  | tick n | configure sync seconds =>
    cases h
    exact .quiet

end Functions

end Ircu.Modsync
