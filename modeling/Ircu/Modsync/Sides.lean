import Ircu.Modsync.Effect
import Ircu.TwoPhase.Basic

/-!
A transaction, its coordinator and one other server as a two-phase commit of the library.

`coordView` and `partView` are the states of the two, and `downs` and `ups` what is under way
between them.

* `Effect.coord_side`: what happens to the coordinator is a number of steps of the two-phase commit;
* `Effect.part_side`: and so is what happens to the other server.
-/

namespace Ircu.Modsync

open List Relay Modsync.Core Option

open TwoPhase (Steps Step Good Doomed)

variable {σ : Type} [DecidableEq σ] {W : World σ} {me v : σ}

/-! ### A transaction as a two-phase commit -/

variable (txid : Txid σ)

def Message.down : Message σ → Option TwoPhase.Down
  | .prepare t _ => if t = txid then some .prepare else none
  | .commit t => if t = txid then some (.outcome true) else none
  | .abort t _ => if t = txid then some (.outcome false) else none
  | _ => none

def Message.up : Message σ → Option Bool
  | .ready t => if t = txid then some true else none
  | .failed t _ => if t = txid then some false else none
  | _ => none

def downs (ms : List (Message σ)) : List TwoPhase.Down :=
  ms.filterMap (Message.down txid)

def ups (ms : List (Message σ)) : List Bool := ms.filterMap (Message.up txid)

def pastView (c : Core σ) : TwoPhase.Coord :=
  match c.outcomes.find? (·.1 = txid) with
  | some o => .done o.2
  | none => .idle

/-- The coordinator of a transaction, as seen by the server `v`. -/
def coordView (v : σ) (c : Core σ) : TwoPhase.Coord :=
  match c.coord with
  | some k => if k.txid = txid then .active (decide (v ∈ k.waiting)) k.failed else pastView txid c
  | none => pastView txid c

def Fate.view : Fate → TwoPhase.Part
  | .refused => .out
  | .pending => .ready
  | .settled commit => .settled commit

def Core.held (c : Core σ) : Option (Deal σ) :=
  c.deals.find? fun d => d.txid = txid && d.fate ≠ .refused

lemma outbox_cons (o : Option σ × Message σ) (outs : Outgoing σ) :
    outbox me (o :: outs) v = outbox me [o] v ++ outbox me outs v :=
  filterMap_append (l := [o])

def partView (c : Core σ) : TwoPhase.Part :=
  ((c.held txid).map (·.fate.view)).getD .out

section Messages

variable {m : Message σ} {txid t : Txid σ} {b : Bool} {order : Order}

lemma down_order (h : m.order = some (t, order)) :
    m.down txid = (if t = txid then some .prepare else none) ∧ m.up txid = none := by
  cases m <;> cases h
  exact ⟨rfl, rfl⟩

lemma down_outcome (h : m.outcome = some (t, b)) :
    m.down txid = (if t = txid then some (.outcome b) else none) ∧ m.up txid = none := by
  cases m <;> cases h
  all_goals exact ⟨rfl, rfl⟩

lemma up_answer (h : m.answer = some (t, b)) :
    m.up txid = (if t = txid then some b else none) ∧ m.down txid = none := by
  cases m <;> cases h
  all_goals exact ⟨rfl, rfl⟩

end Messages

/-! ### The side of the coordinator -/

section CoordSide

variable {c c' : Core σ} {txid : Txid σ} {k k' : Coord σ} {F : Part σ → Prop}

lemma coordView_none (h : c.coord = none) : coordView txid v c = pastView txid c := by
  rw [coordView, h]

lemma coordView_self (h : c.coord = some k) (ht : k.txid = txid) :
    coordView txid v c = .active (decide (v ∈ k.waiting)) k.failed := by
  rw [coordView, h]
  exact if_pos ht

lemma coordView_other (h : c.coord = some k) (ht : k.txid ≠ txid) :
    coordView txid v c = pastView txid c := by
  rw [coordView, h]
  exact if_neg ht

lemma pastView_ne (w f : Bool) : pastView txid c ≠ .active w f := by
  rw [pastView]
  split <;> simp

lemma coordView_congr (hcoord : c'.coord = c.coord) (hout : c'.outcomes = c.outcomes) :
    coordView txid v c' = coordView txid v c := by
  rw [coordView, coordView, pastView, pastView, hcoord, hout]

lemma pastView_finish (b) (q : Part σ) :
    pastView txid (c.finish b k q) = if k.txid = txid then .done b else pastView txid c := by
  by_cases ht : k.txid = txid <;> simp [pastView, finish, ht]

variable {u : σ} {m : Message σ} {b : Bool}

lemma hears_steps {ready} (hk : Hears k u ready k') (hnodup : k.waiting.Nodup)
    (p : TwoPhase.Part) (d : List TwoPhase.Down) (r : List Bool) :
    Steps ⟨.active (decide (v ∈ k.waiting)) k.failed, p, d, (if u = v then [ready] else []) ++ r⟩
      ⟨.active (decide (v ∈ k'.waiting)) k'.failed, p, d, r⟩ := by
  rw [hk.waiting, hk.failed]
  split_ifs with huv
  · subst huv
    rw [decide_eq_false hnodup.not_mem_erase]
    exact .single (.answer _ _ _ _ _ _)
  have hmem : decide (v ∈ k.waiting.erase u) = decide (v ∈ k.waiting) :=
    decide_eq_decide.mpr (mem_erase_of_ne (Ne.symm huv))
  rw [hmem]
  cases ready with
  | true =>
    rw [Bool.not_true, Bool.or_false]
    exact .refl
  | false =>
    rw [Bool.not_false, Bool.or_true]
    exact .single (.fail _ _ _ _ _)

lemma finish_step {w f} (h : f = false → w = false) (p : TwoPhase.Part)
    (d : List TwoPhase.Down) (r : List Bool) :
    Step ⟨.active w f, p, d, r⟩ ⟨.done (!f), p, d ++ [.outcome (!f)], r⟩ := by
  cases f with
  | true => exact .abort w p d r
  | false =>
    rw [h rfl]
    exact .commit p d r

structure Core.Coordinates (me : σ) (c : Core σ) : Prop where
  own : c.Own
  nodup : ∀ k, c.coord = some k → k.waiting.Nodup
  fresh : ∀ o ∈ c.outcomes, o.1.count ≤ c.counter

def answers (txid : Txid σ) (v : σ) : Option (σ × Message σ) → List Bool
  | none => []
  | some (u, m) => if u = v then (m.up txid).toList else []

lemma answers_nil (h : m.up txid = none) : answers txid v (some (u, m)) = [] := by
  rw [answers, h]
  split_ifs <;> rfl

lemma answers_self (h : m.answer = some (txid, b)) :
    answers txid v (some (u, m)) = if u = v then [b] else [] := by
  rw [answers, (up_answer h).1, if_pos rfl]
  rfl

lemma answers_other {t} (h : m.answer = some (t, b)) (ht : t ≠ txid) :
    answers txid v (some (u, m)) = [] :=
  answers_nil (by rw [(up_answer h).1, if_neg ht])

lemma outbox_all (hv : v ≠ me) (m : Message σ) : outbox me [(none, m)] v = [m] := by
  simp [outbox, hv]

lemma outbox_one (u) (m : Message σ) :
    outbox me [(some u, m)] v = if v ≠ me ∧ u = v then [m] else [] := by
  simp only [outbox, filterMap_cons, filterMap_nil, reduceCtorEq, false_or, some.injEq]
  split_ifs <;> rfl

lemma downs_answer {t} (h : m.answer = some (t, b)) :
    downs txid (outbox me [(some u, m)] v) = [] := by
  rw [outbox_one]
  split_ifs
  · rw [downs, filterMap_cons, (up_answer h).2]
    rfl
  · rfl

lemma downs_outcome (hv : v ≠ me) {t} (h : m.outcome = some (t, b)) :
    downs txid (outbox me [(none, m)] v) = if t = txid then [.outcome b] else [] := by
  rw [outbox_all hv, downs, filterMap_cons, (down_outcome h).1]
  split_ifs <;> rfl

lemma coord_side_finish {q r r'} (hk : c.coord = some k) (hv : v ≠ me)
    (hn : m.outcome = some (k.txid, b)) (p : TwoPhase.Part) (d : List TwoPhase.Down)
    (hother : k.txid ≠ txid → r' = r)
    (hend : k.txid = txid → Steps ⟨.active (decide (v ∈ k.waiting)) k.failed, p, d, r'⟩
      ⟨.done b, p, d ++ [.outcome b], r⟩) :
    Steps ⟨coordView txid v c, p, d, r'⟩ ⟨coordView txid v (c.finish b k q), p,
      d ++ downs txid (outbox me [(none, m)] v), r⟩ := by
  rw [coordView_none (c := c.finish b k q) rfl, pastView_finish, downs_outcome hv hn]
  by_cases ht : k.txid = txid
  · rw [if_pos ht, if_pos ht, coordView_self hk ht]
    exact hend ht
  · rw [if_neg ht, if_neg ht, coordView_other hk ht, hother ht, append_nil]

lemma mem_coordCollectPeers (hv : v ≠ me) : v ∈ coordCollectPeers W me := by
  rw [coordCollectPeers, mem_reverse, mem_filter]
  exact ⟨W.mem v, by simpa using hv⟩

lemma coord_side_same {outs : Outgoing σ} (hcoord : c'.coord = c.coord)
    (hout : c'.outcomes = c.outcomes) (houts : downs txid (outbox me outs v) = [])
    (p : TwoPhase.Part) (d : List TwoPhase.Down) (r : List Bool) :
    Steps ⟨coordView txid v c, p, d, r⟩
      ⟨coordView txid v c', p, d ++ downs txid (outbox me outs v), r⟩ := by
  rw [coordView_congr hcoord hout, houts, append_nil]

lemma downs_none (d : List TwoPhase.Down) : d ++ downs txid (outbox me [] v) = d :=
  append_nil d

lemma Effect.coord_side {inp outs}
    (h : Effect W me F c inp c' outs) (hc : c.Coordinates me) (hv : v ≠ me)
    (p : TwoPhase.Part) (d : List TwoPhase.Down) (r : List Bool) :
    Steps ⟨coordView txid v c, p, d, answers txid v inp ++ r⟩
      ⟨coordView txid v c', p, d ++ downs txid (outbox me outs v), r⟩ := by
  cases h with
  | quiet | giveUp | stillborn hcoord => exact coord_side_same rfl rfl rfl p d r
  | busy hm | decline hm | agree hm =>
    rw [answers_nil (down_order hm).2]
    exact coord_side_same rfl rfl (downs_answer rfl) p d r
  | @stale u m t ready hm hcoord =>
    by_cases ht : t = txid
    · subst ht
      have hview : coordView t v c = pastView t c := by
        cases hk : c.coord with
        | none => exact coordView_none hk
        | some k => exact coordView_other hk (hcoord k hk)
      rw [answers_self hm, hview, downs_none]
      split_ifs
      · exact .single (.stale (fun w f => pastView_ne w f) _ _ _ _)
      · exact .refl
    · rw [answers_other hm ht]
      exact coord_side_same rfl rfl rfl p d r
  | @heard u m k ready k' hk hm hk' =>
    rw [downs_none]
    by_cases ht : k.txid = txid
    · subst ht
      rw [coordView_self hk rfl, coordView_self rfl hk'.txid, answers_self hm]
      exact hears_steps hk' (hc.nodup k hk) p d r
    · rw [answers_other hm ht, coordView_other hk ht, coordView_other rfl (hk'.txid ▸ ht)]
      exact .refl
  | @decide u m k ready k' q n hk hm hk' hwaiting hp htxid hn =>
    refine coord_side_finish hk hv hn p d (fun ht => by rw [answers_other hm ht]; rfl) fun ht => ?_
    subst ht
    rw [answers_self hm]
    refine (hears_steps hk' (hc.nodup k hk) p d r).tail (finish_step (fun _ => ?_) p d r)
    rw [hwaiting]
    exact decide_eq_false not_mem_nil
  | ignore hm | settle hp hm =>
    rw [answers_nil (down_outcome hm).2]
    exact coord_side_same rfl rfl rfl p d r
  | timeout hk hp htxid hn =>
    exact coord_side_finish hk hv hn p d (fun _ => rfl) fun _ =>
      .tail (.single (.fail _ _ _ _ _)) (.abort _ _ _ _)
  | @start k q m mods hk hlen hprep hm =>
    rw [coordView_none hk.coord]
    by_cases ht : k.txid = txid
    · subst ht
      have hidle : pastView k.txid c = .idle := by
        rw [pastView, List.find?_eq_none.mpr fun o ho => ?_]
        have hfresh := hc.fresh o ho
        intro heq
        rw [of_decide_eq_true heq, hk.txid] at hfresh
        exact absurd hfresh (Nat.not_succ_le_self _)
      have hmem : v ∈ k.waiting := hk.waiting ▸ mem_coordCollectPeers hv
      rw [hidle, coordView_self rfl rfl, decide_eq_true hmem, hk.failed,
        outbox_all hv, downs, filterMap_cons, (down_order hm).1, if_pos rfl]
      exact .single (.ask _ _ _)
    · rw [coordView_other rfl ht, outbox_all hv, downs,
        filterMap_cons, (down_order hm).1, if_neg ht, filterMap_nil, append_nil]
      exact .refl
  | @alone k q m n mods hk hlen hprep hwaiting hm hn =>
    have hmem : v ∈ k.waiting := hk.waiting ▸ mem_coordCollectPeers hv
    rw [hwaiting] at hmem
    cases hmem

end CoordSide

/-! ### The side of a participant -/

section PartSide

variable {c c' : Core σ} {txid t : Txid σ} {p : Part σ} {order : Order} {mods : List ModuleHandle}
  {init : List ModuleHandle} {b : Bool} {F : Part σ → Prop}

lemma partView_congr (h : c'.deals = c.deals) : partView txid c' = partView txid c := by
  rw [partView, partView, held, held, h]

lemma partView_refused : partView txid (c.record t order .refused mods) = partView txid c := by
  rw [partView, partView, held, held, record, List.find?_cons_of_neg (by simp)]

lemma partView_pending : partView txid (c.record t order .pending mods) =
    if t = txid then .ready else partView txid c := by
  by_cases ht : t = txid <;> simp [partView, held, record, ht, Fate.view]

lemma partView_settle_self (h : Booked W me init c) (hp : c.part = some p) :
    partView p.txid c = .ready ∧ partView p.txid (c.settle b p) = .settled b := by
  obtain ⟨d, ds, hdeals, hopen⟩ := h.part p hp
  rw [partView, partView, held, held, settle, hdeals, closeDeal,
    List.find?_cons_of_pos (by simp [hopen.txid, hopen.fate]),
    List.find?_cons_of_pos (by simp [hopen.txid])]
  simp only [map_some, getD_some, hopen.fate]
  exact ⟨rfl, rfl⟩

lemma partView_settle_ne (h : Booked W me init c) (hp : c.part = some p) (hne : p.txid ≠ txid) :
    partView txid (c.settle b p) = partView txid c := by
  obtain ⟨d, ds, hdeals, hopen⟩ := h.part p hp
  rw [partView, partView, held, held, settle, hdeals, closeDeal,
    List.find?_cons_of_neg (by simp [hopen.txid, hne]),
    List.find?_cons_of_neg (by simp [hopen.txid, hne])]

lemma part_of_ready (h : Booked W me init c) (hready : partView txid c = .ready) :
    ∃ p, c.part = some p ∧ p.txid = txid := by
  rw [partView] at hready
  cases hheld : c.held txid with
  | none =>
    rw [hheld] at hready
    cases hready
  | some d =>
    rw [hheld, map_some] at hready
    have hmem := mem_of_find?_eq_some hheld
    have hprop := List.find?_some hheld
    have htxid : d.txid = txid := by
      simp only [Bool.and_eq_true, decide_eq_true_eq] at hprop
      exact hprop.1
    have hpending : d.fate = .pending := by
      cases hfate : d.fate <;> rw [hfate] at hready <;> cases hready
    cases hp : c.part with
    | none => exact absurd hpending (h.free hp d hmem)
    | some p =>
      obtain ⟨d', ds, hdeals, hopen⟩ := h.part p hp
      have htail := h.tail
      rw [hdeals] at hmem htail
      rcases mem_cons.mp hmem with rfl | hmem
      · exact ⟨p, rfl, hopen.txid.symm.trans htxid⟩
      · exact absurd hpending (htail d hmem)

def tells (txid : Txid σ) : Option (σ × Message σ) → List TwoPhase.Down
  | none => []
  | some (_, m) => (m.down txid).toList

variable {m : Message σ}

lemma ups_all (hv : v ≠ me) (h : m.up txid = none) :
    ups txid (outbox me [(none, m)] v) = [] := by
  rw [outbox_all hv, ups, filterMap_cons, h]
  rfl

lemma ups_answer (hne : txid.server ≠ me) (h : m.answer = some (txid, b)) :
    ups txid (outbox me [(some txid.server, m)] txid.server) = [b] := by
  rw [outbox_one, if_pos ⟨hne, rfl⟩, ups, filterMap_cons, (up_answer h).1, if_pos rfl]
  rfl

lemma ups_answer_ne {u} (h : m.answer = some (t, b)) (ht : t ≠ txid) :
    ups txid (outbox me [(some u, m)] v) = [] := by
  rw [outbox_one]
  split_ifs
  · rw [ups, filterMap_cons, (up_answer h).1, if_neg ht]
    rfl
  · rfl

lemma part_side_same {outs : Outgoing σ} (hview : partView txid c' = partView txid c)
    (houts : ups txid (outbox me outs txid.server) = []) (k : TwoPhase.Coord)
    (d : List TwoPhase.Down) (r : List Bool) : Steps ⟨k, partView txid c, d, r⟩
      ⟨k, partView txid c', d, r ++ ups txid (outbox me outs txid.server)⟩ := by
  rw [hview, houts, append_nil]

lemma ups_none (r : List Bool) : r ++ ups txid (outbox me [] v) = r := append_nil r

lemma part_side_order {u n k d r} (hm : m.order = some (t, order)) (hfrom : t.server = u)
    (hn : n.answer = some (t, b)) (hne : txid.server ≠ me) (hview : partView txid c' =
      if t = txid then (if b then .ready else partView txid c) else partView txid c)
    (hgood : Good ⟨k, partView txid c, tells txid (some (u, m)) ++ d, r⟩) :
    Steps ⟨k, partView txid c, tells txid (some (u, m)) ++ d, r⟩
      ⟨k, partView txid c', d, r ++ ups txid (outbox me [(some u, n)] txid.server)⟩ := by
  subst hfrom
  by_cases ht : t = txid
  · subst ht
    rw [tells, (down_order hm).1, if_pos rfl] at hgood ⊢
    rw [ups_answer hne hn, hview, if_pos rfl, hgood.asked_out]
    cases b with
    | true => exact .single (.accept _ _ _)
    | false => exact .single (.refuse _ _ _)
  · rw [tells, (down_order hm).1, if_neg ht]
    exact part_side_same (hview.trans (if_neg ht)) (ups_answer_ne hn ht) k d r

lemma Effect.part_side {inp outs} (h : Effect W me F c inp c' outs) (hbooked : Booked W me init c)
    (hserver : ∀ k, c.coord = some k → k.txid.server = me)
    (hfrom : ∀ u m t order, inp = some (u, m) → m.order = some (t, order) → t.server = u)
    (hne : txid.server ≠ me) {k d r} (hF : ∀ p, c.part = some p → F p → p.txid = txid → Doomed k)
    (hgood : Good ⟨k, partView txid c, tells txid inp ++ d, r⟩) :
    Steps ⟨k, partView txid c, tells txid inp ++ d, r⟩
      ⟨k, partView txid c', d, r ++ ups txid (outbox me outs txid.server)⟩ := by
  cases h with
  | quiet => exact part_side_same rfl rfl k d r
  | @busy u m t order why hm =>
    exact part_side_order hm (hfrom u m t order rfl hm) rfl hne (by simp) hgood
  | @decline u m t order why mods hm hcoord hpart hprep =>
    exact part_side_order hm (hfrom u m t order rfl hm) rfl hne (by simp [partView_refused]) hgood
  | @agree u m t order undo mods hm hcoord hpart hprep =>
    exact part_side_order hm (hfrom u m t order rfl hm) rfl hne
      ((partView_congr rfl).trans partView_pending) hgood
  | stale hm =>
    rw [tells, (up_answer hm).2]
    exact part_side_same rfl rfl k d r
  | heard hk hm =>
    rw [tells, (up_answer hm).2]
    exact part_side_same (partView_congr rfl) rfl k d r
  | @decide u m j ready j' q n hk hm hk' hwaiting hp htxid hn =>
    have hother : q.txid ≠ txid := fun heq => hne (by rw [← heq, htxid, hserver j hk])
    rw [tells, (up_answer hm).2]
    exact part_side_same ((partView_congr rfl).trans (partView_settle_ne hbooked hp hother))
      (ups_all hne (down_outcome hn).2) k d r
  | @ignore u m t commit hm hpart =>
    by_cases ht : t = txid
    · subst ht
      rw [tells, (down_outcome hm).1, if_pos rfl, ups_none]
      refine .single (.ignore (fun hready => ?_) _ _ _ _)
      obtain ⟨p, hp, htx⟩ := part_of_ready hbooked hready
      exact hpart p hp htx
    · rw [tells, (down_outcome hm).1, if_neg ht]
      exact part_side_same rfl rfl k d r
  | @settle u m q commit hp hm =>
    by_cases ht : q.txid = txid
    · subst ht
      obtain ⟨hready, hsettled⟩ := partView_settle_self hbooked hp
      rw [tells, (down_outcome hm).1, if_pos rfl, hready, hsettled, ups_none]
      exact .single (.settle _ _ _ _)
    · rw [tells, (down_outcome hm).1, if_neg ht]
      exact part_side_same (partView_settle_ne hbooked hp ht) rfl k d r
  | @giveUp q hcoord hp hq =>
    by_cases ht : q.txid = txid
    · subst ht
      obtain ⟨hready, hsettled⟩ := partView_settle_self hbooked hp
      rw [hready, hsettled, ups_none]
      exact .single (.giveUp (hF q hp hq rfl) _ _)
    · exact part_side_same (partView_settle_ne hbooked hp ht) rfl k d r
  | @timeout j q n hk hp htxid hn =>
    have hother : q.txid ≠ txid := fun heq => hne (by rw [← heq, htxid, hserver j hk])
    exact part_side_same ((partView_congr rfl).trans (partView_settle_ne hbooked hp hother))
      (ups_all hne (down_outcome hn).2) k d r
  | stillborn => exact part_side_same ((partView_congr rfl).trans partView_refused) rfl k d r
  | @start j q m mods hk hlen hprep hm =>
    have hother : j.txid ≠ txid := fun heq => hne (by rw [← heq, hk.txid])
    exact part_side_same ((partView_congr rfl).trans (partView_pending.trans (if_neg hother)))
      (ups_all hne (down_order hm).2) k d r
  | @alone j q m n mods hk hlen hprep hwaiting hm hn =>
    have hother : j.txid ≠ txid := fun heq => hne (by rw [← heq, hk.txid])
    have hsettle := partView_settle_ne (b := true) (hbooked.start hk hprep)
      (show (c.start j q mods).part = some q from rfl) (hk.same.1.symm ▸ hother)
    have hpending : partView txid (c.start j q mods) = partView txid c :=
      (partView_congr rfl).trans (partView_pending.trans (if_neg hother))
    refine part_side_same (((partView_congr rfl).trans hsettle).trans hpending) ?_ k d r
    rw [outbox_cons, ups, filterMap_append, ← ups, ← ups, ups_all hne (down_order hm).2,
      ups_all hne (down_outcome hn).2]
    rfl

end PartSide

end Ircu.Modsync
