import Ircu.Msgq.Basic

/-!
What goes over the wire is whole messages.

`order` is the order in which the messages of a queue are sent: one that has been begun
first, then the priority list, then the normal one. `msgqMapiov` lists it and
`msgqDelete` advances in it (`msgqDelete_spec`), so what a write accepts and what is
taken back are the same bytes. A TLS connection that is stopped may have to finish a
message that is no longer the first in this order; `InFlight` says where it is.

* `Inv.step`: the invariant of a connection and each operation.
-/

namespace Ircu.Msgq

open List Parcel Prod MsgQ Function

/-! ### The order of sending -/

def begunPart : List Msg → List Msg
  | [] => []
  | m :: _ => if 0 < m.sent then [m] else []

def order (mq : MsgQ) : List (Bool × Msg) :=
  (begunPart mq.queue).map (Prod.mk false) ++ mq.prio.map (Prod.mk true) ++
    (wholeFrom mq.queue).map (Prod.mk false)

def pick {β : Type*} (l : Bool) (xs : List (Bool × β)) : List β :=
  (xs.filter fun x => x.1 = l).map Prod.snd

section Pick

variable {β : Type*} (l : Bool)

@[simp] lemma pick_nil : pick l ([] : List (Bool × β)) = [] := rfl

@[simp] lemma pick_append (xs ys : List (Bool × β)) :
    pick l (xs ++ ys) = pick l xs ++ pick l ys := by
  simp [pick]

lemma pick_cons (x : Bool × β) (xs : List (Bool × β)) :
    pick l (x :: xs) = if x.1 = l then x.2 :: pick l xs else pick l xs := by
  by_cases h : x.1 = l <;> simp [pick, h]

@[simp] lemma pick_map_self (xs : List β) : pick l (xs.map (mk l)) = xs := by
  simp [pick, filter_map, comp_def]

lemma pick_map_ne {l l'} (h : l' ≠ l) (xs : List β) : pick l (xs.map (mk l')) = [] := by
  simp [pick, filter_map, comp_def, h]

lemma mem_of_mem_pick {l x} {xs : List (Bool × β)} (h : x ∈ pick l xs) : (l, x) ∈ xs := by
  obtain ⟨y, hy, rfl⟩ := mem_map.mp h
  obtain ⟨hmem, heq⟩ := mem_filter.mp hy
  rw [← of_decide_eq_true heq]
  exact hmem

lemma mem_pick {l x} {xs : List (Bool × β)} (h : (l, x) ∈ xs) : x ∈ pick l xs :=
  mem_map.mpr ⟨(l, x), mem_filter.mpr ⟨h, by simp⟩, rfl⟩

lemma pick_items (xs : List (Bool × Msg)) : pick l (items xs) = (pick l xs).map item := by
  induction xs with
  | nil => rfl
  | cons x xs ih =>
    rw [items_cons, pick_cons, pick_cons]
    split_ifs with h
    · rw [map_cons, ih]
    · exact ih

end Pick

variable {mq : MsgQ}

lemma begunPart_append_wholeFrom (ms) : begunPart ms ++ wholeFrom ms = ms := by
  cases ms with
  | nil => rfl
  | cons m ms =>
    rw [begunPart, wholeFrom]
    split_ifs <;> rfl

@[simp] lemma pick_order (l) : pick l (order mq) = mq.list l := by
  cases l with
  | false =>
    rw [order, pick_append, pick_append, pick_map_self, pick_map_self,
      pick_map_ne (by decide), append_nil, begunPart_append_wholeFrom]
    rfl
  | true =>
    rw [order, pick_append, pick_append, pick_map_self, pick_map_ne (by decide),
      pick_map_ne (by decide), append_nil]
    rfl

lemma length_order : (order mq).length = mq.queue.length + mq.prio.length := by
  have h := congrArg List.length (begunPart_append_wholeFrom mq.queue)
  rw [length_append] at h
  simp only [order, length_append, length_map]
  omega

lemma headSent_cons (m ms) : headSent (m :: ms) = decide (0 < m.sent) := rfl

lemma order_of_not_headSent (h : headSent mq.queue = false) :
    order mq = mq.prio.map (mk true) ++ mq.queue.map (mk false) := by
  rw [order]
  cases hq : mq.queue with
  | nil => simp [begunPart, wholeFrom]
  | cons m ms =>
    rw [hq, headSent_cons, decide_eq_false_iff_not] at h
    simp [begunPart, wholeFrom, h]

variable {m : Msg} {ms : List Msg} {l : Bool} {k : ℕ}

lemma order_of_headSent (hq : mq.queue = m :: ms) (hm : 0 < m.sent) :
    order mq = (false, m) :: (mq.prio.map (mk true) ++ ms.map (mk false)) := by
  rw [order, hq]
  simp [begunPart, wholeFrom, hm]

lemma headSent_eq_false (h : ∀ m ∈ ms, m.sent = 0) : headSent ms = false := by
  cases ms with
  | nil => rfl
  | cons m ms => simp [headSent_cons, h m (by simp)]

/-! ### Taking back what was written -/

/-- The list from which `msgq_delete` takes the next bytes. -/
def nextList (mq : MsgQ) : Option Bool :=
  if headSent mq.queue then some false
  else if mq.prio ≠ [] then some true
  else if mq.queue ≠ [] then some false
  else none

lemma msgqDeleteLoop_succ {length : ℕ} (h : length ≠ 0) (n : ℕ) :
    msgqDeleteLoop (n + 1) length mq = match nextList mq with
      | none => some mq
      | some l => (msgqDelmsg mq l length).bind fun r => msgqDeleteLoop n r.2 r.1 := by
  rw [msgqDeleteLoop, if_neg h, nextList]
  split_ifs <;> rfl

lemma nextList_spec (hf : Fresh (order mq)) {xs} (h : order mq = (l, m) :: xs) :
    nextList mq = some l ∧ ∃ ms, mq.list l = m :: ms ∧ order (mq.setList ms l) = xs ∧
      ∀ k hk, 0 < k → order (mq.setList (m.add k hk :: ms) l) = (l, m.add k hk) :: xs := by
  by_cases hs : headSent mq.queue = true
  · -- the normal list has been begun
    cases hq : mq.queue with
    | nil => simp [hq, headSent] at hs
    | cons m' ms =>
      rw [hq, headSent_cons, decide_eq_true_eq] at hs
      rw [order_of_headSent hq hs] at h
      obtain ⟨⟨rfl, rfl⟩, rfl⟩ : (false = l ∧ m' = m) ∧
          mq.prio.map (mk true) ++ ms.map (mk false) = xs := by simpa using h
      have hfresh : headSent ms = false := by
        refine headSent_eq_false fun x hx => ?_
        rw [order_of_headSent hq hs] at hf
        exact hf (false, x) (by simp [hx])
      refine ⟨by simp [nextList, hq, headSent_cons, hs], ms, hq, ?_, fun k hk hpos => ?_⟩
      · exact order_of_not_headSent (h := hfresh)
      · exact order_of_headSent rfl (Nat.add_pos_left hs k)
  rw [Bool.not_eq_true] at hs
  rw [order_of_not_headSent hs] at h hf
  cases hp : mq.prio with
  | cons m' ms =>
    rw [hp] at h
    obtain ⟨⟨rfl, rfl⟩, rfl⟩ : (true = l ∧ m' = m) ∧
        ms.map (mk true) ++ mq.queue.map (mk false) = xs := by simpa using h
    refine ⟨by simp [nextList, hs, hp], ms, hp, ?_, fun k hk _ => ?_⟩
    all_goals exact order_of_not_headSent (h := hs)
  | nil =>
    cases hq : mq.queue with
    | nil => simp [hp, hq] at h
    | cons m' ms =>
      rw [hp, hq] at h hf
      obtain ⟨⟨rfl, rfl⟩, rfl⟩ : (false = l ∧ m' = m) ∧ ms.map (mk false) = xs := by
        simpa using h
      have hfresh : headSent ms = false :=
        headSent_eq_false fun x hx => hf (false, x) (by simp [hx])
      refine ⟨by simp [nextList, hp, hq], ms, hq, ?_, fun k hk hpos => ?_⟩
      · have hset : headSent (mq.setList ms false).queue = false := hfresh
        rw [order_of_not_headSent hset]
        simp [setList, hp]
      · have hset : (mq.setList (m'.add k hk :: ms) false).queue = m'.add k hk :: ms := rfl
        rw [order_of_headSent hset (Nat.add_pos_right _ hpos)]
        simp [setList, hp]

lemma msgqDeleteLoop_zero (n) : msgqDeleteLoop n 0 mq = some mq := by
  cases n <;> rfl

open Option

lemma msgqDeleteLoop_spec (n) : ∀ {mq : MsgQ} {length : ℕ}, Fresh (order mq) →
    (order mq).length < n →
    ∃ mq', msgqDeleteLoop n length mq = some mq' ∧ order mq' = advance length (order mq) := by
  induction n with
  | zero => intro mq length _ hn; omega
  | succ n ih =>
    intro mq length hf hn
    by_cases hlen : length = 0
    · subst hlen
      exact ⟨mq, msgqDeleteLoop_zero _, (advance_zero _).symm⟩
    rw [msgqDeleteLoop_succ hlen]
    cases ho : order mq with
    | nil =>
      have hq : mq.queue = [] := by rw [← list, ← pick_order, ho]; rfl
      have hp : mq.prio = [] := by
        have hpick : pick true (order mq) = mq.prio := pick_order true
        rw [← hpick, ho]
        rfl
      refine ⟨mq, ?_, by rw [ho]; rfl⟩
      simp [nextList, hq, hp, headSent]
    | cons x xs =>
      obtain ⟨l, m⟩ := x
      obtain ⟨hnext, ms, hlist, hdrop, hpart⟩ := nextList_spec hf ho
      rw [hnext]
      dsimp only
      rw [msgqDelmsg, hlist]
      dsimp only
      by_cases hk : length < m.left
      · rw [dif_pos hk, bind_some, msgqDeleteLoop_zero]
        refine ⟨_, rfl, ?_⟩
        rw [advance, dif_pos hk, ← hpart length hk (by omega)]
        cases l <;> rfl
      rw [dif_neg hk, advance, dif_neg hk, ← hdrop]
      have ho' : order { mq.setList ms l with
          length := mq.length - .ofNat m.left, count := mq.count - 1 } = xs := by
        rw [← hdrop]
        cases l <;> rfl
      rw [ho] at hf hn
      exact ih (by rw [ho']; exact hf.of_tail) (by rw [ho']; simpa using hn)

/-- **`msgq_delete` takes back the bytes that were listed first.** -/
lemma msgqDelete_spec (hf : Fresh (order mq)) (length) :
    ∃ mq', msgqDelete mq length = some mq' ∧ order mq' = advance length (order mq) :=
  msgqDeleteLoop_spec _ hf (by rw [length_order]; omega)

/-! ### Listing what is to be written -/

def iovOf (x : Bool × Msg) : Iov := iovRest x.2

lemma iovWhole_eq (h : m.sent = 0) : iovWhole m = iovRest m := by
  rw [iovWhole, iovRest, rest, h, drop_zero]

lemma map_iovWhole (h : ∀ m ∈ ms, m.sent = 0) : ms.map iovWhole = ms.map iovRest :=
  map_congr_left fun m hm => iovWhole_eq (h m hm)

lemma partialIov_append (h : ∀ m ∈ ms.tail, m.sent = 0) :
    partialIov ms ++ (wholeFrom ms).map iovWhole = ms.map iovRest := by
  cases ms with
  | nil => rfl
  | cons m ms =>
    rw [tail_cons] at h
    rw [partialIov, wholeFrom]
    by_cases hm : 0 < m.sent
    · rw [if_pos hm, if_pos hm, map_iovWhole h]
      rfl
    · rw [if_neg hm, if_neg hm, nil_append, map_cons, map_cons,
        iovWhole_eq (by omega), map_iovWhole h]

lemma msgqMapiov_eq (hf : Fresh (order mq)) (count : ℕ) :
    msgqMapiov mq count = if mq.length < 1 then [] else ((order mq).take count).map iovOf := by
  have hall : partialIov mq.queue ++ partialIov mq.prio ++ (wholeFrom mq.prio).map iovWhole ++
      (wholeFrom mq.queue).map iovWhole = (order mq).map iovOf := by
    by_cases hs : headSent mq.queue = true
    · cases hq : mq.queue with
      | nil => simp [hq, headSent] at hs
      | cons m ms =>
        rw [hq, headSent_cons, decide_eq_true_eq] at hs
        rw [order_of_headSent hq hs] at hf ⊢
        have hprio : ∀ x ∈ mq.prio, x.sent = 0 := fun x hx => hf (true, x) (by simp [hx])
        have hms : ∀ x ∈ ms, x.sent = 0 := fun x hx => hf (false, x) (by simp [hx])
        rw [append_assoc, append_assoc, ← append_assoc (partialIov mq.prio),
          partialIov_append fun x hx => hprio x (mem_of_mem_tail hx)]
        simp [partialIov, wholeFrom, hs, map_iovWhole hms, iovOf, comp_def]
    rw [Bool.not_eq_true] at hs
    rw [order_of_not_headSent hs] at hf ⊢
    have hprio : ∀ x ∈ mq.prio.tail, x.sent = 0 := by
      intro x hx
      cases hp : mq.prio with
      | nil => simp [hp] at hx
      | cons m ms =>
        rw [hp] at hf hx
        rw [tail_cons] at hx
        exact hf (true, x) (by simp [hx])
    have hqueue : ∀ x ∈ mq.queue.tail, x.sent = 0 := by
      intro x hx
      refine hf (false, x) ?_
      cases hp : mq.prio with
      | nil =>
        rw [map_nil, nil_append, ← map_tail]
        exact mem_map_of_mem hx
      | cons m ms => simp [mem_of_mem_tail hx]
    have hpart : partialIov mq.queue = [] := by
      cases hq : mq.queue with
      | nil => rfl
      | cons m ms =>
        rw [hq, headSent_cons, decide_eq_false_iff_not] at hs
        exact if_neg hs
    have hwhole := partialIov_append hqueue
    rw [hpart, nil_append] at hwhole
    rw [hpart, nil_append, partialIov_append hprio, hwhole]
    simp [iovOf, comp_def]
  rw [msgqMapiov, hall, map_take]

lemma exists_msgqMapiov_eq (hf : Fresh (order mq)) (count : ℕ) :
    ∃ n, msgqMapiov mq count = ((order mq).take n).map iovOf := by
  rw [msgqMapiov_eq hf]
  split_ifs
  · exact ⟨0, rfl⟩
  · exact ⟨count, rfl⟩

/-! ### Adding a message -/

/-- A new message goes behind those of its list and before those of the other one, and
never before a message that has been begun. -/
lemma order_msgqAdd (mq) (mb : MsgBuf) (prio : Bool) :
    ∃ xs ys, order mq = xs ++ ys ∧
      order (msgqAdd mq mb prio) = xs ++ (prio, ⟨mb, 0, mb.pos⟩) :: ys ∧
      (xs = [] → begun ys = []) := by
  cases prio with
  | false =>
    refine ⟨order mq, [], by simp, ?_, fun _ => rfl⟩
    rw [order, order]
    cases hq : mq.queue with
    | nil => simp [msgqAdd, setList, list, hq, begunPart, wholeFrom]
    | cons m ms =>
      by_cases hm : 0 < m.sent <;>
        simp [msgqAdd, setList, list, hq, begunPart, wholeFrom, hm]
  | true =>
    refine ⟨(begunPart mq.queue).map (mk false) ++ mq.prio.map (mk true),
      (wholeFrom mq.queue).map (mk false), rfl, ?_, fun hnil => ?_⟩
    · simp [order, msgqAdd, setList, list]
    cases hq : mq.queue with
    | nil => rfl
    | cons m ms =>
      have hm : ¬ 0 < m.sent := by
        intro hm
        simp [hq, begunPart, hm] at hnil
      simp [wholeFrom, begun, show m.sent = 0 by omega]

/-! ### Writing to TLS -/

lemma drain_spec (rs) : ∀ {v : Iov}, v.bytes ≠ [] →
    ((drain rs v).io = .success ∧ (drain rs v).out = v.bytes ∧ (drain rs v).left = none) ∨
      (drain rs v).io ≠ .success ∧ ∃ k < v.bytes.length, (drain rs v).out = v.bytes.take k ∧
        (drain rs v).left = some ⟨v.addr, v.off + k, v.bytes.drop k⟩ := by
  induction rs with
  | nil =>
    intro v hne
    exact .inr ⟨by simp [drain], 0, length_pos_of_ne_nil hne, by simp [drain], by simp [drain]⟩
  | cons r rs ih =>
    intro v hne
    have hpos := length_pos_of_ne_nil hne
    cases r with
    | blocked | failure => exact .inr ⟨by simp [drain], 0, hpos, by simp [drain], by simp [drain]⟩
    | wrote n =>
      rw [drain]
      dsimp only
      by_cases hk : max 1 (min n v.bytes.length) = v.bytes.length
      · rw [if_pos hk]
        exact .inl ⟨rfl, rfl, rfl⟩
      rw [if_neg hk]
      generalize hkdef : max 1 (min n v.bytes.length) = k at hk
      have hne' : v.bytes.drop k ≠ [] := by
        rw [ne_eq, drop_eq_nil_iff]
        omega
      rcases ih (v := ⟨v.addr, v.off + k, v.bytes.drop k⟩) hne' with
        ⟨hio, hout, hleft⟩ | ⟨hio, j, hj, hout, hleft⟩
      · refine .inl ⟨hio, ?_, hleft⟩
        rw [hout]
        exact take_append_drop _ _
      rw [length_drop] at hj
      refine .inr ⟨hio, k + j, by omega, ?_, ?_⟩
      · rw [hout]
        exact take_add.symm
      · rw [hleft, drop_drop, Nat.add_assoc]

/-- **What the loop over the vectors writes** is the first bytes of the messages. If it
stops, it keeps the vector of the message that is next. -/
lemma sendIovs_spec : ∀ (xs : List (Bool × Msg)) (rs : List Res),
    ∃ k ≤ (unsent xs).length, (sendIovs (xs.map iovOf) rs).out = (unsent xs).take k ∧
      ((sendIovs (xs.map iovOf) rs).io = .success ∧ (sendIovs (xs.map iovOf) rs).left = none ∨
        (sendIovs (xs.map iovOf) rs).io ≠ .success ∧ ∃ x ys, advance k xs = x :: ys ∧
          (sendIovs (xs.map iovOf) rs).left = some (iovOf x)) := by
  intro xs
  induction xs with
  | nil =>
    intro rs
    exact ⟨0, by simp, rfl, .inl ⟨rfl, rfl⟩⟩
  | cons x xs ih =>
    intro rs
    have hne : (iovOf x).bytes ≠ [] := by
      have hpos := x.2.left_pos
      rw [← length_rest] at hpos
      exact ne_nil_of_length_pos hpos
    rw [map_cons, sendIovs]
    dsimp only
    rcases drain_spec rs hne with ⟨hio, hout, hleft⟩ | ⟨hio, k, hk, hout, hleft⟩
    · rw [if_pos hio]
      obtain ⟨j, hj, hout', hrest⟩ := ih (drain rs (iovOf x)).rs
      refine ⟨x.2.left + j, ?_, ?_, ?_⟩
      · rw [unsent_cons, length_append, length_rest]
        omega
      · have hall : x.2.rest.take (x.2.left + j) = x.2.rest :=
          take_of_length_le (by rw [length_rest]; omega)
        rw [hout, hout', unsent_cons, take_append, length_rest, Nat.add_sub_cancel_left, hall]
        rfl
      · rw [advance, dif_neg (by omega), Nat.add_sub_cancel_left]
        exact hrest
    rw [if_neg hio]
    have hk' : k < x.2.left := by
      rw [← length_rest]
      exact hk
    refine ⟨k, ?_, ?_, .inr ⟨hio, (x.1, x.2.add k hk'), xs, ?_, ?_⟩⟩
    · rw [unsent_cons, length_append, length_rest]
      omega
    · rw [hout, unsent_cons, take_append, length_rest,
        show k - x.2.left = 0 by omega, take_zero, append_nil]
      rfl
    · rw [advance, dif_pos hk']
    · rw [hleft, iovOf, iovOf, iovRest, iovRest, rest, drop_drop]
      rfl

/-! ### The invariant of a connection -/

def flat (ms : List (Bool × MsgBuf)) : List UInt8 := ms.flatMap fun x => x.2.msg

@[simp] lemma flat_append (xs ys : List (Bool × MsgBuf)) : flat (xs ++ ys) = flat xs ++ flat ys :=
  flatMap_append

/-- The vector `v` that TLS has to write next is the rest of a message at the head of its
list, of which `v.off` bytes are out. Nothing else has been begun. -/
structure InFlight (mq : MsgQ) (v : Iov) (l : Bool) (m : Msg) (ms : List Msg) : Prop where
  list : mq.list l = m :: ms
  addr : v.addr = m.item.addr
  bytes : v.bytes = m.item.msg.drop v.off
  lt : v.off < m.item.msg.length
  rest : ∀ x ∈ ms, x.sent = 0
  other : ∀ x ∈ mq.list (!l), x.sent = 0

/-- What is being sent: the next message in order, or the one that TLS has to finish. -/
def Sending (c : Conn) (done : List (Bool × MsgBuf)) : Prop :=
  match c.rexmit with
  | none => Fresh (order c.sendQ) ∧ c.wire = flat done ++ begun (order c.sendQ)
  | some v => ∃ l m ms, InFlight c.sendQ v l m ms ∧ c.wire = flat done ++ m.item.msg.take v.off

/-- No buffer is in both lists. -/
def MsgQ.Apart (mq : MsgQ) : Prop :=
  ∀ x ∈ (mq.list false).map Parcel.item, ∀ y ∈ (mq.list true).map Parcel.item, x.addr ≠ y.addr

/-- **A connection that is alive**: the messages `done` are out, and what is left of each
list is in its queue. Over TLS, no buffer is in both. -/
structure Inv (c : Conn) (done : List (Bool × MsgBuf)) : Prop where
  alive : c.dead = false
  lists : ∀ l, pick l done ++ (c.sendQ.list l).map Parcel.item = pick l c.added
  sending : Sending c done
  plain : c.tls = false → c.rexmit = none
  apart : c.tls = true → c.sendQ.Apart

/-- What a connection has written, whether it is alive or not: whole messages, a proper
part of one more, each list in its order. -/
structure Whole (c : Conn) (done : List (Bool × MsgBuf)) (cur : Option (Bool × MsgBuf × ℕ)) :
    Prop where
  wire : c.wire = flat done ++ cur.elim [] fun x => x.2.1.msg.take x.2.2
  part : ∀ x ∈ cur, x.2.2 < x.2.1.msg.length
  lists : ∀ l, pick l (done ++ (cur.map fun x => (x.1, x.2.1)).toList) <+: pick l c.added

variable {c : Conn} {done : List (Bool × MsgBuf)}

lemma items_advance {mq'} (hmq : order mq' = advance k (order mq)) (l) :
    pick l (finished k (order mq)) ++ (mq'.list l).map item = (mq.list l).map item := by
  have hsplit := congrArg (pick l) (finished_append k (order mq))
  rwa [pick_append, pick_items, pick_items, ← hmq, pick_order, pick_order] at hsplit

lemma lists_advance (h : ∀ l, pick l done ++ (c.sendQ.list l).map item = pick l c.added)
    {mq} (hmq : order mq = advance k (order c.sendQ)) (l) :
    pick l (done ++ finished k (order c.sendQ)) ++ (mq.list l).map item = pick l c.added := by
  rw [pick_append, append_assoc, items_advance hmq, h l]

lemma MsgQ.Apart.mono {mq' : MsgQ} (h : mq.Apart)
    (hsub : ∀ l, (mq'.list l).map item ⊆ (mq.list l).map item) : mq'.Apart :=
  fun x hx y hy => h x (hsub false hx) y (hsub true hy)

lemma Inv.whole (h : Inv c done) : ∃ cur, Whole c done cur := by
  have hs := h.sending
  rw [Sending] at hs
  cases hr : c.rexmit with
  | none =>
    rw [hr] at hs
    obtain ⟨-, hwire⟩ := hs
    cases ho : order c.sendQ with
    | nil =>
      rw [ho] at hwire
      refine ⟨none, hwire, by simp, fun l => ?_⟩
      exact ⟨_, by simpa using h.lists l⟩
    | cons x xs =>
      rw [ho] at hwire
      refine ⟨some (x.1, x.2.item, x.2.sent), hwire, ?_, fun l => ?_⟩
      · rintro y hy
        obtain rfl := some_inj.mp hy
        exact x.2.lt
      have hl := h.lists l
      rw [← pick_order, ho, ← pick_items] at hl
      rw [← hl]
      exact ⟨pick l (items xs), by rw [← pick_append]; simp⟩
  | some v =>
    rw [hr] at hs
    obtain ⟨l, m, ms, hfl, hwire⟩ := hs
    refine ⟨some (l, m.item, v.off), hwire, ?_, fun l' => ?_⟩
    · rintro y hy
      obtain rfl := some_inj.mp hy
      exact hfl.lt
    by_cases hl : l' = l
    · subst hl
      have hl := h.lists l'
      rw [hfl.list] at hl
      rw [← hl]
      exact ⟨ms.map item, by simp [pick_cons]⟩
    · have hne : ¬ l = l' := fun he => hl he.symm
      exact ⟨_, by simpa [pick_cons, hne] using h.lists l'⟩

lemma list_msgqAdd (mq) (mb : MsgBuf) (prio l : Bool) : (msgqAdd mq mb prio).list l =
      if l = prio then mq.list l ++ [⟨mb, 0, mb.pos⟩] else mq.list l := by
  cases prio <;> cases l <;> rfl

lemma Inv.add (h : Inv c done) (mb : MsgBuf) {prio}
    (hapart : c.tls = true → ∀ m ∈ c.sendQ.list (!prio), m.item.addr ≠ mb.addr) :
    Inv { c with sendQ := msgqAdd c.sendQ mb prio, added := c.added ++ [(prio, mb)] } done := by
  refine ⟨h.alive, fun l => ?_, ?_, h.plain, fun htls x hx y hy => ?_⟩
  · rw [list_msgqAdd, pick_append, ← h.lists l, pick_cons]
    by_cases hl : l = prio
    · simp [hl]
    · have hne : ¬ prio = l := fun he => hl he.symm
      simp [hl, hne]
  · have hs := h.sending
    rw [Sending] at hs ⊢
    cases hr : c.rexmit with
    | none =>
      rw [hr] at hs
      obtain ⟨xs, ys, ho, ho', hnil⟩ := order_msgqAdd c.sendQ mb prio
      rw [ho] at hs
      obtain ⟨hf, hb⟩ := hs.1.insert hnil (x := (prio, ⟨mb, 0, mb.pos⟩)) rfl
      rw [ho', hb]
      exact ⟨hf, hs.2⟩
    | some v =>
      rw [hr] at hs
      obtain ⟨l, m, ms, hfl, hwire⟩ := hs
      have hzero : ∀ x : Msg, x ∈ [(⟨mb, 0, mb.pos⟩ : Msg)] → x.sent = 0 := by simp
      refine ⟨l, m, if l = prio then ms ++ [⟨mb, 0, mb.pos⟩] else ms, ⟨?_, hfl.addr, hfl.bytes,
        hfl.lt, fun x hx => ?_, fun x hx => ?_⟩, hwire⟩
      · rw [list_msgqAdd, hfl.list]
        split_ifs <;> rfl
      · split_ifs at hx
        · exact (mem_append.mp hx).elim (hfl.rest x) (hzero x)
        · exact hfl.rest x hx
      rw [list_msgqAdd] at hx
      split_ifs at hx
      · exact (mem_append.mp hx).elim (hfl.other x) (hzero x)
      · exact hfl.other x hx
  · rw [list_msgqAdd] at hx hy
    cases prio with
    | false =>
      rw [if_neg (by decide)] at hy
      rw [if_pos rfl, map_append, mem_append] at hx
      rcases hx with hx | hx
      · exact h.apart htls x hx y hy
      · obtain ⟨m, hm, rfl⟩ := mem_map.mp hy
        obtain rfl := mem_singleton.mp hx
        exact (hapart htls m hm).symm
    | true =>
      rw [if_neg (by decide)] at hx
      rw [if_pos rfl, map_append, mem_append] at hy
      rcases hy with hy | hy
      · exact h.apart htls x hx y hy
      · obtain ⟨m, hm, rfl⟩ := mem_map.mp hx
        obtain rfl := mem_singleton.mp hy
        exact hapart htls m hm

lemma mem_order (h : (l, m) ∈ order mq) : m ∈ mq.list l := by
  rw [← pick_order]
  exact mem_pick h

lemma order_unbegun (h : ∀ l, ∀ x ∈ mq.list l, x.sent = 0) :
    Fresh (order mq) ∧ begun (order mq) = [] :=
  fresh_of_forall fun x hx => h x.1 x.2 (mem_order hx)

lemma InFlight.fresh {v} (h : InFlight mq v l m ms) : Fresh (order mq) := by
  by_cases hm : m.sent = 0
  · refine (order_unbegun fun l' x hx => ?_).1
    by_cases hl : l' = l
    · subst hl
      rw [h.list] at hx
      rcases mem_cons.mp hx with rfl | hx
      · exact hm
      · exact h.rest x hx
    · exact h.other x (by rwa [Bool.eq_not.mpr hl] at hx)
  cases l with
  | false =>
    rw [order_of_headSent h.list (by omega)]
    intro x hx
    rcases mem_append.mp hx with hx | hx
    · obtain ⟨y, hy, rfl⟩ := mem_map.mp hx
      exact h.other y hy
    · obtain ⟨y, hy, rfl⟩ := mem_map.mp hx
      exact h.rest y hy
  | true =>
    have hprio : mq.prio = m :: ms := h.list
    rw [order_of_not_headSent (headSent_eq_false h.other), hprio]
    intro x hx
    rcases mem_append.mp hx with hx | hx
    · obtain ⟨y, hy, rfl⟩ := mem_map.mp hx
      exact h.rest y hy
    · obtain ⟨y, hy, rfl⟩ := mem_map.mp hx
      exact h.other y hy

lemma Inv.fresh (h : Inv c done) : Fresh (order c.sendQ) := by
  have hs := h.sending
  rw [Sending] at hs
  cases hr : c.rexmit with
  | none =>
    rw [hr] at hs
    exact hs.1
  | some v =>
    rw [hr] at hs
    obtain ⟨l, m, ms, hfl, -⟩ := hs
    exact hfl.fresh

/-! ### Sending -/

lemma msgqlistExcise_head {addr off} (hlist : mq.list l = m :: ms) (haddr : addr = m.item.addr)
    (hoff : off < m.item.msg.length) :
    ∃ mq', msgqlistExcise mq l addr off = some mq' ∧ mq'.list l = ms ∧
      mq'.list (!l) = mq.list (!l) := by
  rw [msgqlistExcise, hlist]
  dsimp only
  rw [if_pos ⟨haddr.symm, hoff⟩, msgqDelmsg, hlist]
  dsimp only
  rw [dif_neg (lt_irrefl _)]
  exact ⟨_, rfl, by cases l <;> rfl, by cases l <;> rfl⟩

lemma msgqExcise_spec {v} (h : InFlight mq v l m ms)
    (hone : l = true → ∀ x ∈ mq.queue, x.item.addr ≠ m.item.addr) :
    ∃ mq', msgqExcise mq v.addr v.off = some mq' ∧ mq'.list l = ms ∧
      mq'.list (!l) = mq.list (!l) := by
  obtain ⟨mq', hex, hl, hother⟩ := msgqlistExcise_head h.list h.addr h.lt
  refine ⟨mq', ?_, hl, hother⟩
  cases l with
  | false =>
    rw [msgqExcise, hex]
    rfl
  | true =>
    have hnone : msgqlistExcise mq false v.addr v.off = none := by
      rw [msgqlistExcise]
      cases hq : mq.list false with
      | nil => rfl
      | cons x xs =>
        have hne := hone rfl x (by rw [← list, hq]; simp)
        exact if_neg fun hx => hne (hx.1.trans h.addr)
    rw [msgqExcise, hnone, none_or, hex]

lemma tlsResume_spec (h : Inv c done) (htls : c.tls = true) (rs) :
    ∃ c' io rs' done', tlsResume c rs = some (c', io, rs') ∧ Inv c' done' ∧
      c'.tls = true ∧ (io = .success → c'.rexmit = none) := by
  have hs := h.sending
  rw [Sending] at hs
  rw [tlsResume]
  cases hr : c.rexmit with
  | none => exact ⟨c, .success, rs, done, rfl, h, htls, fun _ => hr⟩
  | some v =>
    rw [hr] at hs
    obtain ⟨l, m, ms, hfl, hwire⟩ := hs
    have hne : v.bytes ≠ [] := by
      rw [hfl.bytes, ne_eq, drop_eq_nil_iff]
      exact not_le.mpr hfl.lt
    dsimp only
    rcases drain_spec rs hne with ⟨hio, hout, hleft⟩ | ⟨hio, k, hk, hout, hleft⟩
    · -- the message is out: it leaves its list
      have hone : l = true → ∀ x ∈ c.sendQ.queue, x.item.addr ≠ m.item.addr := by
        rintro rfl x hx
        exact h.apart htls _ (mem_map_of_mem hx) _ (mem_map_of_mem (hfl.list ▸ mem_cons_self))
      obtain ⟨mq', hex, hl, hother⟩ := msgqExcise_spec hfl hone
      rw [if_pos hio, hex]
      have hzero : ∀ l', ∀ x ∈ mq'.list l', x.sent = 0 := by
        intro l' x hx
        by_cases hl' : l' = l
        · subst hl'
          exact hfl.rest x (hl ▸ hx)
        · rw [Bool.eq_not.mpr hl', hother] at hx
          exact hfl.other x hx
      obtain ⟨hfresh, hbegun⟩ := order_unbegun hzero
      have hsub : ∀ l', (mq'.list l').map item ⊆ (c.sendQ.list l').map item := by
        intro l'
        by_cases hl' : l' = l
        · rw [hl', hl, hfl.list]
          exact subset_cons_self _ _
        · rw [Bool.eq_not.mpr hl', hother]
          exact Subset.refl _
      refine ⟨_, .success, _, done ++ [(l, m.item)], rfl, ⟨h.alive, fun l' => ?_, ?_, ?_,
        fun _ => (h.apart htls).mono hsub⟩, htls, fun _ => hleft⟩
      · rw [← h.lists l', pick_append, pick_cons]
        by_cases hl' : l' = l
        · subst hl'
          simp [hl, hfl.list]
        · have hne' : ¬ l = l' := fun he => hl' he.symm
          rw [Bool.eq_not.mpr hl'] at hne' ⊢
          simp [hne', hother]
      · rw [hleft]
        refine ⟨hfresh, ?_⟩
        rw [hbegun, hout, hwire, hfl.bytes, append_assoc]
        simp [flat]
      · rintro -
        exact hleft
    · rw [if_neg hio]
      rw [hfl.bytes, length_drop] at hk
      refine ⟨_, _, _, done, rfl, ⟨h.alive, h.lists, ?_, ?_, h.apart⟩, htls,
        fun he => absurd he hio⟩
      · rw [hleft]
        refine ⟨l, m, ms, ⟨hfl.list, hfl.addr, ?_, ?_, hfl.rest, hfl.other⟩, ?_⟩
        · rw [hfl.bytes, drop_drop]
        · dsimp only
          omega
        · rw [hout, hwire, hfl.bytes, take_add, append_assoc]
      · intro hfalse
        rw [htls] at hfalse
        exact absurd hfalse (by simp)

lemma flatMap_iovOf (xs : List (Bool × Msg)) : (xs.map iovOf).flatMap Iov.bytes = unsent xs := by
  rw [flatMap_map]
  rfl

/-- **Bytes that were listed have been accepted.** Once they are taken back from the
queue, the connection is as it should be: it has finished some messages and may stand
within another one, which TLS keeps for later. -/
lemma Inv.accept (h : Inv c done) (hr : c.rexmit = none) {count}
    (hk : k ≤ (unsent ((order c.sendQ).take count)).length) {mq}
    (hmq : order mq = advance k (order c.sendQ)) {left}
    (hleft : left = none ∨ c.tls = true ∧ ∃ x xs, advance k ((order c.sendQ).take count) = x :: xs ∧
      left = some (iovOf x)) :
    Inv { c with
      wire := c.wire ++ (unsent ((order c.sendQ).take count)).take k, sendQ := mq, rexmit := left }
      (done ++ finished k (order c.sendQ)) := by
  have hs := h.sending
  rw [Sending, hr] at hs
  obtain ⟨hf, hwire⟩ := hs
  have hsplit : unsent (order c.sendQ) =
      unsent ((order c.sendQ).take count) ++ unsent ((order c.sendQ).drop count) := by
    rw [unsent, unsent, unsent, ← flatMap_append, take_append_drop]
  have htake : (unsent ((order c.sendQ).take count)).take k = (unsent (order c.sendQ)).take k := by
    rw [hsplit, take_append_of_le_length hk]
  have hout : c.wire ++ (unsent ((order c.sendQ).take count)).take k =
      flat (done ++ finished k (order c.sendQ)) ++ begun (order mq) := by
    rw [htake, hwire, append_assoc, begun_append_take hf, hmq, flat_append, append_assoc]
    rfl
  have hfresh : Fresh (order mq) := by
    rw [hmq]
    exact hf.advance k
  refine ⟨h.alive, lists_advance h.lists hmq, ?_, fun hplain => ?_,
    fun ht => (h.apart ht).mono fun l => ?_⟩
  · rcases hleft with rfl | ⟨-, x, xs, hadv, rfl⟩
    · exact ⟨hfresh, hout⟩
    have ho : order mq = x :: (xs ++ (order c.sendQ).drop count) := by
      have happ := advance_append ((order c.sendQ).drop count) hk
      rw [take_append_drop, hadv] at happ
      rw [hmq, happ, cons_append]
    rw [ho] at hout hfresh
    have hlist : pick x.1 (order mq) = mq.list x.1 := pick_order x.1
    rw [ho, pick_cons, if_pos rfl] at hlist
    refine ⟨x.1, x.2, _, ⟨hlist.symm, rfl, rfl, x.2.lt, fun y hy => ?_, fun y hy => ?_⟩, hout⟩
    · exact hfresh _ (mem_of_mem_pick hy)
    · rw [← pick_order, ho, pick_cons, if_neg (by cases x.1 <;> simp)] at hy
      exact hfresh _ (mem_of_mem_pick hy)
  · rcases hleft with rfl | ⟨htls, -⟩
    · rfl
    · rw [hplain] at htls
      exact absurd htls (by simp)
  · rw [← items_advance hmq l]
    exact subset_append_right _ _

/-- The state a connection is in after any operation: alive, or given up with whole
messages on the wire. -/
def Ok (c : Conn) : Prop :=
  (∃ done, Inv c done) ∨
    c.dead = true ∧ Fresh (order c.sendQ) ∧ ∃ done cur, Whole c done cur

lemma deadLink_spec (hf : Fresh (order c.sendQ)) (hw : ∃ done cur, Whole c done cur) :
    ∃ c', deadLink c = some c' ∧ Ok c' := by
  obtain ⟨mq, hdel, hmq⟩ := msgqDelete_spec hf c.sendQ.length.toNat
  obtain ⟨done, cur, hw⟩ := hw
  rw [deadLink, hdel]
  refine ⟨_, rfl, .inr ⟨rfl, ?_, done, cur, hw.wire, hw.part, hw.lists⟩⟩
  rw [hmq]
  exact hf.advance _

lemma settle_accept (h : Inv c done) (hr : c.rexmit = none) {count}
    (hk : k ≤ (unsent ((order c.sendQ).take count)).length) {left}
    (hleft : left = none ∨ c.tls = true ∧ ∃ x xs, advance k ((order c.sendQ).take count) = x :: xs ∧
      left = some (iovOf x)) :
    ∃ c', settle ({ c with
      wire := c.wire ++ (unsent ((order c.sendQ).take count)).take k, rexmit := left }, k) =
        some c' ∧ Ok c' := by
  rw [settle]
  by_cases hpos : 0 < k
  · obtain ⟨mq, hdel, hmq⟩ := msgqDelete_spec h.fresh k
    rw [if_pos hpos]
    rw [hdel]
    exact ⟨_, rfl, .inl ⟨_, h.accept hr hk hmq hleft⟩⟩
  · have hmq : order c.sendQ = advance k (order c.sendQ) := by
      rw [show k = 0 by omega, advance_zero]
    rw [if_neg hpos, if_neg (by simp [h.alive])]
    exact ⟨_, rfl, .inl ⟨_, h.accept hr hk hmq hleft⟩⟩

lemma settle_failure (h : Inv c done) {d} (hwire : d.wire = c.wire)
    (hadded : d.added = c.added) (hf : Fresh (order d.sendQ)) (hdead : d.dead = true) :
    ∃ c', settle (d, 0) = some c' ∧ Ok c' := by
  obtain ⟨cur, hw⟩ := h.whole
  rw [settle, if_pos hdead]
  exact deadLink_spec hf ⟨done, cur, by rw [hwire]; exact hw.wire, hw.part,
    by rw [hadded]; exact hw.lists⟩

lemma osSendvNonb_spec (h : Inv c done) (htls : c.tls = false) (rs) :
    ∃ c', settle (markDead (osSendvNonb c rs)) = some c' ∧ Ok c' := by
  have hr := h.plain htls
  have hstay : ∃ c', settle ({ c with dead := c.dead || false }, 0) = some c' ∧ Ok c' := by
    rw [settle, if_neg (by simp), if_neg (by simp [h.alive])]
    refine ⟨_, rfl, .inl ⟨done, ?_⟩⟩
    simpa using h
  rw [osSendvNonb, markDead]
  cases hres : rs.head? with
  | none => exact hstay
  | some r =>
    cases r with
    | blocked => exact hstay
    | failure =>
      exact settle_failure h rfl rfl h.fresh (by simp)
    | wrote n =>
      obtain ⟨count, hlisted⟩ := exists_msgqMapiov_eq h.fresh c.iovMax
      dsimp only
      rw [hlisted, flatMap_iovOf]
      generalize hk : ((unsent ((order c.sendQ).take count)).take n).length = k
      rw [length_take] at hk
      have hout : (unsent ((order c.sendQ).take count)).take n =
          (unsent ((order c.sendQ).take count)).take k := by
        rw [← hk, take_eq_take_min]
      rw [hout]
      have hle : k ≤ (unsent ((order c.sendQ).take count)).length := by omega
      have hset := settle_accept h hr hle (.inl (rfl : (none : Option Iov) = none))
      simpa [hr] using hset

lemma tlsSendQueue_spec (h : Inv c done) (htls : c.tls = true) (hr : c.rexmit = none) (rs) :
    ∃ c', settle (markDead (tlsSendQueue c rs)) = some c' ∧ Ok c' := by
  obtain ⟨count, hlisted⟩ := exists_msgqMapiov_eq h.fresh TLS_IOV
  obtain ⟨k, hk, hout, hend⟩ := sendIovs_spec ((order c.sendQ).take count) rs
  have hlen : ((unsent ((order c.sendQ).take count)).take k).length = k := by
    rw [length_take]
    omega
  rw [markDead, tlsSendQueue, hlisted]
  rw [hout, hlen]
  generalize hio : (sendIovs (((order c.sendQ).take count).map iovOf) rs).io = io at hend
  generalize (sendIovs (((order c.sendQ).take count).map iovOf) rs).left = left at hend
  have hleft : left = none ∨ c.tls = true ∧ ∃ x xs,
      advance k ((order c.sendQ).take count) = x :: xs ∧ left = some (iovOf x) :=
    hend.imp (fun he => he.2) fun he => ⟨htls, he.2⟩
  by_cases hfail : io = .failure
  · -- the bytes of this call are not taken back any more
    obtain ⟨mq, -, hmq⟩ := msgqDelete_spec h.fresh k
    rw [if_pos hfail]
    exact settle_failure (h.accept hr hk hmq hleft) rfl rfl h.fresh (by simp [hfail])
  · have hset := settle_accept h hr hk hleft
    simpa [hfail] using hset

lemma sendQueued_spec (h : Inv c done) (rs) :
    ∃ c', sendQueued c rs = some c' ∧ Ok c' := by
  rw [sendQueued]
  by_cases hidle : c.dead ∨ c.sendQ.length = 0
  · rw [if_pos hidle]
    exact ⟨c, rfl, .inl ⟨done, h⟩⟩
  rw [if_neg hidle, deliverIt]
  by_cases htls : c.tls = true
  · obtain ⟨c1, io, rs', done1, hres, hinv, htls1, hrexmit⟩ := tlsResume_spec h htls rs
    rw [if_pos htls, ircdTlsSendv, hres, map_some, map_some, bind_some]
    by_cases hio : io = .success
    · rw [if_pos hio]
      exact tlsSendQueue_spec hinv htls1 (hrexmit hio) rs'
    rw [if_neg hio]
    by_cases hfail : io = .failure
    · exact settle_failure hinv rfl rfl hinv.fresh (by simp [hfail])
    · have hmark : markDead (c1, 0, io) = (c1, 0) := by simp [markDead, hfail]
      rw [hmark]
      exact ⟨c1, by simp [settle, hinv.alive], .inl ⟨done1, hinv⟩⟩
  · rw [if_neg htls]
    exact osSendvNonb_spec h (by simpa using htls) rs

/-! ### Runs -/

/-- Over TLS, no buffer is queued with one priority while it is queued with the other one. -/
def Apart (c : Conn) : Op → Prop
  | .add mb prio => c.tls = true → ∀ m ∈ c.sendQ.list (!prio), m.item.addr ≠ mb.addr
  | _ => True

instance (c : Conn) : ∀ op, Decidable (Apart c op)
  | .add _ _ => inferInstanceAs (Decidable (_ → _))
  | .send _ | .deadLink => .isTrue trivial

/-- **One operation** does not fail, and what is on the wire stays whole. -/
lemma Ok.step (h : Ok c) (op : Op) (hop : Apart c op) : ∃ c', step c op = some c' ∧ Ok c' := by
  rcases h with ⟨done, hinv⟩ | ⟨hdead, hf, hw⟩
  · cases op with
    | add mb prio =>
      rw [Msgq.step, if_neg (by simp [hinv.alive])]
      exact ⟨_, rfl, .inl ⟨done, hinv.add mb hop⟩⟩
    | send rs => exact sendQueued_spec hinv rs
    | deadLink =>
      obtain ⟨cur, hw⟩ := hinv.whole
      exact deadLink_spec hinv.fresh ⟨done, cur, hw⟩
  · cases op with
    | add mb prio => exact ⟨c, by rw [Msgq.step, if_pos hdead], .inr ⟨hdead, hf, hw⟩⟩
    | send rs =>
      exact ⟨c, by rw [Msgq.step, sendQueued, if_pos (.inl hdead)], .inr ⟨hdead, hf, hw⟩⟩
    | deadLink => exact deadLink_spec hf hw

lemma ok_start (iovMax tls) : Ok (start iovMax tls) := by
  refine .inl ⟨[], rfl, fun l => by cases l <;> rfl, ⟨by simp [Fresh, order, start, msgqInit,
    begunPart, wholeFrom], rfl⟩, fun _ => rfl, fun _ x hx => ?_⟩
  cases hx

/-- **At any time, a connection has written whole messages and a proper part of at most one more**,
and each of its lists in the order in which it was queued; while it is alive, the rest is in its
queue. This holds whatever the socket accepts. Over TLS no buffer may be in both lists at once. -/
theorem wire_whole (iovMax : ℕ) (tls : Bool) (ops : List Op)
    (h : Run.Permitted step Apart (start iovMax tls) ops) :
    ∃ c done cur, Run.run step (start iovMax tls) ops = some c ∧ Whole c done cur ∧
      (c.dead = false → ∀ l,
        pick l done ++ (c.sendQ.list l).map Parcel.item = pick l c.added) := by
  obtain ⟨c, hrun, hok⟩ :=
    Run.run_safe Ok (fun _ op hok hop => hok.step op hop) (ok_start iovMax tls) h
  rcases hok with ⟨done, hinv⟩ | ⟨hdead, -, done, cur, hw⟩
  · obtain ⟨cur, hw⟩ := hinv.whole
    exact ⟨c, done, cur, hrun, hw, fun _ => hinv.lists⟩
  · exact ⟨c, done, cur, hrun, hw, fun ha => absurd ha (by simp [hdead])⟩

/-- A TLS connection is stopped in the middle of a normal message, and a priority message
is queued before it can go on. When both are out, the first buffer is used again, with the other
priority. -/
def stopped : List Op :=
  [.add ⟨1, [0x61, 0x0a], by decide⟩ false, .send [.wrote 1, .blocked],
    .add ⟨2, [0x62, 0x0a], by decide⟩ true, .send [.wrote 1, .wrote 2],
    .add ⟨1, [0x63, 0x0a], by decide⟩ true, .send [.wrote 2]]

theorem wire_whole_stopped :
    Run.Permitted step Apart (start 16 true) stopped ∧
    ∃ c done cur, Run.run step (start 16 true) stopped = some c ∧ Whole c done cur ∧
      (c.dead = false → ∀ l,
        pick l done ++ (c.sendQ.list l).map Parcel.item = pick l c.added) := by
  have hstopped : Run.Permitted step Apart (start 16 true) stopped := by decide +kernel
  exact ⟨hstopped, wire_whole 16 true stopped hstopped⟩

/-- The normal message is finished first. -/
example : (Run.run step (start 16 true) stopped).map Conn.wire =
    some [0x61, 0x0a, 0x62, 0x0a, 0x63, 0x0a] := by decide

end Ircu.Msgq
