import Ircu.Link.Basic

/-!
Flushing the queues of all connections: `flush_connections` and `send_queued` of `send.c`,
with `client_drop_sendq` of `client.c`.

The connections with queued output are on a list that is linked through the connections.
`flush_connections` walks along it and tries to send for each connection. A connection
whose queue runs empty, or that dies, is taken off the list on the way, its link to the next
one is cleared, and the walk reads this link afterwards.
-/

namespace Ircu.Send

open Link List Linked

/-! ### One connection -/

/-- The outcome of a write (`IOResult`). -/
inductive IOResult
  | success
  | blocked
  | failure
  deriving DecidableEq

/-- One write: its outcome, the bytes that went out and the bytes that were asked for. -/
structure Write where
  result : IOResult
  written : ℕ
  asked : ℕ
  deriving DecidableEq

/-- What `send_queued` reads of a connection. The writes are what the socket is going to do,
one after the other. -/
structure Conn where
  sendQ : ℕ
  isBlocked : Bool
  isDead : Bool
  isOpen : Bool
  isTls : Bool
  isNegotiating : Bool
  writes : ℕ → Write

/-- `can_send`, for a client that is not this server. -/
def canSend (c : Conn) : Bool := !c.isDead && c.isOpen

/-- A write leaves the connection blocked, unless it failed: a plain socket also if it took
less than it was given. -/
def blocks (isTls : Bool) (w : Write) : Bool :=
  match w.result with
  | .success => !isTls && w.written < w.asked
  | .blocked => true
  | .failure => false

def deliverIt (c : Conn) : Conn × ℕ :=
  let w := c.writes 0
  let c := { c with writes := fun n => c.writes (n + 1) }
  let c := match w.result with
    | .success => { c with isBlocked := blocks c.isTls w }
    | .blocked => { c with isBlocked := true }
    | .failure => { c with isDead := true }
  (c, w.written)

/-- `dead_link`, as far as the connection itself goes. The notice to the operators is
left out: it cannot put a dead connection back on the list. -/
def deadLink (c : Conn) : Conn := { c with isDead := true, sendQ := 0 }

/-- The loop of `send_queued`: the connection afterwards, and whether it is taken off the
list. Every turn but the last one sends something, so there are not more turns than bytes. -/
def sendLoop : ℕ → Conn → Conn × Bool
  | 0, c => (c, c.sendQ = 0)
  | fuel + 1, c =>
    if c.sendQ = 0 then (c, true)
    else
      let (c, len) := deliverIt c
      if len ≠ 0 then
        let c := { c with sendQ := c.sendQ - len }
        if c.isBlocked then (c, false) else sendLoop fuel c
      else if c.isDead then (deadLink c, true)
      else (c, false)

def sendQueued (c : Conn) : Conn × Bool :=
  if c.isBlocked || !canSend c then (c, false)
  else if c.isTls && c.isNegotiating then (c, false)
  else sendLoop c.sendQ c

/-! ### The walk -/

variable {ι : Type*} [DecidableEq ι]

structure Queues (ι : Type*) where
  links : Links ι
  conn : ι → Conn

def clientDropSendq (L : Links ι) (con : ι) : Links ι :=
  if (L.prev con).isSome then L.unlink con else L

/-- `send_queued` for a connection of the list. -/
def Queues.send (q : Queues ι) (con : ι) : Queues ι :=
  let (c, dropped) := sendQueued (q.conn con)
  { links := if dropped then clientDropSendq q.links con else q.links
    conn := fun k => if k = con then c else q.conn k }

/-- The loop of `flush_connections`, from the connection `con` on: the queues afterwards
and the connections for which `send_queued` was called. There is no result if the assertion
fails. -/
def flushLoop : ℕ → Queues ι → Option ι → Option (Queues ι × List ι)
  | _, q, none => some (q, [])
  | 0, _, some _ => none
  | fuel + 1, q, some con =>
    if 0 < (q.conn con).sendQ then
      let q := q.send con
      (flushLoop fuel q (q.links.next con)).map fun r => (r.1, con :: r.2)
    else none

def flushConnections (fuel : ℕ) (q : Queues ι) : Option (Queues ι × List ι) :=
  flushLoop fuel q q.links.head

/-! ### When a connection stays on the list -/

def Passes (isTls : Bool) (w : Write) : Prop := w.written ≠ 0 ∧ blocks isTls w = false

/-- The writes end with bytes left: some writes pass, with fewer bytes than are queued, and
the one behind them blocks, or sends nothing although the connection is not dead. -/
def Stalls (isTls isDead : Bool) (sendQ : ℕ) (writes : ℕ → Write) : Prop :=
  ∃ n, (∀ m < n, Passes isTls (writes m)) ∧
    ((List.range n).map fun m => (writes m).written).sum < sendQ ∧
    ((writes n).written ≠ 0 ∧ blocks isTls (writes n) = true ∨
      (writes n).written = 0 ∧ isDead = false ∧ ∀ m ≤ n, (writes m).result ≠ .failure)

/-- A connection stays on the list: nothing is tried, or the writes end with bytes left. -/
def Stays (c : Conn) : Prop :=
  c.isBlocked = true ∨ c.isDead = true ∨ c.isOpen = false ∨
    (c.isTls = true ∧ c.isNegotiating = true) ∨ Stalls c.isTls c.isDead c.sendQ c.writes

section Stalls

variable {isTls isDead : Bool} {sendQ : ℕ} {writes : ℕ → Write}

lemma stalls_of_blocks (hpos : 0 < sendQ) (hw : (writes 0).written ≠ 0)
    (hb : blocks isTls (writes 0) = true) : Stalls isTls isDead sendQ writes :=
  ⟨0, by simp, by simpa using hpos, .inl ⟨hw, hb⟩⟩

lemma stalls_shift (hpass : Passes isTls (writes 0)) : Stalls isTls isDead sendQ writes ↔
      Stalls isTls (isDead || (writes 0).result = .failure) (sendQ - (writes 0).written)
        fun n => writes (n + 1) := by
  have hsum : ∀ n, ((List.range (n + 1)).map fun m => (writes m).written).sum =
      (writes 0).written + ((List.range n).map fun m => (writes (m + 1)).written).sum := by
    intro n
    rw [range_succ_eq_map, map_cons, map_map]
    rfl
  constructor
  · rintro ⟨n, hall, hlt, hstop⟩
    cases n with
    | zero =>
      rcases hstop with ⟨-, hb⟩ | ⟨hw, -⟩
      · rw [hpass.2] at hb
        cases hb
      · exact absurd hw hpass.1
    | succ n =>
      rw [hsum] at hlt
      refine ⟨n, fun m hm => hall (m + 1) (by omega), by dsimp only; omega, hstop.imp id ?_⟩
      rintro ⟨hw, hd, hok⟩
      refine ⟨hw, ?_, fun m hm => hok (m + 1) (by omega)⟩
      rw [hd, Bool.false_or, decide_eq_false_iff_not]
      exact hok 0 (by omega)
  · rintro ⟨n, hall, hlt, hstop⟩
    dsimp only at hlt
    refine ⟨n + 1, fun m hm => ?_, by rw [hsum]; omega, hstop.imp id ?_⟩
    · cases m with
      | zero => exact hpass
      | succ m => exact hall m (by omega)
    rintro ⟨hw, hd, hok⟩
    rw [Bool.or_eq_false_iff, decide_eq_false_iff_not] at hd
    refine ⟨hw, hd.1, fun m hm => ?_⟩
    cases m with
    | zero => exact hd.2
    | succ m => exact hok m (by omega)

lemma stalls_of_nothing (hpos : 0 < sendQ) (hw : (writes 0).written = 0) :
    Stalls isTls isDead sendQ writes ↔ isDead = false ∧ (writes 0).result ≠ .failure := by
  constructor
  · rintro ⟨n, hall, -, hstop⟩
    cases n with
    | zero =>
      rcases hstop with ⟨hne, -⟩ | ⟨-, hd, hok⟩
      · exact absurd hw hne
      · exact ⟨hd, hok 0 le_rfl⟩
    | succ n => exact absurd hw (hall 0 (by omega)).1
  · rintro ⟨hd, hok⟩
    refine ⟨0, by simp, by simpa using hpos, .inr ⟨hw, hd, fun m hm => ?_⟩⟩
    rwa [Nat.le_zero.mp hm]

lemma not_stalls_zero : ¬ Stalls isTls isDead 0 writes := by
  rintro ⟨n, -, hlt, -⟩
  omega

end Stalls

lemma deliverIt_spec (c) (hb : c.isBlocked = false) :
    deliverIt c = ({ c with
          writes := fun n => c.writes (n + 1)
          isBlocked := blocks c.isTls (c.writes 0)
          isDead := c.isDead || (c.writes 0).result = .failure }, (c.writes 0).written) := by
  rw [deliverIt]
  cases hr : (c.writes 0).result <;> simp [blocks, hr, hb]

lemma sendLoop_iff (fuel c) (hfuel : c.sendQ ≤ fuel) (hb : c.isBlocked = false) :
    (sendLoop fuel c).2 = false ↔ Stalls c.isTls c.isDead c.sendQ c.writes := by
  induction fuel generalizing c with
  | zero =>
    have h0 : c.sendQ = 0 := by omega
    simp [sendLoop, h0, not_stalls_zero]
  | succ fuel ih =>
    rw [sendLoop]
    by_cases h0 : c.sendQ = 0
    · simp [h0, not_stalls_zero]
    rw [if_neg h0, deliverIt_spec c hb]
    dsimp only
    by_cases hw : (c.writes 0).written = 0
    · rw [if_neg (by simpa using hw), stalls_of_nothing (by omega) hw]
      split_ifs with hd
      · simpa [or_iff_not_imp_left] using hd
      · simpa using hd
    rw [if_pos hw]
    by_cases hblk : blocks c.isTls (c.writes 0) = true
    · rw [if_pos hblk]
      exact iff_of_true rfl (stalls_of_blocks (by omega) hw hblk)
    · rw [Bool.not_eq_true] at hblk
      rw [if_neg (by simpa using hblk), stalls_shift ⟨hw, hblk⟩]
      exact ih _ (by dsimp only; omega) hblk

lemma sendQueued_iff (c) : (sendQueued c).2 = false ↔ Stays c := by
  rw [sendQueued, Stays]
  by_cases hb : c.isBlocked = true
  · simp [hb]
  by_cases hd : c.isDead = true
  · simp [canSend, hd]
  by_cases ho : c.isOpen = false
  · simp [canSend, ho]
  by_cases ht : c.isTls = true ∧ c.isNegotiating = true
  · simp [ht]
  rw [Bool.not_eq_true] at hb hd
  have hcan : (c.isBlocked || !canSend c) = false := by simp [canSend, hb, hd, ho]
  have hneg : (c.isTls && c.isNegotiating) = false := by simpa using ht
  rw [hcan, hneg, if_neg (by simp), if_neg (by simp), sendLoop_iff _ c le_rfl hb]
  simp [hb, hd, ho, ht]

/-! ### How far the walk goes -/

/-- The items of a list as far as the first one, this one included, that is not kept. -/
def reached (kept : ι → Bool) : List ι → List ι
  | [] => []
  | x :: xs => x :: if kept x then reached kept xs else []

variable {xs : List ι} {q : Queues ι}

omit [DecidableEq ι] in
lemma reached_congr {kept kept' : ι → Bool} (h : ∀ x ∈ xs, kept x = kept' x) :
    reached kept xs = reached kept' xs := by
  induction xs with
  | nil => rfl
  | cons x xs ih =>
    rw [reached, reached, h x mem_cons_self, ih fun y hy => h y (mem_cons_of_mem _ hy)]

lemma send_links_of_stays {con} (h : (sendQueued (q.conn con)).2 = false) :
    (q.send con).links = q.links := by
  rw [Queues.send]
  dsimp only
  rw [h, if_neg (by simp)]

lemma send_next_of_dropped {con} (hlinked : Linked q.links xs)
    (hmem : con ∈ xs) (h : (sendQueued (q.conn con)).2 = true) :
    (q.send con).links.next con = none := by
  have hdrop : (q.send con).links = q.links.unlink con := by
    rw [Queues.send]
    dsimp only
    rw [h, if_pos rfl, clientDropSendq, if_pos (hlinked.prev_isSome.mpr hmem)]
  rw [hdrop, (hlinked.unlink con).next, nextIn_of_notMem hlinked.nodup.not_mem_erase]

lemma send_conn_of_ne {con k} (h : k ≠ con) : (q.send con).conn k = q.conn k := if_neg h

/-- **The walk goes as far as the first connection that is dropped.** It is on its way
through the list `as ++ bs`, with `bs` still to come. -/
lemma flushLoop_eq {fuel as bs} (hlinked : Linked q.links (as ++ bs))
    (hqueued : ∀ con ∈ bs, 0 < (q.conn con).sendQ) (hfuel : bs.length ≤ fuel) :
    ∃ q', flushLoop fuel q bs.head? =
      some (q', reached (fun con => !(sendQueued (q.conn con)).2) bs) := by
  induction bs generalizing as q fuel with
  | nil => exact ⟨q, by rw [List.head?_nil, flushLoop]; rfl⟩
  | cons con bs ih =>
    obtain ⟨fuel, rfl⟩ : ∃ f, fuel = f + 1 := ⟨fuel - 1, by simp at hfuel; omega⟩
    have hnodup := nodup_append.mp hlinked.nodup
    have hnotMem : con ∉ bs := (nodup_cons.mp hnodup.2.1).1
    rw [List.head?_cons, flushLoop, if_pos (hqueued con mem_cons_self), reached]
    cases hs : (sendQueued (q.conn con)).2 with
    | true =>
      have hnone := send_next_of_dropped hlinked (by simp) hs
      dsimp only
      rw [hnone]
      exact ⟨q.send con, by rw [flushLoop]; rfl⟩
    | false =>
      have hlinks := send_links_of_stays hs
      have hnext : (q.send con).links.next con = bs.head? := by
        rw [hlinks, hlinked.next, nextIn_append_cons hlinked.nodup]
      have hsame : ∀ k ∈ bs, (q.send con).conn k = q.conn k := by
        intro k hk
        exact send_conn_of_ne fun h => hnotMem (h ▸ hk)
      have hlinked' : Linked (q.send con).links ((as ++ [con]) ++ bs) := by
        rw [hlinks]
        simpa using hlinked
      have hqueued' : ∀ k ∈ bs, 0 < ((q.send con).conn k).sendQ := by
        intro k hk
        rw [hsame k hk]
        exact hqueued k (mem_cons_of_mem _ hk)
      have hreached : reached (fun k => !(sendQueued ((q.send con).conn k)).2) bs =
          reached (fun k => !(sendQueued (q.conn k)).2) bs :=
        reached_congr fun k hk => by rw [hsame k hk]
      obtain ⟨q', hq'⟩ := ih hlinked' hqueued' (by simpa using hfuel)
      refine ⟨q', ?_⟩
      dsimp only
      rw [hnext, hq', hreached]
      rfl

omit [DecidableEq ι] in
lemma reached_all_iff {kept : ι → Bool} (hnodup : xs.Nodup) :
    (∀ x ∈ xs, x ∈ reached kept xs) ↔ ∀ x ∈ xs.dropLast, kept x = true := by
  induction xs with
  | nil => simp
  | cons x xs ih =>
    rw [nodup_cons] at hnodup
    cases xs with
    | nil => simp [reached]
    | cons y ys =>
      have hlast : (∀ z ∈ (x :: y :: ys).dropLast, kept z = true) ↔
          kept x = true ∧ ∀ z ∈ (y :: ys).dropLast, kept z = true := by
        rw [dropLast_cons_cons, forall_mem_cons]
      rw [hlast, ← ih hnodup.2, reached]
      cases hk : kept x with
      | true =>
        simp only [if_true, mem_cons, true_and]
        constructor
        · intro h z hz
          rcases h z (.inr hz) with rfl | hz'
          · exact absurd (mem_cons.mpr hz) hnodup.1
          · exact hz'
        · rintro h z (rfl | hz)
          · exact .inl rfl
          · exact .inr (h z hz)
      | false =>
        refine iff_of_false (fun h => ?_) (by simp)
        have hy := h y (by simp)
        simp only [Bool.false_eq_true, if_false, mem_singleton] at hy
        exact hnodup.1 (hy ▸ mem_cons_self)

/-- **Flushing all connections** calls `send_queued` for every connection with queued output
exactly if every connection but the last one of the list stays on the list. -/
theorem flush_reaches_all_iff (q : Queues ι) (xs : List ι) (fuel : ℕ) (hlinked : Linked q.links xs)
    (hqueued : ∀ con ∈ xs, 0 < (q.conn con).sendQ) (hfuel : xs.length ≤ fuel) :
    ∃ q' calls, flushConnections fuel q = some (q', calls) ∧
      ((∀ con ∈ xs, con ∈ calls) ↔ ∀ con ∈ xs.dropLast, Stays (q.conn con)) := by
  obtain ⟨q', hq'⟩ := flushLoop_eq (nil_append xs ▸ hlinked) hqueued hfuel
  rw [← hlinked.head] at hq'
  refine ⟨q', _, hq', ?_⟩
  rw [reached_all_iff hlinked.nodup]
  simp only [Bool.not_eq_true', sendQueued_iff]

/-- A connection on a plain socket with queued bytes, of which each write takes some. -/
def plainConn (sendQ written : ℕ) : Conn where
  sendQ
  isBlocked := false
  isDead := false
  isOpen := true
  isTls := false
  isNegotiating := false
  writes := fun _ => ⟨.success, written, sendQ⟩

def twoQueues (first second : Conn) : Queues ℕ where
  links := (Links.empty.insertAt none 2).insertAt none 1
  conn := fun k => if k = 1 then first else second

lemma linked_twoQueues (first second) : Linked (twoQueues first second).links [1, 2] := by
  have hone : Linked ((Links.empty : Links ℕ).insertAt none 2) [2] :=
    insertAt_head empty (by simp)
  exact insertAt_head hone (by simp)

/-- The first of two connections takes three bytes of ten, and the second one is reached. -/
theorem flush_reaches_behind_full_socket :
    Stays (plainConn 10 3) ∧
      ∃ q' calls, flushConnections 2 (twoQueues (plainConn 10 3) (plainConn 10 10)) =
        some (q', calls) ∧ ∀ con ∈ [1, 2], con ∈ calls := by
  have hstays : Stays (plainConn 10 3) := (sendQueued_iff _).mp (by decide)
  obtain ⟨q', calls, hflush, hiff⟩ :=
    flush_reaches_all_iff (twoQueues (plainConn 10 3) (plainConn 10 10)) [1, 2] 2
      (linked_twoQueues _ _) (by decide) (by decide)
  exact ⟨hstays, q', calls, hflush, hiff.mpr (by simpa [twoQueues] using hstays)⟩

/-- The first of two connections takes all its bytes, and the walk ends with it. -/
theorem flush_stops_behind_drained :
    Linked (twoQueues (plainConn 10 10) (plainConn 10 10)).links [1, 2] ∧
      (∀ con ∈ [1, 2], 0 < ((twoQueues (plainConn 10 10) (plainConn 10 10)).conn con).sendQ) ∧
      (flushConnections 2 (twoQueues (plainConn 10 10) (plainConn 10 10))).map Prod.snd =
        some [1] :=
  ⟨linked_twoQueues _ _, by decide, by decide⟩

end Ircu.Send
