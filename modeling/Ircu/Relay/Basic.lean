import Ircu.Run.Basic

/-!
Messages that are passed on along the links of a tree.

The nodes of a tree have links to their neighbours only, each a queue in either direction. A
message for all nodes is passed on over every link but the one it came by, and a message for one
node over the link that leads there. Nodes do not see anything of that: it is as if every node had
a queue of its own to every other node.

* `Mesh`, `Mesh.step`: nodes that pass on messages; `Net`, `Net.step`: nodes with a queue to each
  other node.
-/

namespace Relay

open List Option

/-- A tree, by the next node on the way from a node to another, and by how many links there are
between them. -/
structure Tree (V : Type*) where
  hop : V → V → V
  dist : V → V → ℕ
  hop_self : ∀ i, hop i i = i
  dist_hop : ∀ {i j}, i ≠ j → dist (hop i j) j + 1 = dist i j
  hop_hop : ∀ i j, hop i (hop i j) = hop i j
  hop_back : ∀ i j, hop (hop i j) i = i
  /-- There are no cycles: from a neighbour that is not on the way, the way leads back. -/
  acyclic : ∀ {i j n}, n ≠ j → hop j n = n → n ≠ hop j i → hop n i = j

/-! ### Ways in the tree -/

section Ways

variable {V : Type*} {T : Tree V} {i j y d : V}

lemma way_induction (T : Tree V) (i) {motive : V → Prop} (self : motive i)
    (step : ∀ j, j ≠ i → motive (T.hop j i) → motive j) (j) : motive j := by
  induction hn : T.dist j i using Nat.strong_induction_on generalizing j with
  | _ n ih =>
    rcases eq_or_ne j i with rfl | h
    · exact self
    · have hdist := T.dist_hop h
      exact step j h (ih _ (by omega) _ rfl)

lemma Tree.hop_ne (T : Tree V) (h : i ≠ j) : T.hop i j ≠ i := by
  intro heq
  have hdist := T.dist_hop h
  rw [heq] at hdist
  omega

lemma Tree.hop_hop_ne (T : Tree V) (h : i ≠ j) (hne : T.hop i j ≠ j) : T.hop (T.hop i j) j ≠ i := by
  intro heq
  have hdist := T.dist_hop h
  have hdist' := T.dist_hop hne
  rw [heq] at hdist'
  omega

lemma Tree.hop_eq (T : Tree V) (h : T.hop y i = j) : T.hop j y = y := by
  rw [← h, T.hop_back]

/-- A node lies between `i` and `d`: the ways to them part there. -/
def Tree.Between (T : Tree V) (i d y : V) : Prop := y = d ∨ T.hop y d ≠ T.hop y i

lemma Tree.Between.hop (h : T.Between i d y) (hne : y ≠ i) : T.hop (T.hop y i) d = y := by
  rcases h with rfl | h
  · exact T.hop_back y i
  · exact T.acyclic (T.hop_ne hne) (T.hop_hop y i) (Ne.symm h)

lemma Tree.Between.step (h : T.Between i d y) (hne : y ≠ i) (hne' : T.hop y i ≠ i) :
    T.Between i d (T.hop y i) := by
  refine .inr ?_
  rw [h.hop hne]
  exact (T.hop_hop_ne hne hne').symm

end Ways

/-! ### The two kinds of steps -/

/-- What the nodes do. A node has a state, takes messages, and has events of its own, which may be
impossible. Both make it send messages, to one node or to all others. -/
structure Program (V M L E : Type*) where
  recv : V → L → V → M → L × List (Option V × M)
  act : V → L → E → Option (L × List (Option V × M))

/-- A message is taken from a queue, or a node has an event of its own. -/
inductive Event (V E : Type*)
  | deliver (k j : V)
  | act (v : V) (e : E)
  deriving DecidableEq

structure Packet (V M : Type*) where
  src : V
  dst : Option V
  body : M
  deriving DecidableEq

/-- Nodes with queues on the links between neighbours. -/
structure Mesh (V M L : Type*) where
  node : V → L
  wire : V → V → List (Packet V M)

/-- Nodes with a queue to each other node. -/
structure Net (V M L : Type*) where
  node : V → L
  chan : V → V → List M

variable {V M L E : Type*} [DecidableEq V]

/-- A packet for all goes to every neighbour but the one it came from, and a packet for another node
to the next node on the way. -/
def Goes (T : Tree V) (j : V) (via dst : Option V) (n : V) : Prop :=
  match dst with
  | none => (n ≠ j ∧ T.hop j n = n) ∧ via ≠ some n
  | some d => d ≠ j ∧ n = T.hop j d

instance (T : Tree V) (j : V) (via dst : Option V) (n : V) : Decidable (Goes T j via dst n) := by
  cases dst <;> exact inferInstanceAs (Decidable (_ ∧ _))

variable (T : Tree V)

def send (j : V) (via : Option V) (p : Packet V M) (w : V → V → List (Packet V M)) :
    V → V → List (Packet V M) := fun i n =>
  if i = j ∧ Goes T j via p.dst n then w i n ++ [p] else w i n

def sendAll (j : V) (outs : List (Option V × M)) (w : V → V → List (Packet V M)) :
    V → V → List (Packet V M) :=
  outs.foldl (fun w o => send T j none ⟨j, o.1, o.2⟩ w) w

def setQueue {α : Type*} (w : V → V → List α) (k j : V) (q : List α) : V → V → List α :=
  fun i n => if i = k ∧ n = j then q else w i n

def Mesh.recv (P : Program V M L E) (s : Mesh V M L) (j src : V) (m : M) :
    Mesh V M L :=
  let r := P.recv j (s.node j) src m
  ⟨Function.update s.node j r.1, sendAll T j r.2 s.wire⟩

/-- A step of nodes that pass on messages. What a node gets is passed on before it is taken. -/
def Mesh.step (T : Tree V) (P : Program V M L E) (s : Mesh V M L) :
    Event V E → Option (Mesh V M L)
  | .deliver k j =>
    match s.wire k j with
    | [] => none
    | p :: ps =>
      let s : Mesh V M L := ⟨s.node, send T j (some k) p (setQueue s.wire k j ps)⟩
      if p.dst = none ∨ p.dst = some j then some (Mesh.recv T P s j p.src p.body) else some s
  | .act v e =>
    (P.act v (s.node v) e).map fun r =>
      ⟨Function.update s.node v r.1, sendAll T v r.2 s.wire⟩

/-- The messages for a node among those that another one sends. -/
def outbox (j : V) (outs : List (Option V × M)) (n : V) : List M :=
  outs.filterMap fun o => if n ≠ j ∧ (o.1 = none ∨ o.1 = some n) then some o.2 else none

def post (j : V) (outs : List (Option V × M)) (c : V → V → List M) : V → V → List M :=
  fun i n => if i = j then c i n ++ outbox j outs n else c i n

def Net.step (P : Program V M L E) (s : Net V M L) : Event V E → Option (Net V M L)
  | .deliver i j =>
    match s.chan i j with
    | [] => none
    | m :: ms =>
      let r := P.recv j (s.node j) i m
      some ⟨Function.update s.node j r.1, post j r.2 (setQueue s.chan i j ms)⟩
  | .act v e =>
    (P.act v (s.node v) e).map fun r =>
      ⟨Function.update s.node v r.1, post v r.2 s.chan⟩

/-! ### The messages under way -/

def pick (i x : V) (q : List (Packet V M)) : List M :=
  q.filterMap fun p => if p.src = i ∧ (p.dst = none ∨ p.dst = some x) then some p.body else none

/-- The messages from `i` for `x` that are on the links between `i` and `j`. -/
def between (T : Tree V) (w : V → V → List (Packet V M)) (i x j : V) : List M :=
  if _h : j = i then [] else pick i x (w (T.hop j i) j) ++ between T w i x (T.hop j i)
termination_by T.dist j i
decreasing_by
  have hdist := T.dist_hop _h
  omega

/-- The same nodes, with a queue to each other node. -/
def Mesh.net (T : Tree V) (s : Mesh V M L) : Net V M L :=
  ⟨s.node, fun i x => between T s.wire i x x⟩

section Between

variable {T : Tree V} {w z : V → V → List (Packet V M)} {i j k x y d : V} {p : Packet V M}

@[simp] lemma pick_nil : pick i x ([] : List (Packet V M)) = [] := rfl

lemma pick_append (q r : List (Packet V M)) : pick i x (q ++ r) = pick i x q ++ pick i x r :=
  filterMap_append

lemma pick_cons (q : List (Packet V M)) : pick i x (p :: q) = pick i x [p] ++ pick i x q :=
  pick_append [p] q

lemma pick_other (h : ¬(p.src = i ∧ (p.dst = none ∨ p.dst = some x))) : pick i x [p] = [] := by
  simp [pick, h]

lemma pick_self (h : p.dst = none ∨ p.dst = some x) (hsrc : p.src = i) :
    pick i x [p] = [p.body] := by
  simp [pick, h, hsrc]

@[simp] lemma between_self : between T w i x i = [] := by rw [between, dif_pos rfl]

lemma between_ne (h : j ≠ i) :
    between T w i x j = pick i x (w (T.hop j i) j) ++ between T w i x (T.hop j i) := by
  rw [between, dif_neg h]

lemma between_congr (h : ∀ k j, pick i x (w k j) = pick i x (z k j)) (j) :
    between T w i x j = between T z i x j := by
  induction j using way_induction T i with
  | self => rw [between_self, between_self]
  | step j hj ih => rw [between_ne hj, between_ne hj, h, ih]

lemma mem_between {m} (h : m ∈ between T w i x j) : ∃ k n, ∃ p ∈ w k n, p.body = m := by
  induction j using way_induction T i with
  | self =>
    rw [between_self] at h
    cases h
  | step j hj ih =>
    rw [between_ne hj] at h
    rcases mem_append.mp h with h | h
    · obtain ⟨p, hp, heq⟩ := mem_filterMap.mp h
      split_ifs at heq
      exact ⟨_, _, p, hp, some.inj heq⟩
    · exact ih h

/-! ### Sending and passing on -/

lemma pick_send (via k n) : pick i x (send T j via p w k n) =
      pick i x (w k n) ++ if k = j ∧ Goes T j via p.dst n then pick i x [p] else [] := by
  rw [send]
  split_ifs with h
  · exact pick_append _ _
  · rw [append_nil]

lemma between_send (hsrc : p.src = i) (hx : p.dst = none ∨ p.dst = some x) (hy : T.Between i x y)
    (hne : y ≠ i) (hxi : x ≠ i) :
    between T (send T i none p w) i x y = between T w i x y ++ [p.body] := by
  induction y using way_induction T i with
  | self => exact absurd rfl hne
  | step y hyi ih =>
    rw [between_ne hyi, between_ne hyi, pick_send]
    rcases eq_or_ne (T.hop y i) i with heq | hne
    · have hgoes : Goes T i none p.dst y := by
        rcases hx with hx | hx
        · rw [hx]
          exact ⟨⟨hyi, T.hop_eq heq⟩, by simp⟩
        rw [hx]
        have hhop := hy.hop hyi
        rw [heq] at hhop
        exact ⟨hxi, hhop.symm⟩
      rw [if_pos ⟨heq, hgoes⟩, heq, between_self, between_self, append_nil, append_nil,
        pick_self hx hsrc]
    · rw [if_neg fun h => hne h.1, ih (hy.step hyi hne) hne, append_nil, append_assoc]

lemma between_forward {ps : List (Packet V M)} (hji : j ≠ i) (hk : T.hop j i = k)
    (hpick : pick i x [p] = [p.body]) (hold : w k j = p :: ps) (hnew : z k j = ps)
    (hother : ∀ a b, a ≠ j → b ≠ j → z a b = w a b)
    (hon : ∀ y, y ≠ i → T.hop y i = j → T.Between i x y →
      pick i x (z j y) = pick i x (w j y) ++ [p.body]) (hy : y = i ∨ T.Between i x y) :
    between T w i x y = (if y = j then [p.body] else []) ++ between T z i x y := by
  induction y using way_induction T i with
  | self =>
    rw [if_neg hji.symm, between_self, between_self]
    rfl
  | step y hyi ih =>
    have hbetween := hy.resolve_left hyi
    have ih := ih ((eq_or_ne (T.hop y i) i).imp id fun h => hbetween.step hyi h)
    rw [between_ne hyi, between_ne hyi]
    rcases eq_or_ne y j with rfl | hyj
    · rw [hk, if_neg (hk ▸ T.hop_ne hyi)] at ih
      rw [if_pos rfl, hk, hold, hnew, ih, pick_cons, hpick]
      rfl
    rw [if_neg hyj, nil_append]
    rcases eq_or_ne (T.hop y i) j with heq | hne
    · rw [heq, if_pos rfl] at ih
      rw [heq, ih, hon y hyi heq hbetween, append_assoc]
    · rw [if_neg hne] at ih
      rw [hother _ _ hne hyj, ih, nil_append]

end Between

/-! ### Where packets are -/

/-- A packet on a link has come the right way. -/
def Packet.On (T : Tree V) (p : Packet V M) (k j : V) : Prop :=
  (j ≠ p.src ∧ T.hop j p.src = k) ∧ ∀ d, p.dst = some d → T.Between p.src d j

def Sound (T : Tree V) (w : V → V → List (Packet V M)) : Prop := ∀ k j, ∀ p ∈ w k j, p.On T k j

section Sound

variable {T : Tree V} {w : V → V → List (Packet V M)} {i j k n x : V} {p : Packet V M}

omit [DecidableEq V] in
lemma Packet.On.own (hsrc : p.src = j) (h : Goes T j none p.dst n) : p.On T j n := by
  obtain ⟨src, dst, body⟩ := p
  obtain rfl : src = j := hsrc
  cases dst with
  | none =>
    obtain ⟨⟨hne, hhop⟩, -⟩ := h
    refine ⟨⟨hne, T.hop_eq hhop⟩, fun d hd => by cases hd⟩
  | some d =>
    obtain ⟨hd, rfl⟩ := h
    refine ⟨⟨T.hop_ne hd.symm, T.hop_back src d⟩, fun d' hd' => ?_⟩
    obtain rfl : d = d' := some.inj hd'
    refine or_iff_not_imp_left.mpr fun hne => ?_
    rw [T.hop_back]
    exact T.hop_hop_ne hd.symm hne

omit [DecidableEq V] in
lemma Packet.On.forward (h : p.On T k j) (hgoes : Goes T j (some k) p.dst n) : p.On T j n := by
  obtain ⟨src, dst, body⟩ := p
  obtain ⟨⟨hj, rfl⟩, hbetween⟩ := h
  cases dst with
  | none =>
    obtain ⟨⟨hne, hhop⟩, hvia⟩ := hgoes
    have hvia : n ≠ T.hop j src := fun h => hvia (by rw [h])
    refine ⟨⟨?_, T.acyclic hne hhop hvia⟩, fun d hd => by cases hd⟩
    rintro rfl
    exact hvia hhop.symm
  | some d =>
    obtain ⟨hd, rfl⟩ := hgoes
    have hvia := (hbetween d rfl).resolve_left hd.symm
    have hback := T.acyclic (T.hop_ne hd.symm) (T.hop_hop j d) hvia
    refine ⟨⟨fun h => hvia ?_, hback⟩, fun d' hd' => ?_⟩
    · change T.hop j d = src at h
      rw [← h, T.hop_hop]
    obtain rfl : d = d' := some.inj hd'
    refine or_iff_not_imp_left.mpr fun hne => ?_
    rw [hback]
    exact T.hop_hop_ne hd.symm hne

lemma Sound.send {via} (h : Sound T w) (hp : ∀ n, Goes T j via p.dst n → p.On T j n) :
    Sound T (send T j via p w) := by
  intro k n q hq
  rw [Relay.send] at hq
  split_ifs at hq with hgoes
  · obtain ⟨rfl, hgoes⟩ := hgoes
    rcases mem_append.mp hq with hq | hq
    · exact h _ _ q hq
    · rw [mem_singleton.mp hq]
      exact hp n hgoes
  · exact h _ _ q hq

lemma Sound.sendAll (h : Sound T w) (outs) : Sound T (sendAll T j outs w) := by
  induction outs generalizing w with
  | nil => exact h
  | cons o outs ih => exact ih (h.send fun n hgoes => Packet.On.own rfl hgoes)

lemma Sound.relay {ps : List (Packet V M)} (h : Sound T w) (hw : w k j = p :: ps) :
    Sound T (Relay.send T j (some k) p (setQueue w k j ps)) := by
  refine Sound.send (fun a b q hq => ?_) fun n hgoes =>
    (h k j p (hw ▸ mem_cons_self)).forward hgoes
  rw [setQueue] at hq
  split_ifs at hq with heq
  · obtain ⟨rfl, rfl⟩ := heq
    exact h _ _ q (hw ▸ mem_cons_of_mem _ hq)
  · exact h _ _ q hq

/-! ### One kind of step is the other -/

lemma between_relay {ps : List (Packet V M)} (hp : p.On T k j) (hw : w k j = p :: ps) (i x) :
    between T w i x x =
      (if i = p.src ∧ x = j ∧ (p.dst = none ∨ p.dst = some j) then [p.body] else []) ++
        between T (Relay.send T j (some k) p (setQueue w k j ps)) i x x := by
  obtain ⟨⟨hj, hk⟩, hbetween⟩ := hp
  have hkj : k ≠ j := hk ▸ T.hop_ne hj
  by_cases hpick : p.src = i ∧ (p.dst = none ∨ p.dst = some x)
  · obtain ⟨rfl, hdst⟩ := hpick
    rw [between_forward hj hk
      (pick_self hdst rfl) hw ?_ ?_ ?_ (.inr (.inl rfl))]
    · congr 1
      refine if_congr ⟨fun h => ⟨rfl, h, h ▸ hdst⟩, fun h => h.2.1⟩ rfl rfl
    · rw [Relay.send, if_neg fun h => hkj h.1, setQueue, if_pos ⟨rfl, rfl⟩]
    · intro a b ha hb
      rw [Relay.send, if_neg fun h => ha h.1, setQueue, if_neg fun h => hb h.2]
    intro y hy hhop hon
    have hyj : y ≠ j := by
      rintro rfl
      exact T.hop_ne hj hhop
    have hgoes : Goes T j (some k) p.dst y := by
      rcases hdst with hdst | hdst
      · rw [hdst]
        refine ⟨⟨hyj, T.hop_eq hhop⟩, fun hky => ?_⟩
        obtain rfl : k = y := some.inj hky
        subst hk
        exact T.hop_hop_ne hj hy hhop
      rw [hdst]
      have hnext := hon.hop hy
      rw [hhop] at hnext
      refine ⟨?_, hnext.symm⟩
      rintro rfl
      exact hyj (hnext ▸ T.hop_self x)
    rw [pick_send, if_pos ⟨rfl, hgoes⟩, setQueue, if_neg fun h => hkj h.1.symm, pick_self hdst rfl]
  · rw [if_neg ?_]
    swap
    · rintro ⟨rfl, rfl, hdst⟩
      exact hpick ⟨rfl, hdst⟩
    refine between_congr (fun a b => ?_) x
    rw [pick_send, pick_other hpick, ite_self, append_nil, setQueue]
    split_ifs with h
    · rw [h.1, h.2, hw, pick_cons, pick_other hpick, nil_append]
    · rfl

lemma between_own (o : Option V × M) (i x) : between T (Relay.send T j none ⟨j, o.1, o.2⟩ w) i x x =
      between T w i x x ++ if i = j ∧ x ≠ j ∧ (o.1 = none ∨ o.1 = some x) then [o.2] else [] := by
  by_cases h : i = j ∧ (o.1 = none ∨ o.1 = some x)
  · obtain ⟨rfl, hdst⟩ := h
    rcases eq_or_ne x i with rfl | hne
    · rw [between_self, between_self, if_neg fun h => h.2.1 rfl, append_nil]
    · rw [if_pos ⟨rfl, hne, hdst⟩]
      exact between_send rfl hdst (.inl rfl) hne hne
  · rw [if_neg fun h' => h ⟨h'.1, h'.2.2⟩, append_nil]
    refine between_congr (fun a b => ?_) x
    rw [pick_send, pick_other fun h' => h ⟨h'.1.symm, h'.2⟩, ite_self, append_nil]

lemma between_sendAll (outs i x) :
    between T (sendAll T j outs w) i x x = post j outs (fun i x => between T w i x x) i x := by
  induction outs generalizing w with
  | nil =>
    rw [post, outbox, filterMap_nil, append_nil, ite_self]
    rfl
  | cons o outs ih =>
    rw [sendAll, foldl_cons, ← sendAll, ih, post, post, outbox, outbox, between_own]
    by_cases hi : i = j
    · rw [if_pos hi, if_pos hi, filterMap_cons, append_assoc]
      by_cases ho : x ≠ j ∧ (o.1 = none ∨ o.1 = some x)
      · rw [if_pos ⟨hi, ho⟩, if_pos ho]
        rfl
      · rw [if_neg fun h => ho h.2, if_neg ho]
        rfl
    · rw [if_neg hi, if_neg hi, if_neg fun h => hi h.1, append_nil]

end Sound

section Refine

variable (T : Tree V) (P : Program V M L E) {s s' : Mesh V M L}

/-- What a step is to the nodes: one that only passes on a packet is none. -/
def Mesh.event (s : Mesh V M L) : Event V E → Option (Event V E)
  | .deliver k j =>
    match s.wire k j with
    | [] => none
    | p :: _ => if p.dst = none ∨ p.dst = some j then some (.deliver p.src j) else none
  | .act v e => some (.act v e)

variable {T P}

open Mesh

lemma Mesh.net_sendAll (node : V → L) (w j) (outs : List (Option V × M)) :
    net T ⟨node, sendAll T j outs w⟩ = ⟨node, post j outs (net T ⟨node, w⟩).chan⟩ := by
  rw [net]
  congr 1
  funext i x
  exact between_sendAll outs i x

lemma Mesh.net_relay {k j p} {ps : List (Packet V M)} (hs : Sound T s.wire)
    (hw : s.wire k j = p :: ps) (hdst : ¬(p.dst = none ∨ p.dst = some j)) :
    net T ⟨s.node, send T j (some k) p (setQueue s.wire k j ps)⟩ = net T s := by
  rw [net]
  congr 1
  funext i x
  rw [between_relay (hs k j p (hw ▸ mem_cons_self)) hw i x, if_neg fun h => hdst h.2.2]
  rfl

lemma Mesh.net_take {k j p} {ps : List (Packet V M)} (hs : Sound T s.wire)
    (hw : s.wire k j = p :: ps) (hdst : p.dst = none ∨ p.dst = some j) :
    ∃ ms, (net T s).chan p.src j = p.body :: ms ∧
      (net T ⟨s.node, send T j (some k) p (setQueue s.wire k j ps)⟩).chan =
        setQueue (net T s).chan p.src j ms := by
  have hrelay := between_relay (hs k j p (hw ▸ mem_cons_self)) hw
  refine ⟨between T (send T j (some k) p (setQueue s.wire k j ps)) p.src j j, ?_, ?_⟩
  · change between T s.wire p.src j j = _
    rw [hrelay, if_pos ⟨rfl, rfl, hdst⟩]
    rfl
  funext i x
  rw [setQueue]
  split_ifs with h
  · rw [h.1, h.2]
    rfl
  · change _ = between T s.wire i x x
    rw [hrelay i x, if_neg fun h' => h ⟨h'.1, h'.2.1⟩]
    rfl

/-- **Passing on is invisible.** A step of the nodes that pass on messages is a step of nodes with
queues to each other, or none. -/
theorem Mesh.step_refines {e : Event V E} (hs : Sound T s.wire) (h : step T P s e = some s') :
    Sound T s'.wire ∧ match s.event e with
      | none => net T s' = net T s
      | some f => Net.step P (net T s) f = some (net T s') := by
  cases e with
  | act v e =>
    obtain ⟨r, hr, rfl⟩ := map_eq_some_iff.mp h
    refine ⟨hs.sendAll r.2, ?_⟩
    change (P.act v (s.node v) e).map _ = _
    rw [hr, net_sendAll]
    rfl
  | deliver k j =>
    rw [step] at h
    rw [event]
    cases hw : s.wire k j with
    | nil =>
      rw [hw] at h
      cases h
    | cons p ps =>
      simp only [hw] at h ⊢
      by_cases hdst : p.dst = none ∨ p.dst = some j
      · rw [if_pos hdst] at h ⊢
        cases h
        obtain ⟨ms, hhead, hchan⟩ := net_take hs hw hdst
        refine ⟨(hs.relay hw).sendAll _, ?_⟩
        simp only [Net.step, hhead]
        rw [recv, net_sendAll]
        exact congrArg (fun c => some (⟨_, post j _ c⟩ : Net V M L)) hchan.symm
      · rw [if_neg hdst] at h ⊢
        cases h
        exact ⟨hs.relay hw, net_relay hs hw hdst⟩

/-- Messages may be taken at any time; the events of the nodes may depend on what the surroundings
allow. -/
def Allowed (allowed : (V → L) → V → E → Prop) (node : V → L) : Event V E → Prop
  | .deliver _ _ => True
  | .act v e => allowed node v e

lemma Mesh.allowed_event {allowed} {e f : Event V E}
    (h : Allowed allowed s.node e) (hf : s.event e = some f) : Allowed allowed s.node f := by
  cases e with
  | act v e => exact some.inj hf ▸ h
  | deliver k j =>
    rw [event] at hf
    split at hf
    · cases hf
    · split_ifs at hf
      exact some.inj hf ▸ trivial

/-- **Runs.** What the steps of nodes with queues to each other keep, a run of nodes that pass on
messages keeps. -/
theorem Mesh.run_invariant {allowed es} (Inv : Net V M L → Prop)
    (hstep : ∀ t e t', Inv t → Allowed allowed t.node e → Net.step P t e = some t' → Inv t')
    (hs : Sound T s.wire) (hinv : Inv (net T s))
    (hes : Run.Permitted (step T P) (fun s e => Allowed allowed s.node e) s es)
    (hrun : Run.run (step T P) s es = some s') : Inv (net T s') := by
  induction es generalizing s with
  | nil => exact some.inj hrun ▸ hinv
  | cons e es ih =>
    obtain ⟨t, ht, hrest⟩ := Run.run_cons_eq_some.mp hrun
    obtain ⟨hsound, hnet⟩ := step_refines hs ht
    refine ih hsound ?_ (hes.2 t ht) hrest
    cases hf : s.event e with
    | none =>
      rw [hf] at hnet
      exact hnet ▸ hinv
    | some f =>
      rw [hf] at hnet
      exact hstep _ f _ hinv (allowed_event hes.1 hf) hnet

end Refine

end Relay
