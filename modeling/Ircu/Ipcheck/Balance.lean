import Ircu.Ipcheck.Basic

/-!
The counter of connected clients in `IPcheck.c`.

A client is counted when it connects and discounted when it leaves. Exempt addresses are
not counted, nor are remote clients without a valid address; but when a client leaves,
nothing is asked about exemption. Exemption is decided by the whole address and entries
are kept by its canonical form, so a client that was not counted may share an entry with
clients that were, and be discounted from it.

* `counts`: the counters, as a map from canonical addresses; one lemma for each function
  of the source says how it changes them.
-/

namespace Ircu.Ipcheck

open Option List Function Table

/-! ### The counters -/

def counts (r : Registry) (k : CanonAddr) : Option (BitVec 16) :=
  (r.entries.find k).map IPRegistryEntry.connected

lemma counts_put (r e) :
    counts (r.put e) = Function.update (counts r) e.addr (some e.connected) := by
  funext k
  rw [counts, Registry.put, find_put]
  by_cases hk : e.addr = k
  · rw [if_pos hk, ← hk, update_self, map_some]
  · rw [if_neg hk, update_of_ne (Ne.symm hk), counts]

variable {e e' : IPRegistryEntry} {ip : InAddr} {r : Registry} {n : BitVec 16} {c : Client}

lemma counts_put_of_find (he : ipRegistryFind r ip = some e) (haddr : e'.addr = e.addr) :
    counts (r.put e') =
      Function.update (counts r) (ipRegistryCanonicalize ip) (some e'.connected) := by
  rw [ipRegistryFind_eq] at he
  rw [counts_put, haddr, key_of_find he]

lemma counts_put_same (he : ipRegistryFind r ip = some e) (haddr : e'.addr = e.addr)
    (hcon : e'.connected = e.connected) : counts (r.put e') = counts r := by
  rw [counts_put_of_find he haddr, hcon]
  refine update_eq_self_iff.mpr ?_
  rw [ipRegistryFind_eq] at he
  rw [counts, he, map_some]

lemma counts_of_find (he : ipRegistryFind r ip = some e) :
    counts r (ipRegistryCanonicalize ip) = some e.connected := by
  rw [ipRegistryFind_eq] at he
  rw [counts, he, map_some]

lemma counts_of_find_none (he : ipRegistryFind r ip = none) :
    counts r (ipRegistryCanonicalize ip) = none := by
  rw [ipRegistryFind_eq] at he
  rw [counts, he, map_none]

variable (m : Moment)

lemma counts_touchBlock (r addr) : counts (touchBlock m r addr) = counts r := rfl

lemma toNat_add_one (h : n + 1 ≠ 0) : (n + 1).toNat = n.toNat + 1 := by
  bv_omega

lemma toNat_sub_one (h : n ≠ 0) : (n - 1).toNat + 1 = n.toNat := by
  bv_omega

/-- One more client of an address: the entry is created, or its counter is raised without
overflow. -/
def Raised (r r' : Registry) (ip : InAddr) : Prop :=
  (∀ n, counts r (ipRegistryCanonicalize ip) = some n → n + 1 ≠ 0) ∧
    counts r' = Function.update (counts r) (ipRegistryCanonicalize ip)
      (some ((counts r (ipRegistryCanonicalize ip)).elim 1 (· + 1)))

lemma raised_new (he : ipRegistryFind r ip = none) (haddr : e.addr = ipRegistryCanonicalize ip)
    (hcon : e.connected = 1) : Raised r (r.put e) ip := by
  have hnone := counts_of_find_none he
  refine ⟨fun n hn => absurd hn (by simp [hnone]), ?_⟩
  rw [counts_put, haddr, hcon, hnone]
  rfl

lemma raised_found (he : ipRegistryFind r ip = some e) (haddr : e'.addr = e.addr)
    (hover : e.connected + 1 ≠ 0) (hcon : e'.connected = e.connected + 1) :
    Raised r (r.put e') ip := by
  have hsome := counts_of_find he
  refine ⟨fun n hn => ?_, ?_⟩
  · rw [hsome] at hn
    cases hn
    exact hover
  · rw [counts_put_of_find he haddr, hcon, hsome]
    rfl

/-! ### What the functions do to the counters -/

lemma release_of_ne_zero (h : e.connected ≠ 0) :
    e.release = some { e with connected := e.connected - 1 } :=
  if_neg h

/-- An entry that has been found at a local connection has one more client, or none more
if the connection is refused. -/
lemma localFound_spec (e) : ∃ ok nt e', localFound m e = some (ok, nt, e') ∧ e'.addr = e.addr ∧
      (ok = false ∧ e'.connected = e.connected ∨
        ok = true ∧ e.connected + 1 ≠ 0 ∧ e'.connected = e.connected + 1) := by
  unfold localFound
  by_cases hover : e.connected + 1 = 0
  · rw [if_pos hover]
    exact ⟨false, none, e, rfl, rfl, .inl ⟨rfl, rfl⟩⟩
  rw [if_neg hover]
  dsimp only
  generalize incr (if attemptsLapsed m.features (connectedSince m e.lastConnect) then 0
    else e.attempts) = attempts
  split_ifs
  · exact ⟨true, _, _, rfl, rfl, .inr ⟨rfl, hover, rfl⟩⟩
  · rw [release_of_ne_zero hover]
    exact ⟨false, none, _, rfl, rfl, .inl ⟨rfl, BitVec.add_sub_cancel _ _⟩⟩
  · exact ⟨true, none, _, rfl, rfl, .inr ⟨rfl, hover, rfl⟩⟩

lemma rejectFound_spec (e) :
    ∃ e', rejectFound m e = some e' ∧ e'.addr = e.addr ∧ e'.connected = e.connected := by
  unfold rejectFound
  by_cases hover : e.connected + 1 = 0
  · rw [if_pos hover]
    exact ⟨_, rfl, rfl, rfl⟩
  have hrel : IPRegistryEntry.release
      { e with lastConnect := m.now, connected := e.connected + 1 } = _ :=
    release_of_ne_zero hover
  rw [if_neg hover, hrel]
  exact ⟨_, rfl, rfl, BitVec.add_sub_cancel _ _⟩

lemma localRest_spec (r addr) : ∃ ok nt r', localRest m r addr = some (ok, nt, r') ∧
      (ok = false ∧ counts r' = counts r ∨ ok = true ∧ Raised r r' addr) := by
  unfold localRest
  cases he : ipRegistryFind r addr with
  | none => exact ⟨true, none, _, rfl, .inr ⟨rfl, raised_new he rfl rfl⟩⟩
  | some e =>
    obtain ⟨ok, nt, e', hfound, haddr, hcon⟩ := localFound_spec m e
    dsimp only
    rw [hfound]
    refine ⟨ok, nt, r.put e', rfl, ?_⟩
    rcases hcon with ⟨rfl, hcon⟩ | ⟨rfl, hover, hcon⟩
    · exact .inl ⟨rfl, counts_put_same he haddr hcon⟩
    · exact .inr ⟨rfl, raised_found he haddr hover hcon⟩

/-- **A local connection** that is not exempt is counted if it is permitted, and changes
no counter if it is refused. -/
lemma checkLocal_spec {x} (m r) {addr} (hx : ipRegistryIsExempt x addr = false) :
    ∃ ok nt r', ipRegistryCheckLocal x m r addr = some (ok, nt, r') ∧
      (ok = false ∧ counts r' = counts r ∨ ok = true ∧ Raised r r' addr) := by
  unfold ipRegistryCheckLocal
  rw [hx, if_neg (by simp)]
  by_cases h4 : isIpv4 addr
  · rw [if_pos h4]
    exact localRest_spec m r addr
  rw [if_neg h4]
  dsimp only
  split_ifs
  · cases he : ipRegistryFind r addr with
    | none => exact ⟨false, none, _, rfl, .inl ⟨rfl, counts_touchBlock m r addr⟩⟩
    | some e =>
      obtain ⟨e', hrej, haddr, hcon⟩ := rejectFound_spec m e
      dsimp only
      rw [hrej]
      refine ⟨false, none, _, rfl, .inl ⟨rfl, ?_⟩⟩
      have hfind : ipRegistryFind (touchBlock m r addr) addr = some e := he
      rw [counts_put_same hfind haddr hcon, counts_touchBlock]
  · exact localRest_spec m (touchBlock m r addr) addr

lemma remoteFound_spec (isBurst) (hover : e.connected + 1 ≠ 0) :
    (remoteFound m isBurst e).1 = true ∧ (remoteFound m isBurst e).2.addr = e.addr ∧
      (remoteFound m isBurst e).2.connected = e.connected + 1 := by
  unfold remoteFound
  rw [if_neg hover]
  cases isBurst <;> exact ⟨rfl, rfl, rfl⟩

/-- **A remote client** with a valid address that is not exempt is counted, unless the
counter is full. -/
lemma checkRemote_spec {x} (m r isBurst)
    (hv : inAddrValid ip = true) (hx : ipRegistryIsExempt x ip = false)
    (hover : ∀ n, counts r (ipRegistryCanonicalize ip) = some n → n + 1 ≠ 0) :
    ∃ r', ipRegistryCheckRemote x m r ip isBurst = (true, r') ∧ Raised r r' ip := by
  unfold ipRegistryCheckRemote
  rw [hv, hx]
  set r0 := if isIpv4 ip then r else touchBlock m r ip with hr0
  have hcounts : counts r0 = counts r := by
    rw [hr0]
    split_ifs <;> rfl
  have hraised : ∀ r', Raised r0 r' ip → Raised r r' ip := by
    intro r' h
    rwa [Raised, hcounts] at h
  dsimp only
  cases he : ipRegistryFind r0 ip with
  | none =>
    refine ⟨_, rfl, hraised _ (raised_new he ?_ ?_)⟩
    all_goals split_ifs <;> rfl
  | some e =>
    have hsome := counts_of_find he
    rw [hcounts] at hsome
    obtain ⟨hok, haddr, hcon⟩ := remoteFound_spec m isBurst (hover _ hsome)
    dsimp only
    rw [hok]
    exact ⟨_, rfl, hraised _ (raised_found he haddr (hover _ hsome) hcon)⟩

def Lowered (r r' : Registry) (ip : InAddr) : Prop :=
  ∃ n, counts r (ipRegistryCanonicalize ip) = some n ∧
    counts r' = Function.update (counts r) (ipRegistryCanonicalize ip) (some (n - 1))

lemma connectFail_cases (r addr disconnect) :
    ∃ r₀ : Registry, counts r₀ = counts r ∧ (counts r (ipRegistryCanonicalize addr) = none ∧
          ipRegistryConnectFail m r addr disconnect = some r₀ ∨
        ∃ e, ipRegistryFind r₀ addr = some e ∧ ipRegistryConnectFail m r addr disconnect =
            (failFound disconnect e).map fun e' => r₀.put e') := by
  unfold ipRegistryConnectFail
  refine ⟨if isIpv4 addr then r else
    ⟨r.entries, r.blocks.put
      ⟨(ip48Find m r addr).lastConnect, (ip48Find m r addr).addr,
        decr (ip48Find m r addr).attempts⟩⟩, ?_, ?_⟩
  · split_ifs <;> rfl
  cases he : ipRegistryFind r addr with
  | none => exact .inl ⟨counts_of_find_none he, rfl⟩
  | some e =>
    refine .inr ⟨e, ?_, rfl⟩
    rw [← he]
    split_ifs <;> rfl

lemma connectFail_spec (r addr) :
    ∃ r', ipRegistryConnectFail m r addr false = some r' ∧ counts r' = counts r := by
  obtain ⟨r0, hcounts, ⟨-, hfail⟩ | ⟨e, he, hfail⟩⟩ := connectFail_cases m r addr false
  · exact ⟨r0, hfail, hcounts⟩
  · refine ⟨r0.put { e with attempts := decr e.attempts }, hfail, ?_⟩
    exact Eq.trans (counts_put_same he rfl rfl) hcounts

lemma connectFail_disconnect_spec (r addr)
    (hpos : ∀ n, counts r (ipRegistryCanonicalize addr) = some n → n ≠ 0) :
    ∃ r', ipRegistryConnectFail m r addr true = some r' ∧
      (counts r (ipRegistryCanonicalize addr) = none ∧ counts r' = counts r ∨
        Lowered r r' addr) := by
  obtain ⟨r0, hcounts, ⟨hnone, hfail⟩ | ⟨e, he, hfail⟩⟩ := connectFail_cases m r addr true
  · exact ⟨r0, hfail, .inl ⟨hnone, hcounts⟩⟩
  have hsome := counts_of_find he
  rw [hcounts] at hsome
  have hrel : failFound true e =
      some { e with attempts := decr e.attempts, connected := e.connected - 1 } :=
    if_neg (hpos _ hsome)
  rw [hrel] at hfail
  refine ⟨_, hfail, .inr ⟨e.connected, hsome, ?_⟩⟩
  rw [← hcounts]
  exact counts_put_of_find he rfl

lemma disconnectFound_spec (c : Leaving) (e) : (disconnectFound m c e).addr = e.addr ∧
      (disconnectFound m c e).connected = e.connected := by
  unfold disconnectFound
  split_ifs <;> exact ⟨rfl, rfl⟩

lemma disconnect_spec (r) (c : Leaving)
    (hpos : ∀ n, counts r (ipRegistryCanonicalize ip) = some n → n ≠ 0) :
    ∃ r', ipRegistryDisconnect m r ip c = some r' ∧
      ((inAddrValid ip = false ∨ counts r (ipRegistryCanonicalize ip) = none) ∧
          counts r' = counts r ∨ Lowered r r' ip) := by
  unfold ipRegistryDisconnect
  cases hv : inAddrValid ip with
  | false => exact ⟨r, by simp, .inl ⟨.inl rfl, rfl⟩⟩
  | true =>
    cases he : ipRegistryFind r ip with
    | none => exact ⟨r, rfl, .inl ⟨.inr (counts_of_find_none he), rfl⟩⟩
    | some e =>
      have hsome := counts_of_find he
      obtain ⟨haddr, hcon⟩ := disconnectFound_spec m c
        { e with connected := e.connected - 1 }
      dsimp only
      rw [release_of_ne_zero (hpos _ hsome)]
      refine ⟨_, rfl, .inr ⟨e.connected, hsome, ?_⟩⟩
      rw [counts_put_of_find he haddr, hcon]

lemma expire_spec (r k) : counts (ipRegistryExpire m r) k = counts r k ∨
      counts r k = some 0 ∧ counts (ipRegistryExpire m r) k = none := by
  unfold counts ipRegistryExpire
  rw [find_filterMap]
  cases r.entries.find k with
  | none => exact .inl rfl
  | some e =>
    rw [bind_some, expireEntry]
    split_ifs with hzero
    · cases expiry (connectedSince m e.lastConnect) e.target with
      | entry => exact .inr ⟨by rw [map_some, hzero], rfl⟩
      | targets | nothing => exact .inl rfl
    · exact .inl rfl

/-! ### Clients -/

structure Client where
  ip : InAddr
  myConnect : Bool
  deriving DecidableEq

structure State where
  registry : Registry
  clients : List Client

def State.initial : State := ⟨Registry.empty, []⟩

/-- What happens: a local connection that is permitted or refused, a client that another
server introduces, a connection that fails, a client that leaves, and the expiration
timer. -/
inductive Action
  | localConnect (addr : InAddr)
  | remoteConnect (ip : InAddr) (isBurst : Bool)
  | connectFail (c : Client) (disconnect : Bool)
  | disconnect (c : Client) (targets : List UInt8) (nexttarget firsttime : ℤ)
  | expire

/-- One action. There is no result if an assertion about a counter fails. -/
def step (x : Exceptions) (s : State) (m : Moment) : Action → Option State
  | .localConnect addr =>
    (ipRegistryCheckLocal x m s.registry addr).map fun p =>
      ⟨p.2.2, if p.1 then ⟨addr, true⟩ :: s.clients else s.clients⟩
  | .remoteConnect ip isBurst =>
    let p := ipRegistryCheckRemote x m s.registry ip isBurst
    if p.1 then some ⟨p.2, ⟨ip, false⟩ :: s.clients⟩
    else
      -- the client is killed, and leaves again
      (ipRegistryDisconnect m p.2 ip ⟨false, [], 0, 0⟩).map fun r => ⟨r, s.clients⟩
  | .connectFail c disconnect =>
    if c ∈ s.clients then
      (ipRegistryConnectFail m s.registry c.ip disconnect).map fun r =>
        ⟨r, if disconnect then s.clients.erase c else s.clients⟩
    else some s
  | .disconnect c targets nexttarget firsttime =>
    if c ∈ s.clients then
      (ipRegistryDisconnect m s.registry c.ip ⟨c.myConnect, targets, nexttarget, firsttime⟩).map
        fun r => ⟨r, s.clients.erase c⟩
    else some s
  | .expire => some ⟨ipRegistryExpire m s.registry, s.clients⟩

def run (x : Exceptions) (s : State) : List (Moment × Action) → Option State
  | [] => some s
  | a :: as => (step x s a.1 a.2).bind fun s' => run x s' as

def clientsAt (clients : List Client) (k : CanonAddr) : ℕ :=
  clients.countP fun c => ipRegistryCanonicalize c.ip = k

/-- The counter of every entry is the number of connected clients of its address. -/
def Balanced (s : State) : Prop :=
  ∀ k e, s.registry.entries.find k = some e → e.connected.toNat = clientsAt s.clients k

def counted (x : Exceptions) (ip : InAddr) : Bool := inAddrValid ip && !ipRegistryIsExempt x ip

/-- A client that connects shares its entry with no client of the other kind: there is no
entry for one that is not counted, and one that is counted finds no connected client of
the same canonical address that is not. -/
def SameKind (x : Exceptions) (s : State) (ip : InAddr) : Prop :=
  if counted x ip then
    ∀ c ∈ s.clients, ipRegistryCanonicalize c.ip = ipRegistryCanonicalize ip →
      counted x c.ip = true
  else s.registry.entries.find (ipRegistryCanonicalize ip) = none

def Careful (x : Exceptions) (s : State) : Action → Prop
  | .localConnect addr =>
    (ipRegistryIsExempt x addr = true ∨ inAddrValid addr = true) ∧ SameKind x s addr
  | .remoteConnect ip _ =>
    SameKind x s ip ∧ ∀ e, s.registry.entries.find (ipRegistryCanonicalize ip) = some e →
      e.connected ≠ 65535
  | _ => True

def CarefulRun (x : Exceptions) (s : State) : List (Moment × Action) → Prop
  | [] => True
  | a :: as => Careful x s a.2 ∧ ∀ s', step x s a.1 a.2 = some s' → CarefulRun x s' as

/-! ### The invariant -/

/-- The entry of an address counts the clients of the address, and all of them are
clients that are counted; without an entry none of them is. -/
def KeptAt (x : Exceptions) (clients : List Client) (k : CanonAddr) : Option (BitVec 16) → Prop
  | some n => n.toNat = clientsAt clients k ∧
      ∀ c ∈ clients, ipRegistryCanonicalize c.ip = k → counted x c.ip = true
  | none => ∀ c ∈ clients, ipRegistryCanonicalize c.ip = k → counted x c.ip = false

def Kept (x : Exceptions) (s : State) : Prop := ∀ k, KeptAt x s.clients k (counts s.registry k)

variable {x : Exceptions} {s : State}

lemma Kept.of_some (h : Kept x s) {k} (hk : counts s.registry k = some n) :
    n.toNat = clientsAt s.clients k ∧
      ∀ c ∈ s.clients, ipRegistryCanonicalize c.ip = k → counted x c.ip = true := by
  have hk' := h k
  rwa [hk] at hk'

lemma Kept.of_none (h : Kept x s) {k} (hk : counts s.registry k = none) :
    ∀ c ∈ s.clients, ipRegistryCanonicalize c.ip = k → counted x c.ip = false := by
  have hk' := h k
  rwa [hk] at hk'

lemma Kept.balanced (h : Kept x s) : Balanced s := by
  intro k e he
  have hk : counts s.registry k = some e.connected := by rw [counts, he, map_some]
  exact (h.of_some hk).1

lemma kept_initial (x) : Kept x State.initial := by
  intro k
  have hnone : counts State.initial.registry k = none := rfl
  intro c hc
  simp [State.initial] at hc

lemma Kept.congr (h : Kept x s) (hr : counts r = counts s.registry) : Kept x ⟨r, s.clients⟩ := by
  intro k
  rw [hr]
  exact h k

lemma clientsAt_cons (c clients k) : clientsAt (c :: clients) k =
      clientsAt clients k + if ipRegistryCanonicalize c.ip = k then 1 else 0 := by
  rw [clientsAt, countP_cons]
  simp [clientsAt]

lemma clientsAt_erase {clients} (hc : c ∈ clients) (k) :
    clientsAt clients k = clientsAt (clients.erase c) k +
      if ipRegistryCanonicalize c.ip = k then 1 else 0 := by
  rw [← clientsAt_cons]
  exact (perm_cons_erase hc).countP_eq _

lemma Kept.elsewhere {clients k} (h : Kept x s)
    (hcount : clientsAt clients k = clientsAt s.clients k)
    (hmem : ∀ c ∈ clients, ipRegistryCanonicalize c.ip = k → c ∈ s.clients) :
    KeptAt x clients k (counts s.registry k) := by
  cases hn : counts s.registry k with
  | some n =>
    obtain ⟨hk, hall⟩ := h.of_some hn
    exact ⟨hk.trans hcount.symm, fun c hc heq => hall c (hmem c hc heq) heq⟩
  | none => exact fun c hc heq => h.of_none hn c (hmem c hc heq) heq

lemma Kept.cons_elsewhere {k} (h : Kept x s) (hk : ipRegistryCanonicalize c.ip ≠ k) :
    KeptAt x (c :: s.clients) k (counts s.registry k) := by
  refine h.elsewhere (by rw [clientsAt_cons, if_neg hk, add_zero]) fun c' hc' hk' => ?_
  rcases mem_cons.mp hc' with rfl | hc'
  · exact absurd hk' hk
  · exact hc'

lemma Kept.add_uncounted (h : Kept x s) (hc : counted x c.ip = false)
    (hnone : counts s.registry (ipRegistryCanonicalize c.ip) = none) :
    Kept x ⟨s.registry, c :: s.clients⟩ := by
  intro k
  by_cases hk : ipRegistryCanonicalize c.ip = k
  · subst hk
    rw [hnone]
    intro c' hc' hk'
    rcases mem_cons.mp hc' with rfl | hc'
    · exact hc
    · exact h.of_none hnone c' hc' hk'
  · exact h.cons_elsewhere hk

lemma Kept.add_counted (h : Kept x s) (hc : counted x c.ip = true)
    (hmix : ∀ c' ∈ s.clients, ipRegistryCanonicalize c'.ip = ipRegistryCanonicalize c.ip →
      counted x c'.ip = true)
    (hr : Raised s.registry r c.ip) : Kept x ⟨r, c :: s.clients⟩ := by
  obtain ⟨hover, hcounts⟩ := hr
  intro k
  rw [hcounts]
  by_cases hk : ipRegistryCanonicalize c.ip = k
  · subst hk
    rw [update_self]
    refine ⟨?_, ?_⟩
    · rw [clientsAt_cons, if_pos rfl]
      cases hn : counts s.registry (ipRegistryCanonicalize c.ip) with
      | some n =>
        have hne := hover n hn
        rw [← (h.of_some hn).1, elim_some, toNat_add_one hne]
      | none =>
        -- clients that are counted would have an entry
        have hzero : clientsAt s.clients (ipRegistryCanonicalize c.ip) = 0 := by
          refine countP_eq_zero.mpr fun c' hc' hk' => ?_
          rw [decide_eq_true_eq] at hk'
          have hno := h.of_none hn c' hc' hk'
          rw [hmix c' hc' hk'] at hno
          exact absurd hno (by simp)
        rw [hzero]
        rfl
    · intro c' hc' hk'
      rcases mem_cons.mp hc' with rfl | hc'
      · exact hc
      · exact hmix c' hc' hk'
  · rw [update_of_ne (Ne.symm hk)]
    exact h.cons_elsewhere hk

lemma Kept.pos (h : Kept x s) (hc : c ∈ s.clients) :
    ∀ n, counts s.registry (ipRegistryCanonicalize c.ip) = some n → n ≠ 0 := by
  rintro n hn rfl
  have hzero := (h.of_some hn).1
  rw [clientsAt_erase hc] at hzero
  simp at hzero

lemma Kept.erase_elsewhere {k} (h : Kept x s) (hc : c ∈ s.clients)
    (hk : ipRegistryCanonicalize c.ip ≠ k) : KeptAt x (s.clients.erase c) k (counts s.registry k) :=
  h.elsewhere (by rw [clientsAt_erase hc, if_neg hk, add_zero]) fun _ hc' _ => mem_of_mem_erase hc'

lemma Kept.erase_uncounted (h : Kept x s) (hc : c ∈ s.clients)
    (hnone : counts s.registry (ipRegistryCanonicalize c.ip) = none)
    (hr : counts r = counts s.registry) : Kept x ⟨r, s.clients.erase c⟩ := by
  intro k
  rw [hr]
  by_cases hk : ipRegistryCanonicalize c.ip = k
  · subst hk
    rw [hnone]
    exact fun c' hc' => h.of_none hnone c' (mem_of_mem_erase hc')
  · exact h.erase_elsewhere hc hk

lemma Kept.erase_counted (h : Kept x s) (hc : c ∈ s.clients) (hr : Lowered s.registry r c.ip) :
    Kept x ⟨r, s.clients.erase c⟩ := by
  obtain ⟨n, hn, hr⟩ := hr
  intro k
  dsimp only
  rw [hr]
  by_cases hk : ipRegistryCanonicalize c.ip = k
  · subst hk
    rw [update_self]
    obtain ⟨hcount, hall⟩ := h.of_some hn
    refine ⟨?_, fun c' hc' => hall c' (mem_of_mem_erase hc')⟩
    rw [clientsAt_erase hc, if_pos rfl, ← toNat_sub_one (h.pos hc n hn)] at hcount
    omega
  rw [update_of_ne (Ne.symm hk)]
  exact h.erase_elsewhere hc hk

lemma Kept.expire (h : Kept x s) (m) : Kept x ⟨ipRegistryExpire m s.registry, s.clients⟩ := by
  intro k
  rcases expire_spec m s.registry k with heq | ⟨hzero, hnone⟩
  · rw [heq]
    exact h k
  rw [hnone]
  intro c hc hk
  have hcount := (h.of_some hzero).1
  have hpos : 0 < clientsAt s.clients k :=
    countP_pos_iff.mpr ⟨c, hc, by simpa using hk⟩
  rw [← hcount] at hpos
  simp at hpos

lemma sameKind_counted (hmix : SameKind x s ip) (hc : counted x ip = true) :
    ∀ c ∈ s.clients, ipRegistryCanonicalize c.ip = ipRegistryCanonicalize ip →
      counted x c.ip = true := by
  rwa [SameKind, if_pos hc] at hmix

lemma sameKind_uncounted (hmix : SameKind x s ip) (hc : counted x ip = false) :
    counts s.registry (ipRegistryCanonicalize ip) = none := by
  rw [SameKind, if_neg (by simp [hc])] at hmix
  rw [counts, hmix, map_none]

/-- **A careful action keeps the invariant**, and no assertion fails. -/
theorem Kept.step (h : Kept x s) (m) {a} (ha : Careful x s a) :
    ∃ s', Ipcheck.step x s m a = some s' ∧ Kept x s' := by
  cases a with
  | localConnect addr =>
    obtain ⟨hvalid, hmix⟩ := ha
    cases hx : ipRegistryIsExempt x addr with
    | true =>
      have hno : counted x addr = false := by rw [counted, hx]; simp
      refine ⟨⟨s.registry, ⟨addr, true⟩ :: s.clients⟩, ?_,
        h.add_uncounted hno (sameKind_uncounted hmix hno)⟩
      simp [Ipcheck.step, ipRegistryCheckLocal, hx]
    | false =>
      have hyes : counted x addr = true := by
        rcases hvalid with hex | hvalid
        · rw [hx] at hex
          exact absurd hex (by simp)
        · rw [counted, hx, hvalid]
          rfl
      obtain ⟨ok, nt, r, hcheck, hr⟩ := checkLocal_spec m s.registry hx
      refine ⟨⟨r, if ok then ⟨addr, true⟩ :: s.clients else s.clients⟩, ?_, ?_⟩
      · rw [Ipcheck.step, hcheck, map_some]
      · rcases hr with ⟨rfl, hr⟩ | ⟨rfl, hr⟩
        · exact h.congr hr
        · exact h.add_counted hyes (sameKind_counted hmix hyes) hr
  | remoteConnect ip isBurst =>
    obtain ⟨hmix, hfull⟩ := ha
    cases hc : counted x ip with
    | false =>
      have hcheck : ipRegistryCheckRemote x m s.registry ip isBurst = (true, s.registry) := by
        rw [ipRegistryCheckRemote]
        cases hv : inAddrValid ip with
        | false => simp
        | true =>
          have hex : ipRegistryIsExempt x ip = true := by
            rw [counted, hv] at hc
            simpa using hc
          simp [hex]
      refine ⟨_, ?_, h.add_uncounted (c := ⟨ip, false⟩) hc (sameKind_uncounted hmix hc)⟩
      simp [Ipcheck.step, hcheck]
    | true =>
      have hparts := Bool.and_eq_true_iff.mp hc
      have hex : ipRegistryIsExempt x ip = false := by simpa using hparts.2
      have hover : ∀ n, counts s.registry (ipRegistryCanonicalize ip) = some n → n + 1 ≠ 0 := by
        intro n hn hzero
        obtain ⟨e, he, rfl⟩ := map_eq_some_iff.mp hn
        exact hfull e he (by bv_omega)
      obtain ⟨r, hcheck, hr⟩ := checkRemote_spec m s.registry isBurst hparts.1 hex hover
      refine ⟨_, ?_, h.add_counted (c := ⟨ip, false⟩) hc (sameKind_counted hmix hc) hr⟩
      simp [Ipcheck.step, hcheck]
  | connectFail c disconnect =>
    by_cases hc : c ∈ s.clients
    · rw [Ipcheck.step, if_pos hc]
      cases disconnect with
      | false =>
        obtain ⟨r, hfail, hr⟩ := connectFail_spec m s.registry c.ip
        rw [hfail]
        exact ⟨_, rfl, h.congr hr⟩
      | true =>
        obtain ⟨r, hfail, hr⟩ :=
          connectFail_disconnect_spec m s.registry c.ip (h.pos hc)
        rw [hfail]
        refine ⟨_, rfl, ?_⟩
        rcases hr with ⟨hnone, hr⟩ | hr
        · exact h.erase_uncounted hc hnone hr
        · exact h.erase_counted hc hr
    · rw [Ipcheck.step, if_neg hc]
      exact ⟨s, rfl, h⟩
  | disconnect c targets nexttarget firsttime =>
    by_cases hc : c ∈ s.clients
    · rw [Ipcheck.step, if_pos hc]
      obtain ⟨r, hdis, hr⟩ := disconnect_spec m s.registry
        ⟨c.myConnect, targets, nexttarget, firsttime⟩ (h.pos hc)
      rw [hdis]
      refine ⟨_, rfl, ?_⟩
      rcases hr with ⟨hno, hr⟩ | hr
      · refine h.erase_uncounted hc ?_ hr
        rcases hno with hv | hnone
        · -- a client without a valid address is not counted, so it has no entry
          cases hn : counts s.registry (ipRegistryCanonicalize c.ip) with
          | none => rfl
          | some n =>
            have hyes := (h.of_some hn).2 c hc rfl
            rw [counted, hv] at hyes
            exact absurd hyes (by simp)
        · exact hnone
      · exact h.erase_counted hc hr
    · rw [Ipcheck.step, if_neg hc]
      exact ⟨s, rfl, h⟩
  | expire => exact ⟨_, rfl, h.expire m⟩

/-- **A whole run** of careful actions, in which no assertion fails. -/
lemma Kept.run {as} (h : Kept x s) (has : CarefulRun x s as) :
    ∃ s', Ipcheck.run x s as = some s' ∧ Kept x s' := by
  induction as generalizing s with
  | nil => exact ⟨s, rfl, h⟩
  | cons a as ih =>
    obtain ⟨s1, hstep, h1⟩ := h.step a.1 has.1
    obtain ⟨s', hrun, h'⟩ := ih h1 (has.2 s1 hstep)
    refine ⟨s', ?_, h'⟩
    rw [Ipcheck.run, hstep, bind_some, hrun]

/-- **The counters are balanced along every careful run**: no assertion fails, and each
counter is the number of connected clients of its address. -/
theorem run_balanced (x : Exceptions) (as : List (Moment × Action))
    (has : CarefulRun x State.initial as) :
    ∃ s, run x State.initial as = some s ∧ Balanced s := by
  obtain ⟨s, hrun, hkept⟩ := (kept_initial x).run has
  exact ⟨s, hrun, hkept.balanced⟩

/-! ### Clients that share an entry -/

def docAddr (g : BitVec 16) : InAddr := ⟨![0x2001, 0xdb8, 0, 0, 0, 0, 0, g]⟩

/-- The address `2001:db8::1` is exempt. -/
def oneExempt : Exceptions := ⟨[], [(docAddr 1, 128)]⟩

def defaultMoment : Moment := ⟨1000, 0, ⟨4, 40, 50, 10, 600⟩⟩

/-- A client of another address of the block connects, then the exempt one. -/
def sharedEntry : List (Moment × Action) :=
  [(defaultMoment, .localConnect (docAddr 2)), (defaultMoment, .localConnect (docAddr 1))]

/-- Both leave again, the exempt one first. -/
def sharedEntryLeft : List (Moment × Action) :=
  sharedEntry ++ [(defaultMoment, .disconnect ⟨docAddr 1, true⟩ [] 0 0),
    (defaultMoment, .disconnect ⟨docAddr 2, true⟩ [] 0 0)]

/-- Two clients are connected and one is counted; when both leave, the assertion that the
counter is positive fails. -/
theorem sharedEntry_unbalanced :
    ((run oneExempt State.initial sharedEntry).map fun s =>
      (counts s.registry (ipRegistryCanonicalize (docAddr 2)),
        clientsAt s.clients (ipRegistryCanonicalize (docAddr 2)))) = some (some 1, 2) ∧
      (run oneExempt State.initial sharedEntryLeft).isNone = true := by
  decide +kernel

/-- Two clients of one address connect, and one of them leaves before the entries are cleaned up. -/
def oneOfTwoLeft : List (Moment × Action) :=
  [(defaultMoment, .localConnect (docAddr 2)), (defaultMoment, .localConnect (docAddr 2)),
    (defaultMoment, .disconnect ⟨docAddr 2, true⟩ [] 0 0), (defaultMoment, .expire)]

lemma carefulRun_oneOfTwoLeft : CarefulRun oneExempt State.initial oneOfTwoLeft := by
  have hvalid : inAddrValid (docAddr 2) = true := by decide +kernel
  have hcounted : counted oneExempt (docAddr 2) = true := by decide +kernel
  have hone : (step oneExempt State.initial defaultMoment (.localConnect (docAddr 2))).map
      State.clients = some [⟨docAddr 2, true⟩] := by decide +kernel
  refine ⟨⟨.inr hvalid, ?_⟩, fun s' hs' => ⟨⟨.inr hvalid, ?_⟩, ?_⟩⟩
  · rw [SameKind, if_pos hcounted]
    intro c hc
    simp [State.initial] at hc
  · rw [hs', Option.map_some] at hone
    rw [SameKind, if_pos hcounted, Option.some.inj hone]
    intro c hc _
    rwa [List.mem_singleton.mp hc]
  · exact fun _ _ => ⟨trivial, fun _ _ => ⟨trivial, fun _ _ => trivial⟩⟩

theorem run_balanced_pair :
    ∃ s, run oneExempt State.initial oneOfTwoLeft = some s ∧
      counts s.registry (ipRegistryCanonicalize (docAddr 2)) = some 1 ∧ Balanced s := by
  have hone : (run oneExempt State.initial oneOfTwoLeft).map
      (fun s => counts s.registry (ipRegistryCanonicalize (docAddr 2))) = some (some 1) := by
    decide +kernel
  obtain ⟨s, hrun, hbal⟩ := run_balanced oneExempt _ carefulRun_oneOfTwoLeft
  rw [hrun, Option.map_some] at hone
  exact ⟨s, hrun, Option.some.inj hone, hbal⟩

end Ircu.Ipcheck
