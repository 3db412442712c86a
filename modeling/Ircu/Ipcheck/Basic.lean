import Ircu.Ipmask
import Ircu.Table.Basic
import Ircu.Target

/-!
The registry of addresses: `IPcheck.c`.

A server keeps an entry for each address that clients connect from: an IPv4 address, or
the first 64 bits of an IPv6 address. The entry counts the clients that are connected and
the recent attempts, and remembers which targets they have used up. For IPv6 the attempts
are also counted for each block of 48 bits. Times are kept in sixteen bits.

* `CanonAddr`, `ipRegistryFind`: entries are found in the chain of the hash of their
  address; the comparison of 48 bits that is made for 6to4 addresses finds nothing more
  than the comparison of 64 (`ipRegistryFind_eq`);
* functions that assert that a counter is positive have no result if it is zero.
-/

namespace Ircu.Ipcheck

open Target (TARGET_DELAY)

/-! ### Times and settings -/

def STARTTARGETS : ℕ := 10

structure Features where
  cloneLimit : ℤ
  clonePeriod : ℤ
  clone48Limit : ℤ
  clone48Period : ℤ
  cloneDelay : ℤ

/-- What a call reads besides the registry: the time, the time at which the server was
started (`cli_since(&me)`) and the settings. -/
structure Moment where
  currentTime : ℤ
  since : ℤ
  features : Features

variable (m : Moment)

def Moment.now : ℤ := m.currentTime % 65536

/-- The macro `CONNECTED_SINCE`. Both times are converted to `int` before they are
subtracted. -/
def connectedSince (x : ℤ) : ℤ := m.now - x

structure Exceptions where
  exceptIPv4 : List (InAddr × ℕ)
  exceptIPv6 : List (InAddr × ℕ)

def ipRegistryIsExempt (x : Exceptions) (addr : InAddr) : Bool :=
  (if isIpv4 addr then x.exceptIPv4 else x.exceptIPv6).any fun b => ipmaskCheck addr b.1 b.2 ≠ 0

/-- The macro `irc_in_addr_valid`: not all groups are zero, and not all are ones. -/
def inAddrValid (a : InAddr) : Bool :=
  (a.group 0 ≠ 0 ∧ a.group 0 ≠ 65535) ∨ a.group 1 ≠ a.group 0 ∨ a.group 2 ≠ a.group 0 ∨
    a.group 3 ≠ a.group 0 ∨ a.group 4 ≠ a.group 0 ∨ a.group 5 ≠ a.group 0 ∨
    a.group 6 ≠ a.group 0 ∨ a.group 7 ≠ a.group 0

/-! ### Entries -/

/-- An address in canonical form: its last four groups are zero. -/
structure CanonAddr where
  addr : InAddr
  tail_eq_zero : ∀ k, 4 ≤ k → addr.group k = 0

lemma CanonAddr.ext_group {a b : CanonAddr} (h : ∀ k < 4, a.addr.group k = b.addr.group k) :
    a = b := by
  obtain ⟨⟨a⟩, ha⟩ := a
  obtain ⟨⟨b⟩, hb⟩ := b
  have hfun : a = b := by
    funext k
    have hgroup : InAddr.group ⟨a⟩ k = InAddr.group ⟨b⟩ k := by
      by_cases hk : (k : ℕ) < 4
      · exact h k hk
      · rw [ha k (not_lt.mp hk), hb k (not_lt.mp hk)]
    simpa [InAddr.group] using hgroup
  subst hfun
  rfl

/-- Addresses in canonical form are compared by their first four groups. -/
instance : DecidableEq CanonAddr := fun a b =>
  decidable_of_iff (∀ k < 4, a.addr.group k = b.addr.group k)
    ⟨CanonAddr.ext_group, fun h k _ => by rw [h]⟩

def ipRegistryCanonicalize (a : InAddr) : CanonAddr :=
  if isIpv4 a then
    ⟨⟨![0x2002, a.group 6, a.group 7, 0, 0, 0, 0, 0]⟩, by
      intro k hk
      rw [InAddr.group]
      split_ifs with h8
      · interval_cases k <;> rfl
      · rfl⟩
  else
    ⟨⟨![a.group 0, a.group 1, a.group 2, a.group 3, 0, 0, 0, 0]⟩, by
      intro k hk
      rw [InAddr.group]
      split_ifs with h8
      · interval_cases k <;> rfl
      · rfl⟩

def ipRegistryHash (a : CanonAddr) : BitVec 16 :=
  a.addr.group 0 ^^^ a.addr.group 1 ^^^ a.addr.group 2 ^^^ a.addr.group 3

/-- `struct IPTargetEntry`. There are never more free targets than at the start. -/
structure IPTargetEntry where
  count : ℕ
  targets : List UInt8
  count_le : count ≤ STARTTARGETS
  deriving DecidableEq

/-- `struct IPRegistryEntry`, without the link of the chain. -/
structure IPRegistryEntry where
  target : Option IPTargetEntry
  addr : CanonAddr
  lastConnect : ℤ
  connected : BitVec 16
  attempts : BitVec 8
  deriving DecidableEq

/-- `struct IPRegistry48`, without the link of the chain. -/
structure IPRegistry48 where
  lastConnect : ℤ
  addr : BitVec 16 × BitVec 16 × BitVec 16
  attempts : BitVec 16
  deriving DecidableEq

/-- `ip_48_hash`, of the first three groups. -/
def ip48Hash (g : BitVec 16 × BitVec 16 × BitVec 16) : BitVec 16 := g.1 ^^^ g.2.1 ^^^ g.2.2

def first48 (a : InAddr) : BitVec 16 × BitVec 16 × BitVec 16 := (a.group 0, a.group 1, a.group 2)

structure Registry where
  entries : Table IPRegistryEntry.addr ipRegistryHash
  blocks : Table IPRegistry48.addr ip48Hash

def Registry.empty : Registry := ⟨Table.empty, Table.empty⟩

variable (r : Registry)

def Registry.put (e : IPRegistryEntry) : Registry :=
  { r with entries := r.entries.put e }

variable (ip : InAddr)

def ipRegistryFind : Option IPRegistryEntry :=
  let canon := ipRegistryCanonicalize ip
  let bits := if canon.addr.group 0 = 0x2002 then 48 else 64
  (r.entries.chain (ipRegistryHash canon)).find? fun e =>
    ipmaskCheck canon.addr e.addr.addr bits ≠ 0

def ip48Find : IPRegistry48 :=
  (r.blocks.find (first48 ip)).getD ⟨m.now, first48 ip, 0⟩

variable (addr : InAddr)

def ipRegistryNewEntry : IPRegistryEntry :=
  ⟨none, ipRegistryCanonicalize addr, m.now, 1, 1⟩

/-! ### What depends on the time since the last attempt -/

variable (elapsed : ℤ) (target : Option IPTargetEntry)

/-- The free targets after a time (`ip_registry_update_free_targets`), computed in
`unsigned int`. -/
def freeTargets : ℕ :=
  match target with
  | none => STARTTARGETS
  | some t => min ((t.count + elapsed.tdiv TARGET_DELAY) % 2 ^ 32).toNat STARTTARGETS

lemma freeTargets_le : freeTargets elapsed target ≤ STARTTARGETS := by
  cases target with
  | none => exact le_rfl
  | some t => exact min_le_right _ _

/-- `ip_registry_update_free_targets`, as it changes the targets of the entry. -/
def updateFreeTargets : Option IPTargetEntry :=
  target.map fun t => ⟨freeTargets elapsed (some t), t.targets, freeTargets_le _ _⟩

/-- What `ip_registry_expire_entry` frees. -/
inductive Expiry
  | entry
  | targets
  | nothing
  deriving DecidableEq

/-- `ip_registry_expire_entry`. -/
def expiry : Expiry :=
  if elapsed > 600 then .entry
  else if elapsed > 120 ∧ target ≠ none then .targets
  else .nothing

def attemptsLapsed (f : Features) (elapsed : ℤ) : Bool := elapsed > f.clonePeriod

/-- Whether the attempts are forgotten when the last client leaves. -/
def visitLapsed (f : Features) (elapsed : ℤ) : Bool := elapsed > f.cloneLimit * f.clonePeriod

def attempts48Lapsed (f : Features) (elapsed : ℤ) : Bool := elapsed > f.clone48Period

def expired48 : Bool := elapsed > 600

/-! ### Counters -/

/-- `if (0 == ++x) --x`. -/
def incr {w : ℕ} (x : BitVec w) : BitVec w := if x + 1 = 0 then x else x + 1

/-- `if (0 == --x) ++x`. -/
def decr {w : ℕ} (x : BitVec w) : BitVec w := if x - 1 = 0 then x else x - 1

/-- `assert(entry->connected > 0); --entry->connected`. -/
def IPRegistryEntry.release (e : IPRegistryEntry) : Option IPRegistryEntry :=
  if e.connected = 0 then none else some { e with connected := e.connected - 1 }

def touch48 (b : IPRegistry48) : IPRegistry48 :=
  { b with
    lastConnect := m.now
    attempts := incr
      (if attempts48Lapsed m.features (connectedSince m b.lastConnect) then 0 else b.attempts) }

def touchBlock : Registry :=
  { r with blocks := r.blocks.put (touch48 m (ip48Find m r addr)) }

/-! ### Connections -/

/-- `ip_registry_check_local` from the point on where an entry has been found: whether
the connection is permitted, the time to grant another free target, and the entry. -/
def localFound (e : IPRegistryEntry) : Option (Bool × Option ℤ × IPRegistryEntry) :=
  -- refuse the connection if it would overflow the counter
  if e.connected + 1 = 0 then some (false, none, e)
  else
    let elapsed := connectedSince m e.lastConnect
    let attempts := incr (if attemptsLapsed m.features elapsed then 0 else e.attempts)
    let e' : IPRegistryEntry :=
      { e with
        connected := e.connected + 1
        attempts := attempts
        target := updateFreeTargets elapsed e.target
        lastConnect := m.now }
    if (attempts.toNat : ℤ) < m.features.cloneLimit then
      let free := freeTargets elapsed e.target
      some (true, some (m.currentTime - (TARGET_DELAY * free - 1) % 2 ^ 32), e')
    else if m.currentTime - m.since > m.features.cloneDelay then
      e'.release.map fun e'' => (false, none, e'')
    else some (true, none, e')

/-- `ip_registry_check_local` after the check of the block. -/
def localRest :
    Option (Bool × Option ℤ × Registry) :=
  match ipRegistryFind r addr with
  | none => some (true, none, r.put (ipRegistryNewEntry m addr))
  | some e => (localFound m e).map fun p => (p.1, p.2.1, r.put p.2.2)

/-- The entry of an address whose block has too many attempts: the refused connection is
counted and taken back. -/
def rejectFound (e : IPRegistryEntry) : Option IPRegistryEntry :=
  if e.connected + 1 = 0 then some { e with lastConnect := m.now }
  else IPRegistryEntry.release { e with lastConnect := m.now, connected := e.connected + 1 }

def ipRegistryCheckLocal (x : Exceptions) (m : Moment) (r : Registry) (addr : InAddr) :
    Option (Bool × Option ℤ × Registry) :=
  if ipRegistryIsExempt x addr then some (true, none, r)
  else if isIpv4 addr then localRest m r addr
  else
    let b := touch48 m (ip48Find m r addr)
    if (b.attempts.toNat : ℤ) ≥ m.features.clone48Limit ∧
        m.currentTime - m.since > m.features.cloneDelay then
      match ipRegistryFind r addr with
      | none => some (false, none, touchBlock m r addr)
      | some e => (rejectFound m e).map fun e' => (false, none, (touchBlock m r addr).put e')
    else localRest m (touchBlock m r addr) addr

/-- `ip_registry_check_remote` on an entry that has been found. A counter that overflows
is left at zero. -/
def remoteFound (isBurst : Bool) (e : IPRegistryEntry) : Bool × IPRegistryEntry :=
  if e.connected + 1 = 0 then (false, { e with connected := 0 })
  else
    let elapsed := connectedSince m e.lastConnect
    let attempts := if attemptsLapsed m.features elapsed then 0 else e.attempts
    if isBurst then (true, { e with connected := e.connected + 1, attempts := attempts })
    else
      (true,
        { e with
          connected := e.connected + 1
          attempts := incr attempts
          target := updateFreeTargets elapsed e.target
          lastConnect := m.now })

def ipRegistryCheckRemote (x : Exceptions) (m : Moment) (r : Registry) (ip : InAddr)
    (isBurst : Bool) : Bool × Registry :=
  if ¬ inAddrValid ip then (true, r)
  else if ipRegistryIsExempt x ip then (true, r)
  else
    let r' := if isIpv4 ip then r else touchBlock m r ip
    match ipRegistryFind r' ip with
    | none =>
      let e := ipRegistryNewEntry m ip
      (true, r'.put (if isBurst then { e with attempts := 0 } else e))
    | some e => ((remoteFound m isBurst e).1, r'.put (remoteFound m isBurst e).2)

/-- `ip_registry_connect_fail` on an entry that has been found. -/
def failFound (disconnect : Bool) (e : IPRegistryEntry) : Option IPRegistryEntry :=
  let e' : IPRegistryEntry := { e with attempts := decr e.attempts }
  if disconnect then e'.release else some e'

def ipRegistryConnectFail (disconnect : Bool) :
    Option Registry :=
  let b := ip48Find m r addr
  let r' := if isIpv4 addr then r
    else { r with blocks := r.blocks.put { b with attempts := decr b.attempts } }
  match ipRegistryFind r addr with
  | none => some r'
  | some e => (failFound disconnect e).map fun e' => r'.put e'

/-! ### Disconnections -/

structure Leaving where
  myConnect : Bool
  targets : List UInt8
  nexttarget : ℤ
  firsttime : ℤ

variable (c : Leaving)

/-- The free targets that a client of this server leaves, in `unsigned int`. -/
def leftTargets : ℕ :=
  let free := if c.nexttarget < m.currentTime then
    (m.currentTime - c.nexttarget).tdiv TARGET_DELAY + 1 else 0
  let bonus := if m.currentTime - c.firsttime > 600 then
    (m.currentTime - c.firsttime - 600).tdiv TARGET_DELAY else 0
  ((free + bonus) % 2 ^ 32).toNat

/-- The targets of an entry with those of a client that has left: the smaller number of
free ones, and the targets of the client. -/
def leaveTargets (target : Option IPTargetEntry) : IPTargetEntry :=
  ⟨min (leftTargets m c) (target.elim STARTTARGETS IPTargetEntry.count), c.targets, by
    refine (min_le_right _ _).trans ?_
    cases target with
    | none => exact le_rfl
    | some t => exact t.count_le⟩

/-- `ip_registry_disconnect` on an entry that has been found, once its counter has been
lowered. -/
def disconnectFound (e : IPRegistryEntry) : IPRegistryEntry :=
  let elapsed := connectedSince m e.lastConnect
  let e' : IPRegistryEntry :=
    if e.connected = 0 then
      { e with
        attempts := if visitLapsed m.features elapsed then 0 else e.attempts
        target := updateFreeTargets elapsed e.target
        lastConnect := m.now }
    else e
  if c.myConnect then { e' with target := some (leaveTargets m c e'.target) } else e'

def ipRegistryDisconnect :
    Option Registry :=
  if ¬ inAddrValid ip then some r
  else
    match ipRegistryFind r ip with
    | none => some r
    | some e => e.release.map fun e' => r.put (disconnectFound m c e')

/-! ### Expiration -/

def expireEntry (e : IPRegistryEntry) : Option IPRegistryEntry :=
  if e.connected = 0 then
    match expiry (connectedSince m e.lastConnect) e.target with
    | .entry => none
    | .targets => some { e with target := none }
    | .nothing => some e
  else some e

lemma expireEntry_addr (e e' : IPRegistryEntry) (h : expireEntry m e = some e') :
    e'.addr = e.addr := by
  unfold expireEntry at h
  split_ifs at h
  · split at h
    · simp at h
    · cases h
      rfl
    · cases h
      rfl
  · cases h
    rfl

def expireBlock (b : IPRegistry48) : Option IPRegistry48 :=
  if expired48 (connectedSince m b.lastConnect) then none else some b

lemma expireBlock_addr (b b' : IPRegistry48) (h : expireBlock m b = some b') :
    b'.addr = b.addr := by
  unfold expireBlock at h
  split_ifs at h
  cases h
  rfl

def ipRegistryExpire : Registry :=
  ⟨r.entries.filterMap (expireEntry m) (expireEntry_addr m),
    r.blocks.filterMap (expireBlock m) (expireBlock_addr m)⟩

/-! ### Finding entries -/

lemma canon_ext_of_hash {a b} (hhash : ipRegistryHash a = ipRegistryHash b)
    (h : ∀ k < 3, a.addr.group k = b.addr.group k) : a = b := by
  refine CanonAddr.ext_group fun k hk => ?_
  by_cases hk3 : k < 3
  · exact h k hk3
  · obtain rfl : k = 3 := by omega
    rw [ipRegistryHash, h 0 (by omega), h 1 (by omega), h 2 (by omega)] at hhash
    exact (BitVec.xor_right_inj _).mp hhash

/-- **An entry is found by its address in canonical form**, whichever number of bits is
compared. -/
theorem ipRegistryFind_eq : ipRegistryFind r ip = r.entries.find (ipRegistryCanonicalize ip) := by
  refine List.find?_congr fun e he => ?_
  have hhash := r.entries.hash_eq _ e he
  set canon := ipRegistryCanonicalize ip
  rw [decide_eq_decide]
  constructor
  · intro hcheck
    rw [ipmaskCheck_iff (by split_ifs <;> omega)] at hcheck
    have h48 : Prefix.Agree getBit canon.addr e.addr.addr (3 * 16) :=
      hcheck.mono (by split_ifs <;> omega)
    rw [agree_groups (by omega)] at h48
    exact canon_ext_of_hash hhash fun k hk => (h48 k hk).symm
  · intro heq
    rw [heq, ipmaskCheck_iff (by split_ifs <;> omega)]
    exact Prefix.Agree.refl _ _

end Ircu.Ipcheck
