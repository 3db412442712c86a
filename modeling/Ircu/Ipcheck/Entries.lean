import Ircu.Ipcheck.Basic

/-!
Which addresses share an entry of the registry, and what a failed connection does to the attempts.

`ip_registry_find` compares 48 bits of 6to4 addresses, as its comment says, but looks in one chain
only, and the hash that selects the chain is made of 64 bits. `ip_registry_connect_fail` decrements
a counter first and compares it with zero afterwards, so a counter that is zero wraps around.
-/

namespace Ircu.Ipcheck

open Option Table

/-! ### The entry of an address -/

/-- Addresses that the comment of `ip_registry_find` calls the same: they agree in canonical form,
on 48 bits for a 6to4 address and on 64 otherwise. -/
def Same (a b : InAddr) : Prop :=
  let canon := ipRegistryCanonicalize a
  Prefix.Agree getBit (ipRegistryCanonicalize b).addr canon.addr
    (if canon.addr.group 0 = 0x2002 then 48 else 64)

instance (a b : InAddr) : Decidable (Same a b) := inferInstanceAs (Decidable (Prefix.Agree ..))

lemma Same.group {a b} (h : Same a b) {k} (hk : k < 3) :
    (ipRegistryCanonicalize a).addr.group k = (ipRegistryCanonicalize b).addr.group k := by
  have h48 := h.mono (show 3 * 16 ≤ _ by split_ifs <;> omega)
  rw [agree_groups (by omega)] at h48
  exact (h48 k hk).symm

lemma find_put_newEntry (r : Registry) (m a) :
    ipRegistryFind (r.put (ipRegistryNewEntry m a)) a = some (ipRegistryNewEntry m a) := by
  rw [ipRegistryFind_eq, Registry.put, find_put]
  exact if_pos rfl

/-- **Addresses that are the same have one entry** if and only if their canonical forms agree on the
last 16 of the 64 bits, on which the hash depends. -/
theorem same_entry_iff (a b : InAddr) (h : Same a b) :
    (∀ r e, ipRegistryFind r a = some e → ipRegistryFind r b = some e) ↔
      (ipRegistryCanonicalize a).addr.group 3 = (ipRegistryCanonicalize b).addr.group 3 := by
  constructor
  · intro hfind
    let m : Moment := ⟨0, 0, ⟨0, 0, 0, 0, 0⟩⟩
    have hb := hfind _ _ (find_put_newEntry Registry.empty m a)
    rw [ipRegistryFind_eq, Table.find_eq_some] at hb
    rw [show ipRegistryCanonicalize a = ipRegistryCanonicalize b from hb.2]
  intro h3 r e he
  have hcanon : ipRegistryCanonicalize a = ipRegistryCanonicalize b := by
    refine CanonAddr.ext_group fun k hk => ?_
    rcases Nat.lt_succ_iff_lt_or_eq.mp hk with hk | rfl
    · exact h.group hk
    · exact h3
  rwa [ipRegistryFind_eq, ← hcanon, ← ipRegistryFind_eq]

/-- The address `192.0.2.1`. -/
def testNet : InAddr := ⟨![0, 0, 0, 0, 0, 0xffff, 0xc000, 0x201]⟩

/-- An address of the 6to4 network of `192.0.2.1`, by its subnet. -/
def testNet6to4 (g : BitVec 16) : InAddr := ⟨![0x2002, 0xc000, 0x201, g, 0, 0, 0, 1]⟩

def secondsAfter (n : ℤ) : Moment := ⟨1000 + n, 0, ⟨4, 40, 50, 10, 600⟩⟩

theorem same_entry_ipv4 :
    Same testNet (testNet6to4 0) ∧
      ∀ r e, ipRegistryFind r testNet = some e → ipRegistryFind r (testNet6to4 0) = some e :=
  ⟨by decide +kernel, (same_entry_iff _ _ (by decide +kernel)).mpr (by decide +kernel)⟩

/-- A client of `192.0.2.1` has an entry, and its 6to4 subnet 1 is not found. -/
theorem same_entry_missed :
    Same testNet (testNet6to4 1) ∧
      ∃ r : Registry, (ipRegistryFind r testNet).isSome = true ∧
        ipRegistryFind r (testNet6to4 1) = none :=
  ⟨by decide +kernel, Registry.empty.put (ipRegistryNewEntry (secondsAfter 0) testNet),
    by decide +kernel, by decide +kernel⟩

/-! ### The attempts after a failed connection -/

def entryAttempts (r : Registry) (addr : InAddr) : ℕ :=
  (ipRegistryFind r addr).elim 0 fun e => e.attempts.toNat

def blockAttempts (r : Registry) (addr : InAddr) : ℕ :=
  (r.blocks.find (first48 addr)).elim 0 fun b => b.attempts.toNat

lemma decr_le_iff8 (x : BitVec 8) : (decr x).toNat ≤ x.toNat ↔ x ≠ 0 := by
  rw [decr]
  split_ifs with h <;> constructor <;> intro h' <;> bv_omega

lemma decr_le_iff16 (x : BitVec 16) : (decr x).toNat ≤ x.toNat ↔ x ≠ 0 := by
  rw [decr]
  split_ifs with h <;> constructor <;> intro h' <;> bv_omega

lemma blockAttempts_connectFail {m r r' addr disconnect}
    (h : ipRegistryConnectFail m r addr disconnect = some r') : blockAttempts r' addr =
      if isIpv4 addr then blockAttempts r addr else (decr (ip48Find m r addr).attempts).toNat := by
  have hblocks : r'.blocks = if isIpv4 addr then r.blocks
      else
        r.blocks.put { ip48Find m r addr with attempts := decr (ip48Find m r addr).attempts } := by
    rw [ipRegistryConnectFail] at h
    split at h
    · obtain rfl := some.inj h
      split_ifs <;> rfl
    · obtain ⟨e', -, rfl⟩ := map_eq_some_iff.mp h
      split_ifs <;> rfl
  have haddr : (ip48Find m r addr).addr = first48 addr := by
    rw [ip48Find]
    cases hb : r.blocks.find (first48 addr) with
    | none => rfl
    | some b => exact key_of_find hb
  rw [blockAttempts, hblocks]
  split_ifs
  · rfl
  · rw [find_put, if_pos haddr]
    rfl

lemma failFound_eq_some {disconnect e e'}
    (h : failFound disconnect e = some e') : e'.attempts = decr e.attempts ∧ e'.addr = e.addr := by
  rw [failFound] at h
  cases disconnect with
  | false =>
    obtain rfl := some.inj h
    exact ⟨rfl, rfl⟩
  | true =>
    rw [if_pos rfl, IPRegistryEntry.release] at h
    split_ifs at h
    obtain rfl := some.inj h
    exact ⟨rfl, rfl⟩

lemma entryAttempts_connectFail {m r r' addr disconnect}
    (h : ipRegistryConnectFail m r addr disconnect = some r') :
    entryAttempts r' addr = (ipRegistryFind r addr).elim 0 fun e => (decr e.attempts).toNat := by
  have hkept : ∀ b : Table IPRegistry48.addr ip48Hash,
      (if isIpv4 addr then r else { r with blocks := b }).entries = r.entries := fun b => by
    split_ifs <;> rfl
  rw [ipRegistryConnectFail] at h
  rw [entryAttempts]
  cases he : ipRegistryFind r addr with
  | none =>
    rw [he] at h
    obtain rfl := some.inj h
    rw [ipRegistryFind_eq, hkept, ← ipRegistryFind_eq, he]
    rfl
  | some e =>
    rw [he] at h
    obtain ⟨e', hfail, rfl⟩ := map_eq_some_iff.mp h
    obtain ⟨hattempts, haddr⟩ := failFound_eq_some hfail
    rw [ipRegistryFind_eq] at he ⊢
    rw [Registry.put, find_put, if_pos (haddr.trans (key_of_find he))]
    exact congrArg BitVec.toNat hattempts

/-- **A failed connection raises no counter of attempts** if and only if the counter of the entry
that is found is not zero and neither is that of the block of an IPv6 address. A block that is not
there counts as zero. -/
theorem connectFail_attempts_iff (m : Moment) (r r' : Registry) (addr : InAddr) (disconnect : Bool)
    (h : ipRegistryConnectFail m r addr disconnect = some r') :
    (entryAttempts r' addr ≤ entryAttempts r addr ∧
        blockAttempts r' addr ≤ blockAttempts r addr) ↔
      (∀ e, ipRegistryFind r addr = some e → e.attempts ≠ 0) ∧
        (isIpv4 addr = false → blockAttempts r addr ≠ 0) := by
  refine and_congr ?_ ?_
  · rw [entryAttempts_connectFail h, entryAttempts]
    cases ipRegistryFind r addr with
    | none => exact iff_of_true le_rfl fun e he => by cases he
    | some e =>
      refine (decr_le_iff8 e.attempts).trans ⟨fun hne e' he' => ?_, fun hne => hne e rfl⟩
      obtain rfl := some.inj he'
      exact hne
  have hblock : blockAttempts r addr = (ip48Find m r addr).attempts.toNat := by
    rw [blockAttempts, ip48Find]
    cases r.blocks.find (first48 addr) <;> rfl
  rw [blockAttempts_connectFail h]
  cases isIpv4 addr with
  | true => exact iff_of_true le_rfl fun hf => by cases hf
  | false =>
    rw [hblock]
    refine (decr_le_iff16 _).trans
      ⟨fun hne _ h0 => hne (BitVec.eq_of_toNat_eq h0), fun hne h0 => ?_⟩
    exact hne rfl (by rw [h0]; rfl)

/-- The registry after a client of an IPv6 address has connected. -/
def connected6to4 : Registry :=
  (ipRegistryCheckLocal ⟨[], []⟩ (secondsAfter 0) Registry.empty (testNet6to4 0)).elim
    Registry.empty (·.2.2)

theorem connectFail_attempts_connected :
    ∃ r', ipRegistryConnectFail (secondsAfter 5) connected6to4 (testNet6to4 0) true = some r' ∧
      entryAttempts r' (testNet6to4 0) ≤ entryAttempts connected6to4 (testNet6to4 0) ∧
      blockAttempts r' (testNet6to4 0) ≤ blockAttempts connected6to4 (testNet6to4 0) := by
  obtain ⟨r', h⟩ := isSome_iff_exists.mp (by decide +kernel :
    (ipRegistryConnectFail (secondsAfter 5) connected6to4 (testNet6to4 0) true).isSome = true)
  have hentry : (ipRegistryFind connected6to4 (testNet6to4 0)).map (·.attempts) = some 1 := by
    decide +kernel
  refine ⟨r', h, (connectFail_attempts_iff _ _ _ _ _ h).mpr ⟨fun e he hzero => ?_, fun _ => ?_⟩⟩
  · rw [he, map_some, hzero] at hentry
    cases hentry
  · decide +kernel

/-- A client of `192.0.2.1` connects, and fails to register after 100 seconds. In between, another
one was introduced in a burst, which is not counted but starts the count anew. -/
theorem connectFail_attempts_wrap :
    ((ipRegistryCheckLocal ⟨[], []⟩ (secondsAfter 0) Registry.empty testNet).bind fun p =>
      let r := (ipRegistryCheckRemote ⟨[], []⟩ (secondsAfter 100) p.2.2 testNet true).2
      (ipRegistryConnectFail (secondsAfter 100) r testNet true).map fun r' =>
        (entryAttempts r testNet, entryAttempts r' testNet)) = some (0, 255) := by
  decide +kernel

end Ircu.Ipcheck
