import Ircu.Numnick.Basic

/-!
The virtual hosts of `ircd_vhost.c`.

A block of 64 bits is enciphered with TEA and written in base 64. A cipher text with a bracket
in it makes no host name, and another block is tried: for an IPv4 address, which is the second
word of its blocks, the tries are counted in the first word; the first half of an IPv6 address
is a block itself, and the number of the try is added to it bit by bit.
-/

namespace Ircu.Vhost

open Numnick List

def VHOST_KEY_LEN : ℕ := 12

def VHOST_MAX_LEN : ℕ := 16

def VHOST_WORD_LEN : ℕ := 6

def VHOST_MAX_TRIES : ℕ := 65535

abbrev Words := BitVec 32 × BitVec 32

/-! ### The cipher -/

def mix (z sum a b : BitVec 32) : BitVec 32 := ((z <<< 4) + a) ^^^ ((z + sum) ^^^ ((z >>> 5) + b))

def teaLoop (k : Words) : ℕ → BitVec 32 → Words → Words
  | 0, _, x => x
  | n + 1, sum, x =>
    let sum := sum + 0x9E3779B9
    let y := x.1 + mix x.2 sum k.1 k.2
    teaLoop k n sum (y, x.2 + mix y sum 0 0)

/-- `vhost_tea`, with the initialisation vector `x`. -/
def vhostTea (v k x : Words) : Words := teaLoop k 32 0 (v.1 ^^^ x.1, v.2 ^^^ x.2)

/-! ### Hosts -/

def vhostIsBase64 (c : UInt8) : Bool :=
  (ch 'A' ≤ c ∧ c ≤ ch 'Z') ∨ (ch 'a' ≤ c ∧ c ≤ ch 'z') ∨ (ch '0' ≤ c ∧ c ≤ ch '9') ∨
    c = ch '[' ∨ c = ch ']'

def vhostKeyValid (key : List UInt8) : Bool :=
  key.length = VHOST_KEY_LEN ∧ key.all vhostIsBase64 = true

def vhostDerive (key : List UInt8) : Words :=
  (.ofNat 32 (base64toint (key.take VHOST_WORD_LEN)),
    .ofNat 32 (base64toint (key.drop VHOST_WORD_LEN)))

def vhostSetKey (key : List UInt8) : Option Words :=
  if vhostKeyValid key then some (vhostDerive key) else none

def vhostRender (x : Words) : List UInt8 :=
  inttobase64 x.1.toNat VHOST_WORD_LEN ++ ch '.' :: inttobase64 x.2.toNat VHOST_WORD_LEN

def fit (x : Words) : Bool := ch '[' ∉ vhostRender x ∧ ch ']' ∉ vhostRender x

/-- The loops of `vhost_make`, for the cipher texts of the tries. -/
def vhostTry (cipher : ℕ → Words) : Option (List UInt8) :=
  ((List.range' 0 (VHOST_MAX_TRIES + 1)).find? fun ts => fit (cipher ts)).map fun ts =>
    vhostRender (cipher ts)

def cipher4 (k : Words) (ip : InAddr) (ts : ℕ) : Words :=
  vhostTea ((k.1 &&& 0xffff0000) + .ofNat 32 ts, ip.group 6 ++ ip.group 7) k (0, 0)

def network (ip : InAddr) : Words := (ip.group 0 ++ ip.group 1, ip.group 2 ++ ip.group 3)

def cipher6 (k : Words) (ip : InAddr) (ts : ℕ) : Words :=
  vhostTea (network ip) k (.ofNat 32 ts, 0)

/-- `vhost_make`, for a buffer of the length `len`. -/
def vhostMake (loaded : Option Words) (len : ℕ) (ip : InAddr) : Option (List UInt8) :=
  loaded.bind fun k =>
    if len < VHOST_MAX_LEN + 1 then none
    else if isIpv4 ip then (vhostTry (cipher4 k ip)).map (· ++ str ".v4")
    else (vhostTry (cipher6 k ip)).map (· ++ str ".v6")

/-! ### Nothing is lost -/

variable {k x y : Words} {ip ip' : InAddr} {len len' : ℕ} {host : List UInt8}

lemma teaLoop_injective (n : ℕ) (sum) (h : teaLoop k n sum x = teaLoop k n sum y) : x = y := by
  induction n generalizing sum x y with
  | zero => exact h
  | succ n ih =>
    -- the first word of the result gives the second one back, and then that gives the first one
    obtain ⟨hy, hz⟩ := Prod.mk.inj (ih _ h)
    rw [hy] at hz
    have h2 := (BitVec.add_left_inj _).mp hz
    rw [h2] at hy
    exact Prod.ext ((BitVec.add_left_inj _).mp hy) h2

lemma vhostTea_inj {v v' iv iv'} : vhostTea v k iv = vhostTea v' k iv' ↔
    v.1 ^^^ iv.1 = v'.1 ^^^ iv'.1 ∧ v.2 ^^^ iv.2 = v'.2 ^^^ iv'.2 := by
  rw [← Prod.mk_inj]
  exact ⟨teaLoop_injective 32 0, congrArg (teaLoop k 32 0)⟩

lemma word_injective {a b : BitVec 32}
    (h : inttobase64 a.toNat VHOST_WORD_LEN = inttobase64 b.toNat VHOST_WORD_LEN) : a = b := by
  have hlt (c : BitVec 32) : c.toNat < 64 ^ VHOST_WORD_LEN := c.isLt.trans (by decide)
  rw [← BitVec.toNat_inj, ← base64toint_inttobase64 (hlt a) a.isLt, h,
    base64toint_inttobase64 (hlt b) b.isLt]

lemma vhostRender_injective (h : vhostRender x = vhostRender y) : x = y := by
  obtain ⟨h1, h2⟩ := append_inj h (by rw [length_inttobase64, length_inttobase64])
  exact Prod.ext (word_injective h1) (word_injective (cons.inj h2).2)

/-- The first try that makes a host. -/
def FirstFit (cipher : ℕ → Words) (ts : ℕ) : Prop :=
  ts ≤ VHOST_MAX_TRIES ∧ fit (cipher ts) = true ∧ ∀ s < ts, fit (cipher s) = false

lemma vhostTry_eq_some_iff (cipher) : vhostTry cipher = some host ↔
    ∃ ts, FirstFit cipher ts ∧ vhostRender (cipher ts) = host := by
  simp only [vhostTry, Option.map_eq_some_iff, find?_range'_eq_some, FirstFit]
  simp [and_left_comm]

lemma same_host_iff {cipher cipher' : ℕ → Words} (suffix : List UInt8) :
    (∃ host, (vhostTry cipher).map (· ++ suffix) = some host ∧
        (vhostTry cipher').map (· ++ suffix) = some host) ↔
      ∃ ts ts', FirstFit cipher ts ∧ FirstFit cipher' ts' ∧ cipher ts = cipher' ts' := by
  simp only [Option.map_eq_some_iff, vhostTry_eq_some_iff]
  constructor
  · rintro ⟨_, ⟨_, ⟨ts, hts, rfl⟩, rfl⟩, ⟨_, ⟨ts', hts', rfl⟩, heq⟩⟩
    exact ⟨ts, ts', hts, hts', (vhostRender_injective (append_cancel_right heq)).symm⟩
  · rintro ⟨ts, ts', hts, hts', heq⟩
    exact ⟨_, ⟨_, ⟨ts, hts, rfl⟩, rfl⟩, _, ⟨ts', hts', rfl⟩, by rw [heq]⟩

lemma halves_eq {a b c d : BitVec 16} (h : a ++ b = c ++ d) : a = c ∧ b = d := by
  have hleft := congrArg (BitVec.extractLsb' 16 16) h
  have hright := congrArg (BitVec.extractLsb' 0 16) h
  rw [BitVec.extractLsb'_append_eq_left, BitVec.extractLsb'_append_eq_left] at hleft
  rw [BitVec.extractLsb'_append_eq_right, BitVec.extractLsb'_append_eq_right] at hright
  exact ⟨hleft, hright⟩

/-- **Different IPv4 addresses get different hosts**, whatever the key is. Addresses are told apart
as by `irc_in_addr_cmp`, by their last two groups. -/
theorem vhost_ipv4_injective (key : List UInt8) (hip : isIpv4 ip = true) (hip' : isIpv4 ip' = true)
    (h : vhostMake (vhostSetKey key) len ip = some host)
    (h' : vhostMake (vhostSetKey key) len' ip' = some host) :
    ip.group 6 = ip'.group 6 ∧ ip.group 7 = ip'.group 7 := by
  obtain ⟨k, hk, h⟩ := Option.bind_eq_some_iff.mp h
  rw [hk, vhostMake, Option.bind_some] at h'
  split_ifs at h h'
  obtain ⟨ts, ts', -, -, heq⟩ := (same_host_iff _).mp ⟨host, h, h'⟩
  have haddr : ip.group 6 ++ ip.group 7 = ip'.group 6 ++ ip'.group 7 := by
    simpa using (vhostTea_inj.mp heq).2
  exact halves_eq haddr

/-- The two ways to write `1.2.3.4` get one host, and they are one address. -/
theorem vhost_ipv4_injective_mapped :
    let compat : InAddr := ⟨![0, 0, 0, 0, 0, 0, 0x102, 0x304]⟩
    ∃ host, vhostMake (vhostSetKey (str "AbCdEfGhIjKl")) 17 (mapped 0x102 0x304) = some host ∧
      vhostMake (vhostSetKey (str "AbCdEfGhIjKl")) 20 compat = some host ∧
      (mapped 0x102 0x304).group 6 = compat.group 6 ∧
      (mapped 0x102 0x304).group 7 = compat.group 7 := by
  intro compat
  obtain ⟨host, h⟩ : ∃ host, vhostMake (vhostSetKey (str "AbCdEfGhIjKl")) 17
      (mapped 0x102 0x304) = some host := Option.isSome_iff_exists.mp (by decide +kernel)
  have h' : vhostMake (vhostSetKey (str "AbCdEfGhIjKl")) 20 compat = some host := by
    rw [← h]
    decide +kernel
  exact ⟨host, h, h', vhost_ipv4_injective _ (by decide) (by decide) h h'⟩

/-- The first half of the address makes a host at once: there is no bracket in its cipher text. -/
def Plain (k : Words) (ip : InAddr) : Prop := fit (vhostTea (network ip) k (0, 0)) = true

/-- The addresses differ where the number of a try is not added, or both make a host at once. -/
def Separate (k : Words) (ip ip' : InAddr) : Prop :=
  ip.group 0 ≠ ip'.group 0 ∨ (network ip).2 ≠ (network ip').2 ∨ Plain k ip ∧ Plain k ip'

/-- The number of a try has 16 bits: it changes the second group only. -/
lemma try_xor {ts : ℕ} (hts : ts ≤ VHOST_MAX_TRIES) (a b : BitVec 16) :
    (a ++ b : BitVec 32) ^^^ .ofNat 32 ts = a ++ (b ^^^ .ofNat 16 ts) := by
  have hsplit : BitVec.ofNat 32 ts = (0 : BitVec 16) ++ BitVec.ofNat 16 ts := by
    have hnat := BitVec.toNat_append (0 : BitVec 16) (BitVec.ofNat 16 ts)
    rw [VHOST_MAX_TRIES] at hts
    apply BitVec.eq_of_toNat_eq
    rw [hnat]
    simp
    omega
  rw [hsplit]
  exact BitVec.xor_append.trans (congrArg (· ++ _) BitVec.xor_zero)

lemma FirstFit.eq_zero {cipher ts} (h : FirstFit cipher ts) (h0 : fit (cipher 0) = true) :
    ts = 0 := by
  by_contra hne
  have := h.2.2 0 (by omega)
  rw [h0] at this
  cases this

lemma vhostMake_ipv6 (loaded : Option Words) (hk : loaded = some k) (hip : isIpv4 ip = false)
    (hlen : VHOST_MAX_LEN < len) :
    vhostMake loaded len ip = (vhostTry (cipher6 k ip)).map (· ++ str ".v6") := by
  rw [vhostMake, hk, Option.bind_some, if_neg (by omega), hip, if_neg (by decide)]

lemma Separate.not_meet (hsep : Separate k ip ip') (hne : network ip ≠ network ip') {ts ts'}
    (hts : FirstFit (cipher6 k ip) ts) (hts' : FirstFit (cipher6 k ip') ts') :
    cipher6 k ip ts ≠ cipher6 k ip' ts' := by
  intro heq
  obtain ⟨h1, h2⟩ := vhostTea_inj.mp heq
  replace h2 : (network ip).2 = (network ip').2 := by simpa using h2
  rcases hsep with h0 | hsecond | ⟨hplain, hplain'⟩
  · dsimp only [network] at h1
    rw [try_xor hts.1, try_xor hts'.1] at h1
    exact h0 (halves_eq h1).1
  · exact hsecond h2
  · obtain rfl := hts.eq_zero hplain
    obtain rfl := hts'.eq_zero hplain'
    exact hne (Prod.ext (by simpa using h1) h2)

/-- **Separate addresses get different hosts**, and the condition is needed: an address that does
not make a host at once shares the one it gets with an address whose first half is another one, the
block that is tried last. -/
theorem vhost_ipv6_apart (key : List UInt8) (hk : vhostSetKey key = some k)
    (hip : isIpv4 ip = false) (hlen : VHOST_MAX_LEN < len)
    (h : vhostMake (vhostSetKey key) len ip = some host) :
    (∀ ip' len', isIpv4 ip' = false → VHOST_MAX_LEN < len' → network ip ≠ network ip' →
        Separate k ip ip' → vhostMake (vhostSetKey key) len' ip' ≠ some host) ∧
      (¬Plain k ip → ∃ ip', isIpv4 ip' = false ∧ network ip ≠ network ip' ∧
        vhostMake (vhostSetKey key) len ip' = some host) := by
  rw [vhostMake_ipv6 _ hk hip hlen] at h
  refine ⟨fun ip' len' hip' hlen' hne hsep h' => ?_, fun hplain => ?_⟩
  · rw [vhostMake_ipv6 _ hk hip' hlen'] at h'
    obtain ⟨ts, ts', hts, hts', heq⟩ := (same_host_iff _).mp ⟨host, h, h'⟩
    exact hsep.not_meet hne hts hts' heq
  obtain ⟨_, hhost, rfl⟩ := Option.map_eq_some_iff.mp h
  obtain ⟨ts, hts, rfl⟩ := (vhostTry_eq_some_iff _).mp hhost
  -- the block of the last try is the first half of this address
  obtain ⟨ip', hip'⟩ : ∃ ip' : InAddr, (⟨![ip.group 0, ip.group 1 ^^^ .ofNat 16 ts, ip.group 2,
    ip.group 3, 1, 0, 0, 0]⟩ : InAddr) = ip' := ⟨_, rfl⟩
  have hnet : network ip' = ((network ip).1 ^^^ .ofNat 32 ts, (network ip).2) := by
    rw [← hip', network, network, try_xor hts.1]
    rfl
  have hblock : cipher6 k ip' 0 = cipher6 k ip ts := by
    rw [cipher6, cipher6, vhostTea_inj, hnet]
    simp
  have hfour : ip'.group 4 = 1 := by
    rw [← hip']
    rfl
  have hipv6 : isIpv4 ip' = false := by simp [isIpv4, hfour]
  refine ⟨ip', hipv6, fun heq => ?_, ?_⟩
  · have hzero : cipher6 k ip ts = vhostTea (network ip) k (0, 0) := by
      rw [← hblock, heq]
      rfl
    exact hplain (by rw [Plain, ← hzero]; exact hts.2.1)
  · rw [vhostMake_ipv6 _ hk hipv6 hlen, Option.map_eq_some_iff]
    have hfirst : FirstFit (cipher6 k ip') 0 :=
      ⟨Nat.zero_le _, by rw [hblock]; exact hts.2.1, fun s hs => absurd hs (Nat.not_lt_zero s)⟩
    exact ⟨_, (vhostTry_eq_some_iff _).mpr ⟨0, hfirst, rfl⟩, by rw [hblock]⟩

theorem vhost_ipv6_apart_documentation :
    let make := vhostMake (vhostSetKey (str "[]09azAZ[]09")) 17
    make ⟨![0x2001, 0xdb8, 0, 0, 0, 0, 0, 1]⟩ ≠ make ⟨![0x2001, 0xdb8, 0, 1, 0, 0, 0, 1]⟩ ∧
      ∃ ip', isIpv4 ip' = false ∧ make ⟨![0x2001, 0xdb8, 0, 0, 0, 0, 0, 1]⟩ = make ip' := by
  intro make
  obtain ⟨host, h⟩ : ∃ host, make ⟨![0x2001, 0xdb8, 0, 0, 0, 0, 0, 1]⟩ = some host :=
    Option.isSome_iff_exists.mp (by decide +kernel)
  obtain ⟨hapart, hshared⟩ :=
    vhost_ipv6_apart (str "[]09azAZ[]09") rfl (by decide) (by decide) h
  obtain ⟨ip', hip', -, heq⟩ := hshared (by rw [Plain]; decide +kernel)
  rw [h]
  exact ⟨(hapart _ 17 (by decide) (by decide) (by decide) (.inr (.inl (by decide)))).symm,
    ip', hip', heq.symm⟩

/-- The first half of the one address makes a cipher text with a bracket. Its next try is the first
try for the other address. -/
theorem vhost_ipv6_same :
    vhostMake (vhostSetKey (str "[]09azAZ[]09")) 17 ⟨![0x2001, 0xdb8, 0, 0, 0, 0, 0, 1]⟩ =
        some (str "DCbNB3.DrsmBh.v6") ∧
      vhostMake (vhostSetKey (str "[]09azAZ[]09")) 17 ⟨![0x2001, 0xdb9, 0, 0, 0, 0, 0, 1]⟩ =
        some (str "DCbNB3.DrsmBh.v6") := by
  decide +kernel

end Ircu.Vhost
