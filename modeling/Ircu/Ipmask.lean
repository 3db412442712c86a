import Ircu.Chattr
import Ircu.Cidr.Lookup

/-!
Address masks as text and as prefixes: `ipmask_parse` of `ircd_string.c` and
`ipmask_check` of `match.c`.

A pointer into the text is the rest of it. Both parsers write the prefix length
through `pbits` if they are given such a pointer, but `ipmask_parse` has one way
to succeed without writing it, so the length it yields is an `Option`.
-/

namespace Ircu

open Prefix BitVec CidrTree

/-! ### Parsing -/

def digitVal (c : UInt8) : ℕ := (c - ch '0').toNat

/-- The loop `for (n = 0; IsDigit(input[++pos]); ) n = n * 10 + input[pos] - '0'` on
an `unsigned int`, and the text behind the digits. -/
def decimalLoop : List UInt8 → ℕ → ℕ × List UInt8
  | [], n => (n, [])
  | c :: cs, n =>
    if isDigit c then decimalLoop cs ((n * 10 + digitVal c) % 2 ^ 32) else (n, c :: cs)

/-- `IsDigit` of the next character. -/
def digitNext (cs : List UInt8) : Bool := cs.head?.any isDigit

/-- What a parser has found: the text it has not used, the address and the
number that it has stored through `pbits`. -/
structure Parsed (A : Type) where
  rest : List UInt8
  addr : A
  bits : ℕ

def atonIp4Loop (pbits : Bool) : List UInt8 → (dots part : ℕ) → BitVec 32 →
    Option (Parsed (BitVec 32))
  | [], dots, part, ip =>
    if dots < 3 then none
    else some ⟨[], ip ||| (BitVec.ofNat 32 part <<< (24 - 8 * dots)), 32⟩
  | c :: cs, dots, part, ip =>
    if c = ch '.' then
      let dots := dots + 1
      if dots > 3 then none
      else if cs.head? = some (ch '.') then none
      else
        let ip := ip ||| (BitVec.ofNat 32 part <<< (32 - 8 * dots))
        if cs.head? = some (ch '*') then
          if cs.tail.dropWhile (fun c => c = ch '*' ∨ c = ch '.') ≠ [] then none
          else some ⟨[], ip, dots * 8⟩
        else atonIp4Loop pbits cs dots 0 ip
    else if c = ch '/' then
      if !pbits || !digitNext cs then none
      else
        let (bits, rest) := decimalLoop cs 0
        if bits > 32 then none
        else some ⟨rest, ip ||| (BitVec.ofNat 32 part <<< (24 - 8 * dots)), bits⟩
    else if ch '0' ≤ c ∧ c ≤ ch '9' then
      let part := part * 10 + digitVal c
      if part > 255 then none else atonIp4Loop pbits cs dots part ip
    else none

/-- `ircd_aton_ip4`, with a result unless it returns `0`. -/
def atonIp4 (input : List UInt8) (pbits : Bool) : Option (Parsed (BitVec 32)) :=
  if input.head? = some (ch '.') then none else atonIp4Loop pbits input 0 0 0

def hexVal (c : UInt8) : Option ℕ :=
  if ch '0' ≤ c ∧ c ≤ ch '9' then some (c - ch '0').toNat
  else if ch 'A' ≤ c ∧ c ≤ ch 'F' then some ((c - ch 'A').toNat + 10)
  else if ch 'a' ≤ c ∧ c ≤ ch 'f' then some ((c - ch 'a').toNat + 10)
  else none

/-- The variables of the IPv6 part of `ipmask_parse`. -/
structure Ip6State where
  in6 : ℕ → BitVec 16
  part : ℕ
  ii : ℕ
  colon : ℕ
  partStart : List UInt8

/-- `ip->in6_16[ii++] = htons(n)`. -/
def Ip6State.push (st : Ip6State) (n : ℕ) : Ip6State :=
  { st with in6 := Function.update st.in6 st.ii (BitVec.ofNat 16 n), ii := st.ii + 1 }

/-- The code at the label `finish`: what follows the `::` is moved to the end and
the gap is filled with zeros. -/
def Ip6State.finish (st : Ip6State) : InAddr :=
  if st.colon < 8 then
    let up := (List.range (st.ii - st.colon)).foldl
      (fun a jj => Function.update a (7 - jj) (a (st.ii - jj - 1))) st.in6
    let gap := (List.range (8 - st.ii)).foldl
      (fun a jj => Function.update a (st.colon + jj) 0) up
    ⟨fun k => gap k⟩
  else ⟨fun k => st.in6 k⟩

/-- What `ipmask_parse` has found. The prefix length is missing if it was not
stored. -/
structure ParsedMask where
  rest : List UInt8
  addr : InAddr
  bits : Option ℕ

/-- The `while (ii < 8) switch (input[pos])` loop of `ipmask_parse`. -/
def ip6Loop (pbits : Bool) : List UInt8 → Ip6State → Option ParsedMask
  | [], st =>
    -- after eight groups, which end in a colon, nothing is stored
    if 8 ≤ st.ii then some ⟨[], st.finish, none⟩
    else
      let st := st.push st.part
      if st.colon = 8 ∧ st.ii < 8 then none else some ⟨[], st.finish, some 128⟩
  | c :: cs, st =>
    if 8 ≤ st.ii then none
    else
      match hexVal c with
      | some v =>
        let part := st.part * 16 + v
        if part > 0xffff then none else ip6Loop pbits cs { st with part }
      | none =>
        if c = ch ':' then
          let st := { st with partStart := cs }
          if cs.head? = some (ch '.') then none
          else
            let st := { st.push st.part with part := 0 }
            match cs with
            | d :: cs' =>
              if d = ch ':' then
                if st.colon < 8 then none
                else if st.ii = 8 then none
                else ip6Loop pbits cs' { st with colon := st.ii }
              else ip6Loop pbits (d :: cs') st
            | [] => ip6Loop pbits [] st
        else if c = ch '.' then
          match atonIp4 st.partStart pbits with
          | none => none
          | some ip4 =>
            if st.ii > 6 then none
            else
              let st := (st.push (ip4.addr >>> 16).toNat).push (ip4.addr &&& 65535).toNat
              some ⟨ip4.rest, st.finish, some (ip4.bits + 96)⟩
        else if c = ch '/' then
          if !pbits || !digitNext cs then none
          else
            let st := st.push st.part
            let (bits, rest) := decimalLoop cs 0
            if bits > 128 then none else some ⟨rest, st.finish, some bits⟩
        else if c = ch '*' then
          if cs.dropWhile (fun c => c = ch '*' ∨ c = ch ':') ≠ [] ∨ st.colon < 8 then none
          else
            let st := if st.part ≠ 0 ∧ st.ii < 8 then st.push st.part else st
            some ⟨[], ⟨fun k => st.in6 k⟩, some (st.ii * 16)⟩
        else none

/-- `ipmask_parse`, with a result unless it returns `0`. -/
def ipmaskParse (input : List UInt8) (pbits : Bool) : Option ParsedMask :=
  let colonChar := input.idxOf (ch ':')
  let dot := input.idxOf (ch '.')
  if ch ':' ∈ input ∧ (ch '.' ∉ input ∨ dot > colonChar) then
    let start : Ip6State := ⟨fun _ => 0, 0, 0, 8, []⟩
    match input with
    | c :: cs =>
      if c = ch ':' then
        if cs.head? ≠ some (ch ':') ∨ cs.tail.head? = some (ch ':') then none
        else ip6Loop pbits cs.tail { start with colon := 0, partStart := cs.tail }
      else ip6Loop pbits (c :: cs) start
    | [] => none
  else if ch '.' ∈ input ∨ ch '/' ∈ input then
    match atonIp4 input pbits with
    | none => none
    | some ip4 =>
      some ⟨ip4.rest, mapped (ip4.addr.extractLsb' 16 16) (ip4.addr.extractLsb' 0 16),
        some (ip4.bits + 96)⟩
  else if input.head? = some (ch '*') then
    if input.tail.dropWhile (· = ch '*') ≠ [] then none
    else some ⟨[], CidrTree.v6Base, some 0⟩
  else none

variable {s : List UInt8} {pbits : Bool}

lemma atonIp4_bits {r} (h : atonIp4 s pbits = some r) : r.bits ≤ 32 := by
  have hloop : ∀ {s dots part ip}, atonIp4Loop pbits s dots part ip = some r → r.bits ≤ 32 := by
    intro s dots part ip h
    induction s generalizing dots part ip with
    | nil =>
      rw [atonIp4Loop] at h
      split_ifs at h
      cases h
      exact le_rfl
    | cons c cs ih =>
      rw [atonIp4Loop] at h
      grind
  rw [atonIp4] at h
  split_ifs at h
  exact hloop h

lemma ip6Loop_bits {st r}
    (h : ip6Loop pbits s st = some r) {n} (hn : r.bits = some n) : n ≤ 128 := by
  fun_induction ip6Loop pbits s st with
  | _ => grind [atonIp4_bits, Ip6State.push]

lemma ipmaskParse_bits {r}
    (h : ipmaskParse s pbits = some r) {n} (hn : r.bits = some n) : n ≤ 128 := by
  simp only [ipmaskParse] at h
  split_ifs at h
  · split at h
    · split_ifs at h
      · exact ip6Loop_bits h hn
      · exact ip6Loop_bits h hn
    · cases h
  · split at h
    case h_1 => cases h
    case h_2 ip4 hip =>
      cases h
      have := atonIp4_bits hip
      simp only [Option.some.injEq] at hn
      omega
  · cases h
    simp only [Option.some.injEq] at hn
    omega

/-! ### Checking -/

/-- The loop of `ipmask_check`, at the group `k`. -/
def ipmaskCheckLoop (addr mask : InAddr) : ℕ → ℕ → ℕ → ℤ
  | 0, _, _ => -1
  | j + 1, k, bits =>
    if bits < 16 then
      if (addr.group k ^^^ mask.group k) >>> (16 - bits) = 0 then 1 else 0
    else if addr.group k ≠ mask.group k then 0
    else if bits - 16 = 0 then 1
    else ipmaskCheckLoop addr mask j (k + 1) (bits - 16)

def ipmaskCheck (addr mask : InAddr) (bits : ℕ) : ℤ := ipmaskCheckLoop addr mask 8 0 bits

def ipmaskIsSingleFamily (mask : InAddr) (bits : ℕ) : Bool :=
  isIpv4 mask || ipmaskCheck CidrTree.v4Base mask bits == 0

section

variable {a b mask ip : InAddr} {bits k n : ℕ}

lemma group_eq_iff (hk : k < 8) :
    a.group k = b.group k ↔ ∀ j < 16, getBit a (k * 16 + j) = getBit b (k * 16 + j) := by
  constructor
  · intro h j hj
    rw [getBit_eq_iff a b hk hj, getLsbD_diffWord, h, Bool.xor_self]
  intro h
  apply eq_of_getLsbD_eq
  intro j hj
  have := (getBit_eq_iff a b hk (by omega : 15 - j < 16)).mp (h (15 - j) (by omega))
  rw [getLsbD_diffWord, show 15 - (15 - j) = j by omega] at this
  simpa using this

lemma group_shift_iff (hk : k < 8) (hn : n < 16) : (a.group k ^^^ b.group k) >>> (16 - n) = 0 ↔
      ∀ j < n, getBit a (k * 16 + j) = getBit b (k * 16 + j) := by
  have hbit : ∀ i, ((a.group k ^^^ b.group k) >>> (16 - n)).getLsbD i =
      (diffWord a b k).getLsbD (16 - n + i) := by
    intro i
    rw [getLsbD_ushiftRight, getLsbD_xor, getLsbD_diffWord]
  constructor
  · intro h j hj
    rw [getBit_eq_iff a b hk (by omega), show 15 - j = 16 - n + (n - 1 - j) by omega, ← hbit, h]
    simp
  intro h
  apply eq_of_getLsbD_eq
  intro i hi
  rw [hbit]
  by_cases hin : i < n
  · have := (getBit_eq_iff a b hk (by omega)).mp (h (n - 1 - i) (by omega))
    rw [show 15 - (n - 1 - i) = 16 - n + i by omega] at this
    simp [this]
  · have hge : 16 ≤ 16 - n + i := by omega
    simp [getLsbD_diffWord, getLsbD_of_ge _ _ hge]

lemma ipmaskCheckLoop_iff (j k bits : ℕ) (hk : k + j = 8) (hbits : bits ≤ j * 16) :
    ipmaskCheckLoop a mask j k bits ≠ 0 ↔
      ∀ i < bits, getBit a (k * 16 + i) = getBit mask (k * 16 + i) := by
  induction j generalizing k bits with
  | zero =>
    obtain rfl : bits = 0 := by omega
    simp [ipmaskCheckLoop]
  | succ j ih =>
    rw [ipmaskCheckLoop]
    by_cases hlt : bits < 16
    · rw [if_pos hlt, ← group_shift_iff (by omega) hlt]
      simp
    rw [if_neg hlt]
    -- the bits of this group, and those behind it
    have hsplit : (∀ i < bits, getBit a (k * 16 + i) = getBit mask (k * 16 + i)) ↔
        a.group k = mask.group k ∧
          ∀ i < bits - 16, getBit a ((k + 1) * 16 + i) = getBit mask ((k + 1) * 16 + i) := by
      rw [group_eq_iff (by omega)]
      constructor
      · intro h
        refine ⟨fun i hi => h i (by omega), fun i hi => ?_⟩
        rw [show (k + 1) * 16 + i = k * 16 + (16 + i) by omega]
        exact h (16 + i) (by omega)
      rintro ⟨h1, h2⟩ i hi
      by_cases hi16 : i < 16
      · exact h1 i hi16
      · have := h2 (i - 16) (by omega)
        rwa [show (k + 1) * 16 + (i - 16) = k * 16 + i by omega] at this
    rw [hsplit]
    by_cases hne : a.group k ≠ mask.group k
    · rw [if_pos hne]
      simp [hne]
    rw [if_neg hne]
    by_cases h0 : bits - 16 = 0
    · simp [h0, not_not.mp hne]
    · rw [if_neg h0, ih (k + 1) (bits - 16) (by omega) (by omega)]
      simp [not_not.mp hne]

/-- **`ipmask_check`** compares the bits of the prefix. -/
theorem ipmaskCheck_iff (hbits : bits ≤ 128) :
    ipmaskCheck a mask bits ≠ 0 ↔ Agree getBit a mask bits := by
  rw [ipmaskCheck, ipmaskCheckLoop_iff 8 0 bits rfl (by omega)]
  simp [Agree]

lemma agree_groups (hn : n ≤ 8) : Agree getBit a b (n * 16) ↔ ∀ k < n, a.group k = b.group k := by
  constructor
  · intro h k hk
    exact (group_eq_iff (by omega)).mpr fun j hj => h _ (by omega)
  · intro h i hi
    have := (group_eq_iff (by omega)).mp (h (i / 16) (by omega)) (i % 16) (by omega)
    rwa [show i / 16 * 16 + i % 16 = i by omega] at this

lemma agree_v4Base : Agree getBit v4Base ip 96 ↔ isIpv4 ip ∧ ip.group 5 = 0xffff := by
  rw [show 96 = 6 * 16 from rfl, agree_groups (by decide)]
  have hbase : ∀ k < 5, v4Base.group k = 0 := by decide
  have hbase5 : v4Base.group 5 = 0xffff := by decide
  constructor
  · intro h
    have h5 : ip.group 5 = 0xffff := (h 5 (by decide)).symm.trans hbase5
    have hz : ∀ k < 5, ip.group k = 0 := fun k hk => (h k (by omega)).symm.trans (hbase k hk)
    refine ⟨?_, h5⟩
    simp [isIpv4, hz, h5]
  rintro ⟨hv4, h5⟩ k hk
  simp only [isIpv4, decide_eq_true_eq] at hv4
  obtain ⟨h0, h1, h2, h3, h4, _⟩ := hv4
  interval_cases k
  all_goals first | rw [hbase _ (by decide)] | rw [hbase5]
  all_goals simp only [h0, h1, h2, h3, h4, h5]

/-- The prefixes that the root of their family covers: at most 128 bits, and of an
IPv4-mapped address at least 96 of them. An IPv4-compatible address has none. -/
lemma covered_iff :
    Covered ip bits ↔ bits ≤ 128 ∧ (isIpv4 ip → ip.group 5 = 0xffff ∧ 96 ≤ bits) := by
  cases hv4 : isIpv4 ip with
  | false =>
    constructor
    · intro h
      exact ⟨h.le, by simp⟩
    · intro h
      exact ⟨by simp [hv4, baseBits], h.1, by simp [hv4, baseBits, Agree]⟩
  | true =>
    have hbase := @agree_v4Base ip
    rw [hv4] at hbase
    constructor
    · rintro ⟨hle, h128, hagree⟩
      simp only [hv4, baseBits, baseIp, if_true] at hle hagree
      exact ⟨h128, fun _ => ⟨(hbase.mp hagree).2, hle⟩⟩
    rintro ⟨h128, h⟩
    obtain ⟨h5, h96⟩ := h rfl
    refine ⟨by simpa [hv4, baseBits] using h96, h128, ?_⟩
    simpa [hv4, baseBits, baseIp] using hbase.mpr ⟨rfl, h5⟩

lemma ipmaskCheck_iff_family (hm : Covered mask bits) (hip : Covered ip 128)
    (hsingle : ipmaskIsSingleFamily mask bits) :
    ipmaskCheck ip mask bits ≠ 0 ↔ isIpv4 mask = isIpv4 ip ∧ Agree getBit mask ip bits := by
  rw [ipmaskCheck_iff hm.le]
  refine ⟨fun h => ⟨?_, h.symm⟩, fun h => h.2.symm⟩
  obtain ⟨hm128, hm4⟩ := covered_iff.mp hm
  obtain ⟨_, hip4⟩ := covered_iff.mp hip
  cases hv : isIpv4 mask with
  | true =>
    -- the mask determines the first 96 bits
    obtain ⟨h5, h96⟩ := hm4 hv
    have := (agree_v4Base.mpr ⟨hv, h5⟩).trans (h.mono h96).symm
    exact (agree_v4Base.mp this).1.symm
  | false =>
    cases hi : isIpv4 ip with
    | false => rfl
    | true =>
      have hbase := agree_v4Base.mpr ⟨hi, (hip4 hi).1⟩
      rcases le_total bits 96 with hle | hge
      · -- then the mask matches the first mapped address as well
        have : ipmaskCheck v4Base mask bits ≠ 0 :=
          (ipmaskCheck_iff hm128).mpr ((hbase.mono hle).trans h)
        simp [ipmaskIsSingleFamily, hv, this] at hsingle
      · have := (agree_v4Base.mp (hbase.trans (h.mono hge))).1
        rw [hv] at this
        exact this

end

end Ircu
