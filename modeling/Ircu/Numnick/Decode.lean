import Ircu.Numnick.Basic

/-!
The addresses that arrive unchanged on the other side of a link, and the texts that `base64toip`
can read.
-/

namespace Ircu.Numnick

open List

/-! ### Round trips -/

section Zeros

variable {a b : InAddr}

lemma leading_congr (h : SameZeros a b) (k ii : ℕ) : leading a k ii = leading b k ii := by
  induction k generalizing ii with
  | zero => rfl
  | succ k ih => simp only [leading, ne_eq, h ii, ih]

lemma zeroLoop_congr (h : SameZeros a b) (k ii : ℕ) (r) :
    zeroLoop a k ii r = zeroLoop b k ii r := by
  induction k generalizing ii r with
  | zero => rfl
  | succ k ih => rw [zeroLoop, zeroLoop, ZeroRun.turn_congr h, ih]

lemma longestRun_congr (h : SameZeros a b) : longestRun a = longestRun b := by
  rw [longestRun, leading_congr h]
  exact zeroLoop_congr h _ _ _

lemma longestRun_ofZeros_iff (addr) :
    (longestRun addr).OfZeros addr ↔ Unmixed 0 (zeroRuns addr 0 (List.range 8)) := by
  refine forall_zeroGroups (P := fun addr => (longestRun addr).OfZeros addr ↔
    Unmixed 0 (zeroRuns addr 0 (List.range 8))) (fun a b h hb => ?_) ?_ addr
  · simpa only [ZeroRun.OfZeros, longestRun_congr h, h.zeroRuns, h _] using hb
  · -- the 256 addresses of zeros and ones
    decide +kernel

/-! ### What an address arrives as -/

/-- The group is left out when the address is sent. -/
def Lost (addr : InAddr) (i : ℕ) : Prop :=
  let out := leftOut (0, 0) 0 (zeroSpans addr 0 (List.range 8))
  out.1 ≤ i + out.2 ∧ i < out.1

instance (addr : InAddr) (i : ℕ) : Decidable (Lost addr i) := inferInstanceAs (Decidable (_ ∧ _))

lemma lost_iff (addr) : ∀ i : Fin 8, Lost addr i ↔ (longestRun addr).maxStart ≤ i ∧
    i < (longestRun addr).maxStart + (longestRun addr).maxZeros := by
  refine forall_zeroGroups (P := fun addr => ∀ i : Fin 8, Lost addr i ↔
    (longestRun addr).maxStart ≤ i ∧ i < (longestRun addr).maxStart + (longestRun addr).maxZeros)
    (fun a b h hb => ?_) ?_ addr
  · simpa only [Lost, longestRun_congr h, h.zeroSpans] using hb
  · decide +kernel

/-- The address arrives as it is. -/
def Intact (addr : InAddr) (v6_ok : Bool) : Prop :=
  if isIpv4 addr then addr.group 5 = 0xffff ∧ ¬(addr.group 6 = 0 ∧ addr.group 7 = 0)
  else if v6_ok then Unmixed 0 (zeroRuns addr 0 (List.range 8))
  else ∀ i, addr.group i = 0

/-- The address arrives as another one, `x`. -/
def TakenFor (addr : InAddr) (v6_ok : Bool) (x : InAddr) : Prop :=
  if isIpv4 addr then x = ofIpv4 (addr.group 6) (addr.group 7)
  else if v6_ok then ∀ i : Fin 8, x.group i = if Lost addr i then 0 else addr.group i
  else if addr.group 0 = 0x2002 then x = ofIpv4 (addr.group 1) (addr.group 2)
  else ∀ i, x.group i = 0

lemma noAddr_group (i : ℕ) : noAddr.group i = 0 := by
  simp [noAddr, InAddr.group]

lemma eq_noAddr {a : InAddr} : a = noAddr ↔ ∀ i, a.group i = 0 := by
  refine ⟨?_, fun h => InAddr.ext_group fun i _ => (h i).trans (noAddr_group i).symm⟩
  rintro rfl
  exact noAddr_group

lemma carried_eq_iff (addr v6_ok x) : carried addr v6_ok = x ↔ TakenFor addr v6_ok x := by
  rw [carried, TakenFor]
  cases isIpv4 addr with
  | true => exact eq_comm
  | false =>
    cases v6_ok with
    | false =>
      simp only [Bool.false_eq_true, if_false, Bool.not_false, if_true]
      split_ifs
      · exact eq_comm
      · rw [eq_comm, eq_noAddr]
    | true =>
      simp only [Bool.false_eq_true, if_false, Bool.not_true, if_true]
      have hgroup : ∀ i : Fin 8, ((longestRun addr).clear addr).group i =
          if Lost addr i then 0 else addr.group i := by
        intro i
        simp only [lost_iff]
        simp [ZeroRun.clear, InAddr.group]
      refine ⟨fun h i => h ▸ hgroup i, fun h => InAddr.ext_group fun k hk => ?_⟩
      exact (hgroup ⟨k, hk⟩).trans (h ⟨k, hk⟩).symm

lemma ofIpv4_self_iff {addr} (h4 : isIpv4 addr = true) :
    ofIpv4 (addr.group 6) (addr.group 7) = addr ↔
      addr.group 5 = 0xffff ∧ ¬(addr.group 6 = 0 ∧ addr.group 7 = 0) := by
  rw [ofIpv4]
  by_cases hz : addr.group 6 = 0 ∧ addr.group 7 = 0
  · simp only [hz, and_self, if_true, not_true, and_false, iff_false]
    intro h
    rw [← h] at h4
    exact absurd h4 (by decide)
  simp only [hz, if_false, not_false_iff, and_true]
  constructor
  · intro h
    rw [← h]
    rfl
  · intro h5
    simp only [isIpv4, decide_eq_true_eq] at h4
    refine InAddr.ext_group fun k hk => ?_
    interval_cases k <;> simp [mapped, InAddr.group] at h4 ⊢ <;> simp_all [InAddr.group]

lemma carried_self_iff (addr v6_ok) : carried addr v6_ok = addr ↔ Intact addr v6_ok := by
  rw [Intact]
  cases h4 : isIpv4 addr with
  | true =>
    rw [carried, h4]
    exact ofIpv4_self_iff h4
  | false =>
    cases v6_ok with
    | true =>
      simp only [Bool.false_eq_true, if_false, if_true]
      rw [carried_ipv6_iff h4, ← longestRun_ofZeros_iff]
      simp only [ZeroRun.OfZeros, InAddr.group, Fin.is_lt, dif_pos]
    | false =>
      simp only [carried, h4, Bool.false_eq_true, if_false, Bool.not_false, if_true]
      split_ifs with h2002
      · refine iff_of_false (fun h => ?_)
          fun h => by rw [h] at h2002; exact absurd h2002 (by decide)
        have h0 : (ofIpv4 (addr.group 1) (addr.group 2)).group 0 = 0 := by
          rw [ofIpv4]
          split_ifs <;> rfl
        rw [h, h2002] at h0
        exact absurd h0 (by decide)
      · rw [eq_comm, eq_noAddr]

end Zeros

/-- **The addresses that arrive unchanged.** An address that is not IPv4 does if its runs of zeros
are not mixed, and of every IPv4 address the last two groups do. -/
theorem base64toip_inverse (addr : InAddr) :
    (isIpv4 addr = false →
      (base64toip (iptobase64 addr true) = some addr ↔
        Unmixed 0 (zeroRuns addr 0 (List.range 8)))) ∧
    (isIpv4 addr = true → ∀ v6_ok, ∃ a, base64toip (iptobase64 addr v6_ok) = some a ∧
      a.group 6 = addr.group 6 ∧ a.group 7 = addr.group 7) := by
  constructor
  · intro h4
    rw [base64toip_iptobase64, Option.some.injEq, carried_ipv6_iff h4, ← longestRun_ofZeros_iff]
    simp only [ZeroRun.OfZeros, InAddr.group, Fin.is_lt, dif_pos]
  intro h4 v6_ok
  refine ⟨carried addr v6_ok, base64toip_iptobase64 addr v6_ok, ?_⟩
  rw [carried, if_pos h4, ofIpv4]
  split_ifs with hzero
  · exact ⟨hzero.1.symm, hzero.2.symm⟩
  · exact ⟨rfl, rfl⟩

/-- `2001:0:0:5:0:6:7:8` has one run of two zeros and one of one. -/
theorem base64toip_inverse_two :
    base64toip (iptobase64 ⟨![0x2001, 0, 0, 5, 0, 6, 7, 8]⟩ true) =
      some ⟨![0x2001, 0, 0, 5, 0, 6, 7, 8]⟩ :=
  ((base64toip_inverse _).1 (by decide)).mpr (by decide)

/-- In `1:0:2:0:3:0:4:5` the second and the third zero are taken for a run that ends with the
third one, and the group between them is lost. -/
theorem mixed_address :
    isIpv4 ⟨![1, 0, 2, 0, 3, 0, 4, 5]⟩ = false ∧
      iptobase64 ⟨![1, 0, 2, 0, 3, 0, 4, 5]⟩ true = str "AABAAAAACAAA_AAEAAF" ∧
      (base64toip (iptobase64 ⟨![1, 0, 2, 0, 3, 0, 4, 5]⟩ true)).map
        (fun addr => (List.range 8).map addr.group) = some [1, 0, 2, 0, 0, 0, 4, 5] := by
  decide +kernel

/-! ### Any text -/

/-- What `base64toip` can read behind an underscore: groups and underscores, and at the end
possibly a group without its last digit. -/
def closes : List UInt8 → Bool
  | [] => true
  | c :: rest =>
    if c = ch '_' then closes rest
    else
      match rest with
      | _ :: _ :: rest => closes rest
      | [_] => true
      | [] => false

/-- What it can read with `k` groups to go: as many groups, the last one possibly without its last
digit, or fewer of them with an underscore behind them, and then a text that does not need more
than the groups that are left. -/
def legible : ℕ → List UInt8 → Bool
  | 0, _ => true
  | _ + 1, [] => false
  | k + 1, c :: rest =>
    if c = ch '_' then rest.length ≤ 3 * (k + 1) && closes rest
    else
      match rest with
      | _ :: _ :: rest => legible k rest
      | [_] => k = 0
      | [] => false

variable {acc : List (BitVec 16)}

lemma elided_gt {len pos} (hlen : len < 2 ^ 31) (hpos : pos < 8) (hlong : 25 < len + 3 * pos) :
    8 < pos + elided len pos := by
  rw [elided]
  omega

lemma readMore_done (input) (hacc : 8 ≤ acc.length) : readMore input acc = some acc :=
  if_neg (by omega)

lemma readMore_group {c c₂ c₃ rest} (hc : c ≠ ch '_') (hacc : acc.length < 8) :
    readMore (c :: c₂ :: c₃ :: rest) acc = readMore rest (acc ++ [readGroup c c₂ c₃]) := by
  rw [readMore, if_pos hacc, readGroups.eq_def]
  simp only [if_neg hc]
  rfl

lemma readMore_cut {c c₂} (hc : c ≠ ch '_') (hacc : acc.length < 8) :
    (readMore [c, c₂] acc).isSome = decide (acc.length = 7) := by
  rw [readMore, if_pos hacc, readGroups]
  simp only [if_neg hc, length_append, length_singleton]
  by_cases h7 : acc.length = 7
  · simp [h7]
  · rw [if_pos (by omega)]
    simp [h7]

lemma readMore_short (hacc : acc.length < 8) :
    readMore [] acc = none ∧ ∀ c, c ≠ ch '_' → readMore [c] acc = none := by
  refine ⟨by rw [readMore, if_pos hacc, readGroups], fun c hc => ?_⟩
  rw [readMore, if_pos hacc, readGroups.eq_def]
  simp only [if_neg hc]

lemma readMore_mark_eq (rest : List UInt8) (hacc : acc.length < 8) : readMore (ch '_' :: rest) acc =
      if 8 < acc.length + elided (rest.length + 1) acc.length then none
      else readMore rest (acc ++ List.replicate (elided (rest.length + 1) acc.length) 0) := by
  rw [readMore, if_pos hacc, readGroups.eq_def]
  simp only [if_true]
  rfl

lemma isSome_readMore_closes (rest : List UInt8) (hacc : acc.length + (rest.length + 2) / 3 = 8) :
    (readMore rest acc).isSome = closes rest := by
  fun_induction closes rest generalizing acc with
  | case1 =>
    rw [readMore_done [] (by simpa using hacc.ge)]
    rfl
  | case2 rest ih =>
    rw [length_cons] at hacc
    have hleft :
        elided (rest.length + 1) acc.length = 8 - (rest.length + 2) / 3 - acc.length := by
      rw [elided_eq (by omega) (by omega)]
      omega
    rw [readMore_mark_eq rest (by omega), hleft, if_neg (by omega), ih]
    rw [length_append, length_replicate]
    omega
  | case3 c hc c2 c3 rest ih =>
    simp only [length_cons] at hacc
    rw [readMore_group hc (by omega), ih]
    rw [length_append, length_singleton]
    omega
  | case4 c hc c2 =>
    simp only [length_cons, length_nil] at hacc
    rw [readMore_cut hc (by omega)]
    simpa using hacc
  | case5 c hc =>
    simp only [length_cons, length_nil] at hacc
    rw [(readMore_short (by omega)).2 c hc]
    rfl

lemma isSome_readMore (k : ℕ) (input) (hacc : acc.length + k = 8)
    (hlen : input.length < 2 ^ 30) : (readMore input acc).isSome = legible k input := by
  fun_induction legible k input generalizing acc with
  | case1 input =>
    rw [readMore_done input (by omega)]
    rfl
  | case2 k =>
    rw [(readMore_short (by omega)).1]
    rfl
  | case3 k rest =>
    rw [length_cons] at hlen
    rw [readMore_mark_eq rest (by omega)]
    by_cases hfits : rest.length ≤ 3 * (k + 1)
    · have hleft :
          elided (rest.length + 1) acc.length = 8 - (rest.length + 2) / 3 - acc.length := by
        rw [elided_eq (by omega) (by omega)]
        omega
      rw [hleft, if_neg (by omega), isSome_readMore_closes]
      · simp [hfits]
      · rw [length_append, length_replicate]
        omega
    · rw [if_pos (elided_gt (by omega) (by omega) (by omega))]
      simp [hfits]
  | case4 k c hc c2 c3 rest ih =>
    simp only [length_cons] at hlen
    rw [readMore_group hc (by omega), ih _ (by omega)]
    rw [length_append, length_singleton]
    omega
  | case5 k c hc c2 =>
    rw [readMore_cut hc (by omega)]
    simp only [decide_eq_decide]
    omega
  | case6 k c hc =>
    rw [(readMore_short (by omega)).2 c hc]
    rfl

lemma length_of_readGroups {input gs} (hacc : acc.length < 8)
    (h : readGroups input acc = some gs) : gs.length = 8 := by
  fun_induction readGroups input acc with
  | case1 => cases h
  | _ => grind

/-- **The texts that `base64toip` can read**: it neither reads behind the terminator nor writes
anything but the eight groups of the address. -/
theorem base64toip_in_bounds (input : List UInt8) (hlen : input.length < 2 ^ 30) :
    ((base64toip input).isSome = true ∧
        (input.length ≠ 6 → ∃ gs, readGroups input [] = some gs ∧ gs.length = 8)) ↔
      input.length = 6 ∨ legible 8 input = true := by
  by_cases h6 : input.length = 6
  · simp [base64toip, h6]
  have hmore : (readMore input []).isSome = legible 8 input := isSome_readMore 8 input rfl hlen
  rw [show readMore input [] = readGroups input [] from rfl] at hmore
  rw [base64toip, if_neg h6, Option.isSome_map, hmore]
  constructor
  · exact fun h => Or.inr h.1
  intro h
  have hlegible := h.resolve_left h6
  obtain ⟨gs, hgs⟩ := Option.isSome_iff_exists.mp (hmore.trans hlegible)
  exact ⟨hlegible, fun _ => ⟨gs, hgs, length_of_readGroups (by decide) hgs⟩⟩

theorem base64toip_in_bounds_underscore :
    (base64toip (str "CACH8AAAD_AAB")).isSome = true ∧
      ((str "CACH8AAAD_AAB").length ≠ 6 →
        ∃ gs, readGroups (str "CACH8AAAD_AAB") [] = some gs ∧ gs.length = 8) :=
  (base64toip_in_bounds (str "CACH8AAAD_AAB") (by decide +kernel)).mpr (Or.inr (by decide +kernel))

/-- The empty text is read behind its terminator, and an underscore in front of 25 characters writes
behind the address. -/
theorem base64toip_overruns :
    base64toip [] = none ∧ base64toip (str "_AAAAAAAAAAAAAAAAAAAAAAAAA") = none := by
  decide +kernel

end Ircu.Numnick
