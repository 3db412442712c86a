import Ircu.Ipmask.Steps
import Ircu.Ntoa

/-!
What `ipmask_parse` makes of the text that `ircd_ntoa_r` has printed.

The text of an IPv6 address is a list of groups that colons separate, with one more colon for the
run of zeros that has been left out. The parser notes where that colon is and moves the groups
behind it to the end.

* `printGroups_plain`, `printGroups_run`: the text.
* `ip6Loop_double`, `ip6Loop_joined`: the parser in front of the double colon and behind it.
-/

namespace Ircu

open List Function Nat Ip6State InAddr

/-! ### The text -/

def colonGroups (gs : List ℕ) : List UInt8 := gs.flatMap fun g => hexGroup g ++ [ch ':']

def joinGroups : List ℕ → List UInt8
  | [] => []
  | [g] => hexGroup g
  | g :: gs => hexGroup g ++ ch ':' :: joinGroups gs

lemma colonGroups_cons (g gs) : colonGroups (g :: gs) = hexGroup g ++ ch ':' :: colonGroups gs := by
  simp [colonGroups]

lemma joinGroups_cons (g) {gs} (hne : gs ≠ []) :
    joinGroups (g :: gs) = hexGroup g ++ ch ':' :: joinGroups gs := by
  cases gs with
  | nil => exact absurd rfl hne
  | cons g' gs => rfl

variable (a : InAddr) (i n : ℕ)

def groupNats : List ℕ := (List.range' i n).map fun k => (a.group k).toNat

@[simp] lemma length_groupNats : (groupNats a i n).length = n := by
  simp [groupNats]

lemma groupNats_succ : groupNats a i (n + 1) = (a.group i).toNat :: groupNats a (i + 1) n := by
  simp [groupNats, range'_succ]

lemma groupNats_lt : ∀ g ∈ groupNats a i n, g < 2 ^ 16 := by
  intro g hg
  obtain ⟨k, -, rfl⟩ := mem_map.mp hg
  exact (a.group k).isLt

section Print

variable {a : InAddr} {z : ZeroRun}

variable {ii : ℕ}

lemma printGroups_plain {k} (hz : z.maxZeros = 0 ∨ z.maxStart < ii) (hk : 8 - ii ≤ k) :
    printGroups a z k ii = joinGroups (groupNats a ii (8 - ii)) := by
  induction k generalizing ii with
  | zero =>
    rw [show 8 - ii = 0 by omega]
    rfl
  | succ k ih =>
    rw [printGroups]
    by_cases hii : 8 ≤ ii
    · rw [if_pos hii, show 8 - ii = 0 by omega]
      rfl
    rw [if_neg hii, if_neg (by omega), ih (by omega) (by omega),
      show 8 - ii = 8 - (ii + 1) + 1 by omega, groupNats_succ]
    by_cases h7 : ii < 7
    · rw [if_pos h7, joinGroups_cons, append_assoc, singleton_append]
      rw [← length_pos_iff, length_groupNats]
      omega
    · rw [if_neg h7, show 8 - (ii + 1) = 0 by omega]
      simp [groupNats, joinGroups]

lemma printGroups_run {k} (hz : z.maxZeros ≠ 0) (hii : ii ≤ z.maxStart)
    (hle : z.maxStart + z.maxZeros ≤ 8) (hk : 8 - ii ≤ k) : printGroups a z k ii =
      colonGroups (groupNats a ii (z.maxStart - ii)) ++ ch ':' ::
        joinGroups (groupNats a (z.maxStart + z.maxZeros) (8 - (z.maxStart + z.maxZeros))) := by
  induction k generalizing ii with
  | zero => omega
  | succ k ih =>
    rw [printGroups, if_neg (by omega)]
    by_cases heq : ii = z.maxStart
    · rw [if_pos ⟨by omega, heq⟩, heq, Nat.sub_self, printGroups_plain (.inr (by omega)) (by omega)]
      rfl
    rw [if_neg (by omega), if_pos (by omega), ih (by omega) (by omega),
      show z.maxStart - ii = z.maxStart - (ii + 1) + 1 by omega, groupNats_succ,
      colonGroups_cons]
    simp

lemma ZeroRun.Within.turns {lo} (h : z.Within lo ii) (n) :
    ((List.range' ii n).foldl (ZeroRun.turn a) z).Within lo (ii + n) := by
  induction n generalizing ii z with
  | zero => exact h
  | succ n ih =>
    rw [range'_succ, foldl_cons, show ii + (n + 1) = ii + 1 + n by omega]
    exact ih h.turn

lemma findZeros_within (a) :
    1 ≤ (findZeros a).maxStart ∧ (findZeros a).maxStart + (findZeros a).maxZeros ≤ 8 := by
  have hstart : ZeroRun.Within ⟨1, 0, 0⟩ 1 1 := ⟨le_rfl, le_rfl, le_rfl⟩
  obtain ⟨hpos, hle, hlt⟩ := hstart.turns (a := a) 7
  rw [findZeros]
  split_ifs
  · dsimp only
    omega
  · exact ⟨hpos, hle⟩

end Print

/-! ### The parser -/

section Parser

variable {pbits : Bool} {t : Ip6State} (g : ℕ)

@[simp] lemma Ip6State.push_ii : (t.push g).ii = t.ii + 1 := rfl

@[simp] lemma Ip6State.push_colon : (t.push g).colon = t.colon := rfl

@[simp] lemma Ip6State.push_part : (t.push g).part = t.part := rfl

lemma Ip6State.push_in6 : (t.push g).in6 = Function.update t.in6 t.ii (BitVec.ofNat 16 g) := rfl

def Ip6State.pushAll (t : Ip6State) (gs : List ℕ) : Ip6State := gs.foldl Ip6State.push t

@[simp] lemma Ip6State.pushAll_nil : t.pushAll [] = t := rfl

@[simp] lemma Ip6State.pushAll_cons (gs) : t.pushAll (g :: gs) = (t.push g).pushAll gs := rfl

variable (gs : List ℕ)

@[simp] lemma Ip6State.pushAll_ii : (t.pushAll gs).ii = t.ii + gs.length := by
  induction gs generalizing t with
  | nil => rfl
  | cons g gs ih =>
    rw [pushAll_cons, ih, length_cons, push_ii]
    omega

@[simp] lemma Ip6State.pushAll_colon : (t.pushAll gs).colon = t.colon := by
  induction gs generalizing t with
  | nil => rfl
  | cons g gs ih =>
    rw [pushAll_cons, ih, push_colon]

@[simp] lemma Ip6State.pushAll_part : (t.pushAll gs).part = t.part := by
  induction gs generalizing t with
  | nil => rfl
  | cons g gs ih =>
    rw [pushAll_cons, ih, push_part]

lemma Ip6State.pushAll_in6 (k : ℕ) : (t.pushAll gs).in6 k =
      if t.ii ≤ k ∧ k < t.ii + gs.length then BitVec.ofNat 16 (gs.getD (k - t.ii) 0)
      else t.in6 k := by
  induction gs generalizing t with
  | nil =>
    rw [if_neg (by simp)]
    rfl
  | cons g gs ih =>
    rw [pushAll_cons, ih, push_ii, push_in6, length_cons]
    by_cases hk : k = t.ii
    · rw [hk, if_neg (by omega), if_pos (by omega), update_self, Nat.sub_self, getD_cons_zero]
    rw [update_of_ne hk]
    by_cases hin : t.ii + 1 ≤ k ∧ k < t.ii + 1 + gs.length
    · rw [if_pos hin, if_pos (by omega), show k - t.ii = k - (t.ii + 1) + 1 by omega,
        getD_cons_succ]
    · rw [if_neg hin, if_neg (by omega)]

variable {d g : ℕ} {rest : List UInt8} {gs : List ℕ}

lemma hexVal_hexDigit (hd : d < 16) : hexVal (hexDigit d) = some d := by
  interval_cases d <;> decide

lemma ip6Loop_digit (hd : d < 16) (hii : t.ii < 8) (hpart : t.part * 16 + d ≤ 0xffff) (rest) :
    ip6Loop pbits (hexDigit d :: rest) t =
      ip6Loop pbits rest { t with part := t.part * 16 + d } := by
  rw [ip6Loop, if_neg (by omega), hexVal_hexDigit hd]
  simp only [if_neg (show ¬t.part * 16 + d > 0xffff by omega)]

lemma hexGroup_div (hg : g < 2 ^ 16) (h16 : 16 ≤ g) :
    hexGroup g = hexGroup (g / 16) ++ [hexDigit (g % 16)] := by
  have h2 : g / 16 ≥ 0x100 ↔ g ≥ 0x1000 := by omega
  have h1 : g / 16 ≥ 0x10 ↔ g ≥ 0x100 := by omega
  simp only [hexGroup, h2, h1, if_pos h16, if_neg (show ¬g / 16 ≥ 0x1000 by omega),
    nil_append, Nat.div_div_eq_div_mul]
  by_cases h3 : g ≥ 0x1000
  · rw [show g / (16 * 0x100) % 16 = g / 0x1000 by omega]
  · rw [if_neg h3, if_neg h3]

lemma ip6Loop_hexGroup {g} (hg : g < 2 ^ 16) (hii : t.ii < 8) (hpart : t.part = 0) (rest) :
    ip6Loop pbits (hexGroup g ++ rest) t = ip6Loop pbits rest { t with part := g } := by
  induction g using Nat.strong_induction_on generalizing rest with
  | _ g ih =>
    by_cases h16 : 16 ≤ g
    · rw [hexGroup_div hg h16, append_assoc, ih (g / 16) (by omega) (by omega),
        singleton_append, ip6Loop_digit (by omega) (by exact hii) (by simp only; omega)]
      simp only [show g / 16 * 16 + g % 16 = g by omega]
    have hone : hexGroup g = [hexDigit g] := by
      simp only [hexGroup, if_neg (show ¬g ≥ 0x1000 by omega), if_neg (show ¬g ≥ 0x100 by omega),
        if_neg (show ¬g ≥ 0x10 by omega), nil_append, mod_eq_of_lt (not_le.mp h16)]
    rw [hone, singleton_append, ip6Loop_digit (by omega) hii (by omega), hpart, zero_mul, zero_add]

lemma hexVal_colon : hexVal (ch ':') = none := by decide

lemma hexDigit_ne (hd : d < 16) : hexDigit d ≠ ch ':' ∧ hexDigit d ≠ ch '.' := by
  interval_cases d <;> decide

lemma hexGroup_ne (hg : g < 2 ^ 16) : ∀ c ∈ hexGroup g, c ≠ ch ':' ∧ c ≠ ch '.' := by
  intro c hc
  simp only [hexGroup, mem_append, mem_ite_nil_right, mem_singleton] at hc
  rcases hc with ((⟨-, rfl⟩ | ⟨-, rfl⟩) | ⟨-, rfl⟩) | rfl
  all_goals exact hexDigit_ne (by omega)

lemma hexGroup_append (hg : g < 2 ^ 16) (rest) :
    ∃ c cs, hexGroup g ++ rest = c :: cs ∧ c ≠ ch ':' ∧ c ≠ ch '.' := by
  cases hd : hexGroup g with
  | nil => simp [hexGroup] at hd
  | cons c cs => exact ⟨c, cs ++ rest, rfl, hexGroup_ne hg c (hd ▸ mem_cons_self)⟩

lemma ip6Loop_partStart {s} (hdot : ch '.' ∉ s) (p : List UInt8) :
    ip6Loop pbits s { t with partStart := p } = ip6Loop pbits s t := by
  induction s generalizing t with
  | nil => rfl
  | cons c cs ih =>
    obtain ⟨hc, hcs⟩ := not_or.mp (mt mem_cons.mpr hdot)
    rw [ip6Loop, ip6Loop]
    cases hexVal c with
    | some v =>
      have hnext := ih (t := { t with part := t.part * 16 + v }) hcs
      simp only at hnext ⊢
      rw [hnext]
    | none =>
      simp only [if_neg (Ne.symm hc)]
      -- a colon sets it anew, and what else ends the loop has no use for it
      by_cases hcolon : c = ch ':'
      · simp only [if_pos hcolon, push]
      · simp only [if_neg hcolon]
        split_ifs <;> rfl

lemma ip6Loop_colon {c} (hii : t.ii < 8) (hc : c ≠ ch ':') (hdot : ch '.' ∉ c :: rest) :
    ip6Loop pbits (ch ':' :: c :: rest) t =
      ip6Loop pbits (c :: rest) { t.push t.part with part := 0 } := by
  have hc' : c ≠ ch '.' := fun h => hdot (h ▸ mem_cons_self)
  rw [ip6Loop, if_neg (by omega), hexVal_colon]
  simp only [if_true, List.head?_cons, Option.some.injEq, if_neg hc', if_neg hc]
  exact ip6Loop_partStart (t := { t.push t.part with part := 0 }) hdot (c :: rest)

lemma ip6Loop_doubleColon (hdot : ch '.' ∉ rest) (hii : t.ii + 1 < 8) (hcolon : t.colon = 8) :
    ip6Loop pbits (ch ':' :: ch ':' :: rest) t =
      ip6Loop pbits rest { t.push t.part with part := 0, colon := t.ii + 1 } := by
  rw [ip6Loop, if_neg (by omega), hexVal_colon]
  simp only [if_true, List.head?_cons, Option.some.injEq, push, hcolon]
  rw [if_neg (by decide), if_neg (by omega), if_neg (by omega)]
  exact ip6Loop_partStart (t := { t.push t.part with part := 0, colon := t.ii + 1 }) hdot
    (ch ':' :: rest)

lemma dot_notMem_hexGroup (hg : g < 2 ^ 16) : ch '.' ∉ hexGroup g :=
  fun h => (hexGroup_ne hg _ h).2 rfl

lemma dot_notMem_joinGroups (hgs : ∀ g ∈ gs, g < 2 ^ 16) : ch '.' ∉ joinGroups gs := by
  induction gs with
  | nil => exact not_mem_nil
  | cons g gs ih =>
    have hg := dot_notMem_hexGroup (hgs g mem_cons_self)
    have hrest := ih fun x hx => hgs x (mem_cons_of_mem _ hx)
    cases gs with
    | nil => exact hg
    | cons g' gs =>
      rw [joinGroups_cons g (by simp), mem_append, mem_cons]
      rintro (h | h | h)
      · exact hg h
      · exact absurd h (by decide)
      · exact hrest h

lemma dot_notMem_colonGroups (hgs : ∀ g ∈ gs, g < 2 ^ 16) : ch '.' ∉ colonGroups gs := by
  induction gs with
  | nil => exact not_mem_nil
  | cons g gs ih =>
    rw [colonGroups_cons, mem_append, mem_cons]
    rintro (h | h | h)
    · exact dot_notMem_hexGroup (hgs g mem_cons_self) h
    · exact absurd h (by decide)
    · exact ih (fun x hx => hgs x (mem_cons_of_mem _ hx)) h

lemma ip6Loop_group {g'} (hg : g < 2 ^ 16) (hg' : g' < 2 ^ 16) (hdot : ch '.' ∉ rest)
    (hii : t.ii < 8) (hpart : t.part = 0) :
    ip6Loop pbits (hexGroup g ++ ch ':' :: (hexGroup g' ++ rest)) t =
      ip6Loop pbits (hexGroup g' ++ rest) (t.push g) := by
  obtain ⟨c, cs, heq, hc, -⟩ := hexGroup_append hg' rest
  have hdot' : ch '.' ∉ c :: cs := by
    rw [← heq, mem_append]
    exact fun h => h.elim (dot_notMem_hexGroup hg') hdot
  rw [ip6Loop_hexGroup hg hii hpart, heq, ip6Loop_colon (by exact hii) hc hdot']
  rw [push, push, hpart]

lemma ip6Loop_double (hne : gs ≠ []) (hgs : ∀ g ∈ gs, g < 2 ^ 16) (hdot : ch '.' ∉ rest)
    (hpart : t.part = 0) (hcolon : t.colon = 8) (hii : t.ii + gs.length < 8) :
    ip6Loop pbits (colonGroups gs ++ ch ':' :: rest) t =
      ip6Loop pbits rest { t.pushAll gs with colon := t.ii + gs.length } := by
  induction gs generalizing t with
  | nil => exact absurd rfl hne
  | cons g gs ih =>
    have hg := hgs g mem_cons_self
    have hgs' := fun x hx => hgs x (mem_cons_of_mem _ hx)
    rw [colonGroups_cons, append_assoc, cons_append]
    cases gs with
    | nil =>
      rw [ip6Loop_hexGroup hg (by omega) hpart]
      refine (ip6Loop_doubleColon (t := { t with part := g }) hdot hii hcolon).trans ?_
      rw [pushAll_cons, push, push, hpart]
      rfl
    | cons g' gs =>
      have hdot' : ch '.' ∉ ch ':' :: (colonGroups gs ++ ch ':' :: rest) := by
        simp only [mem_cons, mem_append, not_or]
        exact ⟨by decide, dot_notMem_colonGroups fun x hx => hgs' x (mem_cons_of_mem _ hx),
          by decide, hdot⟩
      have hnext := ih (t := t.push g) (by simp) hgs' hpart hcolon
        (by simp only [length_cons, push_ii] at hii ⊢; omega)
      rw [colonGroups_cons, append_assoc, cons_append] at hnext ⊢
      rw [ip6Loop_group hg (hgs' g' mem_cons_self) hdot' (by omega) hpart, hnext,
        push_ii, add_assoc, add_comm 1]
      rfl

lemma ip6Loop_joined (hne : gs ≠ []) (hgs : ∀ g ∈ gs, g < 2 ^ 16) (hpart : t.part = 0)
    (hii : t.ii + gs.length ≤ 8) (hfull : t.colon = 8 → t.ii + gs.length = 8) :
    ip6Loop pbits (joinGroups gs) t = some ⟨[], (t.pushAll gs).finish, some 128⟩ := by
  induction gs generalizing t with
  | nil => exact absurd rfl hne
  | cons g gs ih =>
    have hg := hgs g mem_cons_self
    have hgs' := fun x hx => hgs x (mem_cons_of_mem _ hx)
    rw [length_cons] at hii hfull
    cases gs with
    | nil =>
      have hend := @ip6Loop_hexGroup pbits _ _ hg (by omega) hpart []
      rw [append_nil] at hend
      rw [joinGroups, hend, ip6Loop, if_neg (by simp only; omega)]
      refine if_neg fun hshort => ?_
      have hlt : t.ii + 1 < 8 := hshort.2
      exact absurd (hfull hshort.1) hlt.ne
    | cons g' gs =>
      obtain ⟨rest, hrest⟩ : ∃ rest, joinGroups (g' :: gs) = hexGroup g' ++ rest := by
        cases gs with
        | nil => exact ⟨[], (append_nil _).symm⟩
        | cons g'' gs => exact ⟨_, joinGroups_cons g' (by simp)⟩
      have hdot : ch '.' ∉ rest := fun h =>
        dot_notMem_joinGroups hgs' (hrest ▸ mem_append_right _ h)
      have hnext := ih (t := t.push g) (by simp) hgs' hpart
        (by simp only [length_cons, push_ii] at hii ⊢; omega)
        (by
          simp only [length_cons, push_ii, push_colon] at hfull ⊢
          omega)
      rw [joinGroups_cons g (by simp), hrest,
        ip6Loop_group hg (hgs' g' mem_cons_self) hdot (by omega) hpart, ← hrest, hnext]
      rfl

end Parser

/-! ### The gap -/

section Finish

variable {t : Ip6State}

lemma foldl_shift (a : ℕ → BitVec 16) {ii} (hii : ii ≤ 8) {n} (hn : n ≤ ii) (k : ℕ) :
    (List.range n).foldl (fun a jj => Function.update a (7 - jj) (a (ii - jj - 1))) a k =
      if 8 - n ≤ k ∧ k < 8 then a (k - (8 - ii)) else a k := by
  induction n generalizing k with
  | zero => rw [if_neg (by omega), range_zero, foldl_nil]
  | succ n ih =>
    rw [range_succ, foldl_append, foldl_cons, foldl_nil]
    by_cases hk : k = 7 - n
    · rw [hk, update_self, ih (by omega), if_neg (by omega), if_pos (by omega),
        show 7 - n - (8 - ii) = ii - n - 1 by omega]
    rw [update_of_ne hk, ih (by omega)]
    by_cases hin : 8 - n ≤ k ∧ k < 8
    · rw [if_pos hin, if_pos (by omega)]
    · rw [if_neg hin, if_neg (by omega)]

lemma foldl_gap (a : ℕ → BitVec 16) (colon n k : ℕ) :
    (List.range n).foldl (fun a jj => Function.update a (colon + jj) 0) a k =
      if colon ≤ k ∧ k < colon + n then 0 else a k := by
  induction n generalizing k with
  | zero => rw [if_neg (by omega), range_zero, foldl_nil]
  | succ n ih =>
    rw [range_succ, foldl_append, foldl_cons, foldl_nil]
    by_cases hk : k = colon + n
    · rw [hk, update_self, if_pos (by omega)]
    rw [update_of_ne hk, ih]
    by_cases hin : colon ≤ k ∧ k < colon + n
    · rw [if_pos hin, if_pos (by omega)]
    · rw [if_neg hin, if_neg (by omega)]

/-- **What `finish` does**: the groups behind the double colon are the last ones of the address, and
in front of them there are zeros. -/
lemma Ip6State.group_finish (hcolon : t.colon < 8) (hle : t.colon ≤ t.ii) (hii : t.ii ≤ 8) {k}
    (hk : k < 8) : t.finish.group k = if k < t.colon then t.in6 k
      else if k < t.colon + (8 - t.ii) then 0 else t.in6 (k - (8 - t.ii)) := by
  rw [finish, if_pos hcolon, group, dif_pos hk]
  simp only [foldl_gap, foldl_shift t.in6 hii (show t.ii - t.colon ≤ t.ii by omega)]
  by_cases h1 : k < t.colon
  · rw [if_neg (by omega), if_neg (by omega), if_pos h1]
  rw [if_neg h1]
  by_cases h2 : k < t.colon + (8 - t.ii)
  · rw [if_pos (by omega), if_pos h2]
  · rw [if_neg (by omega), if_pos (by omega), if_neg h2]

lemma Ip6State.group_finish_of_plain (hcolon : t.colon = 8) {k} (hk : k < 8) :
    t.finish.group k = t.in6 k := by
  rw [finish, if_neg (by omega), group, dif_pos hk]

end Finish

/-! ### Round trips -/

lemma Ip6State.start_in6 {a n k} (hk : k < n) :
    (start.pushAll (groupNats a 0 n)).in6 k = a.group k := by
  rw [pushAll_in6]
  simp [groupNats, start, hk]

lemma ipmaskParse_ip6 {c cs} (pbits) (hc : c ≠ ch ':')
    (hcolon : ch ':' ∈ c :: cs) (hdot : ch '.' ∉ c :: cs) :
    ipmaskParse (c :: cs) pbits = ip6Loop pbits (c :: cs) start := by
  rw [ipmaskParse, if_pos ⟨hcolon, .inl hdot⟩]
  exact if_neg hc

variable (a : InAddr)

lemma ip6Loop_printGroups_plain (pbits) :
    ip6Loop pbits (joinGroups (groupNats a 0 8)) start = some ⟨[], a, some 128⟩ := by
  rw [ip6Loop_joined (by simp [groupNats]) (groupNats_lt a 0 8) rfl
    (by simp [start]) (by simp [start])]
  congr 2
  refine ext_group fun k hk => ?_
  rw [group_finish_of_plain (by simp [start]) hk, start_in6 hk]

lemma getD_groupNats {i n j} (hj : j < n) :
    BitVec.ofNat 16 ((groupNats a i n).getD j 0) = a.group (i + j) := by
  simp [groupNats, hj]

lemma ip6Loop_printGroups_run (pbits) {s e} (hs : 1 ≤ s) (hse : s < e) (he : e ≤ 8) :
    ∃ b : InAddr, ip6Loop pbits
        (colonGroups (groupNats a 0 s) ++ ch ':' :: joinGroups (groupNats a e (8 - e)))
        start = some ⟨[], b, some 128⟩ ∧
      ∀ k < 8, b.group k = if s ≤ k ∧ k < e then 0 else a.group k := by
  have hne : groupNats a 0 s ≠ [] := by
    rw [← length_pos_iff, length_groupNats]
    exact hs
  have hlen : start.ii + (groupNats a 0 s).length = s := by simp [start]
  rw [ip6Loop_double hne (groupNats_lt a 0 s) (dot_notMem_joinGroups (groupNats_lt a e _)) rfl rfl
    (by omega), hlen]
  generalize ht : ({ start.pushAll (groupNats a 0 s) with colon := s } : Ip6State) = t
  have hii : t.ii = s := by
    rw [← ht]
    simpa using hlen
  have hcolon : t.colon = s := by rw [← ht]
  have hpart : t.part = 0 := by
    rw [← ht]
    exact pushAll_part _
  have hin6 : ∀ k < s, t.in6 k = a.group k := fun k hk => by
    rw [← ht]
    exact start_in6 hk
  by_cases h8 : e = 8
  · -- nothing is behind the run, and the end of the text is taken for a group
    refine ⟨(t.push 0).finish, ?_, fun k hk => ?_⟩
    · rw [h8]
      change ip6Loop pbits [] t = _
      rw [ip6Loop, if_neg (by omega), hpart]
      exact if_neg fun h => by simp only [push_colon] at h; omega
    rw [group_finish (by simp; omega) (by simp; omega) (by simp; omega) hk]
    simp only [push_colon, push_ii, push_in6, hii, hcolon]
    by_cases h1 : k < s
    · rw [if_pos h1, if_neg (by omega), update_of_ne (by omega), hin6 k h1]
    rw [if_pos (show s ≤ k ∧ k < e by omega)]
    split_ifs with h2
    · rfl
    · rw [show k - (8 - (s + 1)) = s by omega, update_self]
      rfl
  refine ⟨(t.pushAll (groupNats a e (8 - e))).finish, ?_, fun k hk => ?_⟩
  · refine ip6Loop_joined ?_ (groupNats_lt a e _) hpart ?_ ?_
    · rw [← length_pos_iff, length_groupNats]
      omega
    · rw [length_groupNats]
      omega
    · omega
  rw [group_finish (by simp; omega) (by simp; omega) (by simp; omega) hk]
  simp only [pushAll_colon, pushAll_ii, length_groupNats, hii, hcolon, pushAll_in6]
  by_cases h1 : k < s
  · rw [if_pos h1, if_neg (by omega), if_neg (by omega), hin6 k h1]
  rw [if_neg h1]
  by_cases h2 : k < e
  · rw [if_pos (by omega), if_pos (by omega)]
  · rw [if_neg (by omega), if_pos (by omega), if_neg (by omega), getD_groupNats a (by omega),
      show e + (k - (8 - (s + (8 - e))) - s) = k by omega]

/-- **The text of an IPv6 address** is parsed as the address with zeros for all that was left
out. -/
theorem ipmaskParse_ircdNtoa (pbits) (h4 : isIpv4 a = false) :
    ipmaskParse (ircdNtoa a) pbits = some ⟨[], (findZeros a).clear a, some 128⟩ := by
  obtain ⟨hpos, hle⟩ := findZeros_within a
  generalize hz : findZeros a = z at hpos hle
  have hchars : ∀ {text : List UInt8} {t : ParsedMask},
      (∃ r, text = hexGroup (a.group 0).toNat ++ ch ':' :: r) → ch '.' ∉ text →
      ip6Loop pbits text start = some t → ipmaskParse text pbits = some t := by
    rintro text t ⟨r, rfl⟩ hdot hloop
    obtain ⟨c, cs, heq, hc, -⟩ := hexGroup_append (a.group 0).isLt (ch ':' :: r)
    rw [heq] at hdot hloop ⊢
    rw [ipmaskParse_ip6 pbits hc ?_ hdot, hloop]
    rw [← heq]
    simp
  rw [ircdNtoa, h4, hz]
  simp only [Bool.false_eq_true, if_false]
  by_cases hzero : z.maxZeros = 0
  · have hclear : z.clear a = a := ext_group fun k hk => by
      rw [z.group_clear a hk, if_neg (by omega)]
    rw [printGroups_plain (.inl hzero) (by omega), hclear]
    exact hchars ⟨joinGroups (groupNats a 1 7), joinGroups_cons _ (by simp)⟩
      (dot_notMem_joinGroups (groupNats_lt a 0 8)) (ip6Loop_printGroups_plain a pbits)
  obtain ⟨b, hloop, hgroups⟩ := ip6Loop_printGroups_run a pbits hpos
    (show z.maxStart < z.maxStart + z.maxZeros by omega) hle
  have hclear : z.clear a = b := ext_group fun k hk => by
    rw [z.group_clear a hk, hgroups k hk]
  rw [printGroups_run hzero (Nat.zero_le _) hle (by omega), Nat.sub_zero, hclear]
  refine hchars ?_ ?_ hloop
  · rw [show z.maxStart = z.maxStart - 1 + 1 by omega, groupNats_succ, colonGroups_cons,
      append_assoc]
    exact ⟨_, rfl⟩
  rw [mem_append, mem_cons]
  rintro (h | h | h)
  · exact dot_notMem_colonGroups (groupNats_lt a 0 _) h
  · exact absurd h (by decide)
  · exact dot_notMem_joinGroups (groupNats_lt a _ _) h

/-! ### Which addresses come back -/

section Zeros

variable {a b : InAddr}

lemma findZeros_congr (h : SameZeros a b) : findZeros a = findZeros b := by
  have hturn : ZeroRun.turn a = ZeroRun.turn b := funext₂ fun z ii => ZeroRun.turn_congr h z ii
  rw [findZeros, findZeros, hturn]

lemma findZeros_ofZeros_iff (a) :
    (findZeros a).OfZeros a ↔ Unmixed 0 (zeroRuns a 0 (List.range' 1 7)) := by
  refine forall_zeroGroups (P := fun a => (findZeros a).OfZeros a ↔
    Unmixed 0 (zeroRuns a 0 (List.range' 1 7))) (fun a b h hb => ?_) ?_ a
  · simpa only [ZeroRun.OfZeros, findZeros_congr h, h.zeroRuns, h _] using hb
  · -- the 256 addresses of zeros and ones
    decide +kernel

end Zeros

/-- **The addresses that come back unchanged.** The first group is always printed and plays no part
in the search. -/
theorem ircdNtoa_inverse (a : InAddr) (pbits : Bool) (h4 : isIpv4 a = false) :
    (∃ bits, ipmaskParse (ircdNtoa a) pbits = some ⟨[], a, bits⟩) ↔
      Unmixed 0 (zeroRuns a 0 (List.range' 1 7)) := by
  rw [ipmaskParse_ircdNtoa a pbits h4, ← findZeros_ofZeros_iff, ← ZeroRun.clear_eq_iff]
  simp

theorem ircdNtoa_inverse_two :
    ∃ bits, ipmaskParse (ircdNtoa ⟨![0x2001, 0, 0, 5, 0, 6, 7, 8]⟩) true =
      some ⟨[], ⟨![0x2001, 0, 0, 5, 0, 6, 7, 8]⟩, bits⟩ :=
  (ircdNtoa_inverse _ true (by decide)).mpr (by decide)

/-- In `1:0:2:0:3:0:4:5` the second and the third zero are taken for a run that ends with the third
one, and the group between them is lost. -/
theorem ircdNtoa_loses_group :
    isIpv4 ⟨![1, 0, 2, 0, 3, 0, 4, 5]⟩ = false ∧
      ircdNtoa ⟨![1, 0, 2, 0, 3, 0, 4, 5]⟩ = str "1:0:2:0::4:5" ∧
      (ipmaskParse (ircdNtoa ⟨![1, 0, 2, 0, 3, 0, 4, 5]⟩) true).map
        (fun r => (r.rest, (List.range 8).map r.addr.group)) =
          some ([], [1, 0, 2, 0, 0, 0, 4, 5]) := by
  decide +kernel

end Ircu
