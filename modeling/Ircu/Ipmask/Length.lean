import Ircu.Ipmask.Steps

/-!
The prefix length that `ipmask_parse` stores for a mask, and how much of the text it uses.

The number behind a slash is read into an `unsigned int`, which may overflow before it is compared
with the greatest length, and a text of eight groups with a colon behind each of them is accepted
by the code behind the loop, which stores no length.

* `atonIp4_reads`, `ip6Loop_reads`: what the two parsers read.
-/

namespace Ircu

open List

/-! ### What is read -/

def slashDigits (t : List UInt8) : Option (List UInt8) :=
  if ch '/' ∈ t then some ((t.dropWhile (· ≠ ch '/')).tail.takeWhile isDigit) else none

variable {p s : List UInt8} {c : UInt8} {r : ParsedMask}

lemma dropWhile_append_slash {r : List UInt8} (hp : ch '/' ∉ p) :
    (p ++ ch '/' :: r).dropWhile (· ≠ ch '/') = ch '/' :: r := by
  rw [dropWhile_append_of_pos]
  · simp
  intro c hc
  simp only [ne_eq, decide_not, Bool.not_eq_eq_eq_not, Bool.not_true, decide_eq_false_iff_not]
  rintro rfl
  exact hp hc

lemma slashDigits_append {r} (hp : ch '/' ∉ p) :
    slashDigits (p ++ ch '/' :: r) = some (r.takeWhile isDigit) := by
  rw [slashDigits, if_pos (by simp), dropWhile_append_slash hp, tail_cons]

/-- All of a text has been read, which has no slash in it, or everything up to the digits behind the
first slash: the rest of the text, and the length that has been found. -/
inductive Reads (limit : ℕ) : List UInt8 → List UInt8 → ℕ → Prop
  | whole {s : List UInt8} {n : ℕ} (hs : ch '/' ∉ s) (hn : n ≤ limit) : Reads limit s [] n
  | slash {p r : List UInt8} (hp : ch '/' ∉ p) (hr : digitNext r = true)
      (hn : decimalNum (r.takeWhile isDigit) % 2 ^ 32 ≤ limit) :
      Reads limit (p ++ ch '/' :: r) (r.dropWhile isDigit)
        (decimalNum (r.takeWhile isDigit) % 2 ^ 32)

namespace Reads

variable {limit n : ℕ} {rest : List UInt8}

lemma cons (hc : c ≠ ch '/') (h : Reads limit s rest n) : Reads limit (c :: s) rest n := by
  cases h with
  | whole hs hn => exact .whole (by simpa using ⟨hc.symm, hs⟩) hn
  | slash hp hr hn => exact .slash (p := c :: _) (by simpa using ⟨hc.symm, hp⟩) hr hn

lemma append (hp : ch '/' ∉ p) (h : Reads limit s rest n) : Reads limit (p ++ s) rest n := by
  induction p with
  | nil => exact h
  | cons c p ih =>
    obtain ⟨hc, hp⟩ := not_or.mp (mt mem_cons.mpr hp)
    exact (ih hp).cons (Ne.symm hc)

lemma of_cons (hc : c ≠ ch '/') (h : Reads limit (c :: s) rest n) : Reads limit s rest n := by
  generalize ht : c :: s = t at h
  cases h with
  | whole hs hn => exact .whole (fun h => hs (ht ▸ mem_cons_of_mem _ h)) hn
  | @slash q r hq hr hn =>
    cases q with
    | nil => exact absurd (List.cons.inj ht).1 hc
    | cons d q =>
      obtain ⟨-, rfl⟩ := List.cons.inj ht
      exact .slash (fun h => hq (mem_cons_of_mem _ h)) hr hn

lemma of_append (hp : ch '/' ∉ p) (h : Reads limit (p ++ s) rest n) : Reads limit s rest n := by
  induction p with
  | nil => exact h
  | cons c p ih =>
    obtain ⟨hc, hp⟩ := not_or.mp (mt mem_cons.mpr hp)
    exact ih hp (h.of_cons (Ne.symm hc))

lemma used (h : Reads limit s rest n) : ∃ u, s = u ++ rest ∧
      (rest = [] ∨ ∃ p ds, u = p ++ ch '/' :: ds ∧ ds ≠ [] ∧ ∀ d ∈ ds, isDigit d = true) := by
  cases h with
  | whole hs hn => exact ⟨s, (append_nil s).symm, .inl rfl⟩
  | @slash p r hp hr hn =>
    refine ⟨p ++ ch '/' :: r.takeWhile isDigit, ?_, .inr ⟨p, _, rfl, ?_, ?_⟩⟩
    · rw [append_assoc, cons_append, takeWhile_append_dropWhile]
    · cases r with
      | nil => exact absurd hr (by decide)
      | cons d r => simp [takeWhile_cons_of_pos (show isDigit d = true from hr)]
    · exact fun d hd => mem_takeWhile_imp hd

lemma le (h : Reads limit s rest n) : n ≤ limit := by
  cases h with
  | whole hs hn | slash hp hr hn => exact hn

lemma number (h : Reads limit s rest n) {ds} (hds : slashDigits s = some ds) :
    n = decimalNum ds % 2 ^ 32 := by
  cases h with
  | whole hs hn =>
    rw [slashDigits, if_neg hs] at hds
    cases hds
  | slash hp hr hn =>
    rw [slashDigits_append hp] at hds
    cases hds
    rfl

end Reads

lemma atonIp4Loop_reads {dots part ip r}
    (h : atonIp4Loop true s dots part ip = some r) : Reads 32 s r.rest r.bits := by
  induction s generalizing dots part ip with
  | nil =>
    rw [atonIp4Loop] at h
    split_ifs at h
    cases h
    exact .whole not_mem_nil le_rfl
  | cons c cs ih =>
    cases atonStep h with
    | wild hc hdots hcs hwild hrest hbits =>
      have hnone : ch '/' ∉ c :: cs := by
        rw [hc, hcs, mem_cons, mem_cons]
        rintro (h | h | h)
        · exact absurd h (by decide)
        · exact absurd h (by decide)
        · exact absurd (hwild _ h) (by decide)
      rw [hrest]
      exact .whole hnone (by omega)
    | dot hc hdots hnext h => exact (ih h).cons (hc ▸ by decide)
    | slash hc hp hdigit hrest hbits hle =>
      rw [hc, hrest, hbits]
      exact .slash not_mem_nil hdigit (hbits ▸ hle)
    | digit hc hpart h => exact (ih h).cons (digit_ne hc (by decide))

lemma atonIp4_reads {r} (h : atonIp4 s true = some r) : Reads 32 s r.rest r.bits := by
  rw [atonIp4] at h
  split_ifs at h
  exact atonIp4Loop_reads h

/-! ### Groups that a colon ends -/

/-- The number of groups with a colon behind them. A double colon ends one, and the search stops at
a slash or an asterisk. -/
def closedGroups : List UInt8 → ℕ
  | [] => 0
  | c :: cs =>
    if c = ch '/' ∨ c = ch '*' then 0
    else if c = ch ':' then
      match cs with
      | d :: cs' => if d = ch ':' then closedGroups cs' + 1 else closedGroups (d :: cs') + 1
      | [] => 1
    else closedGroups cs

lemma closedGroups_cons (hslash : c ≠ ch '/') (hstar : c ≠ ch '*') (hcolon : c ≠ ch ':')
    (cs : List UInt8) : closedGroups (c :: cs) = closedGroups cs := by
  rw [closedGroups.eq_def]
  simp only [hslash, hstar, or_self, if_false, if_neg hcolon]

lemma closedGroups_stop (hc : c = ch '/' ∨ c = ch '*') (cs : List UInt8) :
    closedGroups (c :: cs) = 0 := by
  rw [closedGroups.eq_def]
  simp only [if_pos hc]

lemma closedGroups_colon {cs} (hnext : cs.head? ≠ some (ch ':')) :
    closedGroups (ch ':' :: cs) = closedGroups cs + 1 := by
  rw [closedGroups.eq_def]
  cases cs with
  | nil => rfl
  | cons d cs => exact if_neg fun h => hnext (congrArg some h)

lemma closedGroups_double (cs : List UInt8) :
    closedGroups (ch ':' :: ch ':' :: cs) = closedGroups cs + 1 := by
  rw [closedGroups.eq_def]
  simp only [if_neg (show ¬(ch ':' = ch '/' ∨ ch ':' = ch '*') by decide), if_true]

lemma closedGroups_of_atonIp4Loop {pbits dots part ip r}
    (h : atonIp4Loop pbits s dots part ip = some r) :
    closedGroups s = 0 := by
  have hdot : ∀ cs, closedGroups (ch '.' :: cs) = closedGroups cs :=
    closedGroups_cons (by decide) (by decide) (by decide)
  induction s generalizing dots part ip with
  | nil => rfl
  | cons c cs ih =>
    cases atonStep h with
    | wild hc hdots hcs hwild hrest hbits =>
      rw [hc, hcs, hdot, closedGroups_stop (.inr rfl)]
    | dot hc hdots hnext h => rw [hc, hdot, ih h]
    | slash hc hp hdigit hrest hbits hle => rw [hc, closedGroups_stop (.inl rfl)]
    | digit hc hpart h =>
      rw [closedGroups_cons (digit_ne hc (by decide)) (digit_ne hc (by decide))
        (digit_ne hc (by decide)), ih h]

/-! ### The IPv6 parser -/

def beforeSlash (s : List UInt8) : List UInt8 := s.takeWhile (· ≠ ch '/')

/-- What the loop of `ipmask_parse` reads, behind `ii` groups, if it is given a pointer. -/
inductive Ip6Reads (ii : ℕ) (s : List UInt8) (r : ParsedMask) : Prop
  | unset (hbits : r.bits = none) (hrest : r.rest = []) (hii : ii + closedGroups s = 8)
  | plain {n : ℕ} (hbits : r.bits = some n) (hreads : Reads 128 s r.rest n)
      (hdot : ch '.' ∉ beforeSlash s) (hii : ii + closedGroups s ≠ 8)
  | quad {n : ℕ} (hbits : r.bits = some (n + 96)) (hreads : Reads 32 s r.rest n)
      (hdot : ch '.' ∈ beforeSlash s) (hii : ii + closedGroups s ≠ 8)

lemma colons_plain {d} (hd : d ≠ ch ':') (n) :
    ∀ c ∈ List.replicate n (ch ':'), c ≠ ch '/' ∧ c ≠ d := fun c hc => by
  rw [eq_of_mem_replicate hc]
  exact ⟨by decide, hd.symm⟩

lemma Ip6Reads.append {ii ii'} (hp : ∀ c ∈ p, c ≠ ch '/' ∧ c ≠ ch '.')
    (hclosed : ii' + closedGroups (p ++ s) = ii + closedGroups s) (h : Ip6Reads ii s r) :
    Ip6Reads ii' (p ++ s) r := by
  have hslash : ch '/' ∉ p := fun h => (hp _ h).1 rfl
  have hbefore : beforeSlash (p ++ s) = p ++ beforeSlash s :=
    takeWhile_append_of_pos fun c hc => by simpa using (hp c hc).1
  have hdots : ch '.' ∈ beforeSlash (p ++ s) ↔ ch '.' ∈ beforeSlash s := by
    rw [hbefore, mem_append, or_iff_right fun h => (hp _ h).2 rfl]
  cases h with
  | unset hbits hrest hii => exact .unset hbits hrest (hclosed.trans hii)
  | plain hbits hreads hdot hii =>
    exact .plain hbits (hreads.append hslash) (mt hdots.mp hdot) (hclosed ▸ hii)
  | quad hbits hreads hdot hii =>
    exact .quad hbits (hreads.append hslash) (hdots.mpr hdot) (hclosed ▸ hii)

lemma closedGroups_of_append {m} (hm : ∀ c ∈ m, c ≠ ch '/' ∧ c ≠ ch '*')
    (h : closedGroups (m ++ s) = 0) : closedGroups s = 0 := by
  induction m with
  | nil => exact h
  | cons c m ih =>
    obtain ⟨hslash, hstar⟩ := hm c mem_cons_self
    refine ih (fun d hd => hm d (mem_cons_of_mem _ hd)) ?_
    by_cases hcolon : c = ch ':'
    · rw [hcolon, cons_append, closedGroups.eq_def] at h
      simp only [if_neg (show ¬(ch ':' = ch '/' ∨ ch ':' = ch '*') by decide), if_true] at h
      split at h
      · split_ifs at h
      · cases h
    · rwa [cons_append, closedGroups_cons hslash hstar hcolon] at h

open Ip6Reads

lemma ip6Loop_reads {t} (hii : t.ii ≤ 8)
    (hstart : t.partStart = [] ∨ ∃ m, t.partStart = m ++ s ∧ ∀ c ∈ m, c ≠ ch '/' ∧ c ≠ ch '*')
    (h : ip6Loop true s t = some r) : Ip6Reads t.ii s r := by
  induction hn : s.length using Nat.strong_induction_on generalizing s t with
  | _ n ih =>
    cases s with
    | nil =>
      rw [ip6Loop] at h
      by_cases h8 : 8 ≤ t.ii
      · rw [if_pos h8] at h
        cases h
        exact .unset rfl rfl (by simp only [closedGroups]; omega)
      rw [if_neg h8] at h
      simp only at h
      split_ifs at h
      cases h
      exact .plain rfl (.whole not_mem_nil le_rfl) not_mem_nil
        (by simp only [closedGroups]; omega)
    | cons c cs =>
      subst hn
      obtain ⟨hlt, hstep⟩ := ip6Step h
      cases hstep with
      | digit hc hpart h =>
        have hne : ∀ d, hexVal d = none → c ≠ d := fun d hd => hexVal_ne hc hd
        refine append (p := [c]) ?_ ?_ (ih cs.length (by simp) (by exact hii) ?_ h rfl)
        · simpa using ⟨hne _ (by decide), hne _ (by decide)⟩
        · rw [singleton_append, closedGroups_cons (hne _ (by decide)) (hne _ (by decide))
            (hne _ (by decide))]
        refine hstart.imp_right fun hpart => ?_
        obtain ⟨m, hm, hchars⟩ := hpart
        refine ⟨m ++ [c], ?_, ?_⟩
        · rw [hm, append_assoc, singleton_append]
        intro d hd
        rcases mem_append.mp hd with hd | hd
        · exact hchars d hd
        · rw [mem_singleton.mp hd]
          exact ⟨hne _ (by decide), hne _ (by decide)⟩
      | colon hc hdot hnext h =>
        refine append (p := [c]) ?_ ?_
          (ih cs.length (by simp) (by exact hlt) (.inr ⟨[], rfl, by simp⟩) h rfl)
        · rw [hc]
          exact colons_plain (by decide) 1
        · rw [hc, singleton_append, closedGroups_colon hnext]
          change _ = t.ii + 1 + _
          omega
      | @double hc cs' hcs hcolon h8 h =>
        subst hcs
        refine append (p := [c, ch ':']) ?_ ?_
          (ih cs'.length (by simp) (by exact hlt)
            (.inr ⟨[ch ':'], rfl, colons_plain (by decide) 1⟩) h rfl)
        · rw [hc]
          exact colons_plain (by decide) 2
        rw [hc]
        change t.ii + closedGroups (ch ':' :: ch ':' :: cs') = t.ii + 1 + _
        rw [closedGroups_double]
        omega
      | quad hc hip h6 hrest hbits =>
        obtain ⟨m, hm, hchars⟩ := hstart.resolve_left fun hnil => by
          rw [hnil] at hip
          cases hip
        rw [hm] at hip
        have hreads := (atonIp4_reads hip).of_append fun h => (hchars _ h).1 rfl
        have hclosed : closedGroups (c :: cs) = 0 := by
          rw [atonIp4] at hip
          split_ifs at hip
          exact closedGroups_of_append hchars (closedGroups_of_atonIp4Loop hip)
        rw [← hrest] at hreads
        refine .quad hbits hreads ?_ (by omega)
        rw [hc]
        exact mem_cons_self
      | slash hc hp hdigit hrest hbits hle =>
        rw [hc]
        refine .plain hbits ?_ (by simp [beforeSlash]) ?_
        · rw [hrest]
          exact .slash not_mem_nil hdigit hle
        · rw [closedGroups_stop (.inl rfl)]
          omega
      | wild hc hwild hcolon hrest hbits hle =>
        have hnone : ∀ d, ¬(d = ch '*' ∨ d = ch ':') → d ∉ c :: cs := by
          intro d hd hin
          rcases mem_cons.mp hin with rfl | hin
          · exact hd (.inl hc)
          · exact hd (hwild d hin)
        refine .plain hbits ?_ ?_ ?_
        · rw [hrest]
          exact .whole (hnone _ (by decide)) hle
        · exact fun h => hnone _ (by decide) (takeWhile_subset _ h)
        · rw [closedGroups_stop (.inr hc)]
          omega

/-! ### Masks -/

/-- What is added to the length of an IPv4 mask, also of one at the end of an IPv6 address. -/
def lengthOffset (t : List UInt8) : ℕ :=
  if isIp6Text t ∧ ch '.' ∉ beforeSlash t then 0 else 96

def afterDouble (t : List UInt8) : List UInt8 := if t.take 2 = str "::" then t.drop 2 else t

def eightColons (t : List UInt8) : Prop := isIp6Text t ∧ closedGroups (afterDouble t) = 8

instance (t : List UInt8) : Decidable (eightColons t) := inferInstanceAs (Decidable (_ ∧ _))

inductive MaskReads (t : List UInt8) (r : ParsedMask) : Prop
  | unset (hbits : r.bits = none) (height : eightColons t)
  | found {limit m n : ℕ} (hbits : r.bits = some n) (hle : n ≤ 128)
      (hreads : Reads limit t r.rest m) (hn : ch '/' ∈ t → n = m + lengthOffset t)
      (height : ¬eightColons t)

lemma Ip6Reads.mask {ii} (h : Ip6Reads ii s r) (hii : ii = 0) (h6 : isIp6Text (p ++ s))
    (hp : ∀ c ∈ p, c = ch ':') (hafter : afterDouble (p ++ s) = s) : MaskReads (p ++ s) r := by
  subst hii
  have hnone : ∀ d, d ≠ ch ':' → d ∉ p := fun d hd hin => hd (hp d hin)
  have hbefore : beforeSlash (p ++ s) = p ++ beforeSlash s :=
    takeWhile_append_of_pos fun c hc => by
      rw [hp c hc]
      decide
  have hdots : ch '.' ∈ beforeSlash (p ++ s) ↔ ch '.' ∈ beforeSlash s := by
    rw [hbefore, mem_append, or_iff_right (hnone _ (by decide))]
  have height : eightColons (p ++ s) ↔ 0 + closedGroups s = 8 := by
    rw [eightColons, hafter, Nat.zero_add, and_iff_right h6]
  cases h with
  | unset hbits hrest hii => exact .unset hbits (height.mpr hii)
  | plain hbits hreads hdot hii =>
    refine .found hbits hreads.le (hreads.append (hnone _ (by decide))) (fun _ => ?_)
      (mt height.mp hii)
    rw [lengthOffset, if_pos ⟨h6, mt hdots.mp hdot⟩, Nat.add_zero]
  | quad hbits hreads hdot hii =>
    have hle := hreads.le
    refine .found hbits (by omega) (hreads.append (hnone _ (by decide))) (fun _ => ?_)
      (mt height.mp hii)
    rw [lengthOffset, if_neg fun h => h.2 (hdots.mpr hdot)]

lemma ipmaskParse_reads {t} (h : ipmaskParse t true = some r) : MaskReads t r := by
  cases maskForm h with
  | double h6 ht hnext hloop =>
    subst ht
    have hreads := ip6Loop_reads (by exact Nat.zero_le 8)
      (by exact .inr ⟨[], rfl, by simp⟩) hloop
    exact hreads.mask (p := [ch ':', ch ':']) rfl h6 (by simp) (if_pos rfl)
  | ip6 h6 hnext hloop =>
    have hreads := ip6Loop_reads (by decide) (.inl rfl) hloop
    refine hreads.mask (p := []) rfl h6 (by simp) (if_neg fun heq => hnext ?_)
    rw [nil_append] at heq
    rw [← take_append_drop 2 t, heq]
    rfl
  | ip4 h6 hip hrest hbits =>
    have hreads := atonIp4_reads hip
    have hle := hreads.le
    rw [← hrest] at hreads
    refine .found hbits (by omega) hreads (fun _ => ?_) fun h => h6 h.1
    rw [lengthOffset, if_neg fun h => h6 h.1]
  | star h6 hslash hstar hrest hbits =>
    have hreads : Reads 0 t r.rest 0 := hrest ▸ .whole hslash le_rfl
    exact .found hbits (Nat.zero_le _) hreads (fun h => absurd h hslash) fun h => h6 h.1

/-- What is expected of a mask that is accepted: it is used up to its end or up to a digit behind a
slash, and the length that is stored is the one that is written. -/
structure FaithfulLength (t : List UInt8) (r : ParsedMask) : Prop where
  used : ∃ u, t = u ++ r.rest ∧
    (r.rest = [] ∨ ∃ p ds, u = p ++ ch '/' :: ds ∧ ds ≠ [] ∧ ∀ d ∈ ds, isDigit d = true)
  stored : ∃ n, r.bits = some n ∧ n ≤ 128 ∧
    ∀ ds, slashDigits t = some ds → n = decimalNum ds + lengthOffset t

lemma slash_of_slashDigits {t ds} (h : slashDigits t = some ds) : ch '/' ∈ t := by
  rw [slashDigits] at h
  split_ifs at h with hin
  exact hin

/-- **The masks whose length is stored as it is written**: those that are not eight groups with a
colon behind each, and whose number fits an `unsigned int`. -/
theorem ipmaskParse_length {t : List UInt8} {r : ParsedMask} (h : ipmaskParse t true = some r) :
    FaithfulLength t r ↔
      ¬eightColons t ∧ ∀ ds, slashDigits t = some ds → decimalNum ds < 2 ^ 32 := by
  cases ipmaskParse_reads h with
  | unset hbits height =>
    refine iff_of_false (fun hf => ?_) fun hcond => hcond.1 height
    obtain ⟨n, hn, -⟩ := hf.stored
    rw [hbits] at hn
    cases hn
  | found hbits hle hreads hn height =>
    have hwritten : ∀ {ds}, slashDigits t = some ds →
        _ = decimalNum ds % 2 ^ 32 + lengthOffset t :=
      fun hds => (hn (slash_of_slashDigits hds)).trans
        (congrArg (· + lengthOffset t) (hreads.number hds))
    constructor
    · intro hf
      refine ⟨height, fun ds hds => ?_⟩
      obtain ⟨n', hn', -, hnumber⟩ := hf.stored
      rw [hbits] at hn'
      cases hn'
      have heq := (hnumber ds hds).symm.trans (hwritten hds)
      have hmod := Nat.mod_lt (decimalNum ds) (show 0 < 2 ^ 32 by decide)
      omega
    · intro hcond
      refine ⟨hreads.used, _, hbits, hle, fun ds hds => ?_⟩
      rw [hwritten hds, Nat.mod_eq_of_lt (hcond.2 ds hds)]

theorem ipmaskParse_length_sixteen :
    ∃ r, ipmaskParse (str "192.168/16") true = some r ∧ FaithfulLength (str "192.168/16") r := by
  obtain ⟨r, hr⟩ := Option.isSome_iff_exists.mp
    (show (ipmaskParse (str "192.168/16") true).isSome = true by decide +kernel)
  refine ⟨r, hr, (ipmaskParse_length hr).mpr ⟨by decide +kernel, fun ds hds => ?_⟩⟩
  cases hds.symm.trans (show slashDigits (str "192.168/16") = some (str "16") by decide +kernel)
  decide +kernel

/-- The number `2 ^ 32` is taken for zero, and eight groups with a colon behind each are accepted
without a length. -/
theorem ipmaskParse_length_wraps :
    (ipmaskParse (str "1.2.3.4/4294967296") true).map ParsedMask.bits = some (some 96) ∧
      (ipmaskParse (str "1:2:3:4:5:6:7:8:") true).map ParsedMask.bits = some none := by
  decide +kernel

end Ircu
