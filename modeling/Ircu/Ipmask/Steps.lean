import Ircu.Ipmask
import Mathlib.Data.List.TakeWhile

/-!
What `ipmask_parse` does, character by character, when it succeeds.

* `MaskForm`, `maskForm`: which of its two loops is used, on which part of the text.
-/

namespace Ircu

/-! ### Numbers -/

def decimalNum (ds : List UInt8) : ℕ := ds.foldl (fun n c => n * 10 + digitVal c) 0

open List

lemma decimalLoop_eq (cs n) : decimalLoop cs (n % 2 ^ 32) =
      ((cs.takeWhile isDigit).foldl (fun n c => n * 10 + digitVal c) n % 2 ^ 32,
        cs.dropWhile isDigit) := by
  induction cs generalizing n with
  | nil => rfl
  | cons c cs ih =>
    rw [decimalLoop]
    by_cases hc : isDigit c = true
    · rw [if_pos hc, takeWhile_cons_of_pos hc, dropWhile_cons_of_pos hc, foldl_cons, ← ih]
      congr 1
      omega
    · rw [if_neg hc, takeWhile_cons_of_neg hc, dropWhile_cons_of_neg hc, foldl_nil]

lemma decimalLoop_zero (cs) :
    decimalLoop cs 0 = (decimalNum (cs.takeWhile isDigit) % 2 ^ 32, cs.dropWhile isDigit) :=
  decimalLoop_eq cs 0

/-! ### IPv4 -/

/-- Behind an asterisk there are only asterisks and separators. -/
def Wild (sep : UInt8) (cs : List UInt8) : Prop := ∀ c ∈ cs, c = ch '*' ∨ c = sep

variable {cs : List UInt8} {pbits : Bool}

lemma wild_of_dropWhile {sep}
    (h : cs.dropWhile (fun c => c = ch '*' ∨ c = sep) = []) : Wild sep cs := fun c hc => by
  simpa using dropWhile_eq_nil_iff.mp h c hc

/-- What `ircd_aton_ip4` does at a character, if it succeeds in the end. -/
inductive AtonStep (pbits : Bool) (c : UInt8) (cs : List UInt8) (dots part : ℕ)
    (r : Parsed (BitVec 32)) : Prop
  | wild (hc : c = ch '.') (hdots : dots < 3) {cs' : List UInt8} (hcs : cs = ch '*' :: cs')
      (hwild : Wild (ch '.') cs') (hrest : r.rest = []) (hbits : r.bits = (dots + 1) * 8)
  | dot (hc : c = ch '.') (hdots : dots < 3) (hnext : cs.head? ≠ some (ch '.'))
      {ip : BitVec 32} (h : atonIp4Loop pbits cs (dots + 1) 0 ip = some r)
  | slash (hc : c = ch '/') (hp : pbits = true) (hdigit : digitNext cs = true)
      (hrest : r.rest = cs.dropWhile isDigit)
      (hbits : r.bits = decimalNum (cs.takeWhile isDigit) % 2 ^ 32) (hle : r.bits ≤ 32)
  | digit (hc : ch '0' ≤ c ∧ c ≤ ch '9') (hpart : part * 10 + digitVal c ≤ 255) {ip : BitVec 32}
      (h : atonIp4Loop pbits cs dots (part * 10 + digitVal c) ip = some r)

lemma atonStep {c dots part ip r} (h : atonIp4Loop pbits (c :: cs) dots part ip = some r) :
    AtonStep pbits c cs dots part r := by
  rw [atonIp4Loop] at h
  by_cases hdot : c = ch '.'
  · simp only [if_pos hdot] at h
    split_ifs at h with h1 h2 hstar hend
    · cases h
      obtain ⟨cs', rfl⟩ := head?_eq_some_iff.mp hstar
      exact .wild hdot (by omega) rfl (wild_of_dropWhile (not_not.mp hend)) rfl rfl
    · exact .dot hdot (by omega) h2 h
  rw [if_neg hdot] at h
  by_cases hslash : c = ch '/'
  · rw [if_pos hslash, decimalLoop_zero] at h
    simp only at h
    split_ifs at h with hdigit hbits
    cases h
    simp only [Bool.or_eq_true, Bool.not_eq_true', not_or, Bool.not_eq_false] at hdigit
    exact .slash hslash hdigit.1 hdigit.2 rfl rfl (not_lt.mp hbits)
  · rw [if_neg hslash] at h
    simp only at h
    split_ifs at h with hdigit hpart
    exact .digit hdigit (not_lt.mp hpart) h

lemma digit_ne {c d} (hc : ch '0' ≤ c ∧ c ≤ ch '9') (hd : ¬(ch '0' ≤ d ∧ d ≤ ch '9')) :
    c ≠ d := fun h => hd (h ▸ hc)

/-! ### IPv6 -/

/-- What the loop of `ipmask_parse` does at a character, if it succeeds in the end. -/
inductive Ip6Step (pbits : Bool) (c : UInt8) (cs : List UInt8) (t : Ip6State) (r : ParsedMask) :
    Prop
  | digit {v : ℕ} (hc : hexVal c = some v) (hpart : t.part * 16 + v ≤ 0xffff)
      (h : ip6Loop pbits cs { t with part := t.part * 16 + v } = some r)
  | colon (hc : c = ch ':') (hdot : cs.head? ≠ some (ch '.')) (hnext : cs.head? ≠ some (ch ':'))
      (h : ip6Loop pbits cs { t.push t.part with part := 0, partStart := cs } = some r)
  | double (hc : c = ch ':') {cs' : List UInt8} (hcs : cs = ch ':' :: cs') (hcolon : 8 ≤ t.colon)
      (hii : t.ii + 1 ≠ 8)
      (h : ip6Loop pbits cs'
        { t.push t.part with part := 0, partStart := cs, colon := t.ii + 1 } = some r)
  | quad (hc : c = ch '.') {ip4 : Parsed (BitVec 32)} (hip : atonIp4 t.partStart pbits = some ip4)
      (hii : t.ii ≤ 6) (hrest : r.rest = ip4.rest) (hbits : r.bits = some (ip4.bits + 96))
  | slash (hc : c = ch '/') (hp : pbits = true) (hdigit : digitNext cs = true)
      (hrest : r.rest = cs.dropWhile isDigit)
      (hbits : r.bits = some (decimalNum (cs.takeWhile isDigit) % 2 ^ 32))
      (hle : decimalNum (cs.takeWhile isDigit) % 2 ^ 32 ≤ 128)
  | wild (hc : c = ch '*') (hwild : Wild (ch ':') cs) (hcolon : 8 ≤ t.colon) (hrest : r.rest = [])
      {n : ℕ} (hbits : r.bits = some n) (hle : n ≤ 128)

lemma ip6Step {c t r}
    (h : ip6Loop pbits (c :: cs) t = some r) : t.ii < 8 ∧ Ip6Step pbits c cs t r := by
  rw [ip6Loop] at h
  by_cases hii : 8 ≤ t.ii
  · rw [if_pos hii] at h
    cases h
  rw [if_neg hii] at h
  refine ⟨not_le.mp hii, ?_⟩
  cases hv : hexVal c with
  | some v =>
    simp only [hv] at h
    split_ifs at h with hpart
    exact .digit hv (not_lt.mp hpart) h
  | none =>
    simp only [hv] at h
    by_cases hcolon : c = ch ':'
    · rw [if_pos hcolon] at h
      by_cases hdot : cs.head? = some (ch '.')
      · rw [if_pos hdot] at h
        cases h
      rw [if_neg hdot] at h
      cases cs with
      | nil => exact .colon hcolon (by simp) (by simp) h
      | cons d cs' =>
        simp only at h
        by_cases hd : d = ch ':'
        · rw [if_pos hd] at h
          split_ifs at h with hlt h8
          exact .double hcolon (by rw [hd]) (not_lt.mp hlt) h8 h
        · rw [if_neg hd] at h
          exact .colon hcolon hdot (by simpa using hd) h
    rw [if_neg hcolon] at h
    by_cases hdot : c = ch '.'
    · rw [if_pos hdot] at h
      cases hip : atonIp4 t.partStart pbits with
      | none =>
        rw [hip] at h
        cases h
      | some ip4 =>
        simp only [hip] at h
        split_ifs at h with h6
        cases h
        exact .quad hdot hip (not_lt.mp h6) rfl rfl
    rw [if_neg hdot] at h
    by_cases hslash : c = ch '/'
    · rw [if_pos hslash, decimalLoop_zero] at h
      split_ifs at h with hdigit hbits
      cases h
      simp only [Bool.or_eq_true, Bool.not_eq_true', not_or, Bool.not_eq_false] at hdigit
      exact .slash hslash hdigit.1 hdigit.2 rfl rfl (not_lt.mp hbits)
    rw [if_neg hslash] at h
    split_ifs at h with hstar hwild hpush
    all_goals
      rw [not_or, not_not, not_lt] at hwild
      cases h
      refine .wild hstar (wild_of_dropWhile hwild.1) hwild.2 rfl rfl ?_
    · change (t.ii + 1) * 16 ≤ 128
      omega
    · omega

lemma hexVal_ne {c d v} (hc : hexVal c = some v) (hd : hexVal d = none) : c ≠ d := by
  rintro rfl
  rw [hd] at hc
  cases hc

def Ip6State.start : Ip6State := ⟨fun _ => 0, 0, 0, 8, []⟩

/-! ### Masks -/

/-- The text is one of an IPv6 address: a colon stands in front of the first dot. -/
def isIp6Text (t : List UInt8) : Prop :=
  ch ':' ∈ t ∧ (ch '.' ∉ t ∨ t.idxOf (ch '.') > t.idxOf (ch ':'))

instance (t : List UInt8) : Decidable (isIp6Text t) := inferInstanceAs (Decidable (_ ∧ _))

/-- What `ipmask_parse` does with a text that it accepts. -/
inductive MaskForm (pbits : Bool) (t : List UInt8) (r : ParsedMask) : Prop
  | double {cs : List UInt8} (h6 : isIp6Text t) (ht : t = ch ':' :: ch ':' :: cs)
      (hnext : cs.head? ≠ some (ch ':'))
      (h : ip6Loop pbits cs { Ip6State.start with colon := 0, partStart := cs } = some r)
  | ip6 (h6 : isIp6Text t) (hnext : t.head? ≠ some (ch ':'))
      (h : ip6Loop pbits t Ip6State.start = some r)
  | ip4 (h6 : ¬isIp6Text t) {ip4 : Parsed (BitVec 32)} (hip : atonIp4 t pbits = some ip4)
      (hrest : r.rest = ip4.rest) (hbits : r.bits = some (ip4.bits + 96))
  | star (h6 : ¬isIp6Text t) (hslash : ch '/' ∉ t) (hstar : ch '*' ∈ t) (hrest : r.rest = [])
      (hbits : r.bits = some 0)

lemma maskForm {t r} (h : ipmaskParse t pbits = some r) : MaskForm pbits t r := by
  rw [ipmaskParse] at h
  by_cases h6 : ch ':' ∈ t ∧ (ch '.' ∉ t ∨ t.idxOf (ch '.') > t.idxOf (ch ':'))
  · rw [if_pos h6] at h
    cases t with
    | nil => exact absurd h6.1 not_mem_nil
    | cons c cs =>
      simp only at h
      by_cases hc : c = ch ':'
      · split_ifs at h with hnext
        rw [not_or, not_not] at hnext
        obtain ⟨cs', rfl⟩ := head?_eq_some_iff.mp hnext.1
        exact .double h6 (by rw [hc, tail_cons]) hnext.2 h
      · rw [if_neg hc] at h
        exact .ip6 h6 (by simpa using hc) h
  · rw [if_neg h6] at h
    split_ifs at h with h4 hstar hend
    · cases hip : atonIp4 t pbits with
      | none =>
        rw [hip] at h
        cases h
      | some ip4 =>
        rw [hip] at h
        cases h
        exact .ip4 h6 hip rfl rfl
    · cases h
      exact .star h6 (fun hin => h4 (Or.inr hin)) (mem_of_mem_head? hstar) rfl rfl

end Ircu
