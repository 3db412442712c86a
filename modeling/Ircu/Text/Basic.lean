import Mathlib.Data.Nat.Digits.Lemmas
import Mathlib.Tactic

/-!
Lines of text as lists of symbols: the words between separators, and decimal
numerals.
-/

namespace Ircu

variable {α : Type*} [DecidableEq α]

/-! ### Tokens -/

def tokensAux (sep : α) : ℕ → List α → List (List α)
  | 0, _ => []
  | n + 1, l =>
    match l.dropWhile (· = sep) with
    | [] => []
    | c :: cs =>
      (c :: cs).takeWhile (· ≠ sep) ::
        tokensAux sep n (((c :: cs).dropWhile (· ≠ sep)).drop 1)

/-- The tokens of a list: its maximal runs without the separator. -/
def tokens (sep : α) (l : List α) : List (List α) := tokensAux sep (l.length + 1) l

/-! ### Decimal numerals -/

def isDecimal (c : UInt8) : Bool := 48 ≤ c && c ≤ 57

def decimalDigits (n : ℕ) : List ℕ := if n = 0 then [0] else (Nat.digits 10 n).reverse

/-- The decimal numeral of a number, as `%u` prints it. -/
def decimal (n : ℕ) : List UInt8 := (decimalDigits n).map fun d => UInt8.ofNat (48 + d)

def readDecimal : ℕ → List UInt8 → ℕ × List UInt8
  | v, [] => (v, [])
  | v, c :: cs =>
    if isDecimal c then readDecimal (10 * v + (c - 48).toNat) cs else (v, c :: cs)

lemma isDecimal_ofNat {d} (hd : d < 10) : isDecimal (UInt8.ofNat (48 + d)) := by
  interval_cases d <;> decide

lemma digit_value {d} (hd : d < 10) : (UInt8.ofNat (48 + d) - 48).toNat = d := by
  interval_cases d <;> decide

open List Nat

lemma decimalDigits_lt {n d} (hd : d ∈ decimalDigits n) : d < 10 := by
  rw [decimalDigits] at hd
  split at hd
  · simp_all
  · exact digits_lt_base (by norm_num) (mem_reverse.mp hd)

lemma ofDigits_decimalDigits (n) : ofDigits 10 (decimalDigits n).reverse = n := by
  rw [decimalDigits]
  split
  · simp_all
  · rw [reverse_reverse, ofDigits_digits]

lemma readDecimal_digits (ds : List ℕ) (hds : ∀ d ∈ ds, d < 10) (v : ℕ) {rest}
    (hrest : ∀ c ∈ rest.head?, isDecimal c = false) :
    readDecimal v ((ds.map fun d => UInt8.ofNat (48 + d)) ++ rest) =
      (v * 10 ^ ds.length + ofDigits 10 ds.reverse, rest) := by
  induction ds generalizing v with
  | nil =>
    cases rest with
    | nil => simp [readDecimal]
    | cons c cs => simp [readDecimal, hrest c (by simp)]
  | cons d ds ih =>
    have hd : d < 10 := hds d (by simp)
    rw [map_cons, cons_append, readDecimal, if_pos (isDecimal_ofNat hd),
      digit_value hd, ih fun e he => hds e (by simp [he])]
    congr 1
    rw [reverse_cons, ofDigits_append, length_reverse, length_cons, ofDigits_singleton]
    ring

/-- **A numeral reads back as the number it was printed from.** -/
theorem readDecimal_decimal (n) {rest} (hrest : ∀ c ∈ rest.head?, isDecimal c = false) :
    readDecimal 0 (decimal n ++ rest) = (n, rest) := by
  rw [decimal, readDecimal_digits _ (fun d => decimalDigits_lt) 0 hrest, zero_mul, zero_add,
    ofDigits_decimalDigits]

end Ircu
