import Mathlib.Tactic
import Mathlib.Data.List.MinMax

/-!
Prefixes of bit strings, and the longest prefix that covers a key.

A key is anything whose bits can be read by their index. A prefix is a key and a
length; what the key says beyond the length does not matter.

* `longest`: the longest of the covering entries of a list, found by a scan.
  `longest_eq_some` recognises it.
-/

namespace Prefix

section Agree

variable {K : Type*} (bit : K → ℕ → Bool)

/-- The keys have the same first `n` bits. -/
def Agree (a b : K) (n : ℕ) : Prop := ∀ i < n, bit a i = bit b i

instance (a b : K) (n : ℕ) : Decidable (Agree bit a b n) :=
  inferInstanceAs (Decidable (∀ i < n, _))

variable {bit} {a b c : K} {m n : ℕ}

lemma Agree.refl (a n) : Agree bit a a n := fun _ _ => rfl

lemma Agree.symm (h : Agree bit a b n) : Agree bit b a n := fun i hi => (h i hi).symm

lemma Agree.trans (h : Agree bit a b n) (h' : Agree bit b c n) : Agree bit a c n :=
  fun i hi => (h i hi).trans (h' i hi)

lemma Agree.mono (h : Agree bit a b n) (hmn : m ≤ n) : Agree bit a b m :=
  fun i hi => h i (hi.trans_le hmn)

end Agree

section Longest

variable {E : Type*} (covers : E → Bool) (len : E → ℕ)

def longest (es : List E) : Option E := (es.filter covers).argmax len

variable {covers len}

open List

lemma longest_eq_none {es} : longest covers len es = none ↔ ∀ e ∈ es, covers e = false := by
  rw [longest, argmax_eq_none]
  simp

lemma longest_eq_some {es e} (he : e ∈ es) (hc : covers e = true)
    (hmax : ∀ e' ∈ es, covers e' = true → e' ≠ e → len e' < len e) :
    longest covers len es = some e := by
  have hmem : e ∈ es.filter covers := mem_filter.mpr ⟨he, hc⟩
  cases hl : longest covers len es with
  | none => exact absurd (longest_eq_none.mp hl e he) (by simp [hc])
  | some e' =>
    have hmem' := mem_filter.mp (argmax_mem hl)
    have hle := le_of_mem_argmax hmem hl
    by_contra hne
    have hlt := hmax e' hmem'.1 hmem'.2 (fun h => hne (by rw [h]))
    omega

end Longest

end Prefix
