import Mathlib.Tactic

/-!
A cache with one entry.

A request has a key and the value that would be computed for it. If the entry has the
key of the request, its value is the answer; otherwise the value is computed and becomes
the entry. The answers are the values themselves if and only if the key says enough
about the value from one request to the next (`answers_eq_iff`).
-/

namespace Ircu.Cache

variable {K V : Type*} [DecidableEq K]

def lookup (entry : Option (K × V)) (key : K) (value : V) : (K × V) × V :=
  match entry with
  | some (k, v) => if k = key then ((k, v), v) else ((key, value), value)
  | none => ((key, value), value)

def answers : Option (K × V) → List (K × V) → List V
  | _, [] => []
  | entry, r :: rs =>
    (lookup entry r.1 r.2).2 :: answers (some (lookup entry r.1 r.2).1) rs

open List

@[simp] lemma length_answers (entry) (rs : List (K × V)) :
    (answers entry rs).length = rs.length := by
  induction rs generalizing entry with
  | nil => rfl
  | cons r rs ih => rw [answers, length_cons, length_cons, ih]

lemma answers_some_eq_iff (e : K × V) (rs : List (K × V)) : answers (some e) rs = rs.map Prod.snd ↔
      (e :: rs).IsChain fun a b => a.1 = b.1 → a.2 = b.2 := by
  induction rs generalizing e with
  | nil => simp [answers]
  | cons r rs ih =>
    rw [answers, map_cons, cons.injEq, isChain_cons_cons, lookup]
    by_cases hkey : e.1 = r.1
    · simp only [hkey, if_true, true_imp_iff]
      constructor
      · rintro ⟨hv, hrs⟩
        have he : (r.1, e.2) = r := Prod.ext rfl hv
        rw [he] at hrs
        exact ⟨hv, (ih r).mp hrs⟩
      rintro ⟨hv, hchain⟩
      have he : (r.1, e.2) = r := Prod.ext rfl hv
      rw [he]
      exact ⟨hv, (ih r).mpr hchain⟩
    · simp only [hkey, if_false, true_and, false_imp_iff]
      exact ih r

/-- **The answers are the values that would be computed** if and only if requests that
follow each other with the same key have the same value. -/
theorem answers_eq_iff (rs : List (K × V)) :
    answers none rs = rs.map Prod.snd ↔ rs.IsChain fun a b => a.1 = b.1 → a.2 = b.2 := by
  cases rs with
  | nil => simp [answers]
  | cons r rs =>
    rw [answers, map_cons, cons.injEq]
    simp only [lookup, true_and]
    exact answers_some_eq_iff r rs

end Ircu.Cache
