import Ircu.Glob.Basic

/-!
Patterns that cover patterns, and the greedy search with one saved position.

A pattern can be matched against another pattern, item by item: a star takes a
run of items, a single-letter wildcard takes one item that is not a star, and a
literal takes a literal that it includes. Such a match of `p` against `q` means
that `p` matches what `q` matches (`Covers.matches`). It is an ordinary match,
over the alphabet of items, so the facts about `Matches` apply to it.

`Pending` is what a matcher knows in the middle of a search when it remembers
only the last star: the search as a whole succeeds if and only if the pattern
behind that star matches the word from the saved position on, possibly later,
and the part of it that has been read has been matched. The lemmas are its moves:
`Pending.read`, `Pending.star`, `Pending.retry`, and the ends of the search.
-/

namespace Glob

open List

/-! ### Covering -/

section Cover

variable {α β : Type*}

/-- What an item other than a star takes of another pattern. The wildcard for a
single letter is `none`. -/
def takes (inc : β → β → Bool) : Option β → Tok β → Bool
  | _, .star => false
  | none, _ => true
  | some _, .any => false
  | some b, .lit b' => inc b b'

def Tok.lift : Tok β → Tok (Option β)
  | .star => .star
  | .any => .lit none
  | .lit b => .lit (some b)

/-- The pattern `p` matches the pattern `q` item by item. -/
def Covers (inc : β → β → Bool) (p q : List (Tok β)) : Prop :=
  Matches (takes inc) (p.map Tok.lift) q

instance (inc : β → β → Bool) (p q : List (Tok β)) : Decidable (Covers inc p q) :=
  inferInstanceAs (Decidable (Matches _ _ _))

variable {acc : β → α → Bool} {inc : β → β → Bool}

/-- **Covering is sound**: a pattern that covers another one matches its words,
provided that a literal accepts what the literals that it includes accept. -/
theorem Covers.matches (hinc : ∀ b b' c, inc b b' = true → acc b' c = true → acc b c = true)
    {p q s} (h : Covers inc p q) (hs : Matches acc q s) : Matches acc p s := by
  induction p generalizing q s with
  | nil =>
    rw [Covers, map_nil, matches_nil] at h
    rwa [h] at hs
  | cons t p ih =>
    cases t with
    | star =>
      obtain ⟨r, ⟨u, rfl⟩, hr⟩ := matches_star.mp h
      obtain ⟨w, v, rfl, -, hv⟩ := matches_append_iff.mp hs
      exact (ih hr hv).star_of (suffix_append w v)
    | any =>
      obtain _ | ⟨t', q⟩ := q
      · exact absurd h not_matches_lit_nil
      obtain ⟨ht, hq⟩ := matches_lit_cons.mp h
      cases t' with
      | star => simp [takes] at ht
      | any =>
        obtain _ | ⟨c, s⟩ := s
        · exact absurd hs not_matches_any_nil
        · exact .any c (ih hq (matches_any_cons.mp hs))
      | lit b =>
        obtain _ | ⟨c, s⟩ := s
        · exact absurd hs not_matches_lit_nil
        · exact .any c (ih hq (matches_lit_cons.mp hs).2)
    | lit b =>
      obtain _ | ⟨t', q⟩ := q
      · exact absurd h not_matches_lit_nil
      obtain ⟨ht, hq⟩ := matches_lit_cons.mp h
      cases t' with
      | star | any => simp [takes] at ht
      | lit b' =>
        obtain _ | ⟨c, s⟩ := s
        · exact absurd hs not_matches_lit_nil
        · obtain ⟨hc, hs⟩ := matches_lit_cons.mp hs
          exact .lit (hinc b b' c ht hc) (ih hq hs)

lemma same_star_anys (k : ℕ) :
    Same acc (.star :: (List.replicate k .any ++ [.star])) (.star :: List.replicate k .any) := by
  induction k with
  | zero =>
    intro s
    exact matches_star_star
  | succ k ih =>
    intro s
    rw [replicate_succ, cons_append, matches_star_any, matches_star_any]
    exact ih.append_left [.any] s

end Cover

/-! ### A search with one saved position -/

section Greedy

variable {α β : Type*} {acc : β → α → Bool} {goal : Prop} {p : List (Tok β)} {s : List α}

variable (acc) in
/-- What is known of the search for `goal` when `p` and `s` are left to be
compared: with no star behind us the answer is whether they match; behind a star
the rest of the pattern and of the word at the star have been saved. -/
def Pending (goal : Prop) (p : List (Tok β)) (s : List α) : Option (List (Tok β) × List α) → Prop
  | none => goal ↔ Matches acc p s
  | some (pa, sa) => (goal ↔ Matches acc (.star :: pa) sa) ∧ ∃ q, StarFree q ∧ pa = q ++ p ∧
      Matches acc q (sa.take q.length) ∧ q.length ≤ sa.length ∧ s = sa.drop q.length

namespace Pending

lemma start : Pending acc (Matches acc p s) p s none := Iff.rfl

/-- What has been read behind the star has been matched, so the rest decides
whether the attempt at the saved position succeeds. -/
lemma attempt {pa sa} (h : Pending acc goal p s (some (pa, sa))) :
    Matches acc pa sa ↔ Matches acc p s := by
  obtain ⟨-, q, hq, rfl, hm, -, rfl⟩ := h
  rw [matches_append hq]
  exact and_iff_right hm

variable {saved : Option (List (Tok β) × List α)}

lemma read {t c} (ht : t.Accepts acc c) (h : Pending acc goal (t :: p) (c :: s) saved) :
    Pending acc goal p s saved := by
  have hsingle : StarFree [t] := by
    cases t with
    | star => exact absurd ht id
    | any | lit b => simp
  have hone : Matches acc [t] [c] := by
    rw [matches_iff_forall₂ hsingle]
    exact .cons ht .nil
  cases saved with
  | none =>
    refine Iff.trans h ?_
    rw [← singleton_append, matches_append hsingle]
    exact and_iff_right hone
  | some saved =>
    obtain ⟨hg, q, hq, hp, hm, hle, hs⟩ := h
    have hlen : q.length < saved.2.length := by
      have := congrArg List.length hs
      rw [length_cons, length_drop] at this
      omega
    have htake : saved.2.take (q.length + 1) = saved.2.take q.length ++ [c] := by
      rw [take_add, ← hs]
      rfl
    refine ⟨hg, q ++ [t], starFree_append.mpr ⟨hq, hsingle⟩, by simp [hp], ?_, ?_, ?_⟩
    · rw [length_append, length_singleton, htake]
      exact matches_append_iff.mpr ⟨_, _, rfl, hm, hone⟩
    · rw [length_append, length_singleton]
      omega
    · rw [length_append, ← drop_drop, ← hs]
      rfl

lemma star (h : Pending acc goal (.star :: p) s saved) : Pending acc goal p s (some (p, s)) := by
  refine ⟨?_, [], starFree_nil, rfl, .nil, Nat.zero_le _, rfl⟩
  cases saved with
  | none => exact h
  | some saved =>
    have hatt := h.attempt
    obtain ⟨hg, q, hq, hp, -, -, rfl⟩ := h
    rw [hg]
    constructor
    · intro hm
      obtain ⟨r, hr, hm⟩ := matches_star.mp hm
      exact (hp ▸ hm).chunk_mono hq (leftOpen_star p) hr
    · intro hm
      exact (hatt.mpr hm).star_of (suffix_refl _)

lemma retry {pa sa} (h : Pending acc goal p s (some (pa, sa)))
    (hno : ¬ Matches acc p s) : Pending acc goal pa sa.tail (some (pa, sa.tail)) := by
  refine ⟨?_, [], starFree_nil, rfl, .nil, Nat.zero_le _, rfl⟩
  rw [h.1, matches_star_tail, h.attempt]
  exact or_iff_right hno

lemma succeeds (h : Pending acc goal p s saved) (hm : Matches acc p s) : goal := by
  cases saved with
  | none => exact h.mpr hm
  | some saved => exact h.1.mpr ((h.attempt.mpr hm).star_of (suffix_refl _))

lemma fails (h : Pending acc goal p s none) (hno : ¬ Matches acc p s) : ¬ goal :=
  fun hg => hno (h.mp hg)

lemma fails_of_end {b} (hb : b ≠ .star) (h : Pending acc goal (b :: p) [] saved) : ¬ goal := by
  have hneed : 0 < needed (b :: p) := by
    cases b with
    | star => exact absurd rfl hb
    | any | lit b => simp [needed]
  cases saved with
  | none =>
    intro hg
    have := (h.mp hg).needed_le
    rw [length_nil] at this
    omega
  | some saved =>
    obtain ⟨hg, q, hq, hp, -, hle, hs⟩ := h
    intro hgoal
    obtain ⟨r, hr, hm⟩ := matches_star.mp (hg.mp hgoal)
    rw [hp] at hm
    have hrest := (hm.drop hq).needed_le
    have hlen := hr.length_le
    have hend := congrArg List.length hs
    rw [length_nil, length_drop] at hend
    rw [length_drop] at hrest
    omega

end Pending

end Greedy

end Glob
