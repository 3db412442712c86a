import Ircu.Ban.Basic

/-!
The text of a ban as it is entered: `pretty_mask` of `channel.c` fills a mask up to
the form `nick!user@host` and cuts its parts to their lengths, and `collapse` of
`match.c` drops stars that change nothing.

* `prettyMask_length` and `prettyMask_at`: the result fits the buffer of a ban and has a
  separator.
* `collapse_length` and `mem_collapse`: `collapse` keeps this so.
-/

namespace Ircu

open Glob List Lit
open Nick (NICKLEN USERLEN)

/-! ### `pretty_mask` -/

/-- A part that is too long keeps its end, with a star in front. -/
def clip (n : ℕ) (s : List UInt8) : List UInt8 :=
  if s.length > n then ch '*' :: s.drop (s.length - n + 1) else s

variable (mask : List UInt8)

/-- The parts of a mask that `pretty_mask` finds in its pass: what stands in front of
the first `!` or `@`, and then of the last `@`. Parts that are missing are `*`. -/
def maskParts : List UInt8 × List UInt8 × List UInt8 :=
  let star := [ch '*']
  let rest := mask.dropWhile fun c => c ≠ ch '!' ∧ c ≠ ch '@'
  match rest with
  | [] => if ch '.' ∈ mask ∨ ch ':' ∈ mask then (star, star, mask) else (mask, star, star)
  | c :: rest =>
    if c = ch '!' then
      let nick := mask.takeWhile fun c => c ≠ ch '!' ∧ c ≠ ch '@'
      if ch '@' ∈ rest then (nick, nuPart rest, hostPart rest) else (nick, rest, star)
    else (star, nuPart mask, hostPart mask)

def prettyMask : List UInt8 :=
  let (nick, user, host) := maskParts mask
  (nick.take NICKLEN ++ ch '!' :: clip USERLEN user) ++ ch '@' :: clip HOSTLEN host

lemma clip_length {n} (hn : 0 < n) (s) : (clip n s).length ≤ n := by
  rw [clip]
  split_ifs with h
  · rw [length_cons, length_drop]
    omega
  · omega

lemma prettyMask_length : (prettyMask mask).length ≤ BANSTRLEN := by
  rw [prettyMask]
  rcases maskParts mask with ⟨nick, user, host⟩
  have hn : (nick.take NICKLEN).length ≤ NICKLEN := length_take_le _ _
  have hu : (clip USERLEN user).length ≤ USERLEN := clip_length (by decide) user
  have hh : (clip HOSTLEN host).length ≤ HOSTLEN := clip_length (by decide) host
  simp only [length_append, length_cons, BANSTRLEN]
  omega

lemma prettyMask_at : ch '@' ∈ prettyMask mask := by
  simp [prettyMask]

/-! ### `collapse` -/

/-- The inner loop of `collapse`, from the first run of wildcards on. A star is held
back until a character other than `?` follows. -/
def collapseTail : List UInt8 → Bool → List UInt8
  | [], star => if star then [ch '*'] else []
  | c :: m, star =>
    if c = ch '*' then collapseTail m true
    else if c = ch '?' then c :: collapseTail m star
    else
      let held := if star then [ch '*'] else []
      match m with
      | d :: m' =>
        if c = ch '\\' ∧ (d = ch '*' ∨ d = ch '?') then
          held ++ c :: d :: collapseTail m' false
        else held ++ c :: collapseTail (d :: m') false
      | [] => held ++ c :: collapseTail [] false

def collapse : List UInt8 → List UInt8
  | [] => []
  | [c] => [c]
  | c :: d :: m =>
    if c = ch '*' ∧ (d = ch '*' ∨ d = ch '?') then collapseTail (c :: d :: m) false
    else if c = ch '\\' ∧ (d = ch '*' ∨ d = ch '?') then c :: d :: collapse m
    else c :: collapse (d :: m)

/-- What the inner loop makes of the text behind a character that is no wildcard. -/
def collapseRest (c : UInt8) : List UInt8 → List UInt8
  | [] => []
  | d :: m =>
    if c = ch '\\' ∧ (d = ch '*' ∨ d = ch '?') then d :: collapseTail m false
    else collapseTail (d :: m) false

variable {c : UInt8} {star : Bool} {m : List UInt8}

lemma collapseTail_star : collapseTail (ch '*' :: m) star = collapseTail m true := by
  rw [collapseTail.eq_def]
  rfl

lemma collapseTail_any : collapseTail (ch '?' :: m) star = ch '?' :: collapseTail m star := by
  rw [collapseTail.eq_def]
  rfl

lemma collapseTail_plain (h₁ : c ≠ ch '*') (h₂ : c ≠ ch '?') :
    collapseTail (c :: m) star = (if star then [ch '*'] else []) ++ c :: collapseRest c m := by
  rw [collapseTail.eq_def]
  simp only [if_neg h₁, if_neg h₂]
  cases m with
  | nil => rfl
  | cons d m =>
    rw [collapseRest]
    dsimp only
    split_ifs <;> rfl

lemma collapse_eq (m) : collapse m = collapseTail m false := by
  fun_induction collapse m with
  | case1 => rfl
  | case3 => rfl
  | case2 c =>
    by_cases h1 : c = ch '*'
    · rw [h1]
      rfl
    by_cases h2 : c = ch '?'
    · rw [h2, collapseTail_any]
      rfl
    · rw [collapseTail_plain h1 h2]
      rfl
  | case4 c d m h hesc ih =>
    obtain ⟨rfl, hd⟩ := hesc
    rw [collapseTail_plain (by decide) (by decide), collapseRest,
      if_pos (show ch '\\' = ch '\\' ∧ _ from ⟨rfl, hd⟩), ih]
    rfl
  | case5 c d m h hesc ih =>
    rw [ih]
    by_cases h1 : c = ch '*'
    · obtain ⟨hd1, hd2⟩ : d ≠ ch '*' ∧ d ≠ ch '?' := by simpa [h1] using h
      rw [h1, collapseTail_star, collapseTail_plain hd1 hd2, collapseTail_plain hd1 hd2]
      rfl
    by_cases h2 : c = ch '?'
    · rw [h2, collapseTail_any]
    · rw [collapseTail_plain h1 h2, collapseRest, if_neg hesc]
      rfl

lemma collapseTail_length (m star) :
    (collapseTail m star).length ≤ m.length + if star then 1 else 0 := by
  fun_induction collapseTail m star <;> grind

lemma collapse_length (m) : (collapse m).length ≤ m.length :=
  collapse_eq m ▸ collapseTail_length m false

lemma mem_collapseTail {x} (hx : x ≠ ch '*') (m star) : x ∈ collapseTail m star ↔ x ∈ m := by
  fun_induction collapseTail m star <;> grind

lemma mem_collapse {x} (hx : x ≠ ch '*') (m) : x ∈ collapse m ↔ x ∈ m :=
  collapse_eq m ▸ mem_collapseTail hx m false

/-! ### The meaning of a collapsed mask -/

section Meaning

variable (ih : ∀ l : List UInt8, l.length ≤ m.length →
  Same Lit.accepts (maskToks (collapseTail l false)) (maskToks l))
include ih

lemma collapseRest_same : Same accepts (maskToks (collapseRest c m)) (maskToks m) := by
  cases m with
  | nil => exact Same.refl _
  | cons d m =>
    rw [collapseRest]
    split_ifs with hesc
    · have hm := ih m (Nat.le_succ _)
      rcases hesc.2 with rfl | rfl
      · rw [maskToks_star, maskToks_star]
        exact hm.append_left [_]
      · rw [maskToks_any, maskToks_any]
        exact hm.append_left [_]
    · exact ih (d :: m) le_rfl

lemma collapsePlain_same (h₁ : c ≠ ch '*') (h₂ : c ≠ ch '?') :
    Same accepts (maskToks (c :: collapseRest c m)) (maskToks (c :: m)) := by
  by_cases hc : c = ch '\\'
  · cases m with
    | nil => exact Same.refl _
    | cons d m =>
      have htail := fun l (hl : l.length ≤ m.length) => ih l (hl.trans (Nat.le_succ _))
      obtain ⟨t, ht, hsame⟩ : ∃ t, collapseRest c (d :: m) = d :: t ∧
          Same accepts (maskToks t) (maskToks m) := by
        rw [collapseRest]
        split_ifs with hesc
        · exact ⟨_, rfl, htail m le_rfl⟩
        · obtain ⟨hd1, hd2⟩ := not_or.mp (mt (And.intro hc) hesc)
          exact ⟨_, collapseTail_plain hd1 hd2, collapseRest_same htail⟩
      rw [ht, hc, maskToks_escape, maskToks_escape]
      exact hsame.append_left [_]
  · rw [maskToks_plain hc h₁ h₂, maskToks_plain hc h₁ h₂]
    exact (collapseRest_same ih).append_left [_]

end Meaning

/-- **The inner loop keeps the meaning of a mask**, with the star that is held back in front. -/
lemma collapseTail_same (m star) :
    Same accepts (maskToks (collapseTail m star)) (pend star (maskToks m)) := by
  induction hn : m.length using Nat.strong_induction_on generalizing m star with
  | _ n ih =>
  subst hn
  cases m with
  | nil => cases star <;> exact Same.refl _
  | cons c m =>
  by_cases h1 : c = ch '*'
  · rw [h1, collapseTail_star, maskToks_star]
    refine (ih m.length (Nat.lt_succ_self _) m true rfl).trans fun s => ?_
    cases star with
    | false => exact Iff.rfl
    | true => exact matches_star_star.symm
  by_cases h2 : c = ch '?'
  · rw [h2, collapseTail_any, maskToks_any, maskToks_any]
    refine ((ih m.length (Nat.lt_succ_self _) m star rfl).append_left [.any]).trans fun s => ?_
    cases star with
    | false => exact Iff.rfl
    | true => exact matches_star_any.symm
  have hm := collapsePlain_same (fun l hl => ih l.length (Nat.lt_succ_of_le hl) l false rfl) h1 h2
  rw [collapseTail_plain h1 h2]
  cases star with
  | false => exact hm
  | true => exact (maskToks_star _ ▸ hm.append_left [.star])

lemma collapseTail_idem (m star) :
    collapseTail (collapseTail m star) false = collapseTail m star := by
  induction hn : m.length using Nat.strong_induction_on generalizing m star with
  | _ n ih =>
  subst hn
  cases m with
  | nil => cases star <;> rfl
  | cons c m =>
  have hm := fun star => ih m.length (Nat.lt_succ_self _) m star rfl
  by_cases h1 : c = ch '*'
  · rw [h1, collapseTail_star, hm]
  by_cases h2 : c = ch '?'
  · rw [h2, collapseTail_any, collapseTail_any, hm]
  have hrest : collapseRest c (collapseRest c m) = collapseRest c m := by
    cases m with
    | nil => rfl
    | cons d m =>
      by_cases hesc : c = ch '\\' ∧ (d = ch '*' ∨ d = ch '?')
      · rw [collapseRest, if_pos hesc, collapseRest, if_pos hesc, ih m.length (by simp) m false rfl]
      rw [collapseRest, if_neg hesc]
      cases ht : collapseTail (d :: m) false with
      | nil => rfl
      | cons e t =>
        rw [collapseRest, if_neg, ← ht, hm]
        rintro ⟨hc, he⟩
        obtain ⟨hd1, hd2⟩ := not_or.mp (mt (And.intro hc) hesc)
        rw [collapseTail_plain hd1 hd2] at ht
        exact hesc ⟨hc, (List.cons.inj ht).1 ▸ he⟩
  rw [collapseTail_plain h1 h2]
  cases star with
  | false => exact (collapseTail_plain h1 h2).trans (by rw [hrest])
  | true =>
    refine collapseTail_star.trans ((collapseTail_plain h1 h2).trans ?_)
    rw [hrest]

/-- **`collapse`** returns a mask that matches the same strings and is not longer, and leaves it as
it is the next time. -/
theorem collapse_minimal (mask : List UInt8) :
    (∀ name, MaskMatches (collapse mask) name ↔ MaskMatches mask name) ∧
      (collapse mask).length ≤ mask.length ∧ collapse (collapse mask) = collapse mask := by
  refine ⟨?_, collapse_length mask, ?_⟩
  · rw [collapse_eq]
    exact collapseTail_same mask false
  · rw [collapse_eq, collapse_eq, collapseTail_idem]

end Ircu
