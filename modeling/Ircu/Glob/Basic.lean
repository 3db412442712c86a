import Mathlib.Tactic

/-!
Glob patterns over an arbitrary alphabet.

A pattern is a list of items: `star` stands for any run of letters, `any` for
one letter, and `lit b` for one letter accepted by `b`. What a literal accepts
is a parameter `acc`, so that one development covers exact comparison and
comparison up to case.

* A pattern is `LeftOpen` when it keeps matching after letters have been put in
  front of the word; beginning with a star is enough (`leftOpen_star`).
* `StarFree` patterns have a fixed length (`Matches.length_eq`), so they split
  off a word in one way only (`matches_append`).
* `Matches.chunk_mono` and `star_chunk_star` are the greedy step: once a
  star-free chunk has matched at its leftmost place, the choice of a later place
  for it is never needed if what follows is left open.
* `Starts` is where the search for the next chunk begins, and `Starts.next` that
  it goes on behind the leftmost place of the last one.
-/

namespace Glob

open List

inductive Tok (β : Type*) where
  | star
  | any
  | lit (b : β)
deriving DecidableEq

variable {α β : Type*} (acc : β → α → Bool)

/-- The reference semantics of a pattern. -/
inductive Matches : List (Tok β) → List α → Prop
  | nil : Matches [] []
  | any {p s} (c) : Matches p s → Matches (.any :: p) (c :: s)
  | lit {p s b c} : acc b c = true → Matches p s → Matches (.lit b :: p) (c :: s)
  | star {p s} (u) : Matches p s → Matches (.star :: p) (u ++ s)

/-- The reference semantics as a program: a star tries every suffix. -/
def matchesB : List (Tok β) → List α → Bool
  | [], s => s.isEmpty
  | .any :: _, [] => false
  | .any :: p, _ :: s => matchesB p s
  | .lit _ :: _, [] => false
  | .lit b :: p, c :: s => acc b c && matchesB p s
  | .star :: p, s => s.tails.any (matchesB p)

variable {acc}

/-! ### The semantics item by item -/

variable {s t : List α} {p q w : List (Tok β)} {b : β}

@[simp] lemma matches_nil : Matches acc [] s ↔ s = [] := by
  constructor
  · rintro ⟨⟩
    rfl
  · rintro rfl
    exact .nil

@[simp] lemma not_matches_any_nil : ¬ Matches acc (.any :: p) [] := by
  rintro ⟨⟩

@[simp] lemma matches_any_cons {c} : Matches acc (.any :: p) (c :: s) ↔ Matches acc p s := by
  constructor
  · rintro ⟨⟩
    assumption
  · exact .any c

@[simp] lemma not_matches_lit_nil : ¬ Matches acc (.lit b :: p) [] := by
  rintro ⟨⟩

@[simp] lemma matches_lit_cons {c} :
    Matches acc (.lit b :: p) (c :: s) ↔ acc b c = true ∧ Matches acc p s := by
  constructor
  · rintro ⟨⟩
    exact ⟨by assumption, by assumption⟩
  · rintro ⟨hb, h⟩
    exact .lit hb h

lemma matches_star : Matches acc (.star :: p) s ↔ ∃ t, t <:+ s ∧ Matches acc p t := by
  constructor
  · rintro ⟨⟩
    exact ⟨_, suffix_append _ _, by assumption⟩
  · rintro ⟨t, ⟨u, rfl⟩, h⟩
    exact .star u h

lemma matches_append_iff :
    Matches acc (p ++ q) s ↔ ∃ w t, s = w ++ t ∧ Matches acc p w ∧ Matches acc q t := by
  constructor
  · induction p generalizing s with
    | nil => exact fun h => ⟨[], s, rfl, .nil, h⟩
    | cons a p ih =>
      rintro (_ | ⟨c, h⟩ | ⟨hb, h⟩ | ⟨u, h⟩)
      · obtain ⟨w, t, rfl, hw, ht⟩ := ih h
        exact ⟨c :: w, t, rfl, .any c hw, ht⟩
      · obtain ⟨w, t, rfl, hw, ht⟩ := ih h
        exact ⟨_ :: w, t, rfl, .lit hb hw, ht⟩
      · obtain ⟨w, t, rfl, hw, ht⟩ := ih h
        exact ⟨u ++ w, t, by simp, .star u hw, ht⟩
  · rintro ⟨w, t, rfl, hw, ht⟩
    induction hw with
    | nil => exact ht
    | any c _ ih => exact .any c ih
    | lit hb _ ih => exact .lit hb ih
    | star u _ ih =>
      rw [append_assoc]
      exact .star u ih

/-- The program decides the semantics. -/
theorem matchesB_iff (p s) : matchesB acc p s = true ↔ Matches acc p s := by
  induction p generalizing s with
  | nil => simp [matchesB]
  | cons t p ih =>
    cases t with
    | star => simp [matchesB, matches_star, ih]
    | any | lit b => cases s <;> simp [matchesB, ih]

instance (p : List (Tok β)) (s : List α) : Decidable (Matches acc p s) :=
  decidable_of_iff _ (matchesB_iff p s)

/-- Two acceptance tests that agree on the literals of a pattern give it the
same words; here for the first literal only. -/
lemma matches_lit_congr {b'} (h : ∀ c, acc b c = acc b' c) (p s) :
    Matches acc (.lit b :: p) s ↔ Matches acc (.lit b' :: p) s := by
  cases s <;> simp [h]

/-! ### Stars -/

variable (acc) in
/-- A pattern that still matches after letters have been put in front of the
word. -/
def LeftOpen (p : List (Tok β)) : Prop :=
  ∀ ⦃s t : List α⦄, t <:+ s → Matches acc p t → Matches acc p s

lemma leftOpen_star (p) : LeftOpen acc (.star :: p) := by
  intro s t hts h
  rw [matches_star] at h ⊢
  obtain ⟨r, hr, hm⟩ := h
  exact ⟨r, hr.trans hts, hm⟩

lemma LeftOpen.any (hp : LeftOpen acc p) : LeftOpen acc (.any :: p) := by
  intro s t hts h
  obtain _ | ⟨c, t⟩ := t
  · simp at h
  obtain _ | ⟨d, s⟩ := s
  · simp at hts
  rw [matches_any_cons] at h ⊢
  refine hp ?_ h
  rcases suffix_cons_iff.mp hts with he | hs
  · rw [(List.cons.inj he).2]
  · exact (suffix_cons c t).trans hs

lemma Matches.star_of (hts : t <:+ s) (h : Matches acc p t) : Matches acc (.star :: p) s :=
  matches_star.mpr ⟨t, hts, h⟩

lemma matches_star_tail :
    Matches acc (.star :: p) s ↔ Matches acc p s ∨ Matches acc (.star :: p) s.tail := by
  constructor
  · intro h
    obtain ⟨t, ht, hm⟩ := matches_star.mp h
    cases s with
    | nil =>
      rw [suffix_nil.mp ht] at hm
      exact .inl hm
    | cons c s =>
      rcases suffix_cons_iff.mp ht with rfl | ht'
      · exact .inl hm
      · exact .inr (hm.star_of ht')
  · rintro (h | h)
    · exact h.star_of (suffix_refl s)
    · exact leftOpen_star p (tail_suffix s) h

lemma matches_star_scan (hts : t <:+ s)
    (hleft : ∀ r, r <:+ s → t.length < r.length → ¬ Matches acc p r) :
    Matches acc (.star :: p) s ↔ Matches acc p t ∨ Matches acc (.star :: p) s.tail := by
  constructor
  · intro h
    rcases matches_star_tail.mp h with h | h
    · have hle : s.length ≤ t.length := by
        by_contra hlt
        exact hleft s (suffix_refl s) (by omega) h
      rw [hts.eq_of_length_le hle]
      exact .inl h
    · exact .inr h
  · rintro (h | h)
    · exact h.star_of hts
    · exact leftOpen_star p (tail_suffix s) h

@[simp] lemma matches_star_star :
    Matches acc (.star :: .star :: p) s ↔ Matches acc (.star :: p) s := by
  constructor
  · intro h
    obtain ⟨t, ht, h⟩ := matches_star.mp h
    exact leftOpen_star p ht h
  · exact fun h => h.star_of (suffix_refl s)

lemma matches_star_any :
    Matches acc (.star :: .any :: p) s ↔ Matches acc (.any :: .star :: p) s := by
  cases s with
  | nil => simp [matches_star]
  | cons c s =>
    simp only [matches_any_cons, matches_star]
    constructor
    · rintro ⟨t, ht, h⟩
      obtain _ | ⟨d, t⟩ := t
      · simp at h
      rw [matches_any_cons] at h
      refine ⟨t, ?_, h⟩
      rcases suffix_cons_iff.mp ht with he | hs
      · rw [(List.cons.inj he).2]
      · exact (suffix_cons d t).trans hs
    · rintro ⟨t, ⟨u, rfl⟩, h⟩
      rcases eq_nil_or_concat u with rfl | ⟨v, d, rfl⟩
      · exact ⟨c :: t, by simp, by simpa using h⟩
      · exact ⟨d :: t, ⟨c :: v, by simp⟩, by simpa using h⟩

/-! ### Star-free patterns -/

def StarFree (p : List (Tok β)) : Prop := Tok.star ∉ p

@[simp] lemma starFree_nil : StarFree ([] : List (Tok β)) := by simp [StarFree]

@[simp] lemma starFree_any : StarFree (.any :: p) ↔ StarFree p := by
  simp [StarFree]

@[simp] lemma starFree_lit : StarFree (.lit b :: p) ↔ StarFree p := by
  simp [StarFree]

@[simp] lemma not_starFree_star : ¬ StarFree (.star :: p) := by
  simp [StarFree]

@[simp] lemma starFree_append : StarFree (p ++ q) ↔ StarFree p ∧ StarFree q := by
  simp [StarFree]

lemma Matches.length_eq (h : Matches acc p s) (hp : StarFree p) : s.length = p.length := by
  induction h with
  | nil => rfl
  | any c _ ih | lit _ _ ih => simp [ih (by simpa using hp)]
  | star u _ _ => exact absurd hp not_starFree_star

lemma matches_append (hq : StarFree q) : Matches acc (q ++ p) s ↔
      Matches acc q (s.take q.length) ∧ Matches acc p (s.drop q.length) := by
  induction q generalizing s with
  | nil => simp
  | cons t q ih =>
    cases t with
    | star => exact absurd hq not_starFree_star
    | any => cases s <;> simp [ih (by simpa using hq)]
    | lit b => cases s <;> simp [ih (by simpa using hq), and_assoc]

lemma Matches.drop (hq : StarFree q) (h : Matches acc (q ++ p) s) :
    Matches acc p (s.drop q.length) :=
  ((matches_append hq).mp h).2

lemma drop_suffix_drop (h : t <:+ s) (k : ℕ) : t.drop k <:+ s.drop k := by
  refine suffix_of_suffix_length_le ((drop_suffix k t).trans h)
    (drop_suffix k s) ?_
  have hle := h.length_le
  rw [length_drop, length_drop]
  omega

/-- A match further to the right leaves less of the word to what follows a
star-free chunk; a left-open rest does not mind. -/
lemma Matches.chunk_mono (hq : StarFree q) (hp : LeftOpen acc p) (hts : t <:+ s)
    (h : Matches acc (q ++ p) t) : Matches acc p (s.drop q.length) :=
  hp (drop_suffix_drop hts _) (h.drop hq)

/-- **The greedy step**: let `q` be star-free and let `t` be a suffix of `s` at
which `q` matches, with no match further to the left. Then a match of
`*q*p` in `s` may put `q` at `t`. -/
theorem star_chunk_star (hq : StarFree q) (hts : t <:+ s) (hmatch : Matches acc q (t.take q.length))
    (hleft : ∀ r, r <:+ s → t.length < r.length → ¬ Matches acc (q ++ .star :: p) r) :
    Matches acc (.star :: (q ++ .star :: p)) s ↔ Matches acc (.star :: p) (t.drop q.length) := by
  constructor
  · intro h
    obtain ⟨r, hr, hm⟩ := matches_star.mp h
    have hle : r.length ≤ t.length := by
      by_contra hlt
      exact hleft r hr (by omega) hm
    exact hm.chunk_mono hq (leftOpen_star p) (suffix_of_suffix_length_le hr hts hle)
  · intro h
    exact ((matches_append hq).mpr ⟨hmatch, h⟩).star_of hts

/-! ### Patterns with the same words -/

variable (acc) in
def Same (p q : List (Tok β)) : Prop := ∀ s : List α, Matches acc p s ↔ Matches acc q s

lemma Same.refl (p) : Same acc p p := fun _ => Iff.rfl

lemma Same.trans {r} (h : Same acc p q) (h' : Same acc q r) : Same acc p r :=
  fun s => (h s).trans (h' s)

lemma Same.append_left (h : Same acc p q) (r : List (Tok β)) : Same acc (r ++ p) (r ++ q) := by
  intro s
  simp only [matches_append_iff, h _]

/-! ### Both ends of a word -/

/-- The letters a single item takes. -/
def Tok.Accepts (acc : β → α → Bool) : Tok β → α → Prop
  | .star, _ => False
  | .any, _ => True
  | .lit b, c => acc b c = true

lemma matches_iff_forall₂ (hq : StarFree q) (s) :
    Matches acc q s ↔ List.Forall₂ (Tok.Accepts acc) q s := by
  induction q generalizing s with
  | nil => simp
  | cons t q ih =>
    cases t with
    | star => exact absurd hq not_starFree_star
    | any | lit b => cases s <;> simp [Tok.Accepts, ih (by simpa using hq)]

/-- The number of letters a pattern needs: its items other than stars. -/
def needed (p : List (Tok β)) : ℕ := (p.filter (fun t => t matches .any | .lit _)).length

lemma Matches.needed_le (h : Matches acc p s) : needed p ≤ s.length := by
  induction h with
  | nil => simp [needed]
  | any c _ ih | lit _ _ ih => simpa [needed] using ih
  | star u _ ih =>
    simp only [needed, length_append] at ih ⊢
    simp
    omega

lemma needed_append (p q : List (Tok β)) : needed (p ++ q) = needed p + needed q := by
  simp [needed]

lemma StarFree.needed_eq (h : StarFree p) : needed p = p.length := by
  induction p with
  | nil => rfl
  | cons x p ih =>
    cases x with
    | star => exact absurd h not_starFree_star
    | any | lit b => simpa [needed] using ih (by simpa using h)

/-! ### The first chunk of a pattern -/

def Tok.isWild : Tok β → Bool
  | .lit _ => false
  | _ => true

/-- A pattern up to its first star, with the wildcards behind that. -/
def chunk : List (Tok β) → List (Tok β)
  | [] => []
  | .star :: p => .star :: p.takeWhile Tok.isWild
  | .any :: p => .any :: chunk p
  | .lit b :: p => .lit b :: chunk p

lemma chunk_append (hq : StarFree q) (p) : chunk (q ++ p) = q ++ chunk p := by
  induction q with
  | nil => rfl
  | cons x q ih =>
    cases x with
    | star => exact absurd hq not_starFree_star
    | any | lit b => simp [chunk, ih (by simpa using hq)]

lemma needed_takeWhile_le (p : List (Tok β)) :
    needed (p.takeWhile Tok.isWild) ≤ needed (chunk p) := by
  induction p with
  | nil => exact le_rfl
  | cons x p ih =>
    cases x with
    | star => exact le_rfl
    | any =>
      rw [takeWhile_cons_of_pos rfl]
      simpa [needed, chunk] using ih
    | lit b => exact Nat.zero_le _

/-- A star and more wildcards match every word that is long enough. -/
lemma matches_star_wild (hw : ∀ x ∈ w, x.isWild = true) :
    Matches acc (.star :: w) s ↔ needed w ≤ s.length := by
  induction w generalizing s with
  | nil => exact ⟨fun _ => Nat.zero_le _, fun _ => matches_star.mpr ⟨[], nil_suffix, .nil⟩⟩
  | cons x w ih =>
    have ih := fun s => @ih s fun y hy => hw y (mem_cons_of_mem x hy)
    cases x with
    | star => simpa [needed] using ih s
    | any =>
      rw [matches_star_any]
      cases s with
      | nil => simp [needed]
      | cons c s => simpa [needed] using ih s
    | lit b => exact absurd (hw _ mem_cons_self) (by simp [Tok.isWild])

lemma Matches.chunk (h : Matches acc p s) : Matches acc (chunk p) s := by
  induction h with
  | nil => exact .nil
  | any c _ ih => exact .any c ih
  | lit hb _ ih => exact .lit hb ih
  | @star p s u h =>
    refine (matches_star_wild (all_eq_true.mp all_takeWhile)).mpr ?_
    have hle := h.needed_le
    have hsplit := congrArg needed (p.takeWhile_append_dropWhile (p := Tok.isWild))
    rw [needed_append] at hsplit
    rw [length_append]
    omega

variable (acc) in
/-- Letters may be put behind the word. -/
def RightOpen (p : List (Tok β)) : Prop := ∀ ⦃s⦄ t, Matches acc p s → Matches acc p (s ++ t)

lemma RightOpen.append (hq : RightOpen acc q) (p) : RightOpen acc (p ++ q) := by
  intro s t h
  obtain ⟨u, v, rfl, hu, hv⟩ := matches_append_iff.mp h
  exact matches_append_iff.mpr ⟨u, v ++ t, append_assoc u v t, hu, hq t hv⟩

lemma rightOpen_chunk (hp : ¬ StarFree p) : RightOpen acc (chunk p) := by
  induction p with
  | nil => exact absurd starFree_nil hp
  | cons x p ih =>
    cases x with
    | star =>
      intro s t h
      rw [Glob.chunk, matches_star_wild (all_eq_true.mp all_takeWhile)] at h ⊢
      rw [length_append]
      omega
    | any => exact (ih (by simpa using hp)).append [.any]
    | lit b => exact (ih (by simpa using hp)).append [.lit b]

/-! ### Runs of wildcards -/

section Run

variable (hw : ∀ x ∈ w, x.isWild = true)
include hw

lemma matches_wild (hs : s.length = needed w) : Matches acc w s := by
  induction w generalizing s with
  | nil => exact length_eq_zero_iff.mp hs ▸ .nil
  | cons x w ih =>
    have ih := fun s => @ih s fun y hy => hw y (mem_cons_of_mem x hy)
    cases x with
    | star => exact .star [] (ih s hs)
    | any =>
      cases s with
      | nil => simp [needed] at hs
      | cons c s => exact .any c (ih s (by simpa [needed] using hs))
    | lit b => exact absurd (hw _ mem_cons_self) (by simp [Tok.isWild])

lemma leftOpen_run (hstar : .star ∈ w) (p) : LeftOpen acc (w ++ p) := by
  induction w with
  | nil => cases hstar
  | cons x w ih =>
    cases x with
    | star => exact leftOpen_star _
    | any => exact (ih (fun y hy => hw y (mem_cons_of_mem _ hy)) (by simpa using hstar)).any
    | lit b => exact absurd (hw _ mem_cons_self) (by simp [Tok.isWild])

lemma matches_star_run (hs : s.length = needed w) (p t) :
    Matches acc (.star :: (w ++ p)) (s ++ t) ↔ Matches acc (.star :: p) t := by
  induction w generalizing s with
  | nil => rw [length_eq_zero_iff.mp hs]; rfl
  | cons x w ih =>
    have ih := fun s => @ih s fun y hy => hw y (mem_cons_of_mem x hy)
    cases x with
    | star => simpa using ih s hs
    | any =>
      cases s with
      | nil => simp [needed] at hs
      | cons c s => simpa [matches_star_any] using ih s (by simpa [needed] using hs)
    | lit b => exact absurd (hw _ mem_cons_self) (by simp [Tok.isWild])

/-- A run of wildcards with a star in it takes one letter for each other item, and is left open. -/
lemma matches_run (hstar : .star ∈ w) (hs : s.length = needed w) (p t) :
    Matches acc (w ++ p) (s ++ t) ↔ Matches acc (.star :: p) t := by
  induction w generalizing s with
  | nil => cases hstar
  | cons x w ih =>
    have htail := fun y hy => hw y (mem_cons_of_mem x hy)
    cases x with
    | star => exact matches_star_run htail hs p t
    | any =>
      cases s with
      | nil => simp [needed] at hs
      | cons c s => simpa using ih htail (by simpa using hstar) (by simpa [needed] using hs)
    | lit b => exact absurd (hw _ mem_cons_self) (by simp [Tok.isWild])

lemma chunk_run (hstar : .star ∈ w) (hp : ∀ x q, p = x :: q → x.isWild = false) :
    chunk (w ++ p) = w := by
  induction w with
  | nil => cases hstar
  | cons x w ih =>
    have htail := fun y hy => hw y (mem_cons_of_mem x hy)
    cases x with
    | star =>
      have hnil : p.takeWhile Tok.isWild = [] := by
        cases p with
        | nil => rfl
        | cons x q => exact takeWhile_cons_of_neg (by simp [hp x q rfl])
      rw [cons_append, chunk, takeWhile_append_of_pos htail, hnil, append_nil]
    | any => rw [cons_append, chunk, ih htail (by simpa using hstar)]
    | lit b => exact absurd (hw _ mem_cons_self) (by simp [Tok.isWild])

end Run

/-! ### The shortest beginning of a word -/

variable (acc) in
/-- `n` is what is left of the word `s` behind its shortest beginning that `p` matches. -/
def Starts (p : List (Tok β)) (s n : List α) : Prop :=
  ∃ u, s = u ++ n ∧ Matches acc p u ∧ ∀ v, v <+: s → Matches acc p v → u.length ≤ v.length

/-- **The next star.** The pattern goes on with a chunk `k`, and `a` is its leftmost place. -/
lemma Starts.next {n n' a k} (h : Starts acc p s n) (hsuf : a ++ n' <:+ n)
    (hopen : RightOpen acc p ∨ a ++ n' = n) (hk : RightOpen acc k) (ha : Matches acc k a)
    (hlen : a.length = needed k)
    (hmissed : ∀ r, r <:+ n → (a ++ n').length < r.length → ¬ Matches acc k r) :
    Starts acc (p ++ k) s n' := by
  obtain ⟨u, rfl, hu, hmin⟩ := h
  obtain ⟨b, rfl⟩ := hsuf
  refine ⟨u ++ b ++ a, by simp, matches_append_iff.mpr ⟨u ++ b, a, rfl, ?_, ha⟩, ?_⟩
  · rcases hopen with hopen | hb
    · exact hopen b hu
    · rw [self_eq_append_left.mp hb, append_nil]
      exact hu
  rintro v ⟨z, hz⟩ hv
  obtain ⟨c, e, rfl, hc, he⟩ := matches_append_iff.mp hv
  have hc' := hmin c ⟨e ++ z, by rw [← append_assoc, hz]⟩ hc
  -- the chunk has its place at `e`, which is not before `a`
  have hlens := congrArg length hz
  simp only [length_append] at hlens
  have hr : e ++ z <:+ b ++ (a ++ n') :=
    suffix_of_suffix_length_le ⟨c, (append_assoc c e z).symm.trans hz⟩ (suffix_append u _)
      (by simp only [length_append]; omega)
  have hle := not_lt.mp fun hlt => hmissed _ hr hlt (hk z he)
  have hneed := he.needed_le
  simp only [length_append] at hle ⊢
  omega

end Glob
