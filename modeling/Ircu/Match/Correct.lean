import Ircu.Match.Basic

/-!
`match` against the reference semantics of masks.

The invariant of the loop (`MatchInv`) is that the name matches the mask if and
only if what is left of the mask matches what is left of the name, or the mask
from the saved position matches some later suffix of the name. Forgetting the
earlier stars is sound because a run of wildcards with a star in it is left
open, so a later place for the chunk before it is never better than the one
already found. That place is the leftmost one (`Attempt`).

The saved position is the first character after the star. When that character
is escaped, `m_tmp` is left behind its backslash, and a backtrack reads it
again without the backslash. `Boundary` are the positions of a mask at which a
reading may start; `Reading` adds the escaped characters that read the same with
and without their backslash (`Harmless`).

* `MatchInv.turn`: one turn keeps the invariant, as long as the first attempt
  behind a star with such an escape succeeds (`FirstFits`).
* `match_noEscape` and `match_escape`: `match` decides `MaskMatches`.
-/

namespace Ircu

open Glob List MatchAct MatchState

/-! ### Reading a mask -/

lemma maskToks_escape (d : UInt8) (m) :
    maskToks (ch '\\' :: d :: m) = .lit (.exact d) :: maskToks m := by
  simp [maskToks]

lemma maskToks_star (m) : maskToks (ch '*' :: m) = .star :: maskToks m := by
  rw [maskToks.eq_def]
  exact if_neg (by decide)

lemma maskToks_any (m) : maskToks (ch '?' :: m) = .any :: maskToks m := by
  rw [maskToks.eq_def]
  exact if_neg (by decide)

variable {c : UInt8}

lemma maskToks_plain (h1 : c ≠ ch '\\') (h2 : c ≠ ch '*') (h3 : c ≠ ch '?') (m) :
    maskToks (c :: m) = .lit (.plain c) :: maskToks m := by
  rw [maskToks.eq_def]
  simp only [if_neg h1, if_neg h2, if_neg h3]

lemma wellEscaped_plain (hc : c ≠ ch '\\') (m) : wellEscaped (c :: m) = wellEscaped m := by
  rw [wellEscaped.eq_def]
  simp only [if_neg hc]

/-- `Boundary mask m`: the suffix `m` of the mask begins where an item of the
mask begins, not inside an escape. -/
inductive Boundary : List UInt8 → List UInt8 → Prop
  | refl (m) : Boundary m m
  | plain {c m m'} : c ≠ ch '\\' → Boundary m m' → Boundary (c :: m) m'
  | esc {d m m'} : Boundary m m' → Boundary (ch '\\' :: d :: m) m'

namespace Boundary

variable {m mask : List UInt8}

lemma suffix (h : Boundary mask m) : m <:+ mask := by
  induction h with
  | refl => exact suffix_refl _
  | plain _ _ ih => exact ih.trans (suffix_cons _ _)
  | esc _ ih => exact ih.trans ((suffix_cons _ _).trans (suffix_cons _ _))

lemma length_le (h : Boundary mask m) : m.length ≤ mask.length :=
  h.suffix.length_le

lemma trans {m'} (h : Boundary mask m) (h' : Boundary m m') : Boundary mask m' := by
  induction h with
  | refl => exact h'
  | plain hc _ ih => exact .plain hc (ih h')
  | esc _ ih => exact .esc (ih h')

lemma tail {c} (h : Boundary mask (c :: m)) (hc : c ≠ ch '\\') : Boundary mask m :=
  h.trans (.plain hc (.refl m))

lemma tail_esc {d} (h : Boundary mask (ch '\\' :: d :: m)) : Boundary mask m :=
  h.trans (.esc (.refl m))

lemma escaped (h : Boundary mask m) (hw : wellEscaped mask) : wellEscaped m := by
  induction h with
  | refl => exact hw
  | plain hc _ ih => exact ih (by rwa [wellEscaped_plain hc] at hw)
  | esc _ ih => exact ih (by simpa [wellEscaped] using hw)

end Boundary

/-- A character that reads the same with and without a backslash in front of
it: neither special nor equal to another character up to case. -/
def Harmless (c : UInt8) : Prop :=
  c ≠ ch '*' ∧ c ≠ ch '?' ∧ c ≠ ch '\\' ∧ ∀ x, toLower c = toLower x → c = x

lemma Harmless.accepts (h : Harmless c) (x : UInt8) :
    Lit.accepts (.plain c) x = Lit.accepts (.exact c) x := by
  rw [Bool.eq_iff_iff]
  simp only [Lit.accepts, beq_iff_eq]
  exact ⟨h.2.2.2 x, fun hx => by rw [hx]⟩

/-- What a position of the mask reads as: the items from there on, also at an
escaped character that does not need its backslash. -/
def Reading (mask m : List UInt8) (R : List (Tok Lit)) : Prop :=
  Boundary mask m ∧ R = maskToks m ∨
    ∃ d r, m = d :: r ∧ Harmless d ∧ Boundary mask r ∧ R = .lit (.exact d) :: maskToks r

variable {m mask : List UInt8} {R : List (Tok Lit)}

lemma Reading.nil (h : Reading mask [] R) : R = [] := by
  obtain ⟨-, rfl⟩ | ⟨d, r, hd, -⟩ := h
  · rfl
  · cases hd

lemma Reading.special (h : Reading mask (c :: m) R) (hc : c = ch '\\' ∨ c = ch '*' ∨ c = ch '?') :
    Boundary mask (c :: m) ∧ R = maskToks (c :: m) := by
  obtain hb | ⟨d, r, hd, hh, -⟩ := h
  · exact hb
  obtain ⟨rfl, rfl⟩ := List.cons.inj hd
  obtain rfl | rfl | rfl := hc
  · exact absurd rfl hh.2.2.1
  · exact absurd rfl hh.1
  · exact absurd rfl hh.2.1

lemma Reading.plain (h : Reading mask (c :: m) R) (h1 : c ≠ ch '\\') (h2 : c ≠ ch '*')
    (h3 : c ≠ ch '?') : Boundary mask m ∧ ∃ b, R = .lit b :: maskToks m ∧
      ∀ x, b.accepts x = Lit.accepts (.plain c) x := by
  obtain ⟨hb, rfl⟩ | ⟨d, r, hd, hh, hb, rfl⟩ := h
  · exact ⟨hb.tail h1, _, maskToks_plain h1 h2 h3 m, fun _ => rfl⟩
  · obtain ⟨rfl, rfl⟩ := List.cons.inj hd
    exact ⟨hb, _, rfl, fun x => (hh.accepts x).symm⟩

/-! ### A run of wildcards -/

lemma wildRun_star (m n) (sp : Bool) : wildRun (ch '*' :: m) n sp = wildRun m n true := by
  exact if_pos rfl

lemma wildRun_any_nil (m) (sp : Bool) : wildRun (ch '?' :: m) [] sp = none := by
  exact if_neg (by decide)

lemma wildRun_any_cons (m n) (x : UInt8) (sp : Bool) :
    wildRun (ch '?' :: m) (x :: n) sp = wildRun m n sp := by
  exact if_neg (by decide)

lemma wildRun_other (h1 : c ≠ ch '*') (h2 : c ≠ ch '?') (m n) (sp : Bool) :
    wildRun (c :: m) n sp = some (c :: m, n, sp) := by
  rw [wildRun.eq_def]
  simp only [if_neg h1, if_neg h2]

/-- What the loop over a run of wildcards does: it takes one character for each
`?` of the run, and there is no result if there are not enough of them. -/
lemma wildRun_spec (m n : List UInt8) (sp : Bool) :
    match wildRun m n sp with
    | none => n.length < needed ((maskToks m).takeWhile Tok.isWild)
    | some (m', n', sp') => ∃ run x, maskToks m = run ++ maskToks m' ∧
        (∀ t ∈ run, t.isWild = true) ∧ n = x ++ n' ∧ x.length = needed run ∧
        (sp' = true ↔ sp = true ∨ .star ∈ run) ∧ Boundary m m' ∧
        ∀ c r, m' = c :: r → c ≠ ch '*' ∧ c ≠ ch '?' := by
  induction m generalizing n sp with
  | nil => exact ⟨[], [], rfl, by simp, rfl, rfl, by simp, .refl _, by simp⟩
  | cons c m ih =>
    by_cases hstar : c = ch '*'
    · subst hstar
      have h := ih n true
      rw [wildRun_star, maskToks_star]
      revert h
      rcases wildRun m n true with _ | ⟨m', n', sp'⟩
      · exact id
      rintro ⟨run, x, htoks, hrun, rfl, hx, hsp, hb, hhead⟩
      refine ⟨.star :: run, x, by rw [htoks]; rfl, ?_, rfl, hx, ?_, .plain (by decide) hb, hhead⟩
      · simpa [Tok.isWild] using hrun
      · simp [hsp]
    by_cases hany : c = ch '?'
    · subst hany
      rw [maskToks_any]
      cases n with
      | nil =>
        rw [wildRun_any_nil, takeWhile_cons_of_pos rfl]
        simp [needed]
      | cons y n =>
        have h := ih n sp
        rw [wildRun_any_cons]
        revert h
        rcases wildRun m n sp with _ | ⟨m', n', sp'⟩
        · intro h
          rw [takeWhile_cons_of_pos rfl]
          simpa [needed] using h
        rintro ⟨run, x, htoks, hrun, rfl, hx, hsp, hb, hhead⟩
        refine ⟨.any :: run, y :: x, by rw [htoks]; rfl, ?_, rfl, ?_, ?_, .plain (by decide) hb,
          hhead⟩
        · simpa [Tok.isWild] using hrun
        · simpa [needed] using hx
        · simpa using hsp
    · rw [wildRun_other hstar hany]
      refine ⟨[], [], rfl, by simp, rfl, rfl, by simp, .refl _, ?_⟩
      rintro d r ⟨⟩
      exact ⟨hstar, hany⟩

/-! ### The invariant of the loop -/

/-- Behind each star, the first occurrence of an escaped character that needs
its backslash begins a match of the mask up to the next run of wildcards with a
star. The search begins behind the shortest beginning of the name that the mask
in front of the escape matches. -/
def FirstFits (mask name : List UInt8) : Prop :=
  ∀ p w d q, maskToks mask = p ++ .star :: w ++ .lit (.exact d) :: q → (∀ t ∈ w, t = .any) →
    ¬ Harmless d → ∀ n n', Starts Lit.accepts (p ++ .star :: w) name n →
      n.dropWhile (· ≠ d) = d :: n' → Matches Lit.accepts (chunk q) n'

/-- The current attempt: `p` is the mask in front of it, and it may begin in
`start`. It began at `t`, has matched `q` since then and is about to read `R`.
The chunk that it looks for has no place before `t`. -/
structure Attempt (mask name : List UInt8) (st : MatchState) where
  p : List (Tok Lit)
  q : List (Tok Lit)
  R : List (Tok Lit)
  start : List UInt8
  t : List UInt8
  reads : Reading mask st.m R
  toks : maskToks mask = p ++ (q ++ R)
  free : StarFree q
  done : ∃ a, t = a ++ st.n ∧ Matches Lit.accepts q a
  begins : t <:+ start
  starts : Starts Lit.accepts p name start
  opened : RightOpen Lit.accepts p ∨ t = start
  missed : ∀ r, r <:+ start → t.length < r.length → ¬ Matches Lit.accepts (chunk (q ++ R)) r

variable {name : List UInt8} {st : MatchState}

/-- The saved position, once there is one: the pattern may be read from there
again, or it will not have to be. -/
structure Saved (a : Attempt mask name st) : Prop where
  lt : st.mTmp.length < mask.length
  first : ∃ b P, a.q ++ a.R = .lit b :: P
  opened : RightOpen Lit.accepts a.p
  tmp : st.nTmp <:+ a.start
  begins : a.t <:+ st.nTmp
  again : Reading mask st.mTmp (a.q ++ a.R) ∨ Matches Lit.accepts (chunk (a.q ++ a.R)) a.t

structure MatchInv (mask name : List UInt8) (st : MatchState) : Prop where
  suf : st.n <:+ st.nTmp
  live : ∃ a : Attempt mask name st,
    (st.mTmp.length = mask.length ∧ (MaskMatches mask name ↔ Matches Lit.accepts a.R st.n)) ∨
    (Saved a ∧ (MaskMatches mask name ↔ Matches Lit.accepts a.R st.n ∨
      Matches Lit.accepts (.star :: (a.q ++ a.R)) st.nTmp.tail))

/-- The measure of the loop: each turn shortens `n_tmp`, or keeps it and
shortens `m`. -/
def MatchState.weight (mask : List UInt8) (st : MatchState) : ℕ :=
  st.nTmp.length * (mask.length + 1) + st.m.length

/-- A turn that returns gives the right answer, and one that goes on keeps the
invariant and loses weight. -/
def TurnOk (mask name : List UInt8) (st : MatchState) : MatchAct → Prop
  | .ret r => r = 0 ↔ MaskMatches mask name
  | .next st' => MatchInv mask name st' ∧ st'.weight mask < st.weight mask
  | _ => False

lemma matchInv_init (mask name) : MatchInv mask name ⟨mask, name, mask, name⟩ where
  suf := suffix_refl name
  live := by
    refine ⟨⟨[], [], maskToks mask, name, name, .inl ⟨.refl mask, rfl⟩, rfl, by simp,
      ⟨[], rfl, .nil⟩, suffix_refl name, ⟨[], rfl, .nil, fun _ _ _ => Nat.zero_le _⟩, .inr rfl,
      fun r hr hlt => absurd hr.length_le hlt.not_ge⟩, .inl ⟨rfl, Iff.rfl⟩⟩

namespace Attempt

/-- What the chunk still has to match, it matches where the name is now. -/
lemma chunk_rest (a : Attempt mask name st) (h : Matches Lit.accepts (chunk (a.q ++ a.R)) a.t) :
    Matches Lit.accepts (chunk a.R) st.n := by
  obtain ⟨x, ht, hx⟩ := a.done
  rw [chunk_append a.free, ht] at h
  have hd := h.drop a.free
  rwa [← hx.length_eq a.free, drop_left] at hd

/-- No later match of the pattern begins before the current attempt. -/
lemma later (a : Attempt mask name st) {r} (hr : r <:+ a.start)
    (hm : Matches Lit.accepts (a.q ++ a.R) r) : r <:+ a.t := by
  refine suffix_of_suffix_length_le hr a.begins (not_lt.mp fun hlt => ?_)
  exact a.missed r hr hlt hm.chunk

end Attempt

namespace MatchInv

/-- The jump to `backtrack` after the current attempt has failed. -/
lemma back (h : MatchInv mask name st)
    (hfail : ∀ a : Attempt mask name st, ¬ Matches Lit.accepts (chunk a.R) st.n) :
    TurnOk mask name st (backtrack mask st) := by
  obtain ⟨a, ⟨hno, hiff⟩ | ⟨hs, hiff⟩⟩ := h.live
  · rw [backtrack, if_pos hno]
    simp only [TurnOk, one_ne_zero, false_iff, hiff]
    exact fun hm => hfail a hm.chunk
  have hlt := hs.lt
  rw [backtrack, if_neg (by omega)]
  have hiff' : MaskMatches mask name ↔
      Matches Lit.accepts (.star :: (a.q ++ a.R)) st.nTmp.tail :=
    hiff.trans (or_iff_right fun hm => hfail a hm.chunk)
  by_cases htl : st.nTmp.tail = []
  · rw [if_pos htl]
    obtain ⟨b, P, hP⟩ := hs.first
    rw [htl, hP] at hiff'
    simp [TurnOk, hiff', matches_star]
  rw [if_neg htl]
  have hunfit := fun hm => hfail a (a.chunk_rest hm)
  have hsuf : st.nTmp.tail <:+ a.start := (tail_suffix _).trans hs.tmp
  have hpos : 0 < st.nTmp.length := by
    have := length_pos_of_ne_nil htl
    rw [length_tail] at this
    omega
  refine ⟨⟨suffix_refl _, ⟨⟨a.p, [], a.q ++ a.R, a.start, st.nTmp.tail,
    hs.again.resolve_right hunfit, a.toks, starFree_nil, ⟨[], rfl, .nil⟩, hsuf, a.starts,
    .inl hs.opened, fun r hr hlen => ?_⟩,
    .inr ⟨⟨hlt, hs.first, hs.opened, hsuf, suffix_refl _,
      .inl (hs.again.resolve_right hunfit)⟩, ?_⟩⟩⟩, ?_⟩
  · rcases lt_or_ge a.t.length r.length with hbefore | hle
    · exact a.missed r hr hbefore
    -- then `r` is where the attempt that has failed began
    have htle := hs.begins.length_le
    rw [length_tail] at hlen
    have heq : r = a.t :=
      (suffix_of_suffix_length_le hr a.begins hle).eq_of_length (by omega)
    exact heq ▸ hunfit
  · rw [hiff', matches_star_tail]
    rfl
  · simp only [weight, length_tail]
    have hmul : st.nTmp.length * (mask.length + 1)
        = (st.nTmp.length - 1) * (mask.length + 1) + (mask.length + 1) := by
      conv_lhs => rw [show st.nTmp.length = st.nTmp.length - 1 + 1 by omega]
      ring
    omega

/-- A turn that takes some items without a star, which match. -/
lemma advance (h : MatchInv mask name st) {m'} (x n' : List UInt8) (hn : st.n = x ++ n')
    (hitems : ∀ a : Attempt mask name st, ∃ e R, a.R = e ++ R ∧ StarFree e ∧
      Matches Lit.accepts e x ∧ Reading mask m' R)
    (hlt : m'.length < st.m.length) : TurnOk mask name st (.next { st with m := m', n := n' }) := by
  refine ⟨⟨(hn ▸ suffix_append x n').trans h.suf, ?_⟩, by simp only [weight]; omega⟩
  obtain ⟨a, hlive⟩ := h.live
  obtain ⟨e, R, hR, he, hx, hread⟩ := hitems a
  have hiff : Matches Lit.accepts a.R st.n ↔ Matches Lit.accepts R n' := by
    rw [hR, hn, matches_append he, ← hx.length_eq he, take_left, drop_left]
    exact and_iff_right hx
  have hq : a.q ++ e ++ R = a.q ++ a.R := by rw [hR, append_assoc]
  obtain ⟨u, ht, hu⟩ := a.done
  refine ⟨⟨a.p, a.q ++ e, R, a.start, a.t, hread, by rw [hq]; exact a.toks,
    starFree_append.mpr ⟨a.free, he⟩, ⟨u ++ x, by rw [ht, hn, append_assoc],
    matches_append_iff.mpr ⟨u, x, rfl, hu, hx⟩⟩, a.begins, a.starts, a.opened,
    hq ▸ a.missed⟩, ?_⟩
  obtain ⟨hno, hl⟩ | ⟨hs, hl⟩ := hlive
  · exact .inl ⟨hno, hl.trans hiff⟩
  · have hfirst := hs.first
    have hagain := hs.again
    rw [← hq] at hfirst hagain hl
    exact .inr ⟨⟨hs.lt, hfirst, hs.opened, hs.tmp, hs.begins, hagain⟩,
      hl.trans (or_congr_left hiff)⟩

/-- Forgetting the earlier star: when the rest of the pattern is left open, a
match from the saved position on is already one of the current attempt. -/
lemma forget (a : Attempt mask name st) (hopen : LeftOpen Lit.accepts a.R)
    (hlive : (st.mTmp.length = mask.length ∧
        (MaskMatches mask name ↔ Matches Lit.accepts a.R st.n)) ∨
      (Saved a ∧ (MaskMatches mask name ↔ Matches Lit.accepts a.R st.n ∨
        Matches Lit.accepts (.star :: (a.q ++ a.R)) st.nTmp.tail))) :
    MaskMatches mask name ↔ Matches Lit.accepts a.R st.n := by
  obtain ⟨_, hl⟩ | ⟨hs, hl⟩ := hlive
  · exact hl
  rw [hl, or_iff_left_iff_imp]
  intro hstar
  obtain ⟨r, hr, hm⟩ := matches_star.mp hstar
  have hrt : r <:+ a.t := a.later (hr.trans ((tail_suffix _).trans hs.tmp)) hm
  have hd := hm.chunk_mono a.free hopen hrt
  obtain ⟨u, ht, hu⟩ := a.done
  rwa [ht, ← hu.length_eq a.free, drop_left] at hd

lemma ret_at_end (h : MatchInv mask name st) (hn : st.n = [])
    (hlit : ∀ a : Attempt mask name st, ∃ b p, a.R = .lit b :: p) : ¬ MaskMatches mask name := by
  obtain ⟨a, hlive⟩ := h.live
  obtain ⟨b, p, hb⟩ := hlit a
  obtain ⟨_, hl⟩ | ⟨hs, hl⟩ := hlive
  · rw [hl, hb, hn]
    exact not_matches_lit_nil
  rw [hl, hb, hn, not_or]
  refine ⟨not_matches_lit_nil, fun hstar => ?_⟩
  obtain ⟨r, hr, hm⟩ := matches_star.mp hstar
  rw [← hb] at hm
  have hle := (a.later (hr.trans ((tail_suffix _).trans hs.tmp)) hm).length_le
  obtain ⟨u, ht, hu⟩ := a.done
  have hd := hm.drop a.free
  rw [hn, append_nil] at ht
  rw [drop_eq_nil_of_le (by rw [ht, hu.length_eq a.free] at hle; exact hle), hb] at hd
  exact not_matches_lit_nil hd

lemma not_matches_before {f n r b p} (hf : ∀ x, f x = true → Lit.accepts b x = false) (hr : r <:+ n)
    (hlen : (n.dropWhile f).length < r.length) : ¬ Matches Lit.accepts (.lit b :: p) r := by
  induction n with
  | nil =>
    rw [suffix_nil.mp hr] at hlen
    simp at hlen
  | cons x n ih =>
    by_cases hx : f x = true
    · rw [dropWhile_cons_of_pos hx] at hlen
      rcases suffix_cons_iff.mp hr with rfl | hr'
      · simp [hf x hx]
      · exact ih hr' hlen
    · rw [dropWhile_cons_of_neg hx] at hlen
      exact absurd hr.length_le (by omega)

/-- A star was met: what is left of the mask behind the wild tokens, and what is left of the
name. -/
structure Starred (mask name : List UInt8) (st : MatchState) (m n : List UInt8) : Prop where
  bound : Boundary mask m
  lt : m.length < st.m.length
  le : st.m.length ≤ mask.length
  suf : n <:+ st.nTmp
  split : ∃ p w, maskToks mask = p ++ .star :: w ++ maskToks m ∧ (∀ t ∈ w, t = .any) ∧
    RightOpen Lit.accepts (p ++ .star :: w) ∧ Starts Lit.accepts (p ++ .star :: w) name n
  iff : MaskMatches mask name ↔ Matches Lit.accepts (.star :: maskToks m) n

lemma Starred.escape {d m n} (h : Starred mask name st (ch '\\' :: d :: m) n)
    (hfits : FirstFits mask name) :
    TurnOk mask name st (Ircu.afterStar (ch '\\' :: d :: m) n) := by
  obtain ⟨hb, hlt, hmle, hn, ⟨p, w, htoks, hany, hopen, hstarts⟩, hiff⟩ := h
  have hnl := hn.length_le
  have hmul := Nat.mul_le_mul_right (mask.length + 1) hnl
  have hble := hb.length_le
  rw [maskToks_escape] at hiff htoks
  have hleft : ∀ P r, r <:+ n → (n.dropWhile (· ≠ d)).length < r.length →
      ¬ Matches Lit.accepts (.lit (.exact d) :: P) r := fun P r hr hlen =>
    not_matches_before (by simpa [Lit.accepts] using fun x hx => Ne.symm hx) hr hlen
  have hsuf : n.dropWhile (· ≠ d) <:+ n := dropWhile_suffix _
  rw [matches_star_scan hsuf (hleft _)] at hiff
  have hfit := hfits p w d (maskToks m) htoks hany
  simp only [Ircu.afterStar, if_pos]
  cases ht : n.dropWhile (· ≠ d) with
  | nil =>
    rw [ht] at hiff hleft
    simp only [TurnOk, one_ne_zero, false_iff, hiff, not_or]
    refine ⟨not_matches_lit_nil, fun hstar => ?_⟩
    obtain ⟨r, hr, hm⟩ := matches_star.mp hstar
    have hr0 : r = [] := by
      by_contra hne'
      exact hleft _ r (hr.trans (tail_suffix n)) (length_pos_of_ne_nil hne') hm
    rw [hr0] at hm
    exact not_matches_lit_nil hm
  | cons x n' =>
    obtain rfl : x = d := by
      have := List.head?_dropWhile_not (· ≠ d) n
      rw [ht] at this
      simpa using this
    rw [ht] at hiff hleft hsuf
    simp only [length_cons] at hble hlt
    refine ⟨⟨(suffix_cons x n').trans hsuf,
      ⟨p ++ .star :: w, [.lit (.exact x)], maskToks m, n, x :: n', .inl ⟨hb.tail_esc, rfl⟩,
        htoks, by simp, ⟨[x], rfl, .lit (by simp [Lit.accepts]) .nil⟩, hsuf, hstarts,
        .inl hopen, hleft _⟩,
      .inr ⟨⟨?_, ⟨_, _, rfl⟩, hopen, suffix_refl n, hsuf, ?_⟩, ?_⟩⟩, ?_⟩
    · simp only [length_cons]
      omega
    · by_cases hx : Harmless x
      · exact .inl (.inr ⟨x, m, rfl, hx, hb.tail_esc, rfl⟩)
      · exact .inr (.lit (by simp [Lit.accepts]) (hfit hx n n' hstarts ht))
    · rw [hiff]
      simp [Lit.accepts]
    · simp only [weight]
      omega

lemma Starred.plain {c m n} (h : Starred mask name st (c :: m) n) (hc : c ≠ ch '\\')
    (hc1 : c ≠ ch '*') (hc2 : c ≠ ch '?') : TurnOk mask name st (Ircu.afterStar (c :: m) n) := by
  obtain ⟨hb, hlt, hmle, hn, ⟨p, w, htoks, -, hopen, hstarts⟩, hiff⟩ := h
  have hnl := hn.length_le
  have hmul := Nat.mul_le_mul_right (mask.length + 1) hnl
  have hble := hb.length_le
  have hlit := maskToks_plain hc hc1 hc2 m
  have hleft : ∀ P r, r <:+ n →
      (n.dropWhile (fun x => toLower x ≠ toLower c)).length < r.length →
      ¬ Matches Lit.accepts (.lit (.plain c) :: P) r := fun P r hr hlen =>
    not_matches_before (by simpa [Lit.accepts] using fun x hx => Ne.symm hx) hr hlen
  have hsuf : n.dropWhile (fun x => toLower x ≠ toLower c) <:+ n := dropWhile_suffix _
  rw [hlit, matches_star_scan hsuf (hleft _), ← hlit] at hiff
  simp only [Ircu.afterStar, if_neg hc]
  have hread : Reading mask (c :: m) (maskToks (c :: m)) := .inl ⟨hb, rfl⟩
  refine ⟨⟨hsuf, ⟨p ++ .star :: w, [], _, n, _, hread, htoks, by simp, ⟨[], rfl, .nil⟩, hsuf,
    hstarts, .inl hopen, by rw [hlit]; exact hleft _⟩, .inr ⟨⟨by simp only; omega, ⟨_, _, hlit⟩,
    hopen, suffix_refl n, hsuf, .inl hread⟩, hiff⟩⟩, ?_⟩
  simp only [weight]
  omega

/-- The turn that meets a star: a new saved position, from which the search
begins at the first character that can be the next one of the mask. -/
lemma Starred.turn {m n} (h : Starred mask name st m n) (hw : wellEscaped mask)
    (hfits : FirstFits mask name) (hne : ∀ c r, m = c :: r → c ≠ ch '*' ∧ c ≠ ch '?') :
    TurnOk mask name st (Ircu.afterStar m n) := by
  cases m with
  | nil =>
    have hiff := h.iff
    rw [maskToks] at hiff
    simp only [Ircu.afterStar, TurnOk, true_iff]
    exact hiff.mpr (matches_star.mpr ⟨[], nil_suffix, .nil⟩)
  | cons c m =>
    obtain ⟨hc1, hc2⟩ := hne c m rfl
    by_cases hc : c = ch '\\'
    · subst hc
      cases m with
      | nil => exact absurd (h.bound.escaped hw) (by simp [wellEscaped])
      | cons d m => exact h.escape hfits
    · exact h.plain hc hc1 hc2

/-- What stands behind the wild tokens is none. -/
lemma head_tok {m y p} (hb : Boundary mask m) (hw : wellEscaped mask)
    (hne : ∀ c r, m = c :: r → c ≠ ch '*' ∧ c ≠ ch '?') (hy : maskToks m = y :: p) :
    y.isWild = false := by
  cases m with
  | nil => cases hy
  | cons c r =>
    obtain ⟨h1, h2⟩ := hne c r rfl
    by_cases hc : c = ch '\\'
    · subst hc
      cases r with
      | nil => exact absurd (hb.escaped hw) (by simp [wellEscaped])
      | cons d r =>
        rw [maskToks_escape] at hy
        exact (List.cons.inj hy).1 ▸ rfl
    · rw [maskToks_plain hc h1 h2] at hy
      exact (List.cons.inj hy).1 ▸ rfl

/-- The last star of a run of wild tokens, and what stands behind it. -/
lemma exists_last_star {run : List (Tok Lit)} (hwild : ∀ t ∈ run, t.isWild = true)
    (hstar : .star ∈ run) : ∃ v w, run = v ++ .star :: w ∧ ∀ t ∈ w, t = .any := by
  obtain ⟨v, w, hvw, hlast⟩ := eq_append_cons_of_mem (mem_reverse.mpr hstar)
  refine ⟨w.reverse, v.reverse, ?_, fun t ht => ?_⟩
  · simpa using congrArg reverse hvw
  · have hmem : t ∈ run := mem_reverse.mp (hvw ▸ mem_append_left _ (mem_reverse.mp ht))
    cases t with
    | star => exact absurd (mem_reverse.mp ht) hlast
    | any => rfl
    | lit b => exact absurd (hwild _ hmem) (by simp [Tok.isWild])

section Turn

variable (hback : matchAct st = .back →
  (∀ a : Attempt mask name st, ¬ Matches Lit.accepts (chunk a.R) st.n) →
    TurnOk mask name st (matchStep mask st))
include hback

lemma turn_escape (h : MatchInv mask name st) (hw : wellEscaped mask) (hm : st.m = ch '\\' :: m) :
    TurnOk mask name st (matchStep mask st) := by
  have hread := fun a : Attempt mask name st => (hm ▸ a.reads).special (.inl rfl)
  obtain ⟨a, -⟩ := h.live
  have hb := (hread a).1
  cases m with
  | nil => exact absurd (hb.escaped hw) (by simp [wellEscaped])
  | cons d m =>
    have htoks : ∀ a : Attempt mask name st, a.R = .lit (.exact d) :: maskToks m := fun a => by
      rw [(hread a).2, maskToks_escape]
    cases hn : st.n with
    | nil =>
      refine hback (by rw [matchAct, hm, hn]; simp) fun a => ?_
      rw [htoks, hn]
      exact not_matches_lit_nil
    | cons x n =>
      by_cases hx : d = x
      · have ha : matchAct st = .next { st with m := m, n := n } := by
          rw [matchAct, hm, hn]
          simp [hx]
        rw [matchStep, ha]
        refine h.advance [x] n hn (fun a => ⟨[.lit (.exact d)], _, htoks a, by simp, .lit ?_ .nil,
          .inl ⟨hb.tail_esc, rfl⟩⟩) (by rw [hm]; simp only [length_cons]; omega)
        simp [Lit.accepts, hx]
      · refine hback (by rw [matchAct, hm, hn]; simp [hx]) fun a => ?_
        rw [htoks, hn]
        simp [chunk, Lit.accepts, hx]

lemma turn_wild (h : MatchInv mask name st) (hw : wellEscaped mask) (hfits : FirstFits mask name)
    {c} (hm : st.m = c :: m) (hc : c = ch '*' ∨ c = ch '?') :
    TurnOk mask name st (matchStep mask st) := by
  have hread := fun a : Attempt mask name st => (hm ▸ a.reads).special (.inr hc)
  obtain ⟨a, hlive⟩ := h.live
  have hb := (hread a).1
  have hR : ∀ a : Attempt mask name st, a.R = maskToks st.m := fun a => by rw [(hread a).2, hm]
  have hne : c ≠ ch '\\' := by
    rintro rfl
    exact absurd hc (by decide)
  have hact := matchAct_wild hm hne hc
  have hspec := wildRun_spec st.m st.n false
  rcases hrun : wildRun st.m st.n false with _ | ⟨m', n', sp⟩
  · rw [hrun] at hact hspec
    refine hback hact fun a hmatch => ?_
    have hle := hmatch.needed_le
    rw [hR a] at hle
    have := needed_takeWhile_le (maskToks st.m)
    simp only at hspec
    omega
  rw [hrun] at hact hspec
  obtain ⟨run, x, htoks, hwild, hn, hx, hsp, hbd, hhead⟩ := hspec
  have hb' : Boundary mask m' := hb.trans (hm ▸ hbd)
  have hlt : m'.length < st.m.length := by
    rcases hbd.length_le.lt_or_eq with hlt | heq
    · exact hlt
    obtain ⟨h1, h2⟩ := hhead c m ((hbd.suffix.eq_of_length heq).trans hm)
    exact absurd hc (by simp [h1, h2])
  simp only [Bool.false_eq_true, false_or] at hsp
  cases sp with
  | false =>
    have hfree : StarFree run := by simpa [StarFree] using hsp
    rw [matchStep, hact]
    exact h.advance x n' hn (fun a => ⟨run, maskToks m', (hR a).trans htoks, hfree,
      matches_wild hwild hx, .inl ⟨hb', rfl⟩⟩) hlt
  | true =>
    have hstar : .star ∈ run := hsp.mp rfl
    have hRa : a.R = run ++ maskToks m' := (hR a).trans htoks
    have hMM : MaskMatches mask name ↔ Matches Lit.accepts (.star :: maskToks m') n' := by
      rw [forget a (hRa ▸ leftOpen_run hwild hstar _) hlive, hRa, hn]
      exact matches_run hwild hstar hx _ _
    have hchunk : chunk (a.q ++ a.R) = a.q ++ run := by
      rw [chunk_append a.free, hRa, chunk_run hwild hstar]
      exact fun y p hy => head_tok hb' hw hhead hy
    have hopen : RightOpen Lit.accepts (a.q ++ run) := by
      rw [← hchunk]
      exact rightOpen_chunk (by simp [StarFree, hRa, hstar])
    obtain ⟨u, ht, hu⟩ := a.done
    have hut : a.t = u ++ x ++ n' := by rw [ht, hn, append_assoc]
    have hstarts : Starts Lit.accepts (a.p ++ (a.q ++ run)) name n' := by
      refine a.starts.next (hut ▸ a.begins) (hut ▸ a.opened) hopen
        (matches_append_iff.mpr ⟨u, x, rfl, hu, matches_wild hwild hx⟩) ?_ ?_
      · rw [length_append, hx, needed_append, a.free.needed_eq, hu.length_eq a.free]
      · rw [← hut, ← hchunk]
        exact a.missed
    obtain ⟨v, w, hrun', hw'⟩ := exists_last_star hwild hstar
    have hp : a.p ++ (a.q ++ run) = a.p ++ a.q ++ v ++ .star :: w := by rw [hrun']; simp
    have hstarred : Starred mask name st m' n' := by
      refine ⟨hb', hlt, by rw [hm]; exact hb.length_le, (hn ▸ suffix_append x n').trans h.suf,
        ⟨_, w, ?_, hw', hp ▸ hopen.append a.p, hp ▸ hstarts⟩, hMM⟩
      rw [← hp, a.toks, hRa]
      simp
    have hturn := hstarred.turn hw hfits hhead
    rw [matchStep, show matchAct st = Ircu.afterStar m' n' from hact]
    cases hres : Ircu.afterStar m' n' with
    | back => rw [hres] at hturn; exact hturn.elim
    | ret r | next st' | fault => rw [hres] at hturn; exact hturn

lemma turn_plain (h : MatchInv mask name st) {c} (hm : st.m = c :: m) (hc : c ≠ ch '\\')
    (hwild : ¬ (c = ch '*' ∨ c = ch '?')) : TurnOk mask name st (matchStep mask st) := by
  have hread := fun a : Attempt mask name st => (hm ▸ a.reads).plain hc
    (fun h => hwild (.inl h)) (fun h => hwild (.inr h))
  cases hn : st.n with
  | nil =>
    have ha : matchAct st = .ret 1 := by
      rw [matchAct, hm, hn]
      simp only [if_neg hc, if_neg hwild]
    rw [matchStep, ha]
    simp only [TurnOk, one_ne_zero, false_iff]
    refine h.ret_at_end hn fun a => ?_
    obtain ⟨-, b, hb, -⟩ := hread a
    exact ⟨b, _, hb⟩
  | cons x n =>
    by_cases hx : toLower c = toLower x
    · have ha : matchAct st = .next { st with m := m, n := n } := by
        rw [matchAct, hm, hn]
        simp only [if_neg hc, if_neg hwild, hx, ne_eq, not_true_eq_false, if_false]
      rw [matchStep, ha]
      refine h.advance [x] n hn (fun a => ?_) (by rw [hm]; simp only [length_cons]; omega)
      obtain ⟨hb, b, hR, hacc⟩ := hread a
      exact ⟨[.lit b], _, hR, by simp, .lit ((hacc x).trans (by simp [Lit.accepts, hx])) .nil,
        .inl ⟨hb, rfl⟩⟩
    · refine hback ?_ fun a => ?_
      · rw [matchAct, hm, hn]
        simp only [if_neg hc, if_neg hwild, ne_eq, hx, not_false_eq_true, if_true]
      · obtain ⟨-, b, hR, hacc⟩ := hread a
        rw [hR, hn, chunk, matches_lit_cons, hacc]
        simp [Lit.accepts, hx]

end Turn

/-- **One turn of the loop.** -/
theorem turn (h : MatchInv mask name st) (hw : wellEscaped mask) (hfits : FirstFits mask name) :
    TurnOk mask name st (matchStep mask st) := by
  have hback : matchAct st = .back →
      (∀ a : Attempt mask name st, ¬ Matches Lit.accepts (chunk a.R) st.n) →
        TurnOk mask name st (matchStep mask st) := by
    intro ha hfail
    rw [matchStep, ha]
    exact h.back hfail
  cases hm : st.m with
  | nil =>
    have hnil := fun a : Attempt mask name st => (hm ▸ a.reads).nil
    by_cases hn : st.n = []
    · have ha : matchAct st = .ret 0 := by rw [matchAct, hm]; simp [hn]
      rw [matchStep, ha]
      simp only [TurnOk, true_iff]
      obtain ⟨a, ⟨_, hl⟩ | ⟨_, hl⟩⟩ := h.live
      · exact hl.mpr (by rw [hnil a, hn]; exact .nil)
      · exact hl.mpr (.inl (by rw [hnil a, hn]; exact .nil))
    · refine hback (by rw [matchAct, hm]; simp [hn]) fun a => ?_
      rw [hnil a]
      simpa [chunk] using hn
  | cons c m =>
    by_cases hc : c = ch '\\'
    · exact turn_escape hback h hw (hc ▸ hm)
    · by_cases hwild : c = ch '*' ∨ c = ch '?'
      · exact turn_wild hback h hw hfits hm hwild
      · exact turn_plain hback h hm hc hwild

end MatchInv

/-! ### The matcher decides masks -/

/-- A run of the loop returns, with the right answer. -/
lemma matchLoop_spec (hw : wellEscaped mask) (hfits : FirstFits mask name) (k : ℕ)
    (st) (h : MatchInv mask name st) (hk : st.weight mask < k) :
    ∃ r, matchLoop mask k st = some r ∧ (r = 0 ↔ MaskMatches mask name) := by
  induction k generalizing st with
  | zero => omega
  | succ k ih =>
    have hturn := h.turn hw hfits
    rw [matchLoop]
    cases hs : matchStep mask st with
    | ret r =>
      rw [hs] at hturn
      exact ⟨r, rfl, hturn⟩
    | next st' =>
      rw [hs] at hturn
      exact ih st' hturn.1 (lt_of_lt_of_le hturn.2 (by omega))
    | back | fault =>
      rw [hs] at hturn
      exact hturn.elim

lemma ircMatch_spec (hw : wellEscaped mask) (hfits : FirstFits mask name) :
    ∃ r, ircMatch mask name = some r ∧ (r = 0 ↔ MaskMatches mask name) := by
  refine matchLoop_spec hw hfits _ _ (matchInv_init mask name) ?_
  show name.length * (mask.length + 1) + mask.length < (name.length + 1) * (mask.length + 1)
  rw [Nat.succ_mul]
  omega

lemma wellEscaped_of_noEscape (h : ch '\\' ∉ mask) : wellEscaped mask := by
  induction mask with
  | nil => rfl
  | cons c m ih =>
    rw [mem_cons, not_or] at h
    rw [wellEscaped_plain (Ne.symm h.1)]
    exact ih h.2

lemma exact_notMem_maskToks (h : ch '\\' ∉ mask) (d : UInt8) :
    .lit (.exact d) ∉ maskToks mask := by
  induction mask with
  | nil => simp [maskToks]
  | cons c m ih =>
    rw [mem_cons, not_or] at h
    rw [maskToks.eq_def]
    simp only [if_neg (Ne.symm h.1)]
    split_ifs <;> simpa using ih h.2

/-- Without escapes there is nothing that needs a backslash. -/
lemma ircMatch_noEscape (h : ch '\\' ∉ mask) (name) :
    ∃ r, ircMatch mask name = some r ∧ (r = 0 ↔ MaskMatches mask name) := by
  refine ircMatch_spec (wellEscaped_of_noEscape h) fun p w d q htoks => ?_
  exact absurd (htoks ▸ by simp) (exact_notMem_maskToks h d)

/-- **`match` on masks without escapes** returns, and returns `0` exactly on the
names that match. -/
theorem match_noEscape (mask name : List UInt8) (h : ch '\\' ∉ mask) :
    ∃ r, ircMatch mask name = some r ∧ (r = 0 ↔ MaskMatches mask name) :=
  ircMatch_noEscape h name

theorem match_noEscape_apply :
    ch '\\' ∉ str "*a?*b" ∧ ∃ r, ircMatch (str "*a?*b") (str "xAabab") = some r ∧
      (r = 0 ↔ MaskMatches (str "*a?*b") (str "xAabab")) :=
  ⟨by decide, match_noEscape _ _ (by decide)⟩

end Ircu
