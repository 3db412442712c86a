import Ircu.Buffer.Rotate
import Ircu.Match.Basic

/-!
`matchcomp` of `match.c`: masks compiled for `matchexec`.

The first pass over the mask writes it out in folded form, with `A` for `?` and
`Z` for a run of stars, and remembers where the first and the last `Z` stand
(`fs` and `ls`). A `Z` is written only in front of the next literal, or at the
end of the mask, so that the `A`s of a run come before it. Then the piece behind
the last `Z` is reversed, and the block from `fs` to `ls` and the block from
`ls` on change places.

* `CompState.Shape` is the form of the buffer during the first pass: a head, the
  chunks between two stars and the piece behind the last one.
-/

namespace Ircu

open Glob Buffer List

/-! ### The compiler -/

/-- The variables of `matchcomp` during its first pass. The pointers `fs` and
`ls` are offsets into `cmask`, and `b` is the length of what is written. -/
structure CompState where
  buf : List UInt8 := []
  fs : Option ℕ := none
  ls : Option ℕ := none
  star : Bool := false
  cnt : ℕ := 0
  chset : UInt32 := ~~~0
  chset2 : UInt32 := NTL_LOWER ||| NTL_UPPER
deriving DecidableEq

namespace CompState

/-- Writing a `Z`. -/
def putStar (st : CompState) : CompState :=
  { st with
    ls := some st.buf.length
    fs := some (st.fs.getD st.buf.length)
    buf := st.buf ++ [ch 'Z']
    star := false }

def putAny (st : CompState) : CompState :=
  { st with
    cnt := st.cnt + 1
    buf := st.buf ++ [ch 'A']
    chset2 := st.chset2 &&& ~~~NTL_LOWER }

/-- The `default` case: a pending star is written first. -/
def putChar (st : CompState) (c : UInt8) : CompState :=
  let st := if st.star then { st.putStar with chset2 := st.chset2 &&& ~~~NTL_LOWER } else st
  { st with
    cnt := st.cnt + 1
    buf := st.buf ++ [toLower c]
    chset := st.chset &&& charAttr (toLower c)
    chset2 := st.chset2 &&& ~~~NTL_UPPER }

end CompState

def compLoop : List UInt8 → CompState → CompState
  | [], st => st
  | c :: m, st =>
    if c = ch '*' then compLoop m { st with star := true }
    else if c = ch '?' then compLoop m st.putAny
    else if c = ch '\\' then
      match m with
      | [] => st.putChar c
      | d :: m' =>
        if d = ch '?' ∨ d = ch '*' then compLoop m' (st.putChar d)
        else compLoop (d :: m') (st.putChar c)
    else compLoop m (st.putChar c)

/-- What `matchcomp` stores through its pointers. Its return value is the length
of `cmask`. -/
structure Compiled where
  cmask : List UInt8
  minlen : ℕ
  charset : UInt32
deriving DecidableEq

/-- There is no mask for a null pointer. -/
def matchcomp (mask : Option (List UInt8)) : Compiled :=
  let st := compLoop (mask.getD []) {}
  -- the attributes are stored before a star at the end of the mask is written
  let charset := st.chset ||| st.chset2
  let st := if st.star then st.putStar else st
  let cmask :=
    match st.fs, st.ls with
    | some fs, some ls =>
      rotateLoop (reverseLoop st.buf (ls + 1) (st.buf.length - 1)) fs (ls - fs)
        (st.buf.length - ls)
    | _, _ => st.buf
  ⟨cmask, st.cnt, charset⟩

/-! ### Reference semantics -/

/-- The pattern of a mask in which a backslash is special only in front of a
wildcard. -/
def globToks : List UInt8 → List (Tok Lit)
  | [] => []
  | c :: m =>
    if c = ch '*' then .star :: globToks m
    else if c = ch '?' then .any :: globToks m
    else if c = ch '\\' then
      match m with
      | [] => [.lit (.plain c)]
      | d :: m' =>
        if d = ch '?' ∨ d = ch '*' then .lit (.plain d) :: globToks m'
        else .lit (.plain c) :: globToks (d :: m')
    else .lit (.plain c) :: globToks m

/-- The string matches the mask under the reference semantics. -/
def GlobMatches (mask s : List UInt8) : Prop := Matches Lit.accepts (globToks mask) s

def rawTok (c : UInt8) : Tok Lit :=
  if c = ch 'A' then .any else if c = ch 'Z' then .star else .lit (.plain c)

def rawToks (l : List UInt8) : List (Tok Lit) := l.map rawTok

@[simp] lemma rawToks_append (l l' : List UInt8) : rawToks (l ++ l') = rawToks l ++ rawToks l' :=
  map_append

@[simp] lemma rawTok_A : rawTok (ch 'A') = .any := rfl

@[simp] lemma rawTok_Z : rawTok (ch 'Z') = .star := rfl

/-- A literal of the buffer: a folded character, which is neither of the two
letters in use. -/
def RawLit (c : UInt8) : Prop := toLower c = c

namespace RawLit

variable {c : UInt8}

lemma ne_A (h : RawLit c) : c ≠ ch 'A' := fun hc => toLower_ne_A c (h.trans hc)

lemma ne_Z (h : RawLit c) : c ≠ ch 'Z' := fun hc => toLower_ne_Z c (h.trans hc)

lemma rawTok (h : RawLit c) : rawTok c = .lit (.plain c) := by
  rw [Ircu.rawTok, if_neg h.ne_A, if_neg h.ne_Z]

lemma accepts (h : RawLit c) (x : UInt8) : Lit.accepts (.plain c) x = true ↔ toLower x = c := by
  rw [Lit.accepts, show toLower c = c from h, beq_iff_eq, eq_comm]

end RawLit

lemma rawLit_toLower (c) : RawLit (toLower c) := toLower_toLower c

/-- A star-free piece of the buffer. -/
def Body (l : List UInt8) : Prop := ∀ c ∈ l, c = ch 'A' ∨ RawLit c

variable {l : List UInt8} {c : UInt8}

lemma Body.starFree (h : Body l) : StarFree (rawToks l) := by
  intro hmem
  obtain ⟨c, hc, heq⟩ := mem_map.mp hmem
  obtain rfl | hlit := h c hc
  · simp at heq
  · rw [hlit.rawTok] at heq
    simp at heq

/-- A piece of the buffer behind a `Z`: it begins with a literal. -/
structure Chunk (l : List UInt8) : Prop where
  body : Body l
  first : ∃ c r, l = c :: r ∧ RawLit c

lemma Body.snoc (h : Body l) (hc : c = ch 'A' ∨ RawLit c) : Body (l ++ [c]) := by
  intro e he
  rw [mem_append, mem_singleton] at he
  obtain he | rfl := he
  · exact h e he
  · exact hc

lemma Chunk.snoc (h : Chunk l) (hc : c = ch 'A' ∨ RawLit c) : Chunk (l ++ [c]) := by
  obtain ⟨hb, d, r, rfl, hd⟩ := h
  exact ⟨hb.snoc hc, d, r ++ [c], rfl, hd⟩

def joinChunks (cs : List (List UInt8)) : List UInt8 := cs.flatMap (fun c => ch 'Z' :: c)

lemma joinChunks_concat (cs) (c : List UInt8) :
    joinChunks (cs ++ [c]) = joinChunks cs ++ ch 'Z' :: c := by
  simp [joinChunks]

/-! ### The first pass -/

/-- A rule for the first pass: a relation between the state and the pattern that
is still to be read holds at the end if every item keeps it. -/
lemma compLoop_rule {I : CompState → List (Tok Lit) → Prop}
    (hstar : ∀ st p, I st (.star :: p) → I { st with star := true } p)
    (hany : ∀ st p, I st (.any :: p) → I st.putAny p)
    (hlit : ∀ st p c, I st (.lit (.plain c) :: p) → I (st.putChar c) p)
    (m : List UInt8) (st) (h : I st (globToks m)) : I (compLoop m st) [] := by
  fun_induction compLoop m st with
  | case1 => exact h
  | case2 m st ih =>
    rw [globToks.eq_def] at h
    exact ih (hstar _ _ h)
  | case3 m st h1 ih =>
    rw [globToks.eq_def] at h
    exact ih (hany _ _ h)
  | case4 st h1 h2 => exact hlit _ _ _ h
  | case5 st d m hd h1 h2 ih =>
    rw [globToks.eq_def] at h
    simp only [if_neg h1, if_neg h2, if_pos hd, if_true] at h
    exact ih (hlit _ _ _ h)
  | case6 st d m hd h1 h2 ih =>
    rw [globToks.eq_def] at h
    simp only [if_neg h1, if_neg h2, if_neg hd, if_true] at h
    exact ih (hlit _ _ _ h)
  | case7 c m st h1 h2 h3 ih =>
    rw [globToks.eq_def] at h
    simp only [if_neg h1, if_neg h2, if_neg h3] at h
    exact ih (hlit _ _ _ h)

/-- The form of the buffer during the first pass, with a piece in `P` behind the
last `Z`, if there is one. -/
inductive Shape (P : List UInt8 → Prop) : List UInt8 → Option ℕ → Option ℕ → Prop
  | noStar {buf} : Body buf → Shape P buf none none
  | stars (head : List UInt8) (cs : List (List UInt8)) (tail : List UInt8) :
      Body head → (∀ c ∈ cs, Chunk c) → P tail →
      Shape P (head ++ (joinChunks cs ++ ch 'Z' :: tail)) (some head.length)
        (some (head.length + (joinChunks cs).length))

namespace Shape

variable {buf : List UInt8} {fs ls : Option ℕ} {P Q : List UInt8 → Prop}

lemma mono (h : Shape P buf fs ls) (hPQ : ∀ l, P l → Q l) : Shape Q buf fs ls := by
  cases h with
  | noStar hb => exact .noStar hb
  | stars head cs tail hb hcs ht => exact .stars head cs tail hb hcs (hPQ tail ht)

lemma putStar (h : Shape Chunk buf fs ls) (hP : P []) :
    Shape P (buf ++ [ch 'Z']) (some (fs.getD buf.length)) (some buf.length) := by
  cases h with
  | noStar hb => simpa [joinChunks] using Shape.stars buf [] [] hb (by simp) hP
  | stars head cs tail hb hcs ht =>
    have hcs' : ∀ c ∈ cs ++ [tail], Chunk c := by
      intro c hc
      rw [mem_append, mem_singleton] at hc
      obtain hc | rfl := hc
      · exact hcs c hc
      · exact ht
    simpa [joinChunks_concat] using Shape.stars head (cs ++ [tail]) [] hb hcs' hP

lemma snoc (h : Shape P buf fs ls) {c} (hc : c = ch 'A' ∨ RawLit c)
    (hPQ : ∀ l, P l → Q (l ++ [c])) : Shape Q (buf ++ [c]) fs ls := by
  cases h with
  | noStar hb => exact .noStar (hb.snoc hc)
  | stars head cs tail hb hcs ht =>
    simpa using Shape.stars head cs (tail ++ [c]) hb hcs (hPQ tail ht)

end Shape

lemma RawLit.chunk (h : RawLit c) : Chunk [c] :=
  ⟨fun _ hd => .inr (mem_singleton.mp hd ▸ h), c, [], rfl, h⟩

/-- The invariant of the first pass on `mask`, with the pattern `p` still to be
read. -/
structure CompInv (mask : List UInt8) (st : CompState) (p : List (Tok Lit)) : Prop where
  shape : Shape Chunk st.buf st.fs st.ls
  same : Same Lit.accepts (globToks mask) (rawToks st.buf ++ pend st.star p)
  count : st.cnt = needed (rawToks st.buf)

namespace CompInv

variable {mask : List UInt8} {st : CompState} {p : List (Tok Lit)}

lemma init (mask) : CompInv mask {} (globToks mask) where
  shape := .noStar (by simp [Body])
  same := .refl _
  count := rfl

lemma star (h : CompInv mask st (.star :: p)) : CompInv mask { st with star := true } p where
  shape := h.shape
  same := h.same.trans <| Same.append_left (fun s => by cases st.star <;> simp [pend]) _
  count := h.count

lemma any (h : CompInv mask st (.any :: p)) : CompInv mask st.putAny p where
  shape := h.shape.snoc (.inl rfl) (fun _ hl => hl.snoc (.inl rfl))
  same := by
    have hmove : Same Lit.accepts (pend st.star (.any :: p)) (.any :: pend st.star p) := by
      intro s
      cases st.star
      · rfl
      · exact matches_star_any
    simpa [CompState.putAny, rawToks] using h.same.trans (hmove.append_left _)
  count := by simp [CompState.putAny, h.count, needed, rawToks]

lemma lit {c} (h : CompInv mask st (.lit (.plain c) :: p)) : CompInv mask (st.putChar c) p := by
  have hlit := rawLit_toLower c
  have hfold : ∀ q, Same Lit.accepts (.lit (.plain c) :: q) (.lit (.plain (toLower c)) :: q) :=
    fun q s => matches_lit_congr (fun x => by simp [Lit.accepts]) q s
  cases hst : st.star with
  | false =>
    refine ⟨?_, ?_, ?_⟩
    · simpa [CompState.putChar, hst] using
        h.shape.snoc (.inr hlit) (fun _ hl => hl.snoc (.inr hlit))
    · have hs := h.same
      rw [hst] at hs
      simpa [CompState.putChar, hst, pend, rawToks, hlit.rawTok] using
        hs.trans ((hfold p).append_left _)
    · simp [CompState.putChar, hst, h.count, needed, rawToks, hlit.rawTok]
  | true =>
    refine ⟨?_, ?_, ?_⟩
    · have hsnoc := (h.shape.putStar rfl).snoc (.inr hlit) (by rintro l rfl; exact hlit.chunk)
      simpa [CompState.putChar, CompState.putStar, hst] using hsnoc
    · have hs := h.same
      rw [hst] at hs
      have hstar := ((hfold p).append_left [.star]).append_left (rawToks st.buf)
      simpa [CompState.putChar, CompState.putStar, hst, pend, rawToks, hlit.rawTok] using
        hs.trans hstar
    · simp [CompState.putChar, CompState.putStar, hst, h.count, needed, rawToks, hlit.rawTok]

lemma final (mask) : CompInv mask (compLoop mask {}) [] :=
  compLoop_rule (fun _ _ h => h.star) (fun _ _ h => h.any) (fun _ _ _ h => h.lit) mask {}
    (init mask)

end CompInv

/-! ### The compiled mask -/

@[simp] lemma needed_append {β} (p q : List (Tok β)) : needed (p ++ q) = needed p + needed q := by
  simp [needed]

lemma Body.needed (h : Body l) : needed (rawToks l) = l.length := by
  rw [Glob.needed, filter_eq_self.mpr, rawToks, length_map]
  intro t ht
  have hne : t ≠ .star := fun he => h.starFree (he ▸ ht)
  cases t <;> simp_all

lemma rotate_reverse (head B tail : List UInt8) (z : UInt8) {n fs ls}
    (hn : n = (head ++ (B ++ z :: tail)).length) (hfs : fs = head.length)
    (hls : ls = head.length + B.length) :
    rotateLoop (reverseLoop (head ++ (B ++ z :: tail)) (ls + 1) (n - 1)) fs (ls - fs) (n - ls)
      = head ++ z :: (tail.reverse ++ B) := by
  simp only [length_append, length_cons] at hn
  have hsplit : head ++ (B ++ z :: tail) = (head ++ B ++ [z]) ++ (tail ++ []) := by simp
  have hrev : reverseLoop (head ++ (B ++ z :: tail)) (ls + 1) (n - 1)
      = head ++ (B ++ (z :: tail.reverse ++ [])) := by
    rw [hsplit, reverseLoop_append _ _ _ (by simp; omega) (by simp; omega)]
    simp
  rw [hrev, rotateLoop_append head B (z :: tail.reverse) [] hfs (by omega) (by simp; omega)]
  simp

lemma compInv_end (mask) {st}
    (hst : st = if (compLoop mask {}).star then (compLoop mask {}).putStar else compLoop mask {}) :
    Shape Body st.buf st.fs st.ls ∧ Same Lit.accepts (globToks mask) (rawToks st.buf) ∧
      st.cnt = needed (rawToks st.buf) := by
  have h := CompInv.final mask
  generalize compLoop mask {} = st0 at h hst
  cases hs : st0.star with
  | false =>
    obtain rfl : st = st0 := by simpa [hs] using hst
    exact ⟨h.shape.mono (fun _ hl => hl.body), by simpa [hs, pend] using h.same, h.count⟩
  | true =>
    obtain rfl : st = st0.putStar := by simpa [hs] using hst
    refine ⟨h.shape.putStar (by simp [Body]), ?_, ?_⟩
    · simpa [hs, pend, CompState.putStar, rawToks] using h.same
    · simp [CompState.putStar, h.count, needed, rawToks]

/-- **What `matchcomp` computes.** Without a star the compiled mask is the mask
in folded form. Otherwise it is made of the head, the reversed tail and the
chunks of the mask. -/
theorem matchcomp_spec (mask) : (∃ body, Body body ∧ (matchcomp (some mask)).cmask = body ∧
      Same Lit.accepts (globToks mask) (rawToks body)) ∨
    ∃ head cs tail, Body head ∧ (∀ c ∈ cs, Chunk c) ∧ Body tail ∧
      (matchcomp (some mask)).cmask = head ++ ch 'Z' :: (tail.reverse ++ joinChunks cs) ∧
      Same Lit.accepts (globToks mask)
        (rawToks head ++ (rawToks (joinChunks cs) ++ .star :: rawToks tail)) ∧
      (matchcomp (some mask)).minlen
        = head.length + needed (rawToks (joinChunks cs)) + tail.length := by
  obtain ⟨hshape, hsame, hcnt⟩ := compInv_end mask rfl
  simp only [matchcomp, Option.getD_some]
  generalize (if (compLoop mask {}).star then (compLoop mask {}).putStar else compLoop mask {})
    = st at hshape hsame hcnt
  obtain ⟨buf, fs, ls, star, cnt, chset, chset2⟩ := st
  cases hshape with
  | noStar hb => exact .inl ⟨buf, hb, rfl, hsame⟩
  | stars head cs tail hb hcs ht =>
    refine .inr ⟨head, cs, tail, hb, hcs, ht, rotate_reverse _ _ _ _ rfl rfl rfl, ?_, ?_⟩
    · simpa [rawToks] using hsame
    have hz : needed (rawToks (ch 'Z' :: tail)) = tail.length := by
      rw [← ht.needed]
      simp [needed, rawToks]
    have hcnt' : cnt = needed (rawToks (head ++ (joinChunks cs ++ ch 'Z' :: tail))) := hcnt
    show cnt = _
    rw [hcnt', rawToks_append, rawToks_append, needed_append, needed_append, hb.needed, hz]
    omega

end Ircu
