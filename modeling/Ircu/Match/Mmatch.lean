import Mathlib.Data.List.TakeWhile
import Ircu.Glob.Cover
import Ircu.Match.Correct

/-!
`mmatch` of `match.c`: whether one mask is a superset of another.

The loop is that of the older `match`, with one saved position, but the second
string is a mask too. A backslash is an escape only in front of `*` and `?`.
When the first mask has come to its end and the second has not, the code looks
backwards from the end of the first one for a trailing star (`endsOpen`).

* `MaskCovers` is the comparison item by item that the loop carries out, and
  `MaskCovers.matches` says that it is sound.
-/

namespace Ircu

open Glob List Lit Tok

/-! ### The comparison -/

structure MmatchState where
  m : List UInt8
  n : List UInt8
  ma : List UInt8
  na : List UInt8
  wild : Bool
deriving DecidableEq

/-- What one turn of the loop does: `return`, go on, or step over the terminator
of the second mask. -/
inductive MmatchAct where
  | ret (r : ℕ)
  | next (st : MmatchState)
  | fault
deriving DecidableEq

/-- The test `(*s == '\\') && ((s[1] == '*') || (s[1] == '?'))`. -/
def isEscape : List UInt8 → Bool
  | c :: d :: _ => c = ch '\\' ∧ (d = ch '*' ∨ d = ch '?')
  | _ => false

def skipEscape (s : List UInt8) : List UInt8 × Bool :=
  if isEscape s then (s.tail, true) else (s, false)

/-- The backward scan from the end of the first mask: over `?`, then for a `*`
that is neither the first character nor escaped. -/
def endsOpen (mask : List UInt8) : Bool :=
  match mask.reverse.dropWhile (· = ch '?') with
  | c :: d :: _ => c = ch '*' ∧ d ≠ ch '\\'
  | _ => false

variable (st : MmatchState)

/-- `m = ma; n = ++na`, where an escape counts as one character. -/
def MmatchState.retry : Option MmatchState :=
  match (skipEscape st.na).1 with
  | [] => none
  | _ :: na => some { st with m := st.ma, n := na, na := na }

/-- The characters do not agree: without a star the masks differ, and behind a star
the search goes on. -/
def MmatchState.fallBack : MmatchAct :=
  if !st.wild then .ret 1
  else
    match st.retry with
    | none => .fault
    | some st => .next st

/-- The condition under which the loop takes a character of both masks. The
terminator agrees with the terminator. -/
def charsAgree (m n : List UInt8) (mq nq : Bool) : Bool :=
  (m.head? = some (ch '*') ∧ !mq) ∨
    ((!mq ∨ nq) ∧ m.head?.map toLower = n.head?.map toLower) ∨
    (m.head? = some (ch '?') ∧ !mq ∧ (n.head? ≠ some (ch '*') ∨ nq))

def mmatchCompare : MmatchAct :=
  let (m, mq) := skipEscape st.m
  let (n, nq) := skipEscape st.n
  if charsAgree m n mq nq then .next { st with m := m.tail, n := n.tail } else st.fallBack

/-- The first lines of a turn: a run of stars is taken and the position behind it
saved. -/
def MmatchState.skipStars : MmatchState :=
  if st.m.head? = some (ch '*') then
    let m := st.m.dropWhile (· = ch '*')
    { st with m, wild := true, ma := m, na := st.n }
  else st

def mmatchTurn (mask : List UInt8) (st : MmatchState) : MmatchAct :=
  let st := st.skipStars
  match st.m, st.n with
  | [], [] => .ret 0
  | [], _ :: _ =>
    if endsOpen mask then .ret 0
    else if !st.wild then .ret 1
    else
      match st.retry with
      | none => .fault
      | some st => mmatchCompare st
  | m, [] => .ret (if m.dropWhile (· = ch '*') = [] then 0 else 1)
  | _ :: _, _ :: _ => mmatchCompare st

def mmatchLoop (mask : List UInt8) : ℕ → MmatchState → Option ℕ
  | 0, _ => none
  | k + 1, st =>
    match mmatchTurn mask st with
    | .ret r => some r
    | .next st => mmatchLoop mask k st
    | .fault => none

/-- `0` if the first mask is a superset of the second, and `1` otherwise. -/
def mmatch (oldMask newMask : List UInt8) : Option ℕ :=
  mmatchLoop oldMask ((newMask.length + 1) * (oldMask.length + 1))
    ⟨oldMask, newMask, oldMask, newMask, false⟩

/-! ### Masks item by item -/

def plainTok (c : UInt8) : Tok Lit :=
  if c = ch '*' then .star else if c = ch '?' then .any else .lit (.plain c)

lemma plainTok_star : plainTok (ch '*') = .star := if_pos rfl

lemma plainTok_any : plainTok (ch '?') = .any := by
  rw [plainTok, if_neg (by decide), if_pos rfl]

variable {c : UInt8} {mask : List UInt8}

lemma plainTok_lit (h1 : c ≠ ch '*') (h2 : c ≠ ch '?') : plainTok c = .lit (.plain c) := by
  rw [plainTok, if_neg h1, if_neg h2]

lemma maskToks_cons (h : c ≠ ch '\\') (m) : maskToks (c :: m) = plainTok c :: maskToks m := by
  by_cases h1 : c = ch '*'
  · rw [h1, maskToks_star, plainTok_star]
  · by_cases h2 : c = ch '?'
    · rw [h2, maskToks_any, plainTok_any]
    · rw [maskToks_plain h h1 h2, plainTok_lit h1 h2]

lemma maskToks_noEscape {m} (h : ch '\\' ∉ m) : maskToks m = m.map plainTok := by
  induction m with
  | nil => rfl
  | cons c m ih =>
    rw [mem_cons, not_or] at h
    rw [maskToks_cons (Ne.symm h.1), ih h.2, map_cons]

/-- A backslash stands in front of `*` and `?` only. -/
def EscapesWild (mask : List UInt8) : Prop :=
  ∀ m ∈ mask.tails, m.head? = some (ch '\\') → isEscape m = true

instance (mask : List UInt8) : Decidable (EscapesWild mask) :=
  inferInstanceAs (Decidable (∀ m ∈ _, _))

lemma escapesWild_of_noEscape (h : ch '\\' ∉ mask) : EscapesWild mask := fun _ hm hhead =>
  absurd (((mem_tails _ _).mp hm).subset (mem_of_head? hhead)) h

def itemTok (quoted : Bool) (c : UInt8) : Tok Lit :=
  if quoted then .lit (.exact c) else plainTok c

namespace EscapesWild

lemma suffix {m} (h : EscapesWild mask) (hm : m <:+ mask) : EscapesWild m :=
  fun w hw => h w ((mem_tails _ _).mpr (((mem_tails _ _).mp hw).trans hm))

lemma item (h : EscapesWild mask) (hne : mask ≠ []) :
    ∃ q c r, skipEscape mask = (c :: r, q) ∧ maskToks mask = itemTok q c :: maskToks r ∧
      r <:+ mask ∧ r.length < mask.length ∧ (q = true → c = ch '*' ∨ c = ch '?') ∧
      (itemTok q c = .star → mask.head? = some (ch '*')) := by
  obtain ⟨c, m, rfl⟩ := exists_cons_of_ne_nil hne
  have hmem : c :: m ∈ (c :: m).tails := (mem_tails _ _).mpr (suffix_refl _)
  by_cases hc : c = ch '\\'
  · have hesc := h _ hmem (by rw [hc]; rfl)
    cases m with
    | nil => cases hesc
    | cons d m =>
      refine ⟨true, d, m, by rw [skipEscape, if_pos hesc]; rfl, ?_,
        (suffix_cons d m).trans (suffix_cons c _), by simp,
        fun _ => (of_decide_eq_true hesc).2, fun hstar => by cases hstar⟩
      rw [hc]
      rfl
  · have hesc : isEscape (c :: m) = false := by
      cases m <;> simp [isEscape, hc]
    refine ⟨false, c, m, by rw [skipEscape, hesc]; rfl, maskToks_cons hc m, suffix_cons c m,
      Nat.lt_succ_self _, fun hq => (by cases hq), fun hstar => ?_⟩
    rw [itemTok, if_neg Bool.false_ne_true, plainTok] at hstar
    split_ifs at hstar with hc
    exact congrArg some hc

lemma maskToks_append (h : EscapesWild mask) (s) :
    maskToks (mask ++ s) = maskToks mask ++ maskToks s := by
  induction hn : mask.length using Nat.strong_induction_on generalizing mask with
  | _ n ih =>
  subst hn
  cases mask with
  | nil => rfl
  | cons c m =>
    have hm := h.suffix (suffix_cons c m)
    by_cases hc : c = ch '\\'
    · have hesc := h _ ((mem_tails _ _).mpr (suffix_refl _)) (by rw [hc]; rfl)
      cases m with
      | nil => cases hesc
      | cons d m =>
        rw [hc, cons_append, cons_append, maskToks_escape, maskToks_escape,
          ih m.length (by simp) (hm.suffix (suffix_cons d m)) rfl, cons_append]
    · rw [cons_append, maskToks_cons hc, maskToks_cons hc, ih m.length (by simp) hm rfl,
        cons_append]

end EscapesWild

lemma endsOpen_eq (hmask : EscapesWild mask) (h : endsOpen mask = true) :
    ∃ r k, mask = r ++ ch '*' :: List.replicate k (ch '?') ∧ EscapesWild r := by
  have hsplit : mask.reverse = mask.reverse.takeWhile (· = ch '?') ++
      mask.reverse.dropWhile (· = ch '?') := takeWhile_append_dropWhile.symm
  have hq : ∀ c ∈ mask.reverse.takeWhile (· = ch '?'), c = ch '?' := by
    intro c hc
    simpa using mem_takeWhile_imp hc
  rw [endsOpen] at h
  match hd : mask.reverse.dropWhile (· = ch '?') with
  | [] => simp [hd] at h
  | [_] => simp [hd] at h
  | c :: d :: r =>
    rw [hd] at h hsplit
    obtain ⟨hc, hdc⟩ := of_decide_eq_true h
    have hmask' := congrArg List.reverse hsplit
    rw [reverse_reverse, reverse_append, eq_replicate_of_mem hq,
      reverse_replicate, hc, reverse_cons, append_assoc] at hmask'
    refine ⟨(d :: r).reverse, _, hmask', fun m hm hhead => ?_⟩
    -- the star is not escaped, so an escape in front of it ends in front of it
    obtain ⟨u, hu⟩ := (mem_tails _ _).mp hm
    have hesc := hmask _ ((mem_tails _ _).mpr ⟨u, by rw [hmask', ← hu, append_assoc]⟩)
      (by rw [List.head?_append, hhead]; rfl)
    match m, hhead with
    | [_], rfl =>
      have hlast := congrArg List.getLast? hu
      rw [List.getLast?_concat, reverse_cons, List.getLast?_concat] at hlast
      exact absurd (Option.some.inj hlast).symm hdc
    | _ :: _ :: _, _ => exact hesc

lemma toLower_eq_star (c) : toLower c = ch '*' ↔ c = ch '*' :=
  forall_byte (P := fun c => toLower c = ch '*' ↔ c = ch '*') (by decide +kernel) c

lemma toLower_eq_any (c) : toLower c = ch '?' ↔ c = ch '?' :=
  forall_byte (P := fun c => toLower c = ch '?' ↔ c = ch '?') (by decide +kernel) c

/-! ### What the loop decides -/

/-- A literal that accepts at least what another one accepts. -/
def Lit.includes : Lit → Lit → Bool
  | .plain c, .plain d => toLower c == toLower d
  | .plain c, .exact d => toLower c == toLower d
  | .exact _, .plain _ => false
  | .exact c, .exact d => c == d

lemma Lit.accepts_of_includes (b b' : Lit) (c) (h : b.includes b' = true)
    (hc : b'.accepts c = true) : b.accepts c = true := by
  cases b <;> cases b' <;> simp_all [includes, accepts]

/-- The items of the first mask, with the star that the backward scan grants a
mask that ends in a star and wildcards for single letters. -/
def coverToks (mask : List UInt8) : List (Tok Lit) :=
  maskToks mask ++ if endsOpen mask then [.star] else []

/-- The first mask covers the second item by item. -/
def MaskCovers (oldMask newMask : List UInt8) : Prop :=
  Covers Lit.includes (coverToks oldMask) (maskToks newMask)

instance (oldMask newMask : List UInt8) : Decidable (MaskCovers oldMask newMask) :=
  inferInstanceAs (Decidable (Covers _ _ _))

lemma coverToks_same (h : EscapesWild mask) :
    Same accepts (coverToks mask) (maskToks mask) := by
  rw [coverToks]
  by_cases hopen : endsOpen mask = true
  · obtain ⟨r, k, rfl, hr⟩ := endsOpen_eq h hopen
    have hk : ch '\\' ∉ List.replicate k (ch '?') := fun hm =>
      absurd (eq_of_mem_replicate hm) (by decide)
    rw [if_pos hopen, hr.maskToks_append, maskToks_star, maskToks_noEscape hk, map_replicate,
      plainTok_any, append_assoc]
    exact (same_star_anys k).append_left _
  · rw [if_neg hopen, append_nil]
    exact .refl _

/-- **A mask that covers another one matches what it matches.** -/
theorem MaskCovers.matches {oldMask newMask name} (h : MaskCovers oldMask newMask)
    (hold : EscapesWild oldMask) (hm : MaskMatches newMask name) : MaskMatches oldMask name :=
  (coverToks_same hold name).mp (Covers.matches accepts_of_includes h hm)

/-! ### The loop -/

section Loop

variable {oldMask newMask : List UInt8}

def maskLeft (oldMask m : List UInt8) : List (Tok (Option Lit)) :=
  (maskToks m).map Tok.lift ++ if endsOpen oldMask then [.star] else []

lemma maskLeft_cons {m r t} (h : maskToks m = t :: maskToks r) :
    maskLeft oldMask m = t.lift :: maskLeft oldMask r := by
  rw [maskLeft, h]
  rfl

structure MmatchInv (oldMask newMask : List UInt8) (st : MmatchState) : Prop where
  m_suf : st.m <:+ oldMask
  ma_suf : st.ma <:+ oldMask
  n_suf : st.n <:+ st.na
  na_suf : st.na <:+ newMask
  ma_head : st.wild = true → st.ma.head? ≠ some (ch '*')
  pending : Pending (takes Lit.includes) (MaskCovers oldMask newMask) (maskLeft oldMask st.m)
    (maskToks st.n)
    (if st.wild then some (maskLeft oldMask st.ma, maskToks st.na) else none)

/-- A number that every turn makes smaller. -/
def MmatchState.weight (oldMask : List UInt8) (st : MmatchState) : ℕ :=
  st.na.length * (oldMask.length + 1) + st.m.length

/-- A turn that returns gives the right answer, and one that goes on keeps the
invariant and loses weight. -/
def MmatchOk (oldMask newMask : List UInt8) (w : ℕ) : MmatchAct → Prop
  | .ret r => r = 0 ↔ MaskCovers oldMask newMask
  | .next st => MmatchInv oldMask newMask st ∧ st.weight oldMask < w
  | .fault => False

lemma mmatchInv_init : MmatchInv oldMask newMask ⟨oldMask, newMask, oldMask, newMask, false⟩ where
  m_suf := suffix_refl _
  ma_suf := suffix_refl _
  n_suf := suffix_refl _
  na_suf := suffix_refl _
  ma_head := by simp
  pending := by
    have hlift : maskLeft oldMask oldMask = (coverToks oldMask).map lift := by
      rw [maskLeft, coverToks, map_append]
      split <;> rfl
    rw [hlift]
    exact .start

/-- A character of the first mask other than a star is compared with a character
of the second one as the items that they stand for. -/
lemma accepts_plainTok {c x} (hc : c ≠ ch '*') :
    (plainTok c).lift.Accepts (takes includes) (plainTok x) ↔
      toLower c = toLower x ∨ (c = ch '?' ∧ x ≠ ch '*') := by
  by_cases hq : c = ch '?'
  · subst hq
    rw [plainTok_any]
    by_cases hx : x = ch '*'
    · subst hx
      simp [plainTok_star, lift, Tok.Accepts, takes]
      decide
    · rw [plainTok]
      split_ifs <;> simp [lift, Tok.Accepts, takes, hx]
  rw [plainTok_lit hc hq]
  by_cases hx : x = ch '*'
  · subst hx
    simpa [plainTok_star, lift, Tok.Accepts, takes] using
      fun h => hc ((toLower_eq_star c).mp (h.trans (by decide)))
  by_cases hx' : x = ch '?'
  · subst hx'
    simpa [plainTok_any, lift, Tok.Accepts, takes, hq] using
      fun h => hq ((toLower_eq_any c).mp (h.trans (by decide)))
  · simp [plainTok_lit hx hx', lift, Tok.Accepts, takes, includes, hq]

lemma charsAgree_iff {c x q p} (hc : itemTok q c ≠ .star)
    (hq : q = true → c = ch '*' ∨ c = ch '?') (hp : p = true → x = ch '*' ∨ x = ch '?')
    (m n) : charsAgree (c :: m) (x :: n) q p = true ↔
      (itemTok q c).lift.Accepts (takes includes) (itemTok p x) := by
  cases q with
  | true =>
    cases p with
    | true =>
      rcases hq rfl with rfl | rfl <;> rcases hp rfl with rfl | rfl <;>
        simp [charsAgree, itemTok, lift, Tok.Accepts, takes, includes] <;> decide
    | false =>
      simp only [charsAgree, itemTok, plainTok, if_true, Bool.false_eq_true, if_false]
      split_ifs <;> simp [lift, Tok.Accepts, takes, includes]
  | false =>
    have hc : c ≠ ch '*' := fun h => hc (if_pos h)
    cases p with
    | true =>
      by_cases hany : c = ch '?'
      · simp [charsAgree, hany, itemTok, plainTok_any, lift, Tok.Accepts, takes]
      · simp [charsAgree, hc, hany, itemTok, plainTok_lit hc hany, lift, Tok.Accepts, takes,
          includes]
    | false =>
      refine Iff.trans ?_ (accepts_plainTok hc).symm
      simp [charsAgree, hc]

lemma lift_ne_star {t : Tok Lit} (ht : t ≠ .star) : t.lift ≠ .star := by
  cases t <;> simp_all [lift]

lemma pending_stars {G} {m : List UInt8} {w : List (Tok Lit)}
    {saved : Option (List (Tok (Option Lit)) × List (Tok Lit))}
    (h : Pending (takes includes) G (maskLeft oldMask (ch '*' :: m)) w saved) :
    Pending (takes includes) G (maskLeft oldMask (m.dropWhile (· = ch '*'))) w
      (some (maskLeft oldMask (m.dropWhile (· = ch '*')), w)) := by
  rw [maskLeft_cons (maskToks_star m)] at h
  induction m generalizing saved with
  | nil => exact h.star
  | cons c m ih =>
    by_cases hc : c = ch '*'
    · subst hc
      have hnext := h.star
      rw [maskLeft_cons (maskToks_star m)] at hnext
      exact ih hnext
    · rw [dropWhile_cons_of_neg (by simp [hc])]
      exact h.star

namespace MmatchInv

variable {st : MmatchState}

lemma skipStars (h : MmatchInv oldMask newMask st) : MmatchInv oldMask newMask st.skipStars ∧
    st.skipStars.weight oldMask ≤ st.weight oldMask ∧ st.skipStars.m.head? ≠ some (ch '*') := by
  rw [MmatchState.skipStars]
  split
  case isFalse hne => exact ⟨h, le_rfl, hne⟩
  case isTrue hstar =>
    obtain ⟨m, hm⟩ : ∃ m, st.m = ch '*' :: m := by
      match hst : st.m with
      | [] => simp [hst] at hstar
      | c :: m => exact ⟨m, by simpa [hst] using hstar⟩
    have hdrop : st.m.dropWhile (· = ch '*') = m.dropWhile (· = ch '*') := by
      rw [hm, dropWhile_cons_of_pos (by simp)]
    have hsuf : st.m.dropWhile (· = ch '*') <:+ st.m := dropWhile_suffix _
    have hhead : (st.m.dropWhile (· = ch '*')).head? ≠ some (ch '*') := by
      intro hc
      have := List.head?_dropWhile_not (· = ch '*') st.m
      simp [hc] at this
    refine ⟨⟨hsuf.trans h.m_suf, hsuf.trans h.m_suf, suffix_refl _,
      h.n_suf.trans h.na_suf, fun _ => hhead, ?_⟩, ?_, hhead⟩
    · have hp := h.pending
      rw [hm] at hp
      simp only [hdrop, if_true]
      exact pending_stars hp
    have h1 := Nat.mul_le_mul_right (oldMask.length + 1) h.n_suf.length_le
    have h2 := hsuf.length_le
    simp only [MmatchState.weight]
    omega

lemma retry (h : MmatchInv oldMask newMask st) (hnew : EscapesWild newMask) (hwild : st.wild = true)
    (hn : st.na ≠ []) (hno : ¬ Matches (takes includes) (maskLeft oldMask st.m)
      (maskToks st.n)) : ∃ st' t, st.retry = some st' ∧ MmatchInv oldMask newMask st' ∧
      maskToks st.na = t :: maskToks st'.n ∧ st'.m = st.ma ∧
      st'.weight oldMask < st.weight oldMask := by
  obtain ⟨q, x, na, hskip, htoks, hsuf, hlen, -⟩ := (hnew.suffix h.na_suf).item hn
  refine ⟨{ st with m := st.ma, n := na, na := na }, _, ?_, ?_, htoks, rfl, ?_⟩
  · rw [MmatchState.retry, hskip]
  · refine ⟨h.ma_suf, h.ma_suf, suffix_refl _, hsuf.trans h.na_suf, h.ma_head, ?_⟩
    have hp := h.pending
    rw [if_pos hwild] at hp
    have hr := hp.retry hno
    rw [htoks] at hr
    simpa [hwild] using hr
  · have hle := h.ma_suf.length_le
    have hmul := Nat.mul_le_mul_right (oldMask.length + 1) (Nat.succ_le_of_lt hlen)
    rw [Nat.succ_mul] at hmul
    simp only [MmatchState.weight]
    omega

lemma fallBack (h : MmatchInv oldMask newMask st) (hnew : EscapesWild newMask) (hn : st.n ≠ [])
    (hno : ¬ Matches (takes includes) (maskLeft oldMask st.m) (maskToks st.n)) {w}
    (hw : st.weight oldMask ≤ w) : MmatchOk oldMask newMask w st.fallBack := by
  have hp := h.pending
  rw [MmatchState.fallBack]
  cases hwild : st.wild with
  | false =>
    rw [hwild] at hp
    simpa [MmatchOk] using hp.fails hno
  | true =>
    have hna : st.na ≠ [] := fun hna => hn (suffix_nil.mp (hna ▸ h.n_suf))
    obtain ⟨st', t, hr, hinv, -, -, hlt⟩ := h.retry hnew hwild hna hno
    rw [hr]
    exact ⟨hinv, lt_of_lt_of_le hlt hw⟩

lemma compare (h : MmatchInv oldMask newMask st) (hold : EscapesWild oldMask)
    (hnew : EscapesWild newMask) (hstar : st.m.head? ≠ some (ch '*')) (hn : st.n = [] → st.m = [])
    {w} (hw : st.weight oldMask ≤ w)
    (hend : st.m = [] → endsOpen oldMask = false ∧ st.weight oldMask < w) :
    MmatchOk oldMask newMask w (mmatchCompare st) := by
  rw [mmatchCompare]
  by_cases hm : st.m = []
  · rw [hm]
    by_cases hx : st.n = []
    · have hst : ({ st with m := [], n := [] } : MmatchState) = st := by
        cases st
        cases hm
        cases hx
        rfl
      rw [hx]
      simp only [show skipEscape [] = ([], false) from rfl, show charsAgree [] [] false false = true
        by decide, if_true, tail_nil, hst]
      exact ⟨h, (hend hm).2⟩
    · obtain ⟨p, x, n, hskip, htoks, -⟩ := (hnew.suffix (h.n_suf.trans h.na_suf)).item hx
      rw [hskip]
      refine h.fallBack hnew hx ?_ hw
      rw [hm, htoks]
      simp [maskLeft, maskToks, (hend hm).1]
  obtain ⟨q, c, m, hskip, htoks, hsuf, hlen, hq, hfirst⟩ := (hold.suffix h.m_suf).item hm
  obtain ⟨p, x, n, hskip', htoks', hsuf', -, hp, -⟩ :=
    (hnew.suffix (h.n_suf.trans h.na_suf)).item fun hx => hm (hn hx)
  have hc : itemTok q c ≠ .star := fun h => hstar (hfirst h)
  have hagree := charsAgree_iff hc hq hp m n
  rw [hskip, hskip']
  dsimp only
  split_ifs with hyes
  · refine ⟨⟨hsuf.trans h.m_suf, h.ma_suf, hsuf'.trans h.n_suf, h.na_suf, h.ma_head, ?_⟩, ?_⟩
    · have hp := h.pending
      rw [maskLeft_cons htoks, htoks'] at hp
      exact hp.read (hagree.mp hyes)
    · refine lt_of_lt_of_le ?_ hw
      simpa [MmatchState.weight] using hlen
  refine h.fallBack hnew (fun hx => hm (hn hx)) ?_ hw
  rw [maskLeft_cons htoks, htoks']
  intro hmatch
  rw [hagree] at hyes
  rcases hlift : (itemTok q c).lift with _ | _ | b
  · exact lift_ne_star hc hlift
  · exact hyes (by rw [hlift]; trivial)
  · rw [hlift, matches_lit_cons] at hmatch
    exact hyes (by rw [hlift]; exact hmatch.1)

/-- When the first mask has been read to its end and the second has not, there is a
character left behind the saved position, unless the star was the last one. -/
lemma nil_of_tail_nil {x t n} (hm : st.m = [])
    (hx : maskToks st.n = x :: n) (hopen : endsOpen oldMask = false)
    (hp : Pending (takes includes) (MaskCovers oldMask newMask) (maskLeft oldMask st.m)
      (maskToks st.n) (some (maskLeft oldMask st.ma, maskToks st.na)))
    (htail : maskToks st.na = [t]) : maskToks st.ma = [] := by
  obtain ⟨-, q, -, hq, -, -, hdrop⟩ := hp
  have hlen := congrArg List.length hdrop
  have hma := congrArg List.length hq
  simp only [hm, hx, htail, maskLeft, maskToks, hopen, length_map, length_drop,
    length_append, length_cons, length_nil, map_nil, Bool.false_eq_true,
    if_false] at hlen hma
  exact length_eq_zero_iff.mp (by omega)

/-- **One turn** returns the right answer, or keeps the invariant and comes closer
to the end. -/
theorem turn (h : MmatchInv oldMask newMask st) (hold : EscapesWild oldMask)
    (hnew : EscapesWild newMask) :
    MmatchOk oldMask newMask (st.weight oldMask) (mmatchTurn oldMask st) := by
  obtain ⟨hs, hw, hstar⟩ := h.skipStars
  rw [mmatchTurn]
  generalize st.skipStars = st' at hs hw hstar ⊢
  have hp := hs.pending
  match hm : st'.m, hx : st'.n with
  | [], [] =>
    refine iff_of_true rfl (hp.succeeds ?_)
    rw [hm, hx]
    by_cases hopen : endsOpen oldMask = true
    · simpa [maskLeft, maskToks, hopen] using Matches.nil.star_of (suffix_refl _)
    · simp [maskLeft, maskToks, hopen]
  | [], x :: n =>
    by_cases hopen : endsOpen oldMask = true
    · simp only [hopen, if_true]
      refine iff_of_true rfl (hp.succeeds ?_)
      rw [hm]
      simpa [maskLeft, maskToks, hopen] using Matches.nil.star_of (nil_suffix)
    have hne : st'.n ≠ [] := by simp [hx]
    obtain ⟨_, _, _, -, htoks, -⟩ := (hnew.suffix (hs.n_suf.trans hs.na_suf)).item hne
    have hno : ¬ Matches (takes includes) (maskLeft oldMask st'.m) (maskToks st'.n) := by
      rw [hm, htoks]
      simp [maskLeft, maskToks, hopen]
    simp only [hopen]
    cases hwild : st'.wild with
    | false =>
      rw [hwild] at hp
      simpa [MmatchOk] using hp.fails hno
    | true =>
      have hna : st'.na ≠ [] := fun hna => hne (suffix_nil.mp (hna ▸ hs.n_suf))
      obtain ⟨st'', t, hr, hinv, htail, hma, hlt⟩ := hs.retry hnew hwild hna hno
      rw [hr]
      refine hinv.compare hold hnew ?_ ?_ (lt_of_lt_of_le hlt hw).le ?_
      · rw [hma]
        exact hs.ma_head hwild
      · intro hnil
        rw [if_pos hwild] at hp
        rw [hnil] at htail
        by_contra hne'
        obtain ⟨_, _, _, -, htoks', -⟩ := (hold.suffix hinv.m_suf).item hne'
        rw [hma, nil_of_tail_nil hm htoks (by simpa using hopen) hp htail] at htoks'
        cases htoks'
      · intro _
        exact ⟨by simpa using hopen, lt_of_lt_of_le hlt hw⟩
  | c :: m, [] =>
    have hc : c ≠ ch '*' := by
      rintro rfl
      exact hstar (by rw [hm]; rfl)
    have hdrop : (c :: m).dropWhile (· = ch '*') ≠ [] := by
      rw [dropWhile_cons_of_neg (by simpa using hc)]
      exact cons_ne_nil c m
    obtain ⟨_, _, _, -, htoks, -, -, -, hfirst⟩ := (hold.suffix hs.m_suf).item (by simp [hm])
    simp only [if_neg hdrop]
    rw [maskLeft_cons htoks, hx] at hp
    exact iff_of_false one_ne_zero (hp.fails_of_end (lift_ne_star fun h => hstar (hfirst h)))
  | c :: m, x :: n =>
    exact hs.compare hold hnew hstar (by simp [hx]) hw (by simp [hm])

end MmatchInv

lemma mmatchLoop_spec (hold : EscapesWild oldMask) (hnew : EscapesWild newMask) (k : ℕ)
    (st) (h : MmatchInv oldMask newMask st) (hk : st.weight oldMask < k) :
    ∃ r, mmatchLoop oldMask k st = some r ∧ (r = 0 ↔ MaskCovers oldMask newMask) := by
  induction k generalizing st with
  | zero => omega
  | succ k ih =>
    have hturn := h.turn hold hnew
    rw [mmatchLoop]
    cases hact : mmatchTurn oldMask st with
    | ret r =>
      rw [hact] at hturn
      exact ⟨r, rfl, hturn⟩
    | next st' =>
      rw [hact] at hturn
      exact ih st' hturn.1 (by have := hturn.2; omega)
    | fault =>
      rw [hact] at hturn
      exact hturn.elim

/-- **`mmatch`** returns, and returns `0` exactly if the first mask covers the second, if a
backslash stands in front of `*` and `?` only. -/
theorem mmatch_spec (hold : EscapesWild oldMask) (hnew : EscapesWild newMask) :
    ∃ r, mmatch oldMask newMask = some r ∧ (r = 0 ↔ MaskCovers oldMask newMask) := by
  refine mmatchLoop_spec hold hnew _ _ mmatchInv_init ?_
  simp only [MmatchState.weight, Nat.add_mul]
  omega

/-- **A superset of a mask matches what the mask matches**, if a backslash stands in front of `*`
and `?` only. -/
theorem mmatch_sound (hold : EscapesWild oldMask) (hnew : EscapesWild newMask) :
    ∃ r, mmatch oldMask newMask = some r ∧
      (r = 0 → ∀ name, MaskMatches newMask name → MaskMatches oldMask name) := by
  obtain ⟨r, hr, hiff⟩ := mmatch_spec hold hnew
  exact ⟨r, hr, fun h0 _ hm => (hiff.mp h0).matches hold hm⟩

theorem mmatch_sound_escaped :
    mmatch (str "*?\\*") (str "x\\?\\*") = some 0 ∧
      ∀ name, MaskMatches (str "x\\?\\*") name → MaskMatches (str "*?\\*") name := by
  have h0 : mmatch (str "*?\\*") (str "x\\?\\*") = some 0 := by decide +kernel
  obtain ⟨r, hr, hall⟩ := @mmatch_sound (str "*?\\*") (str "x\\?\\*")
    (by decide +kernel) (by decide +kernel)
  exact ⟨h0, hall (Option.some.inj (hr.symm.trans h0))⟩

end Loop

end Ircu
