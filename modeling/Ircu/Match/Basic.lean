import Ircu.Chattr
import Ircu.Glob.Basic

/-!
`match` of `match.c`: a mask with `*`, `?` and backslash escapes against a
name, with one saved position to backtrack to.

A pointer into a string is the rest of the string from where it points, so the
terminator is the empty list and comparing two pointers into one string is
comparing lengths. One turn of the `for (;;) switch (*m)` loop is `matchAct`,
which says whether the turn returns, goes on, or jumps to `backtrack`; the jump
itself is `backtrack`.

* `ircMatch` runs the loop. Each turn shortens `n_tmp` or `m`, so the number of
  turns it is given suffices (`matchLoop_spec`).
* `maskToks` reads a mask as a glob pattern: a backslash makes the next
  character a literal that is compared exactly, every other literal is compared
  under `toLower`.
-/

namespace Ircu

open Glob

/-! ### The matcher -/

structure MatchState where
  m : List UInt8
  n : List UInt8
  mTmp : List UInt8
  nTmp : List UInt8
deriving DecidableEq

/-- What one turn of the loop does: `return`, go on in a new state, or
`goto backtrack`. Reading beyond the terminator of the mask, which happens
when a mask ends in an unfinished escape, is `fault`. -/
inductive MatchAct where
  | ret (r : ℕ)
  | next (st : MatchState)
  | back
  | fault
deriving DecidableEq

/-- The inner loop over a run of `*` and `?`: what is left of the mask and of
the name, and `star_p`. There is no result when a `?` finds the name at its
end, where the code jumps to `backtrack`. -/
def wildRun : List UInt8 → List UInt8 → Bool → Option (List UInt8 × List UInt8 × Bool)
  | [], n, starP => some ([], n, starP)
  | c :: m, n, starP =>
    if c = ch '*' then wildRun m n true
    else if c = ch '?' then
      match n with
      | [] => none
      | _ :: n => wildRun m n starP
    else some (c :: m, n, starP)

/-- The part of the wildcard case that follows the run, for `star_p` set: what
is left of the mask decides where the search goes on. -/
def afterStar (m n : List UInt8) : MatchAct :=
  match m with
  | [] => .ret 0
  | c :: m' =>
    if c = ch '\\' then
      match m' with
      | [] => .ret 1
      | d :: m'' =>
        match n.dropWhile (· ≠ d) with
        | [] => .ret 1
        -- `m_tmp` is left on the escaped character, not on its backslash
        | _ :: n' => .next ⟨m'', n', m', n⟩
    else .next ⟨m, n.dropWhile (fun x => toLower x ≠ toLower c), m, n⟩

/-- One turn of the loop of `match`. -/
def matchAct (st : MatchState) : MatchAct :=
  match st.m with
  | [] => if st.n = [] then .ret 0 else .back
  | c :: m =>
    if c = ch '\\' then
      -- escaped characters are compared exactly
      match m, st.n with
      | d :: m', x :: n' => if d ≠ x then .back else .next { st with m := m', n := n' }
      | _ :: _, [] => .back
      | [], _ :: _ => .back
      | [], [] => .fault
    else if c = ch '*' ∨ c = ch '?' then
      match wildRun st.m st.n false with
      | none => .back
      | some (m', n', false) => .next { st with m := m', n := n' }
      | some (m', n', true) => afterStar m' n'
    else
      match st.n with
      | [] => .ret 1
      | x :: n' => if toLower c ≠ toLower x then .back else .next { st with m := m, n := n' }

lemma matchAct_wild {st : MatchState} {c} {m : List UInt8} (hm : st.m = c :: m)
    (hc : c ≠ ch '\\') (hw : c = ch '*' ∨ c = ch '?') :
    matchAct st = match wildRun st.m st.n false with
      | none => .back
      | some (m', n', false) => .next { st with m := m', n := n' }
      | some (m', n', true) => afterStar m' n' := by
  rw [matchAct, hm]
  simp only [if_neg hc, if_pos hw]

/-- The code at the label `backtrack`. -/
def backtrack (mask : List UInt8) (st : MatchState) : MatchAct :=
  if st.mTmp.length = mask.length then .ret 1
  else if st.nTmp.tail = [] then .ret 1
  else .next { m := st.mTmp, n := st.nTmp.tail, mTmp := st.mTmp, nTmp := st.nTmp.tail }

def matchStep (mask : List UInt8) (st : MatchState) : MatchAct :=
  match matchAct st with
  | .back => backtrack mask st
  | a => a

def matchLoop (mask : List UInt8) : ℕ → MatchState → Option ℕ
  | 0, _ => none
  | k + 1, st =>
    match matchStep mask st with
    | .ret r => some r
    | .next st' => matchLoop mask k st'
    | _ => none

/-- `match`: `0` on a match and `1` otherwise. -/
def ircMatch (mask name : List UInt8) : Option ℕ :=
  matchLoop mask ((name.length + 1) * (mask.length + 1)) ⟨mask, name, mask, name⟩

/-! ### Masks as glob patterns -/

inductive Lit where
  | plain (c : UInt8)
  | exact (c : UInt8)
deriving DecidableEq

/-- Plain characters are compared under `toLower`, escaped ones exactly. -/
def Lit.accepts : Lit → UInt8 → Bool
  | .plain c, x => toLower c == toLower x
  | .exact c, x => c == x

def maskToks : List UInt8 → List (Tok Lit)
  | [] => []
  | c :: m =>
    if c = ch '\\' then
      match m with
      | [] => [.lit (.exact 0)]
      | d :: m' => .lit (.exact d) :: maskToks m'
    else if c = ch '*' then .star :: maskToks m
    else if c = ch '?' then .any :: maskToks m
    else .lit (.plain c) :: maskToks m

/-- Every backslash of the mask is followed by a character. -/
def wellEscaped : List UInt8 → Bool
  | [] => true
  | c :: m =>
    if c = ch '\\' then
      match m with
      | [] => false
      | _ :: m' => wellEscaped m'
    else wellEscaped m

/-- The name matches the mask under the reference semantics. -/
def MaskMatches (mask name : List UInt8) : Prop := Matches Lit.accepts (maskToks mask) name

instance (mask name : List UInt8) : Decidable (MaskMatches mask name) :=
  inferInstanceAs (Decidable (Matches _ _ _))

/-- A pattern behind a star that has been read already. -/
def pend (starP : Bool) (p : List (Tok Lit)) : List (Tok Lit) := if starP then .star :: p else p

end Ircu
