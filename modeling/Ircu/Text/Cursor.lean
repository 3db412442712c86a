import Mathlib.Tactic

/-!
Reading a terminated string through a pointer.

The memory a pointer leads to is the list of the symbols from there to the end of
the array. A reader gets it as it is, with whatever is left behind the terminator,
and has no result if it runs off the end. `Within` says that a reader looks at a
string and its terminator only: it has a result, and the same one whatever is left
behind them.

* `skip_append`, `word_append`, `strchr_append`: the loops over separators and words
  stop at the terminator.
-/

namespace Ircu.Cursor

variable {α β : Type*} [DecidableEq α]

/-- The loop over separators: `while (*s == sep) s++`. -/
def skip (sep : α) : List α → Option (List α)
  | [] => none
  | c :: s => if c = sep then skip sep s else some (c :: s)

/-- The loop over a word: `for (; *s != sep && *s; s++)`. The word, and where it
ends. -/
def word (nul sep : α) : List α → Option (List α × List α)
  | [] => none
  | c :: s =>
    if c = sep ∨ c = nul then some ([], c :: s)
    else (word nul sep s).map fun r => (c :: r.1, r.2)

/-- `strchr(s, sep)`, with the text in front of the separator and the pointer
behind it. Without a separator, only the text. -/
def strchr (nul sep : α) (s : List α) : Option (List α × Option (List α)) :=
  (word nul sep s).map fun r => (r.1, if r.2.head? = some sep then some r.2.tail else none)

def text (nul : α) : List α → Option (List α)
  | [] => none
  | c :: s => if c = nul then some [] else (text nul s).map (c :: ·)

/-- `f` reads the string `l` and its terminator only. -/
def Within (nul : α) (f : List α → Option β) (l : List α) : Prop :=
  ∃ r, ∀ stale, f (l ++ nul :: stale) = some r

def inWord (nul sep : α) (c : α) : Bool := c ≠ sep && c ≠ nul

section Append

variable (nul sep : α) (l stale : List α)

lemma skip_append (h : nul ≠ sep) :
    skip sep (l ++ nul :: stale) = some (l.dropWhile (· = sep) ++ nul :: stale) := by
  induction l with
  | nil => simp [skip, h]
  | cons c l ih =>
    by_cases hc : c = sep
    · simpa [skip, hc] using ih
    · simp [skip, hc]

lemma word_append : word nul sep (l ++ nul :: stale) =
      some (l.takeWhile (inWord nul sep), l.dropWhile (inWord nul sep) ++ nul :: stale) := by
  induction l with
  | nil => simp [word]
  | cons c l ih =>
    by_cases hc : c = sep ∨ c = nul
    · have hin : inWord nul sep c = false := by rcases hc with hc | hc <;> simp [inWord, hc]
      simp [word, hc, hin]
    · have hin : inWord nul sep c = true := by simpa [inWord] using hc
      simp [word, hc, hin, ih]

lemma text_append : text nul (l ++ nul :: stale) = some (l.takeWhile (· ≠ nul)) := by
  induction l with
  | nil => simp [text]
  | cons c l ih =>
    by_cases hc : c = nul
    · simp [text, hc]
    · simp [text, hc, ih]

lemma strchr_append (h : nul ≠ sep) : strchr nul sep (l ++ nul :: stale) =
      some (l.takeWhile (inWord nul sep), if (l.dropWhile (inWord nul sep)).head? = some sep then
          some ((l.dropWhile (inWord nul sep)).tail ++ nul :: stale) else none) := by
  rw [strchr, word_append]
  cases l.dropWhile (inWord nul sep) with
  | nil => simp [h]
  | cons c l => simp

end Append

end Ircu.Cursor
