import Mathlib.Tactic

/-!
Nested sections of a stream, where every entry names the section it stands in.

An entry opens a section, closes one, or is neither; in any case it names the innermost
section that is open around it, or none. `read` follows a stream with the stack of open
sections, the innermost first, and has no result when the stream is not well nested or an
entry names a wrong section.
-/

namespace Ircu.Nest

inductive Mark (ι : Type*) where
  | opens (i : ι)
  | closes (i : ι)
  | inside
deriving DecidableEq

structure Entry (ι : Type*) where
  mark : Mark ι
  within : Option ι
deriving DecidableEq

variable {ι : Type*} [DecidableEq ι]

/-- One entry. The line that opens or closes a section stands outside of it. -/
def readEntry (stack : List ι) (e : Entry ι) : Option (List ι) :=
  match e.mark with
  | .opens i => if e.within = stack.head? then some (i :: stack) else none
  | .closes i =>
    if stack.head? = some i ∧ e.within = stack.tail.head? then some stack.tail else none
  | .inside => if e.within = stack.head? then some stack else none

def read (es : List (Entry ι)) : Option (List ι) := es.foldlM readEntry []

@[simp] lemma read_nil : read ([] : List (Entry ι)) = some [] := rfl

variable {es : List (Entry ι)} {e : Entry ι} {stack : List ι} {i : ι}

lemma read_concat (h : read es = some stack) : read (es ++ [e]) = readEntry stack e := by
  rw [read] at h
  rw [read, List.foldlM_append, h]
  change (List.foldlM readEntry stack [e]) = _
  rw [List.foldlM_cons]
  cases readEntry stack e <;> rfl

@[simp] lemma readEntry_opens : readEntry stack ⟨.opens i, stack.head?⟩ = some (i :: stack) :=
  if_pos rfl

@[simp] lemma readEntry_closes : readEntry (i :: stack) ⟨.closes i, stack.head?⟩ = some stack :=
  if_pos ⟨rfl, rfl⟩

@[simp] lemma readEntry_inside : readEntry stack ⟨.inside, stack.head?⟩ = some stack := if_pos rfl

end Ircu.Nest
