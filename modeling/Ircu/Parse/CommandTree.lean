import Ircu.Parse.Server

/-!
The trees in which commands and tokens are looked up: `add_msg_element` and
`del_msg_element` of `parse.c`.

A node has a child for each value of the lower five bits of a character. Adding and removing
go by these bits alone, while a look-up gives up at a character that no command has.

* `MessageTree.find`: what a tree holds under a sequence of slots.
* `find_addMsgElement`, `find_delMsgElement`: what it holds afterwards.
-/

namespace Ircu.Parse

open List Option Prod

variable {μ : Type}

abbrev MAXPTRLEN : ℕ := 32

lemma slot_lt (c : UInt8) : c.toNat % 32 < MAXPTRLEN := Nat.mod_lt _ (Nat.succ_pos 31)

/-- The slot of a character, `*cmd & (MAXPTRLEN-1)`. -/
def slot (c : UInt8) : Fin MAXPTRLEN := ⟨c.toNat % 32, slot_lt c⟩

namespace MessageTree

def msg : MessageTree μ → Option μ
  | node msg _ => msg

def pointers : MessageTree μ → Fin MAXPTRLEN → Option (MessageTree μ)
  | node _ pointers => pointers

def empty : MessageTree μ := node none fun _ => none

def setPointer (t : MessageTree μ) (i : Fin MAXPTRLEN) (p : Option (MessageTree μ)) :
    MessageTree μ :=
  node t.msg fun j => if j = i then p else t.pointers j

def occupied (t : MessageTree μ) : Bool :=
  t.msg.isSome || decide (∃ i, (t.pointers i).isSome = true)

def find (t : MessageTree μ) : List (Fin MAXPTRLEN) → Option μ
  | [] => t.msg
  | i :: path => (t.pointers i).bind fun n => n.find path

lemma find_cons (t : MessageTree μ) (i) (path : List (Fin MAXPTRLEN)) :
    t.find (i :: path) = (t.pointers i).bind fun n => n.find path := rfl

@[simp] lemma find_empty (path : List (Fin MAXPTRLEN)) :
    (empty : MessageTree μ).find path = none := by
  cases path <;> rfl

lemma pointers_setPointer (t : MessageTree μ) (i j : Fin MAXPTRLEN) (p) :
    (t.setPointer i p).pointers j = if j = i then p else t.pointers j := rfl

lemma find_of_not_occupied {t : MessageTree μ} (h : t.occupied = false)
    (path : List (Fin MAXPTRLEN)) : t.find path = none := by
  rw [occupied, Bool.or_eq_false_iff, decide_eq_false_iff_not] at h
  cases path with
  | nil => simpa [find] using h.1
  | cons i path =>
    have hi : t.pointers i = none := by
      by_contra hi
      exact h.2 ⟨i, isSome_iff_ne_none.mpr hi⟩
    rw [find_cons, hi, bind_none]

end MessageTree

open MessageTree

/-! ### Adding and removing -/

def addMsgElement (t : MessageTree μ) (msg : μ) : List UInt8 → MessageTree μ
  | [] => .node (some msg) t.pointers
  | c :: cmd =>
    match t.pointers (slot c) with
    | some n => t.setPointer (slot c) (addMsgElement n msg cmd)
    | none => t.setPointer (slot c) (addMsgElement .empty msg cmd)

/-- The node afterwards, and whether it is returned, or freed unless it is a root. Following a
pointer that is not there has no result. -/
def delMsgElement (t : MessageTree μ) : List UInt8 → Option (MessageTree μ × Bool)
  | [] =>
    let t := MessageTree.node none t.pointers
    some (t, t.occupied)
  | c :: cmd =>
    match t.pointers (slot c) with
    | none => none
    | some n =>
      (delMsgElement n cmd).map fun (n, kept) =>
        let t := t.setPointer (slot c) (if kept then some n else none)
        (t, t.occupied)

def slots (cmd : List UInt8) : List (Fin MAXPTRLEN) := cmd.map slot

lemma find_addMsgElement (t) (msg : μ) (cmd) (q : List (Fin MAXPTRLEN)) :
    (addMsgElement t msg cmd).find q = if q = slots cmd then some msg else t.find q := by
  induction cmd generalizing t q with
  | nil =>
    cases q with
    | nil => rfl
    | cons i q => exact (if_neg (cons_ne_nil i q)).symm
  | cons c cmd ih =>
    have hadd : addMsgElement t msg (c :: cmd) = t.setPointer (slot c)
        (addMsgElement ((t.pointers (slot c)).getD .empty) msg cmd) := by
      rw [addMsgElement]
      cases t.pointers (slot c) <;> rfl
    rw [hadd]
    cases q with
    | nil => exact (if_neg (cons_ne_nil _ _).symm).symm
    | cons i q =>
      rw [find_cons, pointers_setPointer, slots, map_cons, ← slots]
      by_cases hi : i = slot c
      · subst hi
        rw [if_pos rfl, bind_some, ih, find_cons]
        cases t.pointers (slot c) <;> simp
      · rw [if_neg hi, if_neg (by simp [hi]), find_cons]

variable {cmd : List UInt8} {kept : Bool} {t t' : MessageTree μ}

lemma kept_of_delMsgElement (h : delMsgElement t cmd = some (t', kept)) : t'.occupied = kept := by
  cases cmd with
  | nil =>
    obtain ⟨rfl, rfl⟩ := mk.inj (some.inj h)
    rfl
  | cons c cmd =>
    rw [delMsgElement] at h
    split at h
    · cases h
    · obtain ⟨⟨n, k⟩, -, heq⟩ := map_eq_some_iff.mp h
      obtain ⟨rfl, rfl⟩ := mk.inj heq
      rfl

lemma find_delMsgElement (h : delMsgElement t cmd = some (t', kept)) (q : List (Fin MAXPTRLEN)) :
    t'.find q = if q = slots cmd then none else t.find q := by
  induction cmd generalizing t t' kept q with
  | nil =>
    obtain ⟨rfl, -⟩ := mk.inj (some.inj h)
    cases q with
    | nil => rfl
    | cons i q => exact (if_neg (cons_ne_nil i q)).symm
  | cons c cmd ih =>
    rw [delMsgElement] at h
    split at h
    · cases h
    rename_i n hn
    obtain ⟨⟨n', k⟩, hk, heq⟩ := map_eq_some_iff.mp h
    obtain ⟨rfl, -⟩ := mk.inj heq
    cases q with
    | nil => exact (if_neg (cons_ne_nil _ _).symm).symm
    | cons i q =>
      rw [find_cons, pointers_setPointer, slots, map_cons, ← slots]
      by_cases hi : i = slot c
      · subst hi
        -- a node that is freed holds nothing
        have hbelow : ((if k then some n' else none).bind fun n => n.find q) = n'.find q := by
          cases k with
          | true => rfl
          | false => exact (find_of_not_occupied (kept_of_delMsgElement hk) q).symm
        rw [if_pos rfl, hbelow, ih hk, find_cons, hn]
        simp
      · rw [if_neg hi, if_neg (by simp [hi]), find_cons]

lemma delMsgElement_isSome (h : t.find (slots cmd) ≠ none) :
    ∃ t' kept, delMsgElement t cmd = some (t', kept) := by
  induction cmd generalizing t with
  | nil => exact ⟨_, _, rfl⟩
  | cons c cmd ih =>
    rw [slots, map_cons, find_cons] at h
    rw [delMsgElement]
    cases hn : t.pointers (slot c) with
    | none =>
      rw [hn] at h
      exact absurd rfl h
    | some n =>
      rw [hn] at h
      obtain ⟨n', kept, heq⟩ := ih h
      dsimp only
      rw [heq]
      exact ⟨_, _, rfl⟩

/-! ### Looking up -/

def isName (cmd : List UInt8) : Bool := cmd.all isCommand

/-- **A look-up** returns what the tree holds under the slots of a name. -/
lemma msgTreeParse_eq (t : MessageTree μ) (cmd) :
    msgTreeParse cmd t = if isName cmd then t.find (slots cmd) else none := by
  induction cmd generalizing t with
  | nil =>
    cases t
    rfl
  | cons c cmd ih =>
    obtain ⟨msg, pointers⟩ := t
    have hfun : (fun n : MessageTree μ => msgTreeParse cmd n) =
        fun n => if isName cmd then n.find (slots cmd) else none := funext ih
    rw [msgTreeParse, isName, all_cons, ← isName, slots, map_cons]
    cases isCommand c with
    | false => rfl
    | true =>
      change (pointers (slot c)).bind (fun n => msgTreeParse cmd n) = _
      rw [hfun]
      cases isName cmd <;> simp
      rfl

lemma msgTreeParse_add (t) (msg : μ) (cmd name : List UInt8) :
    msgTreeParse name (addMsgElement t msg cmd) =
      if isName name ∧ slots name = slots cmd then some msg else msgTreeParse name t := by
  rw [msgTreeParse_eq, msgTreeParse_eq, find_addMsgElement]
  by_cases hname : isName name = true <;> simp [hname]

lemma msgTreeParse_del (h : delMsgElement t cmd = some (t', kept)) (name : List UInt8) :
    msgTreeParse name t' = if slots name = slots cmd then none else msgTreeParse name t := by
  rw [msgTreeParse_eq, msgTreeParse_eq, find_delMsgElement h]
  split_ifs <;> rfl

lemma msgTreeParse_eq_none {name} (hname : isName cmd = true)
    (hnone : msgTreeParse cmd t = none) (h : slots name = slots cmd) :
    msgTreeParse name t = none := by
  rw [msgTreeParse_eq, if_pos hname] at hnone
  rw [msgTreeParse_eq, h, hnone, ite_self]

lemma msgTreeParse_add_of_some {msg q name} (hname : isName cmd = true)
    (hnone : msgTreeParse cmd t = none) (hq : msgTreeParse name t = some q) :
    msgTreeParse name (addMsgElement t msg cmd) = some q := by
  rw [msgTreeParse_add, if_neg, hq]
  rintro ⟨-, hs⟩
  rw [msgTreeParse_eq_none hname hnone hs] at hq
  cases hq

lemma msgTreeParse_del_add {msg} (hname : isName cmd = true) (hnone : msgTreeParse cmd t = none)
    (hdel : delMsgElement (addMsgElement t msg cmd) cmd = some (t', kept)) (name : List UInt8) :
    msgTreeParse name t' = msgTreeParse name t := by
  rw [msgTreeParse_del hdel, msgTreeParse_add]
  by_cases hs : slots name = slots cmd
  · rw [if_pos hs, msgTreeParse_eq_none hname hnone hs]
  · rw [if_neg hs, if_neg (by simp [hs])]

end Ircu.Parse
