import Ircu.Chattr

/-!
Message tags of an input line: `msg_tag_parse` of `msg_tag.c`.

The function gets the tag section between two pointers and puts a terminator at its
end before it looks for anything, so the section is a list of bytes here. A tag that
has a NUL in it ends there, as every string.
-/

namespace Ircu.MsgTag

def MAX_PARSE_TAGS : ℕ := 64

/-- `struct MsgTag`. A tag without `=` has no value. -/
structure Tag where
  key : List UInt8
  value : Option (List UInt8)
  deriving DecidableEq

/-- An escape that means nothing loses its backslash, and so does the end of the value. -/
def msgTagUnescape : List UInt8 → List UInt8
  | [] => []
  | [c] => if c = ch '\\' then [] else [c]
  | c :: d :: value =>
    if c = ch '\\' then
      if d = ch 's' then ch ' ' :: msgTagUnescape value
      else if d = ch ':' then ch ';' :: msgTagUnescape value
      else if d = ch '\\' then ch '\\' :: msgTagUnescape value
      else if d = ch 'r' then 0x0d :: msgTagUnescape value
      else if d = ch 'n' then 0x0a :: msgTagUnescape value
      else d :: msgTagUnescape value
    else c :: msgTagUnescape (d :: value)

/-- One tag, up to the `;` behind it: pushed in front of the others unless its key is
empty. -/
def pushTag (head : List Tag) (tag : List UInt8) : List Tag :=
  let tag := tag.takeWhile (· ≠ 0)
  let key := tag.takeWhile (· ≠ ch '=')
  let value :=
    match tag.dropWhile (· ≠ ch '=') with
    | [] => none
    | _ :: value => some (msgTagUnescape value)
  if key = [] then head else ⟨key, value⟩ :: head

/-- The loop of `msg_tag_parse`, with `p` the rest of the section. -/
def msgTagLoop : ℕ → List Tag → List UInt8 → List Tag
  | 0, head, _ => head
  | n + 1, head, p =>
    if p = [] ∨ MAX_PARSE_TAGS ≤ head.length then head
    else
      let head := pushTag head (p.takeWhile (· ≠ ch ';'))
      match p.dropWhile (· ≠ ch ';') with
      | [] => head
      | _ :: p => msgTagLoop n head p

/-- The tags of a section, the last one first. Every round leaves a shorter rest, so the length of
the section is enough. -/
def msgTagParse (section_ : List UInt8) : List Tag := msgTagLoop section_.length [] section_

end Ircu.MsgTag
