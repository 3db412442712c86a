import Mathlib.Tactic

/-!
Texts that are too long for one line, in the SDK: `splitForLine` of `message.ts`, and
`splitMultiline` and `joinMultiline` of `batch.ts`.

A string of JavaScript is the list of its code points, halves of pairs that stand alone included.
Sizes are in bytes of UTF-8, but positions in units of UTF-16: a cut within a code point has no
result. A line feed is 10, and a space 32.

* `breakLine_spec`, `rest_lines`: the pieces of a line, and of all lines, are joined again;
* `splitLoop_spec`: what is put off to the next piece is at most 22 units long, so it fits.
-/

namespace Ircu.Sdk

open List

abbrev Text := List ℕ

def lit (s : String) : Text := s.toList.map Char.toNat

/-- The bytes of a code point; half a pair is encoded as U+FFFD. -/
def size (c : ℕ) : ℕ :=
  if c < 0x80 then 1 else if c < 0x800 then 2 else if c < 0x10000 then 3 else 4

def units (c : ℕ) : ℕ := if c < 0x10000 then 1 else 2

def byteLength (text : Text) : ℕ := (text.map size).sum

def unitLength (text : Text) : ℕ := (text.map units).sum

lemma size_le (c : ℕ) : size c ≤ 4 ∧ size c ≤ 3 * units c ∧ 0 < units c := by
  rw [size, units]
  split_ifs <;> omega

variable {a b text current line : Text} {room bytes : ℕ}

@[simp] lemma byteLength_append : byteLength (a ++ b) = byteLength a + byteLength b := by
  simp [byteLength]

@[simp] lemma byteLength_cons {c} : byteLength (c :: a) = size c + byteLength a := by
  simp [byteLength]

@[simp] lemma byteLength_nil : byteLength [] = 0 := rfl

/-! ### Batches of lines -/

structure Piece where
  text : Text
  concat : Bool
  deriving DecidableEq

structure Limits where
  maxBytes : ℚ
  maxLines : ℚ

/-- The pieces of a line, from `current` with its `bytes` on. -/
def breakLine (room : ℕ) : Bool → Text → ℕ → Text → List Piece
  | firstPiece, current, _, [] => if current = [] then [] else [⟨current, !firstPiece⟩]
  | firstPiece, current, bytes, c :: line =>
    if bytes + size c > room then ⟨current, !firstPiece⟩ :: breakLine room false [c] (size c) line
    else breakLine room firstPiece (current ++ [c]) (bytes + size c) line

def linePieces (room : ℕ) (line : Text) : List Piece :=
  if byteLength line ≤ room then [⟨line, false⟩] else breakLine room true [] 0 line

def splitMultiline (text : Text) (overheadBytes : ℤ) (limits : Limits) (lineLimit : ℤ) :
    List Piece :=
  let room := (max 1 (lineLimit - overheadBytes)).toNat
  let pieces := (text.splitOn 10).flatMap (linePieces room)
  let total := (pieces.map fun p => byteLength p.text).sum
  if pieces.length > limits.maxLines then []
  else if limits.maxBytes ≠ 0 ∧ total > limits.maxBytes then []
  else pieces

/-- A line of a batch, with the keys of its tags. -/
structure Message where
  tags : List Text
  command : Text
  params : List Text

structure OpenBatch where
  type : Text
  messages : List Message

def joinLoop : Bool → Text → List Message → Text
  | _, out, [] => out
  | first, out, msg :: messages =>
    if msg.command ≠ lit "PRIVMSG" ∧ msg.command ≠ lit "NOTICE" then joinLoop first out messages
    else
      let text := msg.params[1]?.getD []
      if first then joinLoop false text messages
      else if lit "draft/multiline-concat" ∈ msg.tags then joinLoop false (out ++ text) messages
      else joinLoop false (out ++ 10 :: text) messages

def joinMultiline (batch : OpenBatch) : Option Text :=
  if batch.type ≠ lit "draft/multiline" then none else some (joinLoop true [] batch.messages)

/-- The line in which `sendMultiline` sends a piece. -/
def Piece.message (command target : Text) (p : Piece) : Message :=
  ⟨lit "batch" :: if p.concat then [lit "draft/multiline-concat"] else [], command,
    [target, p.text]⟩

/-- The text of further pieces. -/
def rest (ps : List Piece) : Text :=
  ps.flatMap fun p => if p.concat then p.text else 10 :: p.text

variable {command : Text} {ps : List Piece}

lemma joinLoop_pieces (hc : command = lit "PRIVMSG" ∨ command = lit "NOTICE") (target out : Text) :
    joinLoop false out (ps.map (Piece.message command target)) = out ++ rest ps := by
  have hcmd : ¬(command ≠ lit "PRIVMSG" ∧ command ≠ lit "NOTICE") := by tauto
  induction ps generalizing out with
  | nil => exact (append_nil out).symm
  | cons p ps ih =>
    obtain ⟨text, concat⟩ := p
    rw [map_cons, joinLoop]
    cases concat <;> exact (if_neg hcmd).trans ((ih _).trans (append_assoc ..))

lemma breakLine_spec (hroom : 4 ≤ room) (first : Bool) (hb : bytes = byteLength current)
    (hle : bytes ≤ room) (hne : current ++ line ≠ []) :
    ∃ p ps, breakLine room first current bytes line = ⟨p, !first⟩ :: ps ∧
      p ++ rest ps = current ++ line ∧
      ∀ q ∈ (⟨p, !first⟩ :: ps : List Piece), byteLength q.text ≤ room := by
  induction line generalizing first current bytes with
  | nil =>
    rw [append_nil] at hne ⊢
    exact ⟨current, [], if_neg hne, append_nil _, by simpa [← hb] using hle⟩
  | cons c line ih =>
    rw [breakLine]
    have hc := (size_le c).1
    split_ifs with hover
    · obtain ⟨p, ps, heq, hjoin, hall⟩ := @ih [c] (size c) false (by simp) (by omega) (by simp)
      refine ⟨current, _, rfl, ?_, ?_⟩
      · rw [heq]
        exact congrArg (current ++ ·) hjoin
      · rw [heq]
        exact forall_mem_cons.mpr ⟨hb ▸ hle, hall⟩
    · obtain ⟨p, ps, heq, hjoin, hall⟩ := @ih (current ++ [c]) (bytes + size c) first
        (by simp [hb]) (by omega) (by simp)
      exact ⟨p, ps, heq, by simpa using hjoin, hall⟩

lemma linePieces_spec (hroom : 4 ≤ room) (line : Text) :
    ∃ p ps, linePieces room line = ⟨p, false⟩ :: ps ∧ p ++ rest ps = line ∧
      ∀ q ∈ (⟨p, false⟩ :: ps : List Piece), byteLength q.text ≤ room := by
  rw [linePieces]
  split_ifs with hle
  · exact ⟨line, [], rfl, append_nil _, by simpa using hle⟩
  · exact breakLine_spec hroom true rfl (Nat.zero_le _) fun h =>
      hle (by simp [append_eq_nil_iff.mp h])

lemma rest_lines (hroom : 4 ≤ room) (lines : List Text) :
    rest (lines.flatMap (linePieces room)) = lines.flatMap (10 :: ·) := by
  induction lines with
  | nil => rfl
  | cons line lines ih =>
    obtain ⟨p, ps, heq, hjoin, -⟩ := linePieces_spec hroom line
    rw [flatMap_cons, flatMap_cons, ← ih, heq, rest, flatMap_append]
    exact congrArg (fun l => 10 :: l ++ _) hjoin

lemma flatMap_eq_intercalate (x : ℕ) {ls : List Text} (h : ls ≠ []) :
    ls.flatMap (x :: ·) = x :: [x].intercalate ls := by
  induction ls with
  | nil => exact absurd rfl h
  | cons l ls ih =>
    cases ls with
    | nil => simp
    | cons m ls =>
      rw [flatMap_cons, ih (by simp)]
      simp [intercalate]

/-- **Sending a text as a batch.** The pieces are within the limits, where a limit of no bytes is
none, and join to the text again. -/
theorem splitMultiline_join {overheadBytes lineLimit : ℤ} {limits : Limits} (text : Text)
    (hroom : 4 ≤ lineLimit - overheadBytes) {pieces : List Piece}
    (hpieces : splitMultiline text overheadBytes limits lineLimit = pieces) (hne : pieces ≠ []) :
    (∀ p ∈ pieces, (byteLength p.text : ℤ) ≤ lineLimit - overheadBytes) ∧
    pieces.length ≤ limits.maxLines ∧
    (limits.maxBytes = 0 ∨ (pieces.map fun p => byteLength p.text).sum ≤ limits.maxBytes) ∧
    ∀ command target, command = lit "PRIVMSG" ∨ command = lit "NOTICE" →
      joinMultiline ⟨lit "draft/multiline", pieces.map (Piece.message command target)⟩ =
        some text := by
  obtain ⟨room, hr⟩ : ∃ room : ℕ, lineLimit - overheadBytes = room :=
    ⟨_, (Int.toNat_of_nonneg (by omega)).symm⟩
  have hroom' : 4 ≤ room := by omega
  rw [splitMultiline, hr, max_eq_right (by omega), Int.toNat_natCast] at hpieces
  split_ifs at hpieces with hlines hbytes
  · exact absurd hpieces.symm hne
  · exact absurd hpieces.symm hne
  subst hpieces
  refine ⟨fun p hp => ?_, not_lt.mp hlines, by grind, fun command target hc => ?_⟩
  · obtain ⟨line, -, hp⟩ := mem_flatMap.mp hp
    obtain ⟨q, ps, heq, -, hall⟩ := linePieces_spec hroom' line
    rw [hr]
    exact_mod_cast hall p (heq ▸ hp)
  · have hrest := rest_lines hroom' (text.splitOn 10)
    rw [flatMap_eq_intercalate _ (splitOn_ne_nil _ _), intercalate_splitOn] at hrest
    cases hsplit : text.splitOn 10 with
    | nil => exact absurd hsplit (splitOn_ne_nil _ _)
    | cons line lines =>
      obtain ⟨p, ps, heq, -, -⟩ := linePieces_spec hroom' line
      rw [hsplit, flatMap_cons, heq] at hrest
      rw [flatMap_cons, heq]
      have hjoin := @joinLoop_pieces command (ps ++ lines.flatMap (linePieces room)) hc target p
      have hcmd : ¬(command ≠ lit "PRIVMSG" ∧ command ≠ lit "NOTICE") := by tauto
      rw [joinMultiline, if_neg (by simp), cons_append, map_cons, joinLoop]
      exact congrArg some ((if_neg hcmd).trans (hjoin.trans (cons.inj hrest).2))

theorem splitMultiline_join_two :
    joinMultiline ⟨lit "draft/multiline", (splitMultiline (lit "ab\ncdefg") 8 ⟨9, 9⟩ 12).map
      (Piece.message (lit "NOTICE") (lit "#c"))⟩ = some (lit "ab\ncdefg") :=
  (splitMultiline_join _ (by decide) rfl (by decide)).2.2.2 _ _ (.inr rfl)

theorem splitMultiline_no_bytes :
    (splitMultiline (lit "a") 0 ⟨0, 1⟩ 512).map (·.text) = [lit "a"] ∧
      byteLength (lit "a") > 0 := by
  decide

/-! ### Separate lines -/

/-- `text.slice(0, n)` and `text.slice(n)`. -/
def cutUnits : ℕ → Text → Option (Text × Text)
  | _, [] => some ([], [])
  | n, c :: text =>
    if n = 0 then some ([], c :: text)
    else if n < units c then none
    else (cutUnits (n - units c) text).map fun r => (c :: r.1, r.2)

/-- `text.lastIndexOf(' ')`. -/
def lastSpace : Text → ℤ
  | [] => -1
  | c :: text =>
    if 0 ≤ lastSpace text then units c + lastSpace text else if c = 32 then 0 else -1

def flush (current : Text) : List Text := if current = [] then [] else [current]

/-- The loop of `splitForLine`, with `current` and `currentBytes`. -/
def splitLoop (room : ℕ) : Text → ℕ → Text → Option (List Text)
  | current, _, [] => some (flush current)
  | current, bytes, c :: text =>
    if bytes + size c > room then
      if lastSpace current > 0 ∧ lastSpace current > unitLength current - 24 then
        (cutUnits (lastSpace current).toNat current).bind fun head =>
          (cutUnits ((lastSpace current).toNat + 1) current).bind fun tail =>
            (splitLoop room (tail.2 ++ [c]) (byteLength tail.2 + size c) text).map (head.1 :: ·)
      else (splitLoop room [c] (size c) text).map (flush current ++ ·)
    else splitLoop room (current ++ [c]) (bytes + size c) text

def splitForLine (text : Text) (overheadBytes : ℤ) (limit : ℤ) : Option (List Text) :=
  let room := limit - overheadBytes
  if room ≤ 0 ∨ byteLength text ≤ room then some [text] else splitLoop room.toNat [] 0 text

/-- The text is that of the pieces, with nothing or one space at each break. -/
inductive Joined : List Text → Text → Prop
  | last (p : Text) : Joined [p] p
  | next {p t : Text} {ps} (h : Joined ps t) : Joined (p :: ps) (p ++ t)
  | space {p t : Text} {ps} (h : Joined ps t) : Joined (p :: ps) (p ++ 32 :: t)

@[simp] lemma unitLength_append : unitLength (a ++ b) = unitLength a + unitLength b := by
  simp [unitLength]

@[simp] lemma unitLength_cons {c} : unitLength (c :: a) = units c + unitLength a := by
  simp [unitLength]

lemma cutUnits_append (a b : Text) : cutUnits (unitLength a) (a ++ b) = some (a, b) := by
  induction a with
  | nil => cases b <;> rfl
  | cons c a ih =>
    have hpos := (size_le c).2.2
    rw [unitLength_cons, cons_append, cutUnits, if_neg (by omega), if_neg (by omega),
      Nat.add_sub_cancel_left, ih]
    rfl

lemma byteLength_le (text : Text) : byteLength text ≤ 3 * unitLength text := by
  induction text with
  | nil => exact le_rfl
  | cons c text ih =>
    have hc := (size_le c).2.1
    rw [byteLength_cons, unitLength_cons]
    omega

lemma lastSpace_spec (h : 0 ≤ lastSpace current) :
    ∃ a b, current = a ++ 32 :: b ∧ lastSpace current = unitLength a := by
  induction current with
  | nil => exact absurd h (by decide)
  | cons c text ih =>
    rw [lastSpace] at h ⊢
    split_ifs at h ⊢ with hin hc
    · obtain ⟨a, b, rfl, hi⟩ := ih hin
      exact ⟨c :: a, b, rfl, by rw [hi, unitLength_cons, Nat.cast_add]⟩
    · exact ⟨[], text, by rw [hc]; rfl, rfl⟩
    · exact absurd h (by decide)

lemma splitLoop_spec (hroom : 70 ≤ room) (hb : bytes = byteLength current) (hle : bytes ≤ room)
    (hne : current ++ text ≠ []) : ∃ out, splitLoop room current bytes text = some out ∧
      (∀ p ∈ out, byteLength p ≤ room) ∧ Joined out (current ++ text) := by
  induction text generalizing current bytes with
  | nil =>
    rw [append_nil] at hne ⊢
    exact ⟨[current], congrArg some (if_neg hne), by simpa [← hb] using hle, .last _⟩
  | cons c text ih =>
    have hc := (size_le c).1
    rw [splitLoop]
    split_ifs with hover hspace
    · obtain ⟨a, b, rfl, hi⟩ := lastSpace_spec hspace.1.le
      have htail := byteLength_le b
      have hunit : units 32 = 1 := by decide
      rw [hi, unitLength_append, unitLength_cons, hunit] at hspace
      rw [byteLength_append, byteLength_cons] at hb
      obtain ⟨out, heq, hall, hjoin⟩ := @ih (b ++ [c]) (byteLength b + size c) (by simp) (by omega)
        (by simp)
      refine ⟨a :: out, ?_, forall_mem_cons.mpr ⟨by omega, hall⟩, ?_⟩
      · have hcut : cutUnits (unitLength a + 1) (a ++ 32 :: b) = some (a ++ [32], b) := by
          rw [append_cons, ← cutUnits_append (a ++ [32]), unitLength_append]
          rfl
        rw [hi, Int.toNat_natCast, cutUnits_append, hcut, Option.bind_some, Option.bind_some, heq]
        rfl
      · simpa using hjoin.space (p := a)
    · have hcurrent : current ≠ [] := fun h => by simp [hb, h] at hover; omega
      obtain ⟨out, heq, hall, hjoin⟩ := @ih [c] (size c) (by simp) (by omega) (by simp)
      refine ⟨current :: out, ?_, forall_mem_cons.mpr ⟨hb ▸ hle, hall⟩, hjoin.next⟩
      rw [heq, flush, if_neg hcurrent]
      rfl
    · obtain ⟨out, heq, hall, hjoin⟩ := @ih (current ++ [c]) (bytes + size c) (by simp [hb])
        (not_lt.mp hover) (by simp)
      exact ⟨out, heq, hall, by simpa using hjoin⟩

/-- **Separate lines.** No code point is cut, all pieces fit, and nothing of the text but single
spaces is lost. -/
theorem splitForLine_pieces (text : Text) {overheadBytes : ℤ} (h : overheadBytes ≤ 400) :
    ∃ out, splitForLine text overheadBytes 512 = some out ∧
      (∀ p ∈ out, byteLength p ≤ 512 - overheadBytes) ∧ Joined out text := by
  rw [splitForLine]
  split_ifs with hfits
  · exact ⟨[text], rfl, by simpa using hfits.resolve_left (by omega), .last text⟩
  have hne : text ≠ [] := fun hnil => hfits (.inr (by simp [hnil]; omega))
  obtain ⟨out, heq, hall, hjoin⟩ := @splitLoop_spec text [] (512 - overheadBytes).toNat 0 (by omega)
    rfl (by omega) hne
  exact ⟨out, heq, fun p hp => by have := hall p hp; omega, hjoin⟩

/-- Two words of 60 bytes in lines with room for 112. -/
theorem splitForLine_pieces_two : let words := replicate 60 97 ++ 32 :: replicate 60 98
    ∃ out, splitForLine words 400 512 = some out ∧ out.length = 2 ∧ Joined out words := by
  intro words
  obtain ⟨out, hsplit, -, hjoin⟩ := splitForLine_pieces words (le_refl 400)
  have htwo : (splitForLine words 400 512).map length = some 2 := by decide +kernel
  rw [hsplit] at htwo
  exact ⟨out, hsplit, Option.some.inj htwo, hjoin⟩

end Ircu.Sdk
