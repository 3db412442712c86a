import Ircu.Packet.Basic
import Ircu.Parse.Server

/-!
What `parse_server` reads behind the terminator of a line.

Everything behind the prefix stays within the line (`command_within`), and so do the
tags. The prefix does not: a numeric prefix is passed by advancing before the first
test, a space is looked for at fixed offsets, and what an unknown sender has sent is
judged by bytes that need not be there. `Short` lists the lines to which this happens.
-/

namespace Ircu.Parse

open Cursor MsgTag List Option Packet

abbrev isWordByte : UInt8 → Bool := inWord 0 (ch ' ')

def afterTags (line : List UInt8) : Option (List UInt8) :=
  let l := line.dropWhile (· = ch ' ')
  if l.head? = some (ch '@') then
    match l.dropWhile (· ≠ ch ' ') with
    | [] => none
    | _ :: rest => some rest
  else some l

def lineTags (line : List UInt8) : List Tag :=
  let l := line.dropWhile (· = ch ' ')
  if l.head? = some (ch '@') ∧ (afterTags line).isSome then
    msgTagParse (l.takeWhile (· ≠ ch ' ')).tail
  else []

def behindWord (l : List UInt8) : List UInt8 :=
  (l.dropWhile isWordByte).dropWhile (· = ch ' ')

section

variable {κ μ : Type} (net : Net κ μ)

def numericSender (l : List UInt8) : Option κ :=
  let p := (l.takeWhile isWordByte).take 5
  if l[1]? = some (ch ' ') ∨ l[2]? = some (ch ' ') then net.findNServer p else net.findNUser p

/-- **The lines whose prefix is read beyond the terminator**, from behind their tags
on: an empty one; an unknown name with nothing but blanks behind it; a numeric prefix
of one byte with nothing behind it; an unknown numeric with nothing but blanks, or a
lone `K`, behind it. -/
def Short : List UInt8 → Prop
  | [] => True
  | c :: l =>
    if c = ch ':' then
      (l.dropWhile isWordByte).head? = some (ch ' ') ∧
        net.findClient (l.takeWhile isWordByte) = none ∧ behindWord l = []
    else isWordByte c ∧ (l = [] ∨ numericSender net (c :: l) = none ∧
      (behindWord (c :: l) = [] ∨ behindWord (c :: l) = [ch 'K']))

/-- The line is read beyond its terminator. -/
def Overread (line : List UInt8) : Prop :=
  net.isDead net.cptr = false ∧ ∃ rest ∈ afterTags line, Short net rest

/-! ### Tags -/

lemma skipLeading_append (l stale) : skipLeading l.length (l ++ stale) =
      some ((l.dropWhile (· = ch ' ')).length, l.dropWhile (· = ch ' ') ++ stale) := by
  induction l with
  | nil => simp [skipLeading]
  | cons c l ih =>
    by_cases hc : c = ch ' '
    · simpa [skipLeading, hc] using ih
    · simp [skipLeading, hc]

lemma tagEnd_append (l stale) :
    tagEnd l.length (l ++ stale) = some (l.takeWhile (· ≠ ch ' '),
        match l.dropWhile (· ≠ ch ' ') with
        | [] => none
        | _ :: rest => some (rest ++ stale)) := by
  induction l with
  | nil => simp [tagEnd]
  | cons c l ih =>
    by_cases hc : c = ch ' '
    · simp [tagEnd, hc]
    · simp only [length_cons, cons_append, tagEnd, if_neg hc, ih, map_some]
      simp [hc]

lemma parseMsgTags_append (line stale : List UInt8) :
    parseMsgTags (line.dropWhile (· = ch ' ')).length (line.dropWhile (· = ch ' ') ++ 0 :: stale) =
      some (lineTags line, (afterTags line).map (· ++ 0 :: stale)) := by
  rw [lineTags, afterTags]
  generalize line.dropWhile (· = ch ' ') = l
  rw [parseMsgTags]
  by_cases hat : l.head? = some (ch '@')
  · have hhead : (l ++ 0 :: stale).head? = some (ch '@') := by
      cases l with
      | nil => simp at hat
      | cons c l => simpa using hat
    simp only [hhead, hat, tagEnd_append, bind_eq_bind, bind_some, ne_eq,
      not_true_eq_false, if_true, if_false, true_and]
    cases l.dropWhile (· ≠ ch ' ') with
    | nil | cons c rest => simp
  · have hhead : ∃ c, (l ++ 0 :: stale).head? = some c ∧ c ≠ ch '@' := by
      cases l with
      | nil => exact ⟨0, rfl, by decide⟩
      | cons c l => exact ⟨c, rfl, by simpa using hat⟩
    obtain ⟨c, hc, hne⟩ := hhead
    simp [hc, hne, hat]

/-! ### Command and parameters -/

lemma nul_ne_blank : (0 : UInt8) ≠ ch ' ' := by decide

lemma skip_line (l stale : List UInt8) :
    skip (ch ' ') (l ++ 0 :: stale) = some (l.dropWhile (· = ch ' ') ++ 0 :: stale) :=
  skip_append _ _ l stale nul_ne_blank

lemma nextParameter_append (numeric : Bool) (l) :
    (∃ last, ∀ stale, nextParameter numeric (l ++ 0 :: stale) = some (.inl last)) ∨
      ∃ k, ∀ stale, nextParameter numeric (l ++ 0 :: stale) = some (.inr (k ++ 0 :: stale)) := by
  cases hl : l.dropWhile (· = ch ' ') with
  | nil => exact .inl ⟨[], fun stale => by simp [nextParameter, skip_line, hl]⟩
  | cons c k =>
    by_cases hc : c = 0
    · exact .inl ⟨[], fun stale => by simp [nextParameter, skip_line, hl, hc]⟩
    by_cases hcolon : c = ch ':'
    · refine .inl ⟨[(if numeric then c :: k else k).takeWhile (· ≠ 0)], fun stale => ?_⟩
      have htext := text_append 0 (if numeric then c :: k else k) stale
      cases numeric <;> simp_all [nextParameter, skip_line]
    · exact .inr ⟨c :: k, fun stale => by simp [nextParameter, skip_line, hl, hc, hcolon]⟩

lemma parameters_within (numeric : Bool) (n : ℕ) (l) : Within 0 (parameters numeric n) l := by
  induction n generalizing l with
  | zero =>
    rcases nextParameter_append numeric l with ⟨last, hlast⟩ | ⟨k, hk⟩
    · exact ⟨last, fun stale => by simp [parameters, hlast]⟩
    · exact ⟨[k.takeWhile (· ≠ 0)], fun stale => by simp [parameters, hk, text_append]⟩
  | succ n ih =>
    rcases nextParameter_append numeric l with ⟨last, hlast⟩ | ⟨k, hk⟩
    · exact ⟨last, fun stale => by simp [parameters, hlast]⟩
    obtain ⟨rest, hrest⟩ := ih (k.dropWhile isWordByte)
    refine ⟨k.takeWhile isWordByte :: rest, fun stale => ?_⟩
    simp only [parameters, hk, word_append, bind_some]
    exact congrArg (Option.map _) (hrest stale)

lemma parv_within (numeric : Bool) (name : List UInt8) (paramcount : ℕ) (s : Option (List UInt8)) :
    ∃ r, ∀ stale, parv numeric name paramcount (s.map (· ++ 0 :: stale)) = some r := by
  cases s with
  | none => exact ⟨[name], fun _ => rfl⟩
  | some l =>
    obtain ⟨rest, hrest⟩ := parameters_within numeric (min paramcount MAXPARA - 1) l
    exact ⟨name :: rest, fun stale => by simp [parv, hrest]⟩

lemma strchr_line (l stale) : strchr 0 (ch ' ') (l ++ 0 :: stale) =
      some (l.takeWhile isWordByte, if (l.dropWhile isWordByte).head? = some (ch ' ') then
          some ((l.dropWhile isWordByte).tail ++ 0 :: stale) else none) :=
  strchr_append _ _ l stale nul_ne_blank

lemma dispatch_within (nnn : Bool) (sender : κ) (name cmd : List UInt8) (s : Option (List UInt8)) :
    ∃ r, ∀ stale, dispatch net nnn sender name cmd (s.map (· ++ 0 :: stale)) = some r := by
  by_cases hnum : s.isSome ∧ cmd.length = 3 ∧ cmd.head?.any isDigit
  · by_cases hval : numericValue cmd < 1 ∨ 999 < numericValue cmd
    · exact ⟨.ret (-1), fun stale => by simp [dispatch, hnum, hval]⟩
    · obtain ⟨r, hr⟩ := parv_within true name 2 s
      exact ⟨.numeric (numericValue cmd) nnn sender r, fun stale => by
        simp [dispatch, hnum, hval, hr]⟩
  cases hm : (msgTreeParse cmd net.tokTree).or (msgTreeParse cmd net.msgTree) with
  | none => exact ⟨.ret (-1), fun stale => by simp [dispatch, hnum, hm]⟩
  | some mptr =>
    obtain ⟨r, hr⟩ := parv_within false name (net.parameters mptr) s
    exact ⟨.command mptr sender r, fun stale => by simp [dispatch, hnum, hm, hr]⟩

/-- **Behind the prefix, the line is read within its bounds.** -/
lemma command_within (nnn : Bool) (sender : κ) (name l) :
    Within 0 (command net nnn sender name) l := by
  cases hl : l.dropWhile (· = ch ' ') with
  | nil => exact ⟨.ret (-1), fun stale => by simp [command, skip_line, hl]⟩
  | cons c k =>
    by_cases hc : c = 0
    · exact ⟨.ret (-1), fun stale => by simp [command, skip_line, hl, hc]⟩
    obtain ⟨r, hr⟩ := dispatch_within net nnn sender name ((c :: k).takeWhile isWordByte)
      (if ((c :: k).dropWhile isWordByte).head? = some (ch ' ') then
        some ((c :: k).dropWhile isWordByte).tail else none)
    refine ⟨r, fun stale => ?_⟩
    rw [← hr stale, command]
    simp only [skip_line, hl, bind_eq_bind, bind_some]
    rw [strchr_line]
    simp only [cons_append, List.head?_cons, bind_some, hc, if_false]
    split_ifs <;> rfl

/-! ### The prefix -/

def Sender.before (tail : List UInt8) : Sender κ → Sender κ
  | .ret code => .ret code
  | .found sender name s => .found sender name (s ++ tail)

lemma follow_within (nnn : Bool) (x : Sender κ) :
    ∃ r, ∀ stale, follow net nnn (x.before (0 :: stale)) = some r := by
  cases x with
  | ret code => exact ⟨.ret code, fun _ => rfl⟩
  | found sender name s => exact command_within net nnn sender name s

lemma takeWhile_colon (l) : (ch ':' :: l).takeWhile isWordByte = ch ':' :: l.takeWhile isWordByte :=
  takeWhile_cons_of_pos (by decide)

lemma dropWhile_colon (l) : (ch ':' :: l).dropWhile isWordByte = l.dropWhile isWordByte :=
  dropWhile_cons_of_pos (by decide)

variable {l : List UInt8} {c : UInt8}

lemma behindWord_tail (h : (l.dropWhile isWordByte).head? = some (ch ' ')) :
    (l.dropWhile isWordByte).tail.dropWhile (· = ch ' ') = behindWord l := by
  rw [behindWord]
  cases hk : l.dropWhile isWordByte with
  | nil => simp [hk] at h
  | cons c k =>
    rw [hk, List.head?_cons, some_inj] at h
    simp [h]

lemma unknownName_append (hne : l.dropWhile (· = ch ' ') ≠ []) :
    ∃ x : Sender κ, ∀ stale, unknownName net (l ++ 0 :: stale) = some (x.before (0 :: stale)) := by
  cases hk : l.dropWhile (· = ch ' ') with
  | nil => exact absurd hk hne
  | cons c k =>
    have hget : ∃ d, ∀ stale, (c :: k ++ 0 :: stale)[1]? = some d := by
      cases k with
      | nil => exact ⟨0, fun _ => rfl⟩
      | cons d k => exact ⟨d, fun _ => rfl⟩
    obtain ⟨d, hd⟩ := hget
    refine ⟨if d = ch 'Q' then .found net.cptr (net.cliName net.cptr) (c :: k) else .ret 0,
      fun stale => ?_⟩
    rw [unknownName, skip_line, hk]
    simp only [bind_eq_bind, bind_some, hd]
    split_ifs <;> rfl

variable [DecidableEq κ]

lemma colonPrefix_append (h : ¬ Short net (ch ':' :: l)) : ∃ x : Sender κ, ∀ stale,
      colonPrefix net (ch ':' :: l ++ 0 :: stale) = some (x.before (0 :: stale)) := by
  simp only [Short, if_true, not_and] at h
  by_cases hblank : (l.dropWhile isWordByte).head? = some (ch ' ')
  · cases hfind : net.findClient (l.takeWhile isWordByte) with
    | none =>
      obtain ⟨x, hx⟩ := unknownName_append net
        (by rw [behindWord_tail hblank]; exact h hblank hfind)
      refine ⟨x, fun stale => ?_⟩
      rw [colonPrefix, strchr_line, takeWhile_colon, dropWhile_colon, if_pos hblank]
      simp only [bind_eq_bind, bind_some, tail_cons, hfind, hx]
    | some sender =>
      refine ⟨if net.cliFrom sender ≠ net.cptr then .ret 0
        else .found sender (l.takeWhile isWordByte) (l.dropWhile isWordByte).tail, fun stale => ?_⟩
      rw [colonPrefix, strchr_line, takeWhile_colon, dropWhile_colon, if_pos hblank]
      simp only [bind_eq_bind, bind_some, tail_cons, hfind]
      split_ifs <;> rfl
  · refine ⟨.ret (-1), fun stale => ?_⟩
    rw [colonPrefix, strchr_line, dropWhile_colon, if_neg hblank]
    rfl

lemma colonPrefix_eq_none (h : Short net (ch ':' :: l)) :
    colonPrefix net (ch ':' :: l ++ [0]) = none := by
  obtain ⟨hblank, hfind, hbehind⟩ := h
  rw [colonPrefix, strchr_line, takeWhile_colon, dropWhile_colon, if_pos hblank]
  simp only [bind_eq_bind, bind_some, tail_cons, hfind]
  rw [unknownName, skip_line, behindWord_tail hblank, hbehind]
  rfl

lemma copyPrefix_append (n : ℕ) (l stale) :
    copyPrefix n (l ++ 0 :: stale) = some ((l.takeWhile isWordByte).take n) := by
  induction n generalizing l with
  | zero => simp [copyPrefix]
  | succ n ih =>
    cases l with
    | nil => simp [copyPrefix]
    | cons c l =>
      by_cases hc : c = 0 ∨ c = ch ' '
      · have hin : isWordByte c = false := by rcases hc with rfl | rfl <;> decide
        simp [copyPrefix, hc, hin]
      have hin : isWordByte c = true := by
        rw [not_or] at hc
        simp [inWord, hc]
      simp [copyPrefix, hc, hin, ih]

variable (p : List UInt8)

omit [DecidableEq κ] in
lemma findNumeric_append (c d : UInt8) (k stale : List UInt8) :
    findNumeric net p (c :: d :: k ++ 0 :: stale) =
      some (if (c :: d :: k)[1]? = some (ch ' ') ∨ (c :: d :: k)[2]? = some (ch ' ') then
        net.findNServer p else net.findNUser p) := by
  cases k with
  | nil => by_cases hd : d = ch ' ' <;> simp [findNumeric, hd, nul_ne_blank]
  | cons e k => by_cases hd : d = ch ' ' <;> by_cases he : e = ch ' ' <;> simp [findNumeric, hd, he]

lemma checkDirection_before (sender : κ) (s tail : List UInt8) :
    checkDirection net sender (s ++ tail) = (checkDirection net sender s).before tail := by
  rw [checkDirection, checkDirection]
  split_ifs <;> rfl

lemma killUnknown_within {k} : Within 0 (killUnknown net p) k := by
  cases k with
  | nil => exact ⟨false, fun _ => by simp [killUnknown, show (0 : UInt8) ≠ ch 'N' by decide]⟩
  | cons c k =>
    by_cases hc : c = ch 'N'
    · cases k with
      | nil | cons d k => exact ⟨_, fun _ => by simp [killUnknown, hc]; rfl⟩
    · exact ⟨false, fun _ => by simp [killUnknown, hc]⟩

lemma passUnknown_within {k} (hne : k ≠ []) (hk : k ≠ [ch 'K']) : Within 0 passUnknown k := by
  match k, hne, hk with
  | [c], _, hk =>
    have hc : c ≠ ch 'K' := fun hc => hk (by rw [hc])
    exact ⟨false, fun _ => by
      simp [passUnknown, hc, nul_ne_blank, show (0 : UInt8) ≠ ch 'Q' by decide]⟩
  | c :: d :: k, _, _ =>
    have hget : ∃ e, ∀ stale, (k ++ 0 :: stale)[0]? = some e := by
      cases k with
      | nil => exact ⟨0, fun _ => rfl⟩
      | cons e k => exact ⟨e, fun _ => rfl⟩
    obtain ⟨e, he⟩ := hget
    by_cases hd : d = ch 'Q' ∨ c = ch 'D' ∧ d = ch ' '
    · exact ⟨true, fun _ => by simp [passUnknown, hd]⟩
    by_cases hc : c = ch 'K'
    · refine ⟨e = ch 'L', fun stale => ?_⟩
      have he' := he stale
      simp_all [passUnknown]
    · exact ⟨false, fun _ => by simp [passUnknown, hd, hc]⟩

lemma unknownNumeric_append (hne : l.dropWhile (· = ch ' ') ≠ [])
    (hk : l.dropWhile (· = ch ' ') ≠ [ch 'K']) :
    ∃ (kill : Option (List UInt8)) (x : Sender κ), ∀ stale,
      unknownNumeric net p (l ++ 0 :: stale) = some (kill, x.before (0 :: stale)) := by
  obtain ⟨kill, hkill⟩ := killUnknown_within net p (k := l.dropWhile (· = ch ' '))
  obtain ⟨pass, hpass⟩ := passUnknown_within hne hk
  refine ⟨if kill then some p else none,
    if pass then checkDirection net net.cptr (l.dropWhile (· = ch ' ')) else .ret 0,
    fun stale => ?_⟩
  rw [unknownNumeric, skip_line]
  simp only [bind_eq_bind, bind_some, hkill, hpass, checkDirection_before]
  cases pass <;> rfl

lemma dropWhile_wordByte (hc : isWordByte c) (l) :
    (c :: l).dropWhile isWordByte = l.dropWhile isWordByte :=
  dropWhile_cons_of_pos hc

lemma take_prefix_ne_nil (hc : isWordByte c) (l) : ((c :: l).takeWhile isWordByte).take 5 ≠ [] := by
  rw [takeWhile_cons_of_pos hc]
  simp

lemma numericPrefix_eq {stale : List UInt8} {sender : Option κ}
    (hsender : prefixSender net (((c :: l).takeWhile isWordByte).take 5) (c :: l ++ 0 :: stale) =
      some sender) :
    numericPrefix net (c :: l ++ 0 :: stale) =
      (takeSender net (((c :: l).takeWhile isWordByte).take 5)
        (l.dropWhile isWordByte ++ 0 :: stale) sender).map
          (decide (((c :: l).takeWhile isWordByte).take 5 = []), ·) := by
  have hword := word_append 0 (ch ' ') l stale
  rw [numericPrefix, copyPrefix_append]
  simp only [bind_eq_bind, bind_some, hsender]
  simp only [cons_append, tail_cons, hword, bind_some]
  cases takeSender net (((c :: l).takeWhile isWordByte).take 5)
    (l.dropWhile isWordByte ++ 0 :: stale) sender <;> rfl

lemma numericPrefix_append (hcolon : c ≠ ch ':') (h : ¬ Short net (c :: l)) :
    ∃ (missing : Bool) (kill : Option (List UInt8)) (x : Sender κ), ∀ stale,
      numericPrefix net (c :: l ++ 0 :: stale) = some (missing, kill, x.before (0 :: stale)) := by
  by_cases hc : isWordByte c = true
  · simp only [Short, if_neg hcolon, hc, true_and, not_or, not_and] at h
    obtain ⟨hne, hunknown⟩ := h
    obtain ⟨d, k, rfl⟩ := exists_cons_of_ne_nil hne
    have hsender : ∀ stale, prefixSender net (((c :: d :: k).takeWhile isWordByte).take 5)
        (c :: d :: k ++ 0 :: stale) = some (numericSender net (c :: d :: k)) := by
      intro stale
      rw [prefixSender, if_neg (take_prefix_ne_nil hc _), findNumeric_append]
      rfl
    cases hfind : numericSender net (c :: d :: k) with
    | none =>
      obtain ⟨hnil, hK⟩ := hunknown hfind
      rw [behindWord, dropWhile_wordByte hc] at hnil hK
      obtain ⟨kill, x, hx⟩ := unknownNumeric_append net
        (((c :: d :: k).takeWhile isWordByte).take 5) hnil hK
      refine ⟨decide (((c :: d :: k).takeWhile isWordByte).take 5 = []), kill, x, fun stale => ?_⟩
      rw [numericPrefix_eq net (hsender stale), hfind, takeSender, hx]
      rfl
    | some sender =>
      refine ⟨decide (((c :: d :: k).takeWhile isWordByte).take 5 = []), none,
        checkDirection net sender ((d :: k).dropWhile isWordByte), fun stale => ?_⟩
      rw [numericPrefix_eq net (hsender stale), hfind, takeSender, checkDirection_before]
      rfl
  · -- a missing prefix: the blank or NUL in its place is passed
    have hp : ((c :: l).takeWhile isWordByte).take 5 = [] := by
      rw [takeWhile_cons_of_neg hc, take_nil]
    refine ⟨true, none, checkDirection net net.cptr (l.dropWhile isWordByte), fun stale => ?_⟩
    have hsender : prefixSender net (((c :: l).takeWhile isWordByte).take 5)
        (c :: l ++ 0 :: stale) = some (some net.cptr) := by rw [prefixSender, if_pos hp]
    rw [numericPrefix_eq net hsender, takeSender, checkDirection_before, hp]
    rfl

lemma unknownNumeric_eq_none
    (h : l.dropWhile (· = ch ' ') = [] ∨ l.dropWhile (· = ch ' ') = [ch 'K']) :
    unknownNumeric net p (l ++ [0]) = none := by
  rw [unknownNumeric, skip_line]
  obtain ⟨kill, hkill⟩ := killUnknown_within net p (k := l.dropWhile (· = ch ' '))
  simp only [bind_eq_bind, bind_some, hkill []]
  have hpass : passUnknown (l.dropWhile (· = ch ' ') ++ [0]) = none := by
    rcases h with h | h <;> rw [h] <;> rfl
  rw [hpass]
  rfl

lemma numericPrefix_eq_none (hcolon : c ≠ ch ':') (h : Short net (c :: l)) :
    numericPrefix net (c :: l ++ [0]) = none := by
  simp only [Short, if_neg hcolon] at h
  obtain ⟨hc, hshort⟩ := h
  have hne := take_prefix_ne_nil hc l
  cases l with
  | nil =>
    rw [numericPrefix, copyPrefix_append]
    simp only [bind_eq_bind, bind_some, prefixSender, if_neg hne]
    rfl
  | cons d k =>
    obtain ⟨hfind, hbehind⟩ := hshort.resolve_left (by simp)
    have hsender : prefixSender net (((c :: d :: k).takeWhile isWordByte).take 5)
        (c :: d :: k ++ [0]) = some none := by
      rw [prefixSender, if_neg hne, findNumeric_append, ← hfind]
      rfl
    rw [behindWord, dropWhile_wordByte hc] at hbehind
    rw [numericPrefix_eq net hsender, takeSender, unknownNumeric_eq_none net _ hbehind]
    rfl

/-! ### The whole line -/

lemma parsePrefix_append (h : ¬ Short net l) :
    ∃ (missing : Bool) (kill : Option (List UInt8)) (x : Sender κ), ∀ stale,
      parsePrefix net (l ++ 0 :: stale) = some (missing, kill, x.before (0 :: stale)) := by
  cases l with
  | nil => exact absurd trivial h
  | cons c l =>
    by_cases hc : c = ch ':'
    · subst hc
      obtain ⟨x, hx⟩ := colonPrefix_append net h
      refine ⟨false, none, x, fun stale => ?_⟩
      rw [parsePrefix, hx]
      rfl
    · obtain ⟨missing, kill, x, hx⟩ := numericPrefix_append net hc h
      refine ⟨missing, kill, x, fun stale => ?_⟩
      rw [parsePrefix, hx]
      exact if_neg hc

lemma parsePrefix_eq_none (h : Short net l) : parsePrefix net (l ++ [0]) = none := by
  cases l with
  | nil => rfl
  | cons c l =>
    by_cases hc : c = ch ':'
    · subst hc
      rw [parsePrefix, colonPrefix_eq_none net h]
      rfl
    · rw [parsePrefix, numericPrefix_eq_none net hc h]
      exact if_neg hc

lemma parseServer_eq (hdead : net.isDead net.cptr = false) (line stale : List UInt8) :
    parseServer net line.length (line ++ 0 :: stale) = match afterTags line with
      | none => some ⟨lineTags line, false, none, .ret (-1)⟩
      | some rest =>
        (parsePrefix net (rest ++ 0 :: stale)).bind fun p =>
          (follow net (line.head? ≠ some (ch ':')) p.2.2).bind fun final =>
            some ⟨lineTags line, p.1, p.2.1, final⟩ := by
  have hhead : ((line ++ 0 :: stale).head? ≠ some (ch ':')) = (line.head? ≠ some (ch ':')) := by
    cases line with
    | nil => simp [show (0 : UInt8) ≠ ch ':' by decide]
    | cons c l => rfl
  rw [parseServer, if_neg (by rw [hdead]; simp), skipLeading_append]
  simp only [bind_eq_bind, bind_some, parseMsgTags_append, hhead]
  cases afterTags line <;> rfl

lemma parseServer_within {line} (h : ¬ Overread net line) :
    Within 0 (parseServer net line.length) line := by
  by_cases hdead : net.isDead net.cptr = true
  · exact ⟨⟨[], false, none, .ret 0⟩, fun stale => by rw [parseServer, if_pos hdead]⟩
  rw [Bool.not_eq_true] at hdead
  cases hrest : afterTags line with
  | none =>
    refine ⟨⟨lineTags line, false, none, .ret (-1)⟩, fun stale => ?_⟩
    rw [parseServer_eq net hdead, hrest]
  | some rest =>
    have hshort : ¬ Short net rest := fun hshort => h ⟨hdead, rest, hrest, hshort⟩
    obtain ⟨missing, kill, x, hx⟩ := parsePrefix_append net hshort
    obtain ⟨final, hfinal⟩ := follow_within net (line.head? ≠ some (ch ':')) x
    refine ⟨⟨lineTags line, missing, kill, final⟩, fun stale => ?_⟩
    rw [parseServer_eq net hdead, hrest]
    simp only [hx, bind_some, hfinal]

/-- **A line is taken apart by its own bytes alone, whatever is left behind its
terminator, if and only if it is not read beyond it.** -/
theorem parseServer_within_iff (line : List UInt8) :
    Within 0 (parseServer net line.length) line ↔ ¬ Overread net line := by
  refine ⟨?_, parseServer_within net⟩
  rintro ⟨r, hr⟩ ⟨hdead, rest, hrest, hshort⟩
  have hnone := hr []
  rw [parseServer_eq net hdead, mem_def.mp hrest] at hnone
  simp only [parsePrefix_eq_none net hshort, bind_none] at hnone
  exact absurd hnone (by simp)

/-- A connection `hub`, with a tree of the one token `P`. -/
def tokenP : Net Unit Unit where
  cptr := ()
  isDead _ := false
  cliName _ := str "hub"
  cliFrom _ := ()
  seekClient _ := none
  findNServer _ := none
  findNUser _ := none
  tokTree := .node none fun i => if i = 16 then some (.node (some ()) fun _ => none) else none
  msgTree := .node none fun _ => none
  parameters _ := MAXPARA

/-- A line of blanks behind a longer line, on a connection that knows the token `P`.
The prefix is missing, and the search for its end leads into the old line: its rest is
dispatched, with the server itself as the sender. -/
theorem parseServer_stale :
    parseServer tokenP 1 (str " " ++ 0 :: str " P #c :hi" ++ [0]) =
        some ⟨[], true, none, .command () () [str "hub", str "#c", str "hi"]⟩ ∧
      parseServer tokenP 1 (str " " ++ 0 :: str " Q" ++ [0]) = some ⟨[], true, none, .ret (-1)⟩ ∧
      parseServer tokenP 1 (str " " ++ [0]) = none := by
  decide +kernel

end

end Ircu.Parse
