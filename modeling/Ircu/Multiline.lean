import Ircu.Chattr
import Ircu.Run.Basic

/-!
Long messages: `multiline.c`.

A client sends a long message in parts, which are collected in a batch (`batchInAdd`). When the
batch is closed each part is relayed in as many pieces as it takes (`deliverLoop`), which are cut
in front of a character of UTF-8, and behind a space if there is one near (`multilineCut`).

A part that continues the one before it does not count as a line, and the limit of lines is not
looked at; but the first part of a batch may be marked so, too. And the kind of a message is noted
before its size is looked at. Both show in a batch without parts only (`Sound`).
-/

namespace Ircu.Multiline

open Run List Nat UInt8

/-! ### Collecting the parts -/

def ERR_UNKNOWNCAPCMD : ℕ := 410

def ERR_INPUTTOOLONG : ℕ := 417

structure Limits where
  maxBytes : ℕ
  maxLines : ℕ

/-- `struct InBatch`, the parts in their order. -/
structure InBatch where
  id : List UInt8
  target : List UInt8
  notice : Bool
  lines : ℕ
  bytes : ℕ
  parts : List (List UInt8)
  deriving DecidableEq

def batchInOpen (id target : List UInt8) : InBatch := ⟨id, target, false, 0, 0, []⟩

/-- A call of `batch_in_add`. -/
structure Add where
  id : List UInt8
  notice : Bool
  target : List UInt8
  text : List UInt8
  concat : Bool

def joinLast (text : List UInt8) : List (List UInt8) → List (List UInt8)
  | [] => []
  | [last] => [last ++ text]
  | part :: parts => part :: joinLast text parts

variable (lim : Limits)

/-- `batch_in_add` from the comparison of the sizes on. -/
def batchInStore (b : InBatch) (a : Add) : InBatch × ℕ :=
  if lim.maxBytes < b.bytes + a.text.length then (b, ERR_INPUTTOOLONG)
  else if a.concat = false ∧ lim.maxLines ≤ b.lines then (b, ERR_INPUTTOOLONG)
  else if a.concat = true ∧ b.parts ≠ [] then
    ({ b with bytes := b.bytes + a.text.length, parts := joinLast a.text b.parts }, 0)
  else
    ({ b with
        bytes := b.bytes + a.text.length
        lines := b.lines + 1
        parts := b.parts ++ [a.text] }, 0)

/-- `batch_in_add` on a batch of the client: the batch afterwards, and the numeric. -/
def batchInAdd (b : InBatch) (a : Add) : InBatch × ℕ :=
  if ¬ sameText b.id a.id then (b, ERR_UNKNOWNCAPCMD)
  else if a.target = [] ∨ ¬ sameText b.target a.target then (b, ERR_UNKNOWNCAPCMD)
  else if 0 < b.lines ∧ b.notice ≠ a.notice then (b, ERR_UNKNOWNCAPCMD)
  else batchInStore lim { b with notice := a.notice } a

/-- One call, with the text of all calls that were not refused. -/
def step (s : InBatch × List UInt8) (a : Add) : Option (InBatch × List UInt8) :=
  some ((batchInAdd lim s.1 a).1, if (batchInAdd lim s.1 a).2 = 0 then s.2 ++ a.text else s.2)

def For (b : InBatch) (a : Add) : Prop :=
  sameText b.id a.id ∧ a.target ≠ [] ∧ sameText b.target a.target

instance (b : InBatch) (a : Add) : Decidable (For b a) := inferInstanceAs (Decidable (_ ∧ _ ∧ _))

/-- A call for a batch without parts is not refused for its size with another kind than the one
noted, and is no continuation if there may be no lines. -/
def Sound (s : InBatch × List UInt8) (a : Add) : Prop :=
  s.1.lines = 0 → For s.1 a →
    if lim.maxBytes < s.1.bytes + a.text.length then a.notice = s.1.notice
    else lim.maxLines = 0 → a.concat = false ∧ a.notice = s.1.notice

/-- The counters of a batch are those of its parts, within the limits. -/
structure Counted (lim : Limits) (b : InBatch) (text : List UInt8) : Prop where
  bytes : b.bytes = (b.parts.map List.length).sum
  bytes_le : b.bytes ≤ lim.maxBytes
  lines : b.lines = b.parts.length
  lines_le : b.lines ≤ lim.maxLines
  text : b.parts.flatten = text

variable {lim : Limits} {b : InBatch} {a : Add} {text : List UInt8} {r : InBatch × ℕ}
  {parts : List (List UInt8)}

lemma joinLast_spec (h : parts ≠ []) : (joinLast text parts).flatten = parts.flatten ++ text ∧
      (joinLast text parts).length = parts.length ∧
      ((joinLast text parts).map List.length).sum = (parts.map List.length).sum + text.length := by
  fun_induction joinLast text parts with
  | case1 => exact absurd rfl h
  | case2 last => simp
  | case3 part parts hne ih =>
    obtain ⟨hflat, hlen, hsum⟩ := ih fun hnil => hne (by rw [hnil])
    simp [hflat, hlen, hsum, add_assoc]

lemma Counted.store (h : Counted lim b text) (hr : batchInStore lim b a = r)
    (hlines : r.1.lines ≤ lim.maxLines) :
    Counted lim r.1 (if r.2 = 0 then text ++ a.text else text) := by
  rw [batchInStore] at hr
  split_ifs at hr with hbytes hfull hconcat <;> subst hr
  · exact h
  · exact h
  · obtain ⟨hflat, hlen, hsum⟩ := @joinLast_spec a.text b.parts hconcat.2
    exact ⟨by rw [hsum, h.bytes], not_lt.mp hbytes, by rw [hlen, h.lines], h.lines_le,
      hflat.trans (by rw [h.text, if_pos rfl])⟩
  · exact ⟨by simp [h.bytes], not_lt.mp hbytes, by simp [h.lines], hlines, by simp [h.text]⟩

lemma batchInAdd_eq : batchInAdd lim b a = if For b a ∧ (b.lines = 0 ∨ b.notice = a.notice) then
      batchInStore lim { b with notice := a.notice } a
    else (b, ERR_UNKNOWNCAPCMD) := by
  grind [batchInAdd, For]

lemma Counted.add (h : Counted lim b text) (hr : batchInAdd lim b a = r)
    (hlines : r.1.lines ≤ lim.maxLines) :
    Counted lim r.1 (if r.2 = 0 then text ++ a.text else text) := by
  rw [batchInAdd_eq] at hr
  have hnoted : Counted lim { b with notice := a.notice } text :=
    ⟨h.bytes, h.bytes_le, h.lines, h.lines_le, h.text⟩
  split_ifs at hr
  · exact hnoted.store hr hlines
  · exact hr ▸ h

lemma noted_eq_iff : { b with notice := a.notice } = b ↔ a.notice = b.notice :=
  ⟨congrArg InBatch.notice, fun h => by rw [h]⟩

lemma Counted.sound_iff (h : Counted lim b text) (hr : batchInAdd lim b a = r) :
    Sound lim (b, text) a ↔ r.1.lines ≤ lim.maxLines ∧ (r.2 ≠ 0 → r.1 = b) := by
  have hle := h.lines_le
  have hlines := h.lines
  have hnoted := @noted_eq_iff b a
  rw [batchInAdd_eq, batchInStore] at hr
  rw [Sound]
  split_ifs at hr with hfor hbytes hfull hconcat <;> subst hr
  · grind [ERR_INPUTTOOLONG]
  · grind [ERR_INPUTTOOLONG]
  · grind
  · grind
  · grind

/-- **A batch has the bytes and lines of its parts, within the limits, and its text is that of the
calls that were not refused**, whatever calls are made, as long as they are sound; and these are the
calls that keep the limit of lines and change nothing when they are refused. -/
theorem batch_counted (lim : Limits) {id target : List UInt8} {adds : List Add}
    {s : InBatch × List UInt8}
    (hadds : Permitted (step lim) (Sound lim) (batchInOpen id target, []) adds)
    (hrun : run (step lim) (batchInOpen id target, []) adds = some s) :
    Counted lim s.1 s.2 ∧ ∀ a, Sound lim s a ↔
      (batchInAdd lim s.1 a).1.lines ≤ lim.maxLines ∧
        ((batchInAdd lim s.1 a).2 ≠ 0 → (batchInAdd lim s.1 a).1 = s.1) := by
  have hopen : Counted lim (batchInOpen id target) [] :=
    ⟨rfl, zero_le _, rfl, zero_le _, rfl⟩
  have hstep (s : InBatch × List UInt8) (a : Add) (h : Counted lim s.1 s.2) (ha : Sound lim s a) :
      ∃ s', step lim s a = some s' ∧ Counted lim s'.1 s'.2 :=
    ⟨_, rfl, h.add rfl ((h.sound_iff rfl).mp ha).1⟩
  obtain ⟨s', hs', hinv⟩ := run_safe (fun s => Counted lim s.1 s.2) hstep hopen hadds
  obtain rfl := Option.some.inj (hs'.symm.trans hrun)
  exact ⟨hinv, fun a => hinv.sound_iff rfl⟩

/-- A line that is continued, and a call for another batch, which is refused. -/
theorem batch_counted_continued :
    Counted ⟨4096, 24⟩ ⟨str "q", str "#c", true, 1, 8, [str "hi there"]⟩ (str "hi there") := by
  refine (@batch_counted ⟨4096, 24⟩ (str "q") (str "#c")
    [⟨str "q", true, str "#c", str "hi", false⟩, ⟨str "q", true, str "#c", str " there", true⟩,
      ⟨str "p", true, str "#c", str "lost", false⟩] _ ⟨fun _ _ => by decide +kernel, ?_⟩ rfl).1
  rintro _ ⟨⟩
  refine ⟨fun _ _ => by decide +kernel, ?_⟩
  rintro _ ⟨⟩
  exact ⟨fun _ _ => by decide +kernel, fun _ _ => trivial⟩

/-- A message that is too long leaves its kind, and a continuation of nothing is a line. -/
theorem batchInAdd_empty :
    batchInAdd ⟨4, 24⟩ (batchInOpen (str "q") (str "#c"))
        ⟨str "q", true, str "#c", str "hello", false⟩ =
      ({ batchInOpen (str "q") (str "#c") with notice := true }, ERR_INPUTTOOLONG) ∧
    (batchInAdd ⟨4096, 0⟩ (batchInOpen (str "q") (str "#c"))
        ⟨str "q", false, str "#c", str "hello", true⟩).1.lines = 1 := by
  decide +kernel

/-! ### Cutting the text -/

def isContinuation (c : UInt8) : Bool := c &&& 0xC0 == 0x80

/-- The loop of `multiline_cut` that leaves out a character cut short. -/
def backOff (text : List UInt8) : ℕ → ℕ
  | 0 => 0
  | take + 1 => if text[take + 1]?.any isContinuation then backOff text take else take + 1

/-- The loop of `multiline_cut` that looks for a space, from `i` down. -/
def spaceLoop (text : List UInt8) (take : ℕ) : ℕ → ℕ
  | 0 => take
  | i + 1 =>
    if take - (i + 1) < 32 then
      if text[i]? = some (ch ' ') then i + 1 else spaceLoop text take i
    else take

def multilineCut (text : List UInt8) (budget : ℕ) : ℕ :=
  if text.length ≤ budget then text.length
  else
    let take := spaceLoop text (backOff text budget) (backOff text budget)
    if 0 < take then take else budget

/-- The loop of `batch_in_deliver` over the pieces of a part, as long as the client is not dead: it
is left before the next piece when it is. -/
def deliverLoop (budget : ℕ) : ℕ → List UInt8 → Option (List (List UInt8))
  | 0, _ => none
  | fuel + 1, text =>
    let take := multilineCut text budget
    if text.drop take = [] then some [text.take take]
    else (deliverLoop budget fuel (text.drop take)).map (text.take take :: ·)

/-- Valid UTF-8. -/
def Utf8 (text : List UInt8) : Prop := ∃ cs : List Char, text = cs.flatMap String.utf8EncodeChar

lemma backOff_spec (text take) : backOff text take ≤ take ∧
      (∀ k, backOff text take < k → k ≤ take → text[k]?.any isContinuation = true) ∧
      (backOff text take ≠ 0 → text[backOff text take]?.any isContinuation = false) := by
  fun_induction backOff text take with
  | case1 => exact ⟨le_rfl, fun k hk hle => absurd hk hle.not_gt, fun h => absurd rfl h⟩
  | case2 take hcont ih =>
    refine ⟨ih.1.trans (le_succ take), fun k hk hle => ?_, ih.2.2⟩
    rcases hle.eq_or_lt with rfl | hlt
    · exact hcont
    · exact ih.2.1 k hk (le_of_lt_succ hlt)
  | case3 take hcont =>
    exact ⟨le_rfl, fun k hk hle => absurd hk hle.not_gt, fun _ => Bool.not_eq_true _ ▸ hcont⟩

lemma spaceLoop_spec (take i : ℕ) : spaceLoop text take i = take ∨
    (0 < spaceLoop text take i ∧ spaceLoop text take i ≤ i ∧
      text[spaceLoop text take i - 1]? = some (ch ' ')) := by
  fun_induction spaceLoop text take i with
  | case1 => exact .inl rfl
  | case2 i _ hspace => exact .inr ⟨succ_pos i, le_rfl, hspace⟩
  | case3 i _ _ ih => exact ih.imp_right fun h => ⟨h.1, h.2.1.trans (le_succ i), h.2.2⟩
  | case4 => exact .inl rfl

lemma encode_shape (c : Char) : ∃ x xs, String.utf8EncodeChar c = x :: xs ∧
    isContinuation x = false ∧ (∀ y ∈ xs, isContinuation y = true) ∧ xs.length ≤ 3 ∧
    (x = ch ' ' → xs = []) := by
  have hcont (m : ℕ) : isContinuation (ofNat (m % 64) + 128) = true := by
    have h : ∀ m < 64, isContinuation (ofNat m + 128) = true := by decide +kernel
    exact h _ (mod_lt m (by decide))
  have hfirst : ∀ m < 256, m < 128 ∨ 192 ≤ m → isContinuation (ofNat m) = false := by
    decide +kernel
  have hspace : ∀ m < 256, 192 ≤ m → ofNat m ≠ ch ' ' := by decide +kernel
  rw [String.utf8EncodeChar]
  generalize c.val.toNat = v
  split_ifs
  · exact ⟨_, _, rfl, hfirst v (by omega) (.inl (by omega)), by simp, by simp, fun _ => rfl⟩
  all_goals exact ⟨_, _, rfl, hfirst _ (by omega) (.inr (by omega)), by simp [hcont], by simp,
    fun h => absurd h (hspace _ (by omega) (by omega))⟩

lemma Utf8.cut (h : Utf8 text) {k x} (hk : text[k]? = some x)
    (hx : isContinuation x = false) : Utf8 (text.take k) ∧ Utf8 (text.drop k) := by
  obtain ⟨cs, rfl⟩ := h
  induction cs generalizing k with
  | nil => simp at hk
  | cons c cs ih =>
    obtain ⟨y, ys, hc, -, hys, -, -⟩ := encode_shape c
    rcases k with - | k
    · exact ⟨⟨[], rfl⟩, c :: cs, rfl⟩
    rw [flatMap_cons, hc, cons_append] at hk ⊢
    rw [List.getElem?_cons_succ] at hk
    rcases lt_or_ge k ys.length with hlt | hge
    · rw [List.getElem?_append_left hlt] at hk
      exact absurd (hys x (mem_of_getElem? hk)) (by simp [hx])
    obtain ⟨j, rfl⟩ := Nat.exists_eq_add_of_le hge
    rw [List.getElem?_append_right hge, Nat.add_sub_cancel_left] at hk
    obtain ⟨⟨as, has⟩, hdrop⟩ := ih hk
    rw [take_succ_cons, take_length_add_append, drop_succ_cons, drop_length_add_append]
    exact ⟨⟨c :: as, by rw [flatMap_cons, hc, ← has, cons_append]⟩, hdrop⟩

lemma Utf8.cut_space (h : Utf8 text) {k} (hk : text[k]? = some (ch ' ')) :
    Utf8 (text.take (k + 1)) ∧ Utf8 (text.drop (k + 1)) := by
  obtain ⟨⟨as, has⟩, bs, hbs⟩ := h.cut hk (by decide)
  rw [drop_eq_getElem?_toList_append, hk] at hbs
  cases bs with
  | nil => exact absurd hbs (cons_ne_nil _ _)
  | cons c bs =>
    obtain ⟨x, xs, hc, -, -, -, hspace⟩ := encode_shape c
    rw [flatMap_cons, hc] at hbs
    obtain ⟨rfl, hrest⟩ := List.cons.inj hbs
    obtain rfl := hspace rfl
    refine ⟨⟨as ++ [c], ?_⟩, bs, hrest⟩
    rw [flatMap_append, ← has, flatMap_singleton, hc, take_add_one, hk]
    rfl

lemma Utf8.backOff_pos (h : Utf8 text) {take} (htake : 4 ≤ take) (hlen : take < text.length) :
    backOff text take ≠ 0 := by
  obtain ⟨cs, rfl⟩ := h
  intro hzero
  match cs with
  | [] => simp at hlen
  | [c] =>
    obtain ⟨x, xs, hc, -, -, hxs, -⟩ := encode_shape c
    simp only [flatMap_singleton, hc, length_cons] at hlen
    omega
  | c :: d :: cs =>
    obtain ⟨x, xs, hc, -, -, hxs, -⟩ := encode_shape c
    obtain ⟨y, ys, hd, hy, -, -, -⟩ := encode_shape d
    have := (backOff_spec _ take).2.1 _ (hzero.trans_lt xs.length.succ_pos) (by omega)
    simp [hc, hd, hy] at this

lemma multilineCut_spec (text) {budget} (h : 32 ≤ budget) :
    multilineCut text budget ≤ budget ∧ (multilineCut text budget = 0 → text = []) ∧
      (Utf8 text → Utf8 (text.take (multilineCut text budget)) ∧
        Utf8 (text.drop (multilineCut text budget))) := by
  rw [multilineCut]
  split_ifs with hlen
  · rw [take_length, drop_length]
    exact ⟨hlen, eq_nil_of_length_eq_zero, fun hutf => ⟨hutf, [], rfl⟩⟩
  obtain ⟨hback, -, hstop⟩ := backOff_spec text budget
  rcases @spaceLoop_spec text (backOff text budget) (backOff text budget) with
    heq | ⟨hpos, hle, hk⟩
  · rw [heq]
    dsimp only
    split_ifs with hpos
    · refine ⟨hback, fun hzero => absurd hzero hpos.ne', fun hutf => ?_⟩
      have hget := List.getElem?_eq_getElem (hback.trans_lt (not_le.mp hlen))
      refine hutf.cut hget ?_
      simpa only [hget, Option.any_some] using hstop hpos.ne'
    · refine ⟨le_rfl, fun hzero => by omega, fun hutf => ?_⟩
      exact absurd (Nat.eq_zero_of_not_pos hpos)
        (hutf.backOff_pos (by omega) (not_le.mp hlen))
  · rw [if_pos hpos]
    refine ⟨hle.trans hback, fun hzero => absurd hzero hpos.ne', fun hutf => ?_⟩
    rw [← succ_pred_eq_of_pos hpos]
    exact hutf.cut_space hk

/-- **A text is delivered in pieces** that are not empty, not longer than the budget, and together
are the text; none of them ends within a character. -/
theorem deliverLoop_pieces (text : List UInt8) {budget : ℕ} (h : 32 ≤ budget) :
    ∃ pieces, (∀ fuel, text.length < fuel → deliverLoop budget fuel text = some pieces) ∧
      (∀ piece ∈ pieces, piece.length ≤ budget ∧ (piece = [] → text = [])) ∧
      pieces.flatten = text ∧ (Utf8 text → ∀ piece ∈ pieces, Utf8 piece) := by
  induction hn : text.length using Nat.strong_induction_on generalizing text with
  | _ n ih =>
    obtain ⟨hle, hzero, hutf⟩ := multilineCut_spec text h
    generalize hk : multilineCut text budget = k at hle hzero hutf
    have hpiece : (text.take k).length ≤ budget ∧ (text.take k = [] → text = []) :=
      ⟨(length_take_le _ _).trans hle, fun he => (take_eq_nil_iff.mp he).elim hzero id⟩
    have hcut := take_append_drop k text
    by_cases hrest : text.drop k = []
    · refine ⟨[text.take k], fun fuel hfuel => ?_, fun _ hp => mem_singleton.mp hp ▸ hpiece, ?_,
        fun hu _ hp => mem_singleton.mp hp ▸ (hutf hu).1⟩
      · obtain ⟨fuel, rfl⟩ := exists_eq_succ_of_ne_zero (ne_zero_of_lt hfuel)
        rw [deliverLoop, hk, if_pos hrest]
      · rw [hrest] at hcut
        exact hcut
    have hne : text ≠ [] := fun he => hrest (by rw [he, drop_nil])
    have hshort : (text.drop k).length < text.length := by
      have hpos := length_pos_of_ne_nil hne
      have := mt hzero hne
      rw [length_drop]
      omega
    obtain ⟨pieces, hrun, hall, hflat, hpu⟩ := ih _ (hn ▸ hshort) _ rfl
    refine ⟨text.take k :: pieces, fun fuel hfuel => ?_, ?_, ?_, ?_⟩
    · obtain ⟨fuel, rfl⟩ := exists_eq_succ_of_ne_zero (ne_zero_of_lt hfuel)
      rw [deliverLoop, hk, if_neg hrest, hrun fuel (by omega), Option.map_some]
    · exact forall_mem_cons.mpr ⟨hpiece, fun p hp =>
        ⟨(hall p hp).1, fun he => absurd ((hall p hp).2 he) hrest⟩⟩
    · rw [flatten_cons, hflat, hcut]
    · exact fun hu => forall_mem_cons.mpr ⟨(hutf hu).1, hpu (hutf hu).2⟩

theorem deliverLoop_pieces_two :
    ∃ pieces, deliverLoop 32 42 (str "one line of text, longer than the budget") = some pieces ∧
      pieces.length = 2 ∧ pieces.flatten = str "one line of text, longer than the budget" := by
  obtain ⟨pieces, hrun, -, hflat, -⟩ :=
    deliverLoop_pieces (str "one line of text, longer than the budget") (le_refl 32)
  have htwo : (deliverLoop 32 42 (str "one line of text, longer than the budget")).map List.length =
      some 2 := by decide +kernel
  have hpieces := hrun 42 (by decide)
  rw [hpieces] at htwo
  exact ⟨pieces, hpieces, Option.some.inj htwo, hflat⟩

end Ircu.Multiline
