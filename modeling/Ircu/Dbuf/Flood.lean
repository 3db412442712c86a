import Ircu.Dbuf.Refine

/-!
What the lines of a receive queue have to do with its blocks: nothing.

`dbuf_getmsg` and `dbuf_flood_length` go through the blocks, and what they return is determined by
the bytes. A line that begins with an at sign has a tag section, which ends with its first space,
or with the line.
-/

namespace Ircu.Dbuf

open Heap List Option Queue

/-! ### The bytes outside of tag sections -/

/-- The variables of `dbuf_flood_length`. -/
structure FloodState where
  flood : ℕ
  atLineStart : Bool
  inTags : Bool

def floodByte (v : FloodState) (c : UInt8) : FloodState :=
  if v.atLineStart && c = ch '@' then { v with atLineStart := false, inTags := true }
  else if !v.atLineStart && v.inTags then
    if c = ch ' ' then { v with inTags := false }
    else if isEol c then { v with atLineStart := true, inTags := false }
    else v
  else ⟨v.flood + 1, isEol c, false⟩

/-- The loop over the blocks, from the pointer on. -/
def floodBlocks (s : St) : ℕ → Option ℕ → FloodState → Option ℕ
  | _, none, v => some v.flood
  | 0, some _, _ => none
  | n + 1, some p, v => do
      let b ← s.block p
      floodBlocks s n b.next (b.bytes.foldl floodByte v)

def dbufFloodLength (s : St) : Option ℕ :=
  floodBlocks s (s.pool.heap.next + 1) s.dyn.head ⟨0, true, false⟩

/-- The lines of a queue with the bytes that end them; the last one may not have ended yet. -/
def lines : List UInt8 → List (List UInt8)
  | [] => []
  | c :: q =>
    if isEol c then [c] :: lines q
    else
      match lines q with
      | [] => [[c]]
      | line :: rest => (c :: line) :: rest

/-- What is behind the first space of a line, or behind its end. -/
def behindTags (line : List UInt8) : List UInt8 :=
  (line.dropWhile fun c => c ≠ ch ' ' && !isEol c).tail

/-- A line without its tag section. -/
def untagged (line : List UInt8) : List UInt8 :=
  if line.head? = some (ch '@') then behindTags line else line

variable {s : St} {c : UInt8} {q : List UInt8} {v : FloodState} {xs fs : List (ℕ × Block)}

lemma flood_foldl : (q.foldl floodByte v).flood = v.flood + floodLoop v.atLineStart v.inTags q := by
  induction q generalizing v with
  | nil => rfl
  | cons c q ih =>
    rw [foldl_cons, floodLoop, floodByte]
    split_ifs <;> simp_all
    omega

lemma floodBlocks_eq {n p} (hs : Seg Block.next s.pool.heap p xs none) (hn : xs.length < n) :
    floodBlocks s n p v = some ((contents xs).foldl floodByte v).flood := by
  induction xs generalizing n p v with
  | nil =>
    obtain rfl := seg_nil.mp hs
    cases n <;> rfl
  | cons x xs ih =>
    obtain ⟨rfl, hb, hrest⟩ := seg_cons.mp hs
    obtain ⟨n, rfl⟩ := Nat.exists_eq_add_one_of_ne_zero (Nat.ne_zero_of_lt hn)
    rw [floodBlocks, St.block, hb, contents_cons, foldl_append]
    exact ih hrest (Nat.lt_of_succ_lt_succ hn)

/-- The bytes that count in some lines, of which the first one is looked at as `f` says. -/
def counted (f : List UInt8 → List UInt8) : List (List UInt8) → ℕ
  | [] => 0
  | line :: rest => (f line).length + (rest.flatMap untagged).length

lemma counted_untagged (ls : List (List UInt8)) :
    counted untagged ls = (ls.flatMap untagged).length := by
  cases ls <;> simp [counted]

lemma behindTags_cons (hspace : c ≠ ch ' ') (heol : isEol c = false) :
    behindTags (c :: q) = behindTags q := by
  rw [behindTags, dropWhile_cons_of_pos (by simp [hspace, heol])]
  rfl

lemma counted_lines_cons {f g} (k : ℕ) (hc : isEol c = false)
    (h : ∀ line, (f (c :: line)).length = (g line).length + k) (hg : (g []).length = 0) :
    counted f (lines (c :: q)) = counted g (lines q) + k := by
  rw [lines, if_neg (by simp [hc])]
  rcases lines q with - | ⟨line, rest⟩
  · have := h []
    simp only [counted, flatMap_nil, length_nil]
    omega
  · have := h line
    simp only [counted]
    omega

/-- **The loop, line by line**: at the start of a line, behind its tag section, and within it. -/
lemma floodLoop_lines (q) : (∀ b, floodLoop true b q = counted untagged (lines q)) ∧
      floodLoop false false q = counted id (lines q) ∧
      floodLoop false true q = counted behindTags (lines q) := by
  induction q with
  | nil => exact ⟨fun _ => rfl, rfl, rfl⟩
  | cons c q ih =>
    obtain ⟨hstart, hbody, htags⟩ := ih
    rw [counted_untagged] at hstart
    by_cases hc : isEol c = true
    · have hat : c ≠ ch '@' := by
        rintro rfl
        exact absurd hc (by decide +kernel)
      have hspace : c ≠ ch ' ' := by
        rintro rfl
        exact absurd hc (by decide +kernel)
      rw [lines]
      simp [floodLoop, hc, hat, hspace, hstart, counted, untagged, behindTags, Nat.add_comm]
    rw [Bool.not_eq_true] at hc
    refine ⟨fun b => ?_, ?_, ?_⟩
    · by_cases hat : c = ch '@'
      · subst hat
        rw [counted_lines_cons 0 hc (g := behindTags) (fun line => ?_) rfl]
        · simp [floodLoop, htags]
        · rw [untagged, if_pos (head?_cons ..), behindTags_cons (by decide) hc]
          rfl
      · rw [counted_lines_cons 1 hc (g := id) (fun line => ?_) rfl]
        · simp [floodLoop, hat, hc, hbody]
        · simp [untagged, hat]
    · rw [counted_lines_cons 1 hc (g := id) (fun line => rfl) rfl]
      simp [floodLoop, hc, hbody]
    · by_cases hspace : c = ch ' '
      · subst hspace
        rw [counted_lines_cons 0 hc (g := id) (fun line => rfl) rfl]
        simp [floodLoop, hbody]
      · rw [counted_lines_cons 0 hc (g := behindTags) (fun line => ?_) rfl]
        · simp [floodLoop, hspace, hc, htags]
        · rw [behindTags_cons hspace hc]
          rfl

lemma dbufFloodLength_eq {cfg} (h : Holds cfg s q xs fs) :
    dbufFloodLength s = some ((lines q).flatMap untagged).length := by
  rw [dbufFloodLength, floodBlocks_eq h.linked.chain (Nat.lt_succ_of_le h.linked.length_le),
    h.bytes, flood_foldl, (floodLoop_lines q).1, counted_untagged, Nat.zero_add]

/-! ### The first line -/

/-- The first line of a queue, behind line ends at its front, is complete and has less than `n`
bytes; `rest` is what is behind it and its line end. -/
def First (n : ℕ) (q line rest : List UInt8) : Prop :=
  ∃ e, q.dropWhile isEol = line ++ e :: rest ∧ (∀ c ∈ line, isEol c = false) ∧ isEol e = true ∧
    line.length < n

lemma getmsg_first {n line rest} (h : First n q line rest) :
    getmsg n q = (line, rest.dropWhile isEol) := by
  obtain ⟨e, hq, hline, he, hlt⟩ := h
  have hin : ∀ c ∈ line, inLine c = true := by simpa [inLine] using hline
  obtain ⟨k, rfl⟩ := Nat.exists_eq_add_of_lt hlt
  have htake : lineIn ((line ++ e :: rest).take (line.length + k + 1)) = some line := by
    rw [Nat.add_assoc, take_length_add_append, lineIn_append_right _ hin]
    simp [lineIn, inLine, he]
  rw [getmsg, hq]
  simp only [htake, drop_left]
  rw [dropWhile_cons_of_pos he]

lemma getmsg_none {n} (h : ¬ ∃ line rest, First n q line rest) :
    getmsg n q = ([], q.dropWhile isEol) := by
  have hnone : lineIn ((q.dropWhile isEol).take n) = none := by
    rw [lineIn, ite_eq_right_iff]
    intro hlt
    have hsplit := takeWhile_append_dropWhile (p := inLine) (l := (q.dropWhile isEol).take n)
    have hhead := head?_dropWhile_not inLine ((q.dropWhile isEol).take n)
    rcases hdrop : ((q.dropWhile isEol).take n).dropWhile inLine with - | ⟨e, tail⟩
    · rw [hdrop, append_nil] at hsplit
      rw [hsplit] at hlt
      exact absurd hlt (lt_irrefl _)
    rw [hdrop] at hsplit hhead
    refine absurd ⟨((q.dropWhile isEol).take n).takeWhile inLine,
      tail ++ (q.dropWhile isEol).drop n, e, ?_, fun c hc => ?_, ?_, ?_⟩ h
    · rw [← cons_append, ← append_assoc, hsplit, take_append_drop]
    · simpa [inLine] using mem_takeWhile_imp hc
    · simpa [inLine] using hhead
    · exact hlt.trans_le (length_take_le ..)
  rw [getmsg, hnone]

variable {ι : Type*} [DecidableEq ι]

end Ircu.Dbuf
