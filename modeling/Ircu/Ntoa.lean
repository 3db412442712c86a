import Ircu.Chattr
import Ircu.ZeroRuns

/-!
`ircd_ntoa_r` of `ircd_string.c`: an address as text.

An IPv4 address is printed as four decimal numbers. In any other address one run
of zero groups is left out; the first group is always printed. The counter of
zeros is not reset by a group that ends a run which is not longer than the best
one, so that the run that is left out may contain other groups.
-/

namespace Ircu

open List

def SOCKIPLEN : ℕ := 45

def hexDigit (n : ℕ) : UInt8 := (str "0123456789abcdef").getD n 0

def ipQuadTab (b : ℕ) : List UInt8 :=
  if b < 10 then [hexDigit b]
  else if b < 100 then [hexDigit (b / 10), hexDigit (b % 10)]
  else [hexDigit (b / 100), hexDigit (b / 10 % 10), hexDigit (b % 10)]

def findZeros (a : InAddr) : ZeroRun :=
  let z := (List.range' 1 7).foldl (ZeroRun.turn a) ⟨1, 0, 0⟩
  if z.currZeros > z.maxZeros then { z with maxStart := 8 - z.currZeros, maxZeros := z.currZeros }
  else z

def hexGroup (part : ℕ) : List UInt8 :=
  (if part ≥ 0x1000 then [hexDigit (part / 0x1000)] else []) ++
    (if part ≥ 0x100 then [hexDigit (part / 0x100 % 16)] else []) ++
    (if part ≥ 0x10 then [hexDigit (part / 0x10 % 16)] else []) ++ [hexDigit (part % 16)]

/-- The loop that prints the groups from `ii` on, for at most the given number of
turns. -/
def printGroups (a : InAddr) (z : ZeroRun) : ℕ → ℕ → List UInt8
  | 0, _ => []
  | k + 1, ii =>
    if 8 ≤ ii then []
    else if z.maxZeros > 0 ∧ ii = z.maxStart then
      ch ':' :: printGroups a z k (ii + z.maxZeros)
    else
      hexGroup (a.group ii).toNat ++ (if ii < 7 then [ch ':'] else []) ++
        printGroups a z k (ii + 1)

def ircdNtoa (a : InAddr) : List UInt8 :=
  if isIpv4 a then
    ipQuadTab ((a.group 6).toNat / 256) ++ ch '.' :: ipQuadTab ((a.group 6).toNat % 256) ++
      ch '.' :: ipQuadTab ((a.group 7).toNat / 256) ++ ch '.' :: ipQuadTab ((a.group 7).toNat % 256)
  else printGroups a (findZeros a) 8 0

/-! ### The text -/

def addrChars : List UInt8 := str "0123456789abcdef.:"

lemma hexDigit_mem {n} (hn : n < 16) : hexDigit n ∈ addrChars := by
  interval_cases n <;> decide

lemma ipQuadTab_chars {b} (hb : b < 256) : ∀ c ∈ ipQuadTab b, c ∈ addrChars := by
  rw [ipQuadTab]
  split_ifs
  · simpa using hexDigit_mem (by omega)
  · simpa using ⟨hexDigit_mem (by omega), hexDigit_mem (by omega)⟩
  · simpa using ⟨hexDigit_mem (by omega), hexDigit_mem (by omega), hexDigit_mem (by omega)⟩

lemma ipQuadTab_length (b) : (ipQuadTab b).length ≤ 3 := by
  rw [ipQuadTab]
  split_ifs <;> simp

lemma hexGroup_chars {part} (hp : part < 2 ^ 16) : ∀ c ∈ hexGroup part, c ∈ addrChars := by
  intro c hc
  simp only [hexGroup, mem_append, mem_singleton] at hc
  rcases hc with ((hc | hc) | hc) | rfl
  · split_ifs at hc
    · rw [mem_singleton.mp hc]
      exact hexDigit_mem (by omega)
    · simp at hc
  · split_ifs at hc
    · rw [mem_singleton.mp hc]
      exact hexDigit_mem (by omega)
    · simp at hc
  · split_ifs at hc
    · rw [mem_singleton.mp hc]
      exact hexDigit_mem (by omega)
    · simp at hc
  · exact hexDigit_mem (by omega)

lemma hexGroup_length (part) : (hexGroup part).length ≤ 4 := by
  rw [hexGroup]
  split_ifs <;> simp

variable (a : InAddr)

lemma printGroups_chars (z) (k ii : ℕ) : ∀ c ∈ printGroups a z k ii, c ∈ addrChars := by
  have hcolon : ch ':' ∈ addrChars := by decide
  induction k generalizing ii with
  | zero => simp [printGroups]
  | succ k ih =>
    intro c hc
    rw [printGroups] at hc
    split_ifs at hc
    · simp at hc
    · rcases mem_cons.mp hc with rfl | hc
      · exact hcolon
      · exact ih _ c hc
    · simp only [mem_append, mem_singleton] at hc
      rcases hc with (hc | rfl) | hc
      · exact hexGroup_chars (a.group ii).isLt c hc
      · exact hcolon
      · exact ih _ c hc
    · simp only [append_nil, mem_append] at hc
      rcases hc with hc | hc
      · exact hexGroup_chars (a.group ii).isLt c hc
      · exact ih _ c hc

lemma printGroups_length (z) (k ii : ℕ) : (printGroups a z k ii).length ≤ 5 * k := by
  induction k generalizing ii with
  | zero => simp [printGroups]
  | succ k ih =>
    have hg := hexGroup_length (a.group ii).toNat
    have h1 := ih (ii + z.maxZeros)
    have h2 := ih (ii + 1)
    rw [printGroups]
    split_ifs <;> simp only [length_append, length_cons, length_nil] <;> omega

/-- **The text of an address** consists of hexadecimal digits, dots and colons. -/
theorem ircdNtoa_chars : ∀ c ∈ ircdNtoa a, c ∈ addrChars := by
  have hdot : ch '.' ∈ addrChars := by decide
  intro c hc
  rw [ircdNtoa] at hc
  split_ifs at hc
  · simp only [mem_append, mem_cons] at hc
    rcases hc with ((hc | rfl | hc) | rfl | hc) | rfl | hc
    · exact ipQuadTab_chars (by omega) c hc
    · exact hdot
    · exact ipQuadTab_chars (by omega) c hc
    · exact hdot
    · exact ipQuadTab_chars (by omega) c hc
    · exact hdot
    · exact ipQuadTab_chars (by omega) c hc
  · exact printGroups_chars a _ 8 0 c hc

/-- **The text of an address** fits the buffers for it. -/
theorem ircdNtoa_length : (ircdNtoa a).length ≤ SOCKIPLEN := by
  rw [ircdNtoa]
  split_ifs
  · have h1 := ipQuadTab_length ((a.group 6).toNat / 256)
    have h2 := ipQuadTab_length ((a.group 6).toNat % 256)
    have h3 := ipQuadTab_length ((a.group 7).toNat / 256)
    have h4 := ipQuadTab_length ((a.group 7).toNat % 256)
    simp only [length_append, length_cons, SOCKIPLEN]
    omega
  · have := printGroups_length a (findZeros a) 8 0
    rw [SOCKIPLEN]
    omega

end Ircu
