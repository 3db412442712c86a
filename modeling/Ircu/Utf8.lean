import Ircu.Multiline

/-!
The two readers of UTF-8: `po_utf8_check` of `ircd_po.c`, which finds the first sequence that is
not well formed, and `sanitize_utf8` of `websocket.c`, which puts U+FFFD in the place of every byte
that begins none. The one computes the code point, the other compares bytes.
-/

namespace Ircu.Utf8

open Multiline List

/-! ### The code -/

/-- The loop of `po_utf8_check` over continuation bytes: the code point. -/
def poTail (cp : ℕ) : ℕ → List UInt8 → Option ℕ
  | 0, _ => some cp
  | _ + 1, [] => none
  | k + 1, c :: s =>
    if c.toNat &&& 0xC0 ≠ 0x80 then none else poTail (cp <<< 6 ||| c.toNat &&& 0x3F) k s

/-- What `po_utf8_check` takes for the first byte: how many bytes are to follow, and its bits. -/
def poLead (c : ℕ) : Option (ℕ × ℕ) :=
  if c &&& 0xE0 = 0xC0 then (if c &&& 0x1F < 2 then none else some (1, c &&& 0x1F))
  else if c &&& 0xF0 = 0xE0 then some (2, c &&& 0x0F)
  else if c &&& 0xF8 = 0xF0 then some (3, c &&& 0x07)
  else none

/-- The bytes that `po_utf8_check` takes for a character. -/
def poStep : List UInt8 → Option ℕ
  | [] => none
  | c :: s =>
    if c.toNat < 0x80 then some 1
    else
      match poLead c.toNat with
      | none => none
      | some (need, bits) =>
        match poTail bits need s with
        | none => none
        | some cp =>
          if (need = 2 ∧ cp < 0x800) ∨ (need = 3 ∧ cp < 0x10000) then none
          else if 0x10FFFF < cp ∨ (0xD800 ≤ cp ∧ cp ≤ 0xDFFF) then none
          else some (need + 1)

def poLoop : ℕ → ℕ → List UInt8 → Option ℕ
  | 0, i, _ => some i
  | n + 1, i, s =>
    if s = [] then none
    else
      match poStep s with
      | none => some i
      | some k => poLoop n (i + k) (s.drop k)

/-- `po_utf8_check`, with `none` for `-1`. -/
def poUtf8Check (text : List UInt8) : Option ℕ := poLoop (text.length + 1) 0 text

abbrev within (lo hi : ℕ) (c : UInt8) : Prop := lo ≤ c.toNat ∧ c.toNat ≤ hi

/-- `ok` of the sequences of three bytes. -/
def ok3 (c0 c1 c2 : UInt8) : Prop :=
  (if c0 = 0xE0 then within 0xA0 0xBF c1
    else if within 0xE1 0xEC c0 then within 0x80 0xBF c1
    else if c0 = 0xED then within 0x80 0x9F c1
    else within 0x80 0xBF c1) ∧ within 0x80 0xBF c2
deriving Decidable

/-- `ok` of the sequences of four. -/
def ok4 (c0 c1 c2 c3 : UInt8) : Prop :=
  (if c0 = 0xF0 then within 0x90 0xBF c1
    else if within 0xF1 0xF3 c0 then within 0x80 0xBF c1
    else within 0x80 0x8F c1) ∧ within 0x80 0xBF c2 ∧ within 0x80 0xBF c3
deriving Decidable

/-- The bytes that `sanitize_utf8` takes for a character. -/
def sanitizeStep : List UInt8 → Option ℕ
  | [] => none
  | c0 :: s =>
    if c0.toNat ≤ 0x7F then some 1
    else if within 0xC2 0xDF c0 then
      match s with
      | c1 :: _ => if within 0x80 0xBF c1 then some 2 else none
      | _ => none
    else if within 0xE0 0xEF c0 then
      match s with
      | c1 :: c2 :: _ => if ok3 c0 c1 c2 then some 3 else none
      | _ => none
    else if within 0xF0 0xF4 c0 then
      match s with
      | c1 :: c2 :: c3 :: _ => if ok4 c0 c1 c2 c3 then some 4 else none
      | _ => none
    else none

def repl : List UInt8 := [0xEF, 0xBF, 0xBD]

/-- The loop of `sanitize_utf8`, with `o` bytes written. -/
def sanitizeLoop (outsz : ℕ) : ℕ → ℕ → List UInt8 → List UInt8
  | 0, _, _ => []
  | n + 1, o, s =>
    if s = [] then []
    else
      match sanitizeStep s with
      | some k => if outsz < o + k then [] else s.take k ++ sanitizeLoop outsz n (o + k) (s.drop k)
      | none => if outsz < o + 3 then [] else repl ++ sanitizeLoop outsz n (o + 3) s.tail

/-- `sanitize_utf8`. -/
def sanitizeUtf8 (text : List UInt8) (outsz : ℕ) : List UInt8 :=
  sanitizeLoop outsz (text.length + 1) 0 text

/-! ### One character -/

variable {outsz n o k cp : ℕ} {c : Char} {cs : List Char} {c0 c1 c2 c3 : UInt8}
  {s rest text : List UInt8}

lemma exists_char {v} (h : v < 0xD800 ∨ 0xDFFF < v ∧ v < 0x110000) :
    ∃ c : Char, c.val.toNat = v := ⟨Char.ofNatAux v h, rfl⟩

lemma char_lt (c : Char) : c.val.toNat < 0xD800 ∨ 0xDFFF < c.val.toNat ∧ c.val.toNat < 0x110000 :=
  c.valid

lemma ok3_iff (h0 : within 0xE0 0xEF c0) :
    ok3 c0 c1 c2 ↔ within 0x80 0xBF c1 ∧ within 0x80 0xBF c2 ∧
      (c0.toNat = 0xE0 → 0xA0 ≤ c1.toNat) ∧ (c0.toNat = 0xED → c1.toNat ≤ 0x9F) := by
  simp only [ok3, ← UInt8.toNat_inj, within, UInt8.reduceToNat] at h0 ⊢
  split_ifs <;> omega

lemma ok4_iff (h0 : within 0xF0 0xF4 c0) :
    ok4 c0 c1 c2 c3 ↔ within 0x80 0xBF c1 ∧ within 0x80 0xBF c2 ∧ within 0x80 0xBF c3 ∧
      (c0.toNat = 0xF0 → 0x90 ≤ c1.toNat) ∧ (c0.toNat = 0xF4 → c1.toNat ≤ 0x8F) := by
  simp only [ok4, ← UInt8.toNat_inj, within, UInt8.reduceToNat] at h0 ⊢
  split_ifs <;> omega

lemma sanitizeStep_encode (c rest) :
    sanitizeStep (String.utf8EncodeChar c ++ rest) = some (String.utf8EncodeChar c).length := by
  have hv := char_lt c
  rw [String.utf8EncodeChar.eq_1]
  generalize c.val.toNat = v at hv
  split_ifs with h1 h2 h3 <;>
    simp only [cons_append, nil_append, sanitizeStep, within, UInt8.toNat_ofNat']
  · rw [if_pos (by omega)]
    rfl
  · rw [if_neg (by omega), if_pos (by omega), if_pos (by omega)]
    rfl
  · have h0 : within 0xE0 0xEF (UInt8.ofNat (v / 4096 % 16 + 224)) := by
      simp only [within, UInt8.toNat_ofNat']
      omega
    rw [if_neg (by omega), if_neg (by omega), if_pos (by omega), if_pos ((ok3_iff h0).2 _)]
    · rfl
    simp only [within, UInt8.toNat_ofNat']
    omega
  · have h0 : within 0xF0 0xF4 (UInt8.ofNat (v / 262144 % 8 + 240)) := by
      simp only [within, UInt8.toNat_ofNat']
      omega
    rw [if_neg (by omega), if_neg (by omega), if_neg (by omega), if_pos (by omega),
      if_pos ((ok4_iff h0).2 _)]
    · rfl
    simp only [within, UInt8.toNat_ofNat']
    omega

lemma exists_encode2 (h0 : within 0xC2 0xDF c0) (h1 : within 0x80 0xBF c1) :
    ∃ c : Char, String.utf8EncodeChar c = [c0, c1] := by
  obtain ⟨c, hc⟩ := exists_char (v := (c0.toNat - 0xC0) * 64 + (c1.toNat - 0x80)) (by omega)
  refine ⟨c, ?_⟩
  rw [String.utf8EncodeChar.eq_1, hc, if_neg (by omega), if_pos (by omega), ofNat_eq (a := c0)
    (by omega), ofNat_eq (a := c1) (by omega)]

lemma exists_encode3 (h0 : within 0xE0 0xEF c0) (h : ok3 c0 c1 c2) :
    ∃ c : Char, String.utf8EncodeChar c = [c0, c1, c2] := by
  obtain ⟨h1, h2, hlo, hhi⟩ := (ok3_iff h0).1 h
  obtain ⟨c, hc⟩ := exists_char
    (v := (c0.toNat - 0xE0) * 4096 + (c1.toNat - 0x80) * 64 + (c2.toNat - 0x80)) (by omega)
  refine ⟨c, ?_⟩
  rw [String.utf8EncodeChar.eq_1, if_neg (by omega), if_neg (by omega), if_pos (by omega),
    ofNat_eq (a := c0) (by omega), ofNat_eq (a := c1) (by omega), ofNat_eq (a := c2) (by omega)]

lemma exists_encode4 (h0 : within 0xF0 0xF4 c0) (h : ok4 c0 c1 c2 c3) :
    ∃ c : Char, String.utf8EncodeChar c = [c0, c1, c2, c3] := by
  obtain ⟨h1, h2, h3, hlo, hhi⟩ := (ok4_iff h0).1 h
  obtain ⟨c, hc⟩ := exists_char (v := (c0.toNat - 0xF0) * 262144 + (c1.toNat - 0x80) * 4096 +
    (c2.toNat - 0x80) * 64 + (c3.toNat - 0x80)) (by omega)
  refine ⟨c, ?_⟩
  rw [String.utf8EncodeChar.eq_1, if_neg (by omega), if_neg (by omega), if_neg (by omega),
    ofNat_eq (a := c0) (by omega), ofNat_eq (a := c1) (by omega), ofNat_eq (a := c2) (by omega),
    ofNat_eq (a := c3) (by omega)]

/-- **The bytes that `sanitize_utf8` takes are one character.** -/
lemma encode_of_sanitizeStep (h : sanitizeStep s = some k) :
    ∃ c : Char, ∃ rest, s = String.utf8EncodeChar c ++ rest := by
  unfold sanitizeStep at h
  split at h
  · cases h
  rename_i c0 s
  split_ifs at h with h1 h2 h3 h4
  · obtain ⟨c, hc⟩ := exists_char (v := c0.toNat) (by omega)
    refine ⟨c, s, ?_⟩
    rw [String.utf8EncodeChar.eq_1, hc, if_pos h1, UInt8.ofNat_toNat]
    rfl
  · split at h
    · split_ifs at h with hok
      obtain ⟨c, hc⟩ := exists_encode2 h2 hok
      exact ⟨c, _, by rw [hc]; rfl⟩
    cases h
  · split at h
    · split_ifs at h with hok
      obtain ⟨c, hc⟩ := exists_encode3 h3 hok
      exact ⟨c, _, by rw [hc]; rfl⟩
    cases h
  · split at h
    · split_ifs at h with hok
      obtain ⟨c, hc⟩ := exists_encode4 h4 hok
      exact ⟨c, _, by rw [hc]; rfl⟩
    cases h

lemma byte_masks (c) : (c.toNat &&& 0xC0 = 0x80 ↔ within 0x80 0xBF c) ∧
      (within 0x80 0xBF c → c.toNat &&& 0x3F = c.toNat - 0x80) := by
  revert c
  exact forall_byte (by decide +kernel)

lemma poLead_eq (c) : ¬ c.toNat < 0x80 → poLead c.toNat =
    if within 0xC2 0xDF c then some (1, c.toNat - 0xC0)
    else if within 0xE0 0xEF c then some (2, c.toNat - 0xE0)
    else if within 0xF0 0xF7 c then some (3, c.toNat - 0xF0) else none := by
  revert c
  exact forall_byte (by decide +kernel)

lemma poTail_cons : poTail cp (k + 1) (c1 :: s) =
    if within 0x80 0xBF c1 then poTail (cp * 64 + (c1.toNat - 0x80)) k s else none := by
  rw [poTail]
  by_cases h : within 0x80 0xBF c1
  · rw [if_neg (not_not.2 ((byte_masks c1).1.2 h)), if_pos h, (byte_masks c1).2 h,
      ← Nat.shiftLeft_add_eq_or_of_lt (by omega), Nat.shiftLeft_eq]
  rw [if_pos (fun h' => h ((byte_masks c1).1.1 h')), if_neg h]

lemma poTail_two : poTail cp 2 (c1 :: c2 :: s) = if within 0x80 0xBF c1 ∧ within 0x80 0xBF c2 then
      some ((cp * 64 + (c1.toNat - 0x80)) * 64 + (c2.toNat - 0x80)) else none := by
  rw [poTail_cons, poTail_cons, poTail]
  simp only [ite_and]

lemma poTail_three : poTail cp 3 (c1 :: c2 :: c3 :: s) =
      if within 0x80 0xBF c1 ∧ within 0x80 0xBF c2 ∧ within 0x80 0xBF c3 then
        some (((cp * 64 + (c1.toNat - 0x80)) * 64 + (c2.toNat - 0x80)) * 64 + (c3.toNat - 0x80))
      else none := by
  rw [poTail_cons, poTail_two]
  simp only [ite_and]

lemma poTail_short (h : s.length < k) : poTail cp k s = none := by
  induction k generalizing cp s with
  | zero => omega
  | succ k ih =>
    rcases s with - | ⟨c, s⟩
    · rfl
    rw [poTail_cons, ih (by simpa using h), ite_self]

/-- **The two readers take the same bytes.** -/
lemma poStep_eq (s) : poStep s = sanitizeStep s := by
  rcases s with - | ⟨c0, s⟩
  · rfl
  have hc0 := c0.toNat_lt
  simp only [poStep, sanitizeStep]
  by_cases h1 : c0.toNat < 0x80
  · rw [if_pos h1, if_pos (by omega)]
  rw [if_neg h1, if_neg (by omega), poLead_eq c0 h1]
  by_cases h2 : within 0xC2 0xDF c0
  · simp only [if_pos h2]
    rcases s with - | ⟨c1, s⟩
    · rfl
    simp only [poTail_cons]
    by_cases hc1 : within 0x80 0xBF c1
    · simp only [if_pos hc1, poTail]
      rw [if_neg (by omega), if_neg (by omega)]
    simp only [if_neg hc1]
  by_cases h3 : within 0xE0 0xEF c0
  · simp only [if_neg h2, if_pos h3]
    rcases s with - | ⟨c1, - | ⟨c2, s⟩⟩
    · rfl
    · simp only [poTail_short (s := [c1]) (k := 2) (by simp)]
    by_cases hc : within 0x80 0xBF c1 ∧ within 0x80 0xBF c2
    · simp only [poTail_two, if_pos hc, ok3_iff h3, true_and]
      split_ifs <;> first | omega | rfl
    · simp only [poTail_two, if_neg hc]
      rw [if_neg fun hok => hc ⟨((ok3_iff h3).1 hok).1, ((ok3_iff h3).1 hok).2.1⟩]
  by_cases h4 : within 0xF0 0xF7 c0
  · simp only [if_neg h2, if_neg h3, if_pos h4]
    rcases s with - | ⟨c1, - | ⟨c2, - | ⟨c3, s⟩⟩⟩
    iterate 3 rw [poTail_short (by simp)]; split_ifs <;> rfl
    by_cases hc : within 0x80 0xBF c1 ∧ within 0x80 0xBF c2 ∧ within 0x80 0xBF c3
    · simp only [poTail_three, if_pos hc]
      by_cases h5 : within 0xF0 0xF4 c0
      · simp only [if_pos h5, ok4_iff h5, true_and]
        split_ifs <;> first | omega | rfl
      rw [if_neg (by omega), if_pos (by omega), if_neg h5]
    simp only [poTail_three, if_neg hc]
    by_cases h5 : within 0xF0 0xF4 c0
    · have hok : ¬ ok4 c0 c1 c2 c3 := fun hok => by
        obtain ⟨hc1, hc2, hc3, -⟩ := (ok4_iff h5).1 hok
        exact hc ⟨hc1, hc2, hc3⟩
      rw [if_pos h5, if_neg hok]
    rw [if_neg h5]
  simp only [if_neg h2, if_neg h3, if_neg h4]
  rw [if_neg (by omega)]

/-! ### Whole texts -/

abbrev encode (cs : List Char) : List UInt8 := cs.flatMap String.utf8EncodeChar

lemma length_le_encode (cs) : cs.length ≤ (encode cs).length := by
  induction cs with
  | nil => simp
  | cons c cs ih =>
    have := String.length_utf8EncodeChar c
    have := c.utf8Size_pos
    simp only [encode, flatMap_cons, length_append, length_cons] at ih ⊢
    omega

/-- A text is characters up to the first place where none begins. -/
lemma exists_split (n s) (hn : s.length ≤ n) :
    ∃ cs rest, s = encode cs ++ rest ∧ sanitizeStep rest = none := by
  induction n generalizing s with
  | zero => exact ⟨[], [], by simpa using hn, rfl⟩
  | succ n ih =>
    rcases h : sanitizeStep s with - | k
    · exact ⟨[], s, rfl, h⟩
    · obtain ⟨c, rest, rfl⟩ := encode_of_sanitizeStep h
      have := c.utf8Size_pos
      rw [length_append, String.length_utf8EncodeChar] at hn
      obtain ⟨cs, rest, rfl, hrest⟩ := ih rest (by omega)
      exact ⟨c :: cs, rest, by simp [encode], hrest⟩

lemma utf8_split (h : sanitizeStep rest = none) : Utf8 (encode cs ++ rest) ↔ rest = [] := by
  refine ⟨?_, fun hrest => ⟨cs, by simp [hrest]⟩⟩
  rintro ⟨ds, hds⟩
  induction cs generalizing ds with
  | nil =>
    rcases ds with - | ⟨d, ds⟩
    · exact hds
    · rw [show rest = _ from hds, flatMap_cons, sanitizeStep_encode] at h
      cases h
  | cons c cs ih =>
    have hc := sanitizeStep_encode c (encode cs ++ rest)
    rw [encode, flatMap_cons, append_assoc] at hds
    rcases ds with - | ⟨d, ds⟩
    · rw [hds] at hc
      cases hc
    · rw [hds, flatMap_cons, sanitizeStep_encode, Option.some.injEq] at hc
      exact ih ds (append_inj hds hc.symm).2

lemma ne_nil (c rest) : String.utf8EncodeChar c ++ rest ≠ [] := by
  intro h
  have hc := sanitizeStep_encode c rest
  rw [h] at hc
  cases hc

lemma poLoop_chars (n i : ℕ) (cs rest) :
    poLoop (n + cs.length) i (encode cs ++ rest) = poLoop n (i + (encode cs).length) rest := by
  induction cs generalizing i with
  | nil => rfl
  | cons c cs ih =>
    rw [encode, flatMap_cons, append_assoc, length_cons, ← Nat.add_assoc, poLoop,
      if_neg (ne_nil c _), poStep_eq, sanitizeStep_encode]
    simp only
    rw [drop_left, ih, length_append, Nat.add_assoc]

lemma sanitizeLoop_char (h : o + (String.utf8EncodeChar c).length ≤ outsz) :
    sanitizeLoop outsz (n + 1) o (String.utf8EncodeChar c ++ rest) = String.utf8EncodeChar c ++
        sanitizeLoop outsz n (o + (String.utf8EncodeChar c).length) rest := by
  rw [sanitizeLoop, if_neg (ne_nil c _), sanitizeStep_encode]
  simp only
  rw [if_neg (by omega), take_left, drop_left]

lemma sanitizeLoop_chars (h : o + (encode cs).length ≤ outsz) :
    sanitizeLoop outsz (n + cs.length) o (encode cs ++ rest) =
      encode cs ++ sanitizeLoop outsz n (o + (encode cs).length) rest := by
  induction cs generalizing o with
  | nil => rfl
  | cons c cs ih =>
    rw [encode, flatMap_cons, length_append] at h ⊢
    rw [append_assoc, length_cons, ← Nat.add_assoc, sanitizeLoop_char (by omega),
      ih (by simp only [encode]; omega), append_assoc, Nat.add_assoc]

lemma sanitizeLoop_ne (hr : rest ≠ []) (h : sanitizeStep rest = none) :
    sanitizeLoop outsz (n + 1) o rest ≠ rest := by
  intro heq
  rw [sanitizeLoop, if_neg hr, h] at heq
  simp only at heq
  split_ifs at heq
  · exact hr heq.symm
  · rw [← heq] at h
    cases h

/-- **The two readers of UTF-8 agree.** `po_utf8_check` answers `-1` exactly for well-formed
UTF-8, otherwise where the first ill-formed sequence begins; and `sanitize_utf8` leaves exactly
the same texts as they are. -/
theorem poUtf8Check_correct (text : List UInt8) :
    (poUtf8Check text = none ↔ Utf8 text) ∧
      (∀ i, poUtf8Check text = some i → i < text.length ∧ Utf8 (text.take i) ∧
        ¬ ∃ c rest, text.drop i = String.utf8EncodeChar c ++ rest) ∧
      ∀ outsz, text.length ≤ outsz →
        (poUtf8Check text = none ↔ sanitizeUtf8 text outsz = text) := by
  obtain ⟨cs, rest, rfl, hrest⟩ := exists_split _ text le_rfl
  have hlen := length_le_encode cs
  obtain ⟨n, hn⟩ : ∃ n, (encode cs ++ rest).length + 1 = n + 1 + cs.length := by
    rw [length_append]
    exact ⟨(encode cs).length + rest.length - cs.length, by omega⟩
  have hpo : poUtf8Check (encode cs ++ rest) =
      if rest = [] then none else some (encode cs).length := by
    rw [poUtf8Check, hn, poLoop_chars, poLoop, poStep_eq, hrest, Nat.zero_add]
  have hnone : poUtf8Check (encode cs ++ rest) = none ↔ rest = [] := by
    rw [hpo]
    split_ifs <;> simp_all
  refine ⟨hnone.trans (utf8_split hrest).symm, fun i hi => ?_, fun outsz hout => ?_⟩
  · rw [hpo] at hi
    split_ifs at hi with hr
    cases hi
    have := length_pos_of_ne_nil hr
    rw [take_left, drop_left, length_append]
    refine ⟨by omega, ⟨cs, rfl⟩, ?_⟩
    rintro ⟨c, rest, rfl⟩
    rw [sanitizeStep_encode] at hrest
    cases hrest
  · rw [hnone, sanitizeUtf8, hn, sanitizeLoop_chars (by rw [length_append] at hout; omega),
      append_cancel_left_eq]
    refine ⟨fun h => by rw [h]; rfl, fun h => ?_⟩
    by_contra hr
    exact sanitizeLoop_ne hr hrest h

/-- What is written is UTF-8 wherever the room is three times what there is to read. -/
lemma sanitizeLoop_utf8 (h : o + 3 * s.length ≤ outsz) : Utf8 (sanitizeLoop outsz n o s) := by
  induction n generalizing o s with
  | zero => exact ⟨[], rfl⟩
  | succ n ih =>
    by_cases hs : s = []
    · rw [sanitizeLoop, if_pos hs]
      exact ⟨[], rfl⟩
    rcases hstep : sanitizeStep s with - | k
    · have hpos := length_pos_of_ne_nil hs
      obtain ⟨cs, hcs⟩ := @ih (o + 3) s.tail (by rw [length_tail]; omega)
      rw [sanitizeLoop, if_neg hs, hstep]
      rw [if_neg (by omega), hcs]
      exact ⟨Char.ofNat 0xFFFD :: cs, rfl⟩
    · obtain ⟨c, rest, rfl⟩ := encode_of_sanitizeStep hstep
      rw [length_append] at h
      obtain ⟨cs, hcs⟩ := @ih (o + (String.utf8EncodeChar c).length) rest (by omega)
      rw [sanitizeLoop_char (by omega), hcs]
      exact ⟨c :: cs, rfl⟩

lemma sanitizeUtf8_eq (h : Utf8 text) (hout : text.length ≤ outsz) :
    sanitizeUtf8 text outsz = text := by
  obtain ⟨cs, rfl⟩ := h
  have hlen := length_le_encode cs
  have h := @sanitizeLoop_chars outsz ((encode cs).length + 1 - cs.length) 0 cs []
    (by simpa using hout)
  rw [Nat.sub_add_cancel (by omega), append_nil] at h
  rw [sanitizeUtf8, h, Nat.succ_sub hlen, sanitizeLoop, if_pos rfl, append_nil]

/-- **`sanitize_utf8` repairs any text.** With room for three bytes for each, what it writes is
UTF-8; a text that is UTF-8 is left as it is; and so what it wrote. -/
theorem sanitizeUtf8_correct (text : List UInt8) (outsz : ℕ) (h : 3 * text.length ≤ outsz) :
    Utf8 (sanitizeUtf8 text outsz) ∧ (Utf8 text → sanitizeUtf8 text outsz = text) ∧
      ∀ outsz', 3 * (sanitizeUtf8 text outsz).length ≤ outsz' →
        sanitizeUtf8 (sanitizeUtf8 text outsz) outsz' = sanitizeUtf8 text outsz := by
  have hutf8 : Utf8 (sanitizeUtf8 text outsz) := sanitizeLoop_utf8 (by omega)
  refine ⟨hutf8, fun ht => sanitizeUtf8_eq ht ?_, fun _ h' => sanitizeUtf8_eq hutf8 ?_⟩
  all_goals omega

theorem sanitizeUtf8_correct_overlong :
    sanitizeUtf8 [0xC0, 0x80] 6 = repl ++ repl ∧ Utf8 (sanitizeUtf8 [0xC0, 0x80] 6) :=
  ⟨by decide, (sanitizeUtf8_correct [0xC0, 0x80] 6 (by decide)).1⟩

end Ircu.Utf8
