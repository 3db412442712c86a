import Ircu.Packet.Basic
import Ircu.Decoder.Basic

/-!
The frames of a WebSocket client: `websocket_parse_frame`.

A frame is parsed once its header and what is taken from its payload are in the buffer.
The payload of a data frame is unmasked and put on the receive queue, at most a line of
it, with a line end behind the last frame of a message. Of control frames only Close and
Ping are answered. `dbuf_put` is taken to succeed: whether it does depends on the pool
that all connections share.
-/

namespace Ircu.Websocket

open List Option

open Packet (READBUFSIZE)

/-- What the parser does besides returning a number. -/
inductive Effect where
  /-- `dbuf_put` on the receive queue, which succeeds. -/
  | put (bytes : List UInt8)
  /-- `websocket_write_pong`. -/
  | pong (payload : List UInt8)
  /-- `websocket_write_close`. -/
  | close
deriving DecidableEq

def slice (buf : List UInt8) (i n : ℕ) : List UInt8 := (buf.drop i).take n

def bigEndian (bs : List UInt8) : ℕ := bs.foldl (fun n b => (n <<< 8) ||| b.toNat) 0

def unmask (key payload : List UInt8) : List UInt8 :=
  payload.mapIdx fun i b => b ^^^ key.getD (i % 4) 0

/-- A `size_t` returned as an `int`. -/
def toInt (n : ℕ) : ℤ := (n : ℤ).bmod (2 ^ 32)

/-! ### The header -/

/-- The header of a frame: `header` is its length with the masking key. -/
structure Head where
  fin : Bool
  opcode : UInt8
  header : ℕ
  payload : ℕ
  key : List UInt8
deriving DecidableEq

/-- `payload_len`, and `header_len` without the masking key. Of a long length field only
the last four bytes are used. -/
def lengthField (b : UInt8) (buf : List UInt8) : Option (ℕ × ℕ) :=
  if b &&& 0x7F = 126 then
    if buf.length < 4 then none else some (bigEndian (slice buf 2 2), 4)
  else if b &&& 0x7F = 127 then
    if buf.length < 10 then none else some (bigEndian (slice buf 6 4), 10)
  else some ((b &&& 0x7F).toNat, 2)

def readHead (buf : List UInt8) : Option (Option Head) :=
  match buf with
  | b₀ :: b₁ :: _ =>
    if b₁ &&& 0x80 = 0 then some none
    else
      match lengthField b₁ buf with
      | none => none
      | some (payload, header) =>
        if buf.length < header + 4 then none
        else some (some ⟨b₀ &&& 0x80 ≠ 0, b₀ &&& 0x0F, header + 4, payload, slice buf header 4⟩)
  | _ => none

namespace Head

variable (h : Head)

def Control : Prop := h.opcode &&& 0x08 ≠ 0

instance : Decidable h.Control := inferInstanceAs (Decidable (¬_))

def Data : Prop := h.opcode = 0 ∨ h.opcode = 1 ∨ h.opcode = 2

instance : Decidable h.Data := inferInstanceAs (Decidable (_ ∨ _))

def taken : ℕ := if h.Data then min h.payload READBUFSIZE else h.payload

def total : ℕ := h.header + h.payload

def act (payload : List UInt8) : ℤ × List Effect :=
  if h.Control then
    if 125 < h.payload then (toInt h.total, [])
    else if h.opcode = 0x8 then (-3, [.close])
    else if h.opcode = 0x9 then (toInt h.total, [.pong (unmask h.key payload)])
    else (toInt h.total, [])
  else if h.Data then
    (toInt h.total, .put (unmask h.key payload) :: if h.fin then [.put [10]] else [])
  else (toInt h.total, [])

end Head

def parseFrame (buf : List UInt8) : ℤ × List Effect :=
  match readHead buf with
  | none => (0, [])
  | some none => (-2, [])
  | some (some h) =>
    if buf.length < h.header + h.taken then (0, []) else h.act (slice buf h.header h.taken)

/-! ### What comes behind a frame -/

variable {buf : List UInt8} {i n : ℕ}

lemma slice_append (t : List UInt8) (h : i + n ≤ buf.length) :
    slice (buf ++ t) i n = slice buf i n := by
  rw [slice, slice, drop_append_of_le_length (by omega), take_append_of_le_length]
  rw [length_drop]
  omega

lemma lengthField_append {b r} (t : List UInt8) (h : lengthField b buf = some r) :
    lengthField b (buf ++ t) = some r := by
  unfold lengthField at h ⊢
  rw [length_append]
  split at h
  · rename_i hb
    split at h
    · cases h
    · rw [if_pos hb, if_neg (by omega), slice_append t (by omega), h]
  rename_i hb
  rw [if_neg hb]
  split at h
  · rename_i hb'
    split at h
    · cases h
    · rw [if_pos hb', if_neg (by omega), slice_append t (by omega), h]
  · rename_i hb'
    rw [if_neg hb', h]

lemma readHead_append {r} (t : List UInt8) (h : readHead buf = some r) :
    readHead (buf ++ t) = some r := by
  match buf, h with
  | b0 :: b1 :: buf, h =>
    rw [cons_append, cons_append]
    simp only [readHead] at h ⊢
    split at h
    · rename_i hb
      rw [if_pos hb, h]
    rename_i hb
    rw [if_neg hb]
    cases hl : lengthField b1 (b0 :: b1 :: buf) with
    | none =>
      rw [hl] at h
      cases h
    | some r' =>
      have hl' : lengthField b1 (b0 :: b1 :: (buf ++ t)) = some r' := lengthField_append t hl
      rw [hl] at h
      rw [hl']
      simp only at h ⊢
      split at h
      · cases h
      rename_i hlen
      have hle : r'.2 + 4 ≤ (b0 :: b1 :: buf).length := by omega
      have hslice : slice (b0 :: b1 :: (buf ++ t)) r'.2 4 = slice (b0 :: b1 :: buf) r'.2 4 :=
        slice_append t hle
      rw [if_neg, hslice, h]
      simp only [length_cons, length_append] at hlen ⊢
      omega

/-- **What the parser does with a frame does not depend on what comes behind it.** -/
theorem parseFrame_append (t : List UInt8) (h : parseFrame buf ≠ (0, [])) :
    parseFrame (buf ++ t) = parseFrame buf := by
  unfold parseFrame at h ⊢
  cases hr : readHead buf with
  | none =>
    rw [hr] at h
    exact absurd rfl h
  | some r =>
    rw [hr] at h
    rw [readHead_append t hr]
    cases r with
    | none => rfl
    | some hd =>
      simp only at h ⊢
      split at h
      · exact absurd rfl h
      · rename_i hlen
        rw [if_neg hlen, if_neg (by rw [length_append]; omega), slice_append t (by omega)]

/-! ### The parser -/

/-- Why `read_packet` closes the connection for a frame. -/
inductive Why where
  | dbufPutFail
  | protocolViolation
  | clientClosed
deriving DecidableEq

def why (ret : ℤ) : Why :=
  if ret = -2 then .protocolViolation else if ret = -3 then .clientClosed else .dbufPutFail

inductive Stop where
  | frame (why : Why)
  /-- A frame that does not fit in the buffer. -/
  | full
  /-- A frame whose length, as an `int`, is 0: its data has been put on the queue, but the
  number returned says that it has not arrived yet. -/
  | wrapped
deriving DecidableEq

/-- How `read_packet` takes what the parser returns. -/
def verdict (r : ℤ × List Effect) : Decoder.Verdict Effect Stop :=
  if 0 < r.1 then .used r.1.toNat r.2
  else if r.1 = 0 then if r.2 = [] then .more else .stop .wrapped r.2
  else .stop (.frame (why r.1)) r.2

lemma verdict_more {r} (h : verdict r = .more) : r.1 = 0 ∧ r.2 = [] := by
  unfold verdict at h
  split_ifs at h with h1 h2 h3
  exact ⟨h2, h3⟩

lemma verdict_used {r n out} (h : verdict r = .used n out) :
    0 < r.1 ∧ r.1.toNat = n ∧ r.2 = out := by
  unfold verdict at h
  split_ifs at h with h1
  simp only [Decoder.Verdict.used.injEq] at h
  exact ⟨h1, h⟩

lemma verdict_stop {r stop out} (h : verdict r = .stop stop out) :
    r.2 = out ∧ (stop = .wrapped ∨ r.1 < 0 ∧ stop = .frame (why r.1)) := by
  unfold verdict at h
  split_ifs at h with h1 h2 h3
  · simp only [Decoder.Verdict.stop.injEq] at h
    exact ⟨h.2, .inl h.1.symm⟩
  · simp only [Decoder.Verdict.stop.injEq] at h
    exact ⟨h.2, .inr ⟨by omega, h.1.symm⟩⟩

def WEBSOCKET_MAX_HEADER : ℕ := READBUFSIZE + 14

def frameParser : Decoder.Parser UInt8 Effect Stop where
  parse buf := verdict (parseFrame buf)
  limit := WEBSOCKET_MAX_HEADER
  full := .full
  used_pos := by
    intro buf n out h
    obtain ⟨hpos, hn, -⟩ := verdict_used h
    omega
  stable := by
    intro buf h t
    rw [parseFrame_append t]
    intro h0
    rw [h0] at h
    exact h rfl

/-! ### Declared lengths -/

/-- The length of a frame as its header declares it: RFC 6455 has a length field of eight bytes
where the parser uses four. -/
def declared (buf : List UInt8) : ℕ :=
  match buf with
  | _ :: b₁ :: _ =>
    let key := if b₁ &&& 0x80 = 0 then 0 else 4
    if b₁ &&& 0x7F = 126 then 4 + key + bigEndian (slice buf 2 2)
    else if b₁ &&& 0x7F = 127 then 10 + key + bigEndian (slice buf 2 8)
    else 2 + key + (b₁ &&& 0x7F).toNat
  | _ => 0

lemma bigEndian_concat (bs b) : bigEndian (bs ++ [b]) = bigEndian bs * 256 + b.toNat := by
  rw [bigEndian, foldl_append, ← bigEndian]
  exact (Nat.shiftLeft_add_eq_or_of_lt b.toNat_lt _).symm.trans (by rw [Nat.shiftLeft_eq])

lemma bigEndian_append (bs cs : List UInt8) :
    bigEndian (bs ++ cs) = bigEndian bs * 256 ^ cs.length + bigEndian cs := by
  induction cs using List.reverseRecOn with
  | nil => simp [bigEndian]
  | append_singleton cs b ih =>
    rw [← append_assoc, bigEndian_concat, ih, bigEndian_concat]
    simp [pow_succ]
    ring

lemma bigEndian_lt (bs) : bigEndian bs < 256 ^ bs.length := by
  induction bs using List.reverseRecOn with
  | nil => simp [bigEndian]
  | append_singleton bs b ih =>
    have hb := b.toNat_lt
    rw [bigEndian_concat, length_append, length_singleton]
    omega

lemma bigEndian_slice_lt (buf i n) : bigEndian (slice buf i n) < 256 ^ n :=
  (bigEndian_lt _).trans_le (Nat.pow_le_pow_right (by decide) (length_take_le _ _))

lemma bigEndian_slice_eight (h : 10 ≤ buf.length) :
    bigEndian (slice buf 2 8) = bigEndian (slice buf 6 4) + bigEndian (slice buf 2 4) * 2 ^ 32 := by
  have hsplit : slice buf 2 8 = slice buf 2 4 ++ slice buf 6 4 := by
    rw [slice, slice, slice, ← drop_drop (i := 4), ← take_add]
  have hlen : (slice buf 6 4).length = 4 := by
    simp [slice]
    omega
  rw [hsplit, bigEndian_append, hlen, Nat.add_comm]
  rfl

lemma toInt_eq (h : n < 4294967310) :
    toInt n = if n < 2147483648 then (n : ℤ) else (n : ℤ) - 4294967296 := by
  have hmod : (n : ℤ).bmod 4294967296 =
      if n < 2147483648 then (n : ℤ) else (n : ℤ) - 4294967296 := by
    rw [Int.bmod_def]
    split_ifs <;> omega
  exact hmod

lemma declared_eq {h} (hr : readHead buf = some (some h)) :
    (∃ k, declared buf = h.total + k * 2 ^ 32) ∧ 0 < h.total ∧ h.total < 2 ^ 32 + 14 := by
  match buf, hr with
  | b0 :: b1 :: buf, hr =>
    simp only [readHead] at hr
    split_ifs at hr with hmask
    · cases hr
    split at hr
    · cases hr
    next payload header hfield =>
    split_ifs at hr
    obtain rfl := some.inj (some.inj hr)
    simp only [declared, if_neg hmask, Head.total]
    unfold lengthField at hfield
    split_ifs at hfield ⊢ with h126 hlen h127 hlen
    · obtain ⟨rfl, rfl⟩ := Prod.mk.inj (some.inj hfield)
      have hlt := bigEndian_slice_lt (b0 :: b1 :: buf) 2 2
      exact ⟨⟨0, by omega⟩, by omega, by omega⟩
    · obtain ⟨rfl, rfl⟩ := Prod.mk.inj (some.inj hfield)
      have hlt := bigEndian_slice_lt (b0 :: b1 :: buf) 6 4
      rw [bigEndian_slice_eight (not_lt.mp hlen)]
      exact ⟨⟨_, (Nat.add_assoc _ _ _).symm⟩, by omega, by omega⟩
    · obtain ⟨rfl, rfl⟩ := Prod.mk.inj (some.inj hfield)
      have hlt := (b1 &&& 0x7F).toNat_lt
      exact ⟨⟨0, by omega⟩, by omega, by omega⟩

def Waits (r : Option Head) (buf : List UInt8) : Prop :=
  ∃ h, r = some h ∧ buf.length < h.header + h.taken

/-- **When the number returned is the length of the frame**, and a length that is no `int` gives a
number below 0 unless the parser waits: exactly if the length is an `int`, or its lower half is
below 0 as one, or the parser waits or closes the connection. -/
theorem parseFrame_length_iff {r : Option Head} (hr : readHead buf = some r) :
    ((0 < (parseFrame buf).1 → (parseFrame buf).1 = declared buf) ∧
        (2 ^ 31 ≤ declared buf → (parseFrame buf).1 < 0 ∨ Waits r buf)) ↔
      ∀ h, r = some h → declared buf < 2 ^ 31 ∨ (2 ^ 31 ≤ h.total ∧ h.total < 2 ^ 32) ∨
        Waits r buf ∨ h.opcode = 0x8 ∧ h.payload ≤ 125 := by
  rw [parseFrame, hr]
  cases r with
  | none => simp
  | some h =>
    obtain ⟨⟨k, hk⟩, hpos, hlt⟩ := declared_eq hr
    simp only [Option.some.injEq, forall_eq', Waits, exists_eq_left']
    by_cases hlen : buf.length < h.header + h.taken
    · simp [hlen]
    rw [if_neg hlen]
    by_cases hclose : h.opcode = 0x8 ∧ h.payload ≤ 125
    · have hact : h.act (slice buf h.header h.taken) = (-3, [.close]) := by
        simp [Head.act, Head.Control, hclose.1, not_lt.mpr hclose.2]
      simp [hact, hclose]
    obtain ⟨out, hact⟩ : ∃ out, h.act (slice buf h.header h.taken) = (toInt h.total, out) := by
      unfold Head.act
      split_ifs with _ hbig hop
      · exact ⟨_, rfl⟩
      · exact absurd ⟨hop, not_lt.mp hbig⟩ hclose
      all_goals exact ⟨_, rfl⟩
    simp only [hact, hclose, or_false, toInt_eq hlt]
    split_ifs <;> omega

/-- A text frame of 2 ^ 16 bytes, with the first part of its payload. -/
theorem parseFrame_length_long :
    (parseFrame ([0x81, 0xFF, 0, 0, 0, 0, 0, 1, 0, 0, 0, 0, 0, 0] ++
      List.replicate READBUFSIZE 0x61)).1 = 2 ^ 16 + 14 := by
  have h := @parseFrame_length_iff
    ([0x81, 0xFF, 0, 0, 0, 0, 0, 1, 0, 0, 0, 0, 0, 0] ++ List.replicate READBUFSIZE 0x61)
    (some ⟨true, 1, 14, 2 ^ 16, [0, 0, 0, 0]⟩) (by decide +kernel)
  exact ((h.mpr fun _ _ => .inl (by decide +kernel)).1 (by decide +kernel)).trans
    (by decide +kernel)

/-- **A frame of 2 ^ 32 bytes is taken for an empty one.** What is parsed next is its payload. -/
theorem parseFrame_length_cut :
    declared [0x82, 0xFF, 0, 0, 0, 1, 0, 0, 0, 0, 0, 0, 0, 0] = 2 ^ 32 + 14 ∧
      (parseFrame [0x82, 0xFF, 0, 0, 0, 1, 0, 0, 0, 0, 0, 0, 0, 0]).1 = 14 := by
  decide +kernel

end Ircu.Websocket
