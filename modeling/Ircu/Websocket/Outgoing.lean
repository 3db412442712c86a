import Ircu.MsgTag.Format
import Ircu.Utf8
import Ircu.Websocket.Frame

/-!
The frame that a line is sent to a WebSocket client in: `websocket_frame_msgbuf`.

Its stack buffers have room for a line in which every byte becomes three. But the frame is copied
to a buffer of `msgq.c`, and of these the largest has `2 ^ MB_MAX_SHIFT` bytes.
-/

namespace Ircu.Websocket

open List Utf8 UInt8

/-! ### The code -/

def MB_MAX_SHIFT : ℕ := 13

def WS_LINE_MAX : ℕ := MsgTag.OUTBOUND_TAG_MAX + Packet.BUFSIZE

def WS_UTF8_OUT_MAX : ℕ := (WS_LINE_MAX + 2) * 3

/-- Line ends are dropped from a line that is given from its end. -/
def stripLoop : List UInt8 → List UInt8
  | n :: r :: line => if r = 13 ∧ n = 10 then stripLoop line else n :: r :: line
  | line => line

/-- `msgq_raw_alloc` and the copy. -/
def msgqRaw (frame : List UInt8) : Option (List UInt8) :=
  if 2 ^ MB_MAX_SHIFT < frame.length then none else some frame

/-- The header and `sendbuf`. -/
def buildFrame (first : UInt8) (sendbuf : List UInt8) : Option (List UInt8) :=
  if sendbuf.length < 126 then msgqRaw (first :: UInt8.ofNat sendbuf.length :: sendbuf)
  else if sendbuf.length < 65536 then
    msgqRaw (first :: 126 :: UInt8.ofNat (sendbuf.length >>> 8) ::
      UInt8.ofNat sendbuf.length :: sendbuf)
  else none

def websocketFrameMsgbuf (isBinary : Bool) (line : List UInt8) : Option (List UInt8) :=
  if line = [] then none
  else
    let line := (stripLoop line.reverse).reverse
    if isBinary then buildFrame (0x80 ||| 0x2) line
    else buildFrame (0x80 ||| 0x1) (sanitizeUtf8 line WS_UTF8_OUT_MAX)

/-! ### What a client reads -/

/-- A frame of RFC 6455 that is not masked. -/
structure Plain where
  fin : Bool
  opcode : UInt8
  payload : List UInt8
deriving DecidableEq

/-- The first frame of a stream and what is behind it. A client accepts no masked frame. -/
def readPlain (buf : List UInt8) : Option (Plain × List UInt8) :=
  match buf with
  | b0 :: b1 :: rest =>
    if b1 &&& 0x80 ≠ 0 then none
    else
      let (size, rest) :=
        if b1 = 126 then (bigEndian (rest.take 2), rest.drop 2)
        else if b1 = 127 then (bigEndian (rest.take 8), rest.drop 8)
        else (b1.toNat, rest)
      if rest.length < size then none
      else some (⟨b0 &&& 0x80 ≠ 0, b0 &&& 0x0F, rest.take size⟩, rest.drop size)
  | _ => none

/-- The bytes of a text at which no character begins, character by character. -/
def straysLoop : ℕ → List UInt8 → ℕ
  | 0, _ => 0
  | n + 1, s =>
    if s = [] then 0
    else
      match sanitizeStep s with
      | some k => straysLoop n (s.drop k)
      | none => straysLoop n s.tail + 1

def strays (text : List UInt8) : ℕ := straysLoop (text.length + 1) text

/-! ### The length of the payload -/

variable {outsz n o : ℕ} {s text payload : List UInt8}

lemma length_sanitizeLoop (hn : s.length < n) (h : o + 3 * s.length ≤ outsz) :
    (sanitizeLoop outsz n o s).length = s.length + 2 * straysLoop n s := by
  induction n generalizing o s with
  | zero => omega
  | succ n ih =>
    by_cases hs : s = []
    · rw [sanitizeLoop, straysLoop, hs]
      rfl
    have hpos := length_pos_of_ne_nil hs
    rcases hstep : sanitizeStep s with - | k
    · rw [sanitizeLoop, straysLoop, if_neg hs, if_neg hs, hstep]
      simp only
      rw [if_neg (by omega), length_append, ih (by rw [length_tail]; omega)
        (by rw [length_tail]; omega), length_tail, show repl.length = 3 from rfl]
      omega
    · obtain ⟨c, rest, rfl⟩ := encode_of_sanitizeStep hstep
      have hc := (String.length_utf8EncodeChar c).trans_gt c.utf8Size_pos
      rw [length_append] at hn h
      rw [sanitizeLoop_char (by omega), straysLoop, if_neg hs, sanitizeStep_encode]
      simp only
      rw [drop_left, length_append, length_append, ih (by omega) (by omega)]
      omega

lemma length_sanitizeUtf8 (h : 3 * text.length ≤ outsz) :
    (sanitizeUtf8 text outsz).length = text.length + 2 * strays text :=
  length_sanitizeLoop (Nat.lt_succ_self _) (by omega)

/-! ### One frame -/

lemma readPlain_short (first) (h : payload.length < 126) :
    readPlain (first :: ofNat payload.length :: payload) =
      some (⟨first &&& 0x80 ≠ 0, first &&& 0x0F, payload⟩, []) := by
  have hsmall : ∀ b : UInt8, b.toNat < 126 → b &&& 0x80 = 0 ∧ b ≠ 126 ∧ b ≠ 127 :=
    forall_byte (by decide +kernel)
  have hnat : (ofNat payload.length).toNat = payload.length := by
    rw [toNat_ofNat']
    omega
  obtain ⟨hmask, h126, h127⟩ := hsmall _ (hnat.trans_lt h)
  simp [readPlain, hmask, h126, h127, hnat]

lemma readPlain_long (first) (h : payload.length < 65536) :
    readPlain (first :: 126 :: ofNat (payload.length >>> 8) :: ofNat payload.length :: payload) =
      some (⟨first &&& 0x80 ≠ 0, first &&& 0x0F, payload⟩, []) := by
  have hsize : bigEndian [ofNat (payload.length >>> 8), ofNat payload.length] = payload.length := by
    simp only [bigEndian, foldl_cons, foldl_nil, toNat_ofNat', Nat.zero_shiftLeft, Nat.zero_or]
    rw [← Nat.shiftLeft_add_eq_or_of_lt (by omega)]
    omega
  simp [readPlain, hsize, show (126 : UInt8) &&& 128 = 0 from rfl]

lemma buildFrame_iff (first payload) : (∃ buf, buildFrame first payload = some buf ∧
      readPlain buf = some (⟨first &&& 0x80 ≠ 0, first &&& 0x0F, payload⟩, [])) ↔
      payload.length ≤ 2 ^ MB_MAX_SHIFT - 4 := by
  rw [buildFrame, MB_MAX_SHIFT]
  split_ifs with hshort hlong
  · rw [msgqRaw, if_neg (by simp [MB_MAX_SHIFT]; omega)]
    exact iff_of_true ⟨_, rfl, readPlain_short first hshort⟩ (by omega)
  · by_cases hfits : payload.length ≤ 2 ^ 13 - 4
    · rw [msgqRaw, if_neg (by simp [MB_MAX_SHIFT]; omega)]
      exact iff_of_true ⟨_, rfl, readPlain_long first hlong⟩ hfits
    · rw [msgqRaw, if_pos (by simp [MB_MAX_SHIFT]; omega)]
      exact iff_of_false (fun ⟨_, h, _⟩ => nomatch h) hfits
  · exact iff_of_false (fun ⟨_, h, _⟩ => nomatch h) (by omega)

lemma stripLoop_line (h : 13 ∉ text) : (stripLoop (text ++ [13, 10]).reverse).reverse = text := by
  have hrest : stripLoop text.reverse = text.reverse := by
    rcases hrev : text.reverse with - | ⟨n, - | ⟨r, line⟩⟩
    · rfl
    · rfl
    · rw [stripLoop, if_neg]
      rintro ⟨rfl, -⟩
      exact h (mem_reverse.mp (by rw [hrev]; simp))
  rw [reverse_append, show [13, 10].reverse = [(10 : UInt8), 13] from rfl]
  simp only [cons_append, nil_append, stripLoop, and_self, if_true, hrest, reverse_reverse]

/-- **A line goes out as one final frame** if and only if the client takes binary frames, or the
line has not too many bytes at which no character begins. -/
theorem websocketFrameMsgbuf_iff (isBinary : Bool) (text : List UInt8) (hcr : 13 ∉ text)
    (hlen : (text ++ [13, 10]).length ≤ WS_LINE_MAX) :
    (∃ buf, websocketFrameMsgbuf isBinary (text ++ [13, 10]) = some buf ∧
      readPlain buf = some (⟨true, if isBinary then 2 else 1,
        if isBinary then text else sanitizeUtf8 text WS_UTF8_OUT_MAX⟩, [])) ↔
      isBinary = true ∨ text.length + 2 * strays text ≤ 2 ^ MB_MAX_SHIFT - 4 := by
  have hmax : WS_LINE_MAX = 4862 := rfl
  have hutf8 : WS_UTF8_OUT_MAX = 14592 := rfl
  rw [length_append] at hlen
  rw [websocketFrameMsgbuf, if_neg (by simp), stripLoop_line hcr]
  cases isBinary with
  | true =>
    refine iff_of_true ((buildFrame_iff (0x80 ||| 0x2) text).mpr ?_) (.inl rfl)
    rw [MB_MAX_SHIFT]
    omega
  | false =>
    refine (buildFrame_iff (0x80 ||| 0x1) _).trans ?_
    rw [length_sanitizeUtf8 (by omega)]
    simp

theorem websocketFrameMsgbuf_iff_ping : ∃ buf,
    websocketFrameMsgbuf false (str "PING" ++ [13, 10]) = some buf ∧
      readPlain buf = some (⟨true, 1, sanitizeUtf8 (str "PING") WS_UTF8_OUT_MAX⟩, []) :=
  (websocketFrameMsgbuf_iff false (str "PING") (by decide) (by decide)).mpr (.inr (by decide))

lemma straysLoop_replicate (n k : ℕ) (h : k < n) : straysLoop n (replicate k 0xFF) = k := by
  induction n generalizing k with
  | zero => omega
  | succ n ih =>
    cases k with
    | zero => rfl
    | succ k =>
      exact congrArg (· + 1) (ih k (by omega))

/-- A line of bytes at which no character begins becomes three times as long. -/
theorem websocketFrameMsgbuf_refuses : ∃ text, 13 ∉ text ∧ (text ++ [13, 10]).length ≤ WS_LINE_MAX ∧
    ¬ ∃ buf, websocketFrameMsgbuf false (text ++ [13, 10]) = some buf ∧
      readPlain buf = some (⟨true, 1, sanitizeUtf8 text WS_UTF8_OUT_MAX⟩, []) := by
  have hmax : WS_LINE_MAX = 4862 ∧ WS_UTF8_OUT_MAX = 14592 := ⟨rfl, rfl⟩
  obtain ⟨text, hlen, hcr, hstrays⟩ :
      ∃ text : List UInt8, text.length = 2730 ∧ 13 ∉ text ∧ strays text = 2730 := by
    refine ⟨replicate 2730 0xFF, length_replicate, fun h => ?_, ?_⟩
    · exact absurd (eq_of_mem_replicate h) (by decide)
    · rw [strays, length_replicate, straysLoop_replicate _ _ (Nat.lt_succ_self _)]
  refine ⟨text, hcr, by simp [hlen, hmax], ?_⟩
  rw [websocketFrameMsgbuf, if_neg (by simp), stripLoop_line hcr]
  refine mt (buildFrame_iff (0x80 ||| 0x1) _).mp ?_
  rw [length_sanitizeUtf8 (by omega), hlen, hstrays]
  decide

end Ircu.Websocket
