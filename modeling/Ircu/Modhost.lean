import Ircu.Chattr

/-!
Frames between the server and a module host: `modhost_frame.c`.

`bytes f` is the text of a frame, and `size f` its length. The encoder writes it if it is no longer
than `MODHOST_FRAME_MAX`; the decoder compares the length that stands in front of the frame with the
same limit, and that length does not count its own four bytes. So there are frames that are read
and are never written (`decode_beyond_max`).
-/

namespace Ircu.Modhost

open List Option

def FRAME_MAX : ℕ := 65536

def HEADER : ℕ := 10

def ARGS_MAX : ℕ := 32

structure Frame where
  verb : UInt8
  serial : UInt32
  args : List (List UInt8)

def put32 (v : ℕ) : List UInt8 :=
  [UInt8.ofNat (v / 2 ^ 24), UInt8.ofNat (v / 2 ^ 16), UInt8.ofNat (v / 2 ^ 8), UInt8.ofNat v]

def get32 : List UInt8 → ℕ
  | a :: b :: c :: d :: _ => a.toNat * 2 ^ 24 + b.toNat * 2 ^ 16 + c.toNat * 2 ^ 8 + d.toNat
  | _ => 0

/-- The loop of `modhost_encode` that adds up the lengths. -/
def needLoop (buflen : ℕ) : List (List UInt8) → ℕ → Option ℕ
  | [], need => some need
  | arg :: args, need =>
    if FRAME_MAX < arg.length then none
    else if FRAME_MAX < need + (4 + arg.length + 1) ∨ buflen < need + (4 + arg.length + 1) then none
    else needLoop buflen args (need + (4 + arg.length + 1))

/-- `modhost_encode`, with `none` for `0`: what is written to the buffer. -/
def encode (buflen : ℕ) (f : Frame) : Option (List UInt8) :=
  if ARGS_MAX < f.args.length then none
  else (needLoop buflen f.args HEADER).map fun need =>
    put32 (need - 4) ++ f.verb :: put32 f.serial.toNat ++ UInt8.ofNat f.args.length ::
      f.args.flatMap fun arg => put32 arg.length ++ arg ++ [0]

inductive Decoded
  | bad
  | more
  | frame (size : ℕ) (f : Frame)

/-- The loop of `modhost_decode` over the arguments: these, and the offset behind them. -/
def argLoop (buf : List UInt8) (len : ℕ) : ℕ → ℕ → Option (List (List UInt8) × ℕ)
  | 0, off => some ([], off)
  | n + 1, off =>
    if 4 + len < off + 4 then none
    else
      let alen := get32 (buf.drop off)
      if len < alen ∨ 4 + len < off + 4 + alen + 1 then none
      else if buf[off + 4 + alen]? ≠ some 0 then none
      else (argLoop buf len n (off + 4 + alen + 1)).map fun r =>
        ((buf.drop (off + 4)).take alen :: r.1, r.2)

def decode (buf : List UInt8) : Decoded :=
  if buf.length < 4 then .more
  else
    let len := get32 buf
    if FRAME_MAX < len ∨ len < HEADER - 4 then .bad
    else if buf.length < 4 + len then .more
    else
      let argc := (buf.getD 9 0).toNat
      if ARGS_MAX < argc then .bad
      else
        match argLoop buf len argc HEADER with
        | none => .bad
        | some r =>
          if r.2 ≠ 4 + len then .bad
          else .frame (4 + len) ⟨buf.getD 4 0, UInt32.ofNat (get32 (buf.drop 5)), r.1⟩

/-! ### The text of a frame -/

def content (args : List (List UInt8)) : List UInt8 :=
  args.flatMap fun arg => put32 arg.length ++ arg ++ [0]

def size (f : Frame) : ℕ := HEADER + (content f.args).length

def bytes (f : Frame) : List UInt8 :=
  put32 (size f - 4) ++ f.verb :: put32 f.serial.toNat ++ UInt8.ofNat f.args.length ::
    content f.args

variable {f : Frame} {buflen len : ℕ} {buf rest : List UInt8} {args : List (List UInt8)}

lemma length_content_cons (arg : List UInt8) :
    (content (arg :: args)).length = 4 + arg.length + 1 + (content args).length := by
  simp [content, put32]
  omega

lemma needLoop_eq (need : ℕ) : needLoop buflen args need =
    if args = [] ∨ need + (content args).length ≤ FRAME_MAX ∧ need + (content args).length ≤ buflen
    then some (need + (content args).length) else none := by
  induction args generalizing need with
  | nil => rfl
  | cons arg args ih =>
    have hnil : args = [] → (content args).length = 0 := fun h => by rw [h]; rfl
    rw [needLoop, length_content_cons]
    grind

lemma encode_eq : encode buflen f =
    if f.args.length ≤ ARGS_MAX ∧ (f.args = [] ∨ size f ≤ FRAME_MAX ∧ size f ≤ buflen)
    then some (bytes f) else none := by
  rw [encode, needLoop_eq]
  by_cases hmax : ARGS_MAX < f.args.length
  · rw [if_pos hmax, if_neg fun h => hmax.not_ge h.1]
  rw [if_neg hmax]
  split_ifs with h h' h'
  · rfl
  · exact absurd ⟨not_lt.mp hmax, h⟩ h'
  · exact absurd h'.2 h
  · rfl

lemma get32_put32 {v} (hv : v < 2 ^ 32) (rest) : get32 (put32 v ++ rest) = v := by
  simp [put32, get32]
  omega

lemma put32_get32 {l} (h : 4 ≤ l.length) : put32 (get32 l) ++ l.drop 4 = l := by
  match l with
  | a :: b :: c :: d :: l =>
    have ha := a.toNat_lt
    have hb := b.toNat_lt
    have hc := c.toNat_lt
    have hd := d.toNat_lt
    rw [get32, put32, ofNat_eq (a := a) (by omega), ofNat_eq (a := b) (by omega),
      ofNat_eq (a := c) (by omega), ofNat_eq (a := d) (by omega)]
    rfl

lemma put32_ofNat (v : ℕ) : put32 (UInt32.ofNat v).toNat = put32 v := by
  simp only [put32, UInt32.toNat_ofNat', List.cons.injEq, and_true]
  refine ⟨ofNat_eq ?_, ofNat_eq ?_, ofNat_eq ?_, ofNat_eq ?_⟩
  all_goals
    rw [UInt8.toNat_ofNat']
    omega

lemma argLoop_content {off} (hbuf : buf.drop off = content args ++ rest)
    (hend : off + (content args).length = 4 + len) (hlen : len < 2 ^ 32) :
    argLoop buf len args.length off = some (args, 4 + len) := by
  induction args generalizing off with
  | nil => rw [length_nil, ← hend]; rfl
  | cons arg args ih =>
    rw [length_content_cons] at hend
    have hcons : buf.drop off = put32 arg.length ++ (arg ++ 0 :: (content args ++ rest)) := by
      rw [hbuf]
      simp [content]
    have halen : get32 (buf.drop off) = arg.length := by
      rw [hcons, get32_put32 (by omega)]
    have hdrop : buf.drop (off + 4) = arg ++ 0 :: (content args ++ rest) := by
      rw [← drop_drop, hcons]
      rfl
    have hzero : buf[off + 4 + arg.length]? = some 0 := by
      rw [← List.getElem?_drop, hdrop, List.getElem?_append_right le_rfl, Nat.sub_self]
      rfl
    have hnext : buf.drop (off + 4 + arg.length + 1) = content args ++ rest := by
      rw [Nat.add_assoc (off + 4), ← drop_drop, hdrop, drop_length_add_append]
      rfl
    rw [length_cons, argLoop, if_neg (by omega), halen, if_neg (by omega),
      if_neg (not_not.mpr hzero), ih hnext (by omega), hdrop, take_left]
    rfl

lemma content_of_argLoop {n off r} (hbuf : 4 + len ≤ buf.length)
    (h : argLoop buf len n off = some r) : r.1.length = n ∧ r.2 = off + (content r.1).length ∧
      buf.drop off = content r.1 ++ buf.drop r.2 := by
  induction n generalizing off r with
  | zero =>
    obtain rfl := some.inj h
    exact ⟨rfl, rfl, rfl⟩
  | succ n ih =>
    rw [argLoop] at h
    generalize halen : get32 (buf.drop off) = alen at h
    dsimp only at h
    split_ifs at h with h4 hfit hzero
    obtain ⟨r, hr, rfl⟩ := map_eq_some_iff.mp h
    obtain ⟨hn, hoff, hdrop⟩ := ih hr
    have htake : ((buf.drop (off + 4)).take alen).length = alen := by
      rw [length_take, length_drop]
      omega
    have hz : buf.drop (off + 4 + alen) = 0 :: buf.drop (off + 4 + alen + 1) := by
      rw [drop_eq_getElem?_toList_append, not_not.mp hzero]
      rfl
    have harg : buf.drop (off + 4) =
        (buf.drop (off + 4)).take alen ++ 0 :: (content r.1 ++ buf.drop r.2) := by
      rw [← hdrop, ← hz, ← drop_drop (i := alen), take_append_drop]
    refine ⟨by rw [length_cons, hn], ?_, ?_⟩
    · rw [length_content_cons, htake]
      omega
    have hput := put32_get32 (l := buf.drop off) (by rw [length_drop]; omega)
    rw [halen, drop_drop, harg] at hput
    rw [← hput]
    simp [content, htake]

lemma length_bytes : (bytes f).length = size f := by
  simp [bytes, size, put32, HEADER]
  omega

/-- **A frame is read back**, whatever is behind it. -/
lemma decode_bytes (hargs : f.args.length ≤ ARGS_MAX) (hsize : size f ≤ FRAME_MAX + 4)
    (rest) : decode (bytes f ++ rest) = .frame (size f) f := by
  have hhead : HEADER ≤ size f := Nat.le_add_right _ _
  have hlen : get32 (bytes f ++ rest) = size f - 4 := by
    exact get32_put32 (by rw [FRAME_MAX] at hsize; omega) _
  have hserial : get32 ((bytes f ++ rest).drop 5) = f.serial.toNat :=
    get32_put32 f.serial.toNat_lt (UInt8.ofNat f.args.length :: content f.args ++ rest)
  have hargc : ((bytes f ++ rest).getD 9 0).toNat = f.args.length :=
    (UInt8.toNat_ofNat').trans
      (Nat.mod_eq_of_lt (hargs.trans_lt (by decide)))
  have hsum : 4 + (size f - 4) = size f := Nat.add_sub_of_le (le_trans (by decide) hhead)
  have hread := @argLoop_content (size f - 4) (bytes f ++ rest) rest f.args HEADER rfl hsum.symm
    (by rw [FRAME_MAX] at hsize; omega)
  rw [decode, length_append, length_bytes, hlen, hargc, hserial, UInt32.ofNat_toNat]
  dsimp only
  rw [hread, hsum]
  rw [HEADER] at hhead
  rw [if_neg (by omega), if_neg (by rw [HEADER]; omega), if_neg (by omega), if_neg hargs.not_gt]
  exact if_neg (not_not.mpr rfl)

lemma bytes_of_decode {s} (h : decode buf = .frame s f) :
    f.args.length ≤ ARGS_MAX ∧ s = size f ∧ buf.take s = bytes f := by
  rw [decode] at h
  generalize hlen : get32 buf = len at h
  generalize hargc : (buf.getD 9 0).toNat = argc at h
  dsimp only at h
  split_ifs at h with h4 hmax hall hargs
  cases hr : argLoop buf len argc HEADER with
  | none => rw [hr] at h; cases h
  | some r =>
    rw [hr] at h
    dsimp only at h
    split_ifs at h with hend
    obtain ⟨rfl, rfl⟩ := Decoded.frame.inj h
    obtain ⟨hn, hoff, hdrop⟩ := content_of_argLoop (not_lt.mp hall) hr
    have hsize : 4 + len = HEADER + (content r.1).length := by omega
    refine ⟨by rw [hn]; exact not_lt.mp hargs, hsize, ?_⟩
    have hget {k : ℕ} (hk : k < 10) : buf.drop k = buf.getD k 0 :: buf.drop (k + 1) := by
      rw [HEADER] at hmax
      rw [drop_eq_getElem_cons (by omega), getD_eq_getElem?_getD,
        List.getElem?_eq_getElem (by omega), getD_some]
    have hsplit : buf = bytes ⟨buf.getD 4 0, UInt32.ofNat (get32 (buf.drop 5)), r.1⟩ ++
        buf.drop r.2 := by
      rw [bytes, size, ← hsize, Nat.add_sub_cancel_left, put32_ofNat, hn, ← hargc,
        UInt8.ofNat_toNat, ← hlen]
      simp only [append_assoc, cons_append, ← hdrop]
      have h9 := put32_get32 (l := buf.drop 5) (by rw [HEADER] at hmax; simp; omega)
      rw [drop_drop] at h9
      rw [HEADER, ← hget (by decide), h9, ← hget (by decide), put32_get32 (not_lt.mp h4)]
    calc buf.take (4 + len) = List.take (4 + len) _ := congrArg _ hsplit
      _ = _ := take_left' (length_bytes.trans (show size _ = _ from hsize.symm))

/-- **Frames.** What was encoded is decoded, and not before all of it is there; what was decoded is
encoded to the same bytes if and only if they are no more than `MODHOST_FRAME_MAX`. -/
theorem modhost_frames (f : Frame) (buflen : ℕ) :
    (∀ bs, encode buflen f = some bs →
        decode bs = .frame bs.length f ∧ ∀ k < bs.length, decode (bs.take k) = .more) ∧
      ∀ buf s, decode buf = .frame s f → s ≤ buflen →
        (encode buflen f = some (buf.take s) ↔ s ≤ FRAME_MAX) := by
  have hempty : f.args = [] → size f = HEADER := fun h => by rw [size, h]; rfl
  refine ⟨fun bs h => ?_, fun buf s h hs => ?_⟩
  · rw [encode_eq] at h
    split_ifs at h with hcan
    obtain rfl := Option.some.inj h
    have hsize : size f ≤ FRAME_MAX :=
      hcan.2.elim (fun h => (hempty h).trans_le (by decide)) And.left
    refine ⟨?_, fun k hk => ?_⟩
    · rw [← append_nil (bytes f), decode_bytes hcan.1 (by omega), append_nil, length_bytes]
    have hlen : ((bytes f).take k).length = k :=
      length_take_of_le hk.le
    rw [decode, hlen]
    rcases lt_or_ge k 4 with h4 | h4
    · exact if_pos h4
    obtain ⟨j, rfl⟩ := Nat.exists_eq_add_of_le' h4
    have hget : get32 ((bytes f).take (j + 4)) = size f - 4 :=
      get32_put32 (by rw [FRAME_MAX] at hsize; omega) (((bytes f).drop 4).take j)
    rw [length_bytes] at hk
    have hhead : 10 ≤ size f := Nat.le_add_right _ _
    rw [if_neg h4.not_gt, if_neg (by rw [HEADER]; omega), if_pos (by omega)]
  · obtain ⟨hargs, rfl, htake⟩ := bytes_of_decode h
    rw [encode_eq, htake]
    split_ifs with hcan
    · simp only [true_iff]
      exact hcan.2.elim (fun h => (hempty h).trans_le (by decide)) And.left
    · simp only [false_iff]
      exact fun hsize => hcan ⟨hargs, Or.inr ⟨hsize, hs⟩⟩

/-- A frame of one argument that is read, and is too long to be written. -/
theorem decode_beyond_max :
    ∃ buf f, decode buf = .frame 65540 f ∧ encode 65540 f = none := by
  obtain ⟨arg, harg⟩ : ∃ arg : List UInt8, arg.length = 65525 := ⟨_, length_replicate (a := 0)⟩
  obtain ⟨f, hargs, hsize⟩ : ∃ f : Frame, f.args.length = 1 ∧ size f = 65540 := by
    refine ⟨⟨0, 0, [arg]⟩, rfl, ?_⟩
    rw [size, length_content_cons, harg]
    rfl
  refine ⟨bytes f ++ [], f, hsize ▸ decode_bytes (by rw [hargs]; decide) (by rw [hsize]; decide) [],
    ?_⟩
  rw [encode_eq, hsize, if_neg]
  rintro ⟨-, hnil | ⟨hmax, -⟩⟩
  · simp [hnil] at hargs
  · exact absurd hmax (by decide)

end Ircu.Modhost
