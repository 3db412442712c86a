import Ircu.Chattr

/-!
RFC 4648 base64 (`ircd_base64.c`).

Texts and byte strings are lists; a length of zero, which stands for `strlen`, is the length of the
list. Bits are counted in numbers below `2 ^ 24`.

* `spelled low bs`: the bytes `bs` in base64, with `low` in the bits that the last character in
  front of the padding has too many. The encoder writes `spelled 0 bs`, and the decoder does not
  look at these bits (`decode_spelled`).
-/

namespace Ircu.Base64

open List Option Nat UInt8

/-- `b64_alphabet`. -/
def alphabet : List UInt8 := str "ABCDEFGHIJKLMNOPQRSTUVWXYZabcdefghijklmnopqrstuvwxyz0123456789+/"

/-- `b64_value`, with `none` for `-1`. -/
def value (c : UInt8) : Option ℕ := alphabet.findIdx? (· = c)

/-- `b64_alphabet[v & 0x3f]`. -/
def digit (v : ℕ) : UInt8 := alphabet.getD (v % 64) 0

def bits (a b c : UInt8) : ℕ := a.toNat * 2 ^ 16 + b.toNat * 2 ^ 8 + c.toNat

/-- The loop of `ircd_base64_encode`, and the one or two bytes behind it. -/
def encodeLoop : List UInt8 → List UInt8
  | a :: b :: c :: src =>
    digit (bits a b c / 2 ^ 18) :: digit (bits a b c / 2 ^ 12) :: digit (bits a b c / 2 ^ 6) ::
      digit (bits a b c) :: encodeLoop src
  | [a, b] =>
    [digit (bits a b 0 / 2 ^ 18), digit (bits a b 0 / 2 ^ 12), digit (bits a b 0 / 2 ^ 6), ch '=']
  | [a] =>
    [digit (bits a 0 0 / 2 ^ 18), digit (bits a 0 0 / 2 ^ 12), ch '=', ch '=']
  | [] => []

/-- `ircd_base64_encode`, with `none` for `-1`. -/
def encode (src : List UInt8) (outlen : ℕ) : Option (List UInt8) :=
  if outlen ≤ (src.length + 2) / 3 * 4 then none else some (encodeLoop src)

/-- The characters of a group, from the `j`-th on: the bits, and how many are padding. -/
def groupLoop (last : Bool) : List UInt8 → ℕ → ℕ → ℕ → Option (ℕ × ℕ)
  | [], _, v, pad => some (v, pad)
  | c :: cs, j, v, pad =>
    if c = ch '=' then
      if last = false ∨ j < 2 then none else groupLoop last cs (j + 1) (v * 64) (pad + 1)
    else if pad ≠ 0 then none
    else (value c).bind fun val => groupLoop last cs (j + 1) (v * 64 + val) pad

def groupBytes (v pad : ℕ) : List UInt8 :=
  UInt8.ofNat (v / 2 ^ 16) :: ((if pad < 2 then [UInt8.ofNat (v / 2 ^ 8)] else []) ++
    if pad < 1 then [UInt8.ofNat v] else [])

/-- The loop of `ircd_base64_decode`, with `o` bytes written. -/
def decodeLoop (outlen : ℕ) : List UInt8 → ℕ → Option (List UInt8)
  | a :: b :: c :: d :: text, o =>
    (groupLoop text.isEmpty [a, b, c, d] 0 0 0).bind fun g =>
      if outlen < o + (3 - g.2) then none
      else (decodeLoop outlen text (o + (3 - g.2))).map (groupBytes g.1 g.2 ++ ·)
  | _, _ => some []

/-- `ircd_base64_decode`, with `none` for `-1`. -/
def decode (text : List UInt8) (outlen : ℕ) : Option (List UInt8) :=
  if text.length % 4 ≠ 0 then none else decodeLoop outlen text 0

/-- The loop of `ircd_base64_valid` from the `i`-th character on. -/
def validLoop (inlen : ℕ) : List UInt8 → ℕ → Bool
  | [], _ => true
  | c :: text, i =>
    if c = ch '=' then
      if i + 2 < inlen ∨ i % 4 < 2 then false else (c :: text).all (· = ch '=')
    else (value c).isSome && validLoop inlen text (i + 1)

/-- `ircd_base64_valid`. -/
def valid (text : List UInt8) : Bool :=
  if text.length % 4 ≠ 0 then false else validLoop text.length text 0

/-! ### The two scans -/

variable {cs text bs : List UInt8} {j v pad outlen o : ℕ} {last : Bool} {g : ℕ × ℕ}

lemma groupLoop_padding (hj : 2 ≤ j) (hpad : pad ≠ 0) :
    (groupLoop true cs j v pad).isSome = cs.all (· = ch '=') := by
  induction cs generalizing j v pad with
  | nil => rfl
  | cons c cs ih =>
    by_cases hc : c = ch '='
    · simp [groupLoop, hc, hj.not_gt, ih (le_succ_of_le hj) (succ_ne_zero pad)]
    · simp [groupLoop, hc, hpad]

lemma validLoop_group {inlen i} (hi : i % 4 = 0)
    (hj : j + cs.length = 4) (hlen : inlen = i + 4 + text.length) (htext : text.length % 4 = 0) :
    validLoop inlen (cs ++ text) (i + j) =
      ((groupLoop text.isEmpty cs j v 0).isSome && validLoop inlen text (i + 4)) := by
  induction cs generalizing j v with
  | nil =>
    obtain rfl : j = 4 := hj
    rfl
  | cons c cs ih =>
    rw [length_cons] at hj
    rw [cons_append, validLoop, groupLoop]
    by_cases hc : c = ch '='
    · rw [if_pos hc, if_pos hc]
      cases text with
      | nil =>
        by_cases hj2 : j < 2
        · simp [hj2, show (i + j) % 4 < 2 by omega]
        have hno : ¬ (i + j + 2 < inlen ∨ (i + j) % 4 < 2) := by
          simp only [length_nil] at hlen
          omega
        rw [if_neg hno, isEmpty_nil, if_neg (by simpa using hj2),
          groupLoop_padding (by omega) (succ_ne_zero 0)]
        simp [hc, validLoop]
      | cons e text =>
        rw [if_pos (.inl (by rw [length_cons] at hlen htext; omega))]
        simp
    · rw [if_neg hc, if_neg hc]
      cases value c with
      | none => rfl
      | some val => exact ih (j := j + 1) (by omega)

lemma validLoop_eq {inlen i} (hi : i % 4 = 0)
    (hlen : inlen = i + text.length) (htext : text.length % 4 = 0)
    (hroom : o + text.length / 4 * 3 ≤ outlen) :
    validLoop inlen text i = (decodeLoop outlen text o).isSome := by
  fun_induction decodeLoop outlen text o generalizing i with
  | case1 a b c d text o ih =>
    simp only [length_cons] at hlen htext hroom
    refine (@validLoop_group [a, b, c, d] text 0 0 inlen i hi rfl (by omega) (by omega)).trans ?_
    cases groupLoop text.isEmpty [a, b, c, d] 0 0 0 with
    | none => rfl
    | some r =>
      rw [bind_some, if_neg (by omega), isSome_map, isSome_some]
      exact ih _ (by omega) (by omega) (by omega) (by omega)
  | case2 text o h =>
    match text with
    | [] => rfl
    | [_] | [_, _] | [_, _, _] => simp at htext
    | a :: b :: c :: d :: text => exact absurd rfl (h a b c d text)

/-- **Both accept the same texts**, if there is room for the bytes. -/
theorem valid_iff_decode (text : List UInt8) {outlen : ℕ} (h : text.length / 4 * 3 ≤ outlen) :
    valid text = true ↔ (decode text outlen).isSome := by
  rw [valid, decode]
  split_ifs with hlen
  · simp
  · rw [validLoop_eq rfl (Nat.zero_add _).symm (not_not.mp hlen) ((Nat.zero_add _).trans_le h)]

theorem valid_iff_decode_padded :
    valid (str "QQ==") = true ↔ (decode (str "QQ==") 3).isSome := valid_iff_decode _ (by decide)

/-! ### Texts of a byte string -/

/-- The bytes in base64, with `low` in the bits that are not used. -/
def spelled (low : ℕ) : List UInt8 → List UInt8
  | a :: b :: c :: src =>
    digit (bits a b c / 2 ^ 18) :: digit (bits a b c / 2 ^ 12) :: digit (bits a b c / 2 ^ 6) ::
      digit (bits a b c) :: spelled low src
  | [a, b] =>
    [digit (bits a b 0 / 2 ^ 18), digit (bits a b 0 / 2 ^ 12), digit (bits a b 0 / 2 ^ 6 + low),
      ch '=']
  | [a] =>
    [digit (bits a 0 0 / 2 ^ 18), digit (bits a 0 0 / 2 ^ 12 + low), ch '=', ch '=']
  | [] => []

lemma encodeLoop_eq (src) : encodeLoop src = spelled 0 src := by
  fun_induction encodeLoop src with
  | case1 a b c src ih => rw [ih]; rfl
  | case2 | case3 | case4 => rfl

lemma value_digit (v) : value (digit v) = some (v % 64) := by
  have h : ∀ i < 64, value (alphabet.getD i 0) = some i := by decide +kernel
  exact h _ (mod_lt v (by decide))

lemma digit_ne (v) : digit v ≠ ch '=' := by
  intro h
  have := value_digit v
  rw [h] at this
  exact absurd this (by simp [show value (ch '=') = none from by decide +kernel])

lemma digit_of_value {c n} (h : value c = some n) : digit n = c ∧ n < 64 := by
  have hall := forall_byte (P := fun c => ∀ n ∈ value c, digit n = c ∧ n < 64) (by decide +kernel)
  exact hall c n h

lemma groupLoop_digit {w} :
    groupLoop last (digit w :: cs) j v 0 = groupLoop last cs (j + 1) (v * 64 + w % 64) 0 := by
  rw [groupLoop, if_neg (digit_ne w), if_neg (not_not.mpr rfl), value_digit, bind_some]

lemma groupLoop_pad (hj : 2 ≤ j) :
    groupLoop true (ch '=' :: cs) j v pad = groupLoop true cs (j + 1) (v * 64) (pad + 1) := by
  rw [groupLoop, if_pos rfl, if_neg (by simp; omega)]

lemma decodeLoop_spelled {low} (hlow : low < 4) {src}
    (hroom : o + src.length ≤ outlen) : decodeLoop outlen (spelled low src) o = some src := by
  fun_induction spelled low src generalizing o with
  | case1 a b c src ih =>
    have ha := a.toNat_lt
    have hb := b.toNat_lt
    have hc := c.toNat_lt
    simp only [length_cons] at hroom
    rw [decodeLoop, groupLoop_digit, groupLoop_digit, groupLoop_digit, groupLoop_digit, groupLoop,
      bind_some, if_neg (by omega), ih (by omega)]
    refine congrArg some ?_
    rw [bits, groupBytes, ofNat_eq (a := a) (by omega), ofNat_eq (a := b) (by omega),
      ofNat_eq (a := c) (by omega)]
    rfl
  | case2 a b =>
    have ha := a.toNat_lt
    have hb := b.toNat_lt
    simp only [length_cons, length_nil] at hroom
    rw [decodeLoop, groupLoop_digit, groupLoop_digit, groupLoop_digit, isEmpty_nil,
      groupLoop_pad (by decide), groupLoop, bind_some, if_neg (by omega)]
    refine congrArg some ?_
    rw [bits, groupBytes, ofNat_eq (a := a) (by simp; omega), ofNat_eq (a := b) (by simp; omega)]
    rfl
  | case3 a =>
    have ha := a.toNat_lt
    simp only [length_cons, length_nil] at hroom
    rw [decodeLoop, groupLoop_digit, groupLoop_digit, isEmpty_nil, groupLoop_pad (by decide),
      groupLoop_pad (by decide), groupLoop, bind_some, if_neg (by omega)]
    refine congrArg some ?_
    rw [bits, groupBytes, ofNat_eq (a := a) (by simp; omega)]
    rfl
  | case4 => rfl

lemma groupLoop_padded
    (h : groupLoop last cs j v (pad + 1) = some g) : g.2 = pad + 1 + cs.length := by
  induction cs generalizing j v pad with
  | nil => rw [← some.inj h, length_nil]
  | cons c cs ih =>
    rw [groupLoop, if_pos (succ_ne_zero pad)] at h
    split_ifs at h
    rw [ih h, length_cons]
    omega

lemma groupLoop_cons {c} (h : groupLoop last (c :: cs) j v 0 = some g) :
    (∃ n, value c = some n ∧ groupLoop last cs (j + 1) (v * 64 + n) 0 = some g) ∨
      (last = true ∧ 2 ≤ j ∧ g.2 = 1 + cs.length) := by
  rw [groupLoop] at h
  split_ifs at h with hc hlast hpad
  · rw [not_or, Bool.not_eq_false, not_lt] at hlast
    exact .inr ⟨hlast.1, hlast.2, groupLoop_padded h⟩
  · exact .inl (bind_eq_some_iff.mp h)

lemma groupLoop_inv {a b c d} (h : groupLoop last [a, b, c, d] 0 0 0 = some g) :
    (g.2 = 0 ∧ g.1 < 2 ^ 24 ∧ a = digit (g.1 / 2 ^ 18) ∧ b = digit (g.1 / 2 ^ 12) ∧
        c = digit (g.1 / 2 ^ 6) ∧ d = digit g.1) ∨ (last = true ∧ (g.2 = 1 ∨ g.2 = 2)) := by
  rcases groupLoop_cons h with ⟨p, hp, h⟩ | ⟨-, hj, -⟩
  · rcases groupLoop_cons h with ⟨q, hq, h⟩ | ⟨-, hj, -⟩
    · rcases groupLoop_cons h with ⟨r, hr, h⟩ | ⟨hlast, -, hpad⟩
      · rcases groupLoop_cons h with ⟨s, hs, h⟩ | ⟨hlast, -, hpad⟩
        · obtain rfl := some.inj h
          obtain ⟨rfl, hp⟩ := digit_of_value hp
          obtain ⟨rfl, hq⟩ := digit_of_value hq
          obtain ⟨rfl, hr⟩ := digit_of_value hr
          obtain ⟨rfl, hs⟩ := digit_of_value hs
          refine .inl ⟨rfl, by omega, ?_, ?_, ?_, ?_⟩
          all_goals
            dsimp only [digit]
            congr 1
            omega
        · exact .inr ⟨hlast, .inl hpad⟩
      · exact .inr ⟨hlast, .inr hpad⟩
    · omega
  · omega

lemma eq_spelled_of_decodeLoop (htext : text.length % 4 = 0)
    (h : decodeLoop outlen text o = some bs) (hbs : bs.length % 3 = 0) : text = spelled 0 bs := by
  fun_induction decodeLoop outlen text o generalizing bs with
  | case1 a b c d text o ih =>
    obtain ⟨g, hg, h⟩ := bind_eq_some_iff.mp h
    split_ifs at h with hroom
    obtain ⟨bs, hrest, rfl⟩ := map_eq_some_iff.mp h
    simp only [length_cons] at htext
    rcases groupLoop_inv hg with ⟨hpad, hlt, rfl, rfl, rfl, rfl⟩ | ⟨hlast, hpad⟩
    · rw [hpad] at hbs ⊢
      rw [ih g (by omega) hrest (by simp [groupBytes] at hbs; omega)]
      have hbits : bits (ofNat (g.1 / 2 ^ 16)) (ofNat (g.1 / 2 ^ 8)) (ofNat g.1)
          = g.1 := by
        simp [bits]
        omega
      rw [groupBytes, if_pos (by decide), if_pos (by decide)]
      simp only [cons_append, nil_append, spelled, hbits]
    · obtain rfl := isEmpty_iff.mp hlast
      obtain rfl := some.inj hrest
      rcases hpad with hpad | hpad <;> simp [groupBytes, hpad] at hbs
  | case2 text o hno =>
    obtain rfl := some.inj h
    match text with
    | [] => rfl
    | [_] | [_, _] | [_, _, _] => simp at htext
    | a :: b :: c :: d :: text => exact absurd rfl (hno a b c d text)

lemma length_spelled (low bs) : (spelled low bs).length % 4 = 0 := by
  fun_induction spelled low bs with
  | case1 a b c src ih => exact (add_mod_right _ 4).trans ih
  | case2 | case3 | case4 => simp

lemma decode_spelled {low} (hlow : low < 4)
    (hroom : bs.length ≤ outlen) : decode (spelled low bs) outlen = some bs := by
  rw [decode, if_neg (not_not.mpr (length_spelled low bs)),
    decodeLoop_spelled hlow ((zero_add _).trans_le hroom)]

lemma length_of_spelled_eq (h : spelled 0 bs = spelled 1 bs) : bs.length % 3 = 0 := by
  fun_induction spelled 0 bs with
  | case1 a b c src ih =>
    simp only [spelled, List.cons.injEq, true_and] at h
    exact (add_mod_right _ 3).trans (ih h)
  | case2 | case3 =>
    simp only [spelled, List.cons.injEq, true_and] at h
    have := congrArg value h.1
    rw [value_digit, value_digit, some.injEq] at this
    omega
  | case4 => rfl

/-- **The bytes come back, and they have one text if and only if it needs no padding.** -/
theorem decode_injective_iff (bs : List UInt8) :
    (∀ size outlen, (bs.length + 2) / 3 * 4 < size → bs.length ≤ outlen →
        (encode bs size).bind (decode · outlen) = some bs) ∧
      ((∀ m n text text', decode text m = some bs → decode text' n = some bs → text = text') ↔
        bs.length % 3 = 0) := by
  refine ⟨fun size outlen hsize hroom => ?_, fun h => ?_, fun h m n text text' ht ht' => ?_⟩
  · rw [encode, if_neg hsize.not_ge, encodeLoop_eq]
    exact decode_spelled (by decide) hroom
  · exact length_of_spelled_eq
      (h _ _ _ _ (decode_spelled (by decide) le_rfl) (decode_spelled (by decide) le_rfl))
  have hunique {k : ℕ} {t : List UInt8} (hk : decode t k = some bs) : t = spelled 0 bs := by
    rw [decode] at hk
    split_ifs at hk with hlen
    exact eq_spelled_of_decodeLoop (not_not.mp hlen) hk h
  rw [hunique ht, hunique ht']

theorem decode_two_texts :
    decode (str "QQ==") 3 = some [0x41] ∧ decode (str "QR==") 3 = some [0x41] := by
  decide +kernel

end Ircu.Base64
