import Mathlib.Tactic

/-!
The character tables of `ircd_chattr.h`, as `table_gen.c` writes them out.

`makeTables` starts from `zeroTables`, marks attribute bits by ranges and by
strings, closes them under `moveMacro`, and at the end fills the two case
tables with `setLowHi`. A table is a function on bytes here, and each call of
the generator is one layer of it.

* `toLower` is the macro `ToLower`: ASCII letters, the accented letters of
  ISO 8859-1 and the four RFC 1459 brackets.
-/

namespace Ircu

/-- The byte of a character constant. -/
def ch (c : Char) : UInt8 := c.toUInt8

/-- The bytes of a string constant, without the terminator. -/
def str (s : String) : List UInt8 := s.toList.map ch

lemma ofNat_eq {x} {a : UInt8} (h : x % 256 = a.toNat) : UInt8.ofNat x = a :=
  UInt8.toNat_inj.mp (by simpa using h)

/-! ### Case folding -/

/-- `setLowHi` on the lower-case table: the upper-case range that begins at
`firsthi` is sent to the lower-case range from `firstlow` to `lastlow`. -/
def setLowHi (firstlow lastlow firsthi : UInt8) (tab : UInt8 → UInt8) : UInt8 → UInt8 :=
  fun c =>
    let i := c - (firsthi - firstlow)
    if firstlow ≤ i ∧ i ≤ lastlow then i else tab c

/-- `ToLower`, the table `ToLowerTab_8859_1`. -/
def toLower : UInt8 → UInt8 :=
  setLowHi (ch '{') (ch '~') (ch '[') <|
    setLowHi 0xf8 0xfe 0xd8 <|
      setLowHi 0xe0 0xf6 0xc0 <|
        setLowHi (ch 'a') (ch 'z') (ch 'A') id

lemma forall_byte {P : UInt8 → Prop} (h : ∀ n : Fin 256, P (UInt8.ofNat n)) (c) : P c := by
  have hc := h ⟨c.toNat, c.toNat_lt⟩
  rwa [UInt8.ofNat_toNat] at hc

@[simp] lemma toLower_toLower (c) : toLower (toLower c) = toLower c :=
  forall_byte (P := fun c => toLower (toLower c) = toLower c) (by decide +kernel) c

lemma toLower_ne_A (c) : toLower c ≠ ch 'A' :=
  forall_byte (P := fun c => toLower c ≠ ch 'A') (by decide +kernel) c

lemma toLower_ne_Z (c) : toLower c ≠ ch 'Z' :=
  forall_byte (P := fun c => toLower c ≠ ch 'Z') (by decide +kernel) c

/-- `ircd_strcmp(a, b) == 0`: the strings are equal but for the case of their letters. -/
def sameText (a b : List UInt8) : Prop := a.map toLower = b.map toLower

instance (a b : List UInt8) : Decidable (sameText a b) := inferInstanceAs (Decidable (_ = _))

lemma sameText.refl (a) : sameText a a := rfl

lemma sameText.symm {a b} (h : sameText a b) : sameText b a := Eq.symm h

lemma sameText.comm {a b} : sameText a b ↔ sameText b a := eq_comm

lemma sameText.trans {a b c} (h : sameText a b) (h' : sameText b c) : sameText a c :=
  Eq.trans h h'

/-! ### Character attributes -/

abbrev AttrTab := UInt8 → UInt32

/-- Set the bits of `mask` on each character of a string. -/
def markString (mask : UInt32) (s : List UInt8) (tab : AttrTab) : AttrTab :=
  fun c => if c ∈ s then tab c ||| mask else tab c

/-- Clear the bits of `mask` on each character of a string. -/
def unMarkString (mask : UInt32) (s : List UInt8) (tab : AttrTab) : AttrTab :=
  fun c => if c ∈ s then tab c &&& ~~~mask else tab c

/-- Set the bits of `mask` on a range of bytes. -/
def markRange (mask : UInt32) (lo hi : UInt8) (tab : AttrTab) : AttrTab :=
  fun c => if lo ≤ c ∧ c ≤ hi then tab c ||| mask else tab c

/-- Whatever has one of the bits `src` gets the bits `dst`. -/
def moveMacro (src dst : UInt32) (tab : AttrTab) : AttrTab :=
  fun c => if tab c &&& src ≠ 0 then tab c ||| dst else tab c

def NTL_ALNUM : UInt32 := 0x0001
def NTL_ALPHA : UInt32 := 0x0002
def NTL_CNTRL : UInt32 := 0x0004
def NTL_DIGIT : UInt32 := 0x0008
def NTL_GRAPH : UInt32 := 0x0010
def NTL_LOWER : UInt32 := 0x0020
def NTL_PRINT : UInt32 := 0x0040
def NTL_PUNCT : UInt32 := 0x0080
def NTL_SPACE : UInt32 := 0x0100
def NTL_UPPER : UInt32 := 0x0200
def NTL_IRCCH : UInt32 := 0x0400
def NTL_IRCCL : UInt32 := 0x0800
def NTL_IRCNK : UInt32 := 0x1000
def NTL_IRCUI : UInt32 := 0x2000
def NTL_IRCHN : UInt32 := 0x4000
def NTL_IRCIP : UInt32 := 0x8000
def NTL_EOL : UInt32 := 0x10000
def NTL_COMMAND : UInt32 := 0x20000
def NTL_CHPFX : UInt32 := 0x40000
def NTL_IRCIP6 : UInt32 := 0x80000

/-- The elementary sets of `makeTables`. -/
def baseAttr : AttrTab :=
  ((fun _ => 0) : AttrTab)
    |> markRange NTL_LOWER (ch 'a') (ch 'z')
    |> markString NTL_LOWER (str "\x7b|\x7d~")
    |> markRange NTL_UPPER (ch 'A') (ch 'Z')
    |> markString NTL_UPPER (str "[\\]^")
    |> markRange NTL_DIGIT (ch '0') (ch '9')
    |> markRange NTL_CNTRL 0x00 0x1f
    |> markString NTL_PUNCT (str "!\"#$%&'()*+,-./:;<=>?@_`")
    |> markString NTL_SPACE [0x09, 0x0a, 0x0b, 0x0c, 0x0d, 0x20]

/-- `IRCD_CharAttrTab`: the elementary sets and the sets derived from them, in
the order of `makeTables`. -/
def charAttr : AttrTab :=
  baseAttr
    |> moveMacro (NTL_LOWER ||| NTL_UPPER) NTL_ALPHA
    |> moveMacro (NTL_ALPHA ||| NTL_DIGIT) NTL_ALNUM
    |> moveMacro (NTL_ALNUM ||| NTL_PUNCT) NTL_GRAPH
    |> moveMacro NTL_GRAPH NTL_PRINT
    |> markString NTL_PRINT (str " ")
    |> markRange NTL_IRCCH 0x21 0xff
    |> unMarkString NTL_IRCCH [0x2c, 0xa0]
    |> markRange NTL_IRCCL 0xc0 0xd6
    |> markRange NTL_IRCCL 0xd8 0xde
    |> moveMacro NTL_ALNUM NTL_IRCHN
    |> markString NTL_IRCHN (str "-_.:")
    |> moveMacro NTL_DIGIT NTL_IRCIP
    |> markString NTL_IRCIP (str ".")
    |> moveMacro NTL_DIGIT NTL_IRCIP6
    |> markString NTL_IRCIP6 (str ":.ABCDEFabcdef")
    |> moveMacro (NTL_DIGIT ||| NTL_ALPHA) NTL_IRCNK
    |> markString NTL_IRCNK (str "-_`")
    |> moveMacro NTL_ALNUM NTL_IRCUI
    |> markRange NTL_IRCUI 0xe0 0xf6
    |> markRange NTL_IRCUI 0xf8 0xfe
    |> markRange NTL_IRCUI 0xc0 0xd6
    |> markRange NTL_IRCUI 0xd8 0xde
    |> markString NTL_IRCUI (str ".-_^'`~")
    |> markString NTL_EOL [0x0a, 0x0d]
    |> markString NTL_CHPFX (str "#&")
    |> moveMacro NTL_ALPHA NTL_COMMAND
    |> markString NTL_COMMAND (str "_")
    |> unMarkString NTL_COMMAND (str "[\\]^\x7b|\x7d~")

variable (c : UInt8)

def isDigit : Bool := charAttr c &&& NTL_DIGIT != 0

def isEol : Bool := charAttr c &&& NTL_EOL != 0

def isNickChar : Bool := charAttr c &&& NTL_IRCNK != 0

def isCommand : Bool := charAttr c &&& NTL_COMMAND != 0

end Ircu
