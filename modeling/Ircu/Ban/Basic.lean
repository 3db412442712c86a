import Ircu.Ipmask
import Ircu.Mask.Basic
import Ircu.Match.Mmatch
import Ircu.Nick.Basic
import Ircu.Ntoa

/-!
The bans of `channel.c`: `set_ban_mask`, the rule by which `find_ban` matches a
client, and `bmatch`, which compares two bans.

A ban keeps its mask as text, with the length of the part in front of the last
`@`. `find_ban` compares that part with the nick and the user name, and the rest
with the host, the address and, for a hidden client, the real host; if the mask
reads as an address mask, its bits are compared too. Only if the front part does
not match, the mask as a whole is compared with the visible form of the client.
-/

namespace Ircu

open Glob Prefix List
open Nick (NICKLEN USERLEN)

/-! ### Clients -/

def HOSTLEN : ℕ := 63

/-- What `find_ban` reads of a client. The nick and the user name fit their buffers, and
no part of a name contains an `@`. -/
structure Identity where
  nick : List UInt8
  username : List UInt8
  host : List UInt8
  realhost : List UInt8
  ip : InAddr
  hidden : Bool
  nick_length : nick.length ≤ NICKLEN
  username_length : username.length ≤ USERLEN
  nick_at : ch '@' ∉ nick
  username_at : ch '@' ∉ username
  host_at : ch '@' ∉ host
  realhost_at : ch '@' ∉ realhost

/-- `nu` of `find_ban`: the nick and the user name. -/
def Identity.nu (c : Identity) : List UInt8 := c.nick ++ ch '!' :: c.username

/-- The user name that `visible_username` shows instead of the real one, under the
feature `TRUST_USERNAME`. -/
def Identity.visibleUsername (trust : Bool) (c : Identity) : Option (List UInt8) :=
  match c.username with
  | x :: rest => if trust ∧ c.hidden ∧ x = ch '~' then some rest else none
  | [] => none

/-- `nuh_vis` of `find_ban`, which is empty unless the visible user name is another
one. -/
def Identity.nuhVis (trust : Bool) (c : Identity) : Option (List UInt8) :=
  (c.visibleUsername trust).map fun user => (c.nick ++ ch '!' :: user) ++ ch '@' :: c.host

/-! ### Bans -/

/-- The length of `banstr`, without its terminator. -/
def BANSTRLEN : ℕ := NICKLEN + USERLEN + HOSTLEN + 2

def BAN_IPMASK : BitVec 16 := 0x0001
def BAN_OVERLAPPED : BitVec 16 := 0x0002
def BAN_EXCEPTION : BitVec 16 := 0x0010
def BAN_DEL : BitVec 16 := 0x4000
def BAN_ADD : BitVec 16 := 0x8000

/-- `struct Ban`, without the link to the next one. -/
structure Ban where
  address : InAddr
  when : ℕ
  flags : BitVec 16
  nuLen : ℕ
  addrbits : ℕ
  who : List UInt8
  banstr : List UInt8
deriving DecidableEq

/-- A ban that `memset` has cleared. -/
def Ban.zero : Ban := ⟨⟨fun _ => 0⟩, 0, 0, 0, 0, [], []⟩

variable (s : List UInt8)

/-- What stands behind the last `@` of a mask. -/
def hostPart : List UInt8 := (s.reverse.takeWhile (· ≠ ch '@')).reverse

/-- What stands in front of the last `@` of a mask. -/
def nuPart : List UInt8 := s.take (s.length - (hostPart s).length - 1)

/-- The text is cut to the size of the buffer, the position of the separator is found in the whole
of it. -/
def setBanMask (ban : Ban) (s : List UInt8) : Ban :=
  let ban := { ban with banstr := s.take BANSTRLEN }
  if ch '@' ∈ s then
    let ban := { ban with nuLen := (nuPart s).length % 256 }
    match ipmaskParse (hostPart s) true with
    | none => ban
    | some ip =>
      { ban with
        address := ip.addr
        addrbits := ip.bits.getD ban.addrbits
        flags := ban.flags ||| BAN_IPMASK }
  else ban

def makeBan : Ban := setBanMask Ban.zero s

/-- The text of a ban after `find_ban` has put the separator back. -/
def Ban.restored (b : Ban) : List UInt8 :=
  b.banstr.take b.nuLen ++ ch '@' :: b.banstr.drop (b.nuLen + 1)

def Ban.hostmask (b : Ban) : List UInt8 := b.banstr.drop (b.nuLen + 1)

/-- `!match(mask, name)`. -/
def matchB (mask name : List UInt8) : Option Bool := (ircMatch mask name).map (· == 0)

/-- One turn of the loop of `find_ban`: whether the ban matches the client. The
separator is overwritten for the time of the first comparison; this goes wrong if
it is not inside the text. -/
def Ban.hits (trust : Bool) (b : Ban) (c : Identity) : Option Bool := do
  guard (b.nuLen < BANSTRLEN)
  if ← matchB (b.banstr.take b.nuLen) c.nu then
    if meets b.flags BAN_IPMASK ∧ ipmaskCheck c.ip b.address b.addrbits ≠ 0 then
      return true
    if ← matchB b.hostmask c.host then
      return true
    if ← matchB b.hostmask (ircdNtoa c.ip) then
      return true
    if c.hidden then matchB b.hostmask c.realhost else return false
  else
    match c.nuhVis trust with
    | none => return false
    | some nuh => matchB b.restored nuh

def Ban.Matches (trust : Bool) (b : Ban) (c : Identity) : Prop := b.hits trust c = some true

instance (trust : Bool) (b : Ban) (c : Identity) : Decidable (b.Matches trust c) :=
  inferInstanceAs (Decidable (_ = _))

/-- The loop of `find_ban`. After a ban has been found only exceptions count, and
an exception that matches ends the search. -/
def findBanLoop (trust : Bool) (c : Identity) : List Ban → Option Ban → Option (Option Ban)
  | [], found => some found
  | b :: bs, found =>
    if found.isSome ∧ ¬ meets b.flags BAN_EXCEPTION then findBanLoop trust c bs found
    else
      match b.hits trust c with
      | none => none
      | some false => findBanLoop trust c bs found
      | some true =>
        if meets b.flags BAN_EXCEPTION then some none else findBanLoop trust c bs (some b)

def findBan (trust : Bool) (c : Identity) (banlist : List Ban) : Option (Option Ban) :=
  findBanLoop trust c banlist none

/-- `0` if the first ban is a superset of the second. -/
def bmatch (oldBan newBan : Ban) : Option ℕ :=
  if ¬ meets oldBan.flags BAN_EXCEPTION ∧ meets newBan.flags BAN_EXCEPTION then some 1
  else if ¬ meets (oldBan.flags &&& newBan.flags) BAN_IPMASK then
    mmatch oldBan.banstr newBan.banstr
  else if oldBan.addrbits > newBan.addrbits then some 1
  else if BANSTRLEN ≤ oldBan.nuLen ∨ BANSTRLEN ≤ newBan.nuLen then none
  else
    match mmatch (oldBan.banstr.take oldBan.nuLen) (newBan.banstr.take newBan.nuLen) with
    | none => none
    | some (r + 1) => some (r + 1)
    | some 0 =>
      if ipmaskCheck newBan.address oldBan.address oldBan.addrbits = 0 then some 1
      else mmatch oldBan.restored newBan.restored

/-! ### Masks with a separator -/

lemma toLower_eq_at (c : UInt8) : toLower c = ch '@' ↔ c = ch '@' :=
  forall_byte (P := fun c => toLower c = ch '@' ↔ c = ch '@') (by decide +kernel) c

lemma nuPart_append_hostPart {s} (h : ch '@' ∈ s) : s = nuPart s ++ ch '@' :: hostPart s := by
  have hsplit : s.reverse = (hostPart s).reverse ++ s.reverse.dropWhile (· ≠ ch '@') := by
    rw [hostPart, reverse_reverse]
    exact takeWhile_append_dropWhile.symm
  obtain ⟨c, r, hc⟩ : ∃ c r, s.reverse.dropWhile (· ≠ ch '@') = c :: r := by
    refine exists_cons_of_ne_nil fun hnil => ?_
    rw [dropWhile_eq_nil_iff] at hnil
    simpa using hnil (ch '@') (mem_reverse.mpr h)
  have hat : c = ch '@' := by
    have := List.head?_dropWhile_not (· ≠ ch '@') s.reverse
    rw [hc] at this
    simpa using this
  have hs : s = r.reverse ++ ch '@' :: hostPart s := by
    have := congrArg List.reverse hsplit
    rw [hc, hat, reverse_reverse, reverse_append, reverse_reverse,
      reverse_cons, append_assoc] at this
    exact this
  have hnu : nuPart s = r.reverse := by
    have hlen := congrArg List.length hs
    rw [length_append, length_cons] at hlen
    rw [nuPart, show s.length - (hostPart s).length - 1 = r.reverse.length by omega]
    conv_lhs => rw [hs]
    exact take_left
  rw [hnu]
  exact hs

lemma at_notMem_hostPart : ch '@' ∉ hostPart s := by
  intro h
  have := mem_takeWhile_imp (mem_reverse.mp h)
  simp at this

/-- A separator is not escaped, if a backslash stands in front of `*` and `?` only. -/
lemma EscapesWild.front {nu host} (h : EscapesWild (nu ++ ch '@' :: host)) : EscapesWild nu := by
  intro m hm hhead
  obtain ⟨u, rfl⟩ := (mem_tails _ _).mp hm
  have hesc := h (m ++ ch '@' :: host) ((mem_tails _ _).mpr ⟨u, (append_assoc _ _ _).symm⟩)
    (by rw [head?_append, hhead]; rfl)
  match m, hhead with
  | [_], rfl => exact absurd hesc (by simp [isEscape]; decide)
  | _ :: _ :: _, _ => exact hesc

lemma EscapesWild.maskToks_at {nu host} (h : EscapesWild (nu ++ ch '@' :: host)) :
    maskToks (nu ++ ch '@' :: host) =
      maskToks nu ++ .lit (.plain (ch '@')) :: maskToks host := by
  rw [h.front.maskToks_append, maskToks_plain (by decide) (by decide) (by decide)]

/-- A mask without separators matches some name without separators. -/
lemma EscapesWild.exists_matches {mask} (h : EscapesWild mask) (hat : ch '@' ∉ mask) :
    ∃ s, ch '@' ∉ s ∧ MaskMatches mask s := by
  induction hn : mask.length using Nat.strong_induction_on generalizing mask with
  | _ n ih =>
  subst hn
  cases mask with
  | nil => exact ⟨[], not_mem_nil, .nil⟩
  | cons c m =>
    rw [mem_cons, not_or] at hat
    have hm := h.suffix (suffix_cons c m)
    by_cases hc : c = ch '\\'
    · have hesc := h _ ((mem_tails _ _).mpr (suffix_refl _)) (by rw [hc]; rfl)
      cases m with
      | nil => cases hesc
      | cons d m =>
        have hd := (not_or.mp (mem_cons.not.mp hat.2))
        obtain ⟨s, hs, hms⟩ := ih m.length (by simp) (hm.suffix (suffix_cons d m)) hd.2 rfl
        refine ⟨d :: s, mem_cons.not.mpr (not_or.mpr ⟨hd.1, hs⟩), ?_⟩
        rw [hc, MaskMatches, maskToks_escape]
        exact .lit (by simp [Lit.accepts]) hms
    · obtain ⟨s, hs, hms⟩ := ih m.length (by simp) hm hat.2 rfl
      refine ⟨c :: s, mem_cons.not.mpr (not_or.mpr ⟨hat.1, hs⟩), ?_⟩
      rw [MaskMatches, maskToks_cons hc, plainTok]
      split_ifs
      · exact .star [c] hms
      · exact .any c hms
      · exact .lit (by simp [Lit.accepts]) hms

/-- **A mask with a separator** is compared in two parts with a name that has one
separator. -/
theorem maskMatches_split {nu host a b} (hesc : EscapesWild (nu ++ ch '@' :: host))
    (ha : ch '@' ∉ a) (hb : ch '@' ∉ b) : MaskMatches (nu ++ ch '@' :: host) (a ++ ch '@' :: b) ↔
      MaskMatches nu a ∧ MaskMatches host b := by
  rw [MaskMatches, MaskMatches, MaskMatches, hesc.maskToks_at, matches_append_iff]
  constructor
  · rintro ⟨w, t, heq, hw, ht⟩
    obtain _ | ⟨c, t⟩ := t
    · exact absurd ht not_matches_lit_nil
    obtain ⟨hc, hrest⟩ := matches_lit_cons.mp ht
    have hat : c = ch '@' := by
      rw [Lit.accepts, beq_iff_eq] at hc
      exact (toLower_eq_at c).mp (hc.symm.trans (by decide))
    rw [hat] at heq
    obtain ⟨rfl, -, rfl⟩ := (append_cons_inj_of_notMem ha hb).mp heq
    exact ⟨hw, hrest⟩
  · rintro ⟨hw, ht⟩
    exact ⟨a, _, rfl, hw, .lit (by decide) ht⟩

/-! ### Masks that both comparisons read alike -/

def isQuoted : Tok Lit → Bool
  | .lit (.exact _) => true
  | _ => false

/-- No star is followed by an escape, if other wildcards between them do not count. -/
def Anchored (toks : List (Tok Lit)) : Prop :=
  ∀ t ∈ toks.tails, t.head? = some .star → (t.dropWhile Tok.isWild).head?.any isQuoted = false

instance (toks : List (Tok Lit)) : Decidable (Anchored toks) :=
  inferInstanceAs (Decidable (∀ t ∈ _, _))

/-- `match` and `mmatch` read the mask as it is meant: a backslash stands in front of `*` and `?`
only, and an escape not behind a star. -/
structure Readable (mask : List UInt8) : Prop where
  escapes : EscapesWild mask
  anchored : Anchored (maskToks mask)

instance (mask : List UInt8) : Decidable (Readable mask) :=
  decidable_of_iff (EscapesWild mask ∧ Anchored (maskToks mask))
    ⟨fun h => ⟨h.1, h.2⟩, fun h => ⟨h.escapes, h.anchored⟩⟩

lemma EscapesWild.wellEscaped {mask} (h : EscapesWild mask) : wellEscaped mask = true := by
  induction hn : mask.length using Nat.strong_induction_on generalizing mask with
  | _ n ih =>
  subst hn
  cases mask with
  | nil => rfl
  | cons c m =>
    have hm := h.suffix (suffix_cons c m)
    by_cases hc : c = ch '\\'
    · have hesc := h _ ((mem_tails _ _).mpr (suffix_refl _)) (by rw [hc]; rfl)
      cases m with
      | nil => cases hesc
      | cons d m =>
        rw [hc, Ircu.wellEscaped, if_pos rfl]
        exact ih m.length (by simp) (hm.suffix (suffix_cons d m)) rfl
    · rw [wellEscaped_plain hc]
      exact ih m.length (by simp) hm rfl

namespace Readable

variable {mask nu host : List UInt8}

lemma of_noEscape (h : ch '\\' ∉ mask) : Readable mask := by
  refine ⟨escapesWild_of_noEscape h, fun t ht _ => ?_⟩
  rw [Option.any_eq_false]
  rintro (_ | _ | _ | d) hl
  · rfl
  · rfl
  · rfl
  have hmem := (dropWhile_suffix _).subset (mem_of_head? hl)
  exact absurd (((mem_tails _ _).mp ht).subset hmem) (exact_notMem_maskToks h d)

lemma firstFits (h : Readable mask) (name) : FirstFits mask name := by
  intro p w d q htoks hany
  have hno := h.anchored (.star :: w ++ .lit (.exact d) :: q)
    ((mem_tails _ _).mpr ⟨p, by rw [htoks, append_assoc]⟩) rfl
  have hdrop : (Tok.star :: w ++ .lit (.exact d) :: q).dropWhile Tok.isWild =
      .lit (.exact d) :: q := by
    rw [dropWhile_append_of_pos]
    · rfl
    rintro t ht
    rcases mem_cons.mp ht with rfl | ht
    · rfl
    · rw [hany t ht]
      rfl
  rw [hdrop] at hno
  cases hno

/-- **`match` on a readable mask** returns, and returns `0` exactly on the names that match. -/
lemma ircMatch (h : Readable mask) (name) :
    ∃ r, Ircu.ircMatch mask name = some r ∧ (r = 0 ↔ MaskMatches mask name) :=
  ircMatch_spec h.escapes.wellEscaped (h.firstFits name)

lemma front (h : Readable (nu ++ ch '@' :: host)) : Readable nu := by
  refine ⟨h.escapes.front, fun t ht hstar => ?_⟩
  obtain ⟨u, hu⟩ := (mem_tails _ _).mp ht
  have hno := h.anchored (t ++ .lit (.plain (ch '@')) :: maskToks host)
    ((mem_tails _ _).mpr ⟨u, by rw [h.escapes.maskToks_at, ← hu, append_assoc]⟩)
    (by rw [head?_append, hstar]; rfl)
  rw [dropWhile_append] at hno
  split_ifs at hno with hall
  · rw [isEmpty_iff.mp hall]
    rfl
  · obtain ⟨x, r, hx⟩ := exists_cons_of_ne_nil (isEmpty_iff.not.mp hall)
    rw [hx] at hno ⊢
    exact hno

lemma back (h : Readable (nu ++ ch '@' :: host)) : Readable host := by
  have hsuffix : host <:+ nu ++ ch '@' :: host := (suffix_cons _ _).trans (suffix_append _ _)
  refine ⟨h.escapes.suffix hsuffix, fun t ht => h.anchored t ?_⟩
  rw [h.escapes.maskToks_at]
  exact (mem_tails _ _).mpr (((mem_tails _ _).mp ht).trans
    ((suffix_cons _ _).trans (suffix_append _ _)))

end Readable

/-! ### What a ban matches -/

/-- A ban with the given mask in front of and behind its separator, which `find_ban`
can read: the mask fits its buffer and is readable, and the prefix length is one of an
address. -/
structure Ban.Reads (b : Ban) (nu host : List UInt8) : Prop where
  banstr : b.banstr = nu ++ ch '@' :: host
  nuLen : b.nuLen = nu.length
  fits : b.banstr.length ≤ BANSTRLEN
  readable : Readable b.banstr
  host_at : ch '@' ∉ host
  bits : b.addrbits ≤ 128

lemma Identity.visibleUsername_at {trust} {c : Identity} {u}
    (h : c.visibleUsername trust = some u) : ch '@' ∉ u := by
  have hat := c.username_at
  rw [visibleUsername] at h
  split at h
  case h_1 x rest heq =>
    split_ifs at h
    cases h
    rw [heq, mem_cons, not_or] at hat
    exact hat.2
  case h_2 => cases h

lemma Identity.nickVisible_at {trust} {c : Identity} {u}
    (h : c.visibleUsername trust = some u) : ch '@' ∉ c.nick ++ ch '!' :: u := by
  rw [mem_append, mem_cons]
  rintro (hm | hm | hm)
  · exact c.nick_at hm
  · exact absurd hm (by decide)
  · exact visibleUsername_at h hm

open Identity

lemma Identity.nu_at (c : Identity) : ch '@' ∉ c.nu := by
  rw [nu, mem_append, mem_cons]
  rintro (h | h | h)
  · exact c.nick_at h
  · exact absurd h (by decide)
  · exact c.username_at h

lemma matchB_readable {mask} (h : Readable mask) (name) :
    matchB mask name = some (decide (MaskMatches mask name)) := by
  obtain ⟨r, hr, hiff⟩ := h.ircMatch name
  rw [matchB, hr, Option.map_some, Option.some.injEq, Bool.eq_iff_iff, beq_iff_eq,
    decide_eq_true_iff, hiff]

lemma Ban.hits_of_front {b : Ban} {c : Identity} (hlt : b.nuLen < BANSTRLEN)
    (hno : matchB (b.banstr.take b.nuLen) c.nu = some false) (trust) :
    b.hits trust c = match c.nuhVis trust with
      | none => some false
      | some nuh => matchB b.restored nuh := by
  rw [Ban.hits, guard, if_pos hlt, hno]
  rfl

namespace Ban.Reads

variable {b : Ban} {nu host : List UInt8} (h : b.Reads nu host)

include h

lemma take_nuLen : b.banstr.take b.nuLen = nu := by
  rw [h.banstr, h.nuLen]
  exact take_left

lemma hostmask : b.hostmask = host := by
  rw [Ban.hostmask, h.banstr, h.nuLen, ← drop_drop, drop_left]
  rfl

lemma restored : b.restored = b.banstr := by
  rw [Ban.restored, h.take_nuLen, ← Ban.hostmask, h.hostmask, h.banstr]

lemma nuLen_lt : b.nuLen < BANSTRLEN := by
  have := h.fits
  rw [h.banstr, length_append, length_cons] at this
  rw [h.nuLen]
  omega

lemma nu_readable : Readable nu := (h.banstr ▸ h.readable).front

lemma host_readable : Readable host := (h.banstr ▸ h.readable).back

lemma hits_returns (trust c) : ∃ v, b.hits trust c = some v := by
  have hguard : (guard (b.nuLen < BANSTRLEN) : Option Unit) = some () := by
    rw [guard, if_pos h.nuLen_lt]
    rfl
  rw [Ban.hits, h.take_nuLen, h.hostmask, h.restored, hguard, matchB_readable h.nu_readable,
    matchB_readable h.host_readable, matchB_readable h.host_readable,
      matchB_readable h.host_readable]
  simp only [Option.bind_eq_bind, Option.bind_some, Option.pure_def]
  cases c.nuhVis trust with
  | none => split_ifs <;> exact ⟨_, rfl⟩
  | some nuh =>
    simp only [matchB_readable h.readable]
    split_ifs <;> exact ⟨_, rfl⟩

/-- **What a ban matches**: a client whose nick and user name match its front part
and one of whose hosts matches the rest, or one that matches it in its visible
form. -/
theorem matches_iff (trust c) : b.Matches trust c ↔ (MaskMatches nu c.nu ∧
        ((meets b.flags BAN_IPMASK ∧ Agree getBit c.ip b.address b.addrbits) ∨
          MaskMatches host c.host ∨ MaskMatches host (ircdNtoa c.ip) ∨
          (c.hidden ∧ MaskMatches host c.realhost))) ∨
      (¬ MaskMatches nu c.nu ∧ ∃ u, c.visibleUsername trust = some u ∧
        MaskMatches nu (c.nick ++ ch '!' :: u) ∧ MaskMatches host c.host) := by
  have hread := h.readable
  rw [h.banstr] at hread
  have hcheck : ipmaskCheck c.ip b.address b.addrbits ≠ 0 ↔
      Agree getBit c.ip b.address b.addrbits := ipmaskCheck_iff h.bits
  have hguard : (guard (b.nuLen < BANSTRLEN) : Option Unit) = some () := by
    rw [guard, if_pos h.nuLen_lt]
    rfl
  rw [Ban.Matches, Ban.hits, h.take_nuLen, h.hostmask, h.restored, h.banstr, hguard,
    matchB_readable h.nu_readable, matchB_readable h.host_readable, matchB_readable h.host_readable,
    matchB_readable h.host_readable, ← hcheck]
  simp only [Option.bind_eq_bind, Option.bind_some, decide_eq_true_eq]
  by_cases hnu : MaskMatches nu c.nu
  · -- the front part matches, and the hosts are tried one after the other
    simp only [hnu, if_true, true_and, not_true_eq_false, false_and, or_false]
    by_cases hip : meets b.flags BAN_IPMASK = true ∧ ipmaskCheck c.ip b.address b.addrbits ≠ 0
    · simp [hip]
    by_cases hh : MaskMatches host c.host
    · simp [hh]
    by_cases hn : MaskMatches host (ircdNtoa c.ip)
    · simp [hh, hn]
    · simp only [hip, hh, hn, if_false, false_or]
      cases c.hidden <;> simp
  simp only [hnu, if_false, false_and, false_or, not_false_eq_true, true_and]
  cases hv : c.visibleUsername trust with
  | none => simp [nuhVis, hv]
  | some u =>
    have hsplit := maskMatches_split hread.escapes (nickVisible_at hv) c.host_at
    simpa [nuhVis, hv, matchB_readable hread] using hsplit

end Ban.Reads

end Ircu
