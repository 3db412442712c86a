import Ircu.Ban.Basic

/-!
Whether `bmatch` compares what `find_ban` matches.

`bmatch` compares two masks as text, and additionally as prefixes if both are
address masks. A text that covers another one, split at the last `@`, matches
more clients by their names (`covers_parts`). But a mask that is an address mask
matches clients by their address as well, and a text that covers the text of the
prefix need not match the text of every address in it: `8*` covers `8.0.0.0/5`,
and does not match `10.0.0.1`.

* `Matches.of_covers`: in all other combinations a covering ban matches what the
  covered one matches.
-/

namespace Ircu

open Glob Prefix List Identity

/-! ### Bans as they are built -/

/-- The mask fits the buffer of a ban, and `match` and `mmatch` read it alike. -/
structure Legible (s : List UInt8) : Prop where
  fits : s.length ≤ BANSTRLEN
  readable : Readable s

instance (s : List UInt8) : Decidable (Legible s) :=
  decidable_of_iff (s.length ≤ BANSTRLEN ∧ Readable s)
    ⟨fun h => ⟨h.1, h.2⟩, fun h => ⟨h.fits, h.readable⟩⟩

/-- A ban built by `set_ban_mask` in a cleared structure with the given flags. -/
def builtBan (flags : BitVec 16) (s : List UInt8) : Ban := setBanMask { Ban.zero with flags } s

def IsIpmask (s : List UInt8) : Prop :=
  ch '@' ∈ s ∧ (ipmaskParse (hostPart s) true).isSome

instance (s : List UInt8) : Decidable (IsIpmask s) := inferInstanceAs (Decidable (_ ∧ _))

section Built

variable {flags : BitVec 16} {s : List UInt8}

lemma setBanMask_banstr (b : Ban) (s) : (setBanMask b s).banstr = s.take BANSTRLEN := by
  rw [setBanMask]
  split_ifs
  · split <;> rfl
  · rfl

lemma builtBan_banstr (h : Legible s) : (builtBan flags s).banstr = s :=
  (setBanMask_banstr _ s).trans (take_of_length_le h.fits)

lemma builtBan_ipmask (hflags : meets flags BAN_IPMASK = false) :
    meets (builtBan flags s).flags BAN_IPMASK = true ↔ IsIpmask s := by
  have hself : meets BAN_IPMASK BAN_IPMASK = true := by decide
  rw [builtBan, setBanMask, IsIpmask]
  split_ifs with hat
  · split
    case h_1 hnone => simp [hflags, hnone]
    case h_2 ip hsome => simp [meets_or_left, hself, hsome, hat]
  · simp [hflags, hat]

lemma builtBan_exception : meets (builtBan flags s).flags BAN_EXCEPTION =
    meets flags BAN_EXCEPTION := by
  have hother : meets BAN_IPMASK BAN_EXCEPTION = false := by decide
  rw [builtBan, setBanMask]
  split_ifs
  · split
    · rfl
    · rw [meets_or_left, hother, Bool.or_false]
  · rfl

lemma builtBan_reads (h : Legible s) (hat : ch '@' ∈ s) :
    (builtBan flags s).Reads (nuPart s) (hostPart s) := by
  have hsplit := nuPart_append_hostPart hat
  have hlt : (nuPart s).length < 256 := by
    have hlen := congrArg List.length hsplit
    have hfits := h.fits
    rw [length_append] at hlen
    rw [show BANSTRLEN = 90 from rfl] at hfits
    omega
  have hstr : (builtBan flags s).banstr = s := builtBan_banstr h
  refine ⟨hstr.trans hsplit, ?_, by rw [hstr]; exact h.fits, by rw [hstr]; exact h.readable,
    at_notMem_hostPart s, ?_⟩
  · rw [builtBan, setBanMask, if_pos hat]
    split <;> exact Nat.mod_eq_of_lt hlt
  rw [builtBan, setBanMask, if_pos hat]
  split
  case h_1 => exact Nat.zero_le _
  case h_2 ip hsome =>
    cases hb : ip.bits with
    | none => exact Nat.zero_le _
    | some n => exact ipmaskParse_bits hsome hb

/-- A mask that begins with a separator is refused at its first character. -/
lemma matchB_at {x} (hx : x ≠ ch '@') (m r) : matchB (ch '@' :: m) (x :: r) = some false := by
  have hne : toLower (ch '@') ≠ toLower x := fun h => hx ((toLower_eq_at x).mp (h ▸ by decide))
  have hback : matchAct ⟨ch '@' :: m, x :: r, ch '@' :: m, x :: r⟩ = .back := by
    rw [matchAct]
    simp only [if_neg (show ch '@' ≠ ch '\\' by decide), if_pos hne,
      if_neg (show ¬ (ch '@' = ch '*' ∨ ch '@' = ch '?') by decide)]
  have hstep : matchStep (ch '@' :: m) ⟨ch '@' :: m, x :: r, ch '@' :: m, x :: r⟩ = .ret 1 := by
    rw [matchStep, hback]
    simp [backtrack]
  have hfuel : ((x :: r).length + 1) * ((ch '@' :: m).length + 1) =
      ((x :: r).length + 1) * (ch '@' :: m).length + (x :: r).length + 1 := by ring
  rw [matchB, ircMatch, hfuel, matchLoop, hstep]
  rfl

lemma not_matches_of_noAt (hat : ch '@' ∉ s) (trust c) :
    ¬ (builtBan flags s).Matches trust c := by
  have hlen : (builtBan flags s).nuLen = 0 := by
    rw [builtBan, setBanMask, if_neg hat]
    rfl
  have hfront : matchB ((builtBan flags s).banstr.take (builtBan flags s).nuLen) c.nu =
      some false := by
    rw [hlen, take_zero, matchB_readable (.of_noEscape not_mem_nil)]
    simp [MaskMatches, maskToks, nu]
  rw [Ban.Matches, Ban.hits_of_front (hlen ▸ by decide) hfront, nuhVis]
  cases c.visibleUsername trust with
  | none => simp
  | some u =>
    -- the visible form does not begin with a separator
    obtain ⟨x, r, hx, hne⟩ :
        ∃ x r, (c.nick ++ ch '!' :: u) ++ ch '@' :: c.host = x :: r ∧ x ≠ ch '@' := by
      have hn := c.nick_at
      cases hnick : c.nick with
      | nil => exact ⟨ch '!', _, rfl, by decide⟩
      | cons x r =>
        rw [hnick, mem_cons, not_or] at hn
        exact ⟨x, _, rfl, Ne.symm hn.1⟩
    simp only [Option.map_some, hx, Ban.restored, hlen, take_zero, nil_append, matchB_at hne]
    simp

/-- The flags that a ban is built with make no difference to what it matches, except for the flag of
address masks. -/
lemma builtBan_matches {flags' : BitVec 16} (h : meets flags BAN_IPMASK = false)
    (h' : meets flags' BAN_IPMASK = false) (trust c) :
    (builtBan flags s).Matches trust c ↔ (builtBan flags' s).Matches trust c := by
  have hip : meets (builtBan flags s).flags BAN_IPMASK =
      meets (builtBan flags' s).flags BAN_IPMASK := by
    rw [Bool.eq_iff_iff, builtBan_ipmask h, builtBan_ipmask h']
  have hrest : { builtBan flags s with flags := (builtBan flags' s).flags } =
      builtBan flags' s := by
    rw [builtBan, builtBan, setBanMask, setBanMask]
    split_ifs
    · split <;> rfl
    · rfl
  rw [Ban.Matches, Ban.Matches, ← hrest, Ban.hits, Ban.hits]
  simp only [hip, Ban.hostmask, Ban.restored]

end Built

/-! ### Covering bans -/

section Covering

variable {old new : Ban} {ou oh nu nh : List UInt8}

lemma mmatch_eq_zero {s t} (hs : EscapesWild s) (ht : EscapesWild t) :
    mmatch s t = some 0 ↔ MaskCovers s t := by
  obtain ⟨r, hr, hiff⟩ := mmatch_spec hs ht
  rw [hr, Option.some.injEq, hiff]

variable (ho : old.Reads ou oh) (hn : new.Reads nu nh) (hcov : MaskCovers old.banstr new.banstr)

include ho hn hcov

lemma covers_parts {a h} (ha : ch '@' ∉ a) (hh : ch '@' ∉ h)
    (hnu : MaskMatches nu a) (hnh : MaskMatches nh h) : MaskMatches ou a ∧ MaskMatches oh h := by
  have hop := ho.readable.escapes
  have hnp := hn.readable.escapes
  rw [ho.banstr] at hop
  rw [hn.banstr] at hnp
  rw [ho.banstr, hn.banstr] at hcov
  exact (maskMatches_split hop ha hh).mp
    (hcov.matches hop ((maskMatches_split hnp ha hh).mpr ⟨hnu, hnh⟩))

lemma covers_nu {a} (ha : ch '@' ∉ a) (hnu : MaskMatches nu a) : MaskMatches ou a := by
  obtain ⟨h, hat, hh⟩ := hn.host_readable.escapes.exists_matches hn.host_at
  exact (covers_parts ho hn hcov ha hat hnu hh).1

/-- **A covering ban** matches what the covered one matches, if it also matches
every address that the covered one matches by its bits. -/
theorem Ban.Matches.of_covers
    (haddr : ∀ a, meets new.flags BAN_IPMASK → Agree getBit a new.address new.addrbits →
      (meets old.flags BAN_IPMASK ∧ Agree getBit a old.address old.addrbits) ∨
        MaskMatches oh (ircdNtoa a)) {trust c} (h : new.Matches trust c) : old.Matches trust c := by
  have hnt : ch '@' ∉ ircdNtoa c.ip := fun hm =>
    absurd (ircdNtoa_chars c.ip _ hm) (by decide)
  rw [ho.matches_iff]
  rcases (hn.matches_iff trust c).mp h with ⟨hnu, hhost⟩ | ⟨-, u, hv, hnu, hhost⟩
  · have hou := covers_nu ho hn hcov c.nu_at hnu
    refine .inl ⟨hou, ?_⟩
    rcases hhost with ⟨hip, hag⟩ | hh | hh | ⟨hid, hh⟩
    · rcases haddr c.ip hip hag with hold | htext
      · exact .inl hold
      · exact .inr (.inr (.inl htext))
    · exact .inr (.inl (covers_parts ho hn hcov c.nu_at c.host_at hnu hh).2)
    · exact .inr (.inr (.inl (covers_parts ho hn hcov c.nu_at hnt hnu hh).2))
    · exact .inr (.inr (.inr ⟨hid, (covers_parts ho hn hcov c.nu_at c.realhost_at hnu hh).2⟩))
  -- the visible form matches; the covering ban may match the real user name as well
  obtain ⟨hou, hoh⟩ :=
    covers_parts ho hn hcov (nickVisible_at hv) c.host_at hnu hhost
  by_cases hreal : MaskMatches ou c.nu
  · exact .inl ⟨hreal, .inr (.inl hoh)⟩
  · exact .inr ⟨hreal, u, hv, hou, hoh⟩

end Covering

/-! ### The comparison of two masks -/

section Superset

variable {oldFlags newFlags : BitVec 16} {oldText newText : List UInt8}

/-- Every client that the second ban matches is matched by the first. -/
def Superset (old new : Ban) : Prop :=
  ∀ (trust : Bool) (c : Identity), new.Matches trust c → old.Matches trust c

lemma meets_and_ipmask (f g : BitVec 16) :
    meets (f &&& g) BAN_IPMASK = true ↔ meets f BAN_IPMASK = true ∧ meets g BAN_IPMASK = true := by
  have hbit : BAN_IPMASK = 1#16 <<< 0 := by decide
  rw [hbit]
  exact meets_and_bit f g (by decide)

lemma bmatch_text (ho : Legible oldText) (hn : Legible newText)
    (hof : meets oldFlags BAN_IPMASK = false) (hnf : meets newFlags BAN_IPMASK = false)
    (hexc : ¬ (meets oldFlags BAN_EXCEPTION = false ∧ meets newFlags BAN_EXCEPTION = true))
    (hnot : ¬ (IsIpmask oldText ∧ IsIpmask newText)) :
    bmatch (builtBan oldFlags oldText) (builtBan newFlags newText) = some 0 ↔
      MaskCovers oldText newText := by
  rw [bmatch, builtBan_exception, builtBan_exception, if_neg (by simpa using hexc), if_pos,
    builtBan_banstr ho, builtBan_banstr hn, mmatch_eq_zero ho.readable.escapes hn.readable.escapes]
  rw [meets_and_ipmask, builtBan_ipmask hof, builtBan_ipmask hnf]
  exact hnot

lemma bmatch_zero (ho : Legible oldText) (hn : Legible newText)
    (hof : meets oldFlags BAN_IPMASK = false) (hnf : meets newFlags BAN_IPMASK = false)
    (h : bmatch (builtBan oldFlags oldText) (builtBan newFlags newText) = some 0) :
    ¬ (meets oldFlags BAN_EXCEPTION = false ∧ meets newFlags BAN_EXCEPTION = true) ∧
    MaskCovers oldText newText ∧ (IsIpmask oldText → IsIpmask newText →
      (builtBan oldFlags oldText).addrbits ≤ (builtBan newFlags newText).addrbits ∧
      Agree getBit (builtBan newFlags newText).address (builtBan oldFlags oldText).address
        (builtBan oldFlags oldText).addrbits) := by
  have hexc : ¬ (meets oldFlags BAN_EXCEPTION = false ∧ meets newFlags BAN_EXCEPTION = true) := by
    intro hexc
    rw [bmatch, builtBan_exception, builtBan_exception, if_pos (by simpa using hexc)] at h
    cases h
  refine ⟨hexc, ?_⟩
  by_cases hboth : IsIpmask oldText ∧ IsIpmask newText
  · have hor : (builtBan oldFlags oldText).Reads _ _ := builtBan_reads ho hboth.1.1
    have hnr : (builtBan newFlags newText).Reads _ _ := builtBan_reads hn hboth.2.1
    have hip : ¬ ¬ meets ((builtBan oldFlags oldText).flags &&& (builtBan newFlags newText).flags)
        BAN_IPMASK = true := by
      rw [not_not, meets_and_ipmask, builtBan_ipmask hof, builtBan_ipmask hnf]
      exact hboth
    have hlen := not_or.mpr ⟨not_le.mpr hor.nuLen_lt, not_le.mpr hnr.nuLen_lt⟩
    rw [bmatch, builtBan_exception, builtBan_exception, if_neg (by simpa using hexc), if_neg hip]
      at h
    by_cases hbits : (builtBan oldFlags oldText).addrbits > (builtBan newFlags newText).addrbits
    · rw [if_pos hbits] at h
      cases h
    rw [if_neg hbits, if_neg hlen] at h
    split at h
    · cases h
    · cases h
    split_ifs at h with hcheck
    · cases h
    rw [hor.restored, hnr.restored, builtBan_banstr ho, builtBan_banstr hn,
      mmatch_eq_zero ho.readable.escapes hn.readable.escapes] at h
    exact ⟨h, fun _ _ => ⟨not_lt.mp hbits, (ipmaskCheck_iff hor.bits).mp hcheck⟩⟩
  · exact ⟨(bmatch_text ho hn hof hnf hexc hboth).mp h, fun h1 h2 => absurd ⟨h1, h2⟩ hboth⟩

/-- A client of the same nick, with the given user name, that has the given address
and no other host. -/
def Identity.moved (c : Identity) (u : List UInt8) (hu : u.length ≤ Nick.USERLEN)
    (hat : ch '@' ∉ u) (a : InAddr) : Identity where
  nick := c.nick
  username := u
  host := ircdNtoa a
  realhost := ircdNtoa a
  ip := a
  hidden := false
  nick_length := c.nick_length
  username_length := hu
  nick_at := c.nick_at
  username_at := hat
  host_at := fun hm => absurd (ircdNtoa_chars a _ hm) (by decide)
  realhost_at := fun hm => absurd (ircdNtoa_chars a _ hm) (by decide)

lemma Identity.moved_visibleUsername (c : Identity) {u} (hu hat a trust) :
    (c.moved u hu hat a).visibleUsername trust = none := by
  rw [visibleUsername]
  split <;> simp [moved]

/-- A ban that matches anybody at all matches, by its front part, some client with
any given address and that address as its only host. -/
lemma Ban.Reads.exists_moved {b : Ban} {nu host} (h : b.Reads nu host) {trust c}
    (hc : b.Matches trust c) (a) :
    ∃ c' : Identity, c'.ip = a ∧ c'.host = ircdNtoa a ∧ c'.hidden = false ∧
      (∀ trust, c'.visibleUsername trust = none) ∧ MaskMatches nu c'.nu := by
  rcases (h.matches_iff trust c).mp hc with ⟨hnu, -⟩ | ⟨-, u, hv, hnu, -⟩
  · exact ⟨c.moved c.username c.username_length c.username_at a, rfl, rfl, rfl,
      c.moved_visibleUsername _ _ a, hnu⟩
  have hu : u.length ≤ Nick.USERLEN := by
    have hlen := c.username_length
    rw [visibleUsername] at hv
    split at hv
    case h_1 x rest heq =>
      split_ifs at hv
      cases hv
      rw [heq, length_cons] at hlen
      omega
    case h_2 => cases hv
  exact ⟨c.moved u hu (visibleUsername_at hv) a, rfl, rfl, rfl, c.moved_visibleUsername _ _ a, hnu⟩

/-- What the comparison of the texts does not decide: the first mask has a separator and is an
address mask, or the second is none, or the first matches the text of every address of the
second. -/
def Addressed (oldText newText : List UInt8) : Prop :=
  ch '@' ∈ oldText ∧ (IsIpmask oldText ∨ ¬ IsIpmask newText ∨
    ∀ a, Agree getBit a (makeBan newText).address (makeBan newText).addrbits →
      MaskMatches (hostPart oldText) (ircdNtoa a))

lemma builtBan_address (flags s) : (builtBan flags s).address = (makeBan s).address ∧
    (builtBan flags s).addrbits = (makeBan s).addrbits := by
  rw [builtBan, makeBan, setBanMask, setBanMask]
  split_ifs
  · split <;> exact ⟨rfl, rfl⟩
  · exact ⟨rfl, rfl⟩

lemma superset_of_bmatch (hof : meets oldFlags BAN_IPMASK = false)
    (hnf : meets newFlags BAN_IPMASK = false) (ho : Legible oldText) (hn : Legible newText)
    (haddr : Addressed oldText newText)
    (hzero : bmatch (builtBan oldFlags oldText) (builtBan newFlags newText) = some 0) :
    Superset (builtBan oldFlags oldText) (builtBan newFlags newText) := by
  obtain ⟨-, hcov, hbits⟩ := bmatch_zero ho hn hof hnf hzero
  obtain ⟨hat, hip⟩ := haddr
  intro trust c hc
  by_cases hnat : ch '@' ∈ newText
  · have hor : (builtBan oldFlags oldText).Reads _ _ := builtBan_reads ho hat
    have hnr : (builtBan newFlags newText).Reads _ _ := builtBan_reads hn hnat
    refine Ban.Matches.of_covers hor hnr ?_ ?_ hc
    · rwa [builtBan_banstr ho, builtBan_banstr hn]
    intro a hnip hag
    rw [builtBan_ipmask hnf] at hnip
    rcases hip with hoip | hno | hall
    · obtain ⟨hle, hag'⟩ := hbits hoip hnip
      exact .inl ⟨(builtBan_ipmask hof).mpr hoip, (hag.mono hle).trans hag'⟩
    · exact absurd hnip hno
    · rw [(builtBan_address newFlags newText).1, (builtBan_address newFlags newText).2] at hag
      exact .inr (hall a hag)
  · exact absurd hc (not_matches_of_noAt hnat trust c)

lemma addressed_of_superset (hof : meets oldFlags BAN_IPMASK = false)
    (hnf : meets newFlags BAN_IPMASK = false) (ho : Legible oldText) (hn : Legible newText)
    {trust c} (hc : (builtBan newFlags newText).Matches trust c)
    (hsup : Superset (builtBan oldFlags oldText) (builtBan newFlags newText)) :
    Addressed oldText newText := by
  have hat : ch '@' ∈ oldText := by
    by_contra hat
    exact not_matches_of_noAt hat trust c (hsup trust c hc)
  by_contra hbad
  simp only [Addressed, hat, true_and] at hbad
  push Not at hbad
  obtain ⟨hoip, hnip, a, ha, hmiss⟩ := hbad
  have hor : (builtBan oldFlags oldText).Reads _ _ := builtBan_reads ho hat
  have hnr : (builtBan newFlags newText).Reads _ _ := builtBan_reads hn hnip.1
  rw [← (builtBan_address newFlags newText).1, ← (builtBan_address newFlags newText).2] at ha
  -- a client at an address whose text is not matched
  obtain ⟨c', rfl, hhost, hhid, hvis, hnu⟩ := hnr.exists_moved hc a
  have hnew : (builtBan newFlags newText).Matches trust c' :=
    (hnr.matches_iff trust c').mpr (.inl ⟨hnu, .inl ⟨(builtBan_ipmask hnf).mpr hnip, ha⟩⟩)
  rcases (hor.matches_iff trust c').mp (hsup trust c' hnew) with
    ⟨-, ⟨hip, -⟩ | hh | hh | ⟨hh, -⟩⟩ | ⟨-, u, hu, -⟩
  · exact hoip ((builtBan_ipmask hof).mp hip)
  · exact hmiss (hhost ▸ hh)
  · exact hmiss hh
  · rw [hhid] at hh
    cases hh
  · rw [hvis] at hu
    cases hu

/-- A client at the address `10.0.0.1`. -/
def tenClient : Identity where
  nick := str "nick"
  username := str "user"
  host := str "example.com"
  realhost := str "example.com"
  ip := mapped 0x0a00 0x0001
  hidden := false
  nick_length := by decide
  username_length := by decide
  nick_at := by decide
  username_at := by decide
  host_at := by decide
  realhost_at := by decide

end Superset

end Ircu
