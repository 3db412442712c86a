import Ircu.Ipmask.Steps

/-!
The texts that `ipmask_parse` accepts as an address, without a pointer for a prefix length.

The grammar of addresses is the usual one: four decimal numbers, or eight groups of hexadecimal
digits, of which a double colon may stand for some and four decimal numbers for the last two. The
parser accepts all sorts of other texts as well: with an asterisk, with nothing behind the last dot
or colon, with three colons, and with too few groups in front of an IPv4 address.

* `Complete`: the grammar; `Neat`: the texts without such things.
* `octets_of_atonIp4`, `groups_of_ip6Loop`: what is accepted and neat is an address.
-/

namespace Ircu.Ipmask

open List

/-! ### The grammar -/

structure IsOctet (o : List UInt8) : Prop where
  ne : o ≠ []
  digits : ∀ c ∈ o, ch '0' ≤ c ∧ c ≤ ch '9'
  le : decimalNum o ≤ 255

inductive Octets : ℕ → List UInt8 → Prop
  | last {o : List UInt8} (ho : IsOctet o) : Octets 1 o
  | more {n : ℕ} {o s : List UInt8} (ho : IsOctet o) (hs : Octets n s) :
      Octets (n + 1) (o ++ ch '.' :: s)

def hexNum (ds : List UInt8) : ℕ := ds.foldl (fun n c => n * 16 + (hexVal c).getD 0) 0

/-- A hexadecimal number of sixteen bits. -/
structure IsGroup (g : List UInt8) : Prop where
  ne : g ≠ []
  digits : ∀ c ∈ g, (hexVal c).isSome = true
  le : hexNum g ≤ 0xffff

/-- The number of groups is right: there are eight of them, or a double colon stands for those that
are missing. -/
def Fits (double : Bool) (n : ℕ) : Prop := if double then n ≤ 8 else n = 8

/-- The text of an IPv6 address behind `n` groups, the last of which a colon has ended. The flag
says whether there was a double colon. -/
inductive Groups : Bool → ℕ → List UInt8 → Prop
  | last {b : Bool} {n : ℕ} {g : List UInt8} (hg : IsGroup g) (hn : Fits b (n + 1)) : Groups b n g
  | quad {b : Bool} {n : ℕ} {q : List UInt8} (hq : Octets 4 q) (hn : Fits b (n + 2)) : Groups b n q
  | colon {b : Bool} {n : ℕ} {g s : List UInt8} (hg : IsGroup g) (hs : Groups b (n + 1) s) :
      Groups b n (g ++ ch ':' :: s)
  | double {n : ℕ} {g s : List UInt8} (hg : IsGroup g) (hs : Groups true (n + 1) s) :
      Groups false n (g ++ ch ':' :: ch ':' :: s)
  | doubleEnd {n : ℕ} {g : List UInt8} (hg : IsGroup g) (hn : n + 1 ≤ 8) :
      Groups false n (g ++ str "::")

/-- **The text of one address.** -/
inductive Complete : List UInt8 → Prop
  | quad {t : List UInt8} (h : Octets 4 t) : Complete t
  | groups {t : List UInt8} (h : Groups false 0 t) : Complete t
  | zeros : Complete (str "::")
  | double {s : List UInt8} (h : Groups true 0 s) : Complete (ch ':' :: ch ':' :: s)

/-! ### Neat texts -/

/-- What a text must not have in it. -/
structure Tidy (t : List UInt8) : Prop where
  star : ch '*' ∉ t
  dot : t.getLast? ≠ some (ch '.')
  colon : t.getLast? = some (ch ':') → str "::" <:+ t
  triple : ¬str ":::" <:+: t

/-- The texts that are addresses if they are accepted: they have no asterisk, no dot or single colon
at the end, and no three colons, and in front of an IPv4 address there are six colons or a double
colon. -/
structure Neat (t : List UInt8) : Prop extends Tidy t where
  quad : ch '.' ∈ t → ch ':' ∈ t → str "::" <:+: t ∨ t.count (ch ':') = 6

section Colons

variable {c : UInt8} {s p : List UInt8}

lemma colons_cons (hc : c ≠ ch ':') {k} (hk : 0 < k) :
    List.replicate k (ch ':') <:+: c :: s ↔ List.replicate k (ch ':') <:+: s := by
  rw [infix_cons_iff, or_iff_right]
  intro h
  obtain ⟨k, rfl⟩ := Nat.exists_eq_succ_of_ne_zero hk.ne'
  rw [replicate_succ, cons_prefix_cons] at h
  exact hc h.1.symm

lemma colons_append (hp : ch ':' ∉ p) {k} (hk : 0 < k) :
    List.replicate k (ch ':') <:+: p ++ s ↔ List.replicate k (ch ':') <:+: s := by
  induction p with
  | nil => rfl
  | cons c p ih =>
    obtain ⟨hc, hp⟩ := not_or.mp (mt mem_cons.mpr hp)
    rw [cons_append, colons_cons (Ne.symm hc) hk, ih hp]

lemma colons_single (hs : s.head? ≠ some (ch ':')) {k} (hk : 2 ≤ k) :
    List.replicate k (ch ':') <:+: ch ':' :: s ↔ List.replicate k (ch ':') <:+: s := by
  rw [infix_cons_iff, or_iff_right]
  intro h
  obtain ⟨j, rfl⟩ : ∃ j, k = j + 1 + 1 := ⟨k - 2, by omega⟩
  rw [replicate_succ, cons_prefix_cons] at h
  obtain ⟨l, hl⟩ := h.2
  exact hs (by rw [← hl]; rfl)

lemma colons_double (hs : s.head? ≠ some (ch ':')) :
    List.replicate 3 (ch ':') <:+: ch ':' :: ch ':' :: s ↔ List.replicate 3 (ch ':') <:+: s := by
  rw [infix_cons_iff, or_iff_right, colons_single hs (by decide)]
  intro h
  obtain ⟨l, hl⟩ := h
  exact hs (by rw [← (List.cons.inj (List.cons.inj hl).2).2]; rfl)

end Colons

/-! ### Addresses are neat -/

section Neat

variable {c : UInt8} {o g s t : List UInt8} {b : Bool} {n : ℕ}

lemma IsOctet.notMem (ho : IsOctet o) (hc : ¬(ch '0' ≤ c ∧ c ≤ ch '9')) : c ∉ o :=
  fun h => hc (ho.digits c h)

lemma IsGroup.notMem (hg : IsGroup g) (hc : hexVal c = none) : c ∉ g := fun h => by
  have hdigit := hg.digits c h
  rw [hc] at hdigit
  cases hdigit

lemma Octets.notMem (h : Octets n s) (hc : ¬(ch '0' ≤ c ∧ c ≤ ch '9')) (hdot : c ≠ ch '.') :
    c ∉ s := by
  induction h with
  | last ho => exact ho.notMem hc
  | more ho hs ih =>
    rw [mem_append, mem_cons]
    rintro (h | h | h)
    · exact ho.notMem hc h
    · exact hdot h
    · exact ih h

lemma Octets.getLast (h : Octets n s) : ∃ c, s.getLast? = some c ∧ ch '0' ≤ c ∧ c ≤ ch '9' := by
  induction h with
  | @last o ho =>
    refine ⟨o.getLast ho.ne, List.getLast?_eq_getLast_of_ne_nil ho.ne, ?_⟩
    exact ho.digits _ (getLast_mem ho.ne)
  | @more n o s ho hs ih =>
    obtain ⟨c, hc, hdigit⟩ := ih
    refine ⟨c, ?_, hdigit⟩
    rw [List.getLast?_append, List.getLast?_cons, hc]
    rfl

lemma Octets.tidy (h : Octets n s) : Tidy s := by
  have hcolon : ch ':' ∉ s := h.notMem (by decide) (by decide)
  obtain ⟨c, hc, hdigit⟩ := h.getLast
  refine ⟨h.notMem (by decide) (by decide), ?_, ?_, ?_⟩
  · rw [hc]
    rintro ⟨rfl⟩
    exact absurd hdigit (by decide)
  · rw [hc]
    rintro ⟨rfl⟩
    exact absurd hdigit (by decide)
  · exact fun hin => hcolon (hin.subset (by decide))

lemma IsGroup.tidy (hg : IsGroup g) : Tidy g := by
  have hlast : ∀ c, hexVal c = none → g.getLast? ≠ some c := fun c hc h =>
    hg.notMem hc (mem_of_getLast? h)
  refine ⟨hg.notMem (by decide), hlast _ (by decide), fun h => absurd h (hlast _ (by decide)), ?_⟩
  exact fun hin => hg.notMem (c := ch ':') (by decide) (hin.subset (by decide))

lemma Tidy.append {p} (hs : Tidy s) (hne : s ≠ []) (hp : ch '*' ∉ p)
    (htriple : str ":::" <:+: p ++ s ↔ str ":::" <:+: s) : Tidy (p ++ s) := by
  have hlast : (p ++ s).getLast? = s.getLast? := List.getLast?_append_of_ne_nil _ hne
  refine ⟨?_, hlast ▸ hs.dot, fun h => ?_, fun h => hs.triple (htriple.mp h)⟩
  · rw [mem_append]
    exact fun h => h.elim hp hs.star
  · exact (hs.colon (hlast ▸ h)).trans (suffix_append p s)

lemma Groups.head (h : Groups b n s) : s ≠ [] ∧ s.head? ≠ some (ch ':') := by
  have hgroup : ∀ {g s : List UInt8}, IsGroup g → g ++ s ≠ [] ∧ (g ++ s).head? ≠ some (ch ':') := by
    intro g s hg
    cases g with
    | nil => exact absurd rfl hg.ne
    | cons c g =>
      refine ⟨cons_ne_nil _ _, ?_⟩
      rintro ⟨rfl⟩
      exact hg.notMem (by decide) mem_cons_self
  cases h with
  | last hg hn => simpa using hgroup (s := []) hg
  | quad hq hn =>
    obtain ⟨c, hc, -⟩ := hq.getLast
    refine ⟨fun h => by simp [h] at hc, fun h => ?_⟩
    exact hq.notMem (by decide) (by decide) (mem_of_mem_head? h)
  | colon hg hs | double hg hs | doubleEnd hg hn => exact hgroup hg

lemma Groups.tidy (h : Groups b n s) : Tidy s := by
  induction h with
  | last hg hn => exact hg.tidy
  | quad hq hn => exact hq.tidy
  | colon hg hs ih =>
    obtain ⟨hne, hhead⟩ := hs.head
    have hcolon := ih.append hne (p := [ch ':']) (by decide)
      (colons_single hhead (k := 3) (by decide))
    exact hcolon.append (cons_ne_nil _ _) (hg.notMem (by decide))
      (colons_append (hg.notMem (by decide)) (k := 3) (by decide))
  | double hg hs ih =>
    obtain ⟨hne, hhead⟩ := hs.head
    have hcolons := ih.append hne (p := [ch ':', ch ':']) (by decide) (colons_double hhead)
    exact hcolons.append (cons_ne_nil _ _) (hg.notMem (by decide))
      (colons_append (hg.notMem (by decide)) (k := 3) (by decide))
  | doubleEnd hg hn =>
    have hend : Tidy (str "::") := ⟨by decide, by decide, fun _ => suffix_rfl, by decide⟩
    exact hend.append (by decide) (hg.notMem (by decide))
      (colons_append (hg.notMem (by decide)) (k := 3) (by decide))

lemma Groups.colons (h : Groups b n s) (hb : b = false) (hdot : ch '.' ∈ s) :
    str "::" <:+: s ∨ s.count (ch ':') + n = 6 := by
  induction h with
  | last hg hn => exact absurd hdot (hg.notMem (by decide))
  | quad hq hn =>
    rw [hb, Fits] at hn
    rw [count_eq_zero.mpr (hq.notMem (by decide) (by decide))]
    exact .inr (by simp at hn; omega)
  | @colon b n g s hg hs ih =>
    have hcolon := hg.notMem (c := ch ':') (by decide)
    have hin : ch '.' ∈ s := by
      rcases mem_append.mp hdot with h | h
      · exact absurd h (hg.notMem (by decide))
      · exact (mem_cons.mp h).resolve_left (by decide)
    refine (ih hb hin).imp (fun h => ?_) fun h => ?_
    · exact (colons_append hcolon (by decide)).mpr
        ((colons_single hs.head.2 le_rfl).mpr h)
    · rw [count_append, count_eq_zero.mpr hcolon, count_cons_self]
      omega
  | @double n g s hg hs ih => exact .inl ⟨g, s, append_assoc _ _ _⟩
  | @doubleEnd n g hg hn => exact .inl ⟨g, [], append_nil _⟩

lemma Complete.neat (h : Complete t) : Neat t := by
  cases h with
  | quad h =>
    exact ⟨h.tidy, fun _ hcolon => absurd hcolon (h.notMem (by decide) (by decide))⟩
  | groups h => exact ⟨h.tidy, fun hdot _ => h.colons rfl hdot⟩
  | zeros =>
    exact ⟨⟨by decide, by decide, fun _ => suffix_rfl, by decide⟩, fun h => absurd h (by decide)⟩
  | double h =>
    obtain ⟨hne, hhead⟩ := h.head
    refine ⟨h.tidy.append hne (p := [ch ':', ch ':']) (by decide) (colons_double hhead), ?_⟩
    exact fun _ _ => .inl ⟨[], _, rfl⟩

end Neat

/-! ### Neat texts are addresses -/

section Accepted

variable {m s t : List UInt8}

lemma Tidy.of_append (h : Tidy (m ++ s)) (hne : s ≠ []) (hhead : s.head? ≠ some (ch ':')) :
    Tidy s := by
  have hlast : (m ++ s).getLast? = s.getLast? := List.getLast?_append_of_ne_nil _ hne
  refine ⟨fun hin => h.star (mem_append_right _ hin), hlast ▸ h.dot, fun hcolon => ?_,
    fun hin => h.triple (hin.trans (suffix_append m s).isInfix)⟩
  refine suffix_of_suffix_length_le (h.colon (hlast ▸ hcolon)) (suffix_append m s) ?_
  -- it has another character in front of its last colon
  match s, hne, hhead, hcolon with
  | [c], _, hhead, hcolon => exact absurd hcolon hhead
  | c :: d :: s, _, _, _ =>
    exact Nat.le_add_left 2 _

lemma decimalNum_append (m c) : decimalNum (m ++ [c]) = decimalNum m * 10 + digitVal c := by
  rw [decimalNum, foldl_append]
  rfl

lemma hexNum_append (m c) : hexNum (m ++ [c]) = hexNum m * 16 + (hexVal c).getD 0 := by
  rw [hexNum, foldl_append]
  rfl

lemma octets_of_atonIp4Loop {dots part ip r}
    (h : atonIp4Loop false s dots part ip = some r) (hm : ∀ c ∈ m, ch '0' ≤ c ∧ c ≤ ch '9')
    (hpart : decimalNum m = part) (hle : part ≤ 255) (hdots : dots ≤ 3) (hne : m ++ s ≠ [])
    (hhead : m = [] → s.head? ≠ some (ch '.')) (hstar : ch '*' ∉ s)
    (hlast : (m ++ s).getLast? ≠ some (ch '.')) : Octets (4 - dots) (m ++ s) := by
  induction s generalizing m dots part ip with
  | nil =>
    rw [atonIp4Loop] at h
    split_ifs at h with hfew
    rw [append_nil] at hne ⊢
    rw [show 4 - dots = 1 by omega]
    exact .last ⟨hne, hm, hpart ▸ hle⟩
  | cons c cs ih =>
    have hstar' : ch '*' ∉ cs := fun h => hstar (mem_cons_of_mem _ h)
    cases atonStep h with
    | wild hc hdots hcs hwild hrest hbits =>
      exact absurd (hcs ▸ mem_cons_self) hstar'
    | slash hc hp hdigit hrest hbits hle => cases hp
    | digit hc hdigit h =>
      have hnext := ih h ?_ (by rw [decimalNum_append, hpart]) hdigit hdots
        ?_ ?_ hstar' (by simpa using hlast)
      · simpa using hnext
      · intro d hd
        rcases mem_append.mp hd with hd | hd
        · exact hm d hd
        · rw [mem_singleton.mp hd]
          exact hc
      all_goals simp
    | dot hc hdots' hnext h =>
      have hmne : m ≠ [] := fun hnil => hhead hnil (by rw [hc]; rfl)
      have hcsne : cs ≠ [] := by
        rintro rfl
        exact hlast (by rw [hc]; simp)
      have hlast' : cs.getLast? ≠ some (ch '.') := by
        rwa [List.getLast?_append_of_ne_nil _ (cons_ne_nil _ _),
          List.getLast?_cons_of_ne_nil hcsne] at hlast
      have hrest := ih (m := []) h (by simp) rfl (Nat.zero_le _) hdots' (by simpa using hcsne)
        (fun _ => hnext) hstar' (by simpa using hlast')
      rw [hc, show 4 - dots = 4 - (dots + 1) + 1 by omega]
      exact .more ⟨hmne, hm, hpart ▸ hle⟩ hrest

lemma octets_of_atonIp4 {r} (h : atonIp4 s false = some r)
    (hstar : ch '*' ∉ s) (hlast : s.getLast? ≠ some (ch '.')) : Octets 4 s := by
  rw [atonIp4] at h
  split_ifs at h with hhead
  refine octets_of_atonIp4Loop (m := []) h (by simp) rfl (Nat.zero_le _) (Nat.zero_le _) ?_
    (fun _ => hhead) hstar hlast
  rintro rfl
  cases h

/-- The parser is in the middle of an IPv6 address, of whose current part the digits `m` have been
read. -/
structure Inside (u : Ip6State) (m s : List UInt8) : Prop where
  digits : ∀ c ∈ m, (hexVal c).isSome = true
  part : hexNum m = u.part
  le : u.part ≤ 0xffff
  start : (atonIp4 u.partStart false).isSome = true → u.partStart = m ++ s
  colon : u.colon ≤ 8
  lt : m ≠ [] → u.ii < 8
  head : m = [] → s.head? ≠ some (ch ':')
  ne : m ++ s ≠ []
  tidy : Tidy (m ++ s)
  quad : u.colon = 8 → ch '.' ∈ s → str "::" <:+: s ∨ s.count (ch ':') + u.ii = 6

section Inside

variable {c : UInt8} {cs : List UInt8} {u : Ip6State}

lemma Inside.group (h : Inside u m s) (hne : m ≠ []) : IsGroup m := ⟨hne, h.digits, h.part ▸ h.le⟩

lemma Inside.digit (h : Inside u m (c :: cs)) (hlt : u.ii < 8) {v} (hc : hexVal c = some v)
    (hpart : u.part * 16 + v ≤ 0xffff) :
    Inside { u with part := u.part * 16 + v } (m ++ [c]) cs := by
  have happend : m ++ [c] ++ cs = m ++ c :: cs := append_cons .. |>.symm
  have hcolon : c ≠ ch ':' := hexVal_ne hc (by decide)
  refine ⟨fun d hd => ?_, ?_, hpart, fun hip => ?_, h.colon, fun _ => hlt, by simp, by simp,
    happend ▸ h.tidy, fun h8 hdot => ?_⟩
  · rcases mem_append.mp hd with hd | hd
    · exact h.digits d hd
    · rw [mem_singleton.mp hd, hc]
      rfl
  · rw [hexNum_append, h.part, hc]
    rfl
  · rw [happend]
    exact h.start hip
  · have hquad := h.quad h8 (mem_cons_of_mem _ hdot)
    rwa [count_cons_of_ne hcolon, show str "::" = List.replicate 2 (ch ':') from rfl,
      colons_cons hcolon (by decide)] at hquad

lemma Inside.ne_nil (h : Inside u m (ch ':' :: cs)) : m ≠ [] := fun hm => h.head hm rfl

lemma Inside.notMem (h : Inside u m (ch ':' :: cs)) : ch ':' ∉ m :=
  (h.group h.ne_nil).notMem (by decide)

lemma Inside.tail_ne (h : Inside u m (ch ':' :: cs)) : cs ≠ [] := by
  rintro rfl
  obtain ⟨p, hp⟩ := h.tidy.colon (by simp)
  have hm : p ++ [ch ':'] = m := by
    refine append_cancel_right (?_ : p ++ [ch ':'] ++ [ch ':'] = m ++ [ch ':'])
    rw [← hp, append_assoc]
    rfl
  exact h.notMem (hm ▸ by simp)

lemma Inside.next (h : Inside u m (ch ':' :: cs)) (hhead : cs.head? ≠ some (ch ':')) :
    Inside { u.push u.part with part := 0, partStart := cs } [] cs := by
  refine ⟨by simp, rfl, Nat.zero_le _, fun _ => rfl, h.colon, by simp, fun _ => hhead, h.tail_ne,
    ?_, fun h8 hdot => ?_⟩
  · refine Tidy.of_append (m := m ++ [ch ':']) ?_ h.tail_ne hhead
    rw [append_assoc]
    exact h.tidy
  have hquad := h.quad h8 (mem_cons_of_mem _ hdot)
  rw [count_cons_self, show str "::" = List.replicate 2 (ch ':') from rfl,
    colons_single hhead le_rfl] at hquad
  refine hquad.imp id fun hcount => ?_
  change cs.count (ch ':') + (u.ii + 1) = 6
  omega

lemma Inside.double (h : Inside u m (ch ':' :: ch ':' :: cs)) (hlt : u.ii < 8) (h8 : u.ii + 1 ≠ 8)
    (hne : cs ≠ []) :
    Inside { u.push u.part with part := 0, partStart := ch ':' :: cs, colon := u.ii + 1 } []
      cs := by
  have hhead : cs.head? ≠ some (ch ':') := by
    intro hhead
    obtain ⟨cs', rfl⟩ := List.head?_eq_some_iff.mp hhead
    exact h.tidy.triple ⟨m, cs', by simp; rfl⟩
  refine ⟨by simp, rfl, Nat.zero_le _, fun hip => ?_, hlt, by simp, fun _ => hhead, hne,
    ?_, fun h8' => absurd h8' h8⟩
  · -- no IPv4 address begins with a colon
    obtain ⟨ip4, hip⟩ := Option.isSome_iff_exists.mp hip
    rw [atonIp4, if_neg (by simp; decide)] at hip
    cases atonStep hip with
    | wild hc | slash hc | digit hc | dot hc => exact absurd hc (by decide)
  · refine Tidy.of_append (m := m ++ str "::") ?_ hne hhead
    rw [append_assoc]
    exact h.tidy

lemma fits_of {n} (hle : n ≤ 8) (hfull : 8 ≤ u.colon → n = 8) : Fits (decide (u.colon < 8)) n := by
  rw [Fits]
  split_ifs with hcolon
  · exact hle
  · exact hfull (by simpa using hcolon)

end Inside

lemma groups_of_ip6Loop {g u r} (h : ip6Loop false s u = some r) (hu : Inside u g s) :
    Groups (decide (u.colon < 8)) u.ii (g ++ s) := by
  induction hn : s.length using Nat.strong_induction_on generalizing s g u with
  | _ n ih =>
    cases s with
    | nil =>
      have hne : g ≠ [] := by simpa using hu.ne
      have hlt := hu.lt hne
      rw [ip6Loop, if_neg (by omega)] at h
      simp only at h
      split_ifs at h with hshort
      rw [append_nil]
      refine .last (hu.group hne) (fits_of (by omega) fun hcolon => ?_)
      have hcolon' := hu.colon
      by_contra h8
      exact hshort ⟨show u.colon = 8 by omega, show u.ii + 1 < 8 by omega⟩
    | cons c cs =>
      subst hn
      obtain ⟨hlt, hstep⟩ := ip6Step h
      cases hstep with
      | digit hc hpart hloop =>
        have hnext := ih cs.length (by simp) hloop (hu.digit hlt hc hpart) rfl
        simpa using hnext
      | colon hc hdot hnext hloop =>
        subst hc
        exact .colon (hu.group hu.ne_nil) (ih cs.length (by simp) hloop (hu.next hnext) rfl)
      | @double hc cs' hcs hcolon h8 hloop =>
        subst hc hcs
        have hfalse : decide (u.colon < 8) = false := by simpa using hcolon
        rw [hfalse]
        cases cs' with
        | nil => exact .doubleEnd (hu.group hu.ne_nil) hlt
        | cons d cs =>
          have hnext := ih (d :: cs).length (by simp) hloop
            (hu.double hlt h8 (cons_ne_nil _ _)) rfl
          have htrue : decide (u.ii + 1 < 8) = true := by simp; omega
          exact .double (hu.group hu.ne_nil) (htrue ▸ hnext)
      | quad hc hip h6 hrest hbits =>
        have hstart := hu.start (by rw [hip]; rfl)
        rw [hstart] at hip
        have hq := octets_of_atonIp4 hip hu.tidy.star hu.tidy.dot
        refine .quad hq (fits_of (by omega) fun hcolon => ?_)
        -- there are no more colons
        have hcs : ch ':' ∉ c :: cs := fun hin =>
          hq.notMem (by decide) (by decide) (mem_append_right g hin)
        have hquad := hu.quad (le_antisymm hu.colon hcolon) (hc ▸ mem_cons_self)
        rw [count_eq_zero.mpr hcs] at hquad
        have hsix := hquad.resolve_left fun hin => hcs (hin.subset (by decide))
        omega
      | slash hc hp hdigit hrest hbits hle => cases hp
      | wild hc hwild hcolon hrest hbits hle =>
        exact absurd (mem_append_right g (hc ▸ mem_cons_self)) hu.tidy.star

/-- **What `ipmask_parse` accepts is the text of one address exactly if it is neat.** -/
theorem ipmaskParse_complete {r : ParsedMask} (h : ipmaskParse t false = some r) :
    Complete t ↔ Neat t := by
  refine ⟨Complete.neat, fun ht => ?_⟩
  cases maskForm h with
  | @double cs h6 htext hnext hloop =>
    subst htext
    rcases eq_or_ne cs [] with rfl | hne
    · exact .zeros
    have htidy : Tidy cs := Tidy.of_append (m := str "::") ht.toTidy hne hnext
    refine .double (groups_of_ip6Loop (g := []) hloop ?_)
    exact ⟨by simp, rfl, Nat.zero_le _, fun _ => rfl, Nat.zero_le _, by simp, fun _ => hnext, hne,
      htidy, fun h8 => absurd h8 (show (0 : ℕ) ≠ 8 by decide)⟩
  | ip6 h6 hnext hloop =>
    refine .groups (groups_of_ip6Loop (g := []) hloop ?_)
    refine ⟨by simp, rfl, Nat.zero_le _, fun hip => absurd hip (by decide), le_rfl, by simp,
      fun _ => hnext, ne_nil_of_mem h6.1, ht.toTidy, fun _ hdot => ht.quad hdot h6.1⟩
  | ip4 h6 hip hrest hbits => exact .quad (octets_of_atonIp4 hip ht.star ht.dot)
  | star h6 hslash hstar hrest hbits => exact absurd hstar ht.star

/-- The loopback address. -/
theorem ipmaskParse_complete_loopback : Neat (str "::1") ∧ Complete (str "::1") := by
  have hneat : Neat (str "::1") := by
    refine ⟨⟨by decide, by decide, fun h => absurd h (by decide), by decide⟩, fun h => ?_⟩
    exact absurd h (by decide)
  obtain ⟨r, hr⟩ := Option.isSome_iff_exists.mp
    (show (ipmaskParse (str "::1") false).isSome = true by decide)
  exact ⟨hneat, (ipmaskParse_complete hr).mpr hneat⟩

/-- Texts that are accepted and are no addresses: with an asterisk, with three numbers, with seven
groups, with three colons, and with too few groups in front of an IPv4 address. -/
theorem ipmaskParse_sloppy :
    ((ipmaskParse (str "1.2.*") false).isSome = true ∧ ¬Complete (str "1.2.*")) ∧
    ((ipmaskParse (str "1.2.3.") false).isSome = true ∧ ¬Complete (str "1.2.3.")) ∧
    ((ipmaskParse (str "1:2:3:4:5:6:7:") false).isSome = true ∧
      ¬Complete (str "1:2:3:4:5:6:7:")) ∧
    ((ipmaskParse (str "1:::2") false).isSome = true ∧ ¬Complete (str "1:::2")) ∧
    ((ipmaskParse (str "1:2.3.4.5") false).isSome = true ∧ ¬Complete (str "1:2.3.4.5")) := by
  refine ⟨⟨by decide +kernel, fun h => ?_⟩, ⟨by decide +kernel, fun h => ?_⟩,
    ⟨by decide +kernel, fun h => ?_⟩, ⟨by decide +kernel, fun h => ?_⟩,
    ⟨by decide +kernel, fun h => ?_⟩⟩
  · exact h.neat.star (by decide)
  · exact h.neat.dot (by decide)
  · exact absurd (h.neat.colon (by decide)) (by decide)
  · exact h.neat.triple (by decide)
  · exact absurd (h.neat.quad (by decide) (by decide)) (by decide)

end Accepted

end Ircu.Ipmask
