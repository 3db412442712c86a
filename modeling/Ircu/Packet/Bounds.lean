import Mathlib.Data.List.DropRight
import Ircu.Packet.Basic

/-!
Where `server_dopacket` and `connect_dopacket` store.

The position of a call in the line buffer is a function of the bytes of the line
read so far (`place`), for either pair of limits. From it the largest index is
read off: a connection that is not a server yet stays far below the end of the
buffer, and a server reaches `READBUFSIZE` with one kind of line only, a tag
section of the full `TAGSLEN` bytes with a full body (`FullLine`).

* `overruns_iff`: when the byte stream of a server is stored past the buffer.
-/

namespace Ircu.Packet

open List Option Function

def isTag (c : UInt8) : Bool := c ≠ ch ' '

/-- `endp` and `body` after the bytes `l` of a line. -/
def place (lim : Limits) (l : List UInt8) : ℕ × Option ℕ :=
  if l.head? = some (ch '@') then
    let t := min (l.takeWhile isTag).length lim.tag
    match l.dropWhile isTag with
    | [] => (t, none)
    | _ :: rest =>
      if t < lim.space then (t + 1 + min rest.length BUFSIZE, some (t + 1)) else (t, none)
  else (min l.length BUFSIZE, none)

/-- A line read so far from a server that fills the buffer: a tag section of
`TAGSLEN` bytes with its space, and at least `BUFSIZE` bytes behind it. -/
def FullLine (l : List UInt8) : Prop :=
  ∃ tags body, l = tags ++ ch ' ' :: body ∧ tags.head? = some (ch '@') ∧ ch ' ' ∉ tags ∧
    tags.length + 1 = TAGSLEN ∧ BUFSIZE ≤ body.length

/-! ### The position in a line -/

section Place

variable {lim : Limits}

@[simp] lemma place_nil : place lim [] = (0, none) := by
  simp [place]

variable {l t : List UInt8}

lemma place_untagged (h : l.head? ≠ some (ch '@')) :
    place lim l = (min l.length BUFSIZE, none) := by
  rw [place, if_neg h]

lemma takeWhile_isTag (ht : ch ' ' ∉ t) (l) :
    (t ++ l).takeWhile isTag = t ++ l.takeWhile isTag := by
  rw [takeWhile_append_of_pos]
  intro c hc
  have : c ≠ ch ' ' := fun h => ht (h ▸ hc)
  simp [isTag, this]

lemma dropWhile_isTag (ht : ch ' ' ∉ t) (l) : (t ++ l).dropWhile isTag = l.dropWhile isTag := by
  rw [dropWhile_append_of_pos]
  intro c hc
  have : c ≠ ch ' ' := fun h => ht (h ▸ hc)
  simp [isTag, this]

lemma place_tags (h : t.head? = some (ch '@')) (ht : ch ' ' ∉ t) :
    place lim t = (min t.length lim.tag, none) := by
  have htake := takeWhile_isTag ht []
  have hdrop := dropWhile_isTag ht []
  rw [append_nil] at htake hdrop
  rw [place, if_pos h, htake, hdrop]
  simp

lemma place_body {rest} (h : t.head? = some (ch '@')) (ht : ch ' ' ∉ t) :
    place lim (t ++ ch ' ' :: rest) = if min t.length lim.tag < lim.space then
        (min t.length lim.tag + 1 + min rest.length BUFSIZE, some (min t.length lim.tag + 1))
      else (min t.length lim.tag, none) := by
  have hspace : isTag (ch ' ') = false := by decide
  have hhead : (t ++ ch ' ' :: rest).head? = some (ch '@') := by
    rw [List.head?_append, h]
    rfl
  rw [place, if_pos hhead, takeWhile_isTag ht, dropWhile_isTag ht,
    takeWhile_cons_of_neg (by simp [hspace]), dropWhile_cons_of_neg (by simp [hspace]),
    append_nil]

lemma tagged_cases (h : l.head? = some (ch '@')) :
    ch ' ' ∉ l ∨ ∃ t rest, l = t ++ ch ' ' :: rest ∧ t.head? = some (ch '@') ∧ ch ' ' ∉ t := by
  by_cases hl : ch ' ' ∈ l
  · obtain ⟨t, rest, rfl, ht⟩ := eq_append_cons_of_mem hl
    refine .inr ⟨t, rest, rfl, ?_, ht⟩
    cases t with
    | nil => exact absurd (some.inj h) (by decide)
    | cons c t => exact h
  · exact .inl hl

lemma place_pos (hl : l ≠ []) : 0 < (place lim l).1 := by
  have hlen := length_pos_of_ne_nil hl
  have htag := lim.pos
  have hbuf : 0 < BUFSIZE := by decide
  by_cases h : l.head? = some (ch '@')
  · rcases tagged_cases h with ht | ⟨t, rest, rfl, hhead, ht⟩
    · rw [place_tags h ht]
      exact lt_min hlen htag
    rw [place_body hhead ht]
    have : 0 < t.length := length_pos_of_ne_nil (by rintro rfl; simp at hhead)
    split_ifs
    · omega
    · exact lt_min this htag
  · rw [place_untagged h]
    exact lt_min hlen hbuf

/-- The state of a call after the bytes `l` of a line. -/
structure Scan.At {σ : Type*} (lim : Limits) (l : List UInt8) (s : Scan σ) : Prop where
  place : (s.endp, s.body) = place lim l
  first : ∀ c, l.head? = some c → s.buf 0 = c

variable {σ : Type*} {l : List UInt8} {s : Scan σ}

lemma Scan.at_nil (buf : Mem) (ses : Session σ) : Scan.At lim [] (⟨buf, 0, none, ses⟩ : Scan σ) :=
  ⟨place_nil.symm, by simp⟩

lemma Scan.At.endp (h : s.At lim l) : s.endp = (Packet.place lim l).1 :=
  congrArg Prod.fst h.place

lemma Scan.At.endp_eq_zero (h : s.At lim l) : s.endp = 0 ↔ l = [] := by
  constructor
  · intro hz
    by_contra hl
    have : 0 < (Packet.place lim l).1 := place_pos hl
    rw [← h.endp] at this
    omega
  · rintro rfl
    rw [h.endp, place_nil]

lemma Scan.At.head (h : s.At lim l) {c buf} (hbuf : store s.buf s.endp c = some buf) :
    (l ++ [c]).head? = some (buf 0) := by
  rw [store] at hbuf
  split_ifs at hbuf
  obtain rfl := some.inj hbuf
  cases l with
  | nil => rw [h.endp_eq_zero.mpr rfl, update_self, nil_append, List.head?_cons]
  | cons a l =>
    have hne : 0 ≠ s.endp := fun hz => by simpa using h.endp_eq_zero.mp hz.symm
    rw [update_of_ne hne, cons_append, List.head?_cons, h.first a rfl]

lemma advance_place_untagged {first c} (hfirst : first ≠ ch '@')
    (hl : (l ++ [c]).head? = some first) :
    advance lim first c (place lim l).1 (place lim l).2 = place lim (l ++ [c]) := by
  have hlc : (l ++ [c]).head? ≠ some (ch '@') := by
    rw [hl]
    exact fun h => hfirst (some.inj h)
  have hhead : l.head? ≠ some (ch '@') := by
    intro h
    rw [List.head?_append, h] at hlc
    exact hlc rfl
  rw [place_untagged hhead, place_untagged hlc, advance_untagged lim _ _ hfirst, length_append,
    length_singleton]
  congr 1
  split_ifs <;> omega

lemma advance_place_tags (hl : l.head? = some (ch '@')) (ht : ch ' ' ∉ l) (c) :
    advance lim (ch '@') c (place lim l).1 (place lim l).2 = place lim (l ++ [c]) := by
  rw [place_tags hl ht, advance_tags lim _ _ rfl]
  by_cases hc : c = ch ' '
  · subst hc
    rw [place_body hl ht]
    rfl
  have hmem : ch ' ' ∉ l ++ [c] := by
    rw [mem_append, mem_singleton]
    exact not_or.mpr ⟨ht, fun h => hc h.symm⟩
  rw [place_tags (by rw [List.head?_append, hl]; rfl) hmem, length_append,
    length_singleton, if_neg hc]
  congr 1
  split_ifs <;> omega

/-- Advancing behind the space of a tagged line. If the space was dropped, the
tag section is full and nothing is kept any more. -/
lemma advance_place_body {rest} (h : t.head? = some (ch '@')) (ht : ch ' ' ∉ t) (c) :
    advance lim (ch '@') c (place lim (t ++ ch ' ' :: rest)).1 (place lim (t ++ ch ' ' :: rest)).2 =
      place lim (t ++ ch ' ' :: rest ++ [c]) := by
  have hle := lim.le
  rw [append_assoc, cons_append, place_body h ht, place_body h ht, length_append, length_singleton]
  by_cases hfull : min t.length lim.tag < lim.space
  · rw [if_pos hfull, if_pos hfull, advance_body lim _ _ rfl]
    congr 1
    split_ifs <;> omega
  have hmin : ¬ min t.length lim.tag < lim.tag := by omega
  rw [if_neg hfull, if_neg hfull, advance_tags lim _ _ rfl]
  rw [if_neg hfull, if_neg hmin, ite_self]

lemma advance_place (lim) {first c} (hl : (l ++ [c]).head? = some first) :
    advance lim first c (place lim l).1 (place lim l).2 = place lim (l ++ [c]) := by
  by_cases hfirst : first = ch '@'
  · subst hfirst
    cases l with
    | nil =>
      obtain rfl : c = ch '@' := some.inj hl
      rw [place_nil, nil_append, place_tags rfl (by decide), advance_tags lim _ _ rfl,
        if_neg (by decide), if_pos lim.pos, length_singleton, min_eq_left lim.pos]
    | cons a l =>
      have ha : (a :: l).head? = some (ch '@') := hl
      rcases tagged_cases ha with ht | ⟨t, rest, hsplit, hhead, ht⟩
      · exact advance_place_tags ha ht c
      · rw [hsplit]
        exact advance_place_body hhead ht c
  · exact advance_place_untagged hfirst hl

end Place

/-! ### How far a line reaches -/

lemma place_connect_lt (l) : (place connectLimits l).1 < READBUFSIZE := by
  have htag : connectLimits.tag = 4095 := rfl
  have hbuf : BUFSIZE = 512 := rfl
  have hsize : READBUFSIZE = 8703 := rfl
  by_cases h : l.head? = some (ch '@')
  · rcases tagged_cases h with ht | ⟨t, rest, rfl, hhead, ht⟩
    · rw [place_tags h ht]
      omega
    · rw [place_body hhead ht]
      split_ifs <;> omega
  · rw [place_untagged h]
    omega

/-- **A server reaches the end of the buffer with a full line only.** -/
lemma place_server_iff (l) : READBUFSIZE ≤ (place serverLimits l).1 ↔ FullLine l := by
  have htag : serverLimits.tag = 8191 := rfl
  have hspace : serverLimits.space = 8191 := rfl
  have hbuf : BUFSIZE = 512 := rfl
  have hsize : READBUFSIZE = 8703 := rfl
  have htags : TAGSLEN = 8191 := rfl
  constructor
  · intro hfull
    by_cases h : l.head? = some (ch '@')
    · rcases tagged_cases h with ht | ⟨t, rest, rfl, hhead, ht⟩
      · rw [place_tags h ht] at hfull
        omega
      rw [place_body hhead ht] at hfull
      split_ifs at hfull with hlt
      · exact ⟨t, rest, rfl, hhead, ht, by omega, by omega⟩
      · omega
    · rw [place_untagged h] at hfull
      omega
  · rintro ⟨t, body, rfl, hhead, ht, hlen, hbody⟩
    rw [place_body hhead ht, if_pos (by omega)]
    omega

/-! ### One byte -/

def inLine (c : UInt8) : Bool := !isEol c

def grow (l : List UInt8) (c : UInt8) : List UInt8 := if inLine c then l ++ [c] else []

/-- The loop goes on with the line `l`. -/
def Next.At {σ : Type*} (lim : Limits) (l : List UInt8) : Next σ → Prop
  | .go s => s.At lim l
  | .promoted s => s.At lim l
  | .closed _ => True

variable {σ : Type*} {lim : Limits} {parse : σ → Mem → ℕ → σ × Mem × After} {promote : Bool}
  {l : List UInt8} {s : Scan σ}

lemma step_none (h : s.At lim l) (hfull : READBUFSIZE ≤ (place lim l).1) (c) :
    step lim parse promote s c = none := by
  rw [step, store, if_neg (by rw [h.endp]; omega)]
  rfl

lemma hand_at (s) : (hand parse promote s).At lim [] := by
  rcases hand_cases parse promote s with ⟨ses, hs⟩ | ⟨buf, ses, hs | hs⟩ <;> rw [hs]
  · trivial
  all_goals exact Scan.at_nil buf ses

/-- **One byte takes the position of a line to the position of the line with
it**, as long as there is room in the buffer. -/
theorem step_at (parse promote) (h : s.At lim l) (hlt : (place lim l).1 < READBUFSIZE) (c) :
    ∃ r, step lim parse promote s c = some r ∧ r.At lim (grow l c) := by
  have hend : s.endp < READBUFSIZE := h.endp ▸ hlt
  have hbuf : store s.buf s.endp c = some (update s.buf s.endp c) := if_pos hend
  rw [step, hbuf, bind_some, grow, inLine]
  cases heol : isEol c with
  | true =>
    by_cases hz : s.endp = 0
    · refine ⟨_, by rw [if_pos rfl, if_pos hz], ?_⟩
      obtain rfl := h.endp_eq_zero.mp hz
      exact ⟨h.place, by simp⟩
    · refine ⟨_, by rw [if_pos rfl, if_neg hz, store, if_pos hend, map_some], ?_⟩
      exact hand_at _
  | false =>
    refine ⟨_, if_neg Bool.false_ne_true, ?_⟩
    have hhead := h.head hbuf
    have hplace := advance_place lim hhead
    rw [← h.place] at hplace
    exact ⟨hplace, fun a ha => some.inj (hhead.symm.trans ha)⟩

lemma step_leaves {c r} (hr : step lim parse promote s c = some r) :
    ((isEol c → s.endp = 0) ∧ ∃ s', r = .go s') ∨
      (isEol c ∧ s.endp ≠ 0 ∧ ∃ buf, r = hand parse promote { s with buf := buf }) := by
  obtain ⟨buf, -, hr⟩ := bind_eq_some_iff.mp hr
  split_ifs at hr with heol hz
  · exact .inl ⟨fun _ => hz, _, (some.inj hr).symm⟩
  · obtain ⟨buf', -, rfl⟩ := map_eq_some_iff.mp hr
    exact .inr ⟨heol, hz, buf', rfl⟩
  · exact .inl ⟨fun h => absurd h heol, _, (some.inj hr).symm⟩

/-! ### Runs -/

variable (stream : List UInt8)

def unfinished : List UInt8 := stream.rtakeWhile inLine

lemma unfinished_eq_foldl : stream.foldl grow [] = unfinished stream := by
  induction stream using List.reverseRecOn with
  | nil => rfl
  | append_singleton stream c ih =>
    rw [foldl_concat, ih, unfinished, unfinished, rtakeWhile_concat, grow]

/-- A byte stream of a server with a byte that is stored behind the end of the
buffer: it follows a full line. -/
def Overrun : Prop :=
  ∃ lead c rest, stream = lead ++ c :: rest ∧ FullLine (unfinished lead)

/-- The same for a connection that begins as one to a server (`server` is
false): there, a line that can make it a server comes before. -/
def OverrunFrom (server : Bool) (stream : List UInt8) : Prop :=
  if server then Overrun stream
  else ∃ lead e later, stream = lead ++ e :: later ∧ isEol e ∧ unfinished lead ≠ [] ∧ Overrun later

/-- The bytes that are still to come overrun the buffer, with `l` the unfinished
line. -/
def overruns : List UInt8 → List UInt8 → Prop
  | _, [] => False
  | l, c :: src => FullLine l ∨ overruns (grow l c) src

def connectOverruns : List UInt8 → List UInt8 → Prop
  | _, [] => False
  | l, c :: src => (isEol c ∧ l ≠ [] ∧ overruns [] src) ∨ connectOverruns (grow l c) src

lemma overruns_iff (l src) :
    overruns l src ↔ ∃ lead c rest, src = lead ++ c :: rest ∧ FullLine (lead.foldl grow l) := by
  induction src generalizing l with
  | nil => simp [overruns]
  | cons c src ih =>
    rw [overruns, ih]
    constructor
    · rintro (hfull | ⟨lead, c', rest, rfl, hfull⟩)
      · exact ⟨[], c, src, rfl, hfull⟩
      · exact ⟨c :: lead, c', rest, rfl, hfull⟩
    rintro ⟨lead, c', rest, heq, hfull⟩
    cases lead with
    | nil => exact .inl hfull
    | cons a lead =>
      obtain ⟨rfl, rfl⟩ := List.cons.inj heq
      exact .inr ⟨lead, c', rest, rfl, hfull⟩

lemma overruns_nil_iff (src) : overruns [] src ↔ Overrun src := by
  simp only [overruns_iff, unfinished_eq_foldl, Overrun]

lemma connectOverruns_iff (l src) :
    connectOverruns l src ↔ ∃ lead e later, src = lead ++ e :: later ∧ isEol e ∧
      lead.foldl grow l ≠ [] ∧ Overrun later := by
  induction src generalizing l with
  | nil => simp [connectOverruns]
  | cons c src ih =>
    rw [connectOverruns, ih, overruns_nil_iff]
    constructor
    · rintro (⟨he, hl, hover⟩ | ⟨lead, e, later, rfl, he, hl, hover⟩)
      · exact ⟨[], c, src, rfl, he, hl, hover⟩
      · exact ⟨c :: lead, e, later, rfl, he, hl, hover⟩
    rintro ⟨lead, e, later, heq, he, hl, hover⟩
    cases lead with
    | nil =>
      obtain ⟨rfl, rfl⟩ := List.cons.inj heq
      exact .inl ⟨he, hl, hover⟩
    | cons a lead =>
      obtain ⟨rfl, rfl⟩ := List.cons.inj heq
      exact .inr ⟨lead, e, later, rfl, he, hl, hover⟩

variable {src : List UInt8}

lemma overruns_of_connectOverruns {l} (k : List UInt8)
    (h : connectOverruns l src) : overruns k src := by
  induction src generalizing k l with
  | nil => exact h
  | cons c src ih =>
    right
    rcases h with ⟨he, -, hover⟩ | h
    · rwa [grow, inLine, he]
    · exact ih _ h

/-- **A stream without a full line is stored inside the buffer**, whatever the
parser does. -/
lemma serverLoop_isSome (p) (h : s.At serverLimits l)
    (hno : ¬ overruns l src) : (serverLoop p src s).isSome := by
  induction src generalizing l s with
  | nil => rfl
  | cons c src ih =>
    rw [overruns, not_or] at hno
    have hlt : (place serverLimits l).1 < READBUFSIZE :=
      not_le.mp fun hle => hno.1 ((place_server_iff l).mp hle)
    obtain ⟨r, hr, hat⟩ := step_at p.parseServer false h hlt c
    rw [serverLoop, hr]
    cases r with
    | go s' | promoted s' => exact ih hat hno.2
    | closed ses => rfl

lemma connectLoop_isSome (p) (h : s.At connectLimits l)
    (hno : ¬ connectOverruns l src) : (connectLoop p src s).isSome := by
  induction src generalizing l s with
  | nil => rfl
  | cons c src ih =>
    rw [connectOverruns, not_or] at hno
    obtain ⟨r, hr, hat⟩ :=
      step_at p.parseClient true h (place_connect_lt l) c
    rw [connectLoop, hr]
    cases r with
    | go s' => exact ih hat hno.2
    | promoted s' =>
      rcases step_leaves hr with ⟨-, s'', hs⟩ | ⟨heol, hend, -⟩
      · cases hs
      · have hl : l ≠ [] := fun hl => hend (h.endp_eq_zero.mpr hl)
        exact serverLoop_isSome p (Scan.at_nil _ _) fun hover => hno.1 ⟨heol, hl, hover⟩
    | closed ses => rfl

/-- Parsers that keep the connection and make it a server with the first line. -/
def acceptAll : Parsers Unit where
  parseServer st buf _ := (st, buf, ⟨false, false, true⟩)
  parseClient st buf _ := (st, buf, ⟨false, false, true⟩)

lemma serverLoop_acceptAll {s} (h : s.At serverLimits l)
    (hover : overruns l src) : serverLoop acceptAll src s = none := by
  induction src generalizing l s with
  | nil => exact absurd hover not_false
  | cons c src ih =>
    rw [serverLoop]
    by_cases hfull : FullLine l
    · rw [step_none h ((place_server_iff l).mpr hfull)]
    have hlt := not_le.mp fun hle => hfull ((place_server_iff l).mp hle)
    obtain ⟨r, hr, hat⟩ := step_at acceptAll.parseServer false h hlt c
    have hnext := hover.resolve_left hfull
    rw [hr]
    rcases step_leaves hr with ⟨-, s', rfl⟩ | ⟨-, -, buf, rfl⟩
    · exact ih hat hnext
    · exact ih hat hnext

lemma connectLoop_acceptAll {s} (h : s.At connectLimits l)
    (hover : connectOverruns l src) : connectLoop acceptAll src s = none := by
  induction src generalizing l s with
  | nil => exact absurd hover not_false
  | cons c src ih =>
    obtain ⟨r, hr, hat⟩ :=
      step_at acceptAll.parseClient true h (place_connect_lt l) c
    rw [connectLoop, hr]
    rcases step_leaves hr with ⟨hgo, s', rfl⟩ | ⟨-, -, buf, rfl⟩
    · refine ih hat (hover.resolve_left ?_)
      rintro ⟨heol, hl, -⟩
      exact hl (h.endp_eq_zero.mp (hgo heol))
    refine serverLoop_acceptAll (Scan.at_nil _ _) ?_
    rcases hover with ⟨-, -, hover⟩ | hover
    · exact hover
    · exact overruns_of_connectOverruns [] hover

def start (server : Bool) (buffer : Mem) (st : σ) : Link σ := .up server ⟨buffer, 0⟩ ⟨st, []⟩

/-- **Where the bytes of a stream are stored.** However it is cut into reads, every byte is stored
below `READBUFSIZE`, exactly if the stream has no line from a server with a tag section of `TAGSLEN`
bytes and a body of `BUFSIZE` bytes or more. -/
theorem stores_below_iff (server : Bool) (buffer : Mem) (chunks : List (List UInt8)) :
    (∀ (σ : Type) (p : Parsers σ) (st : σ), (readAll p chunks (start server buffer st)).isSome) ↔
      ¬ OverrunFrom server chunks.flatten := by
  simp only [readAll_eq]
  cases server with
  | true =>
    rw [OverrunFrom, ← overruns_nil_iff]
    constructor
    · intro hall hover
      have hnone := serverLoop_acceptAll (Scan.at_nil buffer ⟨(), []⟩) hover
      have hsome := hall Unit acceptAll ()
      rw [show readPacket acceptAll chunks.flatten (start true buffer ()) = none
        from hnone] at hsome
      exact absurd hsome Bool.false_ne_true
    · intro hno σ p st
      exact serverLoop_isSome p (Scan.at_nil buffer ⟨st, []⟩) hno
  | false =>
    rw [OverrunFrom, if_neg Bool.false_ne_true]
    simp only [← unfinished_eq_foldl, ← connectOverruns_iff]
    constructor
    · intro hall hover
      have hnone := connectLoop_acceptAll (Scan.at_nil buffer ⟨(), []⟩) hover
      have hsome := hall Unit acceptAll ()
      rw [show readPacket acceptAll chunks.flatten (start false buffer ()) = none
        from hnone] at hsome
      exact absurd hsome Bool.false_ne_true
    · intro hno σ p st
      exact connectLoop_isSome p (Scan.at_nil buffer ⟨st, []⟩) hno

/-- The longest line `TAGSLEN` and `BUFSIZE` allow: an `@`, tag data, the space
that ends the tag section as its byte `TAGSLEN`, and a body of `BUFSIZE` bytes. -/
def longestLine : List UInt8 :=
  (ch '@' :: List.replicate 8189 (ch 'a')) ++ ch ' ' :: List.replicate 512 (ch 'x')

lemma fullLine_longestLine : FullLine longestLine := by
  refine ⟨_, _, rfl, rfl, ?_, ?_, ?_⟩
  · rw [mem_cons, mem_replicate]
    decide
  · rw [length_cons, length_replicate]
    rfl
  · rw [length_replicate]
    exact le_refl _

lemma unfinished_longestLine : unfinished longestLine = longestLine := by
  rw [unfinished, rtakeWhile_eq_self_iff, longestLine]
  intro c hc
  simp only [mem_append, mem_cons, mem_replicate] at hc
  rcases hc with (rfl | ⟨-, rfl⟩) | rfl | ⟨-, rfl⟩ <;> decide +kernel

/-- A server that sends the longest line writes behind the line buffer with the
byte that ends it. -/
theorem longestLine_overruns :
    readAll acceptAll [longestLine ++ [0x0a]] (start true (fun _ => 0) ()) = none := by
  rw [readAll_eq, flatten_singleton]
  refine serverLoop_acceptAll (Scan.at_nil _ ⟨(), []⟩) ((overruns_nil_iff _).mpr ?_)
  refine ⟨longestLine, 0x0a, [], rfl, ?_⟩
  rw [unfinished_longestLine]
  exact fullLine_longestLine

end Ircu.Packet
