import Ircu.Chattr

/-!
Input from servers: `server_dopacket` and `connect_dopacket` of `packet.c`.

Both functions copy what was read into the line buffer of the connection, one
byte at a time, and call the parser at each line end. Between two calls a
connection keeps only its line buffer and the number of bytes in it; where the
tag section of the line ended is looked up again in the buffer (`restoreBody`).

The line buffer is memory from `con_buffer` on, and storing at an index that is
not below `READBUFSIZE` has no result. What the parser does is a parameter: it
gets the whole buffer, may write to it, and tells what the caller tests
afterwards.
-/

namespace Ircu.Packet

/-- Length of a protocol message with its line end. -/
def BUFSIZE : ℕ := 512

/-- Length of a tag section with its `@` and the space behind it. -/
def TAGSLEN : ℕ := 8191

def TAGDATA_CLIENT_MAX : ℕ := 4094

def READBUFSIZE : ℕ := TAGSLEN + BUFSIZE

/-- Memory from the first byte of `con_buffer` on. -/
abbrev Mem := ℕ → UInt8

def store (buf : Mem) (i : ℕ) (c : UInt8) : Option Mem :=
  if i < READBUFSIZE then some (Function.update buf i c) else none

/-- The bytes in front of the index `n`. -/
def held (buf : Mem) (n : ℕ) : List UInt8 := (List.range n).map buf

/-! ### The parser and the connection -/

/-- What the caller of the parser looks at: `CPTR_KILLED` was returned, the
socket is dead, the connection has become a server. -/
structure After where
  killed : Bool
  dead : Bool
  isServer : Bool
deriving DecidableEq

/-- The parsers, with what they keep and do left open: a call with the line
buffer and the index of the terminator changes their state and the buffer. -/
structure Parsers (σ : Type*) where
  parseServer : σ → Mem → ℕ → σ × Mem × After
  parseClient : σ → Mem → ℕ → σ × Mem × After

/-- The state of the parsers, and every line they have been handed so far. -/
structure Session (σ : Type*) where
  st : σ
  handed : List (List UInt8)

structure Conn where
  buffer : Mem
  count : ℕ

/-- A connection that is being read, as a server or before, or that is gone. -/
inductive Link (σ : Type*) where
  | up (server : Bool) (conn : Conn) (ses : Session σ)
  | down (ses : Session σ)

/-! ### One byte -/

/-- The limits on a tag section: a byte of it, or the space that ends it, is
kept below these indices. -/
structure Limits where
  tag : ℕ
  space : ℕ
  pos : 0 < tag
  le : tag ≤ space

def serverLimits : Limits := ⟨TAGSLEN, TAGSLEN, by decide, le_refl _⟩

def connectLimits : Limits :=
  ⟨1 + TAGDATA_CLIENT_MAX, 1 + TAGDATA_CLIENT_MAX + 1, by decide, by decide⟩

/-- The local variables of a call: `endp` and `body` are indices into the
buffer. -/
structure Scan (σ : Type*) where
  buf : Mem
  endp : ℕ
  body : Option ℕ
  ses : Session σ

/-- The loop that looks for the space behind the tags, from `p` on for `n`
bytes. -/
def spaceFrom (buf : Mem) : ℕ → ℕ → Option ℕ
  | _, 0 => none
  | p, n + 1 => if buf p = ch ' ' then some (p + 1) else spaceFrom buf (p + 1) n

def restoreBody (buf : Mem) (count : ℕ) : Option ℕ :=
  if 0 < count ∧ buf 0 = ch '@' then spaceFrom buf 0 count else none

/-- A byte `c` that does not end the line has been stored at `endp`: the new
`endp` and `body`, advanced if there is room for the byte. -/
def advance (lim : Limits) (first c : UInt8) (endp : ℕ) (body : Option ℕ) : ℕ × Option ℕ :=
  if first ≠ ch '@' then
    -- untagged: the limit of the classic protocol on the whole line
    (if endp < BUFSIZE then endp + 1 else endp, body)
  else
    match body with
    | none =>
      if c = ch ' ' then
        if endp < lim.space then (endp + 1, some (endp + 1)) else (endp, none)
      else (if endp < lim.tag then endp + 1 else endp, none)
    | some b => (if endp < b + BUFSIZE then endp + 1 else endp, some b)

section Advance

variable (lim : Limits) {first : UInt8} (c : UInt8) (endp : ℕ)

lemma advance_untagged (h : first ≠ ch '@') (body) :
    advance lim first c endp body = (if endp < BUFSIZE then endp + 1 else endp, body) :=
  if_pos h

lemma advance_tags (h : first = ch '@') : advance lim first c endp none = if c = ch ' ' then
        if endp < lim.space then (endp + 1, some (endp + 1)) else (endp, none)
      else (if endp < lim.tag then endp + 1 else endp, none) :=
  if_neg (not_not.mpr h)

lemma advance_body (h : first = ch '@') (b : ℕ) : advance lim first c endp (some b) =
      (if endp < b + BUFSIZE then endp + 1 else endp, some b) :=
  if_neg (not_not.mpr h)

end Advance

/-- How the loop goes on after a byte: with the next one, not at all because the
connection is gone, or in `server_dopacket`. -/
inductive Next (σ : Type*) where
  | go (s : Scan σ)
  | closed (ses : Session σ)
  | promoted (s : Scan σ)

variable {σ : Type*} (parse : σ → Mem → ℕ → σ × Mem × After)

/-- The line in front of `endp` is handed to the parser. -/
def hand (promote : Bool) (s : Scan σ) : Next σ :=
  let r := parse s.ses.st s.buf s.endp
  let ses : Session σ := ⟨r.1, s.ses.handed ++ [held s.buf s.endp]⟩
  if r.2.2.killed || r.2.2.dead then .closed ses
  else if promote && r.2.2.isServer then .promoted ⟨r.2.1, 0, none, ses⟩
  else .go ⟨r.2.1, 0, none, ses⟩

/-- The body of the loop over the bytes of a read. -/
def step (lim : Limits) (parse : σ → Mem → ℕ → σ × Mem × After) (promote : Bool) (s : Scan σ)
    (c : UInt8) : Option (Next σ) :=
  (store s.buf s.endp c).bind fun buf =>
    if isEol c then
      -- skip extra line ends
      if s.endp = 0 then some (.go { s with buf := buf })
      else (store buf s.endp 0).map fun buf => hand parse promote { s with buf := buf }
    else
      let r := advance lim (buf 0) c s.endp s.body
      some (.go { s with buf := buf, endp := r.1, body := r.2 })

/-! ### A read -/

def serverLoop (p : Parsers σ) : List UInt8 → Scan σ → Option (Link σ)
  | [], s => some (.up true ⟨s.buf, s.endp⟩ s.ses)
  | c :: src, s =>
    match step serverLimits p.parseServer false s c with
    | none => none
    | some (.go s') => serverLoop p src s'
    | some (.promoted s') => serverLoop p src s'
    | some (.closed ses) => some (.down ses)

def serverDopacket (p : Parsers σ) (conn : Conn) (ses : Session σ) (buffer : List UInt8) :
    Option (Link σ) :=
  serverLoop p buffer ⟨conn.buffer, conn.count, restoreBody conn.buffer conn.count, ses⟩

/-- The loop of `connect_dopacket`. Once the connection is a server the rest of
the bytes goes to `server_dopacket`. -/
def connectLoop (p : Parsers σ) : List UInt8 → Scan σ → Option (Link σ)
  | [], s => some (.up false ⟨s.buf, s.endp⟩ s.ses)
  | c :: src, s =>
    match step connectLimits p.parseClient true s c with
    | none => none
    | some (.go s') => connectLoop p src s'
    | some (.promoted s') => serverDopacket p ⟨s'.buf, 0⟩ s'.ses src
    | some (.closed ses) => some (.down ses)

variable (p : Parsers σ)

def connectDopacket (conn : Conn) (ses : Session σ) (buffer : List UInt8) :
    Option (Link σ) :=
  connectLoop p buffer ⟨conn.buffer, conn.count, restoreBody conn.buffer conn.count, ses⟩

/-- The part of `read_packet` for servers and for connections to servers. -/
def readPacket (buffer : List UInt8) : Link σ → Option (Link σ)
  | .up true conn ses => serverDopacket p conn ses buffer
  | .up false conn ses => connectDopacket p conn ses buffer
  | .down ses => some (.down ses)

def readAll (chunks : List (List UInt8)) (l : Link σ) : Option (Link σ) :=
  chunks.foldlM (fun l buffer => readPacket p buffer l) l

/-! ### The body pointer is in the buffer -/

variable {buf : Mem} {s : Scan σ}

lemma spaceFrom_congr {buf' p n} (h : ∀ i, p ≤ i → i < p + n → buf i = buf' i) :
    spaceFrom buf p n = spaceFrom buf' p n := by
  induction n generalizing p with
  | zero => rfl
  | succ n ih =>
    rw [spaceFrom, spaceFrom, h p (le_refl p) (by omega),
      ih fun i hi hn => h i (by omega) (by omega)]

lemma spaceFrom_succ (buf) (p n : ℕ) : spaceFrom buf p (n + 1) =
      (spaceFrom buf p n <|> if buf (p + n) = ch ' ' then some (p + n + 1) else none) := by
  induction n generalizing p with
  | zero => simp [spaceFrom]
  | succ n ih =>
    rw [spaceFrom, ih (p + 1), spaceFrom, show p + 1 + n = p + (n + 1) by omega]
    split_ifs <;> simp_all

lemma restoreBody_zero (buf) : restoreBody buf 0 = none := by
  simp [restoreBody]

open Function List

lemma restoreBody_update {n} (c) : restoreBody (update buf n c) n = restoreBody buf n := by
  have hfree : ∀ i, i < n → update buf n c i = buf i := fun i hi =>
    update_of_ne (by omega) _ _
  rcases Nat.eq_zero_or_pos n with rfl | hn
  · rw [restoreBody_zero, restoreBody_zero]
  · rw [restoreBody, restoreBody, hfree 0 hn, spaceFrom_congr fun i _ hi => hfree i (by omega)]

/-- The start of the body in the middle of a call is the one a new call would
restore from the buffer. -/
def Scan.Exact (s : Scan σ) : Prop := s.body = restoreBody s.buf s.endp

lemma restoreBody_succ {n : ℕ} (h : buf 0 = ch '@') : restoreBody buf (n + 1) =
      (restoreBody buf n <|> if buf n = ch ' ' then some (n + 1) else none) := by
  rcases Nat.eq_zero_or_pos n with rfl | hn
  · simp [restoreBody, spaceFrom, h]
  · rw [restoreBody, restoreBody, if_pos ⟨by omega, h⟩, if_pos ⟨hn, h⟩, spaceFrom_succ,
      Nat.zero_add]

lemma advance_exact (lim buf endp) :
    (advance lim (buf 0) (buf endp) endp (restoreBody buf endp)).2 =
      restoreBody buf (advance lim (buf 0) (buf endp) endp (restoreBody buf endp)).1 := by
  by_cases htag : buf 0 = ch '@'
  · have hsucc := restoreBody_succ (n := endp) htag
    cases hb : restoreBody buf endp with
    | none =>
      rw [hb] at hsucc
      rw [advance_tags lim _ _ htag]
      split_ifs at hsucc ⊢
      · exact hsucc.symm
      · exact hb.symm
      · exact hsucc.symm
      · exact hb.symm
    | some b =>
      rw [hb] at hsucc
      rw [advance_body lim _ _ htag]
      split_ifs
      · exact hsucc.symm
      · exact hb.symm
  · have hnone : ∀ n, restoreBody buf n = none := fun n => by
      rw [restoreBody, if_neg fun hn => htag hn.2]
    rw [hnone, hnone, advance_untagged lim _ _ htag]

open Option

lemma Scan.Exact.store (h : s.Exact) {c}
    (hs : store s.buf s.endp c = some buf) : ({ s with buf := buf } : Scan σ).Exact := by
  rw [Packet.store] at hs
  split_ifs at hs
  obtain rfl := some.inj hs
  exact h.trans (restoreBody_update c).symm

lemma store_self {buf' i c} (h : store buf i c = some buf') : buf' i = c := by
  rw [store] at h
  split_ifs at h
  obtain rfl := some.inj h
  exact update_self i c buf

lemma hand_cases (promote s) : (∃ ses, hand parse promote s = .closed ses) ∨
      ∃ buf ses, hand parse promote s = .go ⟨buf, 0, none, ses⟩ ∨
        hand parse promote s = .promoted ⟨buf, 0, none, ses⟩ := by
  rw [hand]
  split_ifs
  · exact .inl ⟨_, rfl⟩
  · exact .inr ⟨_, _, .inr rfl⟩
  · exact .inr ⟨_, _, .inl rfl⟩

/-- A state the loop can go on with after a byte. -/
def Next.Exact : Next σ → Prop
  | .go s => s.Exact
  | .promoted s => s.Exact
  | .closed _ => True

/-- **One byte keeps the start of the body what a new call would restore.** -/
theorem step_exact {lim parse promote s} (h : s.Exact) {c} {r : Next σ}
    (hr : step lim parse promote s c = some r) :
    r.Exact := by
  obtain ⟨buf, hbuf, hr⟩ := bind_eq_some_iff.mp hr
  have hfirst := h.store hbuf
  split_ifs at hr with heol hzero
  · obtain rfl := some.inj hr
    exact hfirst
  · obtain ⟨buf', hbuf', rfl⟩ := map_eq_some_iff.mp hr
    rcases hand_cases parse promote { s with buf := buf' } with ⟨ses, hs⟩ | ⟨b, ses, hs | hs⟩
    · rw [hs]
      trivial
    all_goals
      rw [hs]
      exact (restoreBody_zero b).symm
  · obtain rfl := some.inj hr
    have hadv := advance_exact lim buf s.endp
    rw [store_self hbuf, ← show s.body = restoreBody buf s.endp from hfirst] at hadv
    exact hadv

/-! ### Reading in chunks -/

variable (p : Parsers σ) (a b : List UInt8)

lemma serverLoop_append (h : s.Exact) :
    serverLoop p (a ++ b) s = (serverLoop p a s).bind (readPacket p b) := by
  induction a generalizing s with
  | nil =>
    obtain ⟨buf, endp, body, ses⟩ := s
    obtain rfl : body = restoreBody buf endp := h
    rfl
  | cons c a ih =>
    rw [cons_append, serverLoop, serverLoop]
    cases hstep : step serverLimits p.parseServer false s c with
    | none => rfl
    | some r =>
      have hr := step_exact h hstep
      cases r with
      | go s' | promoted s' => exact ih hr
      | closed ses => rfl

lemma connectLoop_append (h : s.Exact) :
    connectLoop p (a ++ b) s = (connectLoop p a s).bind (readPacket p b) := by
  induction a generalizing s with
  | nil =>
    obtain ⟨buf, endp, body, ses⟩ := s
    obtain rfl : body = restoreBody buf endp := h
    rfl
  | cons c a ih =>
    rw [cons_append, connectLoop, connectLoop]
    cases hstep : step connectLimits p.parseClient true s c with
    | none => rfl
    | some r =>
      have hr := step_exact h hstep
      cases r with
      | go s' => exact ih hr
      | promoted s' => exact serverLoop_append p a b rfl
      | closed ses => rfl

lemma readPacket_append (l) :
    readPacket p (a ++ b) l = (readPacket p a l).bind (readPacket p b) := by
  match l with
  | .up true conn ses => exact serverLoop_append p a b rfl
  | .up false conn ses => exact connectLoop_append p a b rfl
  | .down ses => rfl

lemma readPacket_nil (l) : readPacket p [] l = some l := by
  match l with
  | .up true conn ses => rfl
  | .up false conn ses => rfl
  | .down ses => rfl

lemma readAll_eq (chunks l) : readAll p chunks l = readPacket p chunks.flatten l := by
  induction chunks generalizing l with
  | nil => exact (readPacket_nil p l).symm
  | cons a chunks ih =>
    rw [flatten_cons, readPacket_append, readAll, foldlM_cons]
    exact bind_congr fun l' _ => ih l'

/-- **Cutting the stream of a server does not matter**: chunks fed together or one after the other
leave the same buffer, the same lines and the same state of the parser. -/
theorem serverDopacket_append (conn : Conn) (ses : Session σ) :
    (∀ a b : List UInt8, serverDopacket p conn ses (a ++ b) =
      (serverDopacket p conn ses a).bind (readPacket p b)) ∧
    ∀ chunks : List (List UInt8),
      readAll p chunks (.up true conn ses) = serverDopacket p conn ses chunks.flatten :=
  ⟨fun a b => readPacket_append p a b (.up true conn ses),
    fun chunks => readAll_eq p chunks (.up true conn ses)⟩

end Ircu.Packet
