import Ircu.Dbuf.Refine
import Ircu.Websocket.Frame

/-!
Reading from a WebSocket client: `read_packet` after the handshake.

What has been read is moved through the buffer of the connection in portions, and the
frames in the buffer are parsed; what is left of an oversized frame is dropped from later
reads. Behind all of that, once for each read, the receive queue is compared with the
limits, and its lines are handed on.

* `wsRead_eq_feed`: the loops decode the stream, wherever it has been cut.
* `runReads_eq_scan`: as long as neither the limits on the receive queue nor a line close
  the connection, **the reads put on the queue what the stream says**.
-/

namespace Ircu.Websocket

open Dbuf.Queue (floodLength)
open Packet (READBUFSIZE)
open Decoder List Parser

/-! ### The frames of one read -/

/-- What a connection keeps between two reads: `con_ws_handshake` and `con_ws_skip`. -/
structure Conn where
  buf : List UInt8
  skip : ℕ
deriving DecidableEq

/-- The buffer behind its frames: what is left in it, the bytes of an oversized frame that
have not arrived yet, and what the frames did. -/
structure Frames where
  left : List UInt8
  skip : ℕ
  out : List Effect
  why : Option Why
deriving DecidableEq

def frames : ℕ → List UInt8 → Frames
  | 0, buf => ⟨buf, 0, [], none⟩
  | fuel + 1, buf =>
    if buf = [] then ⟨[], 0, [], none⟩
    else
      let r := parseFrame buf
      if 0 < r.1 then
        if r.1.toNat ≤ buf.length then
          let f := frames fuel (buf.drop r.1.toNat)
          { f with out := r.2 ++ f.out }
        else ⟨[], r.1.toNat - buf.length, r.2, none⟩
      else if r.1 = 0 then ⟨buf, 0, r.2, none⟩
      else ⟨buf, 0, r.2, some (why r.1)⟩

inductive Exit where
  | frame (why : Why)
  /-- A frame that does not fit in the buffer: `Excess Flood`. -/
  | oversize
  /-- More in the receive queue than the limits allow: `Excess Flood`. -/
  | flood
  /-- A line has closed the connection: `CPTR_KILLED`. -/
  | killed
deriving DecidableEq

/-- What becomes of the connection when a frame closes it or all input has been fed. A full
buffer without a frame then means one that is larger than the buffer can hold. -/
def Frames.finish (f : Frames) : List Effect × Except Exit Conn :=
  (f.out,
    match f.why with
    | some why => .error (.frame why)
    | none =>
      if f.skip = 0 ∧ WEBSOCKET_MAX_HEADER ≤ f.left.length then .error .oversize
      else .ok ⟨f.left, f.skip⟩)

/-- The outer loop: `input` are the bytes that have been read and not been used. -/
def wsLoop : ℕ → Conn → List UInt8 → List Effect × Except Exit Conn
  | 0, con, _ => ([], .ok con)
  | fuel + 1, con, input =>
    if input.length < con.skip then ([], .ok { con with skip := con.skip - input.length })
    else
      let rest := input.drop con.skip
      let take := min rest.length (WEBSOCKET_MAX_HEADER - con.buf.length)
      let buf := con.buf ++ rest.take take
      let f := frames buf.length buf
      if f.why ≠ none ∨ rest.length ≤ take then f.finish
      else if take = 0 ∧ f.left.length = buf.length ∧ f.skip = 0 then (f.out, .error .oversize)
      else
        let r := wsLoop fuel ⟨f.left, f.skip⟩ (rest.drop take)
        (f.out ++ r.1, r.2)

def wsRead (con : Conn) (data : List UInt8) : List Effect × Except Exit Conn :=
  wsLoop (2 * data.length + con.buf.length + 1) con data

/-! ### The loops decode the stream -/

/-- What the inner loop leaves, given what decoding the buffer gives. -/
def Agrees (f : Frames) (buf : List UInt8) (r : Result UInt8 Effect Stop) : Prop :=
  match r.rest with
  | .wait skip left => f = ⟨left, skip, r.out, none⟩
  | .stop (.frame why) => f.out = r.out ∧ f.why = some why
  | .stop .full => f = ⟨buf, 0, [], none⟩ ∧ r.out = [] ∧ buf.length = WEBSOCKET_MAX_HEADER
  | .stop .wrapped => True

lemma exists_fuel {fuel} {s : List UInt8} (hs : s ≠ []) (h : s.length ≤ fuel) : ∃ k, fuel = k + 1 :=
  Nat.exists_eq_succ_of_ne_zero fun h0 => hs (length_eq_zero_iff.1 (by omega))

lemma frames_agrees {fuel buf} (hfuel : buf.length ≤ fuel)
    (hbuf : buf.length ≤ WEBSOCKET_MAX_HEADER) :
    Agrees (frames fuel buf) buf (frameParser.scan buf) := by
  have htake : ∀ s : List UInt8, s.length ≤ WEBSOCKET_MAX_HEADER →
      frameParser.parse (s.take frameParser.limit) = verdict (parseFrame s) := fun s hs =>
    congrArg frameParser.parse (take_of_length_le hs)
  induction buf using scan_induction frameParser generalizing fuel with
  | nil => cases fuel <;> exact rfl
  | more s hs hv =>
    obtain ⟨k, rfl⟩ := exists_fuel hs hfuel
    obtain ⟨h0, hout⟩ := verdict_more ((htake s hbuf) ▸ hv)
    have hf : frames (k + 1) s = ⟨s, 0, [], none⟩ := by
      simp [frames, hs, h0, hout]
    rw [scan_more hs hv, hf]
    by_cases hfull : frameParser.limit ≤ s.length
    · rw [if_pos hfull]
      exact ⟨rfl, rfl, le_antisymm hbuf hfull⟩
    · rw [if_neg hfull]
      rfl
  | stop s why out hs hv =>
    obtain ⟨k, rfl⟩ := exists_fuel hs hfuel
    obtain ⟨hout, rfl | ⟨hneg, rfl⟩⟩ := verdict_stop ((htake s hbuf) ▸ hv)
    · rw [scan_stop hs hv]
      trivial
    rw [scan_stop hs hv]
    have h1 : ¬0 < (parseFrame s).1 := by omega
    have h2 : (parseFrame s).1 ≠ 0 := by omega
    constructor <;> simp [frames, hs, h1, h2, hout]
  | used s n out hs hv hn ih =>
    obtain ⟨k, rfl⟩ := exists_fuel hs hfuel
    obtain ⟨hpos, hret, hout⟩ := verdict_used ((htake s hbuf) ▸ hv)
    have hf : frames (k + 1) s =
        { frames k (s.drop n) with out := out ++ (frames k (s.drop n)).out } := by
      simp [frames, hs, hpos, hret, hn, hout]
    have hlen : (s.drop n).length < s.length := by
      rw [length_drop]
      omega
    have hk : (s.drop n).length ≤ k := by omega
    have hih := ih hk (by omega)
    rw [scan_used hs hv hn, hf]
    unfold Agrees at hih ⊢
    simp only [Result.after]
    revert hih
    cases (frameParser.scan (s.drop n)).rest with
    | wait skip left =>
      intro hih
      simp [hih]
    | stop why =>
      cases why with
      | frame why =>
        rintro ⟨ho, hw⟩
        exact ⟨by simp [ho], hw⟩
      | full =>
        rintro ⟨-, -, hl⟩
        omega
      | wrapped => exact id
  | beyond s n out hs hv hn =>
    obtain ⟨k, rfl⟩ := exists_fuel hs hfuel
    obtain ⟨hpos, hret, hout⟩ := verdict_used ((htake s hbuf) ▸ hv)
    rw [scan_beyond hs hv hn]
    simp [Agrees, frames, hs, hpos, hret, hn, hout]

/-- What the outer loop returns, given what decoding gives. -/
def outcome (r : Result UInt8 Effect Stop) : List Effect × Except Exit Conn :=
  (r.out,
    match r.rest with
    | .wait skip left => .ok ⟨left, skip⟩
    | .stop (.frame why) => .error (.frame why)
    | .stop _ => .error .oversize)

open Frames

lemma finish_eq_scan {b} (hb : b.length ≤ WEBSOCKET_MAX_HEADER)
    (hwrap : (frameParser.scan b).rest ≠ .stop .wrapped) :
    (frames b.length b).finish = outcome (frameParser.scan b) := by
  have hag := frames_agrees le_rfl hb
  rcases hscan : frameParser.scan b with ⟨out, ⟨skip, left⟩ | ⟨why | _ | _⟩⟩
  · have hf : frames b.length b = ⟨left, skip, out, none⟩ := by
      rw [hscan] at hag
      exact hag
    have hleft : ¬(skip = 0 ∧ WEBSOCKET_MAX_HEADER ≤ left.length) := by
      rintro ⟨-, hle⟩
      rcases (scan_wait hscan).1 with rfl | hlt
      · exact absurd hle (by decide)
      · exact absurd hle (Nat.not_le.2 hlt)
    rw [hf]
    simp only [finish, if_neg hleft]
    rfl
  · rw [hscan] at hag
    rw [finish, hag.1, hag.2]
    rfl
  · rw [hscan] at hag
    obtain ⟨hf, hout, hl⟩ := hag
    rw [hf]
    simp only [finish, true_and, hl, le_refl, if_true]
    rw [← hout]
    rfl
  · exact absurd (by rw [hscan]) hwrap

/-- **The loops decode the stream**, if it has no frame whose length is 0 as an `int`. -/
lemma wsLoop_eq_feed {fuel skip buf input}
    (hfuel : 2 * input.length + buf.length < fuel) (hbuf : buf.length ≤ WEBSOCKET_MAX_HEADER)
    (hwrap : (frameParser.feed skip buf input).rest ≠ .stop .wrapped) :
    wsLoop fuel ⟨buf, skip⟩ input = outcome (frameParser.feed skip buf input) := by
  induction fuel generalizing skip buf input with
  | zero => omega
  | succ fuel ih =>
    by_cases hskip : input.length < skip
    · rw [wsLoop, if_pos hskip, feed, if_neg (by omega)]
      rfl
    have hfeed : frameParser.feed skip buf input = frameParser.scan (buf ++ input.drop skip) := by
      rw [feed, if_pos (by omega)]
    have hlen : (input.drop skip).length ≤ input.length := by
      rw [length_drop]
      omega
    rw [hfeed] at hwrap ⊢
    rw [wsLoop, if_neg hskip]
    generalize input.drop skip = rest at hwrap hlen ⊢
    by_cases hall : rest.length ≤ min rest.length (WEBSOCKET_MAX_HEADER - buf.length)
    · have htake : rest.take (min rest.length (WEBSOCKET_MAX_HEADER - buf.length)) = rest :=
        take_of_length_le hall
      simp only [htake, hall, or_true, if_true]
      refine finish_eq_scan ?_ hwrap
      rw [length_append]
      omega
    -- the buffer has been filled, and there is more
    have hmin : min rest.length (WEBSOCKET_MAX_HEADER - buf.length) =
        WEBSOCKET_MAX_HEADER - buf.length := by omega
    rw [hmin] at hall
    simp only [hmin]
    generalize htake : WEBSOCKET_MAX_HEADER - buf.length = take at hall ⊢
    have hb : (buf ++ rest.take take).length = WEBSOCKET_MAX_HEADER := by
      rw [length_append, length_take]
      omega
    have hrest : (rest.drop take).length + take = rest.length := by
      rw [length_drop]
      omega
    have hcut : buf ++ rest = (buf ++ rest.take take) ++ rest.drop take := by
      rw [append_assoc, take_append_drop]
    rw [hcut, scan_append] at hwrap ⊢
    simp only [hall, or_false]
    have hag := frames_agrees le_rfl hb.le
    generalize buf ++ rest.take take = b at hb hwrap hag ⊢
    rcases hscan : frameParser.scan b with ⟨out, ⟨skip', left⟩ | ⟨why | _ | _⟩⟩ <;>
      rw [hscan] at hag hwrap
    · have hf : frames b.length b = ⟨left, skip', out, none⟩ := hag
      have hleft : left.length < b.length := by
        rcases (scan_wait hscan).1 with rfl | hlt
        · rw [hb]
          decide
        · exact hb ▸ hlt
      have hmeasure : 2 * (rest.drop take).length + left.length < fuel := by omega
      have hnext := ih hmeasure (by omega) hwrap
      rw [hf]
      simp only [ne_eq, not_true_eq_false, if_false, hleft.ne, false_and, and_false, hnext]
      rfl
    · have hw : (frames b.length b).why ≠ none := by rw [hag.2]; simp
      rw [finish, hag.1, hag.2]
      rfl
    · obtain ⟨hf, rfl, -⟩ := hag
      rw [hf]
      simp only [ne_eq, not_true_eq_false, if_false]
      by_cases h0 : take = 0
      · rw [if_pos ⟨h0, trivial, trivial⟩]
        rfl
      have hfull : frameParser.feed 0 b (rest.drop take) = ⟨[], .stop .full⟩ := by
        rw [feed, scan_append, hscan]
        rfl
      have hmeasure : 2 * (rest.drop take).length + b.length < fuel := by omega
      have hgo : (frameParser.feed 0 b (rest.drop take)).rest ≠ .stop .wrapped := by
        rw [hfull]
        simp
      have hnext := ih hmeasure hb.le hgo
      rw [if_neg fun h => h0 h.1, hnext, hfull]
      rfl
    · exact absurd rfl hwrap

lemma wsRead_eq_feed {con data} (hbuf : con.buf.length ≤ WEBSOCKET_MAX_HEADER)
    (hwrap : (frameParser.feed con.skip con.buf data).rest ≠ .stop .wrapped) :
    wsRead con data = outcome (frameParser.feed con.skip con.buf data) :=
  wsLoop_eq_feed (by omega) hbuf hwrap

/-! ### The receive queue -/

def RecvqOverFlood (bodyLimit tagLimit : ℕ) (q : List UInt8) : Prop :=
  bodyLimit < floodLength q ∨ tagLimit ≠ 0 ∧ tagLimit < q.length - floodLength q

instance (bodyLimit tagLimit : ℕ) (q : List UInt8) :
    Decidable (RecvqOverFlood bodyLimit tagLimit q) :=
  inferInstanceAs (Decidable (_ ∨ _))

/-- The rest of the server: the limits, whether a client may go on, and what is done with a
line, which may close the connection, and with one that is too long. -/
structure Env (σ : Type*) where
  floodLimit : σ → ℕ
  tagLimit : σ → ℕ
  ready : σ → Bool
  dopacket : σ → List UInt8 → Option σ
  inputTooLong : σ → σ

/-- A connection, its receive queue, and the rest of the server. -/
structure Session (σ : Type*) where
  con : Conn
  recvQ : List UInt8
  st : σ

section

variable {σ : Type*} (env : Env σ)

/-- The lines of the receive queue are handed on, as long as the client may go on and there
is one. -/
def drain : ℕ → σ → List UInt8 → Option (σ × List UInt8)
  | 0, st, q => some (st, q)
  | fuel + 1, st, q =>
    if q = [] ∨ ¬env.ready st then some (st, q)
    else
      let r := Dbuf.Queue.getmsg READBUFSIZE q
      if r.1 = [] then
        if r.2.length < READBUFSIZE - 2 then some (st, r.2)
        else some (env.inputTooLong st, [])
      else
        match env.dopacket st r.1 with
        | none => none
        | some st => drain fuel st r.2

def queued (out : List Effect) : List UInt8 :=
  out.flatMap fun
    | .put bytes => bytes
    | _ => []

def readPacket (s : Session σ) (data : List UInt8) : List Effect × Except Exit (Session σ) :=
  let r := wsRead s.con data
  (r.1,
    match r.2 with
    | .error e => .error e
    | .ok con =>
      let q := s.recvQ ++ queued r.1
      if RecvqOverFlood (env.floodLimit s.st) (env.tagLimit s.st) q then .error .flood
      else
        match drain env (q.length + 1) s.st q with
        | none => .error .killed
        | some (st, q) => .ok ⟨con, q, st⟩)

def runReads : Session σ → List (List UInt8) → List Effect × Except Exit (Session σ)
  | s, [] => ([], .ok s)
  | s, data :: reads =>
    let r := readPacket env s data
    match r.2 with
    | .error e => (r.1, .error e)
    | .ok s =>
      let r' := runReads s reads
      (r.1 ++ r'.1, r'.2)

end

def exitOf {α : Type*} : Except Exit α → Option Exit
  | .error e => some e
  | .ok _ => none

/-- The decision is that of the frames: the limits on the receive queue have not been
exceeded, and no line has closed the connection. -/
def ByFrames (e : Option Exit) : Prop := e ≠ some .flood ∧ e ≠ some .killed

instance (e : Option Exit) : Decidable (ByFrames e) := inferInstanceAs (Decidable (_ ∧ _))

/-! ### Runs -/

section

variable {σ : Type*} {env : Env σ} {s : Session σ}

variable {data : List UInt8} {out : List Effect}

lemma feed_wait {con : Conn} {left skip} (hbuf : con.buf.length ≤ WEBSOCKET_MAX_HEADER)
    (h : (frameParser.feed con.skip con.buf data).rest = .wait skip left) :
    left.length ≤ WEBSOCKET_MAX_HEADER := by
  unfold feed at h
  split at h
  · have hscan : frameParser.scan (con.buf ++ data.drop con.skip) =
        ⟨(frameParser.scan (con.buf ++ data.drop con.skip)).out, .wait skip left⟩ := by rw [← h]
    rcases (scan_wait hscan).1 with rfl | hlt
    · exact Nat.zero_le _
    · exact hlt.le
  · simp only [Rest.wait.injEq] at h
    exact h.2 ▸ hbuf

def decodeReads (con : Conn) (reads : List (List UInt8)) : Result UInt8 Effect Stop :=
  reads.foldl frameParser.andThen ⟨[], .wait con.skip con.buf⟩

lemma decodeReads_cons (con data reads) : decodeReads con (data :: reads) =
      reads.foldl frameParser.andThen (frameParser.feed con.skip con.buf data) := rfl

lemma readPacket_ok (env) {con} (h : wsRead s.con data = (out, .ok con)) :
    readPacket env s data = (out, .error .flood) ∨ readPacket env s data = (out, .error .killed) ∨
      ∃ q st, readPacket env s data = (out, .ok ⟨con, q, st⟩) := by
  unfold readPacket
  rw [h]
  simp only
  split
  · exact .inl rfl
  · split
    · exact .inr (.inl rfl)
    · exact .inr (.inr ⟨_, _, rfl⟩)

lemma readPacket_error {e}
    (h : wsRead s.con data = (out, .error e)) : readPacket env s data = (out, .error e) := by
  unfold readPacket
  rw [h]

lemma runReads_of_error {reads e} (h : readPacket env s data = (out, .error e)) :
    runReads env s (data :: reads) = (out, .error e) := by
  rw [runReads, h]

/-- **As long as neither the limits on the receive queue nor a line close the connection, the
reads do what decoding them says.** -/
lemma runReads_eq_decode {reads} (hbuf : s.con.buf.length ≤ WEBSOCKET_MAX_HEADER)
    (hwrap : (decodeReads s.con reads).rest ≠ .stop .wrapped)
    (hby : ByFrames (exitOf (runReads env s reads).2)) :
    (runReads env s reads).1 = (decodeReads s.con reads).out ∧
      exitOf (runReads env s reads).2 = exitOf (outcome (decodeReads s.con reads)).2 := by
  induction reads generalizing s with
  | nil => exact ⟨rfl, rfl⟩
  | cons data reads ih =>
    rw [decodeReads_cons] at hwrap ⊢
    rcases hfeed : frameParser.feed s.con.skip s.con.buf data with ⟨out, ⟨skip, left⟩ | ⟨why⟩⟩ <;>
      rw [hfeed] at hwrap
    · have hread : wsRead s.con data = (out, .ok ⟨left, skip⟩) := by
        rw [wsRead_eq_feed hbuf (by rw [hfeed]; simp), hfeed]
        rfl
      rcases readPacket_ok env hread with h | h | ⟨q, st, h⟩
      · rw [runReads_of_error h] at hby
        exact absurd rfl hby.1
      · rw [runReads_of_error h] at hby
        exact absurd rfl hby.2
      have hrun : runReads env s (data :: reads) =
          (out ++ (runReads env ⟨⟨left, skip⟩, q, st⟩ reads).1,
            (runReads env ⟨⟨left, skip⟩, q, st⟩ reads).2) := by
        rw [runReads, h]
      have hdec : reads.foldl frameParser.andThen ⟨out, .wait skip left⟩ =
          (decodeReads ⟨left, skip⟩ reads).after out := by
        rw [decodeReads, ← foldl_andThen_after]
        simp [Result.after]
      rw [hrun] at hby ⊢
      rw [hdec] at hwrap ⊢
      obtain ⟨hout, hexit⟩ := ih (s := ⟨⟨left, skip⟩, q, st⟩)
        (feed_wait hbuf (by rw [hfeed])) hwrap hby
      exact ⟨by rw [hout]; rfl, hexit⟩
    · rw [foldl_andThen_stop] at hwrap ⊢
      have hread : wsRead s.con data = outcome ⟨out, .stop why⟩ := by
        rw [wsRead_eq_feed hbuf (by rw [hfeed]; exact hwrap), hfeed]
      rcases why with why | _ | _
      · rw [runReads_of_error (readPacket_error hread)]
        exact ⟨rfl, rfl⟩
      · rw [runReads_of_error (readPacket_error hread)]
        exact ⟨rfl, rfl⟩
      · exact absurd rfl hwrap

def Conn.fresh : Conn := ⟨[], 0⟩

/-- **However a stream is cut into reads, what is put on the receive queue and answered, and whether
and why the frames close the connection, is as in one read.** The limits on the queue and what the
lines do are set aside, and a frame whose length is 0 as an `int`. -/
theorem runReads_split (env : Env σ) (s : Session σ) (reads : List (List UInt8))
    (hcon : s.con = .fresh) (hwrap : (frameParser.scan reads.flatten).rest ≠ .stop .wrapped)
    (hby : ByFrames (exitOf (runReads env s reads).2))
    (hone : ByFrames (exitOf (runReads env s [reads.flatten]).2)) :
    (runReads env s reads).1 = (runReads env s [reads.flatten]).1 ∧
      exitOf (runReads env s reads).2 = exitOf (runReads env s [reads.flatten]).2 := by
  have hbuf : s.con.buf.length ≤ WEBSOCKET_MAX_HEADER := by rw [hcon]; exact Nat.zero_le _
  have hdec : decodeReads s.con reads = decodeReads s.con [reads.flatten] := by
    rw [hcon]
    exact (Parser.feedAll_eq_scan reads).trans
      ((Parser.feedAll_eq_scan [reads.flatten]).trans (by simp)).symm
  have hwrap' : (decodeReads s.con reads).rest ≠ .stop .wrapped := by
    rw [hcon]
    change (frameParser.feedAll reads).rest ≠ _
    rwa [Parser.feedAll_eq_scan]
  obtain ⟨hout, hexit⟩ := runReads_eq_decode hbuf hwrap' hby
  obtain ⟨hout', hexit'⟩ := runReads_eq_decode hbuf (hdec ▸ hwrap') hone
  rw [hout, hexit, hout', hexit', hdec]
  exact ⟨rfl, rfl⟩

end

/-- A server that hands every line on, for a client of a class with a `maxflood` of 16. -/
def plainEnv : Env Unit := ⟨fun _ => 16, fun _ => 8192, fun _ => true, fun _ _ => some (), id⟩

def textFrame : List UInt8 := [0x81, 0x8A, 0, 0, 0, 0] ++ List.replicate 10 (ch 'a')

def pingAndBad : List UInt8 := [0x89, 0x82, 1, 2, 3, 4, 0x60, 0x60, 0x81, 0]

/-- The frame and the Ping are cut in the middle. -/
theorem runReads_split_cut :
    (runReads plainEnv ⟨.fresh, [], ()⟩
        [textFrame.take 9, textFrame.drop 9 ++ pingAndBad.take 7, pingAndBad.drop 7]).1 =
        [.put (List.replicate 10 (ch 'a')), .put [10], .pong [0x61, 0x62]] ∧
      exitOf (runReads plainEnv ⟨.fresh, [], ()⟩
        [textFrame.take 9, textFrame.drop 9 ++ pingAndBad.take 7, pingAndBad.drop 7]).2 =
        some (.frame .protocolViolation) := by
  have h := runReads_split plainEnv ⟨.fresh, [], ()⟩
    [textFrame.take 9, textFrame.drop 9 ++ pingAndBad.take 7, pingAndBad.drop 7] rfl
    (by decide +kernel) (by decide +kernel) (by decide +kernel)
  exact ⟨h.1.trans (by decide +kernel), h.2.trans (by decide +kernel)⟩

/-- Two lines that are below the limit one by one, and above it when they are read at once. -/
theorem textFrames_flood :
    exitOf (runReads plainEnv ⟨.fresh, [], ()⟩ [textFrame, textFrame]).2 = none ∧
      exitOf (runReads plainEnv ⟨.fresh, [], ()⟩ [[textFrame, textFrame].flatten]).2 =
        some .flood := by
  decide +kernel

end Ircu.Websocket
