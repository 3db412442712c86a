import Ircu.Ban.Superset
import Ircu.Ban.Text
import Ircu.Overlay.Basic

/-!
Bans set by a MODE command: `apply_ban`, `mode_parse_ban` and `mode_process_bans`
of `channel.c`.

While the command is parsed, each new ban is linked to the end of the list of the
channel, and the bans that it overlaps are marked. When all of it has been parsed,
the marked bans leave the list, and the new ones are made, as long as the list has
room. A new ban that finds no room is refused, but the bans that it has marked are
gone by then.

* `applyBan_eq`: the marking is the first phase of an overlay, whose entries are
  struck out by flags.
* `modeAddBans_eq`: the list after a command, from the two phases of the overlay.
-/

namespace Ircu

open Overlay List Layer Ban

/-! ### The list while a command is parsed -/

/-- The first loop of `apply_ban`: whether an active ban covers the new one. -/
def activeCover (newban : Ban) : List Ban → Option Bool
  | [] => some false
  | ban :: bans =>
    match bmatch ban newban with
    | none => none
    | some r =>
      if r = 0 ∧ ¬ meets ban.flags BAN_DEL then some true else activeCover newban bans

/-- The second loop of `apply_ban`: the bans that the new one covers are marked. The
number of them counts when bans are removed. -/
def strike (newban : Ban) : List Ban → Option (List Ban × ℕ)
  | [] => some ([], 0)
  | ban :: bans =>
    match bmatch newban ban, strike newban bans with
    | some r, some (rest, n) =>
      if r = 0 then
        some ({ ban with flags := ban.flags ||| (BAN_OVERLAPPED ||| BAN_DEL) } :: rest, n + 1)
      else some (ban :: rest, n)
    | _, _ => none

def applyBan (banlist : List Ban) (newban : Ban) : Option (List Ban × ℕ) :=
  if meets newban.flags BAN_ADD then
    match activeCover newban banlist with
    | none => none
    | some true => some (banlist, 1)
    | some false => (strike newban banlist).map fun (marked, _) => (marked ++ [newban], 0)
  else if meets newban.flags BAN_DEL then
    (strike newban banlist).map fun (marked, n) => (marked, if n ≠ 0 then 0 else 3)
  else some (banlist, 4)

/-- The argument of `+b`: up to the first blank, unless nothing is left of it or it
begins with a colon. -/
def banArg (t : List UInt8) : Option (List UInt8) :=
  let t := t.takeWhile (· ≠ ch ' ')
  if t = [] ∨ t.head? = some (ch ':') then none else some t

/-- A ban of `ParseState`, to be added or removed, in a slot of the stack that holds a
leftover value. -/
def parsedBan (add : Bool) (leftover : Ban) (who : List UInt8) (now : ℕ) (t : List UInt8) : Ban :=
  let flags := if add then BAN_ADD else BAN_DEL
  { setBanMask { leftover with flags } (collapse (prettyMask t)) with who, when := now }

/-- The turns of `mode_parse_ban`: each ban is applied, and the result ignored. -/
def parseBans (banlist : List Ban) : List Ban → Option (List Ban)
  | [] => some banlist
  | newban :: newbans =>
    match applyBan banlist newban with
    | none => none
    | some (banlist, _) => parseBans banlist newbans

/-! ### The end of the command -/

/-- The features `MAXBANS` and `AVBANLEN`. -/
structure BanLimits where
  maxBans : ℕ
  avBanLen : ℕ

/-- What `mode_process_bans` asks of the command: `MODE_PARSE_SET`,
`MODE_PARSE_BOUNCE`, whether a client of this server gave it, and
`MODEBUF_DEST_OPMODE`. -/
structure ProcessFlags where
  set : Bool
  bounce : Bool
  myUser : Bool
  opmode : Bool

/-- The state of the loop of `mode_process_bans`. The bans that stay linked behind
`prevban` are `kept`, those linked to the head of the list are `added`. -/
structure ProcessState where
  kept : List Ban
  added : List Ban
  count : ℕ
  len : ℕ
  changed : ℕ
  /-- The changes handed to the mode buffer, with `true` for additions. -/
  queued : List (Bool × List UInt8)
  /-- The masks of the `ERR_BANLISTFULL` replies. -/
  full : List (List UInt8)

def remake (ban : Ban) : Ban :=
  { makeBan ban.banstr with
    who := ban.who
    when := ban.when
    flags := ban.flags &&& BAN_IPMASK }

variable (lim : BanLimits)

/-- One turn of the loop of `mode_process_bans`. -/
def processBan (fl : ProcessFlags) (st : ProcessState) (ban : Ban) :
    ProcessState :=
  let banlen := ban.banstr.length
  if meets ban.flags BAN_DEL ∧ meets ban.flags BAN_ADD then st
  else if meets ban.flags BAN_DEL then
    let st := { st with queued := st.queued ++ [(false, ban.banstr)] }
    if fl.set then { st with changed := st.changed + 1 }
    else
      { st with
        kept := st.kept ++ [{ ban with flags := ban.flags &&& BAN_IPMASK }]
        count := st.count + 1
        len := st.len + banlen }
  else if meets ban.flags BAN_ADD then
    if meets ban.flags BAN_OVERLAPPED ∧ ¬ fl.bounce then st
    else if fl.set ∧ fl.myUser ∧ ¬ fl.opmode ∧
        (st.len + banlen > lim.avBanLen * lim.maxBans ∨ st.count + 1 > lim.maxBans) then
      { st with full := st.full ++ [ban.banstr] }
    else
      let st :=
        { st with
          queued := st.queued ++ [(true, ban.banstr)]
          count := st.count + 1
          len := st.len + banlen }
      if fl.set then { st with added := remake ban :: st.added, changed := st.changed + 1 } else st
  else
    { st with kept := st.kept ++ [ban], count := st.count + 1, len := st.len + banlen }

def modeProcessBans (fl : ProcessFlags) (banlist : List Ban) : ProcessState :=
  banlist.foldl (processBan lim fl) ⟨[], [], 0, 0, 0, [], []⟩

def ProcessState.banlist (st : ProcessState) : List Ban := st.added ++ st.kept

/-- The bans that the arguments of a command ask for. A client of this server may give
six of them. -/
def requested (leftover : ℕ → Ban) (who : List UInt8) (now : ℕ) (args : List (List UInt8)) :
    List Ban :=
  ((args.take 6).filterMap banArg).zipIdx.map fun (t, i) => parsedBan true (leftover i) who now t

/-- The flags of a command that a client of this server gives and that takes effect. -/
def localFlags : ProcessFlags := ⟨true, false, true, false⟩

/-- A MODE command of a channel operator of this server that only adds bans. The flags
of an earlier command are cleared with the first ban. -/
def modeAddBans (leftover : ℕ → Ban) (who : List UInt8) (now : ℕ)
    (banlist : List Ban) (args : List (List UInt8)) : Option (List Ban) :=
  match requested leftover who now args with
  | [] => some banlist
  | newbans =>
    let cleared := banlist.map fun ban =>
      { ban with flags := ban.flags &&& ~~~(BAN_ADD ||| BAN_DEL ||| BAN_OVERLAPPED) }
    (parseBans cleared newbans).map fun parsed =>
      (modeProcessBans lim localFlags parsed).banlist

/-! ### Marks -/

structure Ban.Unmarked (b : Ban) : Prop where
  del : meets b.flags BAN_DEL = false
  overlapped : meets b.flags BAN_OVERLAPPED = false

/-- `bmatch` as a relation. -/
def covers (a b : Ban) : Bool := bmatch a b = some 0

/-- The flags that `apply_ban` marks a ban with. -/
def marks : BitVec 16 := BAN_OVERLAPPED ||| BAN_DEL

def mark (e : Layer Ban) : Ban :=
  if e.struck then { e.item with flags := e.item.flags ||| marks } else e.item

lemma mark_live (b) : mark ⟨b, false⟩ = b := rfl

/-- The comparisons that the new bans take part in return. -/
def Compared (L N : List Ban) : Prop :=
  ∀ n ∈ N, ∀ b ∈ L ++ N, (bmatch n b).isSome ∧ (bmatch b n).isSome

instance (L N : List Ban) : Decidable (Compared L N) :=
  inferInstanceAs (Decidable (∀ n ∈ N, ∀ b ∈ L ++ N, _))

lemma bmatch_mark (e b) :
    bmatch (mark e) b = bmatch e.item b ∧ bmatch b (mark e) = bmatch b e.item := by
  have hexc : meets marks BAN_EXCEPTION = false := by decide
  have hip : meets marks BAN_IPMASK = false := by decide
  have hand (f g : BitVec 16) :
      meets ((f ||| marks) &&& g) BAN_IPMASK = meets (f &&& g) BAN_IPMASK := by
    rw [Bool.eq_iff_iff, meets_and_ipmask, meets_and_ipmask, meets_or_left, hip, Bool.or_false]
  rw [mark]
  split_ifs
  · simp only [bmatch, restored, meets_or_left, hexc, Bool.or_false, hand,
      BitVec.and_comm b.flags, and_self]
  · exact ⟨rfl, rfl⟩

lemma mark_del {e} (h : e.item.Unmarked) : meets (mark e).flags BAN_DEL = e.struck := by
  have hdel : meets marks BAN_DEL = true := by decide
  rw [mark]
  cases hs : e.struck with
  | false => simp [h.del]
  | true => simp [meets_or_left, hdel]

lemma mark_strike (e : Layer Ban) :
    { mark e with flags := (mark e).flags ||| (BAN_OVERLAPPED ||| BAN_DEL) } =
      mark { e with struck := true } := by
  cases hs : e.struck with
  | false => simp [mark, hs, marks]
  | true => simp [mark, hs, marks, BitVec.or_assoc]

section Apply

variable {es : List (Layer Ban)} {n : Ban}

lemma activeCover_eq (hes : ∀ e ∈ es, e.item.Unmarked)
    (hret : ∀ e ∈ es, (bmatch e.item n).isSome) :
    activeCover n (es.map mark) = some (es.any fun e => covers e.item n && !e.struck) := by
  induction es with
  | nil => rfl
  | cons e es ih =>
    obtain ⟨r, hr⟩ := Option.isSome_iff_exists.mp (hret e mem_cons_self)
    rw [map_cons, activeCover, (bmatch_mark _ _).1, mark_del (hes e mem_cons_self),
      ih (fun e he => hes e (mem_cons_of_mem _ he)) fun e he => hret e (mem_cons_of_mem _ he),
      any_cons, covers, hr]
    cases e.struck <;> by_cases hr0 : r = 0 <;> simp [hr0]

lemma strike_eq (hret : ∀ e ∈ es, (bmatch n e.item).isSome) : ∃ k, strike n (es.map mark) =
      some ((es.map fun e => { e with struck := e.struck || covers n e.item }).map mark, k) := by
  induction es with
  | nil => exact ⟨0, rfl⟩
  | cons e es ih =>
    obtain ⟨r, hr⟩ := Option.isSome_iff_exists.mp (hret e mem_cons_self)
    obtain ⟨k, hk⟩ := ih fun e he => hret e (mem_cons_of_mem _ he)
    rw [map_cons, strike, (bmatch_mark _ _).2, hk, map_cons, covers, hr]
    by_cases hr0 : r = 0
    · exact ⟨k + 1, by simp [hr0, mark_strike]⟩
    · exact ⟨k, by simp [hr0]⟩

lemma applyBan_eq (hes : ∀ e ∈ es, e.item.Unmarked)
    (hret : ∀ e ∈ es, (bmatch n e.item).isSome ∧ (bmatch e.item n).isSome)
    (hadd : meets n.flags BAN_ADD = true) :
    ∃ k, applyBan (es.map mark) n = some ((offer covers es n).map mark, k) := by
  obtain ⟨k, hk⟩ := strike_eq fun e he => (hret e he).1
  rw [applyBan, if_pos hadd, activeCover_eq hes fun e he => (hret e he).2, offer]
  cases hcov : es.any fun e => covers e.item n && !e.struck with
  | true => exact ⟨1, by simp⟩
  | false => exact ⟨0, by simp [hk, mark_live]⟩

lemma parseBans_eq {ns} (hes : ∀ e ∈ es, e.item.Unmarked)
    (hns : ∀ n ∈ ns, n.Unmarked ∧ meets n.flags BAN_ADD = true)
    (hret : Compared (es.map item) ns) :
    parseBans (es.map mark) ns = some ((offers covers es ns).map mark) := by
  induction ns generalizing es with
  | nil => rfl
  | cons n ns ih =>
    obtain ⟨hn, hadd⟩ := hns n mem_cons_self
    obtain ⟨k, hk⟩ := applyBan_eq hes (fun e he => hret n mem_cons_self e.item
      (mem_append_left _ (mem_map_of_mem he))) hadd
    rw [parseBans, hk]
    -- the list has at most the new ban in addition
    have hitems : ∀ b ∈ (offer covers es n).map item, b ∈ es.map item ∨ b = n := by
      intro b hb
      rcases items_offer covers es n with heq | heq
      · exact .inl (heq ▸ hb)
      · rw [heq, mem_append, mem_singleton] at hb
        exact hb
    refine ih ?_ (fun m hm => hns m (mem_cons_of_mem n hm)) ?_
    · intro e he
      rcases hitems e.item (mem_map_of_mem he) with h | h
      · obtain ⟨e', he', heq⟩ := mem_map.mp h
        exact heq ▸ hes e' he'
      · exact h ▸ hn
    · intro m hm b hb
      refine hret m (mem_cons_of_mem n hm) b ?_
      rw [mem_append, mem_cons]
      rcases mem_append.mp hb with hb | hb
      · exact (hitems b hb).imp_right .inl
      · exact .inr (.inr hb)

end Apply

/-! ### The second phase -/

section Process

variable {lim : BanLimits} {es : List (Layer Ban)} {st : ProcessState}

def banLength (b : Ban) : ℕ := b.banstr.length

lemma process_listed (hes : ∀ e ∈ es, e.item.Unmarked ∧ meets e.item.flags BAN_ADD = false) :
    ∃ changed queued, (es.map mark).foldl (processBan lim localFlags) st = { st with
        kept := st.kept ++ live es
        count := st.count + (live es).length
        len := st.len + ((live es).map banLength).sum
        changed
        queued } := by
  induction es generalizing st with
  | nil => exact ⟨st.changed, st.queued, by simp⟩
  | cons e es ih =>
    obtain ⟨he, hadd⟩ := hes e mem_cons_self
    have htail := fun f hf => hes f (mem_cons_of_mem e hf)
    obtain ⟨b, struck⟩ := e
    cases struck with
    | true =>
      have hdel : meets (mark ⟨b, true⟩).flags BAN_DEL = true := mark_del he
      have hno : meets (mark ⟨b, true⟩).flags BAN_ADD = false := by
        have hmarks : meets marks BAN_ADD = false := by decide
        simpa [mark, meets_or_left, hmarks] using hadd
      rw [map_cons, foldl_cons]
      simp only [processBan, hdel, hno, localFlags, if_true, Bool.false_eq_true, and_false,
        if_false]
      exact ih htail
    | false =>
      rw [live_cons_live, map_cons, foldl_cons, mark_live]
      simp only [processBan, he.del, hadd, Bool.false_eq_true, false_and, if_false]
      obtain ⟨changed, queued, h⟩ := @ih { st with
        kept := st.kept ++ [b]
        count := st.count + 1
        len := st.len + b.banstr.length } htail
      refine ⟨changed, queued, h.trans ?_⟩
      simp [banLength, Nat.add_assoc, Nat.add_comm]

lemma process_new (hes : ∀ e ∈ es, e.item.Unmarked ∧ meets e.item.flags BAN_ADD = true) :
    ((es.map mark).foldl (processBan lim localFlags) st).banlist =
      ((fitting banLength lim.maxBans (lim.avBanLen * lim.maxBans) st.count st.len
        (live es)).map remake).reverse ++ st.banlist := by
  induction es generalizing st with
  | nil => rfl
  | cons e es ih =>
    obtain ⟨he, hadd⟩ := hes e mem_cons_self
    have htail := fun f hf => hes f (mem_cons_of_mem e hf)
    obtain ⟨b, struck⟩ := e
    cases struck with
    | true =>
      have hdel : meets (mark ⟨b, true⟩).flags BAN_DEL = true := mark_del he
      have hyes : meets (mark ⟨b, true⟩).flags BAN_ADD = true := by
        simp [mark, meets_or_left, hadd]
      rw [map_cons, foldl_cons]
      simp only [processBan, hdel, hyes, and_self, if_true]
      exact ih htail
    | false =>
      rw [live_cons_live, map_cons, foldl_cons, mark_live, fitting]
      by_cases hfull : st.len + banLength b > lim.avBanLen * lim.maxBans ∨
          st.count + 1 > lim.maxBans
      · have hturn : processBan lim localFlags st b =
            { st with full := st.full ++ [b.banstr] } := by
          rw [banLength] at hfull
          simp [processBan, he.del, hadd, he.overlapped, localFlags]
          omega
        rw [if_pos hfull, hturn]
        exact ih htail
      have hturn : processBan lim localFlags st b = { st with
            queued := st.queued ++ [(true, b.banstr)]
            count := st.count + 1
            len := st.len + banLength b
            added := remake b :: st.added
            changed := st.changed + 1 } := by
        rw [banLength] at hfull
        simp [processBan, he.del, hadd, he.overlapped, localFlags, banLength]
        omega
      rw [if_neg hfull, hturn, ih htail]
      simp [ProcessState.banlist]

end Process

/-! ### Bans of a channel -/

/-- A ban of a channel is what `make_ban` makes of its text, which has a separator. -/
structure Listed (b : Ban) : Prop where
  fits : b.banstr.length ≤ BANSTRLEN
  sep : ch '@' ∈ b.banstr
  built : b = { makeBan b.banstr with who := b.who, when := b.when }

section SetBanMask

variable {b : Ban} {s : List UInt8}

lemma setBanMask_flags (hat : ch '@' ∈ s) : (setBanMask b s).flags = b.flags |||
    if (ipmaskParse (hostPart s) true).isSome then BAN_IPMASK else 0 := by
  rw [setBanMask, if_pos hat]
  split <;> rename_i heq <;> simp [heq]

end SetBanMask

namespace Listed

variable {b : Ban} (h : Listed b)

include h

lemma flags : b.flags = 0 ∨ b.flags = BAN_IPMASK := by
  have hf : b.flags = (makeBan b.banstr).flags := by
    conv_lhs => rw [h.built]
  rw [makeBan, setBanMask_flags h.sep] at hf
  split_ifs at hf
  · exact .inr hf
  · exact .inl hf

lemma reads (hread : Readable b.banstr) : b.Reads (nuPart b.banstr) (hostPart b.banstr) := by
  have hr : (builtBan 0 b.banstr).Reads _ _ := builtBan_reads ⟨h.fits, hread⟩ h.sep
  exact ⟨nuPart_append_hostPart h.sep, (congrArg nuLen h.built).trans hr.nuLen, h.fits, hread,
    at_notMem_hostPart _, (congrArg addrbits h.built).trans_le hr.bits⟩

lemma unmarked : b.Unmarked ∧ meets b.flags BAN_ADD = false := by
  rcases h.flags with hf | hf
  all_goals exact ⟨⟨hf ▸ by decide, hf ▸ by decide⟩, hf ▸ by decide⟩

lemma exception : meets b.flags BAN_EXCEPTION = false := by
  rcases h.flags with hf | hf <;> exact hf ▸ by decide

lemma cleared :
    { b with flags := b.flags &&& ~~~(BAN_ADD ||| BAN_DEL ||| BAN_OVERLAPPED) } = b := by
  have hf : b.flags &&& ~~~(BAN_ADD ||| BAN_DEL ||| BAN_OVERLAPPED) = b.flags := by
    rcases h.flags with hf | hf <;> exact hf ▸ by decide
  rw [hf]

lemma remake : Ircu.remake b = b := by
  have hf : b.flags &&& BAN_IPMASK = (makeBan b.banstr).flags := by
    have hb : b.flags = (makeBan b.banstr).flags := by
      conv_lhs => rw [h.built]
    rw [← hb]
    rcases h.flags with hf | hf <;> rw [hf] <;> decide
  rw [Ircu.remake, hf]
  exact h.built.symm

end Listed

lemma parsedBan_spec (leftover who now t) : (parsedBan true leftover who now t).Unmarked ∧
      meets (parsedBan true leftover who now t).flags BAN_ADD = true ∧
      Listed (remake (parsedBan true leftover who now t)) := by
  have hs : (collapse (prettyMask t)).length ≤ BANSTRLEN :=
    (collapse_length _).trans (prettyMask_length t)
  have hat : ch '@' ∈ collapse (prettyMask t) :=
    (mem_collapse (by decide) _).mpr (prettyMask_at t)
  simp only [parsedBan, if_true]
  generalize collapse (prettyMask t) = s at hs hat
  have hstr : (setBanMask { leftover with flags := BAN_ADD } s).banstr = s :=
    (setBanMask_banstr _ s).trans (take_of_length_le hs)
  have hflags : (setBanMask { leftover with flags := BAN_ADD } s).flags = BAN_ADD |||
      if (ipmaskParse (hostPart s) true).isSome then BAN_IPMASK else 0 := setBanMask_flags hat
  have hmade : (makeBan s).flags = 0 |||
      if (ipmaskParse (hostPart s) true).isSome then BAN_IPMASK else 0 := setBanMask_flags hat
  have hmstr : (makeBan s).banstr = s := (setBanMask_banstr _ s).trans (take_of_length_le hs)
  refine ⟨⟨?_, ?_⟩, ?_, ?_⟩
  · simp only [hflags]
    split_ifs <;> decide
  · simp only [hflags]
    split_ifs <;> decide
  · simp only [hflags]
    split_ifs <;> decide
  have hf : (setBanMask { leftover with flags := BAN_ADD } s).flags &&& BAN_IPMASK =
      (makeBan s).flags := by
    rw [hflags, hmade]
    split_ifs <;> decide
  refine ⟨?_, ?_, ?_⟩ <;> simp only [remake, hstr, hmstr, hf]
  · exact hs
  · exact hat

lemma requested_spec {leftover who now args n} (hn : n ∈ requested leftover who now args) :
    n.Unmarked ∧ meets n.flags BAN_ADD = true ∧ Listed (remake n) := by
  obtain ⟨⟨t, i⟩, -, rfl⟩ := mem_map.mp hn
  exact parsedBan_spec (leftover i) who now t

/-! ### A command that adds bans -/

section Command

variable (lim : BanLimits) (L N : List Ban)

def entries : List (Layer Ban) := offers covers (L.map fun b => ⟨b, false⟩) N

def keptBans : List Ban := live ((entries L N).take L.length)

/-- The new bans that are covered neither by an active ban nor by a later new one. -/
def waitingBans : List Ban := live ((entries L N).drop L.length)

def admittedBans : List Ban :=
  fitting banLength lim.maxBans (lim.avBanLen * lim.maxBans) (keptBans L N).length
    ((keptBans L N).map banLength).sum (waitingBans L N)

variable {lim L N}

lemma entries_split : ∃ es fs, entries L N = es ++ fs ∧ es.map item = L ∧
    (fs.map item).Sublist N ∧ keptBans L N = live es ∧ waitingBans L N = live fs := by
  obtain ⟨es, fs, h, hes, hfs⟩ := offers_append covers (L.map fun b => ⟨b, false⟩) [] N
  rw [append_nil] at h
  rw [map_map] at hes
  have hitems : es.map item = L := hes.trans (map_id L)
  have hlen : es.length = L.length := by
    rw [← hitems, length_map]
  refine ⟨es, fs, h, hitems, hfs, ?_, ?_⟩
  · rw [keptBans, entries, h, ← hlen, take_left]
  · rw [waitingBans, entries, h, ← hlen, drop_left]

/-- **A command that adds bans** leaves the bans that have not been struck out, behind
the new ones for which there is room. -/
theorem modeAddBans_eq (leftover who now) (hL : ∀ b ∈ L, Listed b)
    {args} (hN : requested leftover who now args = N) (hret : Compared L N) :
    modeAddBans lim leftover who now L args =
      some (((admittedBans lim L N).map remake).reverse ++ keptBans L N) := by
  have hreq : ∀ n ∈ N, n.Unmarked ∧ meets n.flags BAN_ADD = true := by
    intro n hn
    obtain ⟨h1, h2, -⟩ := requested_spec (hN ▸ hn)
    exact ⟨h1, h2⟩
  have hclear : (L.map fun ban =>
      { ban with flags := ban.flags &&& ~~~(BAN_ADD ||| BAN_DEL ||| BAN_OVERLAPPED) }) = L :=
    (map_congr_left fun b hb => (hL b hb).cleared).trans (map_id L)
  have hstart : L = (L.map fun b => (⟨b, false⟩ : Layer Ban)).map mark := by
    rw [map_map]
    exact (map_id L).symm
  have hparse : parseBans L N = some ((entries L N).map mark) := by
    conv_lhs => rw [hstart]
    refine parseBans_eq ?_ hreq ?_
    · intro e he
      obtain ⟨b, hb, rfl⟩ := mem_map.mp he
      exact (hL b hb).unmarked.1
    · rw [map_map]
      exact (map_id L).symm ▸ hret
  obtain ⟨es, fs, hsplit, hes, hfs, hkept, hwait⟩ := entries_split (L := L)
  have hold : ∀ e ∈ es, e.item.Unmarked ∧ meets e.item.flags BAN_ADD = false := fun e he =>
    (hL _ (hes ▸ mem_map_of_mem he)).unmarked
  have hnew : ∀ e ∈ fs, e.item.Unmarked ∧ meets e.item.flags BAN_ADD = true := fun e he =>
    hreq _ (hfs.subset (mem_map_of_mem he))
  have hprocess : (modeProcessBans lim localFlags ((entries L N).map mark)).banlist =
      ((admittedBans lim L N).map remake).reverse ++ keptBans L N := by
    obtain ⟨changed, queued, hlisted⟩ := @process_listed lim es ⟨[], [], 0, 0, 0, [], []⟩ hold
    rw [modeProcessBans, hsplit, map_append, foldl_append, hlisted, process_new hnew,
      admittedBans, hkept, hwait]
    simp [ProcessState.banlist]
  rw [modeAddBans, hN]
  cases N with
  | nil =>
    have hk : keptBans L [] = L := by
      rw [keptBans, entries, offers, foldl_nil, take_of_length_le (by simp), live_fresh]
    have hw : waitingBans L [] = [] := by
      rw [waitingBans, entries, offers, drop_of_length_le (by simp), live_nil]
    simp [admittedBans, hk, hw, fitting]
  | cons n ns =>
    simp only [hclear, hparse, Option.map_some]
    exact congrArg some hprocess

end Command

/-! ### Who is banned -/

/-- `find_ban` finds a ban. -/
def Banned (trust : Bool) (c : Identity) (banlist : List Ban) : Prop :=
  ∃ b, findBan trust c banlist = some (some b)

instance (trust : Bool) (c : Identity) (banlist : List Ban) :
    Decidable (Banned trust c banlist) :=
  match h : findBan trust c banlist with
  | some (some b) => .isTrue ⟨b, h⟩
  | some none => .isFalse fun ⟨b, hb⟩ => by rw [h] at hb; cases hb
  | none => .isFalse fun ⟨b, hb⟩ => by rw [h] at hb; cases hb

lemma findBanLoop_listed {trust c bans} (h : ∀ b ∈ bans, Listed b)
    (hret : ∀ b ∈ bans, (b.hits trust c).isSome) (found : Option Ban) :
    ∃ r, findBanLoop trust c bans found = some r ∧
      (r.isSome ↔ found.isSome ∨ ∃ b ∈ bans, b.Matches trust c) := by
  induction bans generalizing found with
  | nil => exact ⟨found, rfl, by simp⟩
  | cons b bans ih =>
    have htail := ih (fun b hb => h b (mem_cons_of_mem _ hb))
      fun b hb => hret b (mem_cons_of_mem _ hb)
    obtain ⟨v, hv⟩ := Option.isSome_iff_exists.mp (hret b mem_cons_self)
    rw [findBanLoop, (h b mem_cons_self).exception, hv]
    cases hf : found.isSome with
    | true =>
      obtain ⟨r, hr, hiff⟩ := htail found
      refine ⟨r, by simpa using hr, ?_⟩
      rw [hiff, hf]
      simp
    | false =>
      cases v with
      | false =>
        obtain ⟨r, hr, hiff⟩ := htail found
        have hno : ¬ b.Matches trust c := by simp [Ban.Matches, hv]
        refine ⟨r, by simpa using hr, ?_⟩
        rw [hiff, hf]
        simp [hno]
      | true =>
        obtain ⟨r, hr, hiff⟩ := htail (some b)
        have hyes : b.Matches trust c := hv
        refine ⟨r, by simpa using hr, ?_⟩
        rw [hiff]
        simp [hyes]

lemma banned_iff {trust c bans} (h : ∀ b ∈ bans, Listed b)
    (hret : ∀ b ∈ bans, (b.hits trust c).isSome) :
    Banned trust c bans ↔ ∃ b ∈ bans, b.Matches trust c := by
  obtain ⟨r, hr, hiff⟩ := findBanLoop_listed h hret none
  rw [Banned, findBan, hr]
  cases r with
  | none | some b => simpa using hiff

section Keep

variable {lim : BanLimits} {L N : List Ban}

/-- There is room for the bans of the list and all new ones. -/
structure Room (lim : BanLimits) (L N : List Ban) : Prop where
  count : L.length + N.length ≤ lim.maxBans
  size : (L.map banLength).sum + (N.map banLength).sum ≤ lim.avBanLen * lim.maxBans

/-- `bmatch` is right about the new bans: it returns, and a ban that it calls overlapped matches no
client that the new one does not match. Every mask can be compared with every client. -/
structure Decided (L N : List Ban) : Prop where
  returns : Compared L N
  sound : ∀ n ∈ N, ∀ b ∈ L ++ N, bmatch n b = some 0 → Superset (remake n) (remake b)
  hits : ∀ b ∈ L ++ N, ∀ trust c, ((remake b).hits trust c).isSome

lemma matched_of_room (hL : ∀ b ∈ L, Listed b) (hroom : Room lim L N) (hdec : Decided L N)
    {b} (hb : b ∈ L) {trust c} (hc : b.Matches trust c) :
    (∃ b' ∈ keptBans L N, b'.Matches trust c) ∨
      ∃ n ∈ admittedBans lim L N, (remake n).Matches trust c := by
  obtain ⟨es, fs, hsplit, hes, hfs, hkept, hwait⟩ := entries_split
  have hk : (keptBans L N).Sublist L := hkept ▸ hes ▸ live_sublist es
  have hw : (waitingBans L N).Sublist N := hwait ▸ (live_sublist fs).trans hfs
  have hadmit : admittedBans lim L N = waitingBans L N := by
    have h1 := hk.length_le
    have h2 := hw.length_le
    have h3 := (hk.map banLength).sum_le_sum (by simp)
    have h4 := (hw.map banLength).sum_le_sum (by simp)
    have h5 := hroom.count
    have h6 := hroom.size
    exact fitting_eq (by omega) (by omega)
  have htakes : LiveTakes (fun (b : Ban) (x : Bool × Identity) => (remake b).Matches x.1 x.2)
      (entries L N) := by
    refine (LiveTakes.fresh L).offers ?_
    intro n hn a ha hcov x hx
    refine hdec.sound n hn a ?_ (of_decide_eq_true hcov) x.1 x.2 hx
    exact mem_append.mpr (ha.imp_left fun h => by simpa using h)
  have hmem : b ∈ (entries L N).map item := by
    rw [hsplit, map_append, hes]
    exact mem_append_left _ hb
  obtain ⟨e, he, rfl⟩ := mem_map.mp hmem
  have hstart : (remake e.item).Matches trust c := by rwa [(hL _ hb).remake]
  obtain ⟨a, ha, hac⟩ := htakes e he (trust, c) hstart
  rw [hsplit, live_append, ← hkept, ← hwait] at ha
  rcases mem_append.mp ha with ha | ha
  · exact .inl ⟨a, ha, by rwa [(hL a (hk.subset ha)).remake] at hac⟩
  · exact .inr ⟨a, hadmit ▸ ha, hac⟩

end Keep

end Ircu
