import Ircu.Heap.Basic
import Ircu.Parse.CommandTree
import Ircu.Run.Basic

/-!
Commands at run time: `initmsgtree`, `parse_add_command`, `parse_del_command` and the
mappings of services (`register_mapping`, `unregister_mapping`) of `parse.c`.

The messages are records on a heap, and the two trees hold their addresses. A client's
command is looked up in `msg_tree`, a server's in `tok_tree` and then in `msg_tree`.
-/

namespace Ircu.Commands

open Parse Run Option Heap

/-! ### State -/

inductive HandlerType
  | unregistered
  | client
  | server
  | oper
  | service
  deriving DecidableEq

/-- What `register_mapping` uses of a `struct s_map`. -/
structure SMap where
  command : List UInt8
  flags : UInt32
  deriving DecidableEq

/-- `struct Message`, without the positions of its subjects. -/
structure Message (η : Type) where
  cmd : List UInt8
  tok : List UInt8
  count : ℕ
  parameters : ℕ
  flags : UInt32
  bytes : ℕ
  extra : Option SMap
  handlers : HandlerType → η

structure Tables (η : Type) where
  messages : Heap (Message η)
  msgTree : MessageTree ℕ
  tokTree : MessageTree ℕ

def MFLG_SLOW : UInt32 := 0x01

def MFLG_EXTRA : UInt32 := 0x08

def SMAP_FAST : UInt32 := 1

variable {η : Type}

/-! ### The code -/

/-- One turn of the loop of `initmsgtree`. -/
def Tables.addCore (p : Tables η) (m : Message η) : Tables η where
  messages := p.messages.alloc m
  msgTree := addMsgElement p.msgTree p.messages.next m.cmd
  tokTree := addMsgElement p.tokTree p.messages.next m.tok

def initmsgtree (msgtab : List (Message η)) : Tables η :=
  msgtab.foldl Tables.addCore ⟨Heap.empty, .empty, .empty⟩

def findClient (p : Tables η) (name : List UInt8) : Option ℕ := msgTreeParse name p.msgTree

def findServer (p : Tables η) (name : List UInt8) : Option ℕ :=
  match msgTreeParse name p.tokTree with
  | some m => some m
  | none => msgTreeParse name p.msgTree

section Handlers

variable (mIgnore mPseudo : η) (p : Tables η)

/-- The new message, unless the name or the token is taken. -/
def parseAddCommand (cmd : List UInt8) (tok : Option (List UInt8)) (parameters : ℕ)
    (flags : UInt32) (handlers : HandlerType → Option η) : Option (Tables η × ℕ) :=
  let tok := tok.getD cmd
  if (msgTreeParse cmd p.msgTree).isSome || (msgTreeParse tok p.tokTree).isSome then none
  else
    let msg := p.messages.next
    some ({
      messages := p.messages.alloc
        { cmd, tok, count := 0, parameters, flags, bytes := 0, extra := none
          handlers := fun type => (handlers type).getD mIgnore }
      msgTree := addMsgElement p.msgTree msg cmd
      tokTree := addMsgElement p.tokTree msg tok }, msg)

def parseDelCommand (msg : ℕ) : Option (Tables η) := do
  let m ← p.messages.cell msg
  let (msgTree, _) ← delMsgElement p.msgTree m.cmd
  let (tokTree, _) ← delMsgElement p.tokTree m.tok
  pure { messages := p.messages.free msg, msgTree, tokTree }

def registerMapping (map : SMap) : Option (Tables η × ℕ) :=
  if (msgTreeParse map.command p.msgTree).isSome then none
  else
    let msg := p.messages.next
    let slow := if map.flags &&& SMAP_FAST = 0 then MFLG_SLOW else 0
    some ({ p with
      messages := p.messages.alloc
        { cmd := map.command, tok := map.command, count := 0, parameters := 2
          flags := MFLG_EXTRA ||| slow, bytes := 0, extra := some map
          handlers := fun
            | .client | .oper => mPseudo
            | _ => mIgnore }
      msgTree := addMsgElement p.msgTree msg map.command }, msg)

/-- `unregister_mapping`, for the mapping with the message `msg`. There is no result if the
assertion fails that its name is found, or if the message is not one of a mapping. -/
def unregisterMapping (msg : ℕ) : Option (Tables η) := do
  let m ← p.messages.cell msg
  let map ← m.extra
  let _ ← msgTreeParse map.command p.msgTree
  let (msgTree, _) ← delMsgElement p.msgTree m.cmd
  pure { p with messages := p.messages.free msg, msgTree }

inductive Call (η : Type)
  | add (cmd : List UInt8) (tok : Option (List UInt8)) (parameters : ℕ) (flags : UInt32)
      (handlers : HandlerType → Option η)
  | del (msg : ℕ)
  | register (map : SMap)
  | unregister (msg : ℕ)

def step : Call η → Option (Tables η)
  | .add cmd tok parameters flags handlers =>
    some (((parseAddCommand mIgnore p cmd tok parameters flags handlers).map Prod.fst).getD p)
  | .del msg => parseDelCommand p msg
  | .register map => some (((registerMapping mIgnore mPseudo p map).map Prod.fst).getD p)
  | .unregister msg => unregisterMapping p msg

end Handlers

/-! ### The invariant -/

/-- **The invariant.** What the trees point to is there, and stands under its own name; a
mapping has no token. -/
structure Sound (p : Tables η) : Prop where
  msg : ∀ {path m}, p.msgTree.find path = some m →
    ∃ r, p.messages.cell m = some r ∧ slots r.cmd = path
  tok : ∀ {path m}, p.tokTree.find path = some m →
    ∃ r, p.messages.cell m = some r ∧ slots r.tok = path ∧ r.extra = none

namespace Sound

variable {p : Tables η}

variable {t t' : MessageTree ℕ} {Q : List (Fin MAXPTRLEN) → Message η → Prop} {name : List UInt8}
  {path : List (Fin MAXPTRLEN)} {m q : ℕ} {r : Message η}

lemma find_alloc (ht : ∀ {path m}, t.find path = some m →
      ∃ r, p.messages.cell m = some r ∧ Q path r) (hr : Q (slots name) r)
    (hm : (addMsgElement t p.messages.next name).find path = some m) :
    ∃ r', (p.messages.alloc r).cell m = some r' ∧ Q path r' := by
  rw [find_addMsgElement] at hm
  split_ifs at hm with hpath
  · obtain rfl := some.inj hm
    exact ⟨r, if_pos rfl, hpath ▸ hr⟩
  · obtain ⟨r', hr', hQ⟩ := ht hm
    exact ⟨r', by rw [cell_alloc, if_neg (ne_next hr'), hr'], hQ⟩

lemma find_free (ht : ∀ {path m}, t.find path = some m →
      ∃ r, p.messages.cell m = some r ∧ Q path r) (hr : p.messages.cell m = some r)
    (hname : ∀ {path}, Q path r → slots name = path)
    (hdel : delMsgElement t name = some (t', kept)) (hq : t'.find path = some q) :
    ∃ r', (p.messages.free m).cell q = some r' ∧ Q path r' := by
  rw [find_delMsgElement hdel] at hq
  split_ifs at hq with hpath
  obtain ⟨r', hr', hQ⟩ := ht hq
  have hne : q ≠ m := by
    rintro rfl
    exact hpath (hname (cell_inj hr hr' ▸ hQ)).symm
  exact ⟨r', by rw [cell_free, if_neg hne, hr'], hQ⟩

lemma empty : Sound (⟨empty, .empty, .empty⟩ : Tables η) :=
  ⟨fun h => by simp at h, fun h => by simp at h⟩

lemma addCore (h : Sound p) {r} (hr : r.extra = none) : Sound (p.addCore r) :=
  ⟨find_alloc h.msg rfl, find_alloc h.tok ⟨rfl, hr⟩⟩

lemma initmsgtree {msgtab : List (Message η)} (htab : ∀ r ∈ msgtab, r.extra = none) :
    Sound (initmsgtree msgtab) := by
  have hfold : ∀ p : Tables η, Sound p → Sound (msgtab.foldl Tables.addCore p) := by
    induction msgtab with
    | nil => exact fun p h => h
    | cons r msgtab ih =>
      intro p h
      exact ih (fun r hr => htab r (List.mem_cons_of_mem _ hr)) _
        (h.addCore (htab r List.mem_cons_self))
  exact hfold _ empty

variable {mIgnore mPseudo : η} {p' : Tables η}

lemma parseAddCommand (h : Sound p) {cmd tok parameters flags handlers}
    (hadd : parseAddCommand mIgnore p cmd tok parameters flags handlers = some (p', m)) :
    Sound p' := by
  rw [Commands.parseAddCommand] at hadd
  split_ifs at hadd
  obtain ⟨rfl, -⟩ := Prod.mk.inj (some.inj hadd)
  exact ⟨find_alloc h.msg rfl, find_alloc h.tok ⟨rfl, rfl⟩⟩

lemma registerMapping (h : Sound p) {map}
    (hadd : registerMapping mIgnore mPseudo p map = some (p', m)) : Sound p' := by
  rw [Commands.registerMapping] at hadd
  split at hadd
  · cases hadd
  obtain ⟨rfl, -⟩ := Prod.mk.inj (some.inj hadd)
  refine ⟨find_alloc h.msg rfl, fun hm => ?_⟩
  obtain ⟨r, hr, hslots⟩ := h.tok hm
  exact ⟨r, by rw [cell_alloc, if_neg (ne_next hr), hr], hslots⟩

lemma parseDelCommand (h : Sound p) (hdel : parseDelCommand p m = some p') : Sound p' := by
  simp only [Commands.parseDelCommand, bind_eq_bind, bind_eq_some_iff,
    pure_def, some.injEq, Prod.exists] at hdel
  obtain ⟨r, hr, msgTree, kept, hmsg, tokTree, kept', htok, rfl⟩ := hdel
  exact ⟨find_free h.msg hr id hmsg, find_free h.tok hr And.left htok⟩

lemma unregisterMapping (h : Sound p) (hdel : unregisterMapping p m = some p') : Sound p' := by
  simp only [Commands.unregisterMapping, bind_eq_bind, bind_eq_some_iff,
    pure_def, some.injEq, Prod.exists] at hdel
  obtain ⟨r, hr, map, hmap, -, -, msgTree, kept, hmsg, rfl⟩ := hdel
  refine ⟨find_free h.msg hr id hmsg, fun {path q} hq => ?_⟩
  obtain ⟨r', hr', hslots, hextra⟩ := h.tok hq
  have hne : q ≠ m := by
    rintro rfl
    rw [← cell_inj hr hr', hmap] at hextra
    cases hextra
  exact ⟨r', by rw [cell_free, if_neg hne, hr'], hslots, hextra⟩

lemma step (h : Sound p) {c} (hstep : step mIgnore mPseudo p c = some p') : Sound p' := by
  cases c with
  | add cmd tok parameters flags handlers =>
    obtain rfl := some.inj hstep
    cases hadd : Commands.parseAddCommand mIgnore p cmd tok parameters flags handlers with
    | none => exact h
    | some r => exact h.parseAddCommand hadd
  | del msg => exact h.parseDelCommand hstep
  | register map =>
    obtain rfl := some.inj hstep
    cases hadd : Commands.registerMapping mIgnore mPseudo p map with
    | none => exact h
    | some r => exact h.registerMapping hadd
  | unregister msg => exact h.unregisterMapping hstep

end Sound

variable {p : Tables η} {name : List UInt8}

lemma sound_of_run {mIgnore mPseudo msgtab cs} (htab : ∀ r ∈ msgtab, r.extra = none)
    (hrun : run (step mIgnore mPseudo) (initmsgtree msgtab) cs = some p) : Sound p :=
  run_keeps Sound (fun _ _ _ _ h hstep => h.step hstep) (.initmsgtree htab) hrun

/-! ### Adding a command -/

lemma findServer_eq (p : Tables η) (name) :
    findServer p name = (msgTreeParse name p.tokTree).or (msgTreeParse name p.msgTree) := by
  rw [findServer]
  cases msgTreeParse name p.tokTree <;> rfl

lemma isName_of_findServer {m} (h : findServer p name = some m) : isName name = true := by
  by_contra hname
  simp [findServer_eq, msgTreeParse_eq, hname] at h

lemma isName_of_findClient {m} (h : findClient p name = some m) : isName name = true := by
  by_contra hname
  simp [findClient, msgTreeParse_eq, hname] at h

lemma Sound.ne_next_of_findServer (h : Sound p) {m}
    (hm : findServer p name = some m) : m ≠ p.messages.next := by
  have hname := isName_of_findServer hm
  rw [findServer_eq, msgTreeParse_eq, msgTreeParse_eq, if_pos hname, if_pos hname,
    or_eq_some_iff] at hm
  rcases hm with hm | ⟨-, hm⟩
  · obtain ⟨r, hr, -⟩ := h.tok hm
    exact ne_next hr
  · obtain ⟨r, hr, -⟩ := h.msg hm
    exact ne_next hr

section Added

variable {mIgnore : η} {p p' : Tables η} {m : ℕ} {cmd : List UInt8} {tok : Option (List UInt8)}
  {parameters : ℕ} {flags : UInt32} {handlers : HandlerType → Option η}
  (h : parseAddCommand mIgnore p cmd tok parameters flags handlers = some (p', m))

include h

lemma parseAddCommand_inv :
    msgTreeParse cmd p.msgTree = none ∧ msgTreeParse (tok.getD cmd) p.tokTree = none ∧
      m = p.messages.next ∧ p'.msgTree = addMsgElement p.msgTree m cmd ∧
      p'.tokTree = addMsgElement p.tokTree m (tok.getD cmd) ∧
      ∃ r, p'.messages.cell m = some r ∧ r.cmd = cmd ∧ r.tok = tok.getD cmd := by
  rw [parseAddCommand] at h
  split_ifs at h with hfree
  simp only [Bool.or_eq_true, not_or, Bool.not_eq_true, isSome_eq_false_iff,
    isNone_iff_eq_none] at hfree
  obtain ⟨rfl, rfl⟩ := Prod.mk.inj (some.inj h)
  exact ⟨hfree.1, hfree.2, rfl, rfl, rfl, _, if_pos rfl, rfl, rfl⟩

lemma found_of_added (hname : isName cmd = true) (hnameTok : isName (tok.getD cmd) = true)
    (hcross : msgTreeParse (tok.getD cmd) p.msgTree = none)
    (hcross' : msgTreeParse cmd p.tokTree = none) :
    (∀ name q, findClient p name = some q → findClient p' name = some q) ∧
      (∀ name q, findServer p name = some q → findServer p' name = some q) ∧
      findClient p' cmd = some m ∧ findServer p' cmd = some m ∧
      findServer p' (tok.getD cmd) = some m := by
  obtain ⟨hcmd, htok, -, hmsgTree, htokTree, -⟩ := parseAddCommand_inv h
  simp only [findClient, findServer_eq, hmsgTree, htokTree]
  refine ⟨fun name q => msgTreeParse_add_of_some hname hcmd, fun name q hq => ?_, ?_, ?_, ?_⟩
  · rw [or_eq_some_iff] at hq
    rcases hq with hq | ⟨hnone, hq⟩
    · rw [msgTreeParse_add_of_some hnameTok htok hq, some_or]
    -- the name is found as a command, so it does not have the slots of the token
    have hne : ¬ (isName name = true ∧ slots name = slots (tok.getD cmd)) := by
      rintro ⟨-, hs⟩
      rw [msgTreeParse_eq_none hnameTok hcross hs] at hq
      cases hq
    rw [msgTreeParse_add, if_neg hne, hnone]
    exact msgTreeParse_add_of_some hname hcmd hq
  · rw [msgTreeParse_add, if_pos ⟨hname, rfl⟩]
  · have hself : msgTreeParse cmd (addMsgElement p.msgTree m cmd) = some m := by
      rw [msgTreeParse_add, if_pos ⟨hname, rfl⟩]
    rw [hself, msgTreeParse_add, hcross']
    split_ifs <;> rfl
  · rw [msgTreeParse_add, if_pos ⟨hnameTok, rfl⟩, some_or]

lemma restored_of_added (hname : isName cmd = true) (hnameTok : isName (tok.getD cmd) = true) :
    ∃ p'', parseDelCommand p' m = some p'' ∧
      ∀ name, findClient p'' name = findClient p name ∧
        findServer p'' name = findServer p name := by
  obtain ⟨hcmd, htok, -, hmsgTree, htokTree, r, hr, rfl, hrtok⟩ := parseAddCommand_inv h
  rw [← hrtok] at hnameTok htok htokTree
  have hin : p'.msgTree.find (slots r.cmd) ≠ none := by
    rw [hmsgTree, find_addMsgElement]
    simp
  have hinTok : p'.tokTree.find (slots r.tok) ≠ none := by
    rw [htokTree, find_addMsgElement]
    simp
  obtain ⟨msgTree, kept, hdel⟩ := delMsgElement_isSome hin
  obtain ⟨tokTree, kept', hdelTok⟩ := delMsgElement_isSome hinTok
  refine ⟨⟨p'.messages.free m, msgTree, tokTree⟩, ?_, fun name => ?_⟩
  · simp [parseDelCommand, hr, hdel, hdelTok]
  rw [hmsgTree] at hdel
  rw [htokTree] at hdelTok
  simp only [findClient, findServer_eq, msgTreeParse_del_add hname hcmd hdel,
    msgTreeParse_del_add hnameTok htok hdelTok, and_self]

lemma cross_of_found (hsound : Sound p)
    (hkeep : ∀ name q, findServer p name = some q → findServer p' name = some q)
    {name} (hnew : findServer p' name = some m) : findServer p name = none := by
  obtain ⟨-, -, hm, -⟩ := parseAddCommand_inv h
  by_contra hother
  obtain ⟨q, hq⟩ := ne_none_iff_exists'.mp hother
  have hsame := (hkeep name q hq).symm.trans hnew
  exact hsound.ne_next_of_findServer hq (some.inj hsame ▸ hm)

end Added

/-- **A command that was added**, in any state. Every name is still found, the name and the token
lead to the new message, and removing it leaves all names as they were: exactly if both are made of
the characters of commands, the token is not the name of another command and the name not the token
of one. -/
theorem added_iff {mIgnore mPseudo : η} {msgtab : List (Message η)} {cs : List (Call η)}
    {p p' : Tables η} {m : ℕ} (htab : ∀ r ∈ msgtab, r.extra = none)
    (hrun : run (step mIgnore mPseudo) (initmsgtree msgtab) cs = some p)
    (cmd : List UInt8) (tok : Option (List UInt8)) (parameters : ℕ) (flags : UInt32)
    (handlers : HandlerType → Option η)
    (hadd : parseAddCommand mIgnore p cmd tok parameters flags handlers = some (p', m)) :
    ((∀ name q, findClient p name = some q → findClient p' name = some q) ∧
        (∀ name q, findServer p name = some q → findServer p' name = some q) ∧
        findClient p' cmd = some m ∧ findServer p' cmd = some m ∧
        findServer p' (tok.getD cmd) = some m ∧
        ∃ p'', parseDelCommand p' m = some p'' ∧
          ∀ name, findClient p'' name = findClient p name ∧
            findServer p'' name = findServer p name) ↔
      (isName cmd = true ∧ isName (tok.getD cmd) = true ∧
        msgTreeParse (tok.getD cmd) p.msgTree = none ∧ msgTreeParse cmd p.tokTree = none) := by
  have hsound := sound_of_run htab hrun
  constructor
  · rintro ⟨-, hkeep, hnew, hnewServer, hnewTok, -⟩
    have hfreeTok := cross_of_found hadd hsound hkeep hnewTok
    have hfree := cross_of_found hadd hsound hkeep hnewServer
    rw [findServer_eq, or_eq_none_iff] at hfreeTok hfree
    exact ⟨isName_of_findClient hnew, isName_of_findServer hnewTok, hfreeTok.2, hfree.1⟩
  · rintro ⟨hname, hnameTok, hcross, hcross'⟩
    obtain ⟨hclient, hserver, hnew, hnewServer, hnewTok⟩ :=
      found_of_added hadd hname hnameTok hcross hcross'
    exact ⟨hclient, hserver, hnew, hnewServer, hnewTok, restored_of_added hadd hname hnameTok⟩

def privmsgTable : List (Message Unit) :=
  [{ cmd := str "PRIVMSG", tok := str "P", count := 0, parameters := 15, flags := 0, bytes := 0
     extra := none, handlers := fun _ => () }]

/-- A module adds a command with a name of letters. -/
theorem added_iff_spamfilter :
    ∃ p' m, parseAddCommand () (initmsgtree privmsgTable) (str "SPAMFILTER") (str "SF") 15 0
        (fun _ => none) = some (p', m) ∧
      findServer p' (str "SF") = some m ∧ findServer p' (str "P") = some 0 := by
  have hsome : (parseAddCommand () (initmsgtree privmsgTable) (str "SPAMFILTER") (str "SF") 15 0
      (fun _ => none)).isSome = true := by decide +kernel
  obtain ⟨⟨p', m⟩, hadd⟩ := isSome_iff_exists.mp hsome
  have hrun : run (step () ()) (initmsgtree privmsgTable) [] = some (initmsgtree privmsgTable) :=
    rfl
  have hiff := added_iff (by simp [privmsgTable]) hrun _ _ _ _ _ hadd
  obtain ⟨-, hserver, -, -, htok, -⟩ := hiff.mpr (by decide +kernel)
  exact ⟨p', m, hadd, htok, hserver _ _ (by decide +kernel)⟩

/-- **No look-up dangles.** Whatever was added, removed and mapped, a name leads to a message that
exists and has it. -/
theorem found_live {mIgnore mPseudo : η} {msgtab cs p} (htab : ∀ r ∈ msgtab, r.extra = none)
    (hrun : run (step mIgnore mPseudo) (initmsgtree msgtab) cs = some p)
    (name : List UInt8) (m : ℕ) :
    (findClient p name = some m → ∃ r, p.messages.cell m = some r ∧ slots r.cmd = slots name) ∧
      (findServer p name = some m → ∃ r, p.messages.cell m = some r ∧
        (slots r.tok = slots name ∨ slots r.cmd = slots name)) := by
  have h := sound_of_run htab hrun
  have hfind {t} (hm : msgTreeParse name t = some m) : t.find (slots name) = some m := by
    rw [msgTreeParse_eq] at hm
    split_ifs at hm
    exact hm
  refine ⟨fun hm => h.msg (hfind hm), fun hm => ?_⟩
  rw [findServer_eq, Option.or_eq_some_iff] at hm
  rcases hm with hm | ⟨-, hm⟩
  · obtain ⟨r, hr, htok, -⟩ := h.tok (hfind hm)
    exact ⟨r, hr, .inl htok⟩
  · obtain ⟨r, hr, hcmd⟩ := h.msg (hfind hm)
    exact ⟨r, hr, .inr hcmd⟩

/-- A module adds two commands and deletes the first of them. -/
theorem found_live_deleted :
    ∃ p, run (step () ()) (initmsgtree privmsgTable)
        [.add (str "SPAMFILTER") (str "SF") 15 0 fun _ => none,
          .add (str "SPAM") none 15 0 fun _ => none, .del 1] = some p ∧
      findClient p (str "SPAMFILTER") = none ∧ p.messages.cell 1 = none ∧
      findServer p (str "SPAM") = some 2 ∧
      ∃ r, p.messages.cell 2 = some r ∧
        (slots r.tok = slots (str "SPAM") ∨ slots r.cmd = slots (str "SPAM")) := by
  have hsome : (run (step () ()) (initmsgtree privmsgTable)
      [.add (str "SPAMFILTER") (str "SF") 15 0 fun _ => none,
        .add (str "SPAM") none 15 0 fun _ => none, .del 1]).any (fun p =>
      findClient p (str "SPAMFILTER") = none && (p.messages.cell 1).isNone &&
        findServer p (str "SPAM") = some 2) = true := by decide +kernel
  obtain ⟨p, hp, hall⟩ := (any_eq_true _ _).mp hsome
  simp only [Bool.and_eq_true, decide_eq_true_eq, isNone_iff_eq_none] at hall
  exact ⟨p, hp, hall.1.1, hall.1.2, hall.2,
    (found_live (by simp [privmsgTable]) hp _ 2).2 hall.2⟩

/-- A module adds a command `0RIVMSG`: PRIVMSG leads to it from now on, and its own name leads
nowhere. -/
theorem added_digit_replaces_privmsg :
    findClient (initmsgtree privmsgTable) (str "PRIVMSG") = some 0 ∧
      (parseAddCommand () (initmsgtree privmsgTable) (str "0RIVMSG") (str "SF") 15 0
        (fun _ => none)).map (fun r => (r.2, findClient r.1 (str "PRIVMSG"),
          findClient r.1 (str "0RIVMSG"))) = some (1, some 1, none) := by
  decide +kernel

end Ircu.Commands
