import Ircu.Modsync.Basic

/-!
What transactions do to the table of modules of one server.

The records of a server say how its table came about: each begins with the table that the one before
it left, and the last one ends with the table there is now. Only the last one can be open, and it is
open as long as the server takes part in a transaction.

* `Applied`: the operation has been done; `Deal.applied`: it has been if the transaction was
  committed; `Deal.undone`: an aborted load leaves no trace.
* `Booked`: the records are right; `Booked.settle`, `Booked.decline` and `Booked.agree`: they stay
  so.
-/

namespace Ircu.Modsync

variable {σ : Type} {W : World σ} {me v : σ}

/-! ### Operations -/

def Applied (lib : Library) (order : Order) (before after : List ModuleHandle) : Prop :=
  match order.op with
  | .load => moduleLoadIsolation lib before order.name order.process = .ok after
  | .unload => ∃ mod, moduleNamed before order.name = some mod ∧ after = moduleUnload before mod
  | .reload =>
    ∃ mod, moduleNamed before order.name = some mod ∧
      moduleLoadIsolation lib (moduleUnload before mod) (mod.file.take (MODSYNC_NAME_LEN - 1))
        mod.isolated = .ok after

variable {mods mods' : List ModuleHandle} {order : Order} {undo : Bool}

lemma moduleLoadIsolation_ok {lib name process}
    (h : moduleLoadIsolation lib mods name process = .ok mods') :
    ∃ info, mods' = ⟨name, info, process⟩ :: mods := by
  rw [moduleLoadIsolation] at h
  cases hres : lib.resolve name with
  | some err =>
    rw [hres] at h
    cases h
  | none =>
    simp only [hres] at h
    split_ifs at h with hfile
    cases hstart : lib.start name process with
    | error err =>
      rw [hstart] at h
      cases h
    | ok info =>
      simp only [hstart] at h
      split_ifs at h with hfind
      exact ⟨info, (Except.ok.inj h).symm⟩

open List

lemma dropNamed_load {lib name process}
    (h : moduleLoadIsolation lib mods name process = .ok mods') : dropNamed mods' name = mods := by
  obtain ⟨info, rfl⟩ := moduleLoadIsolation_ok h
  have hfind : moduleNamed (⟨name, info, process⟩ :: mods) name = some ⟨name, info, process⟩ := by
    rw [moduleNamed, moduleFindFile, find?_cons_of_pos (by simp), Option.some_or]
  simp only [dropNamed, hfind, moduleUnload, erase_cons_head]

lemma partPrepare_load (hop : order.op = .load)
    (h : partPrepare W me mods order = (mods', .ok undo)) :
    undo = true ∧ moduleLoadIsolation (W.library me) mods order.name order.process = .ok mods' := by
  rw [partPrepare, hop] at h
  simp only at h
  split_ifs at h with hnamed
  · cases h
  cases hload : moduleLoadIsolation (W.library me) mods order.name order.process with
  | error err =>
    rw [hload] at h
    cases h
  | ok mods =>
    rw [hload] at h
    cases h
    exact ⟨rfl, rfl⟩

lemma partPrepare_unload (hop : order.op = .unload)
    (h : partPrepare W me mods order = (mods', .ok undo)) :
    mods' = mods ∧ ∃ mod, moduleNamed mods order.name = some mod := by
  rw [partPrepare, hop] at h
  simp only at h
  split_ifs at h with hnamed
  · cases h
  · cases h
    exact ⟨rfl, Option.ne_none_iff_exists'.mp fun hnone => hnamed (by rw [hnone]; rfl)⟩

lemma partPrepare_reload (hop : order.op = .reload)
    (h : partPrepare W me mods order = (mods', .ok undo)) :
    ∃ mod, moduleNamed mods order.name = some mod ∧
      moduleLoadIsolation (W.library me) (moduleUnload mods mod)
        (mod.file.take (MODSYNC_NAME_LEN - 1)) mod.isolated = .ok mods' := by
  rw [partPrepare, hop] at h
  cases hnamed : moduleNamed mods order.name with
  | none =>
    rw [hnamed] at h
    cases h
  | some mod =>
    refine ⟨mod, rfl, ?_⟩
    simp only [hnamed] at h
    cases hload : moduleLoadIsolation (W.library me) (moduleUnload mods mod)
        (mod.file.take (MODSYNC_NAME_LEN - 1)) mod.isolated with
    | error err =>
      rw [hload] at h
      cases h
    | ok mods =>
      rw [hload] at h
      cases h
      rfl

lemma partPrepare_load_error {why} (hop : order.op = .load)
    (h : partPrepare W me mods order = (mods', .error why)) : mods' = mods := by
  rw [partPrepare, hop] at h
  simp only at h
  split_ifs at h with hnamed
  · cases h
    rfl
  cases hload : moduleLoadIsolation (W.library me) mods order.name order.process with
  | error err =>
    rw [hload] at h
    cases h
    rfl
  | ok mods =>
    rw [hload] at h
    cases h

lemma applied_of_commit (h : partPrepare W me mods order = (mods', .ok undo)) :
    Applied (W.library me) order mods (partCommit mods' order) := by
  cases hop : order.op with
  | load =>
    rw [Applied, partCommit, hop]
    exact (partPrepare_load hop h).2
  | unload =>
    obtain ⟨rfl, mod, hmod⟩ := partPrepare_unload hop h
    rw [Applied, partCommit, hop, if_pos rfl]
    exact ⟨mod, hmod, by rw [dropNamed, hmod]⟩
  | reload =>
    rw [Applied, partCommit, hop]
    exact partPrepare_reload hop h

lemma rollback_load (hop : order.op = .load) (h : partPrepare W me mods order = (mods', .ok undo)) :
    partRollback mods' undo order = mods := by
  obtain ⟨rfl, hload⟩ := partPrepare_load hop h
  rw [partRollback, if_pos rfl, dropNamed_load hload]

/-! ### Records -/

def Deal.Valid (W : World σ) (me : σ) (d : Deal σ) : Prop :=
  match d.fate with
  | .refused => ∃ why, partPrepare W me d.before d.order = (d.after, .error why)
  | .pending => ∃ undo, partPrepare W me d.before d.order = (d.after, .ok undo)
  | .settled commit =>
    ∃ mods undo, partPrepare W me d.before d.order = (mods, .ok undo) ∧
      d.after =
        if commit then partCommit mods d.order else partRollback mods undo d.order

lemma Deal.applied {d : Deal σ} (h : d.Valid W me) (hd : d.fate = .settled true) :
    Applied (W.library me) d.order d.before d.after := by
  rw [Deal.Valid, hd] at h
  obtain ⟨mods, undo, hprep, hafter⟩ := h
  rw [hafter, if_pos rfl]
  exact applied_of_commit hprep

lemma Deal.undone {d : Deal σ} (h : d.Valid W me) (hop : d.order.op = .load)
    (hd : d.fate = .refused ∨ d.fate = .settled false) : d.after = d.before := by
  rcases hd with hd | hd
  · rw [Deal.Valid, hd] at h
    obtain ⟨why, hprep⟩ := h
    exact partPrepare_load_error hop hprep
  rw [Deal.Valid, hd] at h
  obtain ⟨mods, undo, hprep, hafter⟩ := h
  rw [hafter, if_neg (by decide)]
  exact rollback_load hop hprep

inductive Books (W : World σ) (me : σ) (init : List ModuleHandle) :
    List (Deal σ) → List ModuleHandle → Prop
  | nil : Books W me init [] init
  | cons {d : Deal σ} {ds : List (Deal σ)} (hds : Books W me init ds d.before)
      (hd : d.Valid W me) : Books W me init (d :: ds) d.after

lemma Books.valid {init ds} (h : Books W me init ds mods) : ∀ d ∈ ds, d.Valid W me := by
  induction h with
  | nil => simp
  | cons hds hd ih =>
    intro d' hd'
    rcases mem_cons.mp hd' with rfl | hd'
    · exact hd
    · exact ih d' hd'

/-- The last record is open, and about the transaction that the server takes part in. -/
structure Deal.Open (W : World σ) (me : σ) (p : Part σ) (d : Deal σ) : Prop where
  fate : d.fate = .pending
  txid : d.txid = p.txid
  order : d.order = p.order
  prepared : (partPrepare W me d.before d.order).2 = .ok p.undoLoad

structure Booked (W : World σ) (me : σ) (init : List ModuleHandle) (s : Core σ) : Prop where
  books : Books W me init s.deals s.modules
  part : ∀ p, s.part = some p → ∃ d ds, s.deals = d :: ds ∧ d.Open W me p
  free : s.part = none → ∀ d ∈ s.deals, d.fate ≠ .pending
  tail : ∀ d ∈ s.deals.tail, d.fate ≠ .pending

section Booked

variable {init : List ModuleHandle} {c c' : Core σ} {p : Part σ}
  {t : Txid σ}

lemma Booked.congr (h : Booked W me init c) (hdeals : c'.deals = c.deals)
    (hmods : c'.modules = c.modules) (hpart : c'.part = c.part) : Booked W me init c' :=
  ⟨hdeals ▸ hmods ▸ h.books, hdeals ▸ hpart ▸ h.part, hdeals ▸ hpart ▸ h.free, hdeals ▸ h.tail⟩

def settled (commit : Bool) (p : Part σ) (mods : List ModuleHandle) : List ModuleHandle :=
  if commit then partCommit mods p.order else partRollback mods p.undoLoad p.order

def Core.settle (commit : Bool) (p : Part σ) (c : Core σ) : Core σ :=
  { c with
    part := none
    modules := settled commit p c.modules
    deals := closeDeal commit (settled commit p c.modules) c.deals }

def Core.record (t : Txid σ) (order : Order) (fate : Fate) (mods : List ModuleHandle)
    (c : Core σ) : Core σ :=
  { c with modules := mods, deals := ⟨t, order, c.modules, fate, mods⟩ :: c.deals }

lemma Booked.settle (h : Booked W me init c) (hp : c.part = some p) (commit) :
    Booked W me init (c.settle commit p) := by
  obtain ⟨d, ds, hdeals, hopen⟩ := h.part p hp
  have hbooks := h.books
  have htail := h.tail
  rw [hdeals] at hbooks htail
  rw [Core.settle, hdeals]
  generalize c.modules = mods at hbooks
  cases hbooks with
  | cons hds hd =>
    rw [Deal.Valid, hopen.fate] at hd
    obtain ⟨undo, hprep⟩ := hd
    have hundo : undo = p.undoLoad := by
      have hok := hopen.prepared
      rw [hprep] at hok
      exact Except.ok.inj hok
    refine ⟨?_, (fun _ h => by cases h), fun _ d' hd' => ?_, htail⟩
    · refine .cons
        hds ⟨d.after, undo, hprep, ?_⟩
      rw [hundo, settled, hopen.order]
    · rcases mem_cons.mp hd' with rfl | hd'
      · exact fun h => by cases h
      · exact htail d' hd'

lemma Booked.decline (h : Booked W me init c) (hpart : c.part = none) {why}
    (hprep : partPrepare W me c.modules order = (mods, .error why)) :
    Booked W me init (c.record t order .refused mods) := by
  have hfree := h.free hpart
  refine ⟨.cons h.books ⟨why, hprep⟩, fun p hp => ?_, fun _ d hd => ?_, hfree⟩
  · rw [Core.record, hpart] at hp
    cases hp
  · rcases mem_cons.mp hd with rfl | hd
    · exact fun h => by cases h
    · exact hfree d hd

lemma Booked.agree (h : Booked W me init c) (hpart : c.part = none) {undo}
    (hprep : partPrepare W me c.modules order = (mods, .ok undo)) (u : σ) : Booked W me init
      { c.record t order .pending mods with part := some ⟨t, order, undo, u⟩ } := by
  refine ⟨.cons h.books ⟨undo, hprep⟩, fun p hp => ?_, (fun hnone => by cases hnone), h.free hpart⟩
  cases hp
  exact ⟨_, _, rfl, rfl, rfl, rfl, by rw [hprep]⟩

end Booked

end Ircu.Modsync
