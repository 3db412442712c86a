import Ircu.Chattr
import Ircu.Run.Basic

/-!
The table of clients of `hash.c`.

A client lies in the chain of its name's hash. `hSeekClient` moves the client that it finds to
the front of the chain, so a lookup writes too.

* `Inv.step`: each call keeps the table in step with the set of the clients that were entered;
* `hSeekClient_finds`: a lookup answers from that set, whatever was called before.
-/

namespace Ircu.Hash

open List Run Function

/-- The clients, and `clientTable`; a chain through `cli_hnext` is a list. -/
structure World (ι : Type*) where
  name : ι → List UInt8
  status : ι → BitVec 32
  clientTable : ℕ → List ι

variable {ι : Type*} (crc : UInt8 → UInt32) (w : World ι)

def HASHSIZE : ℕ := 32000

/-- `strhash`, of a name in lower case, with the table `crc32hash`. -/
def strhash : List UInt8 → ℕ
  | [] => (crc 0).toNat % HASHSIZE
  | n :: ns =>
    let step (hash : UInt32) (n : UInt8) := (hash >>> 8) ^^^ crc (hash ^^^ n.toUInt32).toUInt8
    (ns.foldl step (crc n)).toNat % HASHSIZE

def hashv (name : List UInt8) : ℕ := strhash crc (name.map toLower)

/-- What `hSeekClient` looks for. -/
def Fits (name : List UInt8) (tmask : BitVec 32) (cptr : ι) : Prop :=
  w.status cptr &&& tmask ≠ 0 ∧ sameText name (w.name cptr)

instance (name : List UInt8) (tmask : BitVec 32) : DecidablePred (Fits w name tmask) :=
  fun _ => inferInstanceAs (Decidable (_ ∧ _))

def setChain (b : ℕ) (chain : List ι) : World ι :=
  { w with clientTable := update w.clientTable b chain }

/-- A client is put in front of the chain of its name. -/
def hAddClient (cptr : ι) : World ι :=
  setChain w (hashv crc (w.name cptr)) (cptr :: w.clientTable (hashv crc (w.name cptr)))

/-- The clients of `s` are in the table, each once and in the chain of its name, and no others. -/
structure Inv (s : Set ι) : Prop where
  nodup : ∀ b, (w.clientTable b).Nodup
  mem : ∀ b c, c ∈ w.clientTable b ↔ c ∈ s ∧ hashv crc (w.name c) = b

section

variable {crc w} {c : ι} {s s' : Set ι}

lemma Inv.setChain {b chain} (h : Inv crc w s) (hnodup : chain.Nodup)
    (hmem : ∀ d, d ∈ chain ↔ d ∈ s' ∧ hashv crc (w.name d) = b)
    (hother : ∀ d, hashv crc (w.name d) ≠ b → (d ∈ s' ↔ d ∈ s)) :
    Inv crc (setChain w b chain) s' := by
  refine ⟨fun a => ?_, fun a d => ?_⟩ <;> by_cases ha : a = b
  · simpa [Hash.setChain, ha] using hnodup
  · simpa [Hash.setChain, ha] using h.nodup a
  · simpa [Hash.setChain, ha] using hmem d
  · simp only [Hash.setChain, update_of_ne ha, h.mem]
    exact and_congr_left fun heq => (hother d (heq ▸ ha)).symm

lemma Inv.add (h : Inv crc w s) (hc : c ∉ s) : Inv crc (hAddClient crc w c) (insert c s) := by
  have hmem := h.mem (hashv crc (w.name c))
  refine h.setChain (nodup_cons.mpr ⟨fun hin => hc ((hmem c).mp hin).1, h.nodup _⟩) ?_ ?_
  · grind
  · grind

end

/-! ### Whole runs -/

variable [DecidableEq ι]

/-- Zero if the client was in the chain of its name, which it is taken out of. -/
def hRemClient (w : World ι) (cptr : ι) : World ι × ℤ :=
  let chain := w.clientTable (hashv crc (w.name cptr))
  if cptr ∈ chain then (setChain w (hashv crc (w.name cptr)) (chain.erase cptr), 0) else (w, -1)

/-- The first client of the chain that fits is taken out behind the ones before it and put in
front. -/
def hSeekClient (w : World ι) (name : List UInt8) (tmask : BitVec 32) : Option ι × World ι :=
  let chain := w.clientTable (hashv crc name)
  match chain.find? (Fits w name tmask) with
  | none => (none, w)
  | some cptr => (some cptr, setChain w (hashv crc name) (cptr :: chain.erase cptr))

/-- The client moves to the chain of a name it does not have yet. -/
def hChangeClient (w : World ι) (cptr : ι) (newname : List UInt8) : World ι :=
  let w := (hRemClient crc w cptr).1
  setChain w (hashv crc newname) (cptr :: w.clientTable (hashv crc newname))

def setName (w : World ι) (cptr : ι) (name : List UInt8) : World ι :=
  { w with name := update w.name cptr name }

/-- The calls. A client is renamed by `hChangeClient` and the copy of the name behind it
(`change`), and outside of the table by the copy alone (`rename`). -/
inductive Event (ι : Type*) where
  | add (cptr : ι)
  | rem (cptr : ι)
  | change (cptr : ι) (newname : List UInt8)
  | rename (cptr : ι) (newname : List UInt8)
  | status (cptr : ι) (bits : BitVec 32)
  | seek (name : List UInt8) (tmask : BitVec 32)

def step (w : World ι) : Event ι → Option (World ι)
  | .add cptr => some (hAddClient crc w cptr)
  | .rem cptr => some (hRemClient crc w cptr).1
  | .change cptr newname => some (setName (hChangeClient crc w cptr newname) cptr newname)
  | .rename cptr newname => some (setName w cptr newname)
  | .status cptr bits => some { w with status := update w.status cptr bits }
  | .seek name tmask => some (hSeekClient crc w name tmask).2

/-- Names are not empty, and who is in the table is neither entered again nor renamed behind the
table's back. -/
def Allowed : Event ι → Prop
  | .add cptr => w.name cptr ≠ [] ∧ ∀ b, cptr ∉ w.clientTable b
  | .rem cptr => w.name cptr ≠ []
  | .change cptr newname => w.name cptr ≠ [] ∧ newname ≠ []
  | .rename cptr _ => ∀ b, cptr ∉ w.clientTable b
  | .status .. => True
  | .seek name _ => name ≠ []

/-- Who is in the table after a call. -/
def enter (s : Set ι) : Event ι → Set ι
  | .add cptr | .change cptr _ => insert cptr s
  | .rem cptr => s \ {cptr}
  | _ => s

variable {crc} {w : World ι} {c : ι} {name : List UInt8} {tmask : BitVec 32} {s : Set ι}

/-- A lookup answers from the chain, and only moves the clients of the chain. -/
lemma hSeekClient_cases {r} (hr : hSeekClient crc w name tmask = r) :
    r.1 = (w.clientTable (hashv crc name)).find? (Fits w name tmask) ∧
    ∃ table, r.2 = { w with clientTable := table } ∧ ∀ b, (table b).Perm (w.clientTable b) := by
  rw [hSeekClient] at hr
  split at hr <;> subst hr
  · next hnone => exact ⟨hnone.symm, _, rfl, fun _ => .refl _⟩
  next c hsome =>
  refine ⟨hsome.symm, _, rfl, fun b => ?_⟩
  by_cases hb : b = hashv crc name
  · simpa [hb] using (perm_cons_erase (mem_of_find?_eq_some hsome)).symm
  · rw [update_of_ne hb]

lemma Inv.rem (h : Inv crc w s) (c) : Inv crc (hRemClient crc w c).1 (s \ {c}) := by
  have hmem := h.mem (hashv crc (w.name c))
  rw [hRemClient]
  split_ifs with hc
  · refine h.setChain ((h.nodup _).erase c) (fun d => ?_) ?_
    · grind [(h.nodup _).mem_erase_iff]
    · grind
  · rwa [Set.sdiff_singleton_eq_self fun hs => hc ((hmem c).mpr ⟨hs, rfl⟩)]

lemma Inv.setName (h : Inv crc w s) (hc : c ∉ s) (name) : Inv crc (setName w c name) s := by
  refine ⟨h.nodup, fun b d => (h.mem b d).trans (and_congr_right fun hd => ?_)⟩
  simp only [Hash.setName, update_of_ne (fun heq : d = c => hc (heq ▸ hd))]

/-- **One call**: each client that is entered is in the chain of its name. -/
lemma Inv.step {e} (h : Inv crc w s) (he : Allowed w e) :
    ∃ w', Hash.step crc w e = some w' ∧ Inv crc w' (enter s e) := by
  have hfree {c} (hc : ∀ b, c ∉ w.clientTable b) : c ∉ s :=
    fun hs => hc _ ((h.mem _ c).mpr ⟨hs, rfl⟩)
  cases e with
  | add c => exact ⟨_, rfl, h.add (hfree he.2)⟩
  | rem c => exact ⟨_, rfl, h.rem c⟩
  | change c name =>
    have hc : c ∉ s \ {c} := by simp
    have hadd := ((h.rem c).setName hc name).add hc
    refine ⟨_, rfl, ?_⟩
    simpa [hAddClient, Hash.setName, hChangeClient, Hash.setChain, enter] using hadd
  | rename c name => exact ⟨_, rfl, h.setName (hfree he) name⟩
  | status c bits => exact ⟨_, rfl, h.nodup, h.mem⟩
  | seek name tmask =>
    obtain ⟨-, table, heq, hperm⟩ := hSeekClient_cases (rfl : hSeekClient crc w name tmask = _)
    exact ⟨_, congrArg some heq, fun b => (hperm b).nodup_iff.mpr (h.nodup b),
      fun b c => (hperm b).mem_iff.trans (h.mem b c)⟩

lemma Inv.run {es} (h : Inv crc w s) (hes : Permitted (Hash.step crc) Allowed w es) :
    ∃ w', run (Hash.step crc) w es = some w' ∧ Inv crc w' (es.foldl enter s) := by
  induction es generalizing w s with
  | nil => exact ⟨w, rfl, h⟩
  | cons e es ih =>
    obtain ⟨t, ht, hinv⟩ := h.step hes.1
    obtain ⟨w', hrun, hw'⟩ := ih hinv (hes.2 t ht)
    exact ⟨w', run_cons_eq_some.mpr ⟨t, ht, hrun⟩, hw'⟩

/-- **Lookups.** After any calls the clients that were entered are in the table, each once; a
lookup finds one exactly if one of them fits, and only reorders the chains. -/
theorem hSeekClient_finds (hw : ∀ b, w.clientTable b = []) {es : List (Event ι)}
    (hes : Permitted (step crc) Allowed w es) :
    ∃ w', run (step crc) w es = some w' ∧ Inv crc w' (es.foldl enter ∅) ∧
      ∀ name tmask,
        ((hSeekClient crc w' name tmask).1.isSome ↔ ∃ c ∈ es.foldl enter ∅, Fits w' name tmask c) ∧
        (∀ c ∈ (hSeekClient crc w' name tmask).1, c ∈ es.foldl enter ∅ ∧ Fits w' name tmask c) ∧
        ∀ b, ((hSeekClient crc w' name tmask).2.clientTable b).Perm (w'.clientTable b) := by
  obtain ⟨w', hrun, hinv⟩ := Inv.run (s := ∅) ⟨by simp [hw], by simp [hw]⟩ hes
  refine ⟨w', hrun, hinv, fun name tmask => ?_⟩
  obtain ⟨hfind, table, heq, hperm⟩ :=
    hSeekClient_cases (rfl : hSeekClient crc w' name tmask = _)
  -- names that are the same text have one hash
  have hchain {c} (hfits : Fits w' name tmask c) :
      c ∈ w'.clientTable (hashv crc name) ↔ c ∈ es.foldl enter ∅ := by
    rw [hinv.mem, hashv, hashv, hfits.2, and_iff_left rfl]
  refine ⟨?_, fun c hc => ?_, fun b => heq ▸ hperm b⟩
  · rw [hfind, find?_isSome]
    refine exists_congr fun c => ?_
    rw [decide_eq_true_eq]
    exact and_congr_left fun hf => hchain hf
  · rw [hfind, Option.mem_def] at hc
    have hf : Fits w' name tmask c := by simpa using find?_some hc
    exact ⟨(hchain hf).mp (mem_of_find?_eq_some hc), hf⟩

/-- Clients that all have one name, of which the first has another status. -/
def namesakes : World ℕ := ⟨fun _ => str "ab", fun c => if c = 0 then 1 else 2, fun _ => []⟩

/-- Two clients of one chain, of which the one that was found is moved to the front. -/
theorem hSeekClient_finds_moved : ∃ w',
    run (step (·.toUInt32)) namesakes [.add 0, .add 1, .seek (str "AB") 1] = some w' ∧
      w'.clientTable (hashv (·.toUInt32) (str "ab")) = [0, 1] ∧
      (hSeekClient (·.toUInt32) w' (str "aB") 2).1.isSome := by
  have hcalls : Permitted (step (·.toUInt32)) Allowed namesakes
      [.add 0, .add 1, .seek (str "AB") 1] := by
    have hname : str "ab" ≠ [] := by decide
    refine ⟨⟨hname, by simp [namesakes]⟩, ?_⟩
    rintro _ ⟨⟩
    refine ⟨⟨hname, fun b hb => ?_⟩, ?_⟩
    · by_cases hchain : b = hashv (·.toUInt32) (str "ab") <;>
        simp [hAddClient, setChain, namesakes, hchain] at hb
    · rintro _ ⟨⟩
      exact ⟨show str "AB" ≠ [] by decide, fun _ _ => trivial⟩
  obtain ⟨w', hrun, -, h⟩ := hSeekClient_finds (fun _ => rfl) hcalls
  refine ⟨w', hrun, ?_, (h _ _).1.mpr ⟨1, by simp [enter], ?_⟩⟩ <;>
  · cases hrun
    decide +kernel

end Ircu.Hash
