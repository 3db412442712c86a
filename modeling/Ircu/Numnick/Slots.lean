import Ircu.Numnick.Basic

/-!
The numerics of local clients: `SetYXXCapacity`, `SetLocalNumNick`, `RemoveYXXClient` and
`findNUser` of `numnicks.c`.

A numeric has 18 bits, and a table of clients has a slot for the low bits of it that the
mask of the server keeps. A local client gets the next numeric, counted in a circle, whose
slot is free.
-/

namespace Ircu.Numnick

open List Option

/-! ### The code -/

def NN_MAX_SERVER : ℕ := 4096
def NN_MAX_CLIENT : ℕ := 262144

/-- The part of a server that numerics are about: its own numeric (`cli_yxx`), the mask
`nn_mask` and the table `client_list`. -/
structure Server (κ : Type*) where
  yxx : List UInt8
  nnMask : ℕ
  clientList : ℕ → Option κ

/-- The state of `numnicks.c`: the table of servers, the servers, the numerics of the
clients, and the counter of `SetLocalNumNick`. The empty text stands for no numeric. -/
structure Numerics (σ κ : Type*) where
  serverList : ℕ → Option σ
  serv : σ → Server κ
  yxx : κ → List UInt8
  me : σ
  lastNn : ℕ

/-- The loop of `SetYXXCapacity` over an `unsigned int`, which need not end. -/
def growCapacity (capacity : ℕ) : ℕ → ℕ → Option ℕ
  | 0, _ => none
  | fuel + 1, maxClients =>
    if maxClients < capacity then growCapacity capacity fuel (maxClients * 2 % 2 ^ 32)
    else some maxClients

/-- The mask, unless the server exits. The loop ends within 28 turns if it ends. -/
def setYXXCapacity (capacity : ℕ) : Option ℕ :=
  match growCapacity capacity 29 16 with
  | none => none
  | some maxClients => if maxClients > NN_MAX_CLIENT then none else some (maxClients - 1)

/-- The loop of `SetLocalNumNick`: the next numeric whose slot is free, with `left` tests
to go. -/
def seek (taken : ℕ → Bool) : ℕ → ℕ → Option ℕ
  | 0, _ => none
  | left + 1, nn =>
    if taken nn then seek taken left (if nn + 1 = NN_MAX_CLIENT then 0 else nn + 1)
    else some nn

variable {σ κ : Type*}

def Numerics.setSlot [DecidableEq σ] (w : Numerics σ κ) (s : σ) (i : ℕ) (c : Option κ) :
    Numerics σ κ :=
  { w with
    serv := fun t =>
      if t = s then
        { w.serv t with clientList := fun j => if j = i then c else (w.serv t).clientList j }
      else w.serv t }

/-- `cli_yxx` of a client is written. -/
def Numerics.setYxx [DecidableEq κ] (w : Numerics σ κ) (c : κ) (yxx : List UInt8) : Numerics σ κ :=
  { w with yxx := fun d => if d = c then yxx else w.yxx d }

/-- No result if it returns 0. -/
def setLocalNumNick [DecidableEq σ] [DecidableEq κ] (w : Numerics σ κ) (c : κ) :
    Option (Numerics σ κ) :=
  let s := w.serv w.me
  match seek (fun nn => (s.clientList (nn &&& s.nnMask)).isSome) NN_MAX_CLIENT w.lastNn with
  | none => none
  | some nn =>
    let w := (w.setSlot w.me (nn &&& s.nnMask) (some c)).setYxx c (inttobase64 nn 3)
    some { w with lastNn := if nn + 1 = NN_MAX_CLIENT then 0 else nn + 1 }

def removeYXXClient [DecidableEq σ] (w : Numerics σ κ) (server : σ) (yxx : List UInt8) :
    Numerics σ κ :=
  if yxx = [] then w else w.setSlot server (base64toint yxx &&& (w.serv server).nnMask) none

variable (w : Numerics σ κ)

def findXNServer (numeric : List UInt8) : Option σ :=
  w.serverList (base64toint (numeric.take 2))

def findNServer (numeric : List UInt8) : Option σ :=
  if numeric.length < 3 then w.serverList (base64toint numeric)
  else if numeric.length = 3 then w.serverList (base64toint (numeric.take 1))
  else findXNServer w numeric

/-- `findNUser`, for a text that is not empty. -/
def findNUser (yxx : List UInt8) : Option κ :=
  let (server, rest) :=
    if yxx.length = 5 then (findXNServer w yxx, yxx.drop 2)
    else (findNServer w yxx, yxx.drop 1)
  match server with
  | none => none
  | some s => (w.serv s).clientList (base64toint rest &&& (w.serv s).nnMask)

/-! ### Clients come and go -/

/-- What happens to a client of this server: `register_user` gives it its numeric, and
`exit_one_client` takes the numeric back. -/
inductive Event (κ : Type*)
  | connect (c : κ)
  | exit (c : κ)

structure Local (σ κ : Type*) where
  nums : Numerics σ κ
  connected : List κ

/-- One event. A client is registered once; its record is cleared with its exit. -/
def step [DecidableEq σ] [DecidableEq κ] (w : Local σ κ) : Event κ → Local σ κ
  | .connect c =>
    if c ∈ w.connected then w
    else
      match setLocalNumNick w.nums c with
      | none =>
        -- the search ends with the numeric before the one it began with
        let last := w.nums.lastNn
        ⟨{ w.nums with lastNn := if last = 0 then NN_MAX_CLIENT - 1 else last - 1 }, w.connected⟩
      | some nums => ⟨nums, c :: w.connected⟩
  | .exit c =>
    ⟨(removeYXXClient w.nums w.nums.me (w.nums.yxx c)).setYxx c [], w.connected.erase c⟩

/-- This server comes up with a numeric and a capacity, among other servers. -/
def startUp [DecidableEq σ] (others : ℕ → Option σ) (servers : σ → Server κ) (me : σ)
    (numeric capacity : ℕ) : Option (Local σ κ) :=
  match setYXXCapacity capacity with
  | none => none
  | some mask =>
    some
      { nums :=
          { serverList := fun i => if i = numeric then some me else others i
            serv := fun s =>
              if s = me then ⟨inttobase64 numeric 2, mask, fun _ => none⟩ else servers s
            yxx := fun _ => []
            me
            lastNn := 0 }
        connected := [] }

/-! ### The capacity -/

lemma growCapacity_spec {capacity fuel k m}
    (h : growCapacity capacity fuel (2 ^ k % 2 ^ 32) = some m) (hk : 4 ≤ k) :
    capacity ≤ m ∧ (m = 0 ∨ ∃ j, 4 ≤ j ∧ m = 2 ^ j) := by
  induction fuel generalizing k with
  | zero => cases h
  | succ fuel ih =>
    rw [growCapacity] at h
    split_ifs at h with hlt
    · refine ih (k := k + 1) ?_ (by omega)
      rw [← h, pow_succ, Nat.mod_mul_mod]
    have hm : 2 ^ k % 2 ^ 32 = m := some.inj h
    refine ⟨by omega, ?_⟩
    by_cases hbig : k < 32
    · refine Or.inr ⟨k, hk, ?_⟩
      rw [← hm, Nat.mod_eq_of_lt (Nat.pow_lt_pow_right (by norm_num) hbig)]
    · left
      rw [← hm, Nat.mod_eq_zero_of_dvd (pow_dvd_pow 2 (by omega))]

lemma setYXXCapacity_spec {capacity mask} (h : setYXXCapacity capacity = some mask) :
    ∃ k, k ≤ 18 ∧ mask = 2 ^ k - 1 ∧ capacity ≤ 2 ^ k := by
  rw [setYXXCapacity] at h
  split at h
  · cases h
  next m hm =>
    obtain ⟨hcap, hpow⟩ := growCapacity_spec (k := 4) hm le_rfl
    split_ifs at h with hbig
    have hmask : m - 1 = mask := some.inj h
    rcases hpow with rfl | ⟨j, -, rfl⟩
    · exact ⟨0, by norm_num, by omega, by omega⟩
    · refine ⟨j, ?_, hmask.symm, hcap⟩
      by_contra hj
      exact hbig ((Nat.pow_lt_pow_right (by norm_num) (by omega : 18 < j)).trans_eq' rfl)

/-! ### The circle of numerics -/

lemma seek_spec {taken left nn n} (h : seek taken left nn = some n)
    (hnn : nn < NN_MAX_CLIENT) : taken n = false ∧ n < NN_MAX_CLIENT := by
  induction left generalizing nn with
  | zero => cases h
  | succ left ih =>
    rw [seek] at h
    split_ifs at h with htaken hwrap
    · exact ih h (by decide)
    · exact ih h (by omega)
    · obtain rfl : nn = n := some.inj h
      exact ⟨by simpa using htaken, hnn⟩

lemma seek_isSome {taken left nn j} (hnn : nn < NN_MAX_CLIENT) (hj : j < left)
    (hfree : taken ((nn + j) % NN_MAX_CLIENT) = false) : (seek taken left nn).isSome := by
  induction left generalizing nn j with
  | zero => omega
  | succ left ih =>
    rw [seek]
    by_cases htaken : taken nn
    · rw [if_pos htaken]
      have hj0 : j ≠ 0 := by
        rintro rfl
        rw [add_zero, Nat.mod_eq_of_lt hnn, htaken] at hfree
        cases hfree
      obtain ⟨i, rfl⟩ := Nat.exists_eq_succ_of_ne_zero hj0
      by_cases hwrap : nn + 1 = NN_MAX_CLIENT
      · rw [if_pos hwrap]
        refine ih (by decide) (j := i) (by omega) ?_
        rw [show nn + i.succ = NN_MAX_CLIENT + i by omega, Nat.add_mod_left] at hfree
        rwa [zero_add]
      · rw [if_neg hwrap]
        refine ih (by omega) (j := i) (by omega) ?_
        rwa [show nn + 1 + i = nn + i.succ by omega]
    · rw [if_neg htaken]
      rfl

/-- **The circle visits every slot** of a table whose size divides it. -/
lemma seek_slot {taken k i nn} (hk : k ≤ 18) (hnn : nn < NN_MAX_CLIENT)
    (hi : i < 2 ^ k) (hfree : taken i = false) : (seek taken NN_MAX_CLIENT nn).isSome := by
  have hpow : 2 ^ k ≤ NN_MAX_CLIENT := by
    calc 2 ^ k ≤ 2 ^ 18 := Nat.pow_le_pow_right (by norm_num) hk
      _ = NN_MAX_CLIENT := rfl
  refine seek_isSome (j := (i + NN_MAX_CLIENT - nn) % NN_MAX_CLIENT) hnn
    (Nat.mod_lt _ (by decide)) ?_
  rw [Nat.add_mod_mod, show nn + (i + NN_MAX_CLIENT - nn) = i + NN_MAX_CLIENT by omega,
    Nat.add_mod_right, Nat.mod_eq_of_lt (by omega), hfree]

/-! ### Who owns a slot -/

def Numerics.slot (c : κ) : ℕ :=
  base64toint (w.yxx c) &&& (w.serv w.me).nnMask

def Numerics.mine : ℕ → Option κ := (w.serv w.me).clientList

section SetSlot

variable [DecidableEq σ] (w : Numerics σ κ) (s t : σ) (i j : ℕ) (o : Option κ)

@[simp] lemma setSlot_me : (w.setSlot s i o).me = w.me := rfl

@[simp] lemma setSlot_lastNn : (w.setSlot s i o).lastNn = w.lastNn := rfl

@[simp] lemma setSlot_serverList : (w.setSlot s i o).serverList = w.serverList := rfl

@[simp] lemma setSlot_yxx : (w.setSlot s i o).yxx = w.yxx := rfl

@[simp] lemma setSlot_nnMask : ((w.setSlot s i o).serv t).nnMask = (w.serv t).nnMask := by
  rw [Numerics.setSlot]
  dsimp only
  split_ifs <;> rfl

@[simp] lemma setSlot_server_yxx : ((w.setSlot s i o).serv t).yxx = (w.serv t).yxx := by
  rw [Numerics.setSlot]
  dsimp only
  split_ifs <;> rfl

@[simp] lemma setSlot_clientList :
    ((w.setSlot s i o).serv s).clientList j = if j = i then o else (w.serv s).clientList j := by
  rw [Numerics.setSlot]
  dsimp only
  rw [if_pos rfl]

end SetSlot

section SetYxx

variable [DecidableEq κ] (w : Numerics σ κ) (c d : κ) (y : List UInt8)

@[simp] lemma setYxx_me : (w.setYxx c y).me = w.me := rfl

@[simp] lemma setYxx_lastNn : (w.setYxx c y).lastNn = w.lastNn := rfl

@[simp] lemma setYxx_serverList : (w.setYxx c y).serverList = w.serverList := rfl

@[simp] lemma setYxx_serv : (w.setYxx c y).serv = w.serv := rfl

@[simp] lemma setYxx_yxx : (w.setYxx c y).yxx d = if d = c then y else w.yxx d := rfl

end SetYxx

/-- **What holds of the table.** It has `2 ^ k` slots, enough for the capacity; a connected client
owns its slot, every entry is a connected client in its own slot, and this server is found. -/
structure Owned (capacity k : ℕ) (w : Local σ κ) : Prop where
  bits : k ≤ 18
  mask : (w.nums.serv w.nums.me).nnMask = 2 ^ k - 1
  room : capacity ≤ 2 ^ k
  last : w.nums.lastNn < NN_MAX_CLIENT
  nodup : w.connected.Nodup
  numeric : ∀ c ∈ w.connected, ∃ v < NN_MAX_CLIENT, w.nums.yxx c = inttobase64 v 3
  blank : ∀ c, c ∉ w.connected → w.nums.yxx c = []
  owns : ∀ c ∈ w.connected, w.nums.mine (w.nums.slot c) = some c
  owner : ∀ i c, w.nums.mine i = some c → c ∈ w.connected ∧ w.nums.slot c = i
  named : ∃ n < NN_MAX_SERVER, (w.nums.serv w.nums.me).yxx = inttobase64 n 2 ∧
    w.nums.serverList n = some w.nums.me

variable {capacity k : ℕ} {w : Local σ κ}

lemma Owned.start [DecidableEq σ] {others servers me numeric} (hnum : numeric < NN_MAX_SERVER)
    (h : startUp others servers me numeric capacity = some w) : ∃ k, Owned capacity k w := by
  rw [startUp] at h
  split at h
  · cases h
  next mask hmask =>
    obtain ⟨k, hbits, hpow, hroom⟩ := setYXXCapacity_spec hmask
    obtain rfl := (some.inj h).symm
    have hpos : 0 < NN_MAX_CLIENT := by decide
    refine ⟨k, hbits, ?_, hroom, hpos, nodup_nil, ?_, fun _ _ => rfl, ?_, ?_, ?_⟩
    · simp [hpow]
    · simp
    · simp
    · simp [Numerics.mine]
    · exact ⟨numeric, hnum, by simp, by simp⟩

namespace Owned

variable (h : Owned capacity k w)

include h

lemma slot_inj {c d} (hc : c ∈ w.connected) (hd : d ∈ w.connected)
    (heq : w.nums.slot c = w.nums.slot d) : c = d := by
  have hown := h.owns c hc
  rw [heq, h.owns d hd] at hown
  exact (some.inj hown).symm

lemma exists_free [DecidableEq κ] (hlt : w.connected.length < 2 ^ k) :
    ∃ i < 2 ^ k, w.nums.mine i = none := by
  by_contra hall
  push Not at hall
  -- every slot is the slot of some client
  have hsub : Finset.range (2 ^ k) ⊆ w.connected.toFinset.image w.nums.slot := by
    intro i hi
    obtain ⟨c, hc⟩ := ne_none_iff_exists'.mp (hall i (Finset.mem_range.mp hi))
    obtain ⟨hmem, hslot⟩ := h.owner i c hc
    exact Finset.mem_image.mpr ⟨c, mem_toFinset.mpr hmem, hslot⟩
  have hcard := (Finset.card_le_card hsub).trans Finset.card_image_le
  rw [Finset.card_range] at hcard
  have := toFinset_card_le w.connected
  omega

/-- **There is a numeric for the next client** as long as the capacity is not reached. -/
lemma setLocalNumNick_isSome [DecidableEq σ] [DecidableEq κ]
    (hlt : w.connected.length < capacity) (c) : (setLocalNumNick w.nums c).isSome := by
  obtain ⟨i, hi, hfree⟩ := h.exists_free (lt_of_lt_of_le hlt h.room)
  have hseek : (seek (fun nn => (w.nums.mine (nn &&& (w.nums.serv w.nums.me).nnMask)).isSome)
      NN_MAX_CLIENT w.nums.lastNn).isSome := by
    refine seek_slot h.bits h.last hi ?_
    rw [h.mask, Nat.and_two_pow_sub_one_eq_mod, Nat.mod_eq_of_lt hi, hfree]
    rfl
  obtain ⟨nn, hnn⟩ := isSome_iff_exists.mp hseek
  rw [Numerics.mine] at hnn
  rw [setLocalNumNick]
  rw [hnn]
  rfl

lemma setLocalNumNick_spec [DecidableEq σ] [DecidableEq κ] {c}
    {nums : Numerics σ κ} (hset : setLocalNumNick w.nums c = some nums) :
    ∃ nn < NN_MAX_CLIENT, ∃ next < NN_MAX_CLIENT,
      w.nums.mine (nn &&& (w.nums.serv w.nums.me).nnMask) = none ∧
      nums = { (w.nums.setSlot w.nums.me (nn &&& (w.nums.serv w.nums.me).nnMask) (some c)).setYxx c
        (inttobase64 nn 3) with lastNn := next } := by
  rw [setLocalNumNick] at hset
  split at hset
  · cases hset
  next nn hseek =>
    obtain ⟨hfree, hlt⟩ := seek_spec hseek h.last
    refine ⟨nn, hlt, if nn + 1 = NN_MAX_CLIENT then 0 else nn + 1, ?_, ?_, (some.inj hset).symm⟩
    · split_ifs <;> [decide; omega]
    · simpa [Numerics.mine] using hfree

lemma connect [DecidableEq σ] [DecidableEq κ] (c) : Owned capacity k (step w (.connect c)) := by
  rw [step]
  split_ifs with hc
  · exact h
  split
  · have hlast := h.last
    refine ⟨h.bits, h.mask, h.room, ?_, h.nodup, h.numeric, h.blank, h.owns, h.owner, h.named⟩
    dsimp only
    split_ifs <;> [decide; omega]
  next nums hset =>
    obtain ⟨nn, hnn, next, hnext, hfree, rfl⟩ := h.setLocalNumNick_spec hset
    have hread := base64toint_inttobase64 (n := 3) hnn (hnn.trans (by decide))
    have hnew : ∀ d ∈ w.connected, w.nums.slot d ≠ nn &&& (w.nums.serv w.nums.me).nnMask := by
      intro d hd heq
      have hown := h.owns d hd
      rw [heq, hfree] at hown
      cases hown
    have hne : ∀ d ∈ w.connected, d ≠ c := by
      rintro d hd rfl
      exact hc hd
    refine ⟨h.bits, by simpa using h.mask, h.room, hnext, nodup_cons.mpr ⟨hc, h.nodup⟩,
      ?_, ?_, ?_, ?_, by simpa using h.named⟩
    · intro d hd
      rcases mem_cons.mp hd with rfl | hd
      · exact ⟨nn, hnn, by simp⟩
      · obtain ⟨v, hv, hyxx⟩ := h.numeric d hd
        exact ⟨v, hv, by simp [hne d hd, hyxx]⟩
    · intro d hd
      rw [mem_cons, not_or] at hd
      simp [hd.1, h.blank d hd.2]
    · intro d hd
      rcases mem_cons.mp hd with rfl | hd
      · simp [Numerics.mine, Numerics.slot, hread]
      have hslot := hnew d hd
      have hown := h.owns d hd
      rw [Numerics.slot] at hslot hown
      simpa [Numerics.mine, Numerics.slot, hne d hd, hslot] using hown
    intro i d hd
    simp only [Numerics.mine, setYxx_me, setSlot_me, setYxx_serv, setSlot_clientList] at hd
    split_ifs at hd with hi
    · obtain rfl : c = d := some.inj hd
      exact ⟨mem_cons_self, by simp [Numerics.slot, hread, hi]⟩
    obtain ⟨hmem, hslot⟩ := h.owner i d hd
    refine ⟨mem_cons_of_mem _ hmem, ?_⟩
    simpa [Numerics.slot, hne d hmem] using hslot

lemma exit [DecidableEq σ] [DecidableEq κ] (c) : Owned capacity k (step w (.exit c)) := by
  rw [step]
  by_cases hc : c ∈ w.connected
  · obtain ⟨v, hv, hyxx⟩ := h.numeric c hc
    have hyne : w.nums.yxx c ≠ [] := by
      rw [hyxx, ← length_pos_iff]
      simp
    have hremove : removeYXXClient w.nums w.nums.me (w.nums.yxx c) =
        w.nums.setSlot w.nums.me (w.nums.slot c) none := by
      rw [removeYXXClient, if_neg hyne]
      rfl
    rw [hremove]
    have hmem : ∀ d, d ∈ w.connected.erase c ↔ d ≠ c ∧ d ∈ w.connected := fun d =>
      h.nodup.mem_erase_iff
    refine ⟨h.bits, by simpa using h.mask, h.room, h.last, h.nodup.erase c, ?_, ?_, ?_, ?_,
      by simpa using h.named⟩
    · intro d hd
      obtain ⟨hne, hd⟩ := (hmem d).mp hd
      obtain ⟨u, hu, hyd⟩ := h.numeric d hd
      exact ⟨u, hu, by simp [hne, hyd]⟩
    · intro d hd
      rw [hmem, not_and] at hd
      by_cases hne : d = c
      · simp [hne]
      · simp [hne, h.blank d (hd hne)]
    · intro d hd
      obtain ⟨hne, hd⟩ := (hmem d).mp hd
      have hslot : w.nums.slot d ≠ w.nums.slot c := fun heq => hne (h.slot_inj hd hc heq)
      have hown := h.owns d hd
      rw [Numerics.slot, Numerics.slot] at hslot
      simpa [Numerics.mine, Numerics.slot, hne, hslot] using hown
    intro i d hd
    simp only [Numerics.mine, setYxx_me, setSlot_me, setYxx_serv, setSlot_clientList] at hd
    split_ifs at hd with hi
    obtain ⟨hdmem, hslot⟩ := h.owner i d hd
    have hne : d ≠ c := by
      rintro rfl
      exact hi hslot.symm
    refine ⟨(hmem d).mpr ⟨hne, hdmem⟩, ?_⟩
    simpa [Numerics.slot, hne] using hslot
  · -- a client without a numeric: nothing is removed
    have hblank := h.blank c hc
    have hsame : (removeYXXClient w.nums w.nums.me (w.nums.yxx c)).setYxx c [] = w.nums := by
      rw [removeYXXClient, if_pos hblank, Numerics.setYxx]
      have hyxx : (fun d => if d = c then [] else w.nums.yxx d) = w.nums.yxx := by
        funext d
        split_ifs with hd
        · rw [hd, hblank]
        · rfl
      rw [hyxx]
    rw [hsame, erase_of_not_mem hc]
    exact h

end Owned

/-- **A whole run** keeps the table, whatever clients come and go. -/
lemma owned_run [DecidableEq σ] [DecidableEq κ] (h : Owned capacity k w) (es : List (Event κ)) :
    Owned capacity k (es.foldl step w) := by
  induction es generalizing w with
  | nil => exact h
  | cons e es ih =>
    cases e with
    | connect c => exact ih (h.connect c)
    | exit c => exact ih (h.exit c)

lemma Owned.findNUser_eq (h : Owned capacity k w) {c} (hc : c ∈ w.connected) :
    findNUser w.nums ((w.nums.serv w.nums.me).yxx ++ w.nums.yxx c) = some c := by
  obtain ⟨n, hn, hyxx, hlisted⟩ := h.named
  obtain ⟨v, hv, hcyxx⟩ := h.numeric c hc
  have hown := h.owns c hc
  rw [Numerics.slot, hcyxx] at hown
  have hlen : (inttobase64 n 2 ++ inttobase64 v 3).length = 5 := by simp
  have hserver : findXNServer w.nums (inttobase64 n 2 ++ inttobase64 v 3) = some w.nums.me := by
    rw [findXNServer, take_left' (by simp), base64toint_inttobase64 hn (hn.trans (by decide)),
      hlisted]
  have hrest : (inttobase64 n 2 ++ inttobase64 v 3).drop 2 = inttobase64 v 3 :=
    drop_left' (by simp)
  rw [hyxx, hcyxx, findNUser, if_pos hlen]
  rw [hserver, hrest]
  exact hown

/-- **The numerics of local clients.** However clients connect and exit, each one owns a
slot that is nobody else's, is found under its full numeric, and a client that connects
gets a numeric as long as fewer clients than the capacity are connected. -/
theorem numnick_owned [DecidableEq σ] [DecidableEq κ] (others : ℕ → Option σ)
    (servers : σ → Server κ) (me : σ) (numeric capacity : ℕ) (hnum : numeric < NN_MAX_SERVER)
    (w : Local σ κ)
    (hstart : startUp others servers me numeric capacity = some w) (es : List (Event κ)) :
    let w' := es.foldl step w
    (∀ c ∈ w'.connected, w'.nums.mine (w'.nums.slot c) = some c) ∧
      (∀ c ∈ w'.connected, ∀ d ∈ w'.connected, w'.nums.slot c = w'.nums.slot d → c = d) ∧
      (∀ c ∈ w'.connected,
        findNUser w'.nums ((w'.nums.serv w'.nums.me).yxx ++ w'.nums.yxx c) = some c) ∧
      (w'.connected.length < capacity → ∀ c, (setLocalNumNick w'.nums c).isSome) := by
  obtain ⟨k, hstarted⟩ := Owned.start hnum hstart
  have h := owned_run hstarted es
  exact ⟨h.owns, fun c hc d hd => h.slot_inj hc hd, fun c hc => h.findNUser_eq hc,
    fun hlt c => h.setLocalNumNick_isSome hlt c⟩

/-- A server with the numeric `AF` and room for 20 clients, on which three clients connect
and one of them exits. -/
theorem numnick_owned_twenty :
    ∃ w w' : Local ℕ ℕ,
      startUp (fun _ => none) (fun _ => ⟨[], 0, fun _ => none⟩) 0 5 20 = some w ∧
      [Event.connect 7, .connect 8, .exit 7, .connect 9].foldl step w = w' ∧
      w'.connected = [9, 8] ∧
      ∀ c ∈ w'.connected,
        findNUser w'.nums ((w'.nums.serv w'.nums.me).yxx ++ w'.nums.yxx c) = some c :=
  ⟨_, _, rfl, rfl, by decide +kernel,
    (numnick_owned (fun _ => none) (fun _ => ⟨[], 0, fun _ => none⟩) 0 5 20 (by decide) _ rfl
      [.connect 7, .connect 8, .exit 7, .connect 9]).2.2.1⟩

/-- **No slot is stale.** Whatever is in the table is a connected client in its own slot, and who
has left has no numeric. -/
theorem slots_exact [DecidableEq σ] [DecidableEq κ] {others me} {servers : σ → Server κ}
    {numeric capacity w} (hnum : numeric < NN_MAX_SERVER)
    (hstart : startUp others servers me numeric capacity = some w) (es : List (Event κ)) :
    let w' := es.foldl step w
    w'.connected.Nodup ∧ (∀ i c, w'.nums.mine i = some c ↔ c ∈ w'.connected ∧ w'.nums.slot c = i) ∧
      ∀ c, c ∉ w'.connected → w'.nums.yxx c = [] := by
  obtain ⟨k, hstarted⟩ := Owned.start hnum hstart
  have h := owned_run hstarted es
  refine ⟨h.nodup, fun i c => ⟨h.owner i c, ?_⟩, h.blank⟩
  rintro ⟨hc, rfl⟩
  exact h.owns c hc

theorem slots_exact_nine :
    ∃ w w' : Local ℕ ℕ,
      startUp (fun _ => none) (fun _ => ⟨[], 0, fun _ => none⟩) 0 5 20 = some w ∧
      [Event.connect 7, .connect 8, .exit 7, .connect 9].foldl step w = w' ∧
      w'.nums.mine (w'.nums.slot 9) = some 9 ∧ w'.nums.yxx 7 = [] := by
  refine ⟨_, _, rfl, rfl, ?_⟩
  obtain ⟨-, hslots, hblank⟩ := @slots_exact ℕ ℕ _ _ _ 0 _ 5 20 _ (by decide) rfl
    [.connect 7, .connect 8, .exit 7, .connect 9]
  exact ⟨(hslots _ 9).mpr ⟨by decide +kernel, rfl⟩, hblank 7 (by decide +kernel)⟩

end Ircu.Numnick
