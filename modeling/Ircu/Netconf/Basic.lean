import Ircu.Chattr
import Ircu.Register.Basic

/-!
The network configuration: `config_set` and `config_burst` of `ircd_netconf.c`.

Each server keeps a list of entries, a key with its value and the time at which it was
set. A message sets a key, or deletes it with an empty value, and is refused if the entry
of its key is at least as new. A deletion takes the entry off the list together with its
time, so nothing is left that an older message could be compared with.
-/

namespace Ircu.Netconf

open List Option Register

/-! ### Entries and messages -/

/-- `struct ConfigEntry`, without the link to the next entry. -/
structure ConfigEntry where
  key : List UInt8
  value : List UInt8
  timestamp : ℤ
  deriving DecidableEq

/-- What `config_set` returns. -/
inductive ConfigResult
  | rejected
  | created
  | timestamp
  | changed
  | deleted
  deriving DecidableEq

/-- A call of a registered callback: the prefix it is registered for, the key, and the
values before and after, if any. -/
structure CallbackCall where
  keyPrefix : List UInt8
  key : List UInt8
  oldValue : Option (List UInt8)
  newValue : Option (List UInt8)
  deriving DecidableEq

def configFind (configList : List ConfigEntry) (key : List UInt8) : Option ConfigEntry :=
  configList.find? fun e => sameText e.key key

/-- The calls made for a key: those whose prefix the key begins with. -/
def configCallCallbacks (callbackList : List (List UInt8)) (key : List UInt8)
    (oldValue newValue : Option (List UInt8)) : List CallbackCall :=
  (callbackList.filter fun p => sameText (key.take p.length) p).map
    fun p => ⟨p, key, oldValue, newValue⟩

def replaceEntry (key value : List UInt8) (timestamp : ℤ) : List ConfigEntry → List ConfigEntry
  | [] => []
  | e :: es =>
    if sameText e.key key then ⟨e.key, value, timestamp⟩ :: es
    else e :: replaceEntry key value timestamp es

def configSet (callbackList : List (List UInt8)) (configList : List ConfigEntry)
    (key value : List UInt8) (timestamp : ℤ) :
    ConfigResult × List ConfigEntry × List CallbackCall :=
  match configFind configList key with
  | some entry =>
    if value = [] then
      if timestamp > entry.timestamp then
        (.deleted, configList.eraseP fun e => sameText e.key key,
          configCallCallbacks callbackList key (some entry.value) none)
      else (.rejected, configList, [])
    else if timestamp ≤ entry.timestamp then (.rejected, configList, [])
    else
      (if sameText entry.value value then .timestamp else .changed,
        replaceEntry key value timestamp configList,
        configCallCallbacks callbackList key (some entry.value) (some value))
  | none =>
    if value = [] then (.rejected, configList, [])
    else
      (.created, ⟨key, value, timestamp⟩ :: configList,
        configCallCallbacks callbackList key none (some value))

/-! ### The list as `config_set` leaves it -/

structure Config where
  list : List ConfigEntry
  keys_distinct : list.Pairwise fun a b => ¬ sameText a.key b.key
  value_ne_nil : ∀ e ∈ list, e.value ≠ []

variable {key value key' : List UInt8} {l : List ConfigEntry} {timestamp : ℤ}

lemma mem_replaceEntry {e} (h : e ∈ replaceEntry key value timestamp l) :
    e ∈ l ∨ ∃ e' ∈ l, e = ⟨e'.key, value, timestamp⟩ := by
  induction l with
  | nil => simp [replaceEntry] at h
  | cons a l ih =>
    rw [replaceEntry] at h
    split_ifs at h with ha
    · rcases mem_cons.mp h with rfl | h
      · exact .inr ⟨a, mem_cons_self, rfl⟩
      · exact .inl (mem_cons_of_mem _ h)
    rcases mem_cons.mp h with rfl | h
    · exact .inl mem_cons_self
    · rcases ih h with h | ⟨e', he', rfl⟩
      · exact .inl (mem_cons_of_mem _ h)
      · exact .inr ⟨e', mem_cons_of_mem _ he', rfl⟩

lemma replaceEntry_distinct (h : l.Pairwise fun a b => ¬ sameText a.key b.key) :
    (replaceEntry key value timestamp l).Pairwise fun a b => ¬ sameText a.key b.key := by
  induction l with
  | nil => exact h
  | cons a l ih =>
    rw [pairwise_cons] at h
    rw [replaceEntry]
    split_ifs with ha
    · exact pairwise_cons.mpr h
    refine pairwise_cons.mpr ⟨fun b hb => ?_, ih h.2⟩
    rcases mem_replaceEntry hb with hb | ⟨b', hb', rfl⟩
    · exact h.1 b hb
    · exact h.1 b' hb'

variable (callbackList : List (List UInt8))

lemma configSet_cases (l key value timestamp) :
    ((∃ e, configFind l key = some e ∧ timestamp ≤ e.timestamp) ∨
        configFind l key = none ∧ value = []) ∧
      (configSet callbackList l key value timestamp).2.1 = l ∨
    (∃ e, configFind l key = some e ∧ e.timestamp < timestamp ∧ value = [] ∧
      (configSet callbackList l key value timestamp).2.1 = l.eraseP fun e => sameText e.key key) ∨
    (∃ e, configFind l key = some e ∧ e.timestamp < timestamp ∧ value ≠ [] ∧
      (configSet callbackList l key value timestamp).2.1 = replaceEntry key value timestamp l) ∨
    configFind l key = none ∧ value ≠ [] ∧
      (configSet callbackList l key value timestamp).2.1 = ⟨key, value, timestamp⟩ :: l := by
  unfold configSet
  cases hf : configFind l key with
  | some entry =>
    by_cases hv : value = []
    · by_cases ht : timestamp > entry.timestamp
      · exact .inr (.inl ⟨entry, rfl, ht, hv, by simp only [hv, ht, if_true]⟩)
      · exact .inl ⟨.inl ⟨entry, rfl, not_lt.mp ht⟩, by
          simp only [hv, ht, if_true, if_false]⟩
    by_cases ht : timestamp ≤ entry.timestamp
    · exact .inl ⟨.inl ⟨entry, rfl, ht⟩, by simp only [hv, ht, if_true, if_false]⟩
    · exact .inr (.inr (.inl ⟨entry, rfl, not_le.mp ht, hv, by
        simp only [hv, ht, if_false]⟩))
  | none =>
    by_cases hv : value = []
    · exact .inl ⟨.inr ⟨rfl, hv⟩, by simp only [hv, if_true]⟩
    · exact .inr (.inr (.inr ⟨rfl, hv, by simp only [hv, if_false]⟩))

lemma configSet_distinct (key value timestamp) (h : l.Pairwise fun a b => ¬ sameText a.key b.key) :
    (configSet callbackList l key value timestamp).2.1.Pairwise
      fun a b => ¬ sameText a.key b.key := by
  rcases configSet_cases callbackList l key value timestamp with
    ⟨-, hl⟩ | ⟨-, -, -, -, hl⟩ | ⟨-, -, -, -, hl⟩ | ⟨hf, -, hl⟩
  · rw [hl]
    exact h
  · rw [hl]
    exact h.sublist eraseP_sublist
  · rw [hl]
    exact replaceEntry_distinct h
  rw [hl]
  refine pairwise_cons.mpr ⟨fun e he hsame => ?_, h⟩
  have hne := List.find?_eq_none.mp hf e he
  simp only [decide_eq_true_eq] at hne
  exact hne hsame.symm

lemma configSet_value_ne_nil (key value timestamp) (h : ∀ e ∈ l, e.value ≠ []) :
    ∀ e ∈ (configSet callbackList l key value timestamp).2.1, e.value ≠ [] := by
  rcases configSet_cases callbackList l key value timestamp with
    ⟨-, hl⟩ | ⟨-, -, -, -, hl⟩ | ⟨-, -, -, hv, hl⟩ | ⟨-, hv, hl⟩
  · rw [hl]
    exact h
  · rw [hl]
    exact fun e he => h e (eraseP_sublist.subset he)
  · rw [hl]
    intro e he
    rcases mem_replaceEntry he with he | ⟨e', -, rfl⟩
    · exact h e he
    · exact hv
  rw [hl]
  intro e he
  rcases mem_cons.mp he with rfl | he
  · exact hv
  · exact h e he

/-- A message: `CF <timestamp> <key> <value>`. -/
structure ConfigMsg where
  key : List UInt8
  value : List UInt8
  timestamp : ℤ
  deriving DecidableEq

namespace Config

variable (c : Config)

def set (m : ConfigMsg) : Config where
  list := (configSet [] c.list m.key m.value m.timestamp).2.1
  keys_distinct := configSet_distinct [] m.key m.value m.timestamp c.keys_distinct
  value_ne_nil := configSet_value_ne_nil [] m.key m.value m.timestamp c.value_ne_nil

def apply (msgs : List ConfigMsg) : Config := msgs.foldl set c

def get (key : List UInt8) : Option (List UInt8) :=
  (configFind c.list key).map ConfigEntry.value

/-- `config_burst`: the messages for a server that links. -/
def burst : List ConfigMsg := c.list.map fun e => ⟨e.key, e.value, e.timestamp⟩

def empty : Config := ⟨[], List.Pairwise.nil, by simp⟩

end Config

/-! ### One key -/

/-- What the list has for a key, as a register: the time and the value. -/
def cellOf (l : List ConfigEntry) (key : List UInt8) : Option (ℤ × List UInt8) :=
  (configFind l key).map fun e => (e.timestamp, e.value)

def ConfigMsg.newValue (m : ConfigMsg) : Option (List UInt8) :=
  if m.value = [] then none else some m.value

lemma newValue_eq_none {m : ConfigMsg} : m.newValue = none ↔ m.value = [] := by
  unfold ConfigMsg.newValue
  split_ifs with h <;> simp [h]

lemma newValue_eq_some {m : ConfigMsg} (h : m.value ≠ []) : m.newValue = some m.value :=
  if_neg h

lemma configFind_cons (e : ConfigEntry) (l key) :
    configFind (e :: l) key = if sameText e.key key then some e else configFind l key := by
  unfold configFind
  rw [List.find?_cons]
  by_cases h : sameText e.key key <;> simp [h]

lemma configFind_congr (h : sameText key key') (l) : configFind l key = configFind l key' := by
  unfold configFind
  congr 1
  funext e
  exact decide_eq_decide.mpr ⟨fun he => he.trans h, fun he => he.trans h.symm⟩

lemma configFind_replaceEntry_self {e} (h : configFind l key = some e) :
    configFind (replaceEntry key value timestamp l) key = some ⟨e.key, value, timestamp⟩ := by
  induction l with
  | nil => simp [configFind] at h
  | cons a l ih =>
    rw [configFind_cons] at h
    rw [replaceEntry]
    split_ifs at h ⊢ with ha
    · cases h
      rw [configFind_cons, if_pos ha]
    · rw [configFind_cons, if_neg ha, ih h]

lemma configFind_replaceEntry_ne (l) (h : ¬ sameText key key') :
    configFind (replaceEntry key value timestamp l) key' = configFind l key' := by
  induction l with
  | nil => rfl
  | cons a l ih =>
    rw [replaceEntry]
    split_ifs with ha
    · have hne : ¬ sameText a.key key' := fun h' => h (ha.symm.trans h')
      rw [configFind_cons, configFind_cons, if_neg hne, if_neg hne]
    · rw [configFind_cons, configFind_cons, ih]

lemma configFind_erase_self (hl : l.Pairwise fun a b => ¬ sameText a.key b.key) :
    configFind (l.eraseP fun e => sameText e.key key) key = none := by
  induction l with
  | nil => rfl
  | cons a l ih =>
    rw [pairwise_cons] at hl
    rw [eraseP_cons]
    by_cases ha : sameText a.key key
    · simp only [ha, decide_true, cond_true]
      refine List.find?_eq_none.mpr fun e he => ?_
      simp only [decide_eq_true_eq]
      exact fun h => hl.1 e he (ha.trans h.symm)
    · simp only [ha, decide_false, cond_false]
      rw [configFind_cons, if_neg ha, ih hl.2]

lemma configFind_erase_ne (l) (h : ¬ sameText key key') :
    configFind (l.eraseP fun e => sameText e.key key) key' = configFind l key' := by
  induction l with
  | nil => rfl
  | cons a l ih =>
    rw [eraseP_cons]
    by_cases ha : sameText a.key key
    · have hne : ¬ sameText a.key key' := fun h' => h (ha.symm.trans h')
      simp only [ha, decide_true, cond_true]
      rw [configFind_cons, if_neg hne]
    · simp only [ha, decide_false, cond_false]
      rw [configFind_cons, configFind_cons, ih]

namespace Config

def cell (c : Config) (key : List UInt8) : Option (ℤ × List UInt8) := cellOf c.list key

lemma get_eq_cell (c : Config) (key) : c.get key = (c.cell key).map Prod.snd := by
  rw [cell, cellOf, Option.map_map]
  rfl

variable {m : ConfigMsg} {msgs : List ConfigMsg}

lemma cell_set_self (c : Config) (h : sameText m.key key) : (c.set m).cell key =
      write ConfigMsg.timestamp ConfigMsg.newValue (c.cell key) m := by
  have hcell : c.cell key = (configFind c.list m.key).map fun e => (e.timestamp, e.value) := by
    rw [cell, cellOf, configFind_congr h]
  have hset : (c.set m).cell key =
      (configFind (configSet [] c.list m.key m.value m.timestamp).2.1 m.key).map
        fun e => (e.timestamp, e.value) := by
    rw [cell, cellOf, ← configFind_congr h]
    rfl
  have hnewer : ∀ e, configFind c.list m.key = some e → e.timestamp < m.timestamp →
      Register.Newer ConfigMsg.timestamp
        ((configFind c.list m.key).map fun e => (e.timestamp, e.value)) m := by
    intro e hf ht e' he'
    rw [hf] at he'
    cases he'
    exact ht
  rw [hcell, hset]
  rcases configSet_cases [] c.list m.key m.value m.timestamp with
    ⟨⟨e, hf, ht⟩ | ⟨hf, hv⟩, hl⟩ | ⟨e, hf, ht, hv, hl⟩ | ⟨e, hf, ht, hv, hl⟩ | ⟨hf, hv, hl⟩
  · rw [hl, write_of_not_newer]
    intro hn
    exact absurd (hn (e.timestamp, e.value) (by rw [hf, map_some])) (not_lt.mpr ht)
  · rw [hl, hf, map_none, write, newValue_eq_none.mpr hv, map_none]
  · rw [write_of_newer (hnewer e hf ht), newValue_eq_none.mpr hv, hl,
      configFind_erase_self c.keys_distinct, map_none, map_none]
  · rw [write_of_newer (hnewer e hf ht), newValue_eq_some hv, hl,
      configFind_replaceEntry_self hf, map_some, map_some]
  · rw [hf, map_none, write, newValue_eq_some hv, hl, configFind_cons,
      if_pos (sameText.refl _), map_some, map_some]

variable (c : Config)

lemma cell_set_ne (h : ¬ sameText m.key key) : (c.set m).cell key = c.cell key := by
  have hfind : configFind (configSet [] c.list m.key m.value m.timestamp).2.1 key =
      configFind c.list key := by
    rcases configSet_cases [] c.list m.key m.value m.timestamp with
      ⟨-, hl⟩ | ⟨-, -, -, -, hl⟩ | ⟨-, -, -, -, hl⟩ | ⟨-, -, hl⟩
    · rw [hl]
    · rw [hl, configFind_erase_ne _ h]
    · rw [hl, configFind_replaceEntry_ne _ h]
    · rw [hl, configFind_cons, if_neg h]
  exact congrArg (Option.map fun e : ConfigEntry => (e.timestamp, e.value)) hfind

def msgsFor (key : List UInt8) (msgs : List ConfigMsg) : List ConfigMsg :=
  msgs.filter fun m => sameText m.key key

lemma mem_msgsFor : m ∈ msgsFor key msgs ↔ m ∈ msgs ∧ sameText m.key key := by
  rw [msgsFor, mem_filter, decide_eq_true_eq]

/-- **What a key has after messages** is what its register has after those for it. -/
lemma cell_apply (msgs key) : (c.apply msgs).cell key =
      run ConfigMsg.timestamp ConfigMsg.newValue (c.cell key) (msgsFor key msgs) := by
  induction msgs generalizing c with
  | nil => rfl
  | cons m msgs ih =>
    have hstep : (c.apply (m :: msgs)).cell key = ((c.set m).apply msgs).cell key := rfl
    rw [hstep, ih]
    by_cases h : sameText m.key key
    · have hfilter : msgsFor key (m :: msgs) = m :: msgsFor key msgs :=
        filter_cons_of_pos (by simpa using h)
      rw [hfilter, run_cons, cell_set_self c h]
    · have hfilter : msgsFor key (m :: msgs) = msgsFor key msgs :=
        filter_cons_of_neg (by simpa using h)
      rw [hfilter, cell_set_ne c h]

lemma exists_perm_msgsFor {l} (hl : l.Perm (msgsFor key msgs)) :
    ∃ l', l'.Perm msgs ∧ msgsFor key l' = l := by
  refine ⟨l ++ msgs.filter fun m => !decide (sameText m.key key),
    (hl.append_right _).trans (filter_append_perm _ _), ?_⟩
  have hself : msgsFor key l = l :=
    filter_eq_self.mpr fun m hm => decide_eq_true (mem_msgsFor.mp (hl.mem_iff.mp hm)).2
  have hrest : msgsFor key (msgs.filter fun m => !decide (sameText m.key key)) = [] := by
    refine filter_eq_nil_iff.mpr fun m hm => ?_
    simpa using of_mem_filter hm
  rw [msgsFor, filter_append]
  exact (congrArg₂ (· ++ ·) hself hrest).trans (append_nil l)

/-! ### The order of messages, and the burst -/

/-- Each key that is set by a message has no deletion that is newer than every setting of
the key and than its entry. -/
def DeletionsOutdated (msgs : List ConfigMsg) : Prop :=
  ∀ m ∈ msgs, m.value ≠ [] → ∀ d ∈ msgs, sameText d.key m.key → d.value = [] →
    (∃ s ∈ msgs, sameText s.key m.key ∧ s.value ≠ [] ∧ d.timestamp < s.timestamp) ∨
      ∃ e, configFind c.list m.key = some e ∧ d.timestamp ≤ e.timestamp

variable (c : Config)

lemma not_newer_cell (key) (d : ConfigMsg) : ¬ Register.Newer ConfigMsg.timestamp (c.cell key) d ↔
      ∃ e, configFind c.list key = some e ∧ d.timestamp ≤ e.timestamp := by
  unfold Register.Newer cell cellOf
  cases configFind c.list key with
  | none | some e => simp

lemma deletionsOutdated_iff (msgs) : c.DeletionsOutdated msgs ↔ ∀ key,
      Register.OrderFree ConfigMsg.timestamp ConfigMsg.newValue (c.cell key)
        (msgsFor key msgs) := by
  constructor
  · intro h key
    by_cases hrem : ∀ m ∈ msgsFor key msgs, m.newValue = none
    · exact .inl hrem
    refine .inr fun d hd hdv => ?_
    push Not at hrem
    obtain ⟨m, hm, hmv⟩ := hrem
    rw [ne_eq, newValue_eq_none] at hmv
    rw [mem_msgsFor] at hm hd
    rw [not_newer_cell, ← configFind_congr hm.2]
    have hsame : sameText d.key m.key := hd.2.trans hm.2.symm
    rcases h m hm.1 hmv d hd.1 hsame (newValue_eq_none.mp hdv) with ⟨s, hs, hsk, hsv, hlt⟩ | he
    · exact .inl ⟨s, mem_msgsFor.mpr ⟨hs, hsk.trans hm.2⟩,
        fun hn => hsv (newValue_eq_none.mp hn), hlt⟩
    · exact .inr he
  · intro h m hm hmv d hd hsame hdv
    have hm' : m ∈ msgsFor m.key msgs := mem_msgsFor.mpr ⟨hm, sameText.refl _⟩
    rcases h m.key with hrem | hset
    · exact absurd (newValue_eq_none.mp (hrem m hm')) hmv
    rcases hset d (mem_msgsFor.mpr ⟨hd, hsame⟩) (newValue_eq_none.mpr hdv) with
      ⟨s, hs, hsv, hlt⟩ | hold
    · rw [mem_msgsFor] at hs
      exact .inl ⟨s, hs.1, hs.2, fun hn => hsv (newValue_eq_none.mpr hn), hlt⟩
    · exact .inr ((not_newer_cell c m.key d).mp hold)

lemma get_perm_iff (hinj : ∀ a ∈ msgs, ∀ b ∈ msgs, a.timestamp = b.timestamp → a = b) :
    (∀ l, l.Perm msgs → ∀ key, (c.apply l).get key = (c.apply msgs).get key) ↔
      c.DeletionsOutdated msgs := by
  rw [deletionsOutdated_iff]
  have hinj' : ∀ key, ∀ a ∈ msgsFor key msgs, ∀ b ∈ msgsFor key msgs,
      a.timestamp = b.timestamp → a = b := fun key a ha b hb =>
    hinj a (mem_msgsFor.mp ha).1 b (mem_msgsFor.mp hb).1
  constructor
  · intro h key
    refine (run_perm_iff (hinj' key)).mp fun l hl => ?_
    obtain ⟨l', hl', rfl⟩ := exists_perm_msgsFor hl
    have hkey := h l' hl' key
    rwa [get_eq_cell, get_eq_cell, cell_apply, cell_apply] at hkey
  · intro h l hl key
    rw [get_eq_cell, get_eq_cell, cell_apply, cell_apply]
    exact (run_perm_iff (hinj' key)).mpr (h key) _ (hl.filter _)

lemma mem_burst {c : Config} :
    m ∈ c.burst ↔ (⟨m.key, m.value, m.timestamp⟩ : ConfigEntry) ∈ c.list := by
  rw [burst, List.mem_map]
  constructor
  · rintro ⟨e, he, rfl⟩
    exact he
  · intro h
    exact ⟨_, h, rfl⟩

lemma eq_of_sameText {a b} (ha : a ∈ c.list) (hb : b ∈ c.list)
    (h : sameText a.key b.key) : a = b := by
  by_contra hne
  have hsymm : Std.Symm fun a b : ConfigEntry => ¬ sameText a.key b.key :=
    ⟨fun _ _ hab hba => hab hba.symm⟩
  exact c.keys_distinct.forall ha hb hne h

lemma find_eq_some_iff {e} : configFind c.list key = some e ↔ e ∈ c.list ∧ sameText e.key key := by
  constructor
  · intro h
    exact ⟨mem_of_find?_eq_some h, by simpa using List.find?_some h⟩
  rintro ⟨he, hk⟩
  cases hf : configFind c.list key with
  | none =>
    have hne := List.find?_eq_none.mp hf e he
    simp only [decide_eq_true_eq] at hne
    exact absurd hk hne
  | some e' =>
    have hk' : sameText e'.key key := by simpa using List.find?_some hf
    rw [c.eq_of_sameText (mem_of_find?_eq_some hf) he (hk'.trans hk.symm)]

/-- **A server that holds some of the entries has the outcome after the burst.** -/
lemma get_burst (c peer : Config) (hsub : ∀ e ∈ peer.list, e ∈ c.list) (key) :
    (peer.apply c.burst).get key = c.get key := by
  rw [get_eq_cell, get_eq_cell, cell_apply]
  congr 1
  cases hf : configFind c.list key with
  | none =>
    -- no message of the burst is for the key, and the server has no entry of it
    have hnil : msgsFor key c.burst = [] := by
      refine filter_eq_nil_iff.mpr fun m hm => ?_
      exact List.find?_eq_none.mp hf _ (mem_burst.mp hm)
    have hpeer : configFind peer.list key = none :=
      List.find?_eq_none.mpr fun e he => List.find?_eq_none.mp hf e (hsub e he)
    rw [hnil, run_nil, cell, cell, cellOf, cellOf, hf, hpeer]
  | some e =>
    rw [find_eq_some_iff] at hf
    have honly : ∀ m ∈ msgsFor key c.burst, m = ⟨e.key, e.value, e.timestamp⟩ := by
      intro m hm
      rw [mem_msgsFor, mem_burst] at hm
      have heq := c.eq_of_sameText hm.1 hf.1 (hm.2.trans hf.2.symm)
      rw [← heq]
    have hmem : (⟨e.key, e.value, e.timestamp⟩ : ConfigMsg) ∈ msgsFor key c.burst :=
      mem_msgsFor.mpr ⟨mem_burst.mpr hf.1, hf.2⟩
    have hcell : c.cell key = some (e.timestamp, e.value) := by
      rw [cell, cellOf, c.find_eq_some_iff.mpr hf, map_some]
    rw [hcell]
    cases hpeer : configFind peer.list key with
    | none =>
      have hnone : peer.cell key = none := by rw [cell, cellOf, hpeer, map_none]
      have hvalue : ConfigMsg.newValue ⟨e.key, e.value, e.timestamp⟩ = some e.value :=
        newValue_eq_some (c.value_ne_nil e hf.1)
      rw [hnone]
      exact run_top hmem hvalue (fun _ h => absurd h (by simp))
        fun m hm => .inl (honly m hm)
    | some e' =>
      rw [find_eq_some_iff] at hpeer
      have heq := c.eq_of_sameText (hsub e' hpeer.1) hf.1 (hpeer.2.trans hf.2.symm)
      have hsome : peer.cell key = some (e.timestamp, e.value) := by
        rw [cell, cellOf, peer.find_eq_some_iff.mpr hpeer, heq, map_some]
      rw [hsome]
      refine run_keep fun m hm => ?_
      rw [honly m hm]

/-- **The outcome of messages with different times is the same for any two orders**, and
a burst of it does not change it, if and only if each key that is set has no deletion
that is newer than every setting and than the entry at the start. -/
theorem converges_iff (msgs : List ConfigMsg)
    (hts : msgs.Pairwise fun a b => a.timestamp ≠ b.timestamp) :
    ((∀ l l' : List ConfigMsg, l.Perm msgs → l'.Perm msgs →
        ∀ key, (c.apply l).get key = (c.apply l').get key) ∧
      ∀ l : List ConfigMsg, l.Perm msgs → ∀ peer : Config,
        (∀ e ∈ peer.list, e ∈ (c.apply l).list) →
        ∀ key, (peer.apply (c.apply l).burst).get key = (c.apply l).get key) ↔
      c.DeletionsOutdated msgs := by
  have hinj : ∀ a ∈ msgs, ∀ b ∈ msgs, a.timestamp = b.timestamp → a = b := by
    intro a ha b hb heq
    by_contra hne
    have hsymm : Std.Symm fun a b : ConfigMsg => a.timestamp ≠ b.timestamp :=
      ⟨fun _ _ hab => hab.symm⟩
    exact hts.forall ha hb hne heq
  rw [← get_perm_iff c hinj]
  constructor
  · rintro ⟨horder, -⟩ l hl key
    exact horder l msgs hl (List.Perm.refl _) key
  intro h
  refine ⟨fun l l' hl hl' key => (h l hl key).trans (h l' hl' key).symm, ?_⟩
  intro l _ peer hsub key
  exact get_burst (c.apply l) peer hsub key

def setThenDelete : List ConfigMsg :=
  [⟨str "sline.server", str "a.example", 1⟩, ⟨str "sline.server", [], 2⟩]

/-- The deletion is lost if it comes first. -/
theorem setThenDelete_order :
    (setThenDelete.Pairwise fun a b => a.timestamp ≠ b.timestamp) ∧
      (empty.apply setThenDelete).get (str "sline.server") = none ∧
      (empty.apply setThenDelete.reverse).get (str "sline.server") = some (str "a.example") := by
  decide +kernel

/-- Two settings, with a deletion between them. -/
theorem converges_iff_override :
    (empty.apply [⟨str "k", str "b", 3⟩, ⟨str "k", [], 2⟩]).get (str "k") =
      (empty.apply [⟨str "k", [], 2⟩, ⟨str "k", str "b", 3⟩]).get (str "k") := by
  have hts : ([⟨str "k", [], 2⟩, ⟨str "k", str "b", 3⟩] : List ConfigMsg).Pairwise
      fun a b => a.timestamp ≠ b.timestamp := by decide
  refine ((converges_iff empty [⟨str "k", [], 2⟩, ⟨str "k", str "b", 3⟩] hts).mpr ?_).1
    _ _ (List.Perm.swap _ _ _) (List.Perm.refl _) _
  intro m hm hmv d hd hsame hdv
  refine .inl ⟨⟨str "k", str "b", 3⟩, by simp, ?_, by decide, ?_⟩
  · rcases mem_pair.mp hm with rfl | rfl <;> decide
  · rcases mem_pair.mp hd with rfl | rfl
    · decide
    · exact absurd hdv (by decide)

end Config

end Ircu.Netconf
