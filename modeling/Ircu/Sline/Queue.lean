import Ircu.Sline.Basic

/-!
The two lists that an entry is on.

`Shape s xs` says that `xs` is the queue, and that the chain of each bucket is made of the entries
of `xs` whose tokens have that hash, in the same order: both lists grow at the head, so the order
never differs. What follows says what each function of `sline.c` does to the lists, and that none
of them goes wrong.

* `Shape.enlist`, `Shape.slineHoldUnlinkFree`: a new entry, and one that goes;
* `Shape.referencedFrom`, `Shape.slineFindHoldEntry`: what the walks over the lists find;
* `Shape.slineCheckClearSpamhold`, `Shape.slineHoldFree`: what becomes of the flags.
-/

namespace Ircu.Sline

open List Option Function Sline.Entry Nat

variable {s s' t : State} {xs as bs : List ℕ} {a b p q : ℕ} {e f : Entry} {c : Client}

def State.tokenAt (s : State) (a : ℕ) : ℕ := ((s.entries a).map Entry.token).getD 0

/-- The entries of a list whose tokens have a hash. -/
def State.chain (s : State) (xs : List ℕ) (k : ℕ) : List ℕ :=
  xs.filter fun a => slineTokenHash (s.tokenAt a) = k

/-- **The lists are in order**: `xs` is the queue, and has all entries. -/
structure Shape (s : State) (xs : List ℕ) : Prop where
  linked : Link.Linked s.globalHoldQueue xs
  chains : Bucket.Stands s.holdTable (s.chain xs)
  mem : ∀ a, (s.entries a).isSome ↔ a ∈ xs
  length : s.allocated = xs.length
  distinct : ∀ {a b e f}, s.entries a = some e → s.entries b = some f → e.token = f.token → a = b

lemma Shape.init : Shape .init [] where
  linked := .empty
  chains := .empty
  mem _ := by simp [State.init]
  length := rfl
  distinct h := by cases h

lemma tokenAt_eq (h : s.entries a = some e) : s.tokenAt a = e.token := by
  rw [State.tokenAt, h]
  rfl

lemma mem_chain (h : s.entries a = some e) (ha : a ∈ xs) :
    a ∈ s.chain xs (slineTokenHash e.token) :=
  mem_filter.mpr ⟨ha, by simp [tokenAt_eq h]⟩

lemma chain_congr (h : ∀ a ∈ xs, s'.entries a = s.entries a) : s'.chain xs = s.chain xs := by
  funext k
  refine filter_congr fun a ha => ?_
  rw [State.tokenAt, State.tokenAt, h a ha]

lemma Shape.mem_of_entry (h : Shape s xs) (ha : s.entries a = some e) : a ∈ xs :=
  (h.mem a).mp (by simp [ha])

lemma Shape.entry_of_mem (h : Shape s xs) (ha : a ∈ xs) : ∃ e, s.entries a = some e :=
  isSome_iff_exists.mp ((h.mem a).mpr ha)

lemma Shape.length_chain_lt (h : Shape s xs) (k) : (s.chain xs k).length < s.turns := by
  rw [State.turns, h.length]
  exact lt_succ_of_le (length_filter_le _ _)

lemma Shape.congr (h : Shape s xs) (hentries : s'.entries = s.entries)
    (hlen : s'.allocated = s.allocated) (hqueue : s'.globalHoldQueue = s.globalHoldQueue)
    (htable : s'.holdTable = s.holdTable) : Shape s' xs where
  linked := hqueue ▸ h.linked
  chains := by
    rw [htable, chain_congr fun a _ => congrFun hentries a]
    exact h.chains
  mem a := hentries ▸ h.mem a
  length := hlen ▸ h.length
  distinct := hentries ▸ h.distinct

/-! ### New entries and entries that go -/

/-- **A new entry** goes to the head of both lists. -/
lemma Shape.enlist (h : Shape s xs) (ha : s.entries a = none)
    (htoken : ∀ b f, s.entries b = some f → f.token ≠ e.token) :
    Shape (s.enlist a e) (a :: xs) := by
  have hmem : a ∉ xs := by
    rw [← h.mem, ha]
    simp
  have hkept : ∀ b ∈ xs, (s.enlist a e).entries b = s.entries b := by
    intro b hb
    refine update_of_ne ?_ _ _
    rintro rfl
    exact hmem hb
  have hself : (s.enlist a e).entries a = some e := update_self ..
  refine ⟨h.linked.insertAt_head hmem, ?_, fun b => ?_, ?_, fun {b d f g} hf hg heq => ?_⟩
  · have hchain : (s.enlist a e).chain (a :: xs) =
        Function.update (s.chain xs) (slineTokenHash e.token)
          (a :: s.chain xs (slineTokenHash e.token)) := by
      funext k
      rw [State.chain, filter_cons, tokenAt_eq hself]
      change (if _ then a :: (s.enlist a e).chain xs k else (s.enlist a e).chain xs k) = _
      rw [chain_congr hkept]
      by_cases hk : k = slineTokenHash e.token
      · subst hk
        simp
      · rw [if_neg (by simpa using Ne.symm hk), update_of_ne hk]
    rw [hchain]
    exact h.chains.push (fun k hk => hmem (mem_of_mem_filter hk)) _
  · by_cases hb : b = a
    · subst hb
      simp [hself]
    · have hold : (s.enlist a e).entries b = s.entries b := update_of_ne hb _ _
      rw [hold, h.mem]
      simp [hb]
  · rw [length_cons, ← h.length]
    rfl
  rw [State.enlist] at hf hg
  dsimp only at hf hg
  by_cases hb : b = a <;> by_cases hd : d = a
  · rw [hb, hd]
  · rw [hb, update_self, some_inj] at hf
    rw [update_of_ne hd] at hg
    exact absurd heq.symm (hf ▸ htoken d g hg)
  · rw [hd, update_self, some_inj] at hg
    rw [update_of_ne hb] at hf
    exact absurd heq (hg ▸ htoken b f hf)
  · rw [update_of_ne hb] at hf
    rw [update_of_ne hd] at hg
    exact h.distinct hf hg heq

lemma chain_erase (h : Shape s xs) (ha : s.entries a = some e)
    (hs' : s'.entries = Function.update s.entries a none) : s'.chain (xs.erase a) =
      Function.update (s.chain xs) (slineTokenHash e.token)
        ((s.chain xs (slineTokenHash e.token)).erase a) := by
  have hnodup := h.linked.nodup
  have hkept : ∀ b ∈ xs.erase a, s'.entries b = s.entries b := by
    intro b hb
    rw [hs']
    exact update_of_ne (hnodup.mem_erase_iff.mp hb).1 _ _
  rw [chain_congr hkept]
  funext k
  have hfilter : s.chain (xs.erase a) k = (s.chain xs k).erase a := by
    rw [State.chain, State.chain, hnodup.erase_eq_filter,
      (hnodup.filter _).erase_eq_filter, filter_comm]
  by_cases hk : k = slineTokenHash e.token
  · subst hk
    rw [hfilter, update_self]
  rw [hfilter, update_of_ne hk, erase_of_not_mem]
  intro hmem
  have htok := (mem_filter.mp hmem).2
  rw [tokenAt_eq ha] at htok
  exact hk (by simpa using Eq.symm (by simpa using htok))

/-- What is different afterwards: the entries, and flags may have been cleared. -/
structure Reflagged (s : State) (entries : ℕ → Option Entry) (s' : State) : Prop where
  entries : s'.entries = entries
  nextHoldToken : s'.nextHoldToken = s.nextHoldToken
  channels : s'.channels = s.channels
  book : s'.book = s.book
  status : ∀ p, (s'.clients p).map Client.status = (s.clients p).map Client.status

lemma Reflagged.refl (s : State) : Reflagged s s.entries s := ⟨rfl, rfl, rfl, rfl, fun _ => rfl⟩

lemma Reflagged.trans {entries} (h : Reflagged s entries s') (h' : Reflagged s' s'.entries t) :
    Reflagged s entries t where
  entries := h'.entries.trans h.entries
  nextHoldToken := h'.nextHoldToken.trans h.nextHoldToken
  channels := h'.channels.trans h.channels
  book := h'.book.trans h.book
  status p := (h'.status p).trans (h.status p)

lemma Shape.slineHoldUnlinkFree (h : Shape s xs) (ha : s.entries a = some e) :
    ∃ s', slineHoldUnlinkFree s a = some s' ∧ Shape s' (xs.erase a) ∧
      Reflagged s (Function.update s.entries a none) s' ∧ s'.clients = s.clients := by
  have hmem := h.mem_of_entry ha
  obtain ⟨table, htable, hstands⟩ :=
    h.chains.remove (mem_chain ha hmem) (h.length_chain_lt _)
  rw [Sline.slineHoldUnlinkFree, ha]
  dsimp only
  rw [htable]
  refine ⟨_, rfl, ?_, ⟨rfl, rfl, rfl, rfl, fun _ => rfl⟩, rfl⟩
  refine ⟨h.linked.unlink a, ?_, fun b => ?_, ?_, fun {b d f g} hf hg heq => ?_⟩
  · rw [chain_erase h ha rfl]
    exact hstands
  · dsimp only
    rw [h.linked.nodup.mem_erase_iff]
    by_cases hb : b = a
    · subst hb
      simp
    · rw [update_of_ne hb, h.mem]
      simp [hb]
  · rw [length_erase_of_mem hmem, h.length]
  have hold : ∀ {b f}, Function.update s.entries a none b = some f → s.entries b = some f := by
    intro b f hf
    by_cases hb : b = a
    · rw [hb, update_self] at hf
      cases hf
    · rwa [update_of_ne hb] at hf
  exact h.distinct (hold hf) (hold hg) heq

/-! ### Walks -/

def State.Referenced (s : State) (p : ℕ) : Prop := ∃ a e, s.entries a = some e ∧ e.references p

lemma Shape.referencedFrom (as) (h : Shape s (as ++ bs)) {fuel} (hfuel : bs.length < fuel) :
    ∃ r, s.referencedFrom p fuel bs.head? = some r ∧
      (r = true ↔ ∃ a ∈ bs, ∃ e, s.entries a = some e ∧ e.references p) := by
  induction bs generalizing as fuel with
  | nil =>
    obtain ⟨fuel, rfl⟩ := exists_eq_add_one_of_ne_zero hfuel.ne'
    exact ⟨false, rfl, by simp⟩
  | cons a bs ih =>
    rw [length_cons] at hfuel
    obtain ⟨fuel, rfl⟩ := exists_eq_add_one_of_ne_zero (ne_zero_of_lt hfuel)
    obtain ⟨e, he⟩ := h.entry_of_mem (a := a) (by simp)
    have hnext : s.globalHoldQueue.next a = bs.head? := by
      rw [h.linked.next, Link.nextIn_append_cons h.linked.nodup]
    rw [List.head?_cons, State.referencedFrom, he]
    dsimp only
    split_ifs with href
    · exact ⟨true, rfl, by simpa using .inl ⟨e, he, href⟩⟩
    rw [hnext]
    have hrest : Shape s ((as ++ [a]) ++ bs) := by simpa using h
    obtain ⟨r, hr, hiff⟩ := ih _ hrest (show bs.length < fuel by omega)
    refine ⟨r, hr, hiff.trans ⟨fun ⟨b, hb, hf⟩ => ⟨b, mem_cons_of_mem _ hb, hf⟩, ?_⟩⟩
    rintro ⟨b, hb, f, hf, hpf⟩
    rcases mem_cons.mp hb with rfl | hb
    · obtain rfl := some.inj (he.symm.trans hf)
      exact absurd hpf href
    · exact ⟨b, hb, f, hf, hpf⟩

lemma Shape.referenced (h : Shape s xs) (p) :
    ∃ r, s.referencedFrom p s.turns s.globalHoldQueue.head = some r ∧
      (r = true ↔ s.Referenced p) := by
  have hfuel : xs.length < s.turns := by
    rw [State.turns, h.length]
    exact lt_succ_self _
  obtain ⟨r, hr, hiff⟩ := Shape.referencedFrom [] h hfuel
  refine ⟨r, by rwa [h.linked.head], hiff.trans ⟨?_, ?_⟩⟩
  · rintro ⟨a, -, e, he, hp⟩
    exact ⟨a, e, he, hp⟩
  · rintro ⟨a, e, he, hp⟩
    exact ⟨a, h.mem_of_entry he, e, he, hp⟩

lemma Shape.slineFindHoldEntry (h : Shape s xs) (token : ℕ) :
    ∃ r, slineFindHoldEntry s token = some r ∧
      ∀ a, r = some a ↔ ∃ e, s.entries a = some e ∧ e.token = token := by
  have hask : ∀ a ∈ s.chain xs (slineTokenHash token),
      (s.entries a).map (fun e => decide (e.token = token)) =
        some (decide (s.tokenAt a = token)) := by
    intro a ha
    obtain ⟨e, he⟩ := h.entry_of_mem (mem_of_mem_filter ha)
    rw [he, tokenAt_eq he]
    rfl
  refine ⟨_, h.chains.find hask (h.length_chain_lt _), fun a => ⟨fun hfound => ?_, ?_⟩⟩
  · obtain ⟨e, he⟩ := h.entry_of_mem (mem_of_mem_filter (mem_of_find?_eq_some hfound))
    have htok := List.find?_some hfound
    rw [tokenAt_eq he] at htok
    exact ⟨e, he, by simpa using htok⟩
  rintro ⟨e, he, rfl⟩
  have hin := mem_chain he (h.mem_of_entry he)
  cases hfind : (s.chain xs (slineTokenHash e.token)).find? fun b => s.tokenAt b = e.token with
  | none =>
    have hno := List.find?_eq_none.mp hfind a hin
    simp [tokenAt_eq he] at hno
  | some b =>
    obtain ⟨f, hf⟩ := h.entry_of_mem (mem_of_mem_filter (mem_of_find?_eq_some hfind))
    have htok := List.find?_some hfind
    rw [tokenAt_eq hf] at htok
    rw [h.distinct hf he (by simpa using htok)]

/-! ### Flags -/

/-- **The flags**: who is referenced is flagged, and who is flagged is referenced, those of `E`
apart. -/
structure Flags (s : State) (E : ℕ → Prop) : Prop where
  covered : ∀ {p c}, s.clients p = some c → s.Referenced p → c.spamHold = true
  exact : ∀ {p c}, s.clients p = some c → c.spamHold = true → ¬ E p → s.Referenced p

lemma Flags.mono {E E'} (h : Flags s E) (hE : ∀ p, E p → E' p) : Flags s E' :=
  ⟨h.covered, fun hp hflag hnot => h.exact hp hflag fun hin => hnot (hE _ hin)⟩

lemma referenced_of_freed (hs' : s'.entries = Function.update s.entries a none)
    (h : s'.Referenced p) : s.Referenced p := by
  obtain ⟨b, f, hf, hp⟩ := h
  rw [hs'] at hf
  by_cases hb : b = a
  · rw [hb, update_self] at hf
    cases hf
  · rw [update_of_ne hb] at hf
    exact ⟨b, f, hf, hp⟩

lemma Flags.freed {E} (h : Flags s E) (ha : s.entries a = some e)
    (hs' : s'.entries = Function.update s.entries a none) (hclients : s'.clients = s.clients) :
    Flags s' fun p => E p ∨ e.references p := by
  refine ⟨fun hp href => ?_, fun {p c} hp hflag hnot => ?_⟩
  · rw [hclients] at hp
    exact h.covered hp (referenced_of_freed hs' href)
  rw [hclients] at hp
  obtain ⟨b, f, hf, hpf⟩ := h.exact hp hflag fun hin => hnot (.inl hin)
  refine ⟨b, f, ?_, hpf⟩
  rw [hs', update_of_ne, hf]
  rintro rfl
  obtain rfl := some.inj (ha.symm.trans hf)
  exact hnot (.inr hpf)

/-- **A flag is looked at again**, and is right afterwards. -/
lemma Shape.slineCheckClearSpamhold {E} (h : Shape s xs) (hflags : Flags s E)
    (hq : s.clients q = some c) : ∃ s', slineCheckClearSpamhold s q = some s' ∧ Shape s' xs ∧
      Flags s' (fun p => E p ∧ p ≠ q) ∧ Reflagged s s.entries s' := by
  obtain ⟨r, hr, hiff⟩ := h.referenced q
  have hexact : (c.spamHold = true → s.Referenced q) → Flags s fun p => E p ∧ p ≠ q := by
    intro hright
    refine ⟨hflags.covered, fun {p d} hp hflag hnot => ?_⟩
    by_cases hpq : p = q
    · subst hpq
      obtain rfl := some.inj (hq.symm.trans hp)
      exact hright hflag
    · exact hflags.exact hp hflag fun hin => hnot ⟨hin, hpq⟩
  rw [Sline.slineCheckClearSpamhold, hq]
  dsimp only
  split_ifs with hflag
  · rw [hr]
    cases r with
    | true => exact ⟨s, rfl, h, hexact fun _ => hiff.mp rfl, .refl s⟩
    | false =>
      have hno : ¬ s.Referenced q := fun href => by cases hiff.mpr href
      rw [State.setSpamHold, hq]
      refine ⟨_, rfl, h.congr rfl rfl rfl rfl,
        ⟨fun {p d} hp href => ?_, fun {p d} hp hd hnot => ?_⟩, rfl, rfl, rfl, rfl, fun p => ?_⟩
      · have hpq : p ≠ q := by
          rintro rfl
          exact hno href
        dsimp only at hp
        rw [update_of_ne hpq] at hp
        exact hflags.covered hp href
      · dsimp only at hp
        by_cases hpq : p = q
        · rw [hpq, update_self, some_inj] at hp
          rw [← hp] at hd
          cases hd
        · rw [update_of_ne hpq] at hp
          exact hflags.exact hp hd fun hin => hnot ⟨hin, hpq⟩
      · dsimp only
        by_cases hpq : p = q
        · rw [hpq, update_self, hq]
          rfl
        · rw [update_of_ne hpq]
  · exact ⟨s, rfl, h, hexact fun hyes => absurd hyes hflag, .refl s⟩

lemma exists_client (hs' : (s'.clients p).map Client.status = (s.clients p).map Client.status)
    (hp : (s.clients p).isSome) : ∃ c, s'.clients p = some c := by
  rw [← isSome_map, ← hs', isSome_map] at hp
  exact isSome_iff_exists.mp hp

/-- **An entry is freed**, and all flags are right again. -/
lemma Shape.slineHoldFree (h : Shape s xs) (hflags : Flags s fun _ => False)
    (ha : s.entries a = some e) (hlive : ∀ p, e.references p → (s.clients p).isSome) :
    ∃ s', slineHoldFree s a = some s' ∧ Shape s' (xs.erase a) ∧ (Flags s' fun _ => False) ∧
      Reflagged s (Function.update s.entries a none) s' := by
  obtain ⟨s1, h1, hshape1, hfreed1, hclients⟩ := h.slineHoldUnlinkFree ha
  have hflags1 := hflags.freed ha hfreed1.entries hclients
  have hsender : (s.clients e.sender).isSome := hlive _ (by simp [references])
  obtain ⟨c, hc⟩ := exists_client (hfreed1.status _) hsender
  obtain ⟨s2, h2, hshape2, hflags2, hsame2⟩ := hshape1.slineCheckClearSpamhold hflags1 hc
  have hfreed2 := hfreed1.trans hsame2
  rw [Sline.slineHoldFree, ha]
  dsimp only
  rw [h1, bind_some, h2]
  cases htarget : e.target with
  | channel ch =>
    refine ⟨s2, rfl, hshape2, hflags2.mono fun p hp => ?_, hfreed2⟩
    have href : e.references p := hp.1.resolve_left id
    simp only [references, htarget, reduceCtorEq, decide_false, Bool.or_false,
      decide_eq_true_eq] at href
    exact hp.2 href.symm
  | recipient r =>
    obtain ⟨d, hd⟩ :=
      exists_client (hfreed2.status r) (hlive r (by simp [references, htarget]))
    obtain ⟨s3, h3, hshape3, hflags3, hsame3⟩ := hshape2.slineCheckClearSpamhold hflags2 hd
    refine ⟨s3, h3, hshape3, hflags3.mono fun p hp => ?_, hfreed2.trans hsame3⟩
    have href : e.references p := hp.1.1.resolve_left id
    simp only [references, htarget, Bool.or_eq_true, decide_eq_true_eq,
      Target.recipient.injEq] at href
    rcases href with hs | hr
    · exact hp.1.2 hs.symm
    · exact hp.2 hr.symm

end Ircu.Sline
