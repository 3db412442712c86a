import Ircu.Sline.Queue

/-!
Messages on hold over whole runs.

`Good E s xs` is the invariant, with the queue `xs` and with the flags of the clients of `E` in
doubt. An entry that is to go is taken out together with a line in the book (`Removes`); a walk over
the queue removes the entries of a kind one after the other (`sweep_good`), whatever the walk does
to each of them.

The clean-up at the exit of a client is made only for a user that is flagged. This is enough if the
flags are right and if entries point to users only (`Good.exit`). The second is so as long as no
message of a server is put on hold: `relay_directed_message` does that, for a message that a server
sends to `nick@server`.
-/

namespace Ircu.Sline

open Option Function Sline.Entry List State Nat

variable {s s' t : State} {xs as bs : List ℕ} {a b p q : ℕ} {e f : Entry} {c : Client}
  {E E' : ℕ → Prop}

/-! ### The invariant -/

def fits (e : Entry) : Reason → Prop
  | .undeliverable => True
  | .untold => True
  | .exited p => e.references p
  | .destroyed c => e.target = .channel c

def State.held (s : State) (xs : List ℕ) : List (ℕ × Entry) :=
  xs.filterMap fun a => (s.entries a).map fun e => (e.token, e)

lemma Shape.mem_held (h : Shape s xs) {x} :
    x ∈ s.held xs ↔ ∃ a, s.entries a = some x.2 ∧ x.2.token = x.1 := by
  rw [held, mem_filterMap]
  constructor
  · rintro ⟨a, -, ha⟩
    obtain ⟨e, he, rfl⟩ := map_eq_some_iff.mp ha
    exact ⟨a, he, rfl⟩
  · rintro ⟨a, ha, htoken⟩
    refine ⟨a, h.mem_of_entry ha, ?_⟩
    rw [ha, map_some, htoken]

/-- Entries point to users and channels that are there. -/
structure Live (s : State) : Prop where
  user : ∀ {a e p}, s.entries a = some e → e.references p → s.IsUser p
  channel : ∀ {a e c}, s.entries a = some e → e.target = .channel c → s.channels c = true

/-- **The invariant**, but for the flags of the clients of `E`. -/
structure Good (E : ℕ → Prop) (s : State) (xs : List ℕ) : Prop where
  shape : Shape s xs
  flags : Flags s E
  live : Live s
  balanced : Ledger.Balanced fits s.book (s.held xs) s.nextHoldToken

lemma Good.init : Good (fun _ => False) .init [] where
  shape := .init
  flags := ⟨fun h => (by cases h), fun h => (by cases h)⟩
  live := ⟨fun h => (by cases h), fun h => (by cases h)⟩
  balanced := .empty

lemma Good.mono (h : Good E s xs) (hE : ∀ p, E p → E' p) : Good E' s xs :=
  ⟨h.shape, h.flags.mono hE, h.live, h.balanced⟩

lemma State.IsUser.isSome (h : s.IsUser p) : (s.clients p).isSome := by
  obtain ⟨c, hc, -⟩ := h
  simp [hc]

lemma isUser_congr (h : (s'.clients p).map Client.status = (s.clients p).map Client.status)
    (hp : s.IsUser p) : s'.IsUser p := by
  obtain ⟨c, hc, huser⟩ := hp
  obtain ⟨d, hd⟩ := exists_client h (by simp [hc])
  rw [hc, hd, map_some, map_some, some_inj] at h
  exact ⟨d, hd, h.trans huser⟩

/-! ### Entries that go -/

/-- The line in the book is one that ends the message of an entry. -/
def Ends (e : Entry) (posting : Ledger.Posting Entry Outcome Reason) : Prop :=
  (∃ res, posting = .settled e.token res) ∨ ∃ d, posting = .dropped e.token d ∧ fits e d

structure Removes (E : ℕ → Prop) (s : State) (xs : List ℕ) (a : ℕ) (s' : State) : Prop where
  good : Good E s' (xs.erase a)
  entries : s'.entries = Function.update s.entries a none
  channels : s'.channels = s.channels
  status : ∀ p, (s'.clients p).map Client.status = (s.clients p).map Client.status

lemma entry_of_update (h : Function.update s.entries a none b = some f) :
    b ≠ a ∧ s.entries b = some f := by
  by_cases hb : b = a
  · rw [hb, update_self] at h
    cases h
  · rw [update_of_ne hb] at h
    exact ⟨hb, h⟩

lemma Good.removes {posting} (h : Good E s xs)
    (ha : s.entries a = some e) (hends : Ends e posting) (hshape : Shape s' (xs.erase a))
    (hflags : Flags s' E)
    (hfreed : Reflagged (s.post posting) (Function.update (s.post posting).entries a none) s') :
    Removes E s xs a s' := by
  have hentries : s'.entries = Function.update s.entries a none := hfreed.entries
  refine ⟨⟨hshape, hflags, ⟨fun {b f p} hf href => ?_, fun {b f c} hf htarget => ?_⟩, ?_⟩, hentries,
    hfreed.channels, hfreed.status⟩
  · rw [hentries] at hf
    exact isUser_congr (hfreed.status _) (h.live.user (entry_of_update hf).2 href)
  · rw [hentries] at hf
    rw [hfreed.channels]
    exact h.live.channel (entry_of_update hf).2 htarget
  have hbalanced := h.balanced
  rw [hfreed.book, hfreed.nextHoldToken]
  have hin : (e.token, e) ∈ s.held xs := h.shape.mem_held.mpr ⟨a, ha, rfl⟩
  refine hbalanced.ended hin (fun x => ?_) hends
  rw [hshape.mem_held, h.shape.mem_held, hentries]
  constructor
  · rintro ⟨b, hb, htoken⟩
    obtain ⟨hne, hb⟩ := entry_of_update hb
    exact ⟨⟨b, hb, htoken⟩, fun heq => hne (h.shape.distinct hb ha (htoken.trans heq))⟩
  rintro ⟨⟨b, hb, htoken⟩, hne⟩
  refine ⟨b, ?_, htoken⟩
  rw [update_of_ne, hb]
  rintro rfl
  obtain rfl := some.inj (ha.symm.trans hb)
  exact hne htoken.symm

lemma Good.slineHoldFree {posting : Ledger.Posting Entry Outcome Reason}
    (h : Good (fun _ => False) s xs) (ha : s.entries a = some e) (hends : Ends e posting) :
    ∃ s', slineHoldFree (s.post posting) a = some s' ∧ Removes (fun _ => False) s xs a s' := by
  have hshape : Shape (s.post posting) xs := h.shape.congr rfl rfl rfl rfl
  have hflags : Flags (s.post posting) fun _ => False := ⟨h.flags.covered, h.flags.exact⟩
  obtain ⟨s', hfree, hshape', hflags', hfreed⟩ :=
    hshape.slineHoldFree hflags ha fun p hp => (h.live.user ha hp).isSome
  exact ⟨s', hfree, h.removes ha hends hshape' hflags' hfreed⟩

lemma Live.slineBlockMessage (h : Live s) (ha : s.entries a = some e) :
    ∃ posting, slineBlockMessage s e = some (s.post posting) ∧ Ends e posting := by
  obtain ⟨c, hc, huser⟩ := h.user ha (p := e.sender) (by simp [references])
  rw [Sline.slineBlockMessage, hc, bind_some, if_neg (by simpa using huser)]
  cases htarget : e.target with
  | recipient r =>
    obtain ⟨d, hd, -⟩ := h.user ha (p := r) (by simp [references, htarget])
    dsimp only
    rw [hd]
    exact ⟨_, rfl, .inl ⟨_, rfl⟩⟩
  | channel k =>
    dsimp only
    rw [if_pos (h.channel ha htarget)]
    exact ⟨_, rfl, .inl ⟨_, rfl⟩⟩

lemma Live.slineRelease (h : Live s) (env : Env) (ha : s.entries a = some e) :
    ∃ sent, slineRelease s env e = some sent := by
  obtain ⟨c, hc, huser⟩ := h.user ha (p := e.sender) (by simp [references])
  rw [Sline.slineRelease]
  cases htarget : e.target with
  | recipient r =>
    obtain ⟨d, hd, -⟩ := h.user ha (p := r) (by simp [references, htarget])
    dsimp only
    rw [slineReleasePrivmsg, hc, bind_some, if_neg (by simpa using huser), hd]
    exact ⟨_, rfl⟩
  | channel k =>
    dsimp only
    rw [slineReleaseChanmsg, hc, bind_some, if_neg (by simpa using huser),
      if_neg (by simp [h.channel ha htarget])]
    by_cases hmay : (!env.named k || !env.canSend e.sender k) = true
    · rw [if_pos hmay]
      exact ⟨_, rfl⟩
    · rw [if_neg hmay]
      exact ⟨_, rfl⟩

lemma ends_releasePosting (e) (sent : Option (List Line)) :
    Ends e (releasePosting e.token sent) := by
  cases sent with
  | none => exact .inr ⟨_, rfl, trivial⟩
  | some lines => exact .inl ⟨_, rfl⟩

lemma Good.slineReleaseHold (h : Good (fun _ => False) s xs) (env : Env)
    (ha : s.entries a = some e) :
    ∃ s', slineReleaseHold s env e.token = some s' ∧ Removes (fun _ => False) s xs a s' := by
  obtain ⟨r, hr, hfound⟩ := h.shape.slineFindHoldEntry e.token
  obtain rfl : r = some a := (hfound a).mpr ⟨e, ha, rfl⟩
  obtain ⟨sent, hsent⟩ := h.live.slineRelease env ha
  obtain ⟨s', hfree, hremoves⟩ := h.slineHoldFree ha (ends_releasePosting e sent)
  refine ⟨s', ?_, hremoves⟩
  rw [Sline.slineReleaseHold, hr]
  dsimp only
  rw [ha, bind_some, hsent, bind_some, hfree]

lemma Good.blockAndFree (h : Good (fun _ => False) s xs) (ha : s.entries a = some e) :
    ∃ s', ((slineBlockMessage s e).bind fun s => Sline.slineHoldFree s a) = some s' ∧
      Removes (fun _ => False) s xs a s' := by
  obtain ⟨posting, hblock, hends⟩ := h.live.slineBlockMessage ha
  rw [hblock, bind_some]
  exact h.slineHoldFree ha hends

/-! ### Walks that take entries out -/

/-- After a walk: the entries of a kind are gone, and the others are as they were. -/
structure Swept (kind : Entry → Bool) (s s' : State) : Prop where
  entries : ∀ {b f}, s'.entries b = some f → s.entries b = some f ∧ kind f = false
  channels : s'.channels = s.channels
  status : ∀ p, (s'.clients p).map Client.status = (s.clients p).map Client.status

lemma sweep_from (kind) (body : State → ℕ → Entry → Option State) (as)
    (hbody : ∀ {s xs a e}, Good E s xs → s.entries a = some e → kind e →
      ∃ s', body s a e = some s' ∧ Removes E s xs a s')
    (h : Good E s (as ++ bs)) (has : ∀ b ∈ as, ∀ f, s.entries b = some f → kind f = false)
    {fuel} (hfuel : bs.length < fuel) :
    ∃ s' ys, sweep kind body fuel s bs.head? = some s' ∧ Good E s' ys ∧ Swept kind s s' := by
  induction bs generalizing as s fuel with
  | nil =>
    obtain ⟨fuel, rfl⟩ := exists_eq_add_one_of_ne_zero hfuel.ne'
    refine ⟨s, _, rfl, h, fun {b f} hb => ⟨hb, has b ?_ f hb⟩, rfl, fun _ => rfl⟩
    simpa using h.shape.mem_of_entry hb
  | cons a bs ih =>
    rw [length_cons] at hfuel
    obtain ⟨fuel, rfl⟩ := exists_eq_add_one_of_ne_zero (ne_zero_of_lt hfuel)
    have hnodup := h.shape.linked.nodup
    obtain ⟨e, he⟩ := h.shape.entry_of_mem (a := a) (by simp)
    have hnext : s.globalHoldQueue.next a = bs.head? := by
      rw [h.shape.linked.next, Link.nextIn_append_cons hnodup]
    rw [head?_cons, sweep, he]
    dsimp only
    rw [hnext]
    split_ifs with hkind
    · -- the pointer that was read before is still good, as the next entry is not touched
      obtain ⟨s1, h1, hremoves⟩ := hbody h he hkind
      have hgood := hremoves.good
      rw [Bucket.erase_middle hnodup] at hgood
      have hentries := hremoves.entries
      obtain ⟨s', ys, hsweep, hgood', hswept⟩ := ih as hgood (fun b hb f hf => by
        rw [hentries] at hf
        exact has b hb f (entry_of_update hf).2) (show bs.length < fuel by omega)
      refine ⟨s', ys, by rw [h1, bind_some, hsweep], hgood', fun {b f} hb => ?_,
        hswept.channels.trans hremoves.channels,
        fun p => (hswept.status p).trans (hremoves.status p)⟩
      obtain ⟨hold, hnot⟩ := hswept.entries hb
      rw [hentries] at hold
      exact ⟨(entry_of_update hold).2, hnot⟩
    · have hrest : Good E s ((as ++ [a]) ++ bs) := by simpa using h
      refine ih _ hrest (fun b hb f hf => ?_) (by omega)
      rcases mem_append.mp hb with hb | hb
      · exact has b hb f hf
      · obtain rfl := mem_singleton.mp hb
        obtain rfl := some.inj (he.symm.trans hf)
        simpa using hkind

/-- **A walk over the queue** takes out the entries of a kind. -/
lemma sweep_good (kind) (body : State → ℕ → Entry → Option State)
    (hbody : ∀ {s xs a e}, Good E s xs → s.entries a = some e → kind e →
      ∃ s', body s a e = some s' ∧ Removes E s xs a s') (h : Good E s xs) :
    ∃ s' ys, sweep kind body s.turns s s.globalHoldQueue.head = some s' ∧ Good E s' ys ∧
      Swept kind s s' := by
  have hfuel : xs.length < s.turns := by
    rw [turns, h.shape.length]
    exact lt_succ_self _
  rw [h.shape.linked.head]
  exact sweep_from kind body [] hbody h (by simp) hfuel

/-! ### The events -/

lemma Good.slineXreplyHandler (h : Good (fun _ => False) s xs) (env : Env)
    (token reply : List UInt8) :
    ∃ s' ys, slineXreplyHandler s env token reply = some s' ∧ Good (fun _ => False) s' ys := by
  obtain ⟨r, hr, hfound⟩ := h.shape.slineFindHoldEntry (strtoull token)
  rw [Sline.slineXreplyHandler, hr]
  cases r with
  | none =>
    split_ifs
    all_goals exact ⟨s, xs, rfl, h⟩
  | some a =>
    obtain ⟨e, he, htoken⟩ := (hfound a).mp rfl
    dsimp only
    split_ifs
    · exact ⟨s, xs, rfl, h⟩
    · rw [← htoken]
      obtain ⟨s', hs', hremoves⟩ := h.slineReleaseHold env he
      exact ⟨s', _, hs', hremoves.good⟩
    · obtain ⟨s', hs', hremoves⟩ := h.blockAndFree he
      refine ⟨s', _, ?_, hremoves.good⟩
      rw [he, bind_some, hs']
    · exact ⟨s, xs, rfl, h⟩

lemma Good.slineExpire (h : Good (fun _ => False) s xs) (env : Env) (ha : s.entries a = some e) :
    ∃ s', slineExpire env s a e = some s' ∧ Removes (fun _ => False) s xs a s' := by
  rw [Sline.slineExpire]
  split_ifs
  · exact h.blockAndFree ha
  · exact h.slineReleaseHold env ha

lemma Good.slineHoldTimeoutCallback (h : Good (fun _ => False) s xs) (env : Env) :
    ∃ s' ys, slineHoldTimeoutCallback s env = some s' ∧ Good (fun _ => False) s' ys := by
  obtain ⟨s', ys, hs', hgood, -⟩ := sweep_good
    (fun e => e.timestamp + env.holdTimeout ≤ env.now) (Sline.slineExpire env)
    (fun hgood ha _ => hgood.slineExpire env ha) h
  exact ⟨s', ys, hs', hgood⟩

lemma Good.destructChannel (h : Good (fun _ => False) s xs) (k : ℕ) :
    ∃ s' ys, destructChannel s k = some s' ∧ Good (fun _ => False) s' ys := by
  obtain ⟨t, ys, ht, hgood, hswept⟩ := sweep_good
    (fun e => e.target = .channel k)
    (fun s a e => Sline.slineHoldFree (s.post (.dropped e.token (.destroyed k))) a)
    (fun {s xs a e} hgood ha hkind => by
      have htarget : e.target = .channel k := of_decide_eq_true hkind
      exact hgood.slineHoldFree ha (.inr ⟨_, rfl, htarget⟩)) h
  refine ⟨{ t with channels := Function.update t.channels k false }, ys,
    by rw [Sline.destructChannel, slineCleanupChannel, ht, map_some],
    hgood.shape.congr rfl rfl rfl rfl,
    ⟨hgood.flags.covered, hgood.flags.exact⟩,
    ⟨hgood.live.user, fun {b f l} hf htarget => ?_⟩, hgood.balanced⟩
  have hne : l ≠ k := by
    rintro rfl
    have hnot := (hswept.entries hf).2
    simp [htarget] at hnot
  dsimp only
  rw [update_of_ne hne]
  exact hgood.live.channel hf htarget

lemma Good.slineDropForClient (h : Good (· = p) s xs) (ha : s.entries a = some e)
    (hp : e.references p) :
    ∃ s', slineDropForClient p s a e = some s' ∧ Removes (· = p) s xs a s' := by
  have hends : Ends e (.dropped e.token (.exited p)) := .inr ⟨_, rfl, hp⟩
  have hpost : Shape (s.post (.dropped e.token (.exited p))) xs := h.shape.congr rfl rfl rfl rfl
  have hflags : Flags (s.post (.dropped e.token (.exited p))) (· = p) :=
    ⟨h.flags.covered, h.flags.exact⟩
  obtain ⟨s1, h1, hshape1, hfreed1, hclients⟩ := hpost.slineHoldUnlinkFree ha
  have hflags1 := hflags.freed ha hfreed1.entries hclients
  rw [Sline.slineDropForClient, h1, bind_some]
  -- whom the entry points to besides `p`
  have honly : ∀ r, e.references r → r = p ∨ e.other p = some r := by
    intro r hr
    simp only [references, Bool.or_eq_true, decide_eq_true_eq] at hr hp
    unfold other
    split_ifs with hsender
    · rcases hr with hr | hr
      · exact .inl (hr.symm.trans hsender)
      · rw [hr]
        exact .inr rfl
    rcases hr with hr | hr
    · exact .inr (by rw [hr])
    · rw [hp.resolve_left hsender, Target.recipient.injEq] at hr
      exact .inl hr.symm
  have hdone : (∀ r, e.other p = some r → r = p) →
      ∃ s', some s1 = some s' ∧ Removes (· = p) s xs a s' := by
    intro hnobody
    refine ⟨s1, rfl, h.removes ha hends hshape1 (hflags1.mono fun r hr => ?_) hfreed1⟩
    exact hr.elim id fun hr => (honly r hr).elim id (hnobody r)
  cases hother : e.other p with
  | none => exact hdone fun r hr => by rw [hother] at hr; cases hr
  | some r =>
    dsimp only
    split_ifs with hne
    · have href : e.references r := by
        unfold other at hother
        split_ifs at hother with hsender
        · cases htarget : e.target with
          | channel k => simp [htarget] at hother
          | recipient m =>
            rw [htarget] at hother
            simp [references, htarget, some.inj hother]
        · simp [references, some.inj hother]
      obtain ⟨d, hd⟩ := exists_client (hfreed1.status r) (h.live.user ha href).isSome
      obtain ⟨s2, h2, hshape2, hflags2, hsame⟩ := hshape1.slineCheckClearSpamhold hflags1 hd
      refine ⟨s2, h2, h.removes ha hends hshape2 (hflags2.mono fun m hm => ?_)
        (hfreed1.trans hsame)⟩
      refine hm.1.elim id fun hm' => (honly m hm').resolve_right fun heq => hm.2 ?_
      exact some.inj (heq.symm.trans hother)
    · refine hdone fun m hm => ?_
      obtain rfl := some.inj (hother.symm.trans hm)
      exact not_not.mp hne

lemma Good.forget (h : Good (· = p) s xs) (hp : ¬ s.Referenced p) :
    Good (fun _ => False) { s with clients := Function.update s.clients p none } xs := by
  have hold : ∀ {q d}, Function.update s.clients p none q = some d →
      q ≠ p ∧ s.clients q = some d := by
    intro q d hd
    by_cases hq : q = p
    · rw [hq, update_self] at hd
      cases hd
    · rw [update_of_ne hq] at hd
      exact ⟨hq, hd⟩
  refine ⟨h.shape.congr rfl rfl rfl rfl, ⟨fun hq href => ?_, fun hq hflag _ => ?_⟩,
    ⟨fun {b f q} hf href => ?_, h.live.channel⟩, h.balanced⟩
  · exact h.flags.covered (hold hq).2 href
  · exact h.flags.exact (hold hq).2 hflag (hold hq).1
  have hne : q ≠ p := by
    rintro rfl
    exact hp ⟨b, f, hf, href⟩
  obtain ⟨d, hd, huser⟩ := h.live.user hf href
  exact ⟨d, by dsimp only; rw [update_of_ne hne, hd], huser⟩

/-- **A client exits.** If it is not cleaned up after, no entry points to it. -/
lemma Good.exit (h : Good (fun _ => False) s xs) (hp : (s.clients p).isSome) :
    ∃ s' ys, exitOneClient s p = some s' ∧ Good (fun _ => False) s' ys := by
  obtain ⟨c, hc⟩ := isSome_iff_exists.mp hp
  have hgood : Good (· = p) s xs := h.mono fun _ hf => hf.elim
  rw [exitOneClient, hc, bind_some]
  split_ifs with hclean
  · obtain ⟨t, ys, ht, hgood', hswept⟩ := sweep_good
      (fun e => e.references p) (Sline.slineDropForClient p)
      (fun hgood ha hkind => hgood.slineDropForClient ha hkind) hgood
    have hgone : ¬ t.Referenced p := by
      rintro ⟨b, f, hf, hpf⟩
      rw [(hswept.entries hf).2] at hpf
      cases hpf
    obtain ⟨d, hd⟩ := exists_client (hswept.status p) hp
    refine ⟨_, ys, by rw [slineCleanupClient, ht, bind_some, setSpamHold, hd]; rfl, ?_⟩
    dsimp only
    rw [update_idem]
    exact hgood'.forget hgone
  · refine ⟨_, xs, rfl, hgood.forget ?_⟩
    rintro ⟨b, f, hf, hpf⟩
    obtain ⟨d, hd, huser⟩ := h.live.user hf hpf
    obtain rfl := some.inj (hc.symm.trans hd)
    exact hclean ⟨huser, h.flags.covered hc ⟨b, f, hf, hpf⟩⟩

lemma Good.connect (h : Good (fun _ => False) s xs) (hp : s.clients p = none) (status : Status) :
    Good (fun _ => False)
      { s with clients := Function.update s.clients p (some ⟨status, false⟩) } xs := by
  have hfresh : ∀ {b f q}, s.entries b = some f → f.references q → q ≠ p := by
    rintro b f q hf href rfl
    have hsome := (h.live.user hf href).isSome
    rw [hp] at hsome
    cases hsome
  refine ⟨h.shape.congr rfl rfl rfl rfl, ⟨fun {q d} hq href => ?_, fun {q d} hq hflag _ => ?_⟩,
    ⟨fun {b f q} hf href => ?_, h.live.channel⟩, h.balanced⟩
  · obtain ⟨b, f, hf, hqf⟩ := href
    dsimp only at hq
    rw [update_of_ne (hfresh hf hqf)] at hq
    exact h.flags.covered hq ⟨b, f, hf, hqf⟩
  · dsimp only at hq
    by_cases hqp : q = p
    · rw [hqp, update_self, some_inj] at hq
      rw [← hq] at hflag
      cases hflag
    · rw [update_of_ne hqp] at hq
      exact h.flags.exact hq hflag id
  · obtain ⟨d, hd, huser⟩ := h.live.user hf href
    exact ⟨d, by dsimp only; rw [update_of_ne (hfresh hf href), hd], huser⟩

lemma Good.create (h : Good (fun _ => False) s xs) (k : ℕ) :
    Good (fun _ => False) { s with channels := Function.update s.channels k true } xs := by
  refine ⟨h.shape.congr rfl rfl rfl rfl, ⟨h.flags.covered, h.flags.exact⟩,
    ⟨h.live.user, fun {b f l} hf htarget => ?_⟩, h.balanced⟩
  have hl := h.live.channel hf htarget
  dsimp only
  by_cases hlk : l = k
  · rw [hlk, update_self]
  · rw [update_of_ne hlk, hl]

/-! ### Holding a message -/

lemma markHeld_eq (target : Target) (hsender : (s.clients p).isSome)
    (htarget : ∀ r, target = .recipient r → (s.clients r).isSome) :
    ∃ clients, s.markHeld p target = some { s with clients } ∧
      ∀ q, clients q = (s.clients q).map fun c =>
        { c with spamHold := c.spamHold || (p = q || target = .recipient q) } := by
  obtain ⟨c, hc⟩ := isSome_iff_exists.mp hsender
  rw [markHeld, setSpamHold, hc, map_some, bind_some]
  cases target with
  | channel k =>
    refine ⟨_, rfl, fun q => ?_⟩
    by_cases hq : q = p
    · subst hq
      rw [hc]
      simp
    · rw [update_of_ne hq]
      simp [Ne.symm hq]
  | recipient r =>
    obtain ⟨d, hd⟩ := isSome_iff_exists.mp (htarget r rfl)
    dsimp only
    by_cases hr : r = p
    · subst hr
      rw [setSpamHold]
      dsimp only
      rw [update_self]
      refine ⟨_, rfl, fun q => ?_⟩
      rw [update_idem]
      by_cases hq : q = r
      · subst hq
        rw [hc]
        simp
      · rw [update_of_ne hq]
        simp [Ne.symm hq]
    rw [setSpamHold]
    dsimp only
    rw [update_of_ne hr, hd]
    refine ⟨_, rfl, fun q => ?_⟩
    by_cases hqr : q = r
    · subst hqr
      rw [hd]
      simp
    rw [update_of_ne hqr]
    by_cases hqp : q = p
    · subst hqp
      rw [hc]
      simp
    · rw [update_of_ne hqp]
      simp [Ne.symm hqp, Ne.symm hqr]

def State.CanHold (s : State) : Target → Prop
  | .recipient r => s.IsUser r
  | .channel k => s.channels k = true

lemma Good.slineHoldAdd (h : Good (fun _ => False) s xs) (env : Env) {target}
    (ha : s.entries a = none) (hsender : s.IsUser p) (htarget : s.CanHold target)
    (hroom : s.nextHoldToken + 1 < 2 ^ 64) (text : List UInt8) (captures : Option (List UInt8))
    (cmd : CmdType) : ∃ s', slineHoldAdd s env a p target text captures cmd = some s' ∧
      Good (fun _ => False) s' (a :: xs) := by
  obtain ⟨clients, hmark, hclients⟩ := markHeld_eq target hsender.isSome
    (by rintro r rfl; exact State.IsUser.isSome htarget)
  rw [Sline.slineHoldAdd, hmark]
  set e := s.newEntry env p target text captures cmd with he
  have htoken : e.token = s.nextHoldToken := rfl
  have hrefs : ∀ q, e.references q = (p = q || target = .recipient q) := fun _ => rfl
  have hbelow : ∀ b f, s.entries b = some f → f.token < s.nextHoldToken := by
    intro b f hf
    have hheld : (f.token, f) ∈ s.held xs := h.shape.mem_held.mpr ⟨b, hf, rfl⟩
    exact h.balanced.lt _ _ (h.balanced.kept _ _ hheld).1
  have hshape : Shape (({ s with clients } : State).enlist a e) (a :: xs) := by
    refine Shape.enlist (h.shape.congr rfl rfl rfl rfl) ha fun b f hf => ?_
    exact (hbelow b f hf).ne
  have hentry : ∀ {b f}, Function.update s.entries a (some e) b = some f →
      (b = a ∧ f = e) ∨ s.entries b = some f := by
    intro b f hf
    by_cases hb : b = a
    · rw [hb, update_self, some_inj] at hf
      exact .inl ⟨hb, hf.symm⟩
    · rw [update_of_ne hb] at hf
      exact .inr hf
  have hkept : ∀ {b f}, s.entries b = some f → Function.update s.entries a (some e) b = some f := by
    intro b f hf
    rw [update_of_ne, hf]
    rintro rfl
    rw [ha] at hf
    cases hf
  have huser : ∀ {q}, s.IsUser q → (({ s with clients } : State).enlist a e).IsUser q := by
    rintro q ⟨d, hd, hstatus⟩
    refine ⟨_, (hclients q).trans (by rw [hd]; rfl), ?_⟩
    exact hstatus
  refine ⟨_, rfl, hshape, ⟨fun {q d} hq href => ?_, fun {q d} hq hflag _ => ?_⟩,
    ⟨fun {b f q} hf href => ?_, fun {b f k} hf hk => ?_⟩, ?_⟩
  · obtain ⟨d', hd', rfl⟩ := map_eq_some_iff.mp ((hclients q).symm.trans hq)
    obtain ⟨b, f, hf, hqf⟩ := href
    rcases hentry hf with ⟨-, rfl⟩ | hf
    · simp [← hrefs, hqf]
    · simp [h.flags.covered hd' ⟨b, f, hf, hqf⟩]
  · obtain ⟨d', hd', rfl⟩ := map_eq_some_iff.mp ((hclients q).symm.trans hq)
    rw [Bool.or_eq_true] at hflag
    rcases hflag with hflag | hflag
    · obtain ⟨b, f, hf, hqf⟩ := h.flags.exact hd' hflag id
      exact ⟨b, f, hkept hf, hqf⟩
    · exact ⟨a, e, update_self .., hflag⟩
  · rcases hentry hf with ⟨-, rfl⟩ | hf
    · rw [hrefs, Bool.or_eq_true, decide_eq_true_eq, decide_eq_true_eq] at href
      rcases href with rfl | rfl
      · exact huser hsender
      · exact huser htarget
    · exact huser (h.live.user hf href)
  · rcases hentry hf with ⟨-, rfl⟩ | hf
    · obtain rfl : target = .channel k := hk
      exact htarget
    · exact h.live.channel hf hk
  have hnext : (s.nextHoldToken + 1) % 2 ^ 64 = s.nextHoldToken + 1 := mod_eq_of_lt hroom
  have hopened := h.balanced.opened e
  have hbook : (({ s with clients } : State).enlist a e).book =
      .opened s.nextHoldToken e :: s.book := rfl
  have htok : (({ s with clients } : State).enlist a e).nextHoldToken = s.nextHoldToken + 1 :=
    hnext
  rw [htok]
  refine hopened.congr fun x => ?_
  rw [hshape.mem_held, mem_cons, h.shape.mem_held]
  constructor
  · rintro ⟨b, hb, hx⟩
    rcases hentry hb with ⟨-, hxe⟩ | hb
    · exact .inl (Prod.ext (hx.symm.trans (by rw [hxe, htoken])) hxe)
    · exact .inr ⟨b, hb, hx⟩
  · rintro (rfl | ⟨b, hb, hx⟩)
    · exact ⟨a, update_self .., rfl⟩
    · exact ⟨b, hkept hb, hx⟩

lemma Good.slineCheck (h : Good (fun _ => False) s xs) (msgtype : MsgType) (env : Env)
    (target : Target) (ha : s.entries a = none) (hsender : s.IsUser p) (htarget : s.CanHold target)
    (hroom : s.nextHoldToken + 1 < 2 ^ 64) (text : List UInt8) (cmd : CmdType) :
    ∃ s' ys, (slineCheck msgtype s env a p target text cmd).map Prod.fst = some s' ∧
      Good (fun _ => False) s' ys := by
  rw [Sline.slineCheck]
  by_cases hskip : (env.isAnOper p || !env.slineIsEnabled) = true
  · rw [if_pos hskip]
    exact ⟨s, xs, rfl, h⟩
  rw [if_neg hskip]
  cases env.checkPattern text msgtype with
  | none => exact ⟨s, xs, rfl, h⟩
  | some captures =>
    dsimp only
    by_cases hlinked : (!env.spamServer) = true
    · rw [if_pos hlinked]
      exact ⟨s, xs, rfl, h⟩
    rw [if_neg hlinked]
    obtain ⟨s', hs', hgood⟩ :=
      h.slineHoldAdd env ha hsender htarget hroom text (some captures) cmd
    exact ⟨s', _, by rw [hs']; rfl, hgood⟩

/-! ### Runs -/

/-- What is asked of an event: a message to `nick@server` comes from a user, and the tokens have not
been used up when a message is looked at. -/
def FromUser (s : State) : Event → Prop
  | .relayPrivate _ _ _ _ _ _ => s.nextHoldToken + 1 < 2 ^ 64
  | .relayDirected _ _ sptr _ _ _ => s.IsUser sptr ∧ s.nextHoldToken + 1 < 2 ^ 64
  | .relayChannel _ _ _ _ _ _ => s.nextHoldToken + 1 < 2 ^ 64
  | _ => True

/-- **One event** that is possible and comes from a user keeps the invariant. -/
lemma Good.step (h : Good (fun _ => False) s xs) {ev} (hposs : Possible s ev)
    (huser : FromUser s ev) : ∃ s' ys, step s ev = some s' ∧ Good (fun _ => False) s' ys := by
  cases ev with
  | connect p status => exact ⟨_, xs, rfl, h.connect hposs status⟩
  | create k => exact ⟨_, xs, rfl, h.create k⟩
  | relayPrivate env a sptr acptr text cmd =>
    exact h.slineCheck .slinePrivate env (.recipient acptr) hposs.1 hposs.2.1 hposs.2.2
      huser text cmd
  | relayDirected env a sptr acptr text cmd =>
    exact h.slineCheck .slinePrivate env (.recipient acptr) hposs.1 huser.1 hposs.2.2
      huser.2 text cmd
  | relayChannel env a sptr chptr text cmd =>
    exact h.slineCheck .slineChannel env (.channel chptr) hposs.1 hposs.2.1 hposs.2.2
      huser text cmd
  | xreply env token reply => exact h.slineXreplyHandler env token reply
  | timeout env => exact h.slineHoldTimeoutCallback env
  | exit p => exact h.exit hposs
  | destruct k => exact h.destructChannel k

/-- **What is said of the queue**: each entry is once on the list and once on the chain of its
token's hash; a client is flagged exactly if an entry points to it; what an entry points to is
there; and a message that was put on hold is there untouched, or was delivered, blocked or dropped,
once. -/
structure Sound (s : State) : Prop where
  listed : ∃ xs chain, Link.Linked s.globalHoldQueue xs ∧ Bucket.Stands s.holdTable chain ∧
    (∀ a, a ∈ xs → (s.entries a).isSome) ∧
    ∀ a e, s.entries a = some e → xs.count a = 1 ∧
      ∀ k, (chain k).count a = if k = slineTokenHash e.token then 1 else 0
  flagged : ∀ p c, s.clients p = some c → (c.spamHold = true ↔ s.Referenced p)
  referred : ∀ a e, s.entries a = some e →
    (∀ p, e.references p → (s.clients p).isSome) ∧ ∀ c, e.target = .channel c → s.channels c = true
  opened : ∀ a e, s.entries a = some e → .opened e.token e ∈ s.book
  once : ∀ token e, .opened token e ∈ s.book →
    ((∃ a, s.entries a = some e ∧ e.token = token) ∧ Ledger.endings s.book token = 0) ∨
      ((¬ ∃ a, s.entries a = some e ∧ e.token = token) ∧ Ledger.endings s.book token = 1)

lemma Good.sound (h : Good (fun _ => False) s xs) : Sound s where
  listed := by
    refine ⟨xs, s.chain xs, h.shape.linked, h.shape.chains, fun a ha => (h.shape.mem a).mpr ha,
      fun a e he => ?_⟩
    have hmem := h.shape.mem_of_entry he
    refine ⟨count_eq_one_of_mem h.shape.linked.nodup hmem, fun k => ?_⟩
    split_ifs with hk
    · subst hk
      exact count_eq_one_of_mem (h.shape.chains.nodup _) (mem_chain he hmem)
    · refine count_eq_zero_of_not_mem fun hin => hk ?_
      exact h.shape.chains.apart hin (mem_chain he hmem)
  flagged p c hp := ⟨fun hflag => h.flags.exact hp hflag id, h.flags.covered hp⟩
  referred a e he :=
    ⟨fun p hp => (h.live.user he hp).isSome, fun c hc => h.live.channel he hc⟩
  opened a e he := (h.balanced.kept _ _ (h.shape.mem_held.mpr ⟨a, he, rfl⟩)).1
  once token e ho := by
    have hiff : (token, e) ∈ s.held xs ↔ ∃ a, s.entries a = some e ∧ e.token = token :=
      h.shape.mem_held
    by_cases hin : (token, e) ∈ s.held xs
    · exact .inl ⟨hiff.mp hin, (h.balanced.kept _ _ hin).2⟩
    · exact .inr ⟨fun hex => hin (hiff.mpr hex), h.balanced.gone _ _ ho hin⟩

/-- **The hold queue.** If no message of a server is looked at for `nick@server`, then whatever
happens, nothing goes wrong and the queue is as it should be. -/
theorem hold_queue_sound (es : List Event)
    (h : Run.Permitted step (fun s ev => Possible s ev ∧ FromUser s ev) .init es) :
    ∃ s, Run.run step .init es = some s ∧ Sound s := by
  have hinit : ∃ xs, Good (fun _ => False) .init xs := ⟨[], .init⟩
  obtain ⟨s, hrun, xs, hgood⟩ := Run.run_safe (fun s => ∃ xs, Good (fun _ => False) s xs)
    (fun s ev hs hev => by
      obtain ⟨xs, hgood⟩ := hs
      obtain ⟨s', ys, hs', hgood'⟩ := hgood.step hev.1 hev.2
      exact ⟨s', hs', ys, hgood'⟩) hinit h
  exact ⟨s, hrun, hgood.sound⟩

/-- S-lines are on, every text matches, the filter is linked, and a message is on hold for thirty
seconds at most. -/
def Env.plain (now : ℤ) : Env where
  isAnOper _ := false
  slineIsEnabled := true
  checkPattern text _ := some text
  spamServer := true
  isSilenced _ _ := false
  away _ := none
  echoMessage _ := false
  canSend _ _ := true
  named _ := true
  now := now
  holdTimeout := 30
  holdTimeoutBlock := true

/-- Two users connect, the first sends the second a message, and exits. -/
def senderQuits : List Event :=
  [.connect 1 .user, .connect 2 .user, .relayPrivate (.plain 0) 0 1 2 (str "spam") .privmsg,
    .exit 1]

/-- The message is dropped. -/
theorem hold_queue_sound_senderQuits :
    Run.Permitted step (fun s ev => Possible s ev ∧ FromUser s ev) .init senderQuits ∧
      ∃ s, Run.run step .init senderQuits = some s ∧ Sound s := by
  have h : Run.Permitted step (fun s ev => Possible s ev ∧ FromUser s ev) .init senderQuits := by
    refine .cons ⟨rfl, trivial⟩ rfl (.cons ⟨rfl, trivial⟩ rfl ?_)
    refine .cons ⟨⟨rfl, ⟨⟨.user, false⟩, rfl, rfl⟩, ⟨.user, false⟩, rfl, rfl⟩, ?_⟩ rfl ?_
    · change 1 + 1 < 2 ^ 64
      norm_num
    · exact .cons ⟨rfl, trivial⟩ rfl trivial
  exact ⟨h, hold_queue_sound _ h⟩

/-- A service and a server connect, the server sends a message to the service, and exits. -/
def serverQuits : List Event :=
  [.connect 1 .user, .connect 2 .server, .relayDirected (.plain 0) 0 2 1 (str "spam") .privmsg,
    .exit 2]

/-- The message of the server stays on hold, and points to where the server was. When its time is
up, the memory of the server is read. -/
theorem hold_queue_dangling :
    Run.Permitted step Possible .init serverQuits ∧
      (∃ s e, Run.run step .init serverQuits = some s ∧ s.entries 0 = some e ∧ e.references 2 ∧
        s.clients 2 = none) ∧
      Run.run step .init (serverQuits ++ [.timeout (.plain 30)]) = none := by
  refine ⟨?_, ⟨_, _, rfl, rfl, rfl, rfl⟩, rfl⟩
  refine .cons rfl rfl (.cons rfl rfl ?_)
  refine .cons ⟨rfl, rfl, ⟨⟨.user, false⟩, rfl, rfl⟩⟩ rfl ?_
  exact .cons rfl rfl trivial

end Ircu.Sline
