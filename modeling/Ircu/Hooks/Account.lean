import Ircu.Hooks.Dispatch

/-!
Every operation that a hook holds is completed once, or dropped when its client exits, as long as
no hook holds an operation after it was removed from the only chain that is being run.
-/

namespace Ircu.Hooks

open Ledger Roster Run List Option List.Subset World

variable {M F C K : Type} {w w' : World M F C K} {hs hs' : HookType → List (ℕ × Hook M F)}
  {ps qs : List (ℕ × HookPending M C K)} {a : ℕ} {hp : HookPending M C K}

/-! ### The list of holds -/

def clients (ps : List (ℕ × HookPending M C K)) : List (ℕ × Option C) :=
  ps.map fun x => (x.1, x.2.client)

def deadlines (ps : List (ℕ × HookPending M C K)) : List ℤ := ps.map fun x => x.2.deadline

/-- **The invariant of the list.** -/
structure Core (w : World M F C K) (ps : List (ℕ × HookPending M C K)) : Prop where
  holds : w.holds.Holds ps
  num : w.pendingNum = ps.length
  bound : w.pendingNum ≤ HOOK_PENDING_MAX
  balanced : Balanced (fun client c => client = some c) w.book (clients ps) w.holds.next

lemma Core.init (now) : Core (init now : World M F C K) [] :=
  ⟨holds_empty, rfl, Nat.zero_le _, .empty⟩

lemma Core.congr (h : Core w ps) (hholds : w'.holds = w.holds)
    (hnum : w'.pendingNum = w.pendingNum) (hbook : w'.book = w.book) : Core w' ps := by
  refine ⟨?_, ?_, ?_, ?_⟩
  · rw [hholds]
    exact h.holds
  · rw [hnum]
    exact h.num
  · rw [hnum]
    exact h.bound
  · rw [hbook, hholds]
    exact h.balanced

lemma Core.apart (h : Core w ps) (ha : Apart w w') : Core w' ps :=
  h.congr ha.holds ha.pendingNum ha.book

def World.setTimer (w : World M F C K) (ds : List ℤ) : World M F C K :=
  { w with armed := Deadline.arm w.armed (Deadline.earliest ds) }

lemma Core.arm (h : Core w ps) : hookPendingArm w = some (w.setTimer (deadlines ps)) := by
  rw [hookPendingArm, setTimer]
  cases harmed : w.armed with
  | some t =>
    dsimp only
    rw [Deadline.arm, ← harmed]
  | none =>
    rw [hookPendingDeadline, h.holds.fold, map_some, Deadline.earliest, deadlines, foldl_map]

lemma Core.tokenNew (h : Core w ps) : ∃ token, hookTokenNew w = some token := by
  have hbound := h.bound
  rw [HOOK_PENDING_MAX] at hbound
  rw [hookTokenNew, h.num]
  exact h.holds.seek HookPending.token w.lastToken (by rw [TOKENS]; have := h.num; omega)

lemma Core.complete (h : Core w ps) (ha : (a, hp) ∈ ps) (answer : Answer) (after : After M) :
    ∃ w', complete w a answer after = some w' ∧ Core w' (without a ps) ∧ w'.hooks = w.hooks ∧
      w'.depth = w.depth ∧ w'.finished = w.finished ∧ w'.armed = w.armed ∧
      w'.stack = .completion hp.done after :: w.stack := by
  obtain ⟨holds, hremove, hholds, hnext⟩ := h.holds.remove ha
  have hlen : (without a ps).length + 1 = ps.length :=
    length_without h.holds.nodup (mem_addrs_of_mem ha)
  have hnum := h.num
  have hbound := h.bound
  rw [Hooks.complete, h.holds.get ha, bind_some, hookPendingFree, hremove]
  refine ⟨_, rfl, ⟨hholds, ?_, ?_, ?_⟩, rfl, rfl, rfl, rfl, rfl⟩
  · change w.pendingNum - 1 = _
    omega
  · change w.pendingNum - 1 ≤ _
    omega
  · change Balanced _ _ _ holds.heap.next
    rw [hnext]
    exact h.balanced.without ha (.inl ⟨answer, rfl⟩)

lemma Core.cancel [DecidableEq C] (h : Core w ps) (client : Option C) :
    ∃ w' qs, hookPendingCancel w client = some w' ∧ Core w' qs ∧ qs ⊆ ps ∧ w'.hooks = w.hooks ∧
      w'.depth = w.depth ∧ w'.finished = w.finished ∧ w'.armed = w.armed ∧ w'.stack = w.stack := by
  cases client with
  | none => exact ⟨w, ps, rfl, h, refl _, rfl, rfl, rfl, rfl, rfl⟩
  | some c =>
    let mine (hp : HookPending M C K) : Bool := decide (hp.client = some c)
    obtain ⟨holds, hsweep, hholds, hnext⟩ := h.holds.sweep mine
    have hlen := length_others mine ps
    have hnum := h.num
    have hbound := h.bound
    rw [hookPendingCancel, hsweep]
    refine ⟨_, others mine ps, rfl, ⟨hholds, ?_, ?_, ?_⟩, filter_sublist.subset, rfl, rfl,
      rfl, rfl, rfl⟩
    · change w.pendingNum - (ps.filter fun x => mine x.2).length = _
      omega
    · change w.pendingNum - (ps.filter fun x => mine x.2).length ≤ _
      omega
    change Balanced _ (List.reverse (List.map _ _) ++ w.book) _ holds.heap.next
    rw [hnext]
    exact h.balanced.others (e := fun a => .dropped a c) h.holds mine fun x _ hx =>
      .inr ⟨c, rfl, of_decide_eq_true hx⟩

/-! ### The timer -/

def Expiring (stack : List (Frame M F C K)) : Prop :=
  ∃ k now, .completion k (.expiring now) ∈ stack

/-- If there are holds, the timer is set for no later than the first deadline, unless its expiry is
being executed. -/
structure Timed (w : World M F C K) (ps : List (ℕ × HookPending M C K)) : Prop where
  ahead : Deadline.Ahead w.armed (deadlines ps)
  set : ps ≠ [] → w.armed ≠ none ∨ Expiring w.stack

lemma deadlines_subset (h : qs ⊆ ps) : deadlines qs ⊆ deadlines ps := map_subset _ h

lemma Expiring.of_completions {s s' : List (Frame M F C K)} (h : Expiring s)
    (hs : completions s' = completions s) : Expiring s' := by
  obtain ⟨k, now, hin⟩ := h
  have hin' : .completion k (.expiring now) ∈ completions s' := by
    rw [hs]
    exact mem_filter.mpr ⟨hin, rfl⟩
  exact ⟨k, now, (mem_filter.mp hin').1⟩

lemma Timed.of_expiring (h : Timed w ps) (hsub : qs ⊆ ps) (harmed : w'.armed = w.armed)
    (hexp : Expiring w.stack → Expiring w'.stack) : Timed w' qs := by
  refine ⟨?_, fun hne => ?_⟩
  · rw [harmed]
    exact h.ahead.mono (deadlines_subset hsub)
  have hps : ps ≠ [] := by
    rintro rfl
    exact hne (subset_nil.mp hsub)
  rw [harmed]
  exact (h.set hps).imp_right hexp

lemma Timed.mono (h : Timed w ps) (hsub : qs ⊆ ps) (harmed : w'.armed = w.armed)
    (hstack : completions w'.stack = completions w.stack) : Timed w' qs :=
  h.of_expiring hsub harmed fun hexp => hexp.of_completions hstack

lemma Timed.enter {k after} (h : Timed w ps) (hsub : qs ⊆ ps)
    (harmed : w'.armed = w.armed) (hstack : w'.stack = .completion k after :: w.stack) :
    Timed w' qs := by
  refine h.of_expiring hsub harmed ?_
  rintro ⟨k', now, hin⟩
  exact ⟨k', now, hstack ▸ mem_cons_of_mem _ hin⟩

lemma Timed.leave {k after stack} (h : Timed w ps)
    (hs : w.stack = .completion k after :: stack) (hafter : ∀ now, after ≠ .expiring now) :
    Timed { w with stack } ps := by
  refine ⟨h.ahead, fun hne => (h.set hne).imp_right fun ⟨k', now, hin⟩ => ?_⟩
  rw [hs] at hin
  refine ⟨k', now, (mem_cons.mp hin).resolve_left fun heq => ?_⟩
  cases heq
  exact hafter now rfl

lemma timed_setTimer (h : Deadline.Ahead w.armed (deadlines ps)) :
    Timed (w.setTimer (deadlines ps)) ps := by
  refine ⟨h.arm, fun hne => .inl ?_⟩
  exact Deadline.arm_ne_none h.pos (by simpa [deadlines] using hne)

/-! ### One event -/

/-- An operation is held when the timer is not set for later than its deadline. -/
def Prompt (w : World M F C K) : Event M F C K → Prop
  | .answer .pending =>
    ∀ d h token client done deadline, w.stack.head? = some (.hook d h) →
      d.kind = .suspendable token client done deadline →
      0 < deadline ∧ ∀ t, w.armed = some t → t ≤ deadline
  | _ => True

/-- What an event leads to: the invariants are kept, and so is what holds of the timer if the event
is prompt. -/
def Leads (w : World M F C K) (ps : List (ℕ × HookPending M C K)) (prompt : Prop)
    (r : Option (World M F C K)) : Prop :=
  ∃ w' hs' qs, r = some w' ∧ Chains w' hs' ∧ Core w' qs ∧ (Timed w ps → prompt → Timed w' qs)

lemma Core.leads {prompt r} (h : Core w ps)
    (hr : ∃ w' hs', r = some w' ∧ Chains w' hs' ∧ Apart w w') : Leads w ps prompt r := by
  obtain ⟨w', hs', heq, hc, ha⟩ := hr
  exact ⟨w', hs', ps, heq, hc, h.apart ha, fun ht _ => ht.mono (refl _) ha.armed ha.stack⟩

lemma Core.leads_give {prompt} (h : Core w ps) (hc : Chains w hs) (v : Value) :
    Leads w ps prompt (some (w.give v)) :=
  h.leads ⟨_, hs, rfl, hc.congr rfl rfl rfl rfl, ⟨rfl, rfl, rfl, rfl, rfl⟩⟩

lemma Core.leads_complete {prompt} (h : Core w ps) (hc : Chains w hs) (ha : (a, hp) ∈ ps)
    (answer : Answer) (after : After M) : Leads w ps prompt (Hooks.complete w a answer after) := by
  obtain ⟨w', heq, hcore, hhooks, hdepth, hfin, harmed, hstack⟩ := h.complete ha answer after
  have hsub : without a ps ⊆ ps := filter_sublist.subset
  refine ⟨w', hs, _, heq, hc.congr hhooks hdepth ?_ hfin, hcore, fun ht _ => ?_⟩
  · rw [hstack]
    rfl
  · exact ht.enter hsub harmed hstack

lemma Core.hookPendingExpire (h : Core w ps) (hc : Chains w hs) (now) :
    ∃ w' hs' qs, hookPendingExpire w now = some w' ∧ Chains w' hs' ∧ Core w' qs ∧
      (Deadline.Ahead w.armed (deadlines ps) → Timed w' qs) := by
  rw [Hooks.hookPendingExpire, h.holds.find]
  cases hfind : ps.find? fun x => decide (x.2.deadline ≤ now) with
  | none =>
    exact ⟨_, hs, ps, h.arm, hc.congr rfl rfl rfl rfl, h.congr rfl rfl rfl, timed_setTimer⟩
  | some x =>
    have hx : (x.1, x.2) ∈ ps := mem_of_find?_eq_some hfind
    obtain ⟨w', heq, hcore, hhooks, hdepth, hfin, harmed, hstack⟩ := h.complete hx
      (.deny, some (str "Timed out waiting for a module")) (.expiring now)
    have hsub : without x.1 ps ⊆ ps := filter_sublist.subset
    refine ⟨w', hs, _, heq, hc.congr hhooks hdepth ?_ hfin, hcore, fun hahead => ⟨?_, fun _ => ?_⟩⟩
    · rw [hstack]
      rfl
    · rw [harmed]
      exact hahead.mono (deadlines_subset hsub)
    · rw [hstack]
      exact .inr ⟨_, _, mem_cons_self⟩

lemma Core.hookDelModule [DecidableEq M] {prompt} (h : Core w ps) (hc : Chains w hs)
    (mod : M) : Leads w ps prompt (hookDelModule w mod) := by
  rw [Hooks.hookDelModule, h.holds.find, bind_some]
  cases hfind : ps.find? fun x => decide (x.2.mod = mod) with
  | none => exact h.leads (hc.removeHooks mod)
  | some x =>
    have hx : (x.1, x.2) ∈ ps := mem_of_find?_eq_some hfind
    exact h.leads_complete hc hx _ _

lemma Core.suspend (h : Core w ps) (hc : Chains w hs) {type b token client done deadline hook}
    (hin : (b, hook) ∈ hs type) :
    Leads w ps (0 < deadline ∧ ∀ t, w.armed = some t → t ≤ deadline)
      (suspend w type b token client done deadline) := by
  rw [Hooks.suspend, (hc.holds type).get hin, bind_some]
  split_ifs with hmax
  · exact h.leads_give hc _
  obtain ⟨hp, hhp⟩ : ∃ hp : HookPending M C K,
      { token, type, mod := hook.mod, client, deadline, done } = hp := ⟨_, rfl⟩
  have hclient : hp.client = client := by rw [← hhp]
  have hdeadline : hp.deadline = deadline := by rw [← hhp]
  rw [hhp]
  obtain ⟨w1, hw1⟩ : ∃ w1 : World M F C K, { w with
        holds := w.holds.push hp
        pendingNum := w.pendingNum + 1
        book := .opened w.holds.next client :: w.book } = w1 := ⟨_, rfl⟩
  have hcore : Core w1 ((w.holds.next, hp) :: ps) := by
    rw [← hw1]
    refine ⟨h.holds.push hp, ?_, not_le.mp hmax, ?_⟩
    · rw [length_cons, ← h.num]
    · rw [clients, map_cons, hclient]
      exact h.balanced.opened client
  have hc1 : Chains w1 hs := by
    rw [← hw1]
    exact hc.congr rfl rfl rfl rfl
  rw [hw1, hcore.arm]
  refine ⟨_, hs, _, rfl, hc1.congr rfl rfl rfl rfl, hcore.congr rfl rfl rfl,
    fun ht ⟨hpos, hle⟩ => ?_⟩
  have hahead : Deadline.Ahead w1.armed (deadlines ((w.holds.next, hp) :: ps)) := by
    rw [deadlines, map_cons, hdeadline, ← hw1]
    exact ht.ahead.cons hpos hle
  exact (timed_setTimer hahead).mono (refl _) rfl rfl

lemma Core.conclude (h : Core w ps) (hc : Chains w hs) (d : Dispatch M F C K) (r : HookResult)
    (b : ℕ) (hin : d.kind.decides .pending = true → r = .pending → ∃ hook, (b, hook) ∈ hs d.type) :
    Leads w ps (r = .pending → ∀ token client done deadline,
        d.kind = .suspendable token client done deadline →
        0 < deadline ∧ ∀ t, w.armed = some t → t ≤ deadline) (conclude w d r (some b)) := by
  unfold Hooks.conclude
  cases hkind : d.kind with
  | plain | command cmd fromService connected => exact h.leads_give hc _
  | suspendable token client done deadline =>
    dsimp only
    split_ifs with hr
    · obtain ⟨hook, hin⟩ := hin (by rw [hkind]; rfl) hr
      obtain ⟨w', hs', qs, heq, hc', hcore, htimed⟩ := h.suspend hc hin
      refine ⟨w', hs', qs, heq, hc', hcore, fun ht hprompt => htimed ht ?_⟩
      exact hprompt hr token client done deadline rfl
    · exact h.leads_give hc _

lemma Core.answer [DecidableEq M] [DecidableEq F] [DecidableEq C] (h : Core w ps)
    (hc : Chains w hs) {r} (hposs : Possible w (.answer r)) (hreg : Registered w (.answer r)) :
    Leads w ps (Prompt w (.answer r)) (step w (.answer r)) := by
  rw [step]
  cases hstack : w.stack with
  | nil =>
    rw [Possible, hstack] at hposs
    cases hposs
  | cons f stack =>
    cases f with
    | completion k after =>
      rw [Possible, hstack] at hposs
      cases hposs
    | hook d b =>
      dsimp only
      rcases hc.answered hstack r with ⟨-, hgo⟩ | ⟨hdec, w', hs', heq, hc', ha, x, hx, rfl, hin⟩
      · exact h.leads hgo
      rw [heq]
      have hhook : d.kind.decides .pending = true → r = .pending →
          ∃ hook, (x.1, hook) ∈ hs' d.type := by
        rintro hsusp rfl
        refine ⟨x.2, hin fun hdepth => ?_⟩
        refine hreg hdepth d x.1 (by rw [hstack]; rfl) hsusp x.2 ?_
        exact (hc.holds d.type).get hx
      obtain ⟨w'', hs'', qs, heq', hc'', hcore, htimed⟩ := (h.apart ha).conclude hc'
        { d with answers := r :: d.answers } r x.1 hhook
      refine ⟨w'', hs'', qs, heq', hc'', hcore, fun ht hprompt => ?_⟩
      refine htimed (ht.mono (refl _) ha.armed ha.stack) ?_
      rintro rfl token client done deadline hkind
      rw [ha.armed]
      exact hprompt d x.1 token client done deadline (by rw [hstack]; rfl) hkind

lemma Core.completed [DecidableEq M] [DecidableEq F] [DecidableEq C] (h : Core w ps)
    (hc : Chains w hs) (hposs : Possible w .completed) : Leads w ps True (step w .completed) := by
  rw [step]
  cases hstack : w.stack with
  | nil =>
    rw [Possible, hstack] at hposs
    cases hposs
  | cons f stack =>
    cases f with
    | hook d b =>
      rw [Possible, hstack] at hposs
      cases hposs
    | completion k after =>
      have hcore : Core { w with stack } ps := h.congr rfl rfl rfl
      have hc' : Chains { w with stack } hs := by
        refine hc.congr rfl rfl ?_ rfl
        rw [hstack]
        rfl
      cases after with
      | resumed =>
        have hleads : Leads _ ps True _ := hcore.leads_give hc' (.int 1)
        obtain ⟨w', hs', qs, heq, hc'', hcore', htimed⟩ := hleads
        exact ⟨w', hs', qs, heq, hc'', hcore', fun ht _ =>
          htimed (ht.leave hstack fun _ hne => by cases hne) trivial⟩
      | unloading mod =>
        have hleads : Leads _ ps True _ := hcore.hookDelModule hc' mod
        obtain ⟨w', hs', qs, heq, hc'', hcore', htimed⟩ := hleads
        exact ⟨w', hs', qs, heq, hc'', hcore', fun ht _ =>
          htimed (ht.leave hstack fun _ hne => by cases hne) trivial⟩
      | expiring now =>
        obtain ⟨w', hs', qs, heq, hc'', hcore', htimed⟩ := hcore.hookPendingExpire hc' now
        exact ⟨w', hs', qs, heq, hc'', hcore', fun ht _ => htimed ht.ahead⟩

/-- **One event.** No record is read after it was freed, and the invariants are kept. -/
lemma Core.step [DecidableEq M] [DecidableEq F] [DecidableEq C] (h : Core w ps) (hc : Chains w hs)
    {e} (hposs : Possible w e) (hreg : Registered w e) : Leads w ps (Prompt w e) (step w e) := by
  cases e with
  | add mod type fn priority =>
    rw [Hooks.step, hookAdd]
    split_ifs
    · exact h.leads_give hc _
    · exact h.leads (hc.hookAddFull mod type fn priority none 0)
  | addCommand mod type cmd fn priority flags =>
    rw [Hooks.step, hookAddCommand]
    split_ifs
    · exact h.leads (hc.hookAddFull mod type fn priority (commandName cmd) flags)
    · exact h.leads_give hc _
  | del mod type fn =>
    rw [Hooks.step]
    cases type with
    | none => exact h.leads_give hc _
    | some t => exact h.leads (hc.deleteFirst t fun hook hkind => by simp_all)
  | delCommand mod type cmd fn =>
    rw [Hooks.step]
    unfold hookDelCommand
    cases type.filter HookType.isCommand with
    | none => exact h.leads_give hc _
    | some t => exact h.leads (hc.deleteFirst t fun hook hkind => by simp_all)
  | unload mod => exact h.hookDelModule hc mod
  | run type => exact h.leads (hc.launch type .plain)
  | runSuspendable type client done deadline =>
    rw [Hooks.step, hookRunSuspendable]
    split_ifs
    · exact h.leads_give hc _
    obtain ⟨token, htoken⟩ := h.tokenNew
    rw [htoken]
    have hc' : Chains { w with lastToken := token } hs := hc.congr rfl rfl rfl rfl
    obtain ⟨w', hs', heq, hc'', ha⟩ :=
      hc'.launch type (.suspendable token client done deadline)
    exact h.leads ⟨w', hs', heq, hc'', ⟨ha.holds, ha.pendingNum, ha.book, ha.armed, ha.stack⟩⟩
  | runCommand type cmd fromService connected =>
    have htype : type.isCommand = true := hposs
    rw [Hooks.step, hookRunCommand, if_neg (by simp [htype])]
    split_ifs
    · exact h.leads_give hc _
    have hc' : Chains { w with commandDepth := w.commandDepth + 1 } hs :=
      hc.congr rfl rfl rfl rfl
    obtain ⟨w', hs', heq, hc'', ha⟩ := hc'.launch type (.command cmd fromService connected)
    exact h.leads ⟨w', hs', heq, hc'', ⟨ha.holds, ha.pendingNum, ha.book, ha.armed, ha.stack⟩⟩
  | answer r => exact h.answer hc hposs hreg
  | completed => exact h.completed hc hposs
  | resume token result reason =>
    rw [Hooks.step, hookResume, hookPendingFind, h.holds.find]
    cases hfind : ps.find? fun x => decide (x.2.token = token) with
    | none => exact h.leads_give hc _
    | some x =>
      have hx : (x.1, x.2) ∈ ps := mem_of_find?_eq_some hfind
      exact h.leads_complete hc hx _ _
  | clientExit client =>
    obtain ⟨w', qs, heq, hcore, hsub, hhooks, hdepth, hfin, harmed, hstack⟩ := h.cancel client
    have hruns : runs w'.stack = runs w.stack := by rw [hstack]
    exact ⟨w', hs, qs, heq, hc.congr hhooks hdepth hruns hfin, hcore,
      fun ht _ => ht.mono hsub harmed (by rw [hstack])⟩
  | fire =>
    have hcore : Core { w with armed := none } ps := h.congr rfl rfl rfl
    have hc' : Chains { w with armed := none } hs := hc.congr rfl rfl rfl rfl
    obtain ⟨w', hs', qs, heq, hc'', hcore', htimed⟩ := hcore.hookPendingExpire hc' w.now
    exact ⟨w', hs', qs, heq, hc'', hcore', fun ht _ => htimed ht.ahead.off⟩
  | tick now =>
    exact ⟨_, hs, ps, rfl, hc.congr rfl rfl rfl rfl, h.congr rfl rfl rfl,
      fun ht _ => ht.mono (refl _) rfl rfl⟩

/-! ### Whole runs -/

/-- **Hooks run in order and holds end once**, as long as no hook holds an operation after it was
removed from the only chain that is being run. Nothing is read or freed after it was freed. Every
run has called live hooks by priority, each once, and none after a decision; when it is over, each
call has been answered, and without a decision it left out none that was there all the time. Every
hold is on the list, or was completed once, or its client exited. -/
theorem hooks_run_in_order [DecidableEq M] [DecidableEq F] [DecidableEq C] (now : ℤ)
    (es : List (Event M F C K))
    (hes : Permitted step (fun w e => Possible w e ∧ Registered w e)
      (World.init now : World M F C K) es) :
    ∃ w, ∃ hs : HookType → List (ℕ × Hook M F), ∃ ps,
      run step (World.init now : World M F C K) es = some w ∧
      (∀ t, (w.hooks t).chain.Holds (hs t)) ∧ w.holds.Holds ps ∧ w.pendingNum = ps.length ∧
      (∀ d h, .hook d h ∈ w.stack →
        Orderly d ∧ ∀ r ∈ d.answers, d.kind.decides r = false) ∧
      (∀ d ∈ w.finished,
        Orderly d ∧ d.calls.length = d.answers.length ∧ Complete d (hs d.type)) ∧
      ∀ a client, .opened a client ∈ w.book →
        ((a, client) ∈ clients ps ∧ settlements w.book a = 0 ∧ drops w.book a = 0) ∨
          ((a, client) ∉ clients ps ∧ settlements w.book a = 1 ∧ drops w.book a = 0) ∨
          ((a, client) ∉ clients ps ∧ settlements w.book a = 0 ∧
            ∃ c, client = some c ∧ .dropped a c ∈ w.book) := by
  obtain ⟨w, hrun, hs, ps, hc, hcore⟩ := run_safe (fun w => ∃ hs ps, Chains w hs ∧ Core w ps)
    (fun w e ⟨hs, ps, hc, h⟩ hall => by
      obtain ⟨w', hs', qs, heq, hc', hcore, -⟩ := h.step hc hall.1 hall.2
      exact ⟨w', heq, hs', qs, hc', hcore⟩) ⟨_, [], Chains.init now, Core.init now⟩ hes
  refine ⟨w, hs, ps, hrun, hc.holds, hcore.holds, hcore.num, fun d h hin => ?_, fun d hd => ?_,
    fun a client hopen => ?_⟩
  · have hr : (d, h) ∈ runs w.stack := mem_filterMap.mpr ⟨_, hin, rfl⟩
    exact ⟨(hc.standing _ hr).orderly (hc.holds d.type).nodup (hc.sorted d.type),
      (hc.standing _ hr).running.undecided⟩
  · have hover := hc.ended d hd
    exact ⟨hover.toOrderly, hover.length, hover.complete⟩
  rcases hcore.balanced.cases hopen with hheld | hset | ⟨hin, hset, c, hdrop, hclient⟩
  · exact .inl hheld
  · exact .inr (.inl hset)
  · exact .inr (.inr ⟨hin, hset, c, hclient, hdrop⟩)

/-- Two modules hook the registration of clients; the first has no opinion, the second holds the
operation and removes its hook before it answers. -/
def holdThenAnswer : List (Event ℕ ℕ ℕ ℕ) :=
  [.add 1 (some .clientPreRegister) 10 100, .add 2 (some .clientPreRegister) 20 50,
    .runSuspendable .clientPreRegister (some 7) 0 30, .answer .cont, .answer .pending,
    .del 1 (some .clientPreRegister) 10, .resume 1 .allow none, .completed]

lemma permitted_holdThenAnswer : Permitted step (fun w e => Possible w e ∧ Registered w e)
      (init 0 : World ℕ ℕ ℕ ℕ) holdThenAnswer := by
  refine .cons ⟨trivial, trivial⟩ rfl (.cons ⟨trivial, trivial⟩ rfl (.cons ⟨trivial, trivial⟩ rfl
    (.cons ⟨rfl, trivial⟩ rfl (.cons ⟨rfl, ?_⟩ rfl (.cons ⟨trivial, trivial⟩ rfl
      (.cons ⟨trivial, trivial⟩ rfl (.cons ⟨rfl, trivial⟩ rfl trivial)))))))
  rintro - d h hhead - hook hget
  cases hhead
  cases hget
  rfl

theorem hooks_run_in_order_holdThenAnswer :
    Permitted step (fun w e => Possible w e ∧ Registered w e)
        (World.init 0 : World ℕ ℕ ℕ ℕ) holdThenAnswer ∧
      ∃ w, ∃ hs : HookType → List (ℕ × Hook ℕ ℕ), ∃ ps,
        run step (World.init 0 : World ℕ ℕ ℕ ℕ) holdThenAnswer = some w ∧
        (∀ t, (w.hooks t).chain.Holds (hs t)) ∧ w.holds.Holds ps ∧ w.pendingNum = ps.length := by
  obtain ⟨w, hs, ps, hrun, hhooks, hholds, hnum, -⟩ :=
    hooks_run_in_order 0 holdThenAnswer permitted_holdThenAnswer
  exact ⟨permitted_holdThenAnswer, w, hs, ps, hrun, hhooks, hholds, hnum⟩

/-- A hook removes itself while it runs and holds the operation all the same: when the run has
reaped the chain, it reads the hook that it has freed. -/
theorem held_hook_released :
    (run step (World.init 0 : World ℕ ℕ ℕ ℕ)
        [.add 1 (some .clientPreRegister) 10 100,
          .runSuspendable .clientPreRegister (some 7) 0 30,
          .del 1 (some .clientPreRegister) 10]).isSome = true ∧
      (run step (World.init 0 : World ℕ ℕ ℕ ℕ)
        [.add 1 (some .clientPreRegister) 10 100,
          .runSuspendable .clientPreRegister (some 7) 0 30,
          .del 1 (some .clientPreRegister) 10, .answer .pending]).isNone = true := by
  decide +kernel

end Ircu.Hooks
