import Ircu.Hooks.Basic

/-!
Runs of a chain of hooks, while hooks are registered and removed.

* `Reached`, `Standing`: how far a run has come in the chain as it is now.
* `Chains`: the invariant of all chains; `Chains.arrive`, `Chains.answered`, `Chains.launch`
  say that runs keep it.
* `Orderly`, `Complete`: what is known of a run: the hooks that it called were live, they were
  called in the order of their priorities, each once, and none after a decision; without a
  decision none was left out.
-/

namespace Ircu.Hooks

open Roster List Option Function Hook List.Sublist

variable {M F C K : Type} {w w' : World M F C K} {d : Dispatch M F C K}
  {hs hs' : HookType → List (ℕ × Hook M F)} {xs ys pre post : List (ℕ × Hook M F)}
  {x : ℕ × Hook M F} {n n' h : ℕ}

/-! ### How far a run has come -/

def place (x : ℕ × Hook M F) : ℕ × ℤ := (x.1, x.2.priority)

def Sorted (xs : List (ℕ × Hook M F)) : Prop :=
  xs.Pairwise fun x y => x.2.priority ≤ y.2.priority

/-- A run that has come past the hooks `pre`: it called some of them in their order, and all of
them that it wants and that were there when it began. -/
structure Reached (d : Dispatch M F C K) (pre : List (ℕ × Hook M F)) : Prop where
  calls : (d.calls.reverse.map place).Sublist (pre.map place)
  all : ∀ y ∈ pre, d.kind.wants y.2 = true → y.1 < d.start → y.1 ∈ addrs d.calls

structure Running (d : Dispatch M F C K) : Prop where
  wanted : ∀ x ∈ d.calls, d.kind.wants x.2 = true
  undecided : ∀ r ∈ d.answers, d.kind.decides r = false
  length : d.calls.length = d.answers.length + 1

/-- A run stands on the hook at the address `h`. -/
structure Standing (d : Dispatch M F C K) (h : ℕ) (xs : List (ℕ × Hook M F)) (n : ℕ) : Prop where
  running : Running d
  start : d.start ≤ n
  reached : ∃ pre x post, xs = pre ++ x :: post ∧ x.1 = h ∧ Reached d (pre ++ [x])

/-- **What is known of a run.** -/
structure Orderly (d : Dispatch M F C K) : Prop where
  live : ∀ x ∈ d.calls, x.2.dead = false
  once : (addrs d.calls).Nodup
  ordered : d.calls.Pairwise fun x y => y.2.priority ≤ x.2.priority
  stops : ∀ r ∈ d.answers.tail, d.kind.decides r = false

/-- No hook that is still there, and was there when the run began, was left out by a run that
came to the end of the chain. -/
def Complete (d : Dispatch M F C K) (xs : List (ℕ × Hook M F)) : Prop :=
  (∀ r ∈ d.answers, d.kind.decides r = false) →
    ∀ y ∈ xs, d.kind.wants y.2 = true → y.1 < d.start → y.1 ∈ addrs d.calls

structure Over (d : Dispatch M F C K) (xs : List (ℕ × Hook M F)) (n : ℕ) : Prop
    extends Orderly d where
  length : d.calls.length = d.answers.length
  start : d.start ≤ n
  complete : Complete d xs

lemma live_of_wants {kind : Kind C K} {hook : Hook M F} (h : kind.wants hook = true) :
    hook.dead = false := by
  simpa using (Bool.and_eq_true_iff.mp h).1

lemma Reached.orderly (hd : Reached d pre) (hnodup : (addrs pre).Nodup) (hsorted : Sorted pre)
    (hwanted : ∀ x ∈ d.calls, d.kind.wants x.2 = true)
    (hstops : ∀ r ∈ d.answers.tail, d.kind.decides r = false) : Orderly d := by
  refine ⟨fun x hx => live_of_wants (hwanted x hx), ?_, ?_, hstops⟩
  · have hsub : (addrs d.calls.reverse).Sublist (addrs pre) := by
      have := hd.calls.map Prod.fst
      rwa [List.map_map, List.map_map] at this
    have hrev := hnodup.sublist hsub
    rw [addrs, map_reverse] at hrev
    exact nodup_reverse.mp hrev
  · have hpre : (pre.map place).Pairwise fun p q => p.2 ≤ q.2 := pairwise_map.mpr hsorted
    have hcalls := pairwise_map.mp (hpre.sublist hd.calls)
    exact pairwise_reverse.mp hcalls

lemma Standing.orderly (hd : Standing d h xs n) (hnodup : (addrs xs).Nodup) (hsorted : Sorted xs) :
    Orderly d := by
  obtain ⟨pre, x, post, rfl, -, hreached⟩ := hd.reached
  have hsplit : pre ++ x :: post = (pre ++ [x]) ++ post := by simp
  rw [hsplit, addrs_append, nodup_append] at hnodup
  rw [hsplit] at hsorted
  exact hreached.orderly hnodup.1 (pairwise_append.mp hsorted).1 hd.running.wanted
    fun r hr => hd.running.undecided r (mem_of_mem_tail hr)

/-! ### Chains that change -/

/-- Of the hooks before, nothing comes back: what is there under an old address was there, and is
wanted no more than it was. -/
def Fades (xs : List (ℕ × Hook M F)) (n : ℕ) (ys : List (ℕ × Hook M F)) : Prop :=
  ∀ y ∈ ys, y.1 < n → ∃ x ∈ xs, x.1 = y.1 ∧
    ∀ {C K : Type} (kind : Kind C K), kind.wants y.2 = true → kind.wants x.2 = true

lemma Fades.of_subset (hsub : ys ⊆ xs) : Fades xs n ys :=
  fun y hy _ => ⟨y, hsub hy, rfl, fun _ hw => hw⟩

lemma Complete.fades (hd : Complete d xs) (hstart : d.start ≤ n) (hf : Fades xs n ys) :
    Complete d ys := by
  intro hall y hy hwants hlt
  obtain ⟨x, hx, heq, hw⟩ := hf y hy (hlt.trans_le hstart)
  rw [← heq] at hlt ⊢
  exact hd hall x hx (hw d.kind hwants) hlt

variable (k : ℕ × Hook M F → Bool)

lemma place_amended : (amended k kill xs).map place = xs.map place := by
  rw [amended, List.map_map]
  refine List.map_congr_left fun x _ => ?_
  rw [comp_apply]
  split_ifs <;> rfl

lemma Reached.amended (hd : Reached d pre) (k) : Reached d (amended k kill pre) := by
  refine ⟨?_, fun y hy hwants hlt => ?_⟩
  · rw [place_amended]
    exact hd.calls
  obtain ⟨x, hx, rfl⟩ := mem_map.mp hy
  split_ifs at hwants hlt ⊢ with hk
  · cases hwants
  · exact hd.all x hx hwants hlt

lemma Fades.amended : Fades xs n (amended k kill xs) := by
  intro y hy _
  obtain ⟨x, hx, rfl⟩ := mem_map.mp hy
  refine ⟨x, hx, ?_, fun kind hwants => ?_⟩
  · split_ifs <;> rfl
  split_ifs at hwants with hk
  · cases hwants
  · exact hwants

lemma Standing.amended (hd : Standing d h xs n) (k) : Standing d h (amended k kill xs) n := by
  obtain ⟨pre, x, post, rfl, rfl, hreached⟩ := hd.reached
  have hnew := hreached.amended k
  rw [Roster.amended, map_append, map_cons] at hnew
  refine ⟨hd.running, hd.start, _, _, Roster.amended k kill post, ?_, ?_, hnew⟩
  · rw [Roster.amended, map_append]
    rfl
  · split_ifs <;> rfl

lemma Reached.insert (hd : Reached d (xs ++ ys)) (hx : d.start ≤ x.1) :
    Reached d (xs ++ x :: ys) := by
  refine ⟨hd.calls.trans ?_, fun y hy hwants hlt => ?_⟩
  · exact ((refl xs).append (sublist_cons_self x ys)).map place
  rw [mem_append, mem_cons] at hy
  rcases hy with hy | rfl | hy
  · exact hd.all y (mem_append_left _ hy) hwants hlt
  · omega
  · exact hd.all y (mem_append_right _ hy) hwants hlt

lemma Fades.insert (hx : n ≤ x.1) : Fades (xs ++ ys) n (xs ++ x :: ys) := by
  intro y hy hlt
  rw [mem_append, mem_cons] at hy
  rcases hy with hy | rfl | hy
  · exact ⟨y, mem_append_left _ hy, rfl, fun _ hw => hw⟩
  · omega
  · exact ⟨y, mem_append_right _ hy, rfl, fun _ hw => hw⟩

lemma Standing.insert (hd : Standing d h (xs ++ ys) n) (hx : n ≤ x.1) (hn : n ≤ n') :
    Standing d h (xs ++ x :: ys) n' := by
  have hstart : d.start ≤ x.1 := hd.start.trans hx
  obtain ⟨pre, z, post, hsplit, rfl, hreached⟩ := hd.reached
  refine ⟨hd.running, hd.start.trans hn, ?_⟩
  rcases append_eq_append_iff.mp hsplit with ⟨mid, rfl, hys⟩ | ⟨mid, rfl, hpost⟩
  · -- the new hook is before the one that the run stands on
    refine ⟨xs ++ x :: mid, z, post, ?_, rfl, ?_⟩
    · rw [hys]
      simp
    · have hmore : Reached d (xs ++ x :: (mid ++ [z])) :=
        Reached.insert (by simpa using hreached) hstart
      simpa using hmore
  cases mid with
  | nil =>
    refine ⟨pre ++ [x], z, post, ?_, rfl, ?_⟩
    · rw [nil_append] at hpost
      rw [← hpost]
      simp
    · have hmore : Reached d (pre ++ x :: [z]) := hreached.insert hstart
      simpa using hmore
  | cons z' mid =>
    obtain ⟨rfl, rfl⟩ := hpost
    exact ⟨pre, z, mid ++ x :: ys, by simp, rfl, hreached⟩

/-- What may happen to a chain; while a chain is being run, the runs stay where they are. -/
structure Change (quiet : Prop) (n : ℕ) (xs : List (ℕ × Hook M F)) (c : HookChain M F)
    (ys : List (ℕ × Hook M F)) : Prop where
  holds : c.chain.Holds ys
  sorted : Sorted ys
  count : c.count = (ys.countP fun x => !x.2.dead : ℕ)
  next : n ≤ c.chain.next
  fades : Fades xs n ys
  standing : quiet ∨ ∀ {C K : Type} (d : Dispatch M F C K) (h : ℕ),
    Standing d h xs n → Standing d h ys c.chain.next

/-! ### The invariant -/

def Frame.run? : Frame M F C K → Option (Dispatch M F C K × ℕ)
  | .hook d h => some (d, h)
  | .completion _ _ => none

variable (stack : List (Frame M F C K))

def runs : List (Dispatch M F C K × ℕ) :=
  stack.filterMap Frame.run?

@[simp] lemma runs_hook : runs (.hook d h :: stack) = (d, h) :: runs stack := rfl

/-- **The invariant of the chains.** -/
structure Chains (w : World M F C K) (hs : HookType → List (ℕ × Hook M F)) : Prop where
  holds : ∀ t, (w.hooks t).chain.Holds (hs t)
  sorted : ∀ t, Sorted (hs t)
  count : ∀ t, (w.hooks t).count = ((hs t).countP fun x => !x.2.dead : ℕ)
  depth : w.depth = (runs w.stack).length
  standing : ∀ r ∈ runs w.stack,
    Standing r.1 r.2 (hs r.1.type) (w.hooks r.1.type).chain.next
  ended : ∀ d ∈ w.finished, Over d (hs d.type) (w.hooks d.type).chain.next

lemma Chains.init (now : ℤ) : Chains (World.init now : World M F C K) fun _ => [] where
  holds _ := holds_empty
  sorted _ := List.Pairwise.nil
  count _ := rfl
  depth := rfl
  standing _ hr := absurd hr not_mem_nil
  ended _ hd := absurd hd not_mem_nil

lemma Chains.congr (hc : Chains w hs) (hhooks : w'.hooks = w.hooks) (hdepth : w'.depth = w.depth)
    (hruns : runs w'.stack = runs w.stack) (hfin : w'.finished = w.finished) : Chains w' hs := by
  refine ⟨?_, hc.sorted, ?_, ?_, ?_, ?_⟩
  · rw [hhooks]
    exact hc.holds
  · rw [hhooks]
    exact hc.count
  · rw [hdepth, hruns]
    exact hc.depth
  · rw [hruns, hhooks]
    exact hc.standing
  · rw [hfin, hhooks]
    exact hc.ended

lemma Chains.unchanged (hc : Chains w hs) (quiet) (t : HookType) :
    Change quiet (w.hooks t).chain.next (hs t) (w.hooks t) (hs t) :=
  ⟨hc.holds t, hc.sorted t, hc.count t, le_rfl, .of_subset (List.Subset.refl _),
    .inr fun _ _ hd => hd⟩

lemma Chains.change (hc : Chains w hs)
    (hall : ∀ t, Change (w.depth = 0) (w.hooks t).chain.next (hs t) (w'.hooks t) (hs' t))
    (hdepth : w'.depth = w.depth) (hstack : w'.stack = w.stack)
    (hfin : w'.finished = w.finished) : Chains w' hs' := by
  refine ⟨fun t => (hall t).holds, fun t => (hall t).sorted, fun t => (hall t).count, ?_, ?_, ?_⟩
  · rw [hdepth, hstack]
    exact hc.depth
  · rw [hstack]
    intro r hr
    rcases (hall r.1.type).standing with hquiet | hstanding
    · rw [hc.depth, length_eq_zero_iff] at hquiet
      rw [hquiet] at hr
      cases hr
    · exact hstanding r.1 r.2 (hc.standing r hr)
  · rw [hfin]
    intro d hd
    have hover := hc.ended d hd
    exact ⟨hover.toOrderly, hover.length, hover.start.trans (hall d.type).next,
      hover.complete.fades hover.start (hall d.type).fades⟩

lemma Chains.setChain (hc : Chains w hs) {t c}
    (hchange : Change (w.depth = 0) (w.hooks t).chain.next (hs t) c ys)
    (hhooks : w'.hooks = Function.update w.hooks t c) (hdepth : w'.depth = w.depth)
    (hstack : w'.stack = w.stack) (hfin : w'.finished = w.finished) :
    Chains w' (Function.update hs t ys) := by
  refine hc.change (fun t' => ?_) hdepth hstack hfin
  rw [hhooks]
  by_cases ht : t' = t
  · subst ht
    rw [update_self, update_self]
    exact hchange
  · rw [update_of_ne ht, update_of_ne ht]
    exact hc.unchanged _ t'

/-! ### Registering and removing hooks -/

def completions : List (Frame M F C K) :=
  stack.filter fun f => !f.isHook

structure Apart (w w' : World M F C K) : Prop where
  holds : w'.holds = w.holds
  pendingNum : w'.pendingNum = w.pendingNum
  book : w'.book = w.book
  armed : w'.armed = w.armed
  stack : completions w'.stack = completions w.stack

lemma Apart.refl (w : World M F C K) : Apart w w := ⟨rfl, rfl, rfl, rfl, rfl⟩

lemma Apart.trans {w''} (h : Apart w w') (h' : Apart w' w'') : Apart w w'' :=
  ⟨h'.holds.trans h.holds, h'.pendingNum.trans h.pendingNum, h'.book.trans h.book,
    h'.armed.trans h.armed, h'.stack.trans h.stack⟩

lemma Sorted.insert (hs : Sorted xs) (x) :
    Sorted (inserted (fun h => decide (x.2.priority < h.priority)) x xs) := by
  induction xs with
  | nil => exact pairwise_singleton _ _
  | cons y xs ih =>
    obtain ⟨hy, hxs⟩ := pairwise_cons.mp hs
    by_cases hlt : x.2.priority < y.2.priority
    · have heq : inserted (fun h => decide (x.2.priority < h.priority)) x (y :: xs) =
          x :: y :: xs := by
        simp [inserted, hlt]
      rw [heq]
      refine pairwise_cons.mpr ⟨fun z hz => ?_, hs⟩
      rcases mem_cons.mp hz with rfl | hz
      · exact hlt.le
      · exact hlt.le.trans (hy z hz)
    have heq : inserted (fun h => decide (x.2.priority < h.priority)) x (y :: xs) =
        y :: inserted (fun h => decide (x.2.priority < h.priority)) x xs := by
      simp [inserted, hlt]
    rw [heq]
    refine pairwise_cons.mpr ⟨fun z hz => ?_, ih hxs⟩
    have hz' : z = x ∨ z ∈ xs := by
      rw [inserted, mem_append, mem_cons] at hz
      rcases hz with hz | rfl | hz
      · exact .inr ((takeWhile_sublist _).subset hz)
      · exact .inl rfl
      · exact .inr ((dropWhile_sublist _).subset hz)
    rcases hz' with rfl | hz
    · exact not_lt.mp hlt
    · exact hy z hz

lemma Chains.hookAddFull (hc : Chains w hs) (mod : M) (type : Option HookType) (fn : F)
    (priority : ℤ) (cmd : Option (List UInt8)) (flags : ℕ) :
    ∃ w' hs', hookAddFull w mod type fn priority cmd flags = some w' ∧ Chains w' hs' ∧
      Apart w w' := by
  unfold Hooks.hookAddFull
  cases type with
  | none => exact ⟨_, hs, rfl, hc.congr rfl rfl rfl rfl, ⟨rfl, rfl, rfl, rfl, rfl⟩⟩
  | some t =>
    obtain ⟨hook, hhook⟩ : ∃ hook : Hook M F,
        { mod, fn, priority, dead := false, cmd, flags } = hook := ⟨_, rfl⟩
    have hprio : hook.priority = priority := by rw [← hhook]
    have hlive : hook.dead = false := by rw [← hhook]
    dsimp only
    rw [hhook]
    obtain ⟨chain, heq, hholds, hnext⟩ :=
      (hc.holds t).insert (fun h => decide (priority < h.priority)) hook
    rw [heq]
    refine ⟨_, _, rfl, hc.setChain ⟨hholds, ?_, ?_, ?_, ?_, .inr fun d h hd => ?_⟩ rfl rfl rfl
      rfl, ⟨rfl, rfl, rfl, rfl, rfl⟩⟩
    · have hsorted := (hc.sorted t).insert ((w.hooks t).chain.heap.next, hook)
      rwa [hprio] at hsorted
    · have hcount := hc.count t
      have hsplit := takeWhile_append_dropWhile (l := hs t)
        (p := fun y => !decide (priority < y.2.priority))
      rw [hcount, inserted, countP_append, countP_cons_of_pos (by simp [hlive])]
      conv_lhs => rw [← hsplit, countP_append]
      push_cast
      omega
    · change (w.hooks t).chain.heap.next ≤ chain.heap.next
      omega
    · have hsplit := takeWhile_append_dropWhile (l := hs t)
        (p := fun y => !decide (priority < y.2.priority))
      conv => arg 1; rw [← hsplit]
      exact Fades.insert le_rfl
    · have hsplit := takeWhile_append_dropWhile (l := hs t)
        (p := fun y => !decide (priority < y.2.priority))
      rw [← hsplit] at hd
      refine Standing.insert hd le_rfl ?_
      change (w.hooks t).chain.heap.next ≤ chain.heap.next
      omega

lemma live_amended (xs) : (amended k kill xs).countP (fun x => !x.2.dead) +
      xs.countP (fun x => k x && !x.2.dead) = xs.countP fun x => !x.2.dead := by
  induction xs with
  | nil => rfl
  | cons x xs ih =>
    have hcons : amended k kill (x :: xs) =
        (if k x then (x.1, x.2.kill) else x) :: amended k kill xs := rfl
    rw [hcons, countP_cons, countP_cons]
    cases hk : k x <;> cases hdead : x.2.dead <;> simp [hdead, kill] <;> omega

lemma live_filter (xs : List (ℕ × Hook M F)) :
    (xs.filter fun x => !k x).countP (fun x => !x.2.dead) +
      xs.countP (fun x => k x && !x.2.dead) = xs.countP fun x => !x.2.dead := by
  induction xs with
  | nil => rfl
  | cons x xs ih =>
    rw [filter_cons, countP_cons]
    cases hk : k x <;> cases hdead : x.2.dead <;> simp [hdead] <;> omega

lemma Chains.killed (hc : Chains w hs) (t : HookType) (k)
    {c} (hholds : c.chain.Holds (amended k kill (hs t))) (hcount : c.count =
      (w.hooks t).count - ((hs t).countP fun x => k x && !x.2.dead : ℕ))
    (hnext : c.chain.next = (w.hooks t).chain.next) :
    Change (w.depth = 0) (w.hooks t).chain.next (hs t) c (amended k kill (hs t)) := by
  refine ⟨hholds, ?_, ?_, hnext.ge, .amended k, .inr fun d h hd => ?_⟩
  · have hpairs : ((hs t).map place).Pairwise fun p q => p.2 ≤ q.2 :=
      pairwise_map.mpr (hc.sorted t)
    rw [← place_amended k] at hpairs
    have hsorted := pairwise_map.mp hpairs
    exact hsorted
  · have hlive := live_amended k (hs t)
    rw [hcount, hc.count t]
    omega
  · rw [hnext]
    exact hd.amended k

lemma Chains.freed (hc : Chains w hs) (t : HookType) (k : ℕ × Hook M F → Bool)
    (hquiet : w.depth = 0) {c} (hholds : c.chain.Holds ((hs t).filter fun x => !k x))
    (hcount : c.count = (w.hooks t).count - ((hs t).countP fun x => k x && !x.2.dead : ℕ))
    (hnext : c.chain.next = (w.hooks t).chain.next) :
    Change (w.depth = 0) (w.hooks t).chain.next (hs t) c ((hs t).filter fun x => !k x) := by
  refine ⟨hholds, (hc.sorted t).sublist filter_sublist, ?_, hnext.ge,
    .of_subset filter_sublist.subset, .inl hquiet⟩
  have hlive := live_filter k (hs t)
  rw [hcount, hc.count t]
  omega

lemma countP_addr (hnodup : (addrs xs).Nodup) (hx : x ∈ xs) {p : ℕ × Hook M F → Bool}
    (hp : p x = true) : (xs.countP fun y => decide (y.1 = x.1) && p y) = 1 := by
  obtain ⟨as, bs, rfl⟩ := append_of_mem hx
  rw [addrs_append, addrs_cons, nodup_middle, nodup_cons, mem_append, not_or] at hnodup
  have hzero : ∀ l : List (ℕ × Hook M F), x.1 ∉ addrs l →
      (l.countP fun y => decide (y.1 = x.1) && p y) = 0 := by
    intro l hl
    refine countP_eq_zero.mpr fun y hy => ?_
    have hne : y.1 ≠ x.1 := fun heq => hl (heq ▸ mem_addrs_of_mem hy)
    simp [hne]
  rw [countP_append, countP_cons_of_pos (by simp [hp]), hzero as hnodup.1.1, hzero bs hnodup.1.2]

lemma Chains.deleteFirst (hc : Chains w hs) (t : HookType) {kind}
    (hkind : ∀ hook, kind hook = true → hook.dead = false) :
    ∃ w' hs', deleteFirst w t kind = some w' ∧ Chains w' hs' ∧ Apart w w' := by
  have hsame : Apart w (w.give (.int 0)) := ⟨rfl, rfl, rfl, rfl, rfl⟩
  rw [Hooks.deleteFirst]
  split_ifs with hdepth
  · rw [(hc.holds t).find, bind_some]
    cases hfind : (hs t).find? fun x => kind x.2 with
    | none => exact ⟨_, hs, rfl, hc.congr rfl rfl rfl rfl, hsame⟩
    | some x =>
      have hx := mem_of_find?_eq_some hfind
      have hlive := hkind x.2 (by simpa using List.find?_some hfind)
      obtain ⟨chain, heq, hholds, -, hnext, -⟩ :=
        (hc.holds t).revise (mem_addrs_of_mem hx) kill
      rw [map_some]
      dsimp only
      rw [heq]
      refine ⟨_, _, rfl, hc.setChain (hc.killed t _ hholds ?_ ?_) rfl rfl rfl rfl,
        ⟨rfl, rfl, rfl, rfl, rfl⟩⟩
      swap
      · exact hnext
      rw [countP_addr (hc.holds t).nodup hx (by simpa using hlive)]
      rfl
  have hquiet : w.depth = 0 := not_not.mp hdepth
  cases hfind : (hs t).find? fun x => kind x.2 with
  | none =>
    rw [(hc.holds t).take_none hfind]
    exact ⟨_, hs, rfl, hc.congr rfl rfl rfl rfl, hsame⟩
  | some x =>
    have hx := mem_of_find?_eq_some hfind
    have hlive := hkind x.2 (by simpa using List.find?_some hfind)
    obtain ⟨chain, htake, hholds, hget, hnext⟩ :=
      (hc.holds t).take (k := fun _ hook => kind hook) hfind
    obtain ⟨chain', hrel, hholds', hnext'⟩ :=
      hholds.release (fun hmem => (mem_addrs_without.mp hmem).2 rfl) hget
    rw [htake, bind_some]
    dsimp only
    rw [hrel]
    have hlist : without x.1 (hs t) = (hs t).filter fun y => !decide (y.1 = x.1) :=
      filter_congr fun y _ => by simp
    rw [hlist] at hholds'
    refine ⟨_, _, rfl, hc.setChain (hc.freed t _ hquiet hholds' ?_ ?_) rfl rfl rfl rfl,
      ⟨rfl, rfl, rfl, rfl, rfl⟩⟩
    swap
    · exact hnext'.trans hnext
    rw [countP_addr (hc.holds t).nodup hx (by simpa using hlive)]
    rfl

lemma everyType_eq {α f} {g : HookType → α} (h : ∀ t, f t = some (g t)) : everyType f = some g := by
  have hsome : ∀ t, (f t).isSome := fun t => by
    rw [h t]
    rfl
  rw [everyType, dif_pos hsome]
  refine congrArg some (funext fun t => ?_)
  rw [get_of_eq_some _ (h t)]

lemma Chains.hookReap (hc : Chains w hs) (hquiet : w.depth = 0) :
    ∃ w' hs', hookReap w = some w' ∧ Chains w' hs' ∧ Apart w w' ∧
      ∀ t, ∀ x ∈ hs t, x.2.dead = false → x ∈ hs' t := by
  rw [Hooks.hookReap]
  split_ifs
  · exact ⟨w, hs, rfl, hc, .refl w, fun _ _ hx _ => hx⟩
  choose chain hprune hholds hnext using fun t => (hc.holds t).prune dead
  rw [everyType_eq hprune]
  refine ⟨_, fun t => others dead (hs t), rfl, hc.change (fun t => ?_) rfl rfl rfl,
    ⟨rfl, rfl, rfl, rfl, rfl⟩, fun t x hx hlive => ?_⟩
  · refine hc.freed t (fun x => x.2.dead) hquiet (hholds t) ?_ (hnext t)
    have hzero : ((hs t).countP fun x => x.2.dead && !x.2.dead) = 0 :=
      countP_eq_zero.mpr fun x _ => by simp
    rw [hzero]
    simp
  · exact mem_filter.mpr ⟨hx, by simp [hlive]⟩

lemma Chains.removeHooks [DecidableEq M] (hc : Chains w hs) (mod : M) :
    ∃ w' hs', removeHooks w mod = some w' ∧ Chains w' hs' ∧ Apart w w' := by
  have hcount : ∀ t, (((hs t).filter fun x => decide (x.2.mod = mod)).countP fun x => !x.2.dead) =
      (hs t).countP fun x => decide (x.2.mod = mod) && !x.2.dead := by
    intro t
    rw [countP_filter]
    exact countP_congr fun x _ => by rw [Bool.and_comm]
  rw [Hooks.removeHooks]
  by_cases hdepth : w.depth ≠ 0
  · choose chain heq hholds hnext using fun t =>
      (hc.holds t).reviseAll (fun hook => decide (hook.mod = mod)) kill
    simp only [if_pos hdepth]
    rw [everyType_eq heq]
    refine ⟨_, fun t => amended (fun x => decide (x.2.mod = mod)) kill (hs t), rfl,
      hc.change (fun t => ?_) rfl rfl rfl, ⟨rfl, rfl, rfl, rfl, rfl⟩⟩
    refine hc.killed t (fun x => decide (x.2.mod = mod)) (hholds t) ?_ (hnext t)
    dsimp only
    rw [hcount t]
  choose chain heq hholds hnext using fun t =>
    (hc.holds t).prune fun hook => decide (hook.mod = mod)
  simp only [if_neg hdepth]
  rw [everyType_eq heq]
  refine ⟨_, fun t => (hs t).filter fun x => !decide (x.2.mod = mod), rfl,
    hc.change (fun t => ?_) rfl rfl rfl, ⟨rfl, rfl, rfl, rfl, rfl⟩⟩
  refine hc.freed t (fun x => decide (x.2.mod = mod)) (not_not.mp hdepth) (hholds t) ?_ (hnext t)
  dsimp only
  rw [hcount t]

/-! ### Runs -/

/-- A run that is not over is none of the others: the depth counts it, the stack does not. -/
structure Walking (w : World M F C K) (hs : HookType → List (ℕ × Hook M F)) (n : ℕ) : Prop where
  chains : Chains { w with depth := n } hs
  depth : w.depth = n + 1

lemma Walking.finish (hw : Walking w hs n) (hd : Over d (hs d.type) (w.hooks d.type).chain.next)
    (result : HookResult) (h : Option ℕ) :
    ∃ w' hs', finish w d result h = conclude w' d result h ∧ Chains w' hs' ∧ Apart w w' ∧
      ∀ x ∈ hs d.type, (n = 0 → x.2.dead = false) → x ∈ hs' d.type := by
  have hdepth : (unwind w d).depth = n := by
    change w.depth - 1 = n
    rw [hw.depth, Nat.add_sub_cancel]
  have hc := hw.chains
  have hchains : Chains (unwind w d) hs := by
    refine ⟨hc.holds, hc.sorted, hc.count, hdepth.trans hc.depth, hc.standing, fun d' hd' => ?_⟩
    rcases mem_cons.mp hd' with rfl | hd'
    · exact hd
    · exact hc.ended d' hd'
  have hapart : Apart w (unwind w d) := ⟨rfl, rfl, rfl, rfl, rfl⟩
  rw [Hooks.finish, hdepth]
  split_ifs with hn
  · obtain ⟨w', hs', heq, hc', hapart', hin⟩ := hchains.hookReap (hdepth.trans hn)
    rw [heq]
    exact ⟨w', hs', rfl, hc', hapart.trans hapart', fun x hx hlive => hin _ x hx (hlive hn)⟩
  · exact ⟨_, hs, rfl, hchains, hapart, fun x hx _ => hx⟩

structure Ready (d : Dispatch M F C K) (pre : List (ℕ × Hook M F)) (n : ℕ) : Prop
    extends Reached d pre where
  wanted : ∀ x ∈ d.calls, d.kind.wants x.2 = true
  undecided : ∀ r ∈ d.answers, d.kind.decides r = false
  length : d.calls.length = d.answers.length
  start : d.start ≤ n

lemma Ready.call (hd : Ready d pre n) {mid}
    (hmid : ∀ y ∈ mid, d.kind.wants y.2 = false) (hx : d.kind.wants x.2 = true) :
    Standing { d with calls := x :: d.calls } x.1 (pre ++ mid ++ x :: post) n := by
  refine ⟨⟨fun y hy => ?_, hd.undecided, by simp [hd.length]⟩, hd.start, pre ++ mid, x, post, rfl,
    rfl, ?_, fun y hy hwants hlt => ?_⟩
  · rcases mem_cons.mp hy with rfl | hy
    · exact hx
    · exact hd.wanted y hy
  · rw [reverse_cons, map_append, map_append, map_append]
    exact (hd.calls.trans (sublist_append_left _ _)).append (refl _)
  rw [mem_append, mem_append, mem_singleton] at hy
  rw [addrs_cons, mem_cons]
  rcases hy with (hy | hy) | rfl
  · exact .inr (hd.all y hy hwants hlt)
  · rw [hmid y hy] at hwants
    cases hwants
  · exact .inl rfl

lemma Ready.over (hd : Ready d pre n) {mid} (hxs : xs = pre ++ mid)
    (hnodup : (addrs xs).Nodup) (hsorted : Sorted xs)
    (hmid : ∀ y ∈ mid, d.kind.wants y.2 = false) : Over d xs n := by
  subst hxs
  rw [addrs_append, nodup_append] at hnodup
  refine ⟨hd.toReached.orderly hnodup.1 (pairwise_append.mp hsorted).1 hd.wanted
    fun r hr => hd.undecided r (mem_of_mem_tail hr), hd.length, hd.start,
    fun _ y hy hw hlt => ?_⟩
  rcases mem_append.mp hy with hy | hy
  · exact hd.all y hy hw hlt
  · rw [hmid y hy] at hw
    cases hw

lemma conclude_none (w) (d : Dispatch M F C K) (r : HookResult) :
    ∃ v, conclude w d r none = some (w.give v) := by
  unfold conclude
  cases d.kind with
  | plain | suspendable token client done deadline | command cmd fromService connected =>
    exact ⟨_, rfl⟩

lemma Walking.arrive (hw : Walking w hs n) (hsplit : hs d.type = pre ++ post)
    (hd : Ready d pre (w.hooks d.type).chain.next) :
    ∃ w' hs', arrive w d ((post.find? fun x => d.kind.wants x.2).map Prod.fst) = some w' ∧
      Chains w' hs' ∧ Apart w w' := by
  have hc := hw.chains
  cases hfind : post.find? fun x => d.kind.wants x.2 with
  | none =>
    have hmid : ∀ y ∈ post, d.kind.wants y.2 = false := fun y hy => by
      simpa using List.find?_eq_none.mp hfind y hy
    have hover := hd.over hsplit (hc.holds d.type).nodup (hc.sorted d.type) hmid
    obtain ⟨w', hs', heq, hc', hapart, -⟩ := hw.finish hover .cont none
    obtain ⟨v, hv⟩ := conclude_none w' d .cont
    rw [map_none, Hooks.arrive, heq, hv]
    exact ⟨_, hs', rfl, hc'.congr rfl rfl rfl rfl, hapart.trans ⟨rfl, rfl, rfl, rfl, rfl⟩⟩
  | some x =>
    obtain ⟨hx, mid, rest, rfl, hmid⟩ := List.find?_eq_some_iff_append.mp hfind
    have hget : (w.hooks d.type).chain.get x.1 = some x.2 :=
      (hc.holds d.type).get (by rw [hsplit]; simp)
    rw [map_some, Hooks.arrive, hget]
    refine ⟨_, hs, rfl, ⟨hc.holds, hc.sorted, hc.count, ?_, fun r hr => ?_, hc.ended⟩,
      ⟨rfl, rfl, rfl, rfl, rfl⟩⟩
    · rw [runs_hook, length_cons, ← hc.depth]
      exact hw.depth
    rcases mem_cons.mp hr with rfl | hr
    · have hstanding : Standing { d with calls := x :: d.calls } x.1 (pre ++ mid ++ x :: rest)
          (w.hooks d.type).chain.next := hd.call (fun y hy => by simpa using hmid y hy) hx
      rw [append_assoc, ← hsplit] at hstanding
      exact hstanding
    · exact hc.standing r hr

lemma Chains.launch (hc : Chains w hs) (type : HookType) (kind) :
    ∃ w' hs', launch w type kind = some w' ∧ Chains w' hs' ∧ Apart w w' := by
  rw [Hooks.launch]
  obtain ⟨w1, hw1⟩ : ∃ w1 : World M F C K, { w with depth := w.depth + 1 }.setChain type
      { w.hooks type with calls := (w.hooks type).calls + 1 } = w1 := ⟨_, rfl⟩
  have hhooks : ∀ t, (w1.hooks t).chain = (w.hooks t).chain ∧
      (w1.hooks t).count = (w.hooks t).count := by
    intro t
    rw [← hw1, World.setChain]
    dsimp only
    by_cases ht : t = type
    · subst ht
      rw [update_self]
      exact ⟨rfl, rfl⟩
    · rw [update_of_ne ht]
      exact ⟨rfl, rfl⟩
  have hwalk : Walking w1 hs w.depth := by
    refine ⟨⟨fun t => ?_, hc.sorted, fun t => ?_, ?_, fun r hr => ?_, fun d hd => ?_⟩, ?_⟩
    · rw [(hhooks t).1]
      exact hc.holds t
    · rw [(hhooks t).2]
      exact hc.count t
    · rw [← hw1]
      exact hc.depth
    · rw [(hhooks r.1.type).1]
      rw [← hw1] at hr
      exact hc.standing r hr
    · rw [(hhooks d.type).1]
      rw [← hw1] at hd
      exact hc.ended d hd
    · rw [← hw1]
      rfl
  have hapart : Apart w w1 := by
    rw [← hw1]
    exact ⟨rfl, rfl, rfl, rfl, rfl⟩
  rw [hw1, (hc.holds type).find]
  obtain ⟨w', hs', heq, hc', hapart'⟩ := hwalk.arrive
    (d := { type, kind, start := (w.hooks type).chain.next, calls := [], answers := [] })
    (nil_append (hs type)).symm
    { calls := refl _
      all := fun _ hy => absurd hy not_mem_nil
      wanted := fun _ hx => absurd hx not_mem_nil
      undecided := fun _ hr => absurd hr not_mem_nil
      length := rfl
      start := by rw [(hhooks type).1] }
  exact ⟨w', hs', heq, hc', hapart.trans hapart'⟩

lemma Chains.answered {stack} (hc : Chains w hs)
    (hs₀ : w.stack = .hook d h :: stack) (result : HookResult) : (d.kind.decides result = false ∧
        ∃ w' hs', answered { w with stack } d h result = some w' ∧ Chains w' hs' ∧ Apart w w') ∨
      d.kind.decides result = true ∧ ∃ w' hs', answered { w with stack } d h result =
            conclude w' { d with answers := result :: d.answers } result (some h) ∧
          Chains w' hs' ∧ Apart w w' ∧
          ∃ x ∈ hs d.type, x.1 = h ∧ ((w.depth = 1 → x.2.dead = false) → x ∈ hs' d.type) := by
  have hruns : runs w.stack = (d, h) :: runs stack := by
    rw [hs₀]
    rfl
  have hstanding : Standing d h (hs d.type) (w.hooks d.type).chain.next :=
    hc.standing (d, h) (hruns ▸ mem_cons_self)
  have hwalk : Walking { w with stack } hs (runs stack).length := by
    refine ⟨⟨hc.holds, hc.sorted, hc.count, rfl, fun r hr => hc.standing r ?_, hc.ended⟩, ?_⟩
    · rw [hruns]
      exact mem_cons_of_mem _ hr
    · rw [hc.depth, hruns, length_cons]
  have hapart : Apart w { w with stack } := by
    refine ⟨rfl, rfl, rfl, rfl, ?_⟩
    rw [hs₀]
    rfl
  obtain ⟨pre, x, post, hsplit, hx, hreached⟩ := hstanding.reached
  have hrun := hstanding.running
  rw [Hooks.answered]
  cases hdec : d.kind.decides result with
  | false =>
    refine .inl ⟨rfl, ?_⟩
    have hholds := hc.holds d.type
    have hsplit' : hs d.type = pre ++ (h, x.2) :: post := by
      rw [hsplit, ← hx]
    rw [hsplit'] at hholds
    rw [hholds.findAfter]
    have hsplit'' : hs d.type = (pre ++ [x]) ++ post := by simpa using hsplit
    obtain ⟨w', hs', heq, hc', hapart'⟩ := hwalk.arrive
      (d := { d with answers := result :: d.answers }) hsplit''
      { calls := hreached.calls
        all := hreached.all
        wanted := hrun.wanted
        undecided := fun r hr => by
          rcases mem_cons.mp hr with rfl | hr
          · exact hdec
          · exact hrun.undecided r hr
        length := hrun.length
        start := hstanding.start }
    exact ⟨w', hs', heq, hc', hapart.trans hapart'⟩
  | true =>
    refine .inr ⟨rfl, ?_⟩
    have hnodup := (hc.holds d.type).nodup
    have hsorted := hc.sorted d.type
    have hsplit' : hs d.type = (pre ++ [x]) ++ post := by simpa using hsplit
    rw [hsplit', addrs_append, nodup_append] at hnodup
    rw [hsplit'] at hsorted
    have horderly : Orderly { d with answers := result :: d.answers } :=
      Reached.orderly ⟨hreached.calls, hreached.all⟩ hnodup.1
        (pairwise_append.mp hsorted).1 hrun.wanted hrun.undecided
    have hover : Over { d with answers := result :: d.answers } (hs d.type)
        (w.hooks d.type).chain.next := by
      refine ⟨horderly, hrun.length, hstanding.start, fun hall => ?_⟩
      have hfalse := hall result mem_cons_self
      rw [hdec] at hfalse
      cases hfalse
    obtain ⟨w', hs', heq, hc', hapart', hin⟩ := hwalk.finish hover result (some h)
    refine ⟨w', hs', heq, hc', hapart.trans hapart', x, ?_, hx, fun hlive => hin x ?_ fun hn => ?_⟩
    · rw [hsplit]
      simp
    · rw [hsplit]
      simp
    · refine hlive ?_
      rw [hc.depth, hruns, length_cons, hn]

end Ircu.Hooks
