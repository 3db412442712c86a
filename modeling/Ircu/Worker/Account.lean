import Ircu.Worker.Basic

/-!
Every task that the pool accepts comes to its end once, and nothing of a module is called after it
was cancelled, as long as the module has no task in a batch that the main thread is in the middle
of and submits nothing more.
-/

namespace Ircu.Worker

open Ledger Run List World List.Subset

variable {M : Type} {w w' : World M} {task : WorkTask M} {tasks tasks' hand : List (WorkTask M)}
  {mod : M} {owed : ℕ}

/-! ### The ledger -/

def items (tasks : List (WorkTask M)) : List (ℕ × Option M) :=
  tasks.map fun task => (task.id, task.owner)

/-- **The account of tasks**: those listed have not come to their end, and all others have, once. -/
structure Account (book : List (Posting (Option M) Unit M)) (next : ℕ)
    (tasks : List (WorkTask M)) : Prop where
  balanced : Balanced (fun owner mod => owner = some mod) book (items tasks) next
  nodup : (tasks.map WorkTask.id).Nodup

namespace Account

variable {book : List (Posting (Option M) Unit M)} {next : ℕ}

lemma perm (h : Account book next tasks) (hp : tasks.Perm tasks') : Account book next tasks' :=
  ⟨h.balanced.congr fun _ => (hp.symm.map _).mem_iff, (hp.map _).nodup_iff.mp h.nodup⟩

lemma opened (h : Account book next tasks) {owner hasDone hasFree} :
    Account (.opened next owner :: book) (next + 1) (⟨next, owner, hasDone, hasFree⟩ :: tasks) := by
  refine ⟨h.balanced.opened owner, nodup_cons.mpr ⟨fun hmem => ?_, h.nodup⟩⟩
  obtain ⟨task, htask, hid⟩ := mem_map.mp hmem
  have hopen := (h.balanced.kept task.id task.owner (mem_map_of_mem htask)).1
  have hlt := h.balanced.lt _ _ hopen
  exact absurd hid hlt.ne

lemma ended (h : Account book next (task :: tasks)) {e}
    (he : e = .settled task.id () ∨ ∃ mod, e = .dropped task.id mod ∧ task.owner = some mod) :
    Account (e :: book) next tasks := by
  obtain ⟨hout, hnodup⟩ := nodup_cons.mp h.nodup
  refine ⟨h.balanced.ended mem_cons_self (fun x => ?_) ?_, hnodup⟩
  · have hne : x ∈ items tasks → x.1 ≠ task.id := by
      rintro hx heq
      obtain ⟨y, hy, rfl⟩ := mem_map.mp hx
      exact hout (heq ▸ mem_map_of_mem hy)
    constructor
    · intro hx
      exact ⟨mem_cons_of_mem _ hx, hne hx⟩
    rintro ⟨hx, hid⟩
    rcases mem_cons.mp hx with rfl | hx
    · exact absurd rfl hid
    · exact hx
  · rcases he with rfl | ⟨mod, rfl, hmod⟩
    · exact .inl ⟨(), rfl⟩
    · exact .inr ⟨mod, rfl, hmod⟩

end Account

/-! ### What has been called -/

/-- The call is one of `wt_work` of a task. -/
def Note.isWork (id : ℕ) : Note M → Bool
  | .work id' _ => id' = id
  | _ => false

def Note.owner : Note M → Option M
  | .work _ owner | .done _ owner | .free _ owner => owner
  | .cancelled _ => none

def executions (log : List (Note M)) (id : ℕ) : ℕ := log.countP (Note.isWork id)

/-- No task was executed twice, and none of those that are pending, or not known yet, at all. -/
structure Works (log : List (Note M)) (next : ℕ) (pending : List (WorkTask M)) : Prop where
  once : ∀ id, executions log id ≤ 1
  fresh : ∀ task ∈ pending, executions log task.id = 0
  new : ∀ id, next ≤ id → executions log id = 0

namespace Works

variable {log : List (Note M)} {next next' : ℕ}

lemma mono (h : Works log next tasks) (hnext : next ≤ next') (hsub : tasks' ⊆ tasks) :
    Works log next' tasks' :=
  ⟨h.once, fun task htask => h.fresh task (hsub htask), fun id hid => h.new id (hnext.trans hid)⟩

lemma append (h : Works log next tasks) (hfresh : executions log task.id = 0) :
    Works log next (tasks ++ [task]) := by
  refine ⟨h.once, fun t ht => ?_, h.new⟩
  rcases mem_append.mp ht with ht | ht
  · exact h.fresh t ht
  · rw [mem_singleton.mp ht]
    exact hfresh

lemma other (h : Works log next tasks) {n} (hn : ∀ id, n.isWork id = false) :
    Works (n :: log) next tasks := by
  have hsame : ∀ id, executions (n :: log) id = executions log id := fun id =>
    countP_cons_of_neg (by rw [hn id]; exact Bool.false_ne_true)
  exact ⟨fun id => hsame id ▸ h.once id, fun task htask => hsame task.id ▸ h.fresh task htask,
    fun id hid => hsame id ▸ h.new id hid⟩

lemma work (h : Works log next (task :: tasks)) (hlt : task.id < next)
    (hout : task.id ∉ tasks.map WorkTask.id) :
    Works (.work task.id task.owner :: log) next tasks := by
  have hself : executions (.work task.id task.owner :: log) task.id = 1 := by
    rw [executions, countP_cons_of_pos (by simp [Note.isWork])]
    exact congrArg (· + 1) (h.fresh task mem_cons_self)
  have hothers : ∀ id, task.id ≠ id →
      executions (.work task.id task.owner :: log) id = executions log id := fun id hid =>
    countP_cons_of_neg (by simpa [Note.isWork] using hid)
  refine ⟨fun id => ?_, fun task' htask' => ?_, fun id hid => ?_⟩
  · by_cases hid : task.id = id
    · rw [← hid, hself]
    · rw [hothers id hid]
      exact h.once id
  · have hne : task.id ≠ task'.id := fun heq => hout (heq ▸ mem_map_of_mem htask')
    rw [hothers _ hne]
    exact h.fresh task' (mem_cons_of_mem _ htask')
  · rw [hothers id (by omega)]
    exact h.new id hid

end Works

/-- Nothing of a module was called after it was cancelled. -/
def Silent : List (Note M) → Prop
  | [] => True
  | n :: log => (∀ mod, n.owner = some mod → .cancelled mod ∉ log) ∧ Silent log

lemma Silent.of_append {log} (h : Silent log) {l₁ l₂}
    (hlog : log = l₁ ++ .cancelled mod :: l₂) : ∀ n ∈ l₁, n.owner ≠ some mod := by
  subst hlog
  induction l₁ with
  | nil => exact fun n hn => absurd hn not_mem_nil
  | cons n' l₁ ih =>
    intro n hn
    rcases mem_cons.mp hn with rfl | hn
    · exact fun heq => h.1 mod heq (by simp)
    · exact ih h.2 n hn

/-! ### The invariant -/

def World.queues (w : World M) : List (WorkTask M) := w.pending ++ (w.running ++ w.ready)

def Frame.rest : Frame M → List (WorkTask M)
  | .drain _ _ rest _ => rest
  | .waiting _ dropped => dropped
  | .freeing _ _ dropped => dropped

lemma Frame.rest_subset (f : Frame M) : f.rest ⊆ f.tasks := by
  cases f with
  | drain cur phase rest n | freeing mod cur dropped => exact subset_cons_self _ _
  | waiting mod dropped => exact refl _

def Frame.delivering : Frame M → ℕ
  | .drain _ _ rest n => n + 1 + rest.length
  | _ => 0

def delivering (stack : List (Frame M)) : ℕ := (stack.map Frame.delivering).sum

lemma delivering_cons (f) (stack : List (Frame M)) :
    delivering (f :: stack) = f.delivering + delivering stack := rfl

def World.held (w : World M) : List (WorkTask M) := w.queues ++ w.stack.flatMap Frame.rest

/-- What is known of the frames, with the tasks `q` on the queues. -/
def Stacked (q : List (WorkTask M)) : List (Frame M) → Prop
  | [] => True
  | .drain _ _ _ _ :: below => Stacked q below
  | .waiting mod dropped :: below =>
    (∀ task ∈ dropped, task.owner = some mod) ∧ Spared mod (below.flatMap Frame.tasks) ∧
      Stacked q below
  | .freeing mod _ dropped :: below =>
    (∀ task ∈ dropped, task.owner = some mod) ∧ Spared mod q ∧
      Spared mod (below.flatMap Frame.tasks) ∧ Stacked q below

/-- **The invariant**, while the main thread has some tasks in hand and owes the counter for
some. -/
structure Inv (w : World M) (hand : List (WorkTask M)) (owed : ℕ) : Prop where
  account : Account w.book w.next (w.held ++ hand)
  works : Works w.log w.next w.pending
  count : w.outstanding =
    w.pending.length + w.running.length + w.ready.length + delivering w.stack + owed
  quiet : ∀ mod, .cancelled mod ∈ w.log →
    Spared mod (w.queues ++ (w.stack.flatMap Frame.tasks ++ hand))
  silent : Silent w.log
  stacked : Stacked w.queues w.stack

lemma Inv.init (enabled queueMax) : Inv (init enabled queueMax : World M) [] 0 where
  account := ⟨.empty, nodup_nil⟩
  works := ⟨fun _ => Nat.zero_le _, fun _ h => absurd h not_mem_nil, fun _ _ => rfl⟩
  count := rfl
  quiet _ h := absurd h not_mem_nil
  silent := trivial
  stacked := trivial

lemma Spared.mono (h : Spared mod tasks) (hsub : tasks' ⊆ tasks) : Spared mod tasks' :=
  fun task htask => h task (hsub htask)

lemma Stacked.mono {q q'} {stack : List (Frame M)} (h : Stacked q stack)
    (hsub : ∀ task ∈ q', task ∈ q ∨
      ∀ mod, task.owner = some mod → ∀ cur dropped, .freeing mod cur dropped ∉ stack) :
    Stacked q' stack := by
  induction stack with
  | nil => trivial
  | cons f stack ih =>
    have hrest : ∀ task ∈ q', task ∈ q ∨
        ∀ mod, task.owner = some mod → ∀ cur dropped, .freeing mod cur dropped ∉ stack :=
      fun task htask => (hsub task htask).imp_right fun hout mod howner cur dropped hin =>
        hout mod howner cur dropped (mem_cons_of_mem _ hin)
    cases f with
    | drain cur phase rest n => exact ih h hrest
    | waiting mod dropped => exact ⟨h.1, h.2.1, ih h.2.2 hrest⟩
    | freeing mod cur dropped =>
      refine ⟨h.1, fun task htask howner => ?_, h.2.2.1, ih h.2.2.2 hrest⟩
      rcases hsub task htask with hin | hout
      · exact h.2.1 task hin howner
      · exact hout mod howner cur dropped mem_cons_self

lemma Inv.ended (h : Inv w (task :: hand) owed) {e}
    (he : e = .settled task.id () ∨ ∃ mod, e = .dropped task.id mod ∧ task.owner = some mod) :
    Inv { w with book := e :: w.book } hand owed where
  account := (h.account.perm perm_middle).ended he
  works := h.works
  count := h.count
  quiet mod hin := (h.quiet mod hin).mono fun t ht => by
    simp only [queues, mem_append, mem_cons] at ht ⊢
    tauto
  silent := h.silent
  stacked := h.stacked

lemma Inv.not_cancelled (h : Inv w (task :: hand) owed) (howner : task.owner = some mod) :
    .cancelled mod ∉ w.log :=
  fun hin => h.quiet mod hin task (by simp) howner

lemma Inv.call (h : Inv w hand owed) {f n} (htasks : f.tasks = task :: hand)
    (hrest : f.rest = hand) (howed : f.delivering = owed) (hn : n.owner = task.owner)
    (hwork : ∀ id, n.isWork id = false) (hnote : ∀ mod, n ≠ .cancelled mod)
    (hcur : ∀ mod, task.owner = some mod → .cancelled mod ∉ w.log)
    (hstacked : Stacked w.queues (f :: w.stack)) :
    Inv { w with stack := f :: w.stack, log := n :: w.log } [] 0 := by
  refine ⟨?_, h.works.other hwork, ?_, fun mod hin => ?_, ⟨?_, h.silent⟩, hstacked⟩
  · refine h.account.perm ?_
    simp only [held, queues, flatMap_cons, hrest, append_nil]
    rw [append_assoc]
    exact perm_append_comm.append_left _
  · have hcount := h.count
    rw [delivering_cons]
    push_cast
    omega
  · have hin' := (mem_cons.mp hin).resolve_left (hnote mod).symm
    have hspared := h.quiet mod hin'
    intro t ht
    simp only [queues, flatMap_cons, htasks, mem_append, mem_cons, not_mem_nil, or_false] at ht
    by_cases htask : t = task
    · rw [htask]
      exact fun howner => hcur mod howner hin'
    · refine hspared t ?_
      simp only [queues, mem_append]
      tauto
  · rw [hn]
    exact hcur

/-! ### Delivering -/

/-- **A batch is delivered**, up to a function of a task or to the end. -/
lemma Inv.drainLoop {rest n} (h : Inv w rest (n + rest.length)) :
    Inv (drainLoop w rest n) [] 0 := by
  induction rest generalizing w n with
  | nil =>
    rw [Worker.drainLoop]
    refine ⟨h.account, h.works, ?_, h.quiet, h.silent, h.stacked⟩
    have hcount := h.count
    rw [length_nil] at hcount
    push_cast at hcount ⊢
    omega
  | cons task rest ih =>
    have hcur : ∀ mod, task.owner = some mod → .cancelled mod ∉ w.log :=
      fun mod howner => h.not_cancelled howner
    have hended := h.ended (.inl rfl)
    have howed : n + (task :: rest).length = n + 1 + rest.length := by
      rw [length_cons]
      omega
    rw [howed] at hended
    rw [Worker.drainLoop]
    split_ifs with hdone hfree
    · exact hended.call rfl rfl rfl rfl (fun _ => rfl) (fun _ hne => by cases hne) hcur
        h.stacked
    · exact hended.call rfl rfl rfl rfl (fun _ => rfl) (fun _ hne => by cases hne) hcur
        h.stacked
    · exact ih hended

lemma Inv.workerDrain (h : Inv w [] 0) : Inv (workerDrain w) [] 0 := by
  refine Inv.drainLoop ⟨?_, h.works, ?_, fun mod hin => ?_, h.silent, ?_⟩
  · refine h.account.perm ?_
    simp only [held, queues, append_nil, append_assoc]
    exact (perm_append_comm.append_left _).append_left _
  · have hcount := h.count
    simp only [length_nil, Nat.cast_zero, add_zero, zero_add] at hcount ⊢
    omega
  · refine (h.quiet mod hin).mono fun t ht => ?_
    simp only [queues, append_nil, mem_append] at ht ⊢
    tauto
  · refine h.stacked.mono fun t ht => .inl ?_
    simp only [queues, append_nil, mem_append] at ht ⊢
    tauto

/-! ### Cancelling -/

/-- **Tasks are discarded**, up to a `wt_free` or to the end, when the module has no other tasks. -/
lemma Inv.cancelLoop {dropped} (h : Inv w dropped 0)
    (hdropped : ∀ task ∈ dropped, task.owner = some mod) (hqueues : Spared mod w.queues)
    (hstack : Spared mod (w.stack.flatMap Frame.tasks)) : Inv (cancelLoop mod w dropped) [] 0 := by
  induction dropped generalizing w with
  | nil =>
    rw [Worker.cancelLoop]
    refine ⟨h.account, h.works.other fun _ => rfl, h.count, fun mod' hin => ?_,
      ⟨fun _ hne => (by cases hne), h.silent⟩, h.stacked⟩
    rcases mem_cons.mp hin with heq | hin
    · obtain rfl := Note.cancelled.inj heq
      intro t ht
      rw [append_nil] at ht
      rcases mem_append.mp ht with ht | ht
      · exact hqueues t ht
      · exact hstack t ht
    · exact h.quiet mod' hin
  | cons task dropped ih =>
    have howner := hdropped task mem_cons_self
    have hcur : ∀ mod', task.owner = some mod' → .cancelled mod' ∉ w.log :=
      fun mod' howner' => h.not_cancelled howner'
    have hended := h.ended (.inr ⟨mod, rfl, howner⟩)
    have hrest : ∀ task ∈ dropped, task.owner = some mod :=
      fun t ht => hdropped t (mem_cons_of_mem _ ht)
    rw [Worker.cancelLoop]
    split_ifs with hfree
    · exact hended.call rfl rfl rfl rfl (fun _ => rfl) (fun _ hne => by cases hne) hcur
        ⟨hrest, hqueues, hstack, h.stacked⟩
    · exact ih hended hrest hqueues hstack

lemma Inv.leave {f stack} (h : Inv w [] 0)
    (hs : w.stack = f :: stack) (hstacked : Stacked w.queues stack) :
    Inv { w with stack } f.rest f.delivering ∧
      ∀ mod, .cancelled mod ∈ w.log → Spared mod f.tasks := by
  have hquiet := h.quiet
  rw [hs] at hquiet
  refine ⟨⟨?_, h.works, ?_, fun mod hin => ?_, h.silent, hstacked⟩, fun mod hin => ?_⟩
  · refine h.account.perm (Multiset.coe_eq_coe.mp ?_)
    simp only [held, queues, hs, append_nil, flatMap_cons, ← Multiset.coe_add]
    abel
  · have hcount := h.count
    rw [hs, delivering_cons] at hcount
    push_cast at hcount ⊢
    omega
  · refine (hquiet mod hin).mono fun t ht => ?_
    simp only [queues, flatMap_cons, append_nil, mem_append] at ht ⊢
    rcases ht with ht | ht | ht
    · exact .inl ht
    · exact .inr (.inr ht)
    · exact .inr (.inl (f.rest_subset ht))
  · refine (hquiet mod hin).mono fun t ht => ?_
    simp only [flatMap_cons, append_nil, mem_append]
    exact .inr (.inl ht)

section Owned

variable [DecidableEq M]

lemma owned_add_foreign (mod) (tasks : List (WorkTask M)) :
    (owned mod tasks : Multiset (WorkTask M)) + foreign mod tasks = tasks := by
  have hnot : (fun task : WorkTask M => decide (task.owner ≠ some mod)) =
      fun task => !decide (task.owner = some mod) := by
    funext task
    exact decide_not
  rw [foreign, hnot]
  exact Multiset.coe_eq_coe.mpr (filter_append_perm _ _)

lemma length_owned (mod) (tasks : List (WorkTask M)) :
    (owned mod tasks).length + (foreign mod tasks).length = tasks.length := by
  have hcard := congrArg Multiset.card (owned_add_foreign mod tasks)
  simpa using hcard

lemma owner_of_mem_owned (h : task ∈ owned mod tasks) : task.owner = some mod := by
  simpa using (mem_filter.mp h).2

lemma spared_foreign (mod) (tasks : List (WorkTask M)) : Spared mod (foreign mod tasks) :=
  fun task htask => by simpa using (mem_filter.mp htask).2

lemma foreign_subset (mod) (tasks : List (WorkTask M)) : foreign mod tasks ⊆ tasks :=
  filter_sublist.subset

lemma owned_subset (mod) (tasks : List (WorkTask M)) : owned mod tasks ⊆ tasks :=
  filter_sublist.subset

lemma Inv.workerCancelModule (h : Inv w [] 0) (mod)
    (hclear : Spared mod (w.stack.flatMap Frame.tasks)) : Inv (workerCancelModule w mod) [] 0 := by
  have hsplit := owned_add_foreign mod w.pending
  have hlen := length_owned mod w.pending
  have hsub := foreign_subset mod w.pending
  have hsub' := owned_subset mod w.pending
  rw [Worker.workerCancelModule]
  refine ⟨?_, h.works.mono le_rfl hsub, ?_, fun mod' hin => ?_, h.silent, ?_, hclear, ?_⟩
  · -- the tasks of the module change from the queue to the frame
    refine h.account.perm (Multiset.coe_eq_coe.mp ?_)
    simp only [held, queues, append_nil, flatMap_cons, Frame.rest,
      ← Multiset.coe_add, Multiset.coe_reverse]
    rw [← hsplit]
    abel
  · have hcount := h.count
    have hnone : Frame.delivering (.waiting mod (owned mod w.pending).reverse) = 0 := rfl
    rw [delivering_cons, hnone]
    push_cast at hcount ⊢
    omega
  · refine (h.quiet mod' hin).mono fun t ht => ?_
    simp only [queues, flatMap_cons, Frame.tasks, append_nil, mem_append, mem_reverse] at ht ⊢
    rcases ht with (ht | ht) | ht | ht
    · exact .inl (.inl (hsub ht))
    · exact .inl (.inr ht)
    · exact .inl (.inl (hsub' ht))
    · exact .inr ht
  · intro t ht
    exact owner_of_mem_owned (mem_reverse.mp ht)
  · refine h.stacked.mono fun t ht => .inl ?_
    simp only [queues, mem_append] at ht ⊢
    exact ht.imp_left fun hin => hsub hin

lemma Inv.lastSweep {dropped} (h : Inv w dropped 0)
    (hdropped : ∀ task ∈ dropped, task.owner = some mod) (hrunning : owned mod w.running = [])
    (hstack : Spared mod (w.stack.flatMap Frame.tasks)) : Inv (lastSweep w mod dropped) [] 0 := by
  have hp := owned_add_foreign mod w.pending
  have hr := owned_add_foreign mod w.ready
  have hplen := length_owned mod w.pending
  have hrlen := length_owned mod w.ready
  have hpsub := foreign_subset mod w.pending
  have hrsub := foreign_subset mod w.ready
  have hsubset : ∀ t, t ∈ foreign mod w.pending ++ (w.running ++ foreign mod w.ready) →
      t ∈ w.queues := by
    intro t ht
    simp only [queues, mem_append] at ht ⊢
    exact ht.imp (fun hin => hpsub hin) fun hin => hin.imp_right fun hin => hrsub hin
  refine Inv.cancelLoop ⟨?_, h.works.mono le_rfl hpsub, ?_, fun mod' hin => ?_, h.silent,
    h.stacked.mono fun t ht => .inl (hsubset t ht)⟩ (fun t ht => ?_) (fun t ht => ?_) hstack
  · refine h.account.perm (Multiset.coe_eq_coe.mp ?_)
    simp only [held, queues, ← Multiset.coe_add, Multiset.coe_reverse]
    rw [← hp, ← hr]
    abel
  · have hcount := h.count
    push_cast at hcount ⊢
    omega
  · refine (h.quiet mod' hin).mono fun t ht => ?_
    simp only [queues, mem_append, mem_reverse] at ht ⊢
    rcases ht with (ht | ht | ht) | ht | ht | ht | ht
    · exact .inl (.inl (hpsub ht))
    · exact .inl (.inr (.inl ht))
    · exact .inl (.inr (.inr (hrsub ht)))
    · exact .inr (.inl ht)
    · exact .inl (.inr (.inr (owned_subset mod _ ht)))
    · exact .inl (.inl (owned_subset mod _ ht))
    · exact .inr (.inr ht)
  · simp only [mem_append, mem_reverse] at ht
    rcases ht with ht | ht | ht
    · exact owner_of_mem_owned ht
    · exact owner_of_mem_owned ht
    · exact hdropped t ht
  · simp only [queues, mem_append] at ht
    rcases ht with ht | ht | ht
    · exact spared_foreign mod _ t ht
    · intro howner
      have hin : t ∈ owned mod w.running := mem_filter.mpr ⟨ht, by simpa using howner⟩
      rw [hrunning] at hin
      cases hin
    · exact spared_foreign mod _ t ht

lemma Inv.proceed (h : Inv w [] 0) (hne : w.stack ≠ []) :
    ∃ w', proceed w = some w' ∧ Inv w' [] 0 := by
  obtain ⟨f, stack, hs⟩ := exists_cons_of_ne_nil hne
  have hstacked := h.stacked
  rw [hs] at hstacked
  unfold Worker.proceed
  rw [hs]
  cases f with
  | drain cur phase rest n =>
    obtain ⟨hleave, hquiet⟩ := h.leave hs hstacked
    have hcur : ∀ mod, cur.owner = some mod → .cancelled mod ∉ w.log :=
      fun mod howner hin => hquiet mod hin cur mem_cons_self howner
    cases phase with
    | free => exact ⟨_, rfl, hleave.drainLoop⟩
    | done =>
      refine ⟨_, rfl, ?_⟩
      split_ifs with hfree
      · exact hleave.call rfl rfl rfl rfl (fun _ => rfl) (fun _ hne => by cases hne) hcur
          hstacked
      · exact hleave.drainLoop
  | waiting mod dropped =>
    dsimp only
    split_ifs with hrunning
    · obtain ⟨hleave, -⟩ := h.leave hs hstacked.2.2
      exact ⟨_, rfl, hleave.lastSweep hstacked.1 (isEmpty_iff.mp hrunning) hstacked.2.1⟩
    · exact ⟨w, rfl, h⟩
  | freeing mod cur dropped =>
    obtain ⟨hleave, -⟩ := h.leave hs hstacked.2.2.2
    exact ⟨_, rfl, hleave.cancelLoop hstacked.1 hstacked.2.1 hstacked.2.2.1⟩

end Owned

/-! ### Other threads -/

lemma Inv.congr (h : Inv w hand owed) (hqueues : w'.pending = w.pending ∧ w'.running = w.running ∧
      w'.ready = w.ready) (hstack : w'.stack = w.stack) (hout : w'.outstanding = w.outstanding)
    (hnext : w'.next = w.next) (hlog : w'.log = w.log) (hbook : w'.book = w.book) :
    Inv w' hand owed := by
  obtain ⟨hp, hr, hy⟩ := hqueues
  have hq : w'.queues = w.queues := by rw [queues, queues, hp, hr, hy]
  refine ⟨?_, ?_, ?_, ?_, ?_, ?_⟩
  · rw [held, hq, hstack, hbook, hnext]
    exact h.account
  · rw [hlog, hnext, hp]
    exact h.works
  · rw [hout, hp, hr, hy, hstack]
    exact h.count
  · rw [hlog, hq, hstack]
    exact h.quiet
  · rw [hlog]
    exact h.silent
  · rw [hq, hstack]
    exact h.stacked

lemma Inv.taskAccept (h : Inv w [] 0) {owner hasDone hasFree r}
    (hclear : ∀ mod, owner = some mod → .cancelled mod ∉ w.log)
    (heq : taskAccept w owner hasDone hasFree = (w', r)) : (r = none ∧ Inv w' [] 0) ∨
      ∃ task, r = some task ∧ task.owner = owner ∧ executions w'.log task.id = 0 ∧
        Inv w' [task] 1 ∧ w'.stack = w.stack := by
  rw [Worker.taskAccept] at heq
  split_ifs at heq with hfull
  · cases heq
    exact .inl ⟨rfl, h.congr ⟨rfl, rfl, rfl⟩ rfl rfl rfl rfl rfl⟩
  cases heq
  refine .inr ⟨_, rfl, rfl, h.works.new _ le_rfl, ⟨?_, ?_, ?_, fun mod hin => ?_, h.silent,
    h.stacked⟩, rfl⟩
  · have haccount := h.account
    rw [append_nil] at haccount
    exact haccount.opened.perm (perm_append_singleton _ _).symm
  · exact h.works.mono (Nat.le_succ _) (refl _)
  · have hcount := h.count
    push_cast at hcount ⊢
    omega
  intro t ht
  simp only [mem_append, mem_singleton] at ht
  rcases ht with ht | ht | rfl
  · exact h.quiet mod hin t (mem_append_left _ ht)
  · exact h.quiet mod hin t (by simp [ht])
  · exact fun howner => hclear mod howner hin

lemma Inv.shuffle (h : Inv w hand hand.length) (hperm : w'.queues.Perm (w.queues ++ hand))
    (hstack : w'.stack = w.stack) (hout : w'.outstanding = w.outstanding)
    (hbook : w'.book = w.book ∧ w'.next = w.next) (hworks : Works w'.log w'.next w'.pending)
    (hsilent : Silent w'.log) (hlog : ∀ mod, .cancelled mod ∈ w'.log → .cancelled mod ∈ w.log)
    (hfreeing : ∀ task ∈ hand, ∀ mod, task.owner = some mod →
      ∀ cur dropped, .freeing mod cur dropped ∉ w.stack) : Inv w' [] 0 := by
  have hmem : ∀ t, t ∈ w'.queues ↔ t ∈ w.queues ∨ t ∈ hand := fun t => by
    rw [hperm.mem_iff, mem_append]
  refine ⟨?_, hworks, ?_, fun mod hin => ?_, hsilent, ?_⟩
  · rw [hbook.1, hbook.2]
    refine h.account.perm (Multiset.coe_eq_coe.mp ?_)
    have hsum := Multiset.coe_eq_coe.mpr hperm
    simp only [held, hstack, append_nil, ← Multiset.coe_add] at hsum ⊢
    rw [hsum]
    abel
  · have hcount := h.count
    have hlen := hperm.length_eq
    simp only [queues, length_append] at hlen
    rw [hstack]
    push_cast at hcount ⊢
    omega
  · refine (h.quiet mod (hlog mod hin)).mono fun t ht => ?_
    rw [append_nil, hstack, mem_append, hmem] at ht
    rw [mem_append, mem_append]
    rcases ht with (ht | ht) | ht
    · exact .inl ht
    · exact .inr (.inr ht)
    · exact .inr (.inl ht)
  · rw [hstack]
    refine h.stacked.mono fun t ht => ?_
    exact ((hmem t).mp ht).imp_right fun hin => hfreeing t hin

section Submit

variable {owner : Option M} {hasDone hasFree : Bool}

lemma Inv.workerSubmitOwned (h : Inv w [] 0) (hc : Clear w (.submit owner hasDone hasFree)) :
    Inv (workerSubmitOwned w owner hasDone hasFree) [] 0 := by
  unfold Worker.workerSubmitOwned
  split_ifs with hen
  · exact h.congr ⟨rfl, rfl, rfl⟩ rfl rfl rfl rfl rfl
  cases heq : Worker.taskAccept w owner hasDone hasFree with
  | mk w' r =>
    rcases h.taskAccept (fun mod hmod => (hc mod hmod).1) heq with
      ⟨rfl, hinv⟩ | ⟨task, rfl, howner, hfresh, hinv, hstack⟩
    · exact hinv
    refine hinv.shuffle (Multiset.coe_eq_coe.mp ?_) rfl rfl ⟨rfl, rfl⟩
      (hinv.works.append hfresh) hinv.silent (fun _ => id) fun t ht mod hmod => ?_
    · simp only [queues, ← Multiset.coe_add]
      abel
    · rw [mem_singleton.mp ht, howner] at hmod
      exact hstack ▸ (hc mod hmod).2

lemma Inv.workerPost (h : Inv w [] 0) (hc : Clear w (.post owner hasDone hasFree)) :
    Inv (workerPost w owner hasDone hasFree) [] 0 := by
  unfold Worker.workerPost
  cases heq : Worker.taskAccept w owner hasDone hasFree with
  | mk w' r =>
    rcases h.taskAccept (fun mod hmod => (hc mod hmod).1) heq with
      ⟨rfl, hinv⟩ | ⟨task, rfl, howner, hfresh, hinv, hstack⟩
    · exact hinv
    refine hinv.shuffle (Multiset.coe_eq_coe.mp ?_) rfl rfl ⟨rfl, rfl⟩ hinv.works hinv.silent
      (fun _ => id) fun t ht mod hmod => ?_
    · simp only [queues, ← Multiset.coe_add]
      abel
    · rw [mem_singleton.mp ht, howner] at hmod
      exact hstack ▸ (hc mod hmod).2

end Submit

lemma Inv.poolTake (h : Inv w [] 0) : Inv (poolTake w) [] 0 := by
  unfold Worker.poolTake
  cases hp : w.pending with
  | nil => exact h
  | cons task pending =>
    have hnodup := h.account.nodup
    have hworks := h.works
    have hin : task ∈ w.held ++ [] := by simp [held, queues, hp]
    have hopen := (h.account.balanced.kept task.id task.owner (mem_map_of_mem hin)).1
    have hout : task.id ∉ pending.map WorkTask.id := by
      simp only [held, queues, hp, cons_append, map_cons,
        nodup_cons, map_append, mem_append, not_or] at hnodup
      exact hnodup.1.1.1.1
    rw [hp] at hworks
    refine h.shuffle (Multiset.coe_eq_coe.mp ?_) rfl rfl ⟨rfl, rfl⟩
      (hworks.work (h.account.balanced.lt _ _ hopen) hout) ⟨fun mod howner hin => ?_, h.silent⟩
      (fun mod hin => (mem_cons.mp hin).resolve_left fun heq => by cases heq)
      fun t ht => absurd ht not_mem_nil
    · simp only [queues, hp, append_nil, cons_append, ← Multiset.coe_add,
        ← Multiset.cons_coe, ← Multiset.singleton_add]
      abel
    · exact h.quiet mod hin task (by simp [queues, hp]) howner

lemma Inv.poolFinish (h : Inv w [] 0) {id} (hin : ∃ task ∈ w.running, task.id = id) :
    ∃ w', poolFinish w id = some w' ∧ Inv w' [] 0 := by
  obtain ⟨task, hfind⟩ :
      ∃ task, w.running.find? (fun task => decide (task.id = id)) = some task := by
    rw [← Option.isSome_iff_exists, List.find?_isSome]
    obtain ⟨task, htask, hid⟩ := hin
    exact ⟨task, htask, by simpa using hid⟩
  obtain ⟨hid, as, bs, hrunning, has⟩ := List.find?_eq_some_iff_append.mp hfind
  have herase : w.running.eraseP (fun task => decide (task.id = id)) = as ++ bs := by
    rw [hrunning, eraseP_append_right _ (fun t ht => by simpa using has t ht),
      eraseP_cons, hid, cond_true]
  rw [Worker.poolFinish, hfind, herase]
  refine ⟨_, rfl, h.shuffle (Multiset.coe_eq_coe.mp ?_) rfl rfl ⟨rfl, rfl⟩ h.works h.silent
    (fun _ hin => hin) fun t ht => absurd ht not_mem_nil⟩
  simp only [queues, hrunning, append_nil, ← Multiset.coe_add, ← Multiset.cons_coe,
    ← Multiset.singleton_add, Multiset.coe_nil, add_zero]
  abel

/-! ### Runs -/

section Runs

variable [DecidableEq M]

/-- **One event**, with nothing in hand before and afterwards. -/
lemma Inv.step (h : Inv w [] 0) {e} (hp : Possible w e) (hc : Clear w e) :
    ∃ w', step w e = some w' ∧ Inv w' [] 0 := by
  cases e with
  | submit owner hasDone hasFree => exact ⟨_, rfl, h.workerSubmitOwned hc⟩
  | post owner hasDone hasFree => exact ⟨_, rfl, h.workerPost hc⟩
  | take => exact ⟨_, rfl, h.poolTake⟩
  | finish id => exact h.poolFinish hp
  | drain => exact ⟨_, rfl, h.workerDrain⟩
  | cancel mod => exact ⟨_, rfl, h.workerCancelModule mod hc⟩
  | proceed => exact h.proceed hp
  | configure enabled queueMax => exact ⟨_, rfl, h.congr ⟨rfl, rfl, rfl⟩ rfl rfl rfl rfl rfl⟩

/-- **Tasks end once**: when no module is cancelled while a task of it is being delivered, and none
submits tasks after that, a task is executed at most once and ends exactly once, the counter is
right, and nothing of a module is called after `worker_cancel_module` has returned. -/
theorem tasks_end_once (enabled : Bool) (queueMax : ℕ) (es : List (Event M))
    (hes : Permitted step (fun w e => Possible w e ∧ Clear w e)
      (World.init enabled queueMax : World M) es) :
    ∃ w, run step (World.init enabled queueMax : World M) es = some w ∧
      (∀ id, executions w.log id ≤ 1) ∧
      (∀ id owner, .opened id owner ∈ w.book →
        ((id, owner) ∈ items w.held ∧ endings w.book id = 0) ∨
          ((id, owner) ∉ items w.held ∧ endings w.book id = 1)) ∧
      w.outstanding =
        w.pending.length + w.running.length + w.ready.length + delivering w.stack ∧
      ∀ mod l₁ l₂, w.log = l₁ ++ .cancelled mod :: l₂ → ∀ n ∈ l₁, n.owner ≠ some mod := by
  obtain ⟨w, hrun, h⟩ := run_safe (fun w => Inv w [] 0)
    (fun w e h hall => h.step hall.1 hall.2) (Inv.init enabled queueMax) hes
  have haccount := h.account
  rw [append_nil] at haccount
  refine ⟨w, hrun, h.works.once, fun id owner hopen => ?_, ?_, fun mod l₁ l₂ hlog =>
    h.silent.of_append hlog⟩
  · by_cases hin : (id, owner) ∈ items w.held
    · exact .inl ⟨hin, (haccount.balanced.kept id owner hin).2⟩
    · exact .inr ⟨hin, haccount.balanced.gone id owner hopen hin⟩
  · have hcount := h.count
    rw [Nat.cast_zero, add_zero] at hcount
    exact hcount

/-- Two modules have tasks; the second is cancelled from the `wt_done` of the first one's task, when
its own is still running, and the main thread waits for it. -/
def cancelWhileRunning : List (Event ℕ) :=
  [.submit (some 1) true false, .submit (some 2) true true, .take, .finish 0, .take, .drain,
    .cancel 2, .finish 1, .proceed, .proceed, .proceed]

lemma permitted_cancelWhileRunning :
    Permitted step (fun w e => Possible w e ∧ Clear w e) (init true 10 : World ℕ)
      cancelWhileRunning := by
  have hnone : ∀ w : World ℕ, w.log = [] → w.stack = [] → ∀ owner hasDone hasFree,
      Clear w (.submit owner hasDone hasFree) := by
    intro w hlog hstack owner hasDone hasFree mod _
    exact ⟨by simp [hlog], by simp [hstack]⟩
  refine .cons ⟨trivial, hnone _ rfl rfl _ _ _⟩ rfl (.cons ⟨trivial, hnone _ rfl rfl _ _ _⟩ rfl
    (.cons ⟨trivial, trivial⟩ rfl (.cons ⟨?_, trivial⟩ rfl (.cons ⟨trivial, trivial⟩ rfl
      (.cons ⟨rfl, trivial⟩ rfl (.cons ⟨rfl, ?_⟩ rfl (.cons ⟨?_, trivial⟩ rfl
        (.cons ⟨cons_ne_nil _ _, trivial⟩ rfl (.cons ⟨cons_ne_nil _ _, trivial⟩ rfl
          (.cons ⟨cons_ne_nil _ _, trivial⟩ rfl trivial))))))))))
  · exact ⟨_, mem_cons_self, rfl⟩
  · intro task htask
    cases htask with
    | head => decide
    | tail _ htask => cases htask
  · exact ⟨_, mem_cons_self, rfl⟩

theorem tasks_end_once_cancelWhileRunning :
    Permitted step (fun w e => Possible w e ∧ Clear w e) (World.init true 10 : World ℕ)
        cancelWhileRunning ∧
      ∃ w, run step (World.init true 10 : World ℕ) cancelWhileRunning = some w ∧
        (∀ id, executions w.log id ≤ 1) ∧
        ∀ mod l₁ l₂, w.log = l₁ ++ .cancelled mod :: l₂ → ∀ n ∈ l₁, n.owner ≠ some mod := by
  obtain ⟨w, hrun, honce, -, -, hsilent⟩ :=
    tasks_end_once true 10 cancelWhileRunning permitted_cancelWhileRunning
  exact ⟨permitted_cancelWhileRunning, w, hrun, honce, hsilent⟩

/-- A module is cancelled when its task stands behind the one that is being delivered:
`worker_cancel_module` returns, and then `wt_done` of the module is called. -/
theorem cancelled_in_delivery :
    (run step (World.init true 10 : World ℕ)
        [.submit (some 1) true false, .submit (some 2) true false, .take, .finish 0, .take,
          .finish 1, .drain, .cancel 2, .proceed, .proceed]).map World.log =
      some [.done 1 (some 2), .cancelled 2, .done 0 (some 1), .work 1 (some 2),
        .work 0 (some 1)] := by
  decide +kernel

end Runs

end Ircu.Worker
