import Ircu.Events.TimerQueue

/-!
What holds of the timers over whole runs: any calls, from outside or from the callbacks of
expiring timers, in any order.
-/

namespace Ircu.Events

open Link Run Option List.Subset List

variable {ι : Type*} [DecidableEq ι] {w w' : World ι} {s t : ι} {xs : List ι}

/-! ### One call -/

variable {c : Call ι}

/-- **One call** that is allowed returns and keeps the invariant. -/
lemma Good.step (h : Good w xs) (hall : Allowed w c) :
    ∃ w' ys, step w c = some w' ∧ Good w' ys := by
  cases c with
  | add t type value => exact h.add type value hall
  | del t => exact h.del hall
  | chg t type value => exact h.chg hall.1 hall.2.1 hall.2.2.1 hall.2.2.2
  | tick now => exact ⟨_, xs, rfl, h.tick now⟩
  | run =>
    obtain ⟨w', ys, heq, hgood, -⟩ := h.runLoop hall
    exact ⟨w', ys, (if_pos hall).trans heq, hgood⟩
  | ret =>
    obtain ⟨w', ys, heq, hgood, -⟩ := h.ret hall
    exact ⟨w', ys, heq, hgood⟩

lemma timerEnqueue_inv (h : timerEnqueue w t = some w') :
    w.queue.prev t = none ∧ (w.timer t).flags.active = true ∧ w'.stack = w.stack ∧
      w'.log = w.log ∧ ∀ s, (w'.timer s).flags = (w.timer s).flags := by
  rw [timerEnqueue] at h
  split_ifs at h with hassert
  push Not at hassert
  dsimp only at h
  split at h
  · cases h
  obtain rfl := some.inj h
  refine ⟨hassert.1, by simpa using hassert.2, rfl, rfl, fun s => ?_⟩
  rw [update_timer]
  split_ifs <;> rfl

lemma Good.allowed (h : Good w xs) (hstep : Events.step w c = some w') : Allowed w c := by
  cases c with
  | add t type value =>
    rw [Events.step, timerAdd] at hstep
    split_ifs at hstep with hm
    · exact .inl (by simpa using hm)
    · exact .inr (timerEnqueue_inv hstep).1
  | del t =>
    rw [Events.step, timerDel] at hstep
    split_ifs at hstep with hm
    · exact h.active t (by simpa using hm)
    · have hactive := (eventGenerate_inv hstep).1
      simpa [Allowed] using hactive
  | chg t type value =>
    rw [Events.step, timerChg] at hstep
    split_ifs at hstep with hassert
    push Not at hassert
    refine ⟨?_, hassert⟩
    dsimp only at hstep
    split_ifs at hstep with hm
    · exact h.active t (by simpa using hm)
    · simpa using (timerEnqueue_inv hstep).2.1
  | tick now => trivial
  | run =>
    rw [Events.step] at hstep
    split_ifs at hstep with hs
    exact hs
  | ret =>
    intro hs
    rw [Events.step, returns, hs] at hstep
    cases hstep

lemma Good.step_eq (h : Good w xs) (hstep : Events.step w c = some w') : ∃ ys, Good w' ys := by
  obtain ⟨w'', ys, heq, hgood⟩ := h.step (h.allowed hstep)
  rw [hstep] at heq
  obtain rfl := some.inj heq
  exact ⟨ys, hgood⟩

/-! ### Other timers -/

def destroys (w : World ι) (t : ι) : ℕ := w.log.count (.destroy, t)

structure Spares (t : ι) (w w' : World ι) : Prop where
  flags : (w'.timer t).flags = (w.timer t).flags
  destroys : destroys w' t = destroys w t
  frame : Frame.expiring t ∈ w'.stack ↔ Frame.expiring t ∈ w.stack

namespace Spares

lemma trans {w''} (h : Spares t w w') (h' : Spares t w' w'') : Spares t w w'' :=
  ⟨h'.flags.trans h.flags, h'.destroys.trans h.destroys, h'.frame.trans h.frame⟩

lemma update (hs : s ≠ t) (f : Timer → Timer) : Spares t w (w.update s f) :=
  ⟨by rw [update_timer, if_neg hs.symm], rfl, Iff.rfl⟩

lemma setFlags (hs : s ≠ t) (f : Flags → Flags) : Spares t w (w.setFlags s f) :=
  update hs _

lemma genDequeue : Spares t w (genDequeue w s) := ⟨rfl, rfl, Iff.rfl⟩

lemma timerEnqueue (h : timerEnqueue w s = some w') : Spares t w w' := by
  obtain ⟨-, -, hstack, hlog, hflags⟩ := timerEnqueue_inv h
  exact ⟨hflags t, by rw [Events.destroys, hlog]; rfl, by rw [hstack]⟩

lemma eventGenerate {type frame} (hs : s ≠ t)
    (hframe : frame ≠ .expiring t) (h : eventGenerate w type s frame = some w') :
    Spares t w w' := by
  obtain ⟨-, -, -, -, hlog, hstack, -, hflags, -⟩ := eventGenerate_inv h
  refine ⟨hflags t hs.symm, ?_, ?_⟩
  · rw [Events.destroys, hlog, count_cons_of_ne (by simp [hs])]
    rfl
  · rw [hstack, mem_cons, or_iff_right hframe.symm]

lemma timerAdd {type value} (hs : s ≠ t)
    (h : timerAdd w s type value = some w') : Spares t w w' := by
  rw [Events.timerAdd] at h
  split_ifs at h with hm
  · exact some.inj h ▸ update hs _
  · exact (update hs _).trans (timerEnqueue h)

lemma timerDel (hs : s ≠ t) (h : timerDel w s = some w') : Spares t w w' := by
  rw [Events.timerDel] at h
  split_ifs at h with hm
  · exact some.inj h ▸ setFlags hs _
  · exact (setFlags hs _).trans (genDequeue.trans (eventGenerate hs (by simp) h))

lemma timerChg {type value} (hs : s ≠ t)
    (h : timerChg w s type value = some w') : Spares t w w' := by
  rw [Events.timerChg] at h
  split_ifs at h with hassert
  dsimp only at h
  split_ifs at h with hm
  · exact some.inj h ▸ (update hs _).trans (setFlags hs _)
  · exact (update hs _).trans (genDequeue.trans (timerEnqueue h))

lemma runLoop (ht : (w.timer t).flags.active = false) (h : runLoop w = some w') :
    Spares t w w' := by
  rw [Events.runLoop] at h
  split at h
  · exact some.inj h ▸ ⟨rfl, rfl, Iff.rfl⟩
  rename_i s _
  split_ifs at h with hdue
  · exact some.inj h ▸ ⟨rfl, rfl, Iff.rfl⟩
  have hs : s ≠ t := by
    rintro rfl
    have := (eventGenerate_inv h).1
    simp [ht] at this
  exact genDequeue.trans ((setFlags hs _).trans (eventGenerate hs (by simpa using hs) h))

lemma pop {f stack} (hs : w.stack = f :: stack)
    (hf : f ≠ .expiring t) : Spares t w { w with stack } :=
  ⟨rfl, rfl, by rw [hs, mem_cons, or_iff_right hf.symm]⟩

lemma returns (ht : (w.timer t).flags.active = false) (hframe : Frame.expiring t ∉ w.stack)
    (h : returns w = some w') : Spares t w w' := by
  rw [Events.returns] at h
  split at h
  · cases h
  · rename_i hs
    exact some.inj h ▸ pop hs (by simp)
  · rename_i hs
    exact (pop hs (by simp)).trans (runLoop ht h)
  rename_i s stack hs
  have hne : s ≠ t := by
    rintro rfl
    exact hframe (by simp [hs])
  have hpop : Spares t w (World.setFlags { w with stack } s fun f => { f with marked := false }) :=
    (pop hs (by simpa using hne)).trans (setFlags hne _)
  dsimp only at h
  split_ifs at h with hr
  · exact hpop.trans (eventGenerate hne (by simp) h)
  obtain ⟨w2, henq, hloop⟩ := bind_eq_some_iff.mp h
  have hback := (hpop.trans (timerEnqueue henq)).trans
    (setFlags hne fun f => { f with readd := false })
  exact hback.trans (runLoop (by rw [hback.flags, ht]) hloop)

end Spares

/-! ### Deletion in a callback -/

def Call.Rearms (t : ι) : Call ι → Prop
  | .add s _ _ | .chg s _ _ => s = t
  | _ => False

/-- The timer was deleted in the callback of its expiry, when it had been destroyed `n` times.
Either the callback is still running, or the timer has been destroyed once more. -/
def Ending (t : ι) (n : ℕ) (w : World ι) : Prop :=
  (Frame.expiring t ∈ w.stack ∧ (w.timer t).flags.readd = false ∧ destroys w t = n) ∨
    (w.timer t).flags.active = false ∧ destroys w t = n + 1

lemma Ending.spares {n} (h : Ending t n w) (hs : Spares t w w') : Ending t n w' := by
  rw [Ending, hs.frame, hs.flags, hs.destroys]
  exact h

lemma Good.ending_del (h : Good w xs) (hframe : Frame.expiring t ∈ w.stack)
    (hstep : timerDel w t = some w') : Ending t (destroys w t) w' := by
  rw [timerDel, if_pos (by simpa using (h.marked t).mpr hframe)] at hstep
  obtain rfl := some.inj hstep
  exact .inl ⟨hframe, by simp, rfl⟩

lemma Good.ending_ret (h : Good w xs) (hframe : Frame.expiring t ∈ w.stack)
    (hr : (w.timer t).flags.readd = false) (hstep : returns w = some w') :
    Ending t (destroys w t) w' := by
  rw [returns] at hstep
  split at hstep
  · cases hstep
  · rename_i hs
    exact Ending.spares (.inl ⟨hframe, hr, rfl⟩) (some.inj hstep ▸ .pop hs (by simp))
  · rename_i hs
    rw [hs, h.bottom hs rfl] at hframe
    simp at hframe
  rename_i s stack hs
  rw [hs, h.bottom hs rfl] at hframe
  obtain rfl : t = s := by simpa using hframe
  rw [if_pos (by simpa using hr)] at hstep
  obtain ⟨-, -, -, -, hlog, -, -, -, hself⟩ := eventGenerate_inv hstep
  refine .inr ⟨by rw [hself]; simp, ?_⟩
  rw [destroys, hlog, count_cons_self]
  rfl

lemma Good.ending_step (h : Good w xs) {n} (hend : Ending t n w)
    (hc : ¬ c.Rearms t) (hstep : Events.step w c = some w') : Ending t n w' := by
  have hall := h.allowed hstep
  cases c with
  | add s type value => exact hend.spares (.timerAdd hc hstep)
  | chg s type value => exact hend.spares (.timerChg hc hstep)
  | tick now => exact hend.spares (some.inj hstep ▸ ⟨rfl, rfl, Iff.rfl⟩)
  | del s =>
    by_cases hs : s = t
    · subst hs
      rcases hend with ⟨hframe, -, rfl⟩ | ⟨hactive, -⟩
      · exact h.ending_del hframe hstep
      · rw [Allowed, hactive] at hall
        cases hall
    · exact hend.spares (.timerDel hs hstep)
  | run =>
    rw [Events.step, if_pos (show w.stack = [] from hall)] at hstep
    rcases hend with ⟨hframe, -⟩ | ⟨hactive, hn⟩
    · rw [show w.stack = [] from hall] at hframe
      cases hframe
    · exact Ending.spares (.inr ⟨hactive, hn⟩) (.runLoop hactive hstep)
  | ret =>
    rcases hend with ⟨hframe, hr, rfl⟩ | ⟨hactive, hn⟩
    · exact h.ending_ret hframe hr hstep
    have hframe : Frame.expiring t ∉ w.stack := by
      intro hmem
      have := h.active t ((h.marked t).mpr hmem)
      rw [hactive] at this
      cases this
    exact Ending.spares (.inr ⟨hactive, hn⟩) (.returns hactive hframe hstep)

/-! ### Whole runs -/

lemma stack_subset_of_step (hc : c ≠ .ret) (hstep : step w c = some w') : w.stack ⊆ w'.stack := by
  cases c with
  | add s type value =>
    rw [step, timerAdd] at hstep
    split_ifs at hstep with hm
    · exact some.inj hstep ▸ refl _
    · rw [(timerEnqueue_inv hstep).2.2.1]
      exact refl _
  | del s =>
    rw [step, timerDel] at hstep
    split_ifs at hstep with hm
    · exact some.inj hstep ▸ refl _
    · obtain ⟨-, -, -, -, -, hstack, -⟩ := eventGenerate_inv hstep
      rw [hstack]
      exact subset_cons_self ..
  | chg s type value =>
    rw [step, timerChg] at hstep
    split_ifs at hstep with hassert
    dsimp only at hstep
    split_ifs at hstep with hm
    · exact some.inj hstep ▸ refl _
    · rw [(timerEnqueue_inv hstep).2.2.1]
      exact refl _
  | tick now => exact some.inj hstep ▸ refl _
  | run =>
    rw [step] at hstep
    split_ifs at hstep with hs
    rw [hs]
    exact nil_subset _
  | ret => exact absurd rfl hc

/-- **When `timer_run` returns, no timer of the queue is due.** -/
lemma Good.timers_done (h : Good w xs) (hstep : Events.step w c = some w')
    (hrun : c = .run ∨ w.Running) (hdone : ¬ w'.Running) {ys} (hys : Linked w'.queue ys) :
    NoneDue w' ys := by
  have hall := h.allowed hstep
  have hsame : ∀ zs, Good w' zs → NoneDue w' zs → NoneDue w' ys := by
    intro zs hzs hnone
    rwa [hzs.queue.linked.unique hys] at hnone
  by_cases hret : c = .ret
  · subst hret
    obtain ⟨w'', zs, heq, hgood, hout⟩ := h.ret hall
    obtain rfl : w' = w'' := some.inj (hstep.symm.trans heq)
    exact hsame zs hgood ((hout (hrun.resolve_left (by simp))).resolve_left hdone)
  rcases hrun with rfl | ⟨f, hf, hin⟩
  · obtain ⟨w'', zs, heq, hgood, hout⟩ := h.runLoop hall
    obtain rfl : w' = w'' := some.inj (hstep.symm.trans ((if_pos hall).trans heq))
    exact hsame zs hgood (hout.resolve_left hdone)
  · exact absurd ⟨f, stack_subset_of_step hret hstep hf, hin⟩ hdone

/-- **The timers, whatever is called from wherever.** No assertion fails. The queue is sorted and
holds every active timer once whose expiry is not being executed; when `timer_run` returns none is
due. A timer that is deleted in its callback is destroyed once when it returns. -/
theorem timers_kept (now : ℤ) (cs : List (Call ι))
    (hcs : Permitted step Allowed (World.init now) cs) :
    ∃ w, run step (World.init now) cs = some w ∧
      (∃ xs, Linked w.queue xs ∧ xs.Nodup ∧
        (xs.Pairwise fun a b => (w.timer a).expire ≤ (w.timer b).expire) ∧
        ∀ t, t ∈ xs ↔ (w.timer t).flags.active = true ∧ Frame.expiring t ∉ w.stack) ∧
      (∀ c w' ys, step w c = some w' → c = .run ∨ w.Running → ¬ w'.Running →
        Linked w'.queue ys → ∀ t ∈ ys, w'.now < (w'.timer t).expire) ∧
      ∀ t w₁ ds w₂, Frame.expiring t ∈ w.stack → step w (.del t) = some w₁ →
        (∀ d ∈ ds, ¬ d.Rearms t) → run step w₁ ds = some w₂ →
        (Frame.expiring t ∈ w₂.stack ∧ destroys w₂ t = destroys w t) ∨
          (Frame.expiring t ∉ w₂.stack ∧ destroys w₂ t = destroys w t + 1 ∧
            (w₂.timer t).flags.active = false ∧ ∀ ys, Linked w₂.queue ys → t ∉ ys) := by
  obtain ⟨w, hrun, xs, hgood⟩ := run_safe (fun w => ∃ xs, Good w xs)
    (fun w c ⟨xs, h⟩ hall => by
      obtain ⟨w', ys, heq, hgood⟩ := h.step hall
      exact ⟨w', heq, ys, hgood⟩) ⟨[], Good.init now⟩ hcs
  refine ⟨w, hrun, ⟨xs, hgood.queue.linked, hgood.queue.linked.nodup, hgood.queue.sorted, ?_⟩,
    fun c w' ys hstep hcall hdone hys => hgood.timers_done hstep hcall hdone hys, ?_⟩
  · intro t
    rw [hgood.mem, ← hgood.marked, Bool.not_eq_true]
  intro t w₁ ds w₂ hframe hdel hds hrest
  obtain ⟨ys, hgood1⟩ := hgood.step_eq hdel
  obtain ⟨⟨zs, hgood2⟩, hend⟩ := run_keeps
    (fun w' => (∃ xs, Good w' xs) ∧ Ending t (destroys w t) w')
    (fun d hd w₁ w₂ ⟨⟨xs, h⟩, hend⟩ hstep => ⟨h.step_eq hstep, h.ending_step hend (hds d hd) hstep⟩)
    ⟨⟨ys, hgood1⟩, hgood.ending_del hframe hdel⟩ hrest
  rcases hend with ⟨hin, -, hcount⟩ | ⟨hactive, hcount⟩
  · exact .inl ⟨hin, hcount⟩
  have hout : t ∉ zs := by
    rw [hgood2.mem, hactive]
    simp
  refine .inr ⟨fun hin => ?_, hcount, hactive, fun us hus => ?_⟩
  · have := hgood2.active t ((hgood2.marked t).mpr hin)
    rw [hactive] at this
    cases this
  · rwa [hgood2.queue.linked.unique hus] at hout

/-- A timer expires and deletes itself in its callback. -/
theorem timers_kept_own_callback :
    Permitted step Allowed (World.init (ι := ℕ) 0)
        [.add 1 .relative 5, .tick 5, .run, .del 1, .ret] ∧
      ∃ w, run step (World.init (ι := ℕ) 0) [.add 1 .relative 5, .tick 5, .run, .del 1, .ret] =
        some w ∧ ∃ xs, Linked w.queue xs ∧ xs.Nodup := by
  have hperm : Permitted step Allowed (World.init (ι := ℕ) 0)
      [.add 1 .relative 5, .tick 5, .run, .del 1, .ret] := by
    refine .cons (.inr rfl) rfl (.cons trivial rfl (.cons rfl rfl (.cons rfl rfl
      (.cons ?_ rfl trivial))))
    exact List.cons_ne_nil _ _
  obtain ⟨w, hrun, ⟨xs, hlinked, hnodup, -⟩, -⟩ := timers_kept 0 _ hperm
  exact ⟨hperm, w, hrun, xs, hlinked, hnodup⟩

end Ircu.Events
