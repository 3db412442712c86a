import Mathlib.Data.List.TakeWhile
import Ircu.Events.Timer

/-!
What holds of the timer queue, whatever is called from wherever.

* `Good.add`, `Good.del`, `Good.chg`, `Good.runLoop`, `Good.ret`: no assertion fails, and the
  invariant is kept.
-/

namespace Ircu.Events

open Link Run List List.Pairwise

variable {ι : Type*} [DecidableEq ι] {w w' : World ι} {s t : ι} {xs ys : List ι}

/-! ### Changing a timer -/

section Update

variable (w : World ι) (t s : ι) (f : Timer → Timer) (g : Flags → Flags)

@[simp] lemma update_queue : (w.update t f).queue = w.queue := rfl

@[simp] lemma update_stack : (w.update t f).stack = w.stack := rfl

@[simp] lemma update_log : (w.update t f).log = w.log := rfl

@[simp] lemma update_now : (w.update t f).now = w.now := rfl

@[simp] lemma update_queued : (w.update t f).queued = w.queued := rfl

@[simp] lemma update_timer :
    (w.update t f).timer s = if s = t then f (w.timer s) else w.timer s := rfl

@[simp] lemma setFlags_queue : (w.setFlags t g).queue = w.queue := rfl

@[simp] lemma setFlags_stack : (w.setFlags t g).stack = w.stack := rfl

@[simp] lemma setFlags_log : (w.setFlags t g).log = w.log := rfl

@[simp] lemma setFlags_now : (w.setFlags t g).now = w.now := rfl

@[simp] lemma setFlags_queued : (w.setFlags t g).queued = w.queued := rfl

@[simp] lemma setFlags_flags : ((w.setFlags t g).timer s).flags =
    if s = t then g (w.timer s).flags else (w.timer s).flags := by
  rw [World.setFlags, update_timer]
  split_ifs <;> rfl

@[simp] lemma setFlags_expire : ((w.setFlags t g).timer s).expire = (w.timer s).expire := by
  rw [World.setFlags, update_timer]
  split_ifs <;> rfl

@[simp] lemma setFlags_type : ((w.setFlags t g).timer s).type = (w.timer s).type := by
  rw [World.setFlags, update_timer]
  split_ifs <;> rfl

@[simp] lemma genDequeue_timer : (genDequeue w t).timer = w.timer := rfl

@[simp] lemma genDequeue_stack : (genDequeue w t).stack = w.stack := rfl

@[simp] lemma genDequeue_log : (genDequeue w t).log = w.log := rfl

end Update

/-! ### The queue -/

structure Queue (w : World ι) (xs : List ι) : Prop where
  linked : Linked w.queue xs
  sorted : xs.Pairwise fun a b => (w.timer a).expire ≤ (w.timer b).expire
  size : xs.length ≤ w.queued

namespace Queue

lemma of_expire (h : Queue w xs) (hlinked : Linked w'.queue xs) (hsize : w.queued ≤ w'.queued)
    (hexp : ∀ s ∈ xs, (w'.timer s).expire = (w.timer s).expire) : Queue w' xs where
  linked := hlinked
  sorted := h.sorted.imp_of_mem fun ha hb hab => by rwa [hexp _ ha, hexp _ hb]
  size := h.size.trans hsize

lemma update (h : Queue w xs) (ht : t ∉ xs) (f) : Queue (w.update t f) xs := by
  refine h.of_expire h.linked le_rfl fun s hs => ?_
  have hst : s ≠ t := by
    rintro rfl
    exact ht hs
  rw [update_timer, if_neg hst]

lemma setFlags (h : Queue w xs) (t g) : Queue (w.setFlags t g) xs :=
  h.of_expire h.linked le_rfl fun s _ => setFlags_expire w t s g

lemma genDequeue (h : Queue w xs) (t) : Queue (genDequeue w t) (xs.erase t) where
  linked := h.linked.unlink t
  sorted := h.sorted.sublist erase_sublist
  size := (length_erase_le ..).trans h.size

end Queue

lemma findPlace_spec {L expire e fuel} (as bs : List ι)
    (h : Linked L (as ++ bs)) (hfuel : bs.length < fuel) :
    findPlace L expire e fuel (endPlace none as) =
      some (endPlace none (as ++ bs.takeWhile fun s => expire s ≤ e)) := by
  induction bs generalizing as fuel with
  | nil =>
    obtain ⟨fuel, rfl⟩ : ∃ f, fuel = f + 1 := ⟨fuel - 1, by omega⟩
    rw [findPlace, read_endPlace h]
    simp
  | cons b bs ih =>
    obtain ⟨fuel, rfl⟩ : ∃ f, fuel = f + 1 := ⟨fuel - 1, by omega⟩
    rw [findPlace, read_endPlace h, List.head?_cons]
    dsimp only
    by_cases hb : e < expire b
    · rw [if_pos hb, takeWhile_cons, if_neg (by simpa using hb), append_nil]
    have hnext := ih (as ++ [b]) (by simpa using h) (Nat.lt_of_succ_lt_succ hfuel)
    rw [endPlace_append_singleton] at hnext
    rw [if_neg hb, hnext, takeWhile_cons, if_pos (by simpa using hb), append_assoc,
      singleton_append]

/-- What `timer_enqueue` leaves behind it. -/
structure Enqueued (w w' : World ι) (t : ι) (xs ys : List ι) : Prop where
  queue : Queue w' ys
  mem : ∀ s, s ∈ ys ↔ s = t ∨ s ∈ xs
  flags : ∀ s, (w'.timer s).flags = (w.timer s).flags
  stack : w'.stack = w.stack
  log : w'.log = w.log
  now : w'.now = w.now

/-- **A timer is put in its place**, behind all that expire no later. -/
lemma timerEnqueue_spec (h : Queue w xs) (ht : t ∉ xs) (hactive : (w.timer t).flags.active = true) :
    ∃ w' ys, timerEnqueue w t = some w' ∧ Enqueued w w' t xs ys := by
  obtain ⟨e, he⟩ : ∃ e, expiry w.now (w.timer t) = e := ⟨_, rfl⟩
  obtain ⟨w1, hw1⟩ : ∃ w1, w.update t (fun tm => { tm with expire := e }) = w1 := ⟨_, rfl⟩
  have h1 : Queue w1 xs := hw1 ▸ h.update ht _
  have hexp : (w1.timer t).expire = e := by rw [← hw1, update_timer, if_pos rfl]
  obtain ⟨le, hle⟩ : ∃ le, (fun s => decide ((w1.timer s).expire ≤ e)) = le := ⟨_, rfl⟩
  have hplace : findPlace w1.queue (fun s => (w1.timer s).expire) e (w1.queued + 1) none =
      some (endPlace none (xs.takeWhile le)) := by
    rw [← hle]
    exact findPlace_spec [] xs h1.linked (Nat.lt_succ_of_le h1.size)
  have hsplit : xs.takeWhile le ++ xs.dropWhile le = xs := takeWhile_append_dropWhile
  have hlinked : Linked (w1.queue.insertAt (endPlace none (xs.takeWhile le)) t)
      (xs.takeWhile le ++ t :: xs.dropWhile le) :=
    Linked.insertAt (by rw [hsplit]; exact h1.linked) (by rwa [hsplit])
  refine ⟨{ w1 with
      queue := w1.queue.insertAt (endPlace none (xs.takeWhile le)) t
      queued := w1.queued + 1 }, xs.takeWhile le ++ t :: xs.dropWhile le, ?_, ?_⟩
  · rw [timerEnqueue, if_neg (by simp [h.linked.prev_eq_none.mpr ht, hactive])]
    dsimp only
    rw [he, hw1, hplace]
  have hsorted := h1.sorted
  rw [← hsplit, pairwise_append] at hsorted
  have hbelow : ∀ a ∈ xs.takeWhile le, (w1.timer a).expire ≤ e := by
    intro a ha
    have := mem_takeWhile_imp ha
    simpa [← hle] using this
  have habove : ∀ b ∈ xs.dropWhile le, e ≤ (w1.timer b).expire := by
    intro b hb
    have hfirst := List.head?_dropWhile_not le xs
    have hrest := hsorted.2.1
    cases hd : xs.dropWhile le with
    | nil =>
      rw [hd] at hb
      cases hb
    | cons c cs =>
      rw [hd] at hfirst
      rw [hd] at hb hrest
      have hc : e < (w1.timer c).expire := by simpa [← hle] using hfirst
      rcases mem_cons.mp hb with rfl | hb
      · exact hc.le
      · exact hc.le.trans (rel_of_pairwise_cons hrest hb)
  refine ⟨⟨hlinked, ?_, ?_⟩, ?_, ?_, ?_, ?_, ?_⟩
  · rw [pairwise_append, pairwise_cons]
    refine ⟨hsorted.1, ⟨fun b hb => by simpa [hexp] using habove b hb, hsorted.2.1⟩, ?_⟩
    intro a ha b hb
    rcases mem_cons.mp hb with rfl | hb
    · simpa [hexp] using hbelow a ha
    · exact hsorted.2.2 a ha b hb
  · have hlen := h1.size
    rw [← hsplit, length_append] at hlen
    simp only [length_append, length_cons]
    omega
  · intro s
    rw [mem_append, mem_cons, or_left_comm, ← mem_append, hsplit]
  · intro s
    rw [← hw1]
    simp only [update_timer]
    split_ifs <;> rfl
  · rw [← hw1, update_stack]
  · rw [← hw1, update_log]
  · rw [← hw1, update_now]

/-! ### The invariant -/

/-- **The invariant.** A timer is on the queue exactly if it is active and not marked; it is
marked exactly while its expiry is being executed, and only then it may be waiting to be put
back. Below a callback of `timer_run` there is no other one. -/
structure Good (w : World ι) (xs : List ι) : Prop where
  queue : Queue w xs
  mem : ∀ t, t ∈ xs ↔ (w.timer t).flags.active = true ∧ (w.timer t).flags.marked = false
  marked : ∀ t, (w.timer t).flags.marked = true ↔ Frame.expiring t ∈ w.stack
  active : ∀ t, (w.timer t).flags.marked = true → (w.timer t).flags.active = true
  readd : ∀ t, (w.timer t).flags.readd = true → (w.timer t).flags.marked = true
  stack : w.stack.Pairwise fun f _ => f.inRun = false

lemma Good.init (now : ℤ) : Good (World.init now : World ι) [] := by
  refine ⟨⟨Linked.empty, nil, le_rfl⟩, ?_, ?_, ?_, ?_, nil⟩ <;>
    simp [World.init]

lemma Good.tick (h : Good w xs) (now : ℤ) : Good { w with now } xs :=
  ⟨h.queue.of_expire h.queue.linked le_rfl fun _ _ => rfl, h.mem, h.marked, h.active, h.readd,
    h.stack⟩

lemma Good.of_flags (h : Good w xs) (hq : Queue w' ys)
    (hother : ∀ s, s ≠ t → (w'.timer s).flags = (w.timer s).flags ∧ (s ∈ ys ↔ s ∈ xs) ∧
      (Frame.expiring s ∈ w'.stack ↔ Frame.expiring s ∈ w.stack))
    (hmark : (w'.timer t).flags.marked = true ↔ Frame.expiring t ∈ w'.stack)
    (hmem : t ∈ ys ↔ (w'.timer t).flags.active = true ∧ (w'.timer t).flags.marked = false)
    (hactive : (w'.timer t).flags.marked = true → (w'.timer t).flags.active = true)
    (hreadd : (w'.timer t).flags.readd = true → (w'.timer t).flags.marked = true)
    (hstack : w'.stack.Pairwise fun f _ => f.inRun = false) : Good w' ys := by
  refine ⟨hq, fun s => ?_, fun s => ?_, fun s => ?_, fun s => ?_, hstack⟩ <;>
    by_cases hs : s = t
  · rw [hs]
    exact hmem
  · rw [(hother s hs).1, (hother s hs).2.1]
    exact h.mem s
  · rw [hs]
    exact hmark
  · rw [(hother s hs).1, (hother s hs).2.2]
    exact h.marked s
  · rw [hs]
    exact hactive
  · rw [(hother s hs).1]
    exact h.active s
  · rw [hs]
    exact hreadd
  · rw [(hother s hs).1]
    exact h.readd s

lemma Good.notMem_of_marked (h : Good w xs) (ht : (w.timer t).flags.marked = true) : t ∉ xs := by
  rw [h.mem, ht]
  simp

lemma Good.readd_of_unmarked (h : Good w xs) (ht : (w.timer t).flags.marked = false) :
    (w.timer t).flags.readd = false := by
  by_contra hr
  rw [Bool.not_eq_false] at hr
  have := h.readd t hr
  rw [ht] at this
  cases this

lemma Good.add (h : Good w xs) (type : TimerType) (value : ℤ)
    (hall : (w.timer t).flags.marked = true ∨ w.queue.prev t = none) :
    ∃ w' ys, timerAdd w t type value = some w' ∧ Good w' ys := by
  have ht : t ∉ xs := by
    rcases hall with hm | hp
    · exact h.notMem_of_marked hm
    · exact h.queue.linked.prev_eq_none.mp hp
  obtain ⟨w1, hw1⟩ : ∃ w1, w.update t (fun tm =>
      { flags := { tm.flags with active := true, readd := tm.flags.readd || tm.flags.marked }
        type := type, value := value, expire := 0 }) = w1 := ⟨_, rfl⟩
  have hq1 : Queue w1 xs := hw1 ▸ h.queue.update ht _
  have hstack : w1.stack = w.stack := by rw [← hw1, update_stack]
  have hother : ∀ s, s ≠ t → w1.timer s = w.timer s := by
    intro s hs
    rw [← hw1, update_timer, if_neg hs]
  have hflags : (w1.timer t).flags = { (w.timer t).flags with
      active := true, readd := (w.timer t).flags.readd || (w.timer t).flags.marked } := by
    rw [← hw1, update_timer, if_pos rfl]
  rw [timerAdd]
  rw [hw1, hflags]
  cases hm : (w.timer t).flags.marked with
  | true =>
    refine ⟨w1, xs, if_pos rfl, h.of_flags hq1
      (fun s hs => ⟨by rw [hother s hs], Iff.rfl, by rw [hstack]⟩) ?_ ?_ ?_ ?_
      (hstack ▸ h.stack)⟩ <;>
      simp [hflags, hm, ht, hstack, (h.marked t).mp hm]
  | false =>
    obtain ⟨w', ys, heq, henq⟩ := timerEnqueue_spec hq1 ht (by rw [hflags])
    have hstack' := henq.stack.trans hstack
    have hframe : Frame.expiring t ∉ w.stack := by
      rw [← h.marked t, hm]
      simp
    refine ⟨w', ys, by rw [if_neg (by simp), heq], h.of_flags henq.queue
      (fun s hs => ⟨by rw [henq.flags, hother s hs], by rw [henq.mem]; simp [hs], by rw [hstack']⟩)
      ?_ ?_ ?_ ?_ (hstack' ▸ h.stack)⟩ <;>
      simp [henq.flags, hflags, hm, henq.mem, h.readd_of_unmarked hm, hstack', hframe]

lemma Good.chg (h : Good w xs) {type value}
    (hactive : (w.timer t).flags.active = true) (hvalue : value ≠ 0)
    (hold : (w.timer t).type ≠ .periodic) (hnew : type ≠ .periodic) :
    ∃ w' ys, timerChg w t type value = some w' ∧ Good w' ys := by
  obtain ⟨w1, hw1⟩ : ∃ w1, w.update t (fun tm =>
      { tm with type := type, value := value, expire := 0 }) = w1 := ⟨_, rfl⟩
  have hflags : ∀ s, (w1.timer s).flags = (w.timer s).flags := by
    intro s
    rw [← hw1, update_timer]
    split_ifs <;> rfl
  have hstack : w1.stack = w.stack := by rw [← hw1, update_stack]
  rw [timerChg, if_neg (by simp [hvalue, hold, hnew])]
  dsimp only
  rw [hw1, hflags]
  cases hm : (w.timer t).flags.marked with
  | true =>
    have ht := h.notMem_of_marked hm
    have hq1 : Queue w1 xs := hw1 ▸ h.queue.update ht _
    refine ⟨_, xs, if_pos rfl, h.of_flags (hq1.setFlags t _)
      (fun s hs => ⟨by rw [setFlags_flags, if_neg hs, hflags], Iff.rfl, by simp [hstack]⟩)
      ?_ ?_ ?_ ?_ (by rw [setFlags_stack, hstack]; exact h.stack)⟩ <;>
      simp [hflags, hm, ht, hactive, hstack, (h.marked t).mp hm]
  | false =>
    have hout : t ∉ xs.erase t := h.queue.linked.nodup.not_mem_erase
    have hq1 : Queue (genDequeue w1 t) (xs.erase t) := by
      rw [← hw1]
      exact (h.queue.genDequeue t).update hout fun tm =>
        { tm with type := type, value := value, expire := 0 }
    obtain ⟨w', ys, heq, henq⟩ := timerEnqueue_spec hq1 hout
      (by change (w1.timer t).flags.active = true; rw [hflags, hactive])
    have hflags' : ∀ s, (w'.timer s).flags = (w.timer s).flags := by
      intro s
      rw [henq.flags]
      exact hflags s
    have hstack' : w'.stack = w.stack := henq.stack.trans hstack
    have hframe : Frame.expiring t ∉ w.stack := by
      rw [← h.marked t, hm]
      simp
    refine ⟨w', ys, by rw [if_neg (by simp), heq], h.of_flags henq.queue
      (fun s hs => ⟨hflags' s, by rw [henq.mem, mem_erase_of_ne hs]; simp [hs],
        by rw [hstack']⟩) ?_ ?_ ?_ ?_ (hstack' ▸ h.stack)⟩ <;>
      simp [hflags', hm, henq.mem, hactive, h.readd_of_unmarked hm, hstack', hframe]

/-! ### Events and callbacks -/

lemma eventGenerate_inv {type} {frame : Frame ι} (h : eventGenerate w type t frame = some w') :
    (w.timer t).flags.active = true ∧ w'.queue = w.queue ∧ w'.queued = w.queued ∧
      w'.now = w.now ∧ w'.log = (type, t) :: w.log ∧ w'.stack = frame :: w.stack ∧
      (∀ s, (w'.timer s).expire = (w.timer s).expire) ∧
      (∀ s, s ≠ t → (w'.timer s).flags = (w.timer s).flags) ∧
      (w'.timer t).flags = { (w.timer t).flags with active := type = .expire } := by
  unfold eventGenerate at h
  split_ifs at h with hactive
  rw [Bool.not_eq_false] at hactive
  obtain rfl := (Option.some.inj h).symm
  cases type with
  | expire =>
    refine ⟨hactive, rfl, rfl, rfl, rfl, rfl, fun _ => rfl, fun _ _ => rfl, ?_⟩
    simp [← hactive]
  | destroy =>
    refine ⟨hactive, rfl, rfl, rfl, rfl, rfl, fun s => by simp, fun s hs => by simp [hs], ?_⟩
    simp

lemma eventGenerate_isSome (type : EventType) (frame)
    (hactive : (w.timer t).flags.active = true) : ∃ w', eventGenerate w type t frame = some w' := by
  unfold eventGenerate
  rw [if_neg (by simp [hactive])]
  exact ⟨_, rfl⟩

lemma Good.del (h : Good w xs) (hactive : (w.timer t).flags.active = true) :
    ∃ w' ys, timerDel w t = some w' ∧ Good w' ys := by
  obtain ⟨w1, hw1⟩ : ∃ w1, w.setFlags t (fun f => { f with readd := false }) = w1 := ⟨_, rfl⟩
  have hq1 : Queue w1 xs := hw1 ▸ h.queue.setFlags t _
  have hstack : w1.stack = w.stack := by rw [← hw1, setFlags_stack]
  have hother : ∀ s, s ≠ t → (w1.timer s).flags = (w.timer s).flags := by
    intro s hs
    rw [← hw1, setFlags_flags, if_neg hs]
  have hflags : (w1.timer t).flags = { (w.timer t).flags with readd := false } := by
    rw [← hw1, setFlags_flags, if_pos rfl]
  rw [timerDel, hw1, hflags]
  cases hm : (w.timer t).flags.marked with
  | true =>
    refine ⟨w1, xs, if_pos rfl, h.of_flags hq1
      (fun s hs => ⟨hother s hs, Iff.rfl, by rw [hstack]⟩) ?_ ?_ ?_ ?_ (hstack ▸ h.stack)⟩ <;>
      simp [hflags, hm, hactive, h.notMem_of_marked hm, hstack, (h.marked t).mp hm]
  | false =>
    have hact1 : ((genDequeue w1 t).timer t).flags.active = true := by
      change (w1.timer t).flags.active = true
      rw [hflags, hactive]
    obtain ⟨w', heq⟩ := eventGenerate_isSome .destroy (.destroying t false) hact1
    obtain ⟨-, hqueue, hqueued, -, -, hpush, hexp, hflag, hself⟩ := eventGenerate_inv heq
    have hout : t ∉ xs.erase t := h.queue.linked.nodup.not_mem_erase
    have hstack' : w'.stack = .destroying t false :: w.stack := hpush.trans (by rw [← hstack]; rfl)
    have hframe : Frame.expiring t ∉ w.stack := by
      rw [← h.marked t, hm]
      simp
    have hself' : (w'.timer t).flags = ⟨false, false, false⟩ := by
      simp [hself, hflags, hm]
    have hq' : Queue w' (xs.erase t) :=
      (hq1.genDequeue t).of_expire (hqueue ▸ (hq1.genDequeue t).linked) hqueued.ge
        fun s _ => hexp s
    refine ⟨w', xs.erase t, by rw [if_neg (by simp), heq], h.of_flags hq'
      (fun s hs => ⟨(hflag s hs).trans (hother s hs), mem_erase_of_ne hs, by simp [hstack']⟩)
      ?_ ?_ ?_ ?_ ?_⟩
    · simp [hself', hstack', hframe]
    · simp [hself', hout]
    · simp [hself']
    · simp [hself']
    · rw [hstack', pairwise_cons]
      exact ⟨fun _ _ => rfl, h.stack⟩

def NoneDue (w : World ι) (xs : List ι) : Prop := ∀ s ∈ xs, w.now < (w.timer s).expire

lemma Good.runLoop (h : Good w xs) (hs : w.stack = []) :
    ∃ w' ys, runLoop w = some w' ∧ Good w' ys ∧ (w'.Running ∨ NoneDue w' ys) := by
  rw [Events.runLoop, h.queue.linked.head]
  cases xs with
  | nil => exact ⟨w, [], rfl, h, .inr fun s hs => by cases hs⟩
  | cons t xs =>
    rw [List.head?_cons]
    dsimp only
    by_cases hdue : w.now < (w.timer t).expire
    · refine ⟨w, t :: xs, if_pos hdue, h, .inr fun s hs => ?_⟩
      rcases mem_cons.mp hs with rfl | hs
      · exact hdue
      · exact hdue.trans_le (rel_of_pairwise_cons h.queue.sorted hs)
    obtain ⟨hactive, hm⟩ := (h.mem t).mp mem_cons_self
    have hnotMem : t ∉ xs := (nodup_cons.mp h.queue.linked.nodup).1
    obtain ⟨w1, hw1⟩ : ∃ w1, (genDequeue w t).setFlags t (fun f => { f with
        marked := true
        readd := f.readd || decide ((w.timer t).type = .periodic) }) = w1 := ⟨_, rfl⟩
    have hq1 : Queue w1 xs := by
      have := (h.queue.genDequeue t).setFlags t (fun f => { f with
        marked := true
        readd := f.readd || decide ((w.timer t).type = .periodic) })
      rwa [hw1, erase_cons_head] at this
    have hflags : ∀ s, (w1.timer s).flags = if s = t then { (w.timer s).flags with
        marked := true
        readd := (w.timer s).flags.readd || decide ((w.timer t).type = .periodic) }
        else (w.timer s).flags := by
      intro s
      rw [← hw1, setFlags_flags]
      rfl
    obtain ⟨w', heq⟩ := eventGenerate_isSome (w := w1) (t := t) .expire (.expiring t)
      (by simp [hflags, hactive])
    obtain ⟨-, hqueue, hqueued, -, -, hpush, hexp, hflag, hself⟩ := eventGenerate_inv heq
    have hstack : w'.stack = [.expiring t] := by
      rw [hpush, ← hw1]
      change _ :: w.stack = _
      rw [hs]
    have hq' : Queue w' xs := hq1.of_expire (hqueue ▸ hq1.linked) hqueued.ge fun s _ => hexp s
    refine ⟨w', xs, by rw [if_neg hdue, hw1, heq], h.of_flags hq'
      (fun s hne => ⟨by rw [hflag s hne, hflags, if_neg hne], by simp [hne],
        by simp [hstack, hs, hne]⟩) ?_ ?_ ?_ ?_ ?_, .inl ⟨.expiring t, by simp [hstack], rfl⟩⟩
    · simp [hself, hflags, hstack]
    · simp [hself, hflags, hnotMem]
    · simp [hself]
    · simp [hself, hflags]
    · simp [hstack]

lemma Good.bottom (h : Good w xs) {f stack} (hs : w.stack = f :: stack)
    (hf : f.inRun = true) : stack = [] := by
  have hpair := h.stack
  rw [hs, pairwise_cons] at hpair
  cases stack with
  | nil => rfl
  | cons g stack =>
    have := hpair.1 g mem_cons_self
    rw [hf] at this
    cases this

lemma Good.pop (h : Good w xs) {b stack}
    (hs : w.stack = .destroying t b :: stack) : Good { w with stack } xs := by
  have hpair := h.stack
  rw [hs, pairwise_cons] at hpair
  refine ⟨h.queue.of_expire h.queue.linked le_rfl fun _ _ => rfl, h.mem, fun s => ?_, h.active,
    h.readd, hpair.2⟩
  have := h.marked s
  rw [hs] at this
  simpa using this

lemma Good.ret (h : Good w xs) (hne : w.stack ≠ []) : ∃ w' ys, returns w = some w' ∧ Good w' ys ∧
      (w.Running → w'.Running ∨ NoneDue w' ys) := by
  rw [returns]
  match hs : w.stack with
  | [] => exact absurd hs hne
  | .destroying t false :: stack =>
    refine ⟨_, xs, rfl, h.pop hs, ?_⟩
    rintro ⟨f, hf, hrun⟩
    rw [hs] at hf
    rcases mem_cons.mp hf with rfl | hf
    · cases hrun
    · exact .inl ⟨f, hf, hrun⟩
  | .destroying t true :: stack =>
    obtain ⟨w', ys, heq, hgood, hdone⟩ := (h.pop hs).runLoop (h.bottom hs rfl)
    exact ⟨w', ys, heq, hgood, fun _ => hdone⟩
  | .expiring t :: stack =>
    obtain rfl : stack = [] := h.bottom hs rfl
    have hm : (w.timer t).flags.marked = true := (h.marked t).mpr (by simp [hs])
    have hactive := h.active t hm
    have ht := h.notMem_of_marked hm
    obtain ⟨w1, hw1⟩ : ∃ w1, World.setFlags { w with stack := [] } t
        (fun f => { f with marked := false }) = w1 := ⟨_, rfl⟩
    have hq1 : Queue w1 xs := by
      rw [← hw1]
      have hpop : Queue { w with stack := [] } xs :=
        h.queue.of_expire h.queue.linked le_rfl fun _ _ => rfl
      exact hpop.setFlags t _
    have hstack : w1.stack = [] := by rw [← hw1, setFlags_stack]
    have hflags : ∀ s, (w1.timer s).flags =
        if s = t then { (w.timer s).flags with marked := false } else (w.timer s).flags := by
      intro s
      rw [← hw1, setFlags_flags]
    dsimp only
    rw [hw1, hflags, if_pos rfl]
    cases hr : (w.timer t).flags.readd with
    | false =>
      obtain ⟨w', heq⟩ := eventGenerate_isSome (w := w1) (t := t) .destroy
        (.destroying t true) (by simp [hflags, hactive])
      obtain ⟨-, hqueue, hqueued, -, -, hpush, hexp, hflag, hself⟩ := eventGenerate_inv heq
      rw [hstack] at hpush
      have hq' : Queue w' xs := hq1.of_expire (hqueue ▸ hq1.linked) hqueued.ge fun s _ => hexp s
      refine ⟨w', xs, by rw [if_pos rfl, heq], h.of_flags hq'
        (fun s hne => ⟨by rw [hflag s hne, hflags, if_neg hne], Iff.rfl, by simp [hpush, hs, hne]⟩)
        ?_ ?_ ?_ ?_ ?_, fun _ => .inl ⟨.destroying t true, by simp [hpush], rfl⟩⟩
      · simp [hself, hflags, hpush]
      · simp [hself, ht]
      · simp [hself, hflags]
      · simp [hself, hflags, hr]
      · simp [hpush]
    | true =>
      obtain ⟨w2, ys, heq, henq⟩ := timerEnqueue_spec hq1 ht (by simp [hflags, hactive])
      have hstack2 : w2.stack = [] := henq.stack.trans hstack
      have hgood : Good (w2.setFlags t fun f => { f with readd := false }) ys := by
        refine h.of_flags (t := t) (henq.queue.setFlags t _)
          (fun s hne => ⟨by simp [henq.flags, hflags, hne], by simp [henq.mem, hne],
            by simp [hstack2, hs, hne]⟩) ?_ ?_ ?_ ?_ ?_ <;>
          simp [henq.flags, hflags, henq.mem, hactive, hstack2]
      obtain ⟨w', zs, hloop, hgood', hdone⟩ := hgood.runLoop (by simp [hstack2])
      refine ⟨w', zs, ?_, hgood', fun _ => hdone⟩
      rw [if_neg (by simp), heq, Option.bind_some, hloop]

end Ircu.Events
