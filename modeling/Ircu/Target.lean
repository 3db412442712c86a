import Ircu.Chattr

/-!
The limit on new targets of `s_user.c`.

A user may send to a few targets at once, and to a new one every `TARGET_DELAY` seconds. The bytes
`con_targets` are hashes of the last targets, and `con_nexttarget` is the time from which a target
that is not among them is let through. It moves on by the delay with every new target and by two
seconds when the user is told to wait; what was not used in the meantime is kept for `MAXTARGETS`
targets.
-/

namespace Ircu.Target

def MAXTARGETS : ℕ := 20

def TARGET_DELAY : ℕ := 128

/-- `con_targets` and `con_nexttarget`. -/
structure Recent where
  targets : List UInt8
  nexttarget : ℤ

def hashTarget (target : UInt64) : UInt8 := (target >>> 16).toUInt8 ^^^ (target >>> 8).toUInt8

/-- `check_target_limit`, and whether it returns zero. The target may be a channel that the user
is invited to. -/
def checkTargetLimit (c : Recent) (target : UInt64) (invited : Bool) (now : ℤ) : Recent × Bool :=
  let hash := hashTarget target
  if hash ∈ c.targets then ({ c with targets := hash :: c.targets.erase hash }, true)
  else if now < c.nexttarget then
    if invited then (c, true)
    else if c.nexttarget - now < TARGET_DELAY + 8 then
      ({ c with nexttarget := c.nexttarget + 2 }, false)
    else (c, false)
  else
    ({ targets := hash :: c.targets.dropLast
       nexttarget := max (c.nexttarget + TARGET_DELAY) (now - TARGET_DELAY * (MAXTARGETS - 1)) },
      true)

/-- A call of `check_target_limit`, for a target that the user is not invited to. -/
structure Call where
  target : UInt64
  now : ℤ

/-- The table behind a call. -/
def Recent.after (c : Recent) (call : Call) : Recent :=
  (checkTargetLimit c call.target false call.now).1

/-- A target that is not in the table is let through. -/
def admitsNew (c : Recent) (call : Call) : Bool :=
  hashTarget call.target ∉ c.targets && (checkTargetLimit c call.target false call.now).2

/-- The calls of a run that let a new target through at a time of the kind `p`. -/
def admissions (p : ℤ → Bool) : Recent → List Call → ℕ
  | _, [] => 0
  | c, call :: calls =>
    (if admitsNew c call && p call.now then 1 else 0) + admissions p (c.after call) calls

variable {c : Recent} {call : Call}

lemma nexttarget_mono : c.nexttarget ≤ (c.after call).nexttarget := by
  simp only [Recent.after, checkTargetLimit, Bool.false_eq_true, if_false]
  split_ifs
  · exact le_rfl
  · exact le_add_of_nonneg_right (by decide)
  · exact le_rfl
  · exact le_max_of_le_left (le_add_of_nonneg_right (by decide))

lemma of_admitsNew (h : admitsNew c call = true) : c.nexttarget ≤ call.now ∧
    c.nexttarget + TARGET_DELAY ≤ (c.after call).nexttarget ∧
    call.now - TARGET_DELAY * (MAXTARGETS - 1) ≤ (c.after call).nexttarget := by
  rw [admitsNew, Bool.and_eq_true, decide_eq_true_eq] at h
  obtain ⟨hnew, hzero⟩ := h
  simp only [Recent.after, checkTargetLimit, if_neg hnew, Bool.false_eq_true, if_false] at hzero ⊢
  split_ifs at hzero ⊢ with hnow
  exact ⟨not_lt.mp hnow, le_max_left _ _, le_max_right _ _⟩

lemma admissions_until (p calls) {t} (hp : ∀ now, p now → now ≤ t)
    (hpos : admissions p c calls ≠ 0) :
    admissions p c calls * (TARGET_DELAY : ℤ) ≤ t - c.nexttarget + TARGET_DELAY := by
  induction calls generalizing c with
  | nil => exact absurd rfl hpos
  | cons call calls ih =>
    obtain ⟨n, hn⟩ : ∃ n, admissions p (c.after call) calls = n := ⟨_, rfl⟩
    have hmono := @nexttarget_mono c call
    replace ih := hn ▸ @ih (c.after call)
    rw [admissions, hn] at hpos ⊢
    rw [TARGET_DELAY] at *
    split_ifs at hpos ⊢ with hadm
    · rw [Bool.and_eq_true] at hadm
      obtain ⟨hready, hdelay, -⟩ := of_admitsNew hadm.1
      have hle := hp _ hadm.2
      rw [TARGET_DELAY] at hdelay
      rcases Nat.eq_zero_or_pos n with rfl | hn
      · push_cast
        omega
      · have := ih (by omega)
        push_cast at this ⊢
        omega
    · have := ih (by omega)
      push_cast at this ⊢
      omega

/-- **The number of new targets** that are let through in a window of time is bounded, whatever
targets the calls are for and in whatever way they are spread, from any state. -/
theorem admissions_window (c : Recent) (calls : List Call) (t : ℤ) (T : ℕ) :
    admissions (fun now => t ≤ now && now ≤ t + T) c calls ≤
      MAXTARGETS + 1 + T / TARGET_DELAY := by
  induction calls generalizing c with
  | nil => exact Nat.zero_le _
  | cons call calls ih =>
    rw [admissions]
    split_ifs with hadm
    · -- the first one in the window: the time that was saved up is bounded behind it
      simp only [Bool.and_eq_true, decide_eq_true_eq] at hadm
      obtain ⟨-, -, hfloor⟩ := of_admitsNew hadm.1
      obtain ⟨n, hn⟩ : ∃ n, admissions (fun now => t ≤ now && now ≤ t + T)
          (c.after call) calls = n := ⟨_, rfl⟩
      have hrest := @admissions_until (c.after call)
        (fun now => t ≤ now && now ≤ t + T) calls (t + T) (by simp)
      rw [hn] at hrest ⊢
      rw [TARGET_DELAY, MAXTARGETS] at *
      rcases Nat.eq_zero_or_pos n with rfl | hpos
      · omega
      · have := hrest (by omega)
        push_cast at this hfloor
        omega
    · rw [Nat.zero_add]
      exact ih _

end Ircu.Target
