import Mathlib.Data.List.Perm.Basic
import Mathlib.Tactic

/-!
A register that keeps the newest write, and no trace of a removal.

A write has a time, and either a value or nothing, which removes the value held. A write
is refused if the register holds a value that is at least as new; a removal that is
accepted leaves the register empty, and an empty register accepts every write. The
outcome then does not always depend on the writes alone, but also on their order:

* `run_keep`, `run_top`: a value that no later write is newer than stays, and the newest
  of all writes prevails if it is a setting.
-/

namespace Ircu.Register

open List

variable {α τ β : Type*} [LinearOrder τ] (time : α → τ) (value : α → Option β) (r : Option (τ × β))

def write (w : α) : Option (τ × β) :=
  match r with
  | some e => if time w ≤ e.1 then some e else (value w).map (time w, ·)
  | none => (value w).map (time w, ·)

def run (ws : List α) : Option (τ × β) :=
  ws.foldl (write time value) r

@[simp] lemma run_nil : run time value r [] = r := rfl

@[simp] lemma run_cons (w) (ws) :
    run time value r (w :: ws) = run time value (write time value r w) ws := rfl

lemma run_append (ws ws' : List α) :
    run time value r (ws ++ ws') = run time value (run time value r ws) ws' :=
  foldl_append

def Newer (w : α) : Prop := ∀ e, r = some e → e.1 < time w

section

variable {time value}

variable {r : Option (τ × β)} {w : α} {e : τ × β} {ws : List α}

lemma write_of_newer (h : Newer time r w) : write time value r w = (value w).map (time w, ·) := by
  cases r with
  | none => rfl
  | some e => exact if_neg (not_le.mpr (h e rfl))

lemma write_of_not_newer (h : ¬ Newer time r w) : write time value r w = r := by
  cases r with
  | none => exact absurd (fun e he => absurd he (by simp)) h
  | some e =>
    refine if_pos (not_lt.mp fun hlt => h fun e' he' => ?_)
    cases he'
    exact hlt

lemma write_eq_some (h : write time value r w = some e) :
    r = some e ∨ value w = some e.2 ∧ time w = e.1 := by
  by_cases hn : Newer time r w
  · rw [write_of_newer hn, Option.map_eq_some_iff] at h
    obtain ⟨v, hv, rfl⟩ := h
    exact .inr ⟨hv, rfl⟩
  · rw [write_of_not_newer hn] at h
    exact .inl h

lemma run_eq_some (h : run time value r ws = some e) :
    r = some e ∨ ∃ w ∈ ws, value w = some e.2 ∧ time w = e.1 := by
  induction ws generalizing r with
  | nil => exact .inl h
  | cons w ws ih =>
    rcases ih h with h | ⟨w', hw', h'⟩
    · rcases write_eq_some h with h | h
      · exact .inl h
      · exact .inr ⟨w, mem_cons_self, h⟩
    · exact .inr ⟨w', mem_cons_of_mem _ hw', h'⟩

lemma run_keep (h : ∀ w ∈ ws, time w ≤ e.1) : run time value (some e) ws = some e := by
  induction ws with
  | nil => rfl
  | cons w ws ih =>
    have hw : write time value (some e) w = some e := if_pos (h w mem_cons_self)
    rw [run_cons, hw, ih fun w' hw' => h w' (mem_cons_of_mem _ hw')]

lemma run_top {s v} (hs : s ∈ ws) (hv : value s = some v) (hr : Newer time r s)
    (htop : ∀ w ∈ ws, w = s ∨ time w < time s) : run time value r ws = some (time s, v) := by
  induction ws generalizing r with
  | nil => simp at hs
  | cons w ws ih =>
    have htop' : ∀ w' ∈ ws, w' = s ∨ time w' < time s :=
      fun w' hw' => htop w' (mem_cons_of_mem _ hw')
    rw [run_cons]
    rcases htop w mem_cons_self with rfl | hlt
    · rw [write_of_newer hr, hv]
      refine run_keep fun w' hw' => ?_
      rcases htop' w' hw' with rfl | h
      · exact le_rfl
      · exact h.le
    have hmem : s ∈ ws := by
      rcases mem_cons.mp hs with rfl | h
      · exact absurd hlt (lt_irrefl _)
      · exact h
    refine ih hmem (fun e he => ?_) htop'
    rcases write_eq_some he with h | ⟨-, h⟩
    · exact hr e h
    · exact h ▸ hlt

lemma run_removals (h : ∀ w ∈ ws, value w = none) (w) (hw : w ∈ ws) (hn : Newer time r w) :
    run time value r ws = none := by
  have hempty : ∀ ws : List α, (∀ w ∈ ws, value w = none) →
      run time value (none : Option (τ × β)) ws = none := by
    intro ws h
    rcases hrun : run time value (none : Option (τ × β)) ws with _ | e
    · rfl
    rcases run_eq_some hrun with he | ⟨w, hw, hv, -⟩
    · simp at he
    · rw [h w hw] at hv
      simp at hv
  induction ws generalizing r with
  | nil => simp at hw
  | cons w' ws ih =>
    have h' : ∀ w ∈ ws, value w = none := fun w hw => h w (mem_cons_of_mem _ hw)
    rw [run_cons]
    by_cases hn' : Newer time r w'
    · rw [write_of_newer hn', h w' mem_cons_self, Option.map_none, hempty ws h']
    rcases mem_cons.mp hw with rfl | hmem
    · exact absurd hn hn'
    · rw [write_of_not_newer hn']
      exact ih h' hmem hn

lemma run_refused (h : ∀ w ∈ ws, ¬ Newer time r w) : run time value r ws = r := by
  induction ws with
  | nil => rfl
  | cons w ws ih =>
    rw [run_cons, write_of_not_newer (h w mem_cons_self),
      ih fun w' hw' => h w' (mem_cons_of_mem _ hw')]

lemma run_settings_ne_none (h : ∀ w ∈ ws, value w ≠ none) (hne : ws ≠ [] ∨ r ≠ none) :
    run time value r ws ≠ none := by
  induction ws generalizing r with
  | nil => simpa using hne
  | cons w ws ih =>
    refine ih (fun w' hw' => h w' (mem_cons_of_mem _ hw')) (.inr ?_)
    by_cases hn : Newer time r w
    · rw [write_of_newer hn]
      simpa using h w mem_cons_self
    · rw [write_of_not_newer hn]
      rintro rfl
      exact hn fun e he => absurd he (by simp)

end

/-- All writes are removals, or each removal is older than a setting among the writes or
not newer than what the register holds. -/
def OrderFree (r : Option (τ × β)) (ws : List α) : Prop :=
  (∀ w ∈ ws, value w = none) ∨
    ∀ d ∈ ws, value d = none → (∃ s ∈ ws, value s ≠ none ∧ time d < time s) ∨ ¬ Newer time r d

variable {time value}

variable {r : Option (τ × β)} {ws : List α}

lemma run_perm_of_removals {l} (h : ∀ w ∈ ws, value w = none) (hl : l.Perm ws) :
    run time value r l = run time value r ws := by
  have h' : ∀ w ∈ l, value w = none := fun w hw => h w (hl.mem_iff.mp hw)
  by_cases hn : ∃ w ∈ ws, Newer time r w
  · obtain ⟨w, hw, hn⟩ := hn
    rw [run_removals h w hw hn, run_removals h' w (hl.mem_iff.mpr hw) hn]
  · push Not at hn
    rw [run_refused hn, run_refused fun w hw => hn w (hl.mem_iff.mp hw)]

lemma exists_newest_setting (time : α → τ) (h : ¬ ∀ w ∈ ws, value w = none) :
    ∃ s ∈ ws, value s ≠ none ∧ ∀ w ∈ ws, value w ≠ none → time w ≤ time s := by
  classical
  push Not at h
  obtain ⟨w, hw, hv⟩ := h
  have hne : (ws.toFinset.filter fun w => value w ≠ none).Nonempty :=
    ⟨w, by simpa using ⟨hw, hv⟩⟩
  obtain ⟨s, hs, hmax⟩ := Finset.exists_max_image _ time hne
  simp only [Finset.mem_filter, mem_toFinset] at hs hmax
  exact ⟨s, hs.1, hs.2, fun w hw hv => hmax w ⟨hw, hv⟩⟩

lemma run_perm_of_settled {l} (hinj : ∀ a ∈ ws, ∀ b ∈ ws, time a = time b → a = b)
    (hset : ¬ ∀ w ∈ ws, value w = none)
    (h : ∀ d ∈ ws, value d = none → (∃ s ∈ ws, value s ≠ none ∧ time d < time s) ∨ ¬ Newer time r d)
    (hl : l.Perm ws) : run time value r l = run time value r ws := by
  obtain ⟨s, hs, hv, hmax⟩ := exists_newest_setting time hset
  obtain ⟨v, hv⟩ := Option.ne_none_iff_exists'.mp hv
  by_cases hr : Newer time r s
  · -- the newest setting is newer than every removal, so it prevails in each order
    have htop : ∀ w ∈ ws, w = s ∨ time w < time s := by
      intro w hw
      have hle : time w ≤ time s := by
        cases hvw : value w with
        | some v' => exact hmax w hw (by simp [hvw])
        | none =>
          rcases h w hw hvw with ⟨s', hs', hv', hlt⟩ | hold
          · exact hlt.le.trans (hmax s' hs' hv')
          · by_contra hgt
            exact hold fun e he => (hr e he).trans (not_le.mp hgt)
      rcases hle.eq_or_lt with heq | hlt
      · exact .inl (hinj w hw s hs heq)
      · exact .inr hlt
    rw [run_top hs hv hr htop,
      run_top (hl.mem_iff.mpr hs) hv hr fun w hw => htop w (hl.mem_iff.mp hw)]
  · -- what the register holds is newer than all settings, and than all removals with them
    have hold : ∀ w ∈ ws, ¬ Newer time r w := by
      intro w hw hn
      refine hr fun e he => ?_
      cases hvw : value w with
      | some v' => exact (hn e he).trans_le (hmax w hw (by simp [hvw]))
      | none =>
        rcases h w hw hvw with ⟨s', hs', hv', hlt⟩ | hold
        · exact ((hn e he).trans hlt).trans_le (hmax s' hs' hv')
        · exact absurd hn hold
    rw [run_refused hold, run_refused fun w hw => hold w (hl.mem_iff.mp hw)]

lemma run_concat_removal {d} (hd : value d = none)
    (hset : ∀ s ∈ ws, value s ≠ none → time s < time d) (hr : Newer time r d) :
    run time value r (ws ++ [d]) = none := by
  have hn : Newer time (run time value r ws) d := by
    intro e he
    rcases run_eq_some he with h | ⟨s, hs, hv, ht⟩
    · exact hr e h
    · exact ht ▸ hset s hs (by simp [hv])
  rw [run_append, run_cons, run_nil, write_of_newer hn, hd, Option.map_none]

/-- **The value left is the same for every order of the writes** if and only if they are
all removals, or each removal is older than a setting or than the value held. -/
theorem run_perm_iff (hinj : ∀ a ∈ ws, ∀ b ∈ ws, time a = time b → a = b) :
    (∀ l, l.Perm ws → (run time value r l).map Prod.snd = (run time value r ws).map Prod.snd) ↔
      OrderFree time value r ws := by
  constructor
  · intro hperm
    by_contra hfree
    rw [OrderFree, not_or] at hfree
    obtain ⟨hset, hfree⟩ := hfree
    push Not at hfree
    obtain ⟨d, hd, hdv, hlt, hr⟩ := hfree
    -- the removal last empties the register
    have hlast : ∃ l, l.Perm ws ∧ run time value r l = none := by
      obtain ⟨l1, l2, rfl⟩ := append_of_mem hd
      refine ⟨l1 ++ l2 ++ [d], ?_, run_concat_removal hdv (fun s hs hv => ?_) hr⟩
      · rw [append_assoc]
        exact (perm_append_singleton d l2).append_left l1
      have hs' : s ∈ l1 ++ d :: l2 := by
        rcases mem_append.mp hs with h | h
        · exact mem_append_left _ h
        · exact mem_append_right _ (mem_cons_of_mem _ h)
      refine lt_of_le_of_ne (hlt s hs' hv) fun heq => ?_
      rw [hinj s hs' d hd heq] at hv
      exact hv hdv
    -- the settings last leave a value
    have hfirst : ∃ l, l.Perm ws ∧ run time value r l ≠ none := by
      refine ⟨ws.filter (fun w => (value w).isNone) ++
        ws.filter (fun w => !(value w).isNone), filter_append_perm _ _, ?_⟩
      rw [run_append]
      refine run_settings_ne_none (fun w hw => ?_) (.inl fun hnil => hset fun w hw => ?_)
      · have h := of_mem_filter hw
        simpa [Option.isSome_iff_ne_none] using h
      · have h := filter_eq_nil_iff.mp hnil w hw
        simpa using h
    obtain ⟨l, hl, hnone⟩ := hlast
    obtain ⟨l', hl', hsome⟩ := hfirst
    have heq := (hperm l hl).trans (hperm l' hl').symm
    rw [hnone] at heq
    exact hsome (Option.map_eq_none_iff.mp heq.symm)
  · rintro (hrem | hset) l hl
    · rw [run_perm_of_removals hrem hl]
    · by_cases hrem : ∀ w ∈ ws, value w = none
      · rw [run_perm_of_removals hrem hl]
      · rw [run_perm_of_settled hinj hrem hset hl]

end Ircu.Register
