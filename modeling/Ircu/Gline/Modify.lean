import Ircu.Gline.Basic
import Ircu.Mask.Basic
import Ircu.Revision.Basic

/-!
Changing a global G-line: `gline_modify` of `gline.c`.

A change has the time of the last modification, and is ignored unless this is later than
that of the G-line. What it asks for is then compared with the G-line; if nothing is to be
changed the function returns, and the later time is not stored.

* `view_apply`: on changes that carry an activation or deactivation, an expiration time
  that has not passed, a lifetime and a reason, it is a revision of the G-line in the
  sense of `Ircu.Revision`.
-/

namespace Ircu

open Revision List

structure GlineRecord extends Gline where
  reason : List UInt8

inductive GlineAction
  | activate
  | deactivate
  | localActivate
  | localDeactivate
  | modify
  deriving DecidableEq

def GLINE_FORCE : BitVec 32 := 0x0020
def GLINE_OPERFORCE : BitVec 32 := 0x0400
def GLINE_EXPIRE : BitVec 32 := 0x1000
def GLINE_LIFETIME : BitVec 32 := 0x2000
def GLINE_REASON : BitVec 32 := 0x4000

def GLINE_UPDATE : BitVec 32 := GLINE_EXPIRE ||| GLINE_LIFETIME ||| GLINE_REASON

def GLINE_MAX_EXPIRE : ℤ := 604800

/-- Where a change comes from: whether the server it is received from is in a burst, and
whether it is from a user of this server. -/
structure ModifySource where
  burst : Bool
  myUser : Bool

structure GlinePropagation where
  operforce : Bool
  op : List UInt8
  expire : ℤ
  lastmod : ℤ
  lifetime : ℤ
  reason : List UInt8
  deriving DecidableEq

inductive ModifyResult
  /-- Nothing is done. -/
  | ignored
  /-- This server has a later version, and sends it. -/
  | resend
  /-- The expiration time is refused, with `ERR_BADEXPIRE` for a user of this server. -/
  | badExpire (reply : Bool)
  /-- The G-line has been changed; a change that is not local is told to the others. -/
  | changed (told : Option GlinePropagation)
  deriving DecidableEq

def GlineAction.isLocal : GlineAction → Bool
  | .localActivate => true
  | .localDeactivate => true
  | _ => false

def GlineAction.perform (a : GlineAction) (g : GlineRecord) : GlineRecord :=
  match a with
  | .activate => { g with flags := g.flags ||| GLINE_ACTIVE, state := .global }
  | .deactivate => { g with flags := g.flags &&& ~~~GLINE_ACTIVE, state := .global }
  | .localActivate => { g with state := .activated }
  | .localDeactivate => { g with state := .deactivated }
  | .modify => g

def GlineAction.op : GlineAction → List UInt8
  | .activate => str "+"
  | .deactivate => str "-"
  | _ => []

/-- The changes of `gline_modify` to the record: the time of the modification, the
activity, and the expiration time, the lifetime and the reason as far as they are to be
changed. -/
def changeRecord (g : GlineRecord) (action : GlineAction) (lastmod : ℤ)
    (expire lifetime : Option ℤ) (reason : Option (List UInt8)) : GlineRecord :=
  { action.perform g with
    lastmod := if action.isLocal then g.lastmod else lastmod
    expire := expire.getD g.expire
    lifetime := lifetime.getD g.lifetime
    reason := reason.getD g.reason }

/-- `gline_modify`, once the time of the last modification and the expiration time have
been accepted. The flag `GLINE_EXPIRE` is `hasExpire` here. -/
def modifyAccepted (now : ℤ) (g : GlineRecord) (action : GlineAction)
    (reason : Option (List UInt8)) (expire lastmod lifetime : ℤ) (flags : BitVec 32)
    (hasExpire : Bool) : GlineRecord × ModifyResult :=
  -- no change to the expiration time
  let sameExpire := hasExpire ∧ expire = g.expire
  let newExpire := hasExpire ∧ expire ≠ g.expire
  let expire := if sameExpire then 0 else expire
  let asked := if meets flags GLINE_LIFETIME ∧ lifetime ≠ 0 then lifetime else g.lifetime
  let lifetime := max asked expire
  let newLifetime := lifetime > g.lifetime
  let newReason := meets flags GLINE_REASON ∧ ¬ (reason.any fun r => sameText g.reason r)
  let action :=
    if (action = .activate ∧ meets g.flags GLINE_ACTIVE) ∨
        (action = .deactivate ∧ ¬ meets g.flags GLINE_ACTIVE) ∨
        (action = .localActivate ∧ g.state = .activated) ∨
        (action = .localDeactivate ∧ g.state = .deactivated) ∨
        max g.expire expire ≤ now then .modify
    else action
  -- if there are no changes to perform, do no changes
  if ¬ newExpire ∧ ¬ newLifetime ∧ ¬ newReason ∧ action = .modify then (g, .ignored)
  else
    let g := changeRecord g action lastmod (if newExpire then some expire else none)
      (if newLifetime then some lifetime else none) (if newReason then reason else none)
    (g, .changed (if action.isLocal then none else
      some ⟨meets flags GLINE_OPERFORCE, action.op, g.expire - now, g.lastmod, g.lifetime,
        g.reason⟩))

def glineModify (src : ModifySource) (now : ℤ) (g : GlineRecord) (action : GlineAction)
    (reason : Option (List UInt8)) (expire lastmod lifetime : ℤ) (flags : BitVec 32) :
    GlineRecord × ModifyResult :=
  if ¬ action.isLocal ∧ g.lastmod > lastmod then
    (g, if src.burst then .ignored else .resend)
  else if ¬ action.isLocal ∧ g.lastmod = lastmod then (g, .ignored)
  else
    let hasExpire := meets flags GLINE_EXPIRE ∧ expire ≠ 0
    if hasExpire ∧ ¬ meets flags GLINE_FORCE ∧
        (expire ≤ now ∨ expire > now + GLINE_MAX_EXPIRE) then
      (g, .badExpire src.myUser)
    else modifyAccepted now g action reason expire lastmod lifetime flags hasExpire

/-! ### Changes that carry everything -/

/-- A change at a time: an activation or a deactivation, an expiration time that has not
passed and is not refused, a lifetime and a reason. -/
structure Modification (now : ℕ) where
  src : ModifySource
  activate : Bool
  reason : List UInt8
  expire : ℤ
  lastmod : ℤ
  lifetime : ℤ
  flags : BitVec 32
  has_expire : meets flags GLINE_EXPIRE = true
  has_lifetime : meets flags GLINE_LIFETIME = true
  has_reason : meets flags GLINE_REASON = true
  unexpired : (now : ℤ) < expire
  accepted : meets flags GLINE_FORCE = true ∨ expire ≤ now + GLINE_MAX_EXPIRE

namespace Modification

variable {now : ℕ}

/-- A change is applied through `gline_modify`. -/
def apply (g : GlineRecord) (m : Modification now) : GlineRecord :=
  (glineModify m.src now g (if m.activate then .activate else .deactivate) (some m.reason)
    m.expire m.lastmod m.lifetime m.flags).1

def applyAll (g : GlineRecord) (ms : List (Modification now)) : GlineRecord := ms.foldl apply g

/-- A change as a version. A lifetime of zero asks for none. -/
def view (m : Modification now) : Rev ℤ Bool ℤ (List UInt8) :=
  ⟨m.lastmod, m.activate, m.expire, m.reason, max m.lifetime 0⟩

end Modification

namespace GlineRecord

/-- Whether the G-line is active globally (`GlineIsRemActive`). -/
def remActive (g : GlineRecord) : Bool := meets g.flags GLINE_ACTIVE

def view (g : GlineRecord) : Rev ℤ Bool ℤ (List UInt8) :=
  ⟨g.lastmod, g.remActive, g.expire, g.reason, g.lifetime⟩

end GlineRecord

lemma sameText_equivalence : Equivalence sameText :=
  ⟨sameText.refl, sameText.symm, sameText.trans⟩

lemma meets_active (x : BitVec 32) : meets x GLINE_ACTIVE = x.getLsbD 0 := by
  have hbit : GLINE_ACTIVE = 1#32 <<< 0 := by decide
  rw [hbit, meets_bit x (by decide)]

open GlineRecord

lemma remActive_activate (g) : (GlineAction.activate.perform g).remActive = true := by
  rw [remActive, meets_active]
  simp [GlineAction.perform, GLINE_ACTIVE]

lemma remActive_deactivate (g) : (GlineAction.deactivate.perform g).remActive = false := by
  rw [remActive, meets_active]
  simp [GlineAction.perform, GLINE_ACTIVE]

namespace Modification

variable {now : ℕ}

def action (m : Modification now) : GlineAction := if m.activate then .activate else .deactivate

lemma apply_of_later {g} {m : Modification now} (h : g.lastmod < m.lastmod) :
    apply g m = (modifyAccepted now g m.action (some m.reason) m.expire m.lastmod m.lifetime
      m.flags true).1 := by
  have hne : m.expire ≠ 0 := by
    have := m.unexpired
    omega
  have hbad : ¬ ((meets m.flags GLINE_EXPIRE ∧ m.expire ≠ 0) ∧ ¬ meets m.flags GLINE_FORCE ∧
      (m.expire ≤ now ∨ m.expire > now + GLINE_MAX_EXPIRE)) := by
    rintro ⟨-, hforce, hexp⟩
    have hun := m.unexpired
    rcases m.accepted with hacc | hacc
    · exact hforce hacc
    · omega
  change (glineModify m.src now g m.action (some m.reason) m.expire m.lastmod m.lifetime
    m.flags).1 = _
  unfold glineModify
  rw [if_neg fun hlater => absurd hlater.2 (not_lt.mpr h.le), if_neg fun heq => absurd heq.2 h.ne]
  rw [if_neg hbad, decide_eq_true (show meets m.flags GLINE_EXPIRE = true ∧ m.expire ≠ 0 from
    ⟨m.has_expire, hne⟩)]

variable (g : GlineRecord)

lemma action_cases (m : Modification now) (expire) (h : ¬ max g.expire expire ≤ now) :
    (if (m.action = .activate ∧ meets g.flags GLINE_ACTIVE) ∨
        (m.action = .deactivate ∧ ¬ meets g.flags GLINE_ACTIVE) ∨
        (m.action = .localActivate ∧ g.state = .activated) ∨
        (m.action = .localDeactivate ∧ g.state = .deactivated) ∨
        max g.expire expire ≤ now then GlineAction.modify else m.action) =
      if g.remActive = m.activate then .modify else m.action := by
  unfold action remActive
  cases m.activate <;> cases meets g.flags GLINE_ACTIVE <;> simp [h]

lemma remActive_perform (m : Modification now) :
    (GlineAction.perform (if g.remActive = m.activate then .modify else m.action) g).remActive =
      m.activate := by
  split_ifs with h
  · exact h
  unfold action
  cases m.activate
  · exact remActive_deactivate g
  · exact remActive_activate g

variable (m : Modification now)

lemma lifetime_eq : max g.lifetime (max (if m.lifetime ≠ 0 then m.lifetime else g.lifetime)
        (if m.expire = g.expire then 0 else m.expire)) =
      max g.lifetime (if m.expire = g.expire then max m.lifetime 0
        else max (max m.lifetime 0) m.expire) := by
  have hun := m.unexpired
  split_ifs <;> omega

lemma view_modifyAccepted :
    (modifyAccepted now g m.action (some m.reason) m.expire m.lastmod m.lifetime
      m.flags true).1.view
      = if Same sameText g.view m.view ∧ m.view.life ≤ g.view.life then g.view
        else record sameText g.view m.view := by
  have hun := m.unexpired
  have hlife := lifetime_eq g m
  set expire := if m.expire = g.expire then 0 else m.expire with hexpire
  set lifetime := max (if m.lifetime ≠ 0 then m.lifetime else g.lifetime) expire with hlifetime
  have hexp : ¬ max g.expire expire ≤ now := by
    rw [hexpire]
    split_ifs with h
    · rw [← h]
      exact not_le.mpr (lt_max_of_lt_left hun)
    · exact not_le.mpr (lt_max_of_lt_right hun)
  unfold modifyAccepted
  simp only [m.has_lifetime, m.has_reason, true_and, Option.any_some, decide_eq_true_eq]
  rw [action_cases g m expire hexp]
  -- nothing is to be changed if the change is the same as the G-line
  have hnothing : (¬ m.expire ≠ g.expire ∧ ¬ lifetime > g.lifetime ∧
      ¬ ¬ sameText g.reason m.reason ∧
      (if g.remActive = m.activate then GlineAction.modify else m.action) = .modify) ↔
      Same sameText g.view m.view ∧ m.view.life ≤ g.view.life := by
    have haction : (if g.remActive = m.activate then GlineAction.modify else m.action) =
        .modify ↔ g.remActive = m.activate := by
      unfold action
      split_ifs with h <;> simp [h]
    rw [haction, not_not, not_not]
    constructor
    · rintro ⟨hsame, hle, htext, hact⟩
      refine ⟨⟨hact, hsame.symm, htext⟩, ?_⟩
      rw [max_eq_left (not_lt.mp hle), if_pos hsame] at hlife
      exact max_eq_left_iff.mp hlife.symm
    rintro ⟨⟨hact, hsame, htext⟩, hle⟩
    have hle' : max m.lifetime 0 ≤ g.lifetime := hle
    refine ⟨hsame.symm, ?_, htext, hact⟩
    rw [if_pos (show m.expire = g.expire from hsame.symm), max_eq_left hle'] at hlife
    exact not_lt.mpr (max_eq_left_iff.mp hlife)
  by_cases hs : Same sameText g.view m.view ∧ m.view.life ≤ g.view.life
  · rw [if_pos hs, if_pos (hnothing.mpr hs)]
  rw [if_neg hs, if_neg (mt hnothing.mp hs)]
  have hlocal : (if g.remActive = m.activate then GlineAction.modify
      else m.action).isLocal = false := by
    unfold action
    split_ifs <;> rfl
  refine Rev.ext ?_ (remActive_perform g m) ?_ ?_ ?_
  · exact if_neg (by simp [hlocal])
  · change (if m.expire ≠ g.expire then some expire else none).getD g.expire = m.expire
    split_ifs <;> simp_all
  · change (if ¬ sameText g.reason m.reason then some m.reason else none).getD g.reason =
      if sameText g.reason m.reason then g.reason else m.reason
    split_ifs <;> rfl
  change (if lifetime > g.lifetime then some lifetime else none).getD g.lifetime =
    max g.lifetime (if m.expire = g.expire then max m.lifetime 0
      else max (max m.lifetime 0) m.expire)
  rw [← hlife]
  split_ifs with h
  · exact (max_eq_right h.le).symm
  · exact (max_eq_left (not_lt.mp h)).symm

/-- **A change is a revision** of the G-line. -/
theorem view_apply : (apply g m).view = revise sameText g.view m.view := by
  rw [revise]
  by_cases h : m.view.version ≤ g.view.version
  · rw [if_pos h, apply, glineModify]
    have hle : m.lastmod ≤ g.lastmod := h
    have hlocal : (if m.activate then GlineAction.activate
        else GlineAction.deactivate).isLocal = false := by
      cases m.activate <;> rfl
    rcases hle.lt_or_eq with hlt | heq
    · rw [if_pos ⟨by simp [hlocal], hlt⟩]
    · rw [if_neg (by simp [heq]), if_pos ⟨by simp [hlocal], heq.symm⟩]
  · rw [if_neg h, apply_of_later (not_le.mp h), view_modifyAccepted]

variable (ms : List (Modification now))

lemma view_applyAll : (applyAll g ms).view = Revision.run sameText g.view (ms.map view) := by
  induction ms generalizing g with
  | nil => rfl
  | cons m ms ih =>
    rw [map_cons, run_cons, ← view_apply]
    exact ih (apply g m)

/-! ### The order of changes -/

/-- The later time of the newest change can get lost: see `Ircu.Revision.Lost`. -/
def LastmodLost : Prop :=
  ∃ top, Newest g.view (ms.map view) top ∧ Lost sameText g.view (ms.map view) top

/-- The reason of the newest change can be kept out by one that differs in case only: see
`Ircu.Revision.Variant`. -/
def ReasonVariant : Prop :=
  ∃ top, Newest g.view (ms.map view) top ∧ Variant sameText g.view (ms.map view) top

lemma applyAll_content_iff {g ms top} (hts : ms.Pairwise fun a b => a.lastmod ≠ b.lastmod)
    (htop : Newest g.view (ms.map view) top) :
    (∀ l : List (Modification now), l.Perm ms → (applyAll g l).remActive = top.key ∧
        (applyAll g l).expire = top.mark ∧ (applyAll g l).reason = top.text) ↔
      ¬ Lost sameText g.view (ms.map view) top ∧ ¬ Variant sameText g.view (ms.map view) top := by
  have hpw : (ms.map view).Pairwise fun a b => a.version ≠ b.version :=
    pairwise_map.mpr hts
  rw [← run_content_iff sameText_equivalence hpw htop]
  have hview : ∀ l : List (Modification now),
      ((applyAll g l).remActive = top.key ∧ (applyAll g l).expire = top.mark ∧
        (applyAll g l).reason = top.text) ↔
      ((Revision.run sameText g.view (l.map view)).key = top.key ∧
        (Revision.run sameText g.view (l.map view)).mark = top.mark ∧
        (Revision.run sameText g.view (l.map view)).text = top.text) := by
    intro l
    rw [← view_applyAll]
    rfl
  constructor
  · intro h l' hl'
    -- an order of the versions is one of the changes
    have hforall : List.Forall₂ (fun a b => a = view b) (ms.map view) ms := by
      rw [List.forall₂_map_left_iff]
      exact List.forall₂_same.mpr fun m _ => rfl
    obtain ⟨l, hl, hperm⟩ := perm_comp_forall₂ hl' hforall
    have heq : l' = l.map view := by
      rw [← List.forall₂_eq_eq_eq, List.forall₂_map_right_iff]
      exact hl
    rw [heq]
    exact (hview l).mp (h l hperm)
  · intro h l hl
    exact (hview l).mpr (h _ (hl.map view))

/-- **Changes with different times leave the activity, the expiration time and the reason
of the newest version in every order**, and never a shorter lifetime, if and only if the
time of the newest change cannot get lost and its reason cannot be kept out. -/
theorem modifications_converge_iff (now : ℕ) (g : GlineRecord) (ms : List (Modification now))
    (hts : ms.Pairwise fun a b => a.lastmod ≠ b.lastmod) :
    ((∀ l l' : List (Modification now), l.Perm ms → l'.Perm ms →
        (applyAll g l).remActive = (applyAll g l').remActive ∧
        (applyAll g l).expire = (applyAll g l').expire ∧
        (applyAll g l).reason = (applyAll g l').reason) ∧
      (∀ l : List (Modification now), l.Perm ms → ∀ m ∈ ms, g.lastmod < m.lastmod →
        (∀ m' ∈ ms, m'.lastmod ≤ m.lastmod) →
        (applyAll g l).remActive = m.activate ∧ (applyAll g l).expire = m.expire ∧
        (applyAll g l).reason = m.reason) ∧
      ∀ l l' : List (Modification now), (l ++ l').Perm ms →
        (applyAll g l).lifetime ≤ (applyAll g (l ++ l')).lifetime) ↔
      ¬ LastmodLost g ms ∧ ¬ ReasonVariant g ms := by
  have hinj : ∀ a ∈ ms.map view, ∀ b ∈ ms.map view, a.version = b.version → a = b :=
    version_injOn (pairwise_map.mpr hts)
  obtain ⟨top, htop⟩ := exists_newest g.view (ms.map view)
  have hlost : LastmodLost g ms ↔ Lost sameText g.view (ms.map view) top := by
    constructor
    · rintro ⟨top', htop', h⟩
      rwa [htop'.unique hinj htop] at h
    · exact fun h => ⟨top, htop, h⟩
  have hvar : ReasonVariant g ms ↔ Variant sameText g.view (ms.map view) top := by
    constructor
    · rintro ⟨top', htop', h⟩
      rwa [htop'.unique hinj htop] at h
    · exact fun h => ⟨top, htop, h⟩
  rw [hlost, hvar, ← applyAll_content_iff hts htop]
  constructor
  · rintro ⟨-, hnewest, -⟩ l hl
    rcases htop.1 with rfl | ⟨htopm, hlt⟩
    · -- none of the changes is later
      have hstale : (applyAll g l).view = g.view := by
        rw [view_applyAll]
        refine run_of_stale fun v hv => ?_
        by_contra hv'
        obtain ⟨m, hm, rfl⟩ := mem_map.mp hv
        exact hv' (htop.2 _ (.inr ⟨mem_map_of_mem (hl.mem_iff.mp hm), not_le.mp hv'⟩))
      exact ⟨congrArg Rev.key hstale, congrArg Rev.mark hstale, congrArg Rev.text hstale⟩
    · obtain ⟨m, hm, rfl⟩ := mem_map.mp htopm
      refine hnewest l hl m hm hlt fun m' hm' => ?_
      by_cases hlt' : g.lastmod < m'.lastmod
      · exact htop.2 _ (.inr ⟨mem_map_of_mem hm', hlt'⟩)
      · exact (not_lt.mp hlt').trans hlt.le
  intro h
  refine ⟨fun l l' hl hl' => ?_, fun l hl m hm hlt hm' => ?_, fun l l' _ => ?_⟩
  · obtain ⟨h1, h2, h3⟩ := h l hl
    obtain ⟨h1', h2', h3'⟩ := h l' hl'
    exact ⟨h1.trans h1'.symm, h2.trans h2'.symm, h3.trans h3'.symm⟩
  · have hmtop : m.view = top := by
      refine Newest.unique hinj ⟨.inr ⟨mem_map_of_mem hm, hlt⟩, ?_⟩ htop
      rintro v (rfl | ⟨hv, -⟩)
      · exact hlt.le
      · obtain ⟨m1, hm1, rfl⟩ := mem_map.mp hv
        exact hm' m1 hm1
    have hm := h l hl
    rwa [← hmtop] at hm
  · have hrun : (applyAll g (l ++ l')).view =
        Revision.run sameText (applyAll g l).view (l'.map view) := by
      rw [← view_applyAll, applyAll, foldl_append]
      rfl
    have hlife := life_le_run sameText (applyAll g l).view (l'.map view)
    rwa [← hrun] at hlife

def activeGline : GlineRecord :=
  { id := 0, prevP := .global, user := str "u", host := some (str "h"), expire := 100,
    lastmod := 1, lifetime := 100, addr := ⟨fun _ => 0⟩, bits := 0, flags := GLINE_ACTIVE,
    state := .global, reason := str "spam" }

/-- A change from a server at time 10, with the expiration time and the reason of that
G-line. -/
def changeAt (activate : Bool) (lastmod : ℤ) : Modification 10 where
  src := ⟨false, false⟩
  activate := activate
  reason := str "spam"
  expire := 100
  lastmod := lastmod
  lifetime := 100
  flags := GLINE_FORCE ||| GLINE_UPDATE
  has_expire := by decide
  has_lifetime := by decide
  has_reason := by decide
  unexpired := by decide
  accepted := .inl (by decide)

/-- A deactivation at time 2 and an activation at time 3: if the activation comes first it
changes nothing, and the deactivation prevails. -/
theorem activation_lost :
    (applyAll activeGline [changeAt false 2, changeAt true 3]).remActive = true ∧
      (applyAll activeGline [changeAt true 3, changeAt false 2]).remActive = false := by
  decide +kernel

/-- A deactivation at time 3 and an activation at time 2 leave the G-line inactive in any
order. -/
theorem deactivation_prevails :
    (applyAll activeGline [changeAt true 2, changeAt false 3]).remActive = false := by
  have hts : ([changeAt false 3, changeAt true 2] : List (Modification 10)).Pairwise
      fun a b => a.lastmod ≠ b.lastmod := by decide
  refine (((modifications_converge_iff 10 activeGline _ hts).mpr ?_).2.1 _
    (List.Perm.swap _ _ _) (changeAt false 3) (by simp) (by decide) ?_).1
  · have htop : ∀ top, Newest activeGline.view ([changeAt false 3, changeAt true 2].map view) top →
        top = (changeAt false 3).view := by
      intro top htop
      refine htop.unique (version_injOn (pairwise_map.mpr hts)) ⟨.inr ⟨by simp, by decide⟩, ?_⟩
      rintro v (rfl | ⟨hv, -⟩)
      · decide
      · rcases mem_pair.mp hv with rfl | rfl <;> decide
    constructor
    · rintro ⟨top, hnew, v, hv, hsame, m, hm, hlt, hne, -⟩
      rw [htop top hnew] at hsame hne
      rcases mem_pair.mp hm with rfl | rfl
      · exact hne (Same.refl sameText_equivalence _)
      -- only the G-line is older than the activation, and it is active
      rcases hv with rfl | ⟨hv, -⟩
      · exact absurd hsame.1 (by decide)
      · rcases mem_pair.mp hv with rfl | rfl <;> exact absurd hlt (by decide)
    · rintro ⟨top, hnew, v, hv, -, hne, -⟩
      rw [htop top hnew] at hne
      rcases hv with rfl | ⟨hv, -⟩
      · exact hne rfl
      · rcases mem_pair.mp hv with rfl | rfl <;> exact hne rfl
  · intro m hm
    rcases mem_pair.mp hm with rfl | rfl <;> decide

end Modification

end Ircu
