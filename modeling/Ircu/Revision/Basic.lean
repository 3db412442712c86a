import Mathlib.Data.List.Sort
import Mathlib.Tactic

/-!
A record that is revised by versions, where a revision that changes nothing is not noted.

A version has a number, a key, a mark, a text and a life. The record takes over a version
with a higher number than its own, and with it the number; a text that is similar to the
one it has is not replaced, and its life is only ever extended, also to a new mark. But a
version that is the same as the record, up to similarity of texts, leaves the record as it
is, with its old number: an older version is then still accepted later on. So the outcome
does not only depend on which version has the highest number.
-/

namespace Ircu.Revision

open List

/-- A version of a record, and a record itself. -/
@[ext]
structure Rev (τ K L T : Type*) where
  version : τ
  key : K
  mark : L
  text : T
  life : L

variable {τ K L T : Type*} (sim : T → T → Prop)

def Same (a b : Rev τ K L T) : Prop := a.key = b.key ∧ a.mark = b.mark ∧ sim a.text b.text

instance [DecidableEq K] [DecidableEq L] [DecidableRel sim] (a b : Rev τ K L T) :
    Decidable (Same sim a b) :=
  inferInstanceAs (Decidable (_ ∧ _ ∧ _))

section

variable {sim} (hsim : Equivalence sim)

include hsim

lemma Same.refl (a : Rev τ K L T) : Same sim a a := ⟨rfl, rfl, hsim.refl _⟩

lemma Same.symm {a b : Rev τ K L T} (h : Same sim a b) : Same sim b a :=
  ⟨h.1.symm, h.2.1.symm, hsim.symm h.2.2⟩

lemma Same.trans {a b c : Rev τ K L T} (h : Same sim a b) (h' : Same sim b c) : Same sim a c :=
  ⟨h.1.trans h'.1, h.2.1.trans h'.2.1, hsim.trans h.2.2 h'.2.2⟩

end

/-! ### The versions -/

section

variable [LinearOrder τ] {s : Rev τ K L T} {ms : List (Rev τ K L T)}

/-- The versions that count: the record at the start, and those that are newer. -/
def IsVersion (s : Rev τ K L T) (ms : List (Rev τ K L T)) (v : Rev τ K L T) : Prop :=
  v = s ∨ v ∈ ms ∧ s.version < v.version

def Newest (s : Rev τ K L T) (ms : List (Rev τ K L T)) (top : Rev τ K L T) : Prop :=
  IsVersion s ms top ∧ ∀ v, IsVersion s ms v → v.version ≤ top.version

variable {v : Rev τ K L T}

lemma IsVersion.le (h : IsVersion s ms v) : s.version ≤ v.version := by
  rcases h with rfl | ⟨-, h⟩
  · exact le_rfl
  · exact h.le

lemma IsVersion.mem (h : IsVersion s ms v) (hlt : s.version < v.version) : v ∈ ms := by
  rcases h with rfl | ⟨h, -⟩
  · exact absurd hlt (lt_irrefl _)
  · exact h

lemma IsVersion.eq_of_version (hinj : ∀ a ∈ ms, ∀ b ∈ ms, a.version = b.version → a = b)
    {w} (hv : IsVersion s ms v) (hw : IsVersion s ms w) (h : v.version = w.version) : v = w := by
  rcases hv with rfl | ⟨hv, hvs⟩
  · rcases hw with rfl | ⟨hw, hws⟩
    · rfl
    · exact absurd h hws.ne
  · rcases hw with rfl | ⟨hw, hws⟩
    · exact absurd h.symm hvs.ne
    · exact hinj v hv w hw h

omit [LinearOrder τ] in
lemma version_injOn (hpw : ms.Pairwise fun a b => a.version ≠ b.version) :
    ∀ a ∈ ms, ∀ b ∈ ms, a.version = b.version → a = b := by
  intro a ha b hb heq
  by_contra hne
  have hsymm : Std.Symm fun a b : Rev τ K L T => a.version ≠ b.version := ⟨fun _ _ h => h.symm⟩
  exact hpw.forall ha hb hne heq

lemma Newest.unique (hinj : ∀ a ∈ ms, ∀ b ∈ ms, a.version = b.version → a = b)
    {w} (hv : Newest s ms v) (hw : Newest s ms w) : v = w :=
  hv.1.eq_of_version hinj hw.1 (le_antisymm (hw.2 _ hv.1) (hv.2 _ hw.1))

lemma exists_newest_version {P : Rev τ K L T → Prop} (hv : IsVersion s ms v) (hP : P v) :
    ∃ m, IsVersion s ms m ∧ P m ∧ ∀ w, IsVersion s ms w → P w → w.version ≤ m.version := by
  classical
  have hmem : ∀ {w}, IsVersion s ms w → w ∈ (s :: ms).toFinset := by
    rintro w (rfl | ⟨hw, -⟩)
    · simp
    · simp [hw]
  have hne : ((s :: ms).toFinset.filter fun w => IsVersion s ms w ∧ P w).Nonempty :=
    ⟨v, Finset.mem_filter.mpr ⟨hmem hv, hv, hP⟩⟩
  obtain ⟨m, hm, hmax⟩ := Finset.exists_max_image _ Rev.version hne
  obtain ⟨-, hmV, hmP⟩ := Finset.mem_filter.mp hm
  exact ⟨m, hmV, hmP, fun w hw hwP => hmax w (Finset.mem_filter.mpr ⟨hmem hw, hw, hwP⟩)⟩

lemma exists_newest (s) (ms : List (Rev τ K L T)) : ∃ top, Newest s ms top := by
  obtain ⟨top, htop, -, hmax⟩ : ∃ top, IsVersion s ms top ∧ True ∧
      ∀ w, IsVersion s ms w → True → w.version ≤ top.version :=
    exists_newest_version (.inl rfl) trivial
  exact ⟨top, htop, fun w hw => hmax w hw trivial⟩

variable [LinearOrder L]

/-- The lives that the record can have reached at a number: that at the start, those of
the versions up to the number, and their marks once a version has changed the mark. -/
def Reached (s : Rev τ K L T) (ms : List (Rev τ K L T)) (n : τ) (ℓ : L) : Prop :=
  ℓ ≤ s.life ∨ ∃ w ∈ ms, s.version < w.version ∧ w.version ≤ n ∧
    (ℓ ≤ w.life ∨
      ℓ ≤ w.mark ∧ ∃ u ∈ ms, s.version < u.version ∧ u.version ≤ w.version ∧ u.mark ≠ s.mark)

lemma Reached.mono {n n' ℓ ℓ'} (h : Reached s ms n ℓ) (hn : n ≤ n') (hℓ : ℓ' ≤ ℓ) :
    Reached s ms n' ℓ' := by
  rcases h with h | ⟨w, hw, hs, hle, h | ⟨h, hu⟩⟩
  · exact .inl (hℓ.trans h)
  · exact .inr ⟨w, hw, hs, hle.trans hn, .inl (hℓ.trans h)⟩
  · exact .inr ⟨w, hw, hs, hle.trans hn, .inr ⟨hℓ.trans h, hu⟩⟩

/-- The number of the newest version can get lost: a version `v` is the same as it, and
is followed by one that is not, behind which all versions are the same and ask for no
longer life than the record can have reached at `v`. -/
def Lost (s : Rev τ K L T) (ms : List (Rev τ K L T)) (top : Rev τ K L T) : Prop :=
  ∃ v, IsVersion s ms v ∧ Same sim v top ∧ ∃ m ∈ ms, v.version < m.version ∧
    ¬ Same sim m top ∧ ∀ t ∈ ms, m.version < t.version →
      Same sim t top ∧ Reached s ms v.version t.life

omit [LinearOrder L] in
/-- The text of the newest version can be kept out by a similar one: that of the record
at the start, or that of a version behind one with a text that is not similar. -/
def Variant (s : Rev τ K L T) (ms : List (Rev τ K L T)) (top : Rev τ K L T) : Prop :=
  ∃ v, IsVersion s ms v ∧ sim v.text top.text ∧ v.text ≠ top.text ∧
    (v = s ∨ ∃ u, IsVersion s ms u ∧ u.version < v.version ∧ ¬ sim u.text top.text)

end

/-! ### Revisions -/

variable [LinearOrder L] [DecidableRel sim]

def record (s m : Rev τ K L T) : Rev τ K L T where
  version := m.version
  key := m.key
  mark := m.mark
  text := if sim s.text m.text then s.text else m.text
  life := max s.life (if m.mark = s.mark then m.life else max m.life m.mark)

lemma life_le_record (s m : Rev τ K L T) : m.life ≤ (record sim s m).life := by
  refine le_max_of_le_right ?_
  split_ifs
  · exact le_rfl
  · exact le_max_left _ _

variable {sim} in
lemma same_record (hsim : Equivalence sim) (s m : Rev τ K L T) : Same sim (record sim s m) m := by
  refine ⟨rfl, rfl, ?_⟩
  change sim (if sim s.text m.text then s.text else m.text) m.text
  split_ifs with h
  · exact h
  · exact hsim.refl _

variable [LinearOrder τ] [DecidableEq K]

def revise (s m : Rev τ K L T) : Rev τ K L T :=
  if m.version ≤ s.version then s
  else if Same sim s m ∧ m.life ≤ s.life then s
  else record sim s m

variable (s : Rev τ K L T)

def run (ms : List (Rev τ K L T)) : Rev τ K L T := ms.foldl (revise sim) s

lemma revise_cases (s m : Rev τ K L T) : m.version ≤ s.version ∧ revise sim s m = s ∨
      s.version < m.version ∧ Same sim s m ∧ m.life ≤ s.life ∧ revise sim s m = s ∨
      s.version < m.version ∧ ¬ (Same sim s m ∧ m.life ≤ s.life) ∧
        revise sim s m = record sim s m := by
  unfold revise
  by_cases hv : m.version ≤ s.version
  · exact .inl ⟨hv, if_pos hv⟩
  rw [if_neg hv]
  by_cases hs : Same sim s m ∧ m.life ≤ s.life
  · exact .inr (.inl ⟨not_le.mp hv, hs.1, hs.2, if_pos hs⟩)
  · exact .inr (.inr ⟨not_le.mp hv, hs, if_neg hs⟩)

lemma life_le_revise (s m : Rev τ K L T) : s.life ≤ (revise sim s m).life := by
  rcases revise_cases sim s m with ⟨-, h⟩ | ⟨-, -, -, h⟩ | ⟨-, -, h⟩
  · rw [h]
  · rw [h]
  · rw [h]
    exact le_max_left _ _

lemma life_le_run (ms) : s.life ≤ (run sim s ms).life := by
  induction ms generalizing s with
  | nil => exact le_rfl
  | cons m ms ih => exact (life_le_revise sim s m).trans (ih _)

variable {sim}

@[simp] lemma run_nil : run sim s [] = s := rfl

@[simp] lemma run_cons (s m : Rev τ K L T) (ms : List (Rev τ K L T)) :
    run sim s (m :: ms) = run sim (revise sim s m) ms := rfl

lemma run_append (ms ms' : List (Rev τ K L T)) :
    run sim s (ms ++ ms') = run sim (run sim s ms) ms' :=
  foldl_append

variable {s m x top : Rev τ K L T} {ms : List (Rev τ K L T)}

lemma revise_of_stale (h : m.version ≤ s.version) : revise sim s m = s := if_pos h

lemma run_of_stale (h : ∀ m ∈ ms, m.version ≤ s.version) : run sim s ms = s := by
  induction ms with
  | nil => rfl
  | cons m ms ih =>
    rw [run_cons, revise_of_stale (h m mem_cons_self),
      ih fun m' hm' => h m' (mem_cons_of_mem _ hm')]

lemma run_of_same (h : ∀ m ∈ ms, Same sim s m ∧ m.life ≤ s.life) : run sim s ms = s := by
  induction ms with
  | nil => rfl
  | cons m ms ih =>
    have hm : revise sim s m = s := by
      rcases revise_cases sim s m with ⟨-, heq⟩ | ⟨-, -, -, heq⟩ | ⟨-, hne, -⟩
      · exact heq
      · exact heq
      · exact absurd (h m mem_cons_self) hne
    rw [run_cons, hm, ih fun m' hm' => h m' (mem_cons_of_mem _ hm')]

lemma revise_of_not_same (hv : s.version < m.version) (h : ¬ Same sim s m) :
    revise sim s m = record sim s m := by
  rcases revise_cases sim s m with ⟨hle, -⟩ | ⟨-, hs, -⟩ | ⟨-, -, heq⟩
  · exact absurd hv (not_lt.mpr hle)
  · exact absurd hs h
  · exact heq

lemma life_le_revise_of_newer (h : s.version < m.version) : m.life ≤ (revise sim s m).life := by
  rcases revise_cases sim s m with ⟨hle, -⟩ | ⟨-, -, hlife, h'⟩ | ⟨-, -, h'⟩
  · exact absurd h (not_lt.mpr hle)
  · rwa [h']
  · rw [h']
    exact life_le_record sim s m

lemma same_revise_of_newer (hsim : Equivalence sim) (h : s.version < m.version) :
    Same sim (revise sim s m) m := by
  rcases revise_cases sim s m with ⟨hle, -⟩ | ⟨-, hs, -, h'⟩ | ⟨-, -, h'⟩
  · exact absurd h (not_lt.mpr hle)
  · rwa [h']
  · rw [h']
    exact same_record hsim s m

/-! ### When the newest version prevails -/

/-- What is known of the record after the versions `p`: it is the same as the version of its number,
its life is not longer than it can be, its text is no other one that is similar to the newest, and
each version is behind it or was the same as a version up to it. -/
structure Traced (sim : T → T → Prop) (s : Rev τ K L T) (ms : List (Rev τ K L T))
    (top : Rev τ K L T) (p : List (Rev τ K L T)) (x : Rev τ K L T) : Prop where
  origin : ∃ v, IsVersion s ms v ∧ x.version = v.version ∧ Same sim x v
  life : Reached s ms x.version x.life
  text : sim x.text top.text → x.text = top.text
  covered : ∀ m ∈ p, m.version ≤ x.version ∨
    ∃ w, IsVersion s ms w ∧ w.version ≤ x.version ∧ Same sim w m ∧ Reached s ms w.version m.life

section

variable {p : List (Rev τ K L T)} (hsim : Equivalence sim)

omit [DecidableEq K] [DecidableRel sim] in
include hsim in
lemma Traced.initial (hvar : ¬ Variant sim s ms top) : Traced sim s ms top [] s where
  origin := ⟨s, .inl rfl, rfl, Same.refl hsim s⟩
  life := .inl le_rfl
  text h := by
    by_contra hne
    exact hvar ⟨s, .inl rfl, h, hne, .inl rfl⟩
  covered m hm := absurd hm (by simp)

variable (h : Traced sim s ms top p x)

include h

omit [DecidableEq K] in
lemma Traced.reached_record (hm : m ∈ ms) (hv : x.version < m.version) :
    Reached s ms m.version (record sim x m).life := by
  obtain ⟨v, hvV, hver, -, hmark, -⟩ := h.origin
  have hs : s.version < m.version := (hvV.le.trans hver.ge).trans_lt hv
  rw [record]
  dsimp only
  rcases le_total x.life (if m.mark = x.mark then m.life else max m.life m.mark) with hle | hle
  · rw [max_eq_right hle]
    by_cases hsame : m.mark = x.mark
    · rw [if_pos hsame]
      exact .inr ⟨m, hm, hs, le_rfl, .inl le_rfl⟩
    rw [if_neg hsame]
    rcases le_total m.life m.mark with hl | hl
    · -- the mark is a new one, so one of the two versions has changed it
      rw [max_eq_right hl]
      refine .inr ⟨m, hm, hs, le_rfl, .inr ⟨le_rfl, ?_⟩⟩
      by_cases hms : m.mark = s.mark
      · have hne : v.mark ≠ s.mark := fun h' => hsame (hms.trans (h'.symm.trans hmark.symm))
        rcases hvV with rfl | ⟨hvm, hvs⟩
        · exact absurd rfl hne
        · exact ⟨v, hvm, hvs, hver ▸ hv.le, hne⟩
      · exact ⟨m, hm, hs, le_rfl, hms⟩
    · rw [max_eq_left hl]
      exact .inr ⟨m, hm, hs, le_rfl, .inl le_rfl⟩
  · rw [max_eq_left hle]
    exact h.life.mono hv.le le_rfl

omit [DecidableEq K] in
include hsim in
lemma Traced.text_record (hvar : ¬ Variant sim s ms top) (hm : m ∈ ms)
    (hv : x.version < m.version) :
    sim (record sim x m).text top.text → (record sim x m).text = top.text := by
  obtain ⟨v, hvV, hver, -, -, hvtext⟩ := h.origin
  have hs : s.version < m.version := (hvV.le.trans hver.ge).trans_lt hv
  rw [record]
  dsimp only
  split_ifs with hxm
  · exact h.text
  intro htop
  by_contra hne
  refine hvar ⟨m, .inr ⟨hm, hs⟩, htop, hne, .inr ⟨v, hvV, hver ▸ hv, fun hvtop => ?_⟩⟩
  exact hxm (hsim.trans hvtext (hsim.trans hvtop (hsim.symm htop)))

include hsim in
lemma Traced.step (hvar : ¬ Variant sim s ms top) (hm : m ∈ ms) :
    Traced sim s ms top (m :: p) (revise sim x m) := by
  obtain ⟨v, hvV, hver, hvx⟩ := h.origin
  rcases revise_cases sim x m with ⟨hle, heq⟩ | ⟨hv, hsame, hlife, heq⟩ | ⟨hv, -, heq⟩
  · rw [heq]
    refine ⟨h.origin, h.life, h.text, fun m' hm' => ?_⟩
    rcases mem_cons.mp hm' with rfl | hm'
    · exact .inl hle
    · exact h.covered m' hm'
  · rw [heq]
    refine ⟨h.origin, h.life, h.text, fun m' hm' => ?_⟩
    rcases mem_cons.mp hm' with rfl | hm'
    · exact .inr ⟨v, hvV, hver.ge, Same.trans hsim (Same.symm hsim hvx) hsame,
        h.life.mono hver.le hlife⟩
    · exact h.covered m' hm'
  have hs : s.version < m.version := (hvV.le.trans hver.ge).trans_lt hv
  rw [heq]
  refine ⟨⟨m, .inr ⟨hm, hs⟩, rfl, same_record hsim x m⟩, h.reached_record hm hv,
    h.text_record hsim hvar hm hv, fun m' hm' => ?_⟩
  rcases mem_cons.mp hm' with rfl | hm'
  · exact .inl le_rfl
  · rcases h.covered m' hm' with hle | ⟨w, hw, hle, hsame, hreach⟩
    · exact .inl (hle.trans hv.le)
    · exact .inr ⟨w, hw, hle.trans hv.le, hsame, hreach⟩

include hsim in
lemma Traced.run {l : List (Rev τ K L T)} (hvar : ¬ Variant sim s ms top) (hl : ∀ m ∈ l, m ∈ ms) :
    Traced sim s ms top (l.reverse ++ p) (Revision.run sim x l) := by
  induction l generalizing p x with
  | nil => exact h
  | cons m l ih =>
    have hstep := h.step hsim hvar (hl m mem_cons_self)
    have hrun := ih hstep fun m' hm' => hl m' (mem_cons_of_mem _ hm')
    rwa [reverse_cons, append_assoc, singleton_append]

omit [DecidableEq K] [DecidableRel sim] in
include hsim in
lemma Traced.same_top (hinj : ∀ a ∈ ms, ∀ b ∈ ms, a.version = b.version → a = b)
    (htop : Newest s ms top)
    (hlost : ¬ Lost sim s ms top) (hp : ∀ m ∈ ms, m ∈ p) : Same sim x top := by
  by_contra hx
  obtain ⟨v, hvV, hver, hxv⟩ := h.origin
  have hv : ¬ Same sim v top := fun hv => hx (Same.trans hsim hxv hv)
  -- the newest version that is not the same as the newest one
  obtain ⟨m, hmV, hm, hmax⟩ :=
    exists_newest_version (P := fun w => ¬ Same sim w top) hvV hv
  have hxm : x.version ≤ m.version := hver.le.trans (hmax v hvV hv)
  -- a version behind it has been the same as a version in front of it
  have hcovered : ∀ t, IsVersion s ms t → m.version < t.version →
      ∃ w, IsVersion s ms w ∧ w.version < m.version ∧ Same sim w t ∧
        Reached s ms w.version t.life := by
    intro t htV hlt
    have htop' : Same sim t top := by
      by_contra hne
      exact absurd (hmax t htV hne) (not_le.mpr hlt)
    have ht := htV.mem (hmV.le.trans_lt hlt)
    rcases h.covered t (hp t ht) with hle | ⟨w, hwV, hle, hsame, hreach⟩
    · exact absurd (hle.trans hxm) (not_le.mpr hlt)
    · refine ⟨w, hwV, lt_of_le_of_ne (hle.trans hxm) fun heq => ?_, hsame, hreach⟩
      have hw : w = m := hwV.eq_of_version hinj hmV heq
      exact hm (hw ▸ Same.trans hsim hsame htop')
  have htopm : m.version < top.version := by
    refine lt_of_le_of_ne (htop.2 m hmV) fun heq => hm ?_
    rw [hmV.eq_of_version hinj htop.1 heq]
    exact Same.refl hsim top
  obtain ⟨w0, hw₀V, hw₀m, hw0, -⟩ := hcovered top htop.1 htopm
  obtain ⟨w, hwV, ⟨hw, hwm⟩, hwmax⟩ := exists_newest_version
    (P := fun w => Same sim w top ∧ w.version < m.version) hw₀V ⟨hw0, hw₀m⟩
  refine hlost ⟨w, hwV, hw, m, hmV.mem (hwV.le.trans_lt hwm), hwm, hm, fun t ht hlt => ?_⟩
  have htV : IsVersion s ms t := .inr ⟨ht, hmV.le.trans_lt hlt⟩
  have htop' : Same sim t top := by
    by_contra hne
    exact absurd (hmax t htV hne) (not_le.mpr hlt)
  obtain ⟨w', hw'V, hw'm, hw', hreach⟩ := hcovered t htV hlt
  exact ⟨htop', hreach.mono (hwmax w' hw'V ⟨Same.trans hsim hw' htop', hw'm⟩) le_rfl⟩

end

/-! ### When it does not -/

lemma run_descending (sim : T → T → Prop) [DecidableRel sim] (x)
    {q : List (Rev τ K L T)} (hq : q.Pairwise fun a b => b.version ≤ a.version) :
    run sim x q = x ∨ ∃ m ∈ q, run sim x q = record sim x m := by
  induction q with
  | nil => exact .inl rfl
  | cons m q ih =>
    rw [pairwise_cons] at hq
    rw [run_cons]
    have hskip : revise sim x m = x → run sim (revise sim x m) q = x ∨
          ∃ m' ∈ m :: q, run sim (revise sim x m) q = record sim x m' := by
      intro heq
      rw [heq]
      rcases ih hq.2 with h | ⟨m', hm', h⟩
      · exact .inl h
      · exact .inr ⟨m', mem_cons_of_mem _ hm', h⟩
    rcases revise_cases sim x m with ⟨-, heq⟩ | ⟨-, -, -, heq⟩ | ⟨-, -, heq⟩
    · exact hskip heq
    · exact hskip heq
    · refine .inr ⟨m, mem_cons_self, ?_⟩
      rw [heq]
      exact run_of_stale hq.1

lemma text_run_descending {q y}
    (hq : q.Pairwise fun a b => b.version ≤ a.version) (hy : sim x.text y) (hne : x.text ≠ y) :
    (run sim x q).text ≠ y := by
  rcases run_descending sim x hq with h | ⟨m, -, h⟩
  · rwa [h]
  rw [h]
  change (if sim x.text m.text then x.text else m.text) ≠ y
  split_ifs with hm
  · exact hne
  · rintro rfl
    exact hm hy

omit [LinearOrder L] [DecidableEq K] in
lemma exists_descending (l : List (Rev τ K L T)) :
    ∃ q : List (Rev τ K L T), q.Perm l ∧ q.Pairwise fun a b => b.version ≤ a.version := by
  refine ⟨l.mergeSort fun a b => decide (b.version ≤ a.version), mergeSort_perm _ _, ?_⟩
  have h : (l.mergeSort fun a b => decide (b.version ≤ a.version)).Pairwise
      fun a b => decide (b.version ≤ a.version) = true := by
    refine pairwise_mergeSort (fun a b c hab hbc => ?_) (fun a b => ?_) l
    · simp only [decide_eq_true_eq] at hab hbc ⊢
      exact hbc.trans hab
    · simpa using le_total b.version a.version
  exact h.imp fun hab => by simpa using hab

omit [LinearOrder L] [LinearOrder τ] [DecidableEq K] in
lemma exists_cons_perm {a : Rev τ K L T} {l : List (Rev τ K L T)} (h : a ∈ l) :
    ∃ r, (a :: r).Perm l := by
  obtain ⟨l1, l2, rfl⟩ := append_of_mem h
  exact ⟨l1 ++ l2, perm_middle.symm⟩

/-- **A similar text keeps out that of the newest version** in some order. -/
lemma exists_text_ne (hsim : Equivalence sim) (hvar : Variant sim s ms top) :
    ∃ l, l.Perm ms ∧ (run sim s l).text ≠ top.text := by
  obtain ⟨v, hvV, hvtop, hne, rfl | ⟨u, huV, huv, hutop⟩⟩ := hvar
  · obtain ⟨q, hq, hdesc⟩ := exists_descending ms
    exact ⟨q, hq, text_run_descending hdesc hvtop hne⟩
  have hv : v ∈ ms := hvV.mem (huV.le.trans_lt huv)
  -- a version with a text that is not similar is followed by the one that is
  have hfinish : ∀ x : Rev τ K L T, x.version < v.version → ¬ sim x.text top.text →
      ∀ r, ∃ q : List (Rev τ K L T), q.Perm r ∧ (run sim x (v :: q)).text ≠ top.text := by
    intro x hxv hxtop r
    obtain ⟨q, hq, hdesc⟩ := exists_descending r
    have hxvtext : ¬ sim x.text v.text := fun h => hxtop (hsim.trans h hvtop)
    have htext : (revise sim x v).text = v.text := by
      rw [revise_of_not_same hxv fun h => hxvtext h.2.2]
      exact if_neg hxvtext
    refine ⟨q, hq, ?_⟩
    rw [run_cons]
    exact text_run_descending hdesc (htext ▸ hvtop) (htext ▸ hne)
  obtain ⟨r, hr⟩ := exists_cons_perm hv
  rcases huV with rfl | ⟨hu, hus⟩
  · obtain ⟨q, hq, hend⟩ := hfinish u huv hutop r
    exact ⟨v :: q, (hq.cons v).trans hr, hend⟩
  have hur : u ∈ r := by
    rcases mem_cons.mp (hr.mem_iff.mpr hu) with rfl | h
    · exact absurd huv (lt_irrefl _)
    · exact h
  obtain ⟨r', hr'⟩ := exists_cons_perm hur
  have hxv : (revise sim s u).version < v.version := by
    rcases revise_cases sim s u with ⟨-, heq⟩ | ⟨-, -, -, heq⟩ | ⟨-, -, heq⟩
    · rw [heq]
      exact hus.trans huv
    · rw [heq]
      exact hus.trans huv
    · rw [heq]
      exact huv
  have hxtop : ¬ sim (revise sim s u).text top.text := fun h =>
    hutop (hsim.trans (hsim.symm (same_revise_of_newer hsim hus).2.2) h)
  obtain ⟨q, hq, hend⟩ := hfinish _ hxv hxtop r'
  refine ⟨u :: v :: q, ?_, hend⟩
  exact (List.Perm.swap v u q).trans (((hq.cons u).trans hr').cons v |>.trans hr)

/-- What is known of the record after versions `A` have come in from the oldest to the
newest. -/
structure Ascended (sim : T → T → Prop) (s : Rev τ K L T) (A : List (Rev τ K L T))
    (x : Rev τ K L T) : Prop where
  version : ∀ n, s.version ≤ n → (∀ a ∈ A, a.version ≤ n) → x.version ≤ n
  lt : ∀ n, s.version < n → (∀ a ∈ A, a.version < n) → x.version < n
  life : ∀ w ∈ A, s.version < w.version → w.life ≤ x.life
  mark_eq : (∀ u ∈ A, s.version < u.version → u.mark = s.mark) → x.mark = s.mark
  mark_le : ∀ u ∈ A, s.version < u.version → u.mark ≠ s.mark → x.mark ≤ x.life
  mark_life : ∀ w ∈ A, s.version < w.version →
    (∃ u ∈ A, s.version < u.version ∧ u.version ≤ w.version ∧ u.mark ≠ s.mark) → w.mark ≤ x.life
  same : ∀ w ∈ A, s.version < w.version → (∀ u ∈ A, u.version ≤ w.version) → Same sim x w

variable {A : List (Rev τ K L T)}

/-- The mark of a record that versions have come to in ascending order is part of its
life once one of them has changed it. -/
lemma Ascended.mark_le_revise (hsim : Equivalence sim)
    {w u} (h : Ascended sim s A x) (hw : x.version < w.version)
    (hu : u ∈ A ∨ u = w) (hus : s.version < u.version) (hmark : u.mark ≠ s.mark) :
    (revise sim x w).mark ≤ (revise sim x w).life := by
  rw [(same_revise_of_newer hsim hw).2.1]
  by_cases hwx : w.mark = x.mark
  · refine le_trans ?_ (life_le_revise sim x w)
    rw [hwx]
    rcases hu with hu | rfl
    · exact h.mark_le u hu hus hmark
    -- the mark was changed before
    by_contra hle
    refine hmark (hwx.trans (h.mark_eq fun u' hu' hus' => ?_))
    by_contra hmark'
    exact hle (h.mark_le u' hu' hus' hmark')
  · rw [revise_of_not_same hw fun hs => hwx hs.2.1.symm]
    refine le_max_of_le_right ?_
    rw [if_neg hwx]
    exact le_max_right _ _

lemma Ascended.concat (hsim : Equivalence sim) {w}
    (h : Ascended sim s A x) (hlt : ∀ a ∈ A, a.version < w.version) (hs : s.version ≤ x.version) :
    Ascended sim s (A ++ [w]) (revise sim x w) := by
  by_cases hws : s.version < w.version
  · have hw : x.version < w.version := h.lt w.version hws hlt
    have hsame := same_revise_of_newer hsim hw
    have hlife := life_le_revise sim x w
    have hver : (revise sim x w).version = x.version ∨ (revise sim x w).version = w.version := by
      rcases revise_cases sim x w with ⟨-, heq⟩ | ⟨-, -, -, heq⟩ | ⟨-, -, heq⟩
      · exact .inl (by rw [heq])
      · exact .inl (by rw [heq])
      · exact .inr (by rw [heq]; rfl)
    refine ⟨?_, ?_, ?_, ?_, ?_, ?_, ?_⟩
    · intro n hsn hA
      rcases hver with hver | hver
      · exact hver ▸ h.version n hsn fun a ha => hA a (mem_append_left _ ha)
      · exact hver ▸ hA w (by simp)
    · intro n hsn hA
      rcases hver with hver | hver
      · exact hver ▸ h.lt n hsn fun a ha => hA a (mem_append_left _ ha)
      · exact hver ▸ hA w (by simp)
    · intro a ha hsa
      rcases mem_append.mp ha with ha | ha
      · exact (h.life a ha hsa).trans hlife
      · rw [mem_singleton.mp ha]
        exact life_le_revise_of_newer hw
    · intro hall
      rw [hsame.2.1]
      exact hall w (by simp) hws
    · intro u hu hus hmark
      exact h.mark_le_revise hsim hw (by simpa using hu) hus hmark
    · rintro a ha hsa ⟨u, hu, hus, hua, hmark⟩
      rcases mem_append.mp ha with ha | ha
      · refine (h.mark_life a ha hsa ⟨u, ?_, hus, hua, hmark⟩).trans hlife
        rcases mem_append.mp hu with hu | hu
        · exact hu
        · rw [mem_singleton.mp hu] at hua
          exact absurd hua (not_le.mpr (hlt a ha))
      · rw [mem_singleton.mp ha, ← hsame.2.1]
        exact h.mark_le_revise hsim hw (by simpa using hu) hus hmark
    · intro a ha hsa hmax
      rcases mem_append.mp ha with ha | ha
      · exact absurd (hmax w (by simp)) (not_le.mpr (hlt a ha))
      · rw [mem_singleton.mp ha]
        exact hsame
  · -- the version is not newer than the record at the start
    have hstale : w.version ≤ x.version := (not_lt.mp hws).trans hs
    have hmem : ∀ a ∈ A ++ [w], s.version < a.version → a ∈ A := by
      intro a ha hsa
      rcases mem_append.mp ha with ha | ha
      · exact ha
      · rw [mem_singleton.mp ha] at hsa
        exact absurd hsa hws
    rw [revise_of_stale hstale]
    refine ⟨?_, ?_, ?_, ?_, ?_, ?_, ?_⟩
    · exact fun n hsn hA => h.version n hsn fun a ha => hA a (mem_append_left _ ha)
    · exact fun n hsn hA => h.lt n hsn fun a ha => hA a (mem_append_left _ ha)
    · exact fun a ha hsa => h.life a (hmem a ha hsa) hsa
    · exact fun hall => h.mark_eq fun u hu => hall u (mem_append_left _ hu)
    · exact fun u hu hus => h.mark_le u (hmem u hu hus) hus
    · rintro a ha hsa ⟨u, hu, hus, hua, hmark⟩
      exact h.mark_life a (hmem a ha hsa) hsa ⟨u, hmem u hu hus, hus, hua, hmark⟩
    · exact fun a ha hsa hmax => h.same a (hmem a ha hsa) hsa
        fun u hu => hmax u (mem_append_left _ hu)

lemma version_le_run (s) (A : List (Rev τ K L T)) : s.version ≤ (run sim s A).version := by
  induction A generalizing s with
  | nil => exact le_rfl
  | cons m A ih =>
    refine le_trans ?_ (ih _)
    rcases revise_cases sim s m with ⟨-, h⟩ | ⟨-, -, -, h⟩ | ⟨hv, -, h⟩
    · rw [h]
    · rw [h]
    · rw [h]
      exact hv.le

lemma ascended_run (hsim : Equivalence sim)
    (hA : A.Pairwise fun a b => a.version < b.version) : Ascended sim s A (run sim s A) := by
  induction A using List.reverseRecOn with
  | nil =>
    refine ⟨fun n hn _ => hn, fun n hn _ => hn, ?_, fun _ => rfl, ?_, ?_, ?_⟩
    all_goals simp
  | append_singleton A w ih =>
    rw [pairwise_append] at hA
    rw [run_append, run_cons]
    exact (ih hA.1).concat hsim (fun a ha => hA.2.2 a ha w (by simp)) (version_le_run s A)

/-- **The number of the newest version gets lost** in some order. -/
lemma exists_not_same (hsim : Equivalence sim)
    (hpw : ms.Pairwise fun a b => a.version ≠ b.version) (hlost : Lost sim s ms top) :
    ∃ l, l.Perm ms ∧ ¬ Same sim (run sim s l) top := by
  obtain ⟨v, hvV, hv, m, hm, hvm, hmtop, hbehind⟩ := hlost
  obtain ⟨r, hr⟩ := exists_cons_perm hm
  -- first the versions up to `v` in ascending order
  obtain ⟨q, hq, hdesc⟩ := exists_descending (r.filter fun a => a.version ≤ v.version)
  have hqmem : ∀ a, a ∈ q.reverse ↔ a ∈ ms ∧ a.version ≤ v.version := by
    intro a
    rw [mem_reverse, hq.mem_iff, mem_filter, decide_eq_true_eq, ← hr.mem_iff, mem_cons]
    constructor
    · rintro ⟨ha, hle⟩
      exact ⟨.inr ha, hle⟩
    · rintro ⟨rfl | ha, hle⟩
      · exact absurd hle (not_le.mpr hvm)
      · exact ⟨ha, hle⟩
  have hne : q.Pairwise fun a b => a.version ≠ b.version := by
    have hr' : (m :: r).Pairwise fun a b => a.version ≠ b.version :=
      (hr.pairwise_iff fun h => h.symm).mpr hpw
    exact (hq.pairwise_iff fun h => h.symm).mpr ((pairwise_cons.mp hr').2.filter _)
  have hasc : q.reverse.Pairwise fun a b => a.version < b.version := by
    rw [pairwise_reverse]
    exact (hdesc.and hne).imp fun h => lt_of_le_of_ne h.1 h.2.symm
  have hA := ascended_run (s := s) hsim hasc
  set x := run sim s q.reverse with hx
  have hxv : x.version ≤ v.version := hA.version _ hvV.le fun a ha => ((hqmem a).mp ha).2
  have hsame : Same sim x v := by
    rcases hvV with rfl | ⟨hvm', hvs⟩
    · rw [hx, run_of_stale fun a ha => ((hqmem a).mp ha).2]
      exact Same.refl hsim v
    · exact hA.same v ((hqmem v).mpr ⟨hvm', le_rfl⟩) hvs fun u hu => ((hqmem u).mp hu).2
  have hreached : ∀ ℓ, Reached s ms v.version ℓ → ℓ ≤ x.life := by
    rintro ℓ (h | ⟨w, hw, hws, hwv, h | ⟨h, u, hu, hus, huw, hmark⟩⟩)
    · exact h.trans (life_le_run sim s _)
    · exact h.trans (hA.life w ((hqmem w).mpr ⟨hw, hwv⟩) hws)
    · exact h.trans (hA.mark_life w ((hqmem w).mpr ⟨hw, hwv⟩) hws
        ⟨u, (hqmem u).mpr ⟨hu, huw.trans hwv⟩, hus, huw, hmark⟩)
  -- then those behind `m`, which are the same, then `m`, which is not, and the rest
  set r1 := r.filter fun a => !decide (a.version ≤ v.version) with hr1
  set behind := r1.filter fun a => m.version < a.version with hbehind'
  set rest := r1.filter fun a => !decide (m.version < a.version) with hrest
  refine ⟨q.reverse ++ (behind ++ m :: rest), ?_, ?_⟩
  · have h1 : (q.reverse ++ (behind ++ m :: rest)).Perm
        (m :: (r.filter (fun a => a.version ≤ v.version) ++ (behind ++ rest))) := by
      refine ((reverse_perm q).trans hq |>.append_right _).trans ?_
      exact (perm_middle.append_left _).trans perm_middle
    have h2 : (behind ++ rest).Perm r1 := filter_append_perm _ _
    have h3 : (r.filter (fun a => a.version ≤ v.version) ++ r1).Perm r :=
      filter_append_perm _ _
    exact h1.trans ((((h2.append_left _).trans h3).cons m).trans hr)
  have hbeh : run sim x behind = x := by
    refine run_of_same fun t ht => ?_
    rw [mem_filter, decide_eq_true_eq] at ht
    have htm : t ∈ ms := hr.mem_iff.mp (mem_cons_of_mem _ (mem_of_mem_filter ht.1))
    obtain ⟨httop, hlife⟩ := hbehind t htm ht.2
    exact ⟨Same.trans hsim hsame (Same.trans hsim hv (Same.symm hsim httop)), hreached _ hlife⟩
  have hxm : ¬ Same sim x m := fun h => hmtop
    (Same.trans hsim (Same.symm hsim h) (Same.trans hsim hsame hv))
  rw [run_append, run_append, hbeh, run_cons,
    revise_of_not_same (hxv.trans_lt hvm) hxm, run_of_stale]
  · exact fun h => hmtop (Same.trans hsim (Same.symm hsim (same_record hsim x m)) h)
  · intro a ha
    rw [mem_filter] at ha
    simpa [record] using ha.2

/-- **The newest version prevails in every order** if and only if its number cannot get
lost and its text cannot be kept out. -/
theorem run_content_iff (hsim : Equivalence sim)
    (hpw : ms.Pairwise fun a b => a.version ≠ b.version) (htop : Newest s ms top) :
    (∀ l, l.Perm ms → (run sim s l).key = top.key ∧ (run sim s l).mark = top.mark ∧
        (run sim s l).text = top.text) ↔ ¬ Lost sim s ms top ∧ ¬ Variant sim s ms top := by
  constructor
  · intro h
    refine ⟨fun hlost => ?_, fun hvar => ?_⟩
    · obtain ⟨l, hl, hne⟩ := exists_not_same hsim hpw hlost
      obtain ⟨hkey, hmark, htext⟩ := h l hl
      exact hne ⟨hkey, hmark, htext ▸ hsim.refl _⟩
    · obtain ⟨l, hl, hne⟩ := exists_text_ne hsim hvar
      exact hne (h l hl).2.2
  · rintro ⟨hlost, hvar⟩ l hl
    have htraced := (Traced.initial hsim hvar).run hsim hvar fun m hm => hl.mem_iff.mp hm
    have hsame := htraced.same_top hsim (version_injOn hpw) htop hlost fun m hm => by
      simpa using hl.mem_iff.mpr hm
    exact ⟨hsame.1, hsame.2.1, htraced.text hsame.2.2⟩

end Ircu.Revision
