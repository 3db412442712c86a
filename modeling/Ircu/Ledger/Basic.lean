import Mathlib.Tactic

/-!
Ledgers: that what is opened is settled once.

Items are opened under numbers that are never used again. Some of them are held; the others
have been settled or dropped. The ledger is the list of everything that happened, the last
entry first. `fits` says what may be dropped on which grounds.

* `Balanced`: every item that was opened is either held, and then nothing has happened to it, or
  it was settled once, or dropped once, and not both.
* `Balanced.opened`, `Balanced.ended`: an item is opened, or comes to its end;
  `Balanced.endedAll` for several at once.
* `Balanced.cases`: what has become of an item.
-/

namespace Ledger

open List

/-- What happens to an item: it is opened with contents `V`, settled with a result `R`, or dropped
on grounds `D`. -/
inductive Posting (V R D : Type*)
  | opened (a : ℕ) (v : V)
  | settled (a : ℕ) (res : R)
  | dropped (a : ℕ) (d : D)

variable {V R D : Type*}

def Posting.settles (a : ℕ) : Posting V R D → Bool
  | settled b _ => b = a
  | _ => false

def Posting.drops (a : ℕ) : Posting V R D → Bool
  | dropped b _ => b = a
  | _ => false

variable (book : List (Posting V R D)) (a : ℕ)

def settlements : ℕ := book.countP (Posting.settles a)

def drops : ℕ := book.countP (Posting.drops a)

def endings : ℕ := settlements book a + drops book a

section Counts

variable (book : List (Posting V R D)) (a b : ℕ) (v : V) (res : R) (d : D)

@[simp] lemma endings_opened : endings (.opened b v :: book) a = endings book a := by
  simp [endings, settlements, drops, Posting.settles, Posting.drops]

@[simp] lemma endings_settled :
    endings (.settled b res :: book) a = endings book a + if b = a then 1 else 0 := by
  simp only [endings, settlements, drops, countP_cons, Posting.settles, Posting.drops,
    decide_eq_true_eq]
  simp
  omega

@[simp] lemma endings_dropped :
    endings (.dropped b d :: book) a = endings book a + if b = a then 1 else 0 := by
  simp only [endings, settlements, drops, countP_cons, Posting.settles, Posting.drops,
    decide_eq_true_eq]
  simp
  omega

end Counts

/-- **The ledger is balanced**, with the items `held` and the numbers below `next` in use. -/
structure Balanced (fits : V → D → Prop) (book : List (Posting V R D)) (held : List (ℕ × V))
    (next : ℕ) : Prop where
  lt : ∀ a v, .opened a v ∈ book → a < next
  fresh : ∀ a, next ≤ a → endings book a = 0
  kept : ∀ a v, (a, v) ∈ held → .opened a v ∈ book ∧ endings book a = 0
  unique : ∀ a v w, .opened a v ∈ book → .opened a w ∈ book → v = w
  gone : ∀ a v, .opened a v ∈ book → (a, v) ∉ held → endings book a = 1
  fit : ∀ a d, .dropped a d ∈ book → ∃ v, .opened a v ∈ book ∧ fits v d

namespace Balanced

variable {fits : V → D → Prop} {book : List (Posting V R D)} {held held' : List (ℕ × V)}
  {next a : ℕ} {v : V}

lemma empty : Balanced fits ([] : List (Posting V R D)) [] next where
  lt _ _ h := by cases h
  fresh _ _ := rfl
  kept _ _ h := by cases h
  unique _ _ _ h := by cases h
  gone _ _ h := by cases h
  fit _ _ h := by cases h

variable (h : Balanced fits book held next)

include h

lemma congr (hmem : ∀ x, x ∈ held' ↔ x ∈ held) : Balanced fits book held' next :=
  ⟨h.lt, h.fresh, fun a v hx => h.kept a v ((hmem _).mp hx), h.unique,
    fun a v ho hx => h.gone a v ho fun hin => hx ((hmem _).mpr hin), h.fit⟩

lemma opened (v) : Balanced fits (.opened next v :: book) ((next, v) :: held) (next + 1) where
  lt b w hb := by
    rcases mem_cons.mp hb with heq | hb
    · obtain ⟨rfl, -⟩ := Posting.opened.inj heq
      omega
    · have := h.lt b w hb
      omega
  fresh b hb := by
    exact h.fresh b (by omega)
  kept b w hb := by
    rw [endings_opened]
    rcases mem_cons.mp hb with heq | hb
    · obtain ⟨rfl, rfl⟩ := Prod.mk.inj heq
      exact ⟨mem_cons_self, h.fresh b le_rfl⟩
    · obtain ⟨ho, hcount⟩ := h.kept b w hb
      exact ⟨mem_cons_of_mem _ ho, hcount⟩
  unique b w w' hb hb' := by
    rcases mem_cons.mp hb with heq | hb <;> rcases mem_cons.mp hb' with heq' | hb'
    · exact (Posting.opened.inj heq).2.trans (Posting.opened.inj heq').2.symm
    · exact absurd (h.lt b w' hb') (by rw [(Posting.opened.inj heq).1]; omega)
    · exact absurd (h.lt b w hb) (by rw [(Posting.opened.inj heq').1]; omega)
    · exact h.unique b w w' hb hb'
  gone b w hb hx := by
    rcases mem_cons.mp hb with heq | hb
    · obtain ⟨rfl, rfl⟩ := Posting.opened.inj heq
      exact absurd mem_cons_self hx
    · exact h.gone b w hb fun hin => hx (mem_cons_of_mem _ hin)
  fit b d hb := by
    obtain ⟨w, hw, hfit⟩ := h.fit b d (by simpa using hb)
    exact ⟨w, mem_cons_of_mem _ hw, hfit⟩

lemma ended (hv : (a, v) ∈ held) (hmem : ∀ x, x ∈ held' ↔ x ∈ held ∧ x.1 ≠ a) {e : Posting V R D}
    (he : (∃ res, e = .settled a res) ∨ ∃ d, e = .dropped a d ∧ fits v d) :
    Balanced fits (e :: book) held' next := by
  have hopen : ∀ b w, .opened b w ∈ e :: book → .opened b w ∈ book := by
    intro b w hb
    rcases he with ⟨res, rfl⟩ | ⟨d, rfl, -⟩ <;> simpa using hb
  have hend : ∀ b, endings (e :: book) b = endings book b + if a = b then 1 else 0 := by
    intro b
    rcases he with ⟨res, rfl⟩ | ⟨d, rfl, -⟩
    · exact endings_settled book b a res
    · exact endings_dropped book b a d
  refine ⟨fun b w hb => h.lt b w (hopen b w hb), fun b hb => ?_, fun b w hb => ?_,
    fun b w w' hb hb' => h.unique b w w' (hopen b w hb) (hopen b w' hb'), fun b w hb hx => ?_,
    fun b d hb => ?_⟩
  · have hlt := h.lt a v (h.kept a v hv).1
    rw [hend, if_neg (by omega), h.fresh b hb]
  · obtain ⟨hin, hne⟩ := (hmem _).mp hb
    obtain ⟨ho, hcount⟩ := h.kept b w hin
    exact ⟨mem_cons_of_mem _ ho, by rw [hend, if_neg (Ne.symm hne), hcount]⟩
  · rw [hend]
    by_cases hab : a = b
    · subst hab
      rw [if_pos rfl, (h.kept a v hv).2]
    · rw [if_neg hab]
      exact h.gone b w (hopen b w hb) fun hin => hx ((hmem _).mpr ⟨hin, Ne.symm hab⟩)
  rcases mem_cons.mp hb with rfl | hb
  · rcases he with ⟨res, heq⟩ | ⟨d', heq, hfits⟩
    · cases heq
    · obtain ⟨rfl, rfl⟩ := Posting.dropped.inj heq
      exact ⟨v, mem_cons_of_mem _ (h.kept b v hv).1, hfits⟩
  · obtain ⟨w, hw, hfit⟩ := h.fit b d hb
    exact ⟨w, mem_cons_of_mem _ hw, hfit⟩

lemma settled (hv : (a, v) ∈ held) (hmem : ∀ x, x ∈ held' ↔ x ∈ held ∧ x.1 ≠ a) (res) :
    Balanced fits (.settled a res :: book) held' next :=
  h.ended hv hmem (.inl ⟨res, rfl⟩)

lemma endedAll {gone : List (ℕ × V)} {e : ℕ × V → Posting V R D}
    (hnodup : (gone.map Prod.fst).Nodup) (hgone : ∀ x ∈ gone, x ∈ held)
    (hmem : ∀ x, x ∈ held' ↔ x ∈ held ∧ x.1 ∉ gone.map Prod.fst)
    (he : ∀ x ∈ gone, (∃ res, e x = .settled x.1 res) ∨ ∃ d, e x = .dropped x.1 d ∧ fits x.2 d) :
    Balanced fits ((gone.map e).reverse ++ book) held' next := by
  induction gone generalizing book held with
  | nil => exact h.congr fun x => by simp [hmem]
  | cons x gone ih =>
    rw [map_cons, nodup_cons] at hnodup
    rw [map_cons, reverse_cons, append_assoc]
    have hone : Balanced fits (e x :: book) (held.filter fun y => y.1 ≠ x.1) next :=
      h.ended (hgone x mem_cons_self) (fun y => by simp) (he x mem_cons_self)
    refine ih hone hnodup.2 (fun y hy => ?_) (fun y => ?_)
      fun y hy => he y (mem_cons_of_mem _ hy)
    · refine mem_filter.mpr ⟨hgone y (mem_cons_of_mem _ hy), ?_⟩
      simp only [ne_eq, decide_eq_true_eq]
      rintro heq
      exact hnodup.1 (heq ▸ mem_map_of_mem hy)
    · rw [hmem, map_cons, mem_cons]
      simp [and_assoc]

/-- **An item that was opened** is held and nothing has happened to it, or it was settled once and
not dropped, or dropped once and not settled. -/
theorem cases (ho : .opened a v ∈ book) :
    ((a, v) ∈ held ∧ settlements book a = 0 ∧ drops book a = 0) ∨
      ((a, v) ∉ held ∧ settlements book a = 1 ∧ drops book a = 0) ∨
      ((a, v) ∉ held ∧ settlements book a = 0 ∧ ∃ d, .dropped a d ∈ book ∧ fits v d) := by
  by_cases hin : (a, v) ∈ held
  · have hnone := (h.kept a v hin).2
    rw [endings] at hnone
    exact .inl ⟨hin, by omega, by omega⟩
  have hone := h.gone a v ho hin
  rw [endings] at hone
  by_cases hset : settlements book a = 1
  · exact .inr (.inl ⟨hin, hset, by omega⟩)
  have hdrop : 0 < drops book a := by omega
  obtain ⟨e, he, hdrops⟩ := countP_pos_iff.mp hdrop
  cases e with
  | opened b w | settled b res => cases hdrops
  | dropped b d =>
    obtain rfl : b = a := by simpa [Posting.drops] using hdrops
    obtain ⟨w, hw, hfit⟩ := h.fit b d he
    obtain rfl := h.unique b v w ho hw
    exact .inr (.inr ⟨hin, by omega, d, he, hfit⟩)

end Balanced

end Ledger
