import Mathlib.Tactic

/-!
Runs of a machine whose steps may fail.

A step has no result if something goes wrong in it. Which events the surroundings may bring
about in a state is said by a relation `allowed`; a sequence of events is permitted if each
event is allowed in the state that it meets.
-/

namespace Run

variable {σ ε : Type*} (step : σ → ε → Option σ) (allowed : σ → ε → Prop)

def run : σ → List ε → Option σ
  | s, [] => some s
  | s, e :: es => (step s e).bind fun s' => run s' es

/-- Each event is allowed in the state that it meets. -/
def Permitted : σ → List ε → Prop
  | _, [] => True
  | s, e :: es => allowed s e ∧ ∀ s', step s e = some s' → Permitted s' es

variable {step allowed} {s s' : σ} {e : ε} {es fs : List ε}

@[simp] lemma run_nil : run step s [] = some s := rfl

lemma run_cons : run step s (e :: es) = (step s e).bind fun s' => run step s' es := rfl

lemma run_cons_eq_some :
    run step s (e :: es) = some s' ↔ ∃ t, step s e = some t ∧ run step t es = some s' := by
  rw [run_cons, Option.bind_eq_some_iff]

lemma Permitted.cons (he : allowed s e) (heq : step s e = some s')
    (hes : Permitted step allowed s' es) : Permitted step allowed s (e :: es) :=
  ⟨he, fun _ h => Option.some.inj (heq.symm.trans h) ▸ hes⟩

lemma permitted_cons_iff (heq : step s e = some s') :
    Permitted step allowed s (e :: es) ↔ allowed s e ∧ Permitted step allowed s' es :=
  ⟨fun h => ⟨h.1, h.2 s' heq⟩, fun h => .cons h.1 heq h.2⟩

/-- Whether a given sequence is permitted can be found out by running it. -/
instance Permitted.decidable [∀ s e, Decidable (allowed s e)] :
    ∀ (s : σ) (es : List ε), Decidable (Permitted step allowed s es)
  | _, [] => .isTrue trivial
  | s, e :: es =>
    match heq : step s e with
    | some s' =>
      haveI := Permitted.decidable s' es
      decidable_of_iff _ (permitted_cons_iff heq).symm
    | none =>
      decidable_of_iff (allowed s e) ⟨fun h => ⟨h, fun _ h' => by simp [heq] at h'⟩, And.left⟩

/-- **Safety.** If allowed events do not fail and keep an invariant, then neither do permitted
sequences of them. -/
theorem run_safe (Inv : σ → Prop)
    (hstep : ∀ s e, Inv s → allowed s e → ∃ s', step s e = some s' ∧ Inv s') (hs : Inv s)
    (hes : Permitted step allowed s es) : ∃ s', run step s es = some s' ∧ Inv s' := by
  induction es generalizing s with
  | nil => exact ⟨s, rfl, hs⟩
  | cons e es ih =>
    obtain ⟨t, ht, hinv⟩ := hstep s e hs hes.1
    obtain ⟨s', hrun, hs'⟩ := ih hinv (hes.2 t ht)
    exact ⟨s', run_cons_eq_some.mpr ⟨t, ht, hrun⟩, hs'⟩

/-- What every step of a sequence keeps, the run keeps. -/
theorem run_keeps (Inv : σ → Prop)
    (hstep : ∀ e ∈ es, ∀ s s', Inv s → step s e = some s' → Inv s') (hs : Inv s)
    (hrun : run step s es = some s') : Inv s' := by
  induction es generalizing s with
  | nil => exact Option.some.inj hrun ▸ hs
  | cons e es ih =>
    obtain ⟨t, ht, hrest⟩ := run_cons_eq_some.mp hrun
    refine ih (fun f hf => hstep f (List.mem_cons_of_mem _ hf)) ?_ hrest
    exact hstep e List.mem_cons_self s t hs ht

end Run
