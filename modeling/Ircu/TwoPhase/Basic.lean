import Mathlib.Tactic
import Mathlib.Logic.Relation

/-!
Two-phase commit, as seen by the coordinator and one of the participants.

The coordinator asks the participant to prepare, and the participant agrees or refuses. The
coordinator commits once it has heard everybody agree; it aborts when somebody has refused, or when
it does not want to wait any longer. A participant that has agreed waits for the outcome, but it may
give up waiting. Messages of either direction stay in order. What the other participants do shows in
two ways only: the coordinator may find out at any time that the transaction fails, and it may have
to wait for others.

* `Step`: what can happen. A participant gives up only if the coordinator is bound to abort.
* `Good`: the states that are reached, and `Good.steps`.
* `Good.committed`, `Good.aborted`: what the participant did in the end.
-/

namespace TwoPhase

/-- The coordinator: it has not begun; it waits for this participant or not, and knows of a failure
or not; it is done. -/
inductive Coord
  | idle
  | active (waits failed : Bool)
  | done (commit : Bool)
  deriving DecidableEq

/-- The participant: it has nothing to do with the transaction; it has agreed; it has kept or undone
what it prepared. -/
inductive Part
  | out
  | ready
  | settled (commit : Bool)
  deriving DecidableEq

inductive Down
  | prepare
  | outcome (commit : Bool)
  deriving DecidableEq

/-- The two and what is under way between them. The participant answers whether it is ready. -/
structure State where
  coord : Coord
  part : Part
  down : List Down
  up : List Bool
  deriving DecidableEq

/-- The transaction cannot be committed any more. -/
inductive Doomed : Coord → Prop
  | failed (w : Bool) : Doomed (.active w true)
  | aborted : Doomed (.done false)

inductive Step : State → State → Prop
  | ask (p d u) : Step ⟨.idle, p, d, u⟩ ⟨.active true false, p, d ++ [.prepare], u⟩
  | accept (c d u) : Step ⟨c, .out, .prepare :: d, u⟩ ⟨c, .ready, d, u ++ [true]⟩
  | refuse (c d u) : Step ⟨c, .out, .prepare :: d, u⟩ ⟨c, .out, d, u ++ [false]⟩
  | answer (w f p d b u) :
      Step ⟨.active w f, p, d, b :: u⟩ ⟨.active false (f || !b), p, d, u⟩
  | stale {c} (hc : ∀ w f, c ≠ .active w f) (p d b u) : Step ⟨c, p, d, b :: u⟩ ⟨c, p, d, u⟩
  | fail (w f p d u) : Step ⟨.active w f, p, d, u⟩ ⟨.active w true, p, d, u⟩
  | commit (p d u) :
      Step ⟨.active false false, p, d, u⟩ ⟨.done true, p, d ++ [.outcome true], u⟩
  | abort (w p d u) :
      Step ⟨.active w true, p, d, u⟩ ⟨.done false, p, d ++ [.outcome false], u⟩
  | settle (c b d u) : Step ⟨c, .ready, .outcome b :: d, u⟩ ⟨c, .settled b, d, u⟩
  | ignore {p} (hp : p ≠ .ready) (c b d u) : Step ⟨c, p, .outcome b :: d, u⟩ ⟨c, p, d, u⟩
  | giveUp {c} (hc : Doomed c) (d u) : Step ⟨c, .ready, d, u⟩ ⟨c, .settled false, d, u⟩

abbrev Steps : State → State → Prop := Relation.ReflTransGen Step

inductive Good : State → Prop
  | idle : Good ⟨.idle, .out, [], []⟩
  | asked (f) : Good ⟨.active true f, .out, [.prepare], []⟩
  | agreed (f) : Good ⟨.active true f, .ready, [], [true]⟩
  | refused (f) : Good ⟨.active true f, .out, [], [false]⟩
  | gaveUp : Good ⟨.active true true, .settled false, [], [true]⟩
  | heardReady (f) : Good ⟨.active false f, .ready, [], []⟩
  | heardFailed : Good ⟨.active false true, .out, [], []⟩
  | heardGone : Good ⟨.active false true, .settled false, [], []⟩
  | committing : Good ⟨.done true, .ready, [.outcome true], []⟩
  | committed : Good ⟨.done true, .settled true, [], []⟩
  | late : Good ⟨.done false, .out, [.prepare, .outcome false], []⟩
  | aborting {p} (hp : p ≠ .settled true) (u) : Good ⟨.done false, p, [.outcome false], u⟩
  | aborted {p} (hp : p = .out ∨ p = .settled false) (u) : Good ⟨.done false, p, [], u⟩

lemma Good.step {s t} (hs : Good s) (h : Step s t) : Good t := by
  cases h with
  | ask => cases hs; exact .asked false
  | accept =>
    cases hs with
    | asked f => exact .agreed f
    | late => exact .aborting (by decide) _
  | refuse =>
    cases hs with
    | asked f => exact .refused f
    | late => exact .aborting (by decide) _
  | answer =>
    cases hs with
    | agreed f =>
      exact .heardReady _
    | refused f =>
      rw [Bool.not_false, Bool.or_true]
      exact .heardFailed
    | gaveUp => exact .heardGone
  | stale hc =>
    cases hs with
    | agreed | refused | gaveUp => exact absurd rfl (hc _ _)
    | aborting hp => exact .aborting hp _
    | aborted hp => exact .aborted hp _
  | fail =>
    cases hs with
    | asked => exact .asked true
    | agreed => exact .agreed true
    | refused => exact .refused true
    | gaveUp => exact .gaveUp
    | heardReady => exact .heardReady true
    | heardFailed => exact .heardFailed
    | heardGone => exact .heardGone
  | commit => cases hs; exact .committing
  | abort =>
    cases hs with
    | asked => exact .late
    | agreed | refused | gaveUp | heardReady | heardFailed | heardGone =>
      exact .aborting (by decide) _
  | settle =>
    cases hs with
    | committing => exact .committed
    | aborting => exact .aborted (.inr rfl) _
  | @ignore p hp =>
    cases hs with
    | committing => exact absurd rfl hp
    | aborting hp' =>
      refine .aborted ?_ _
      match p, hp, hp' with
      | .out, _, _ => exact .inl rfl
      | .settled false, _, _ => exact .inr rfl
  | giveUp hc =>
    cases hs with
    | agreed => cases hc; exact .gaveUp
    | heardReady => cases hc; exact .heardGone
    | committing => cases hc
    | aborting => exact .aborting (by decide) _
    | aborted hp => simp at hp

lemma Good.steps {s t} (hs : Good s) (h : Steps s t) : Good t := by
  induction h with
  | refl => exact hs
  | tail _ hstep ih => exact ih.step hstep

lemma Good.asked_out {c p d u} (h : Good ⟨c, p, .prepare :: d, u⟩) : p = .out := by
  cases h <;> rfl

/-- **Commit.** Once nothing is under way to the participant, it has kept what it prepared. -/
lemma Good.committed_settled {p u} (h : Good ⟨.done true, p, [], u⟩) : p = .settled true := by
  cases h
  rfl

/-- **Abort.** Once nothing is under way to the participant, it has nothing prepared. -/
lemma Good.aborted_settled {p u} (h : Good ⟨.done false, p, [], u⟩) :
    p = .out ∨ p = .settled false := by
  cases h with
  | aborted hp => exact hp

end TwoPhase
