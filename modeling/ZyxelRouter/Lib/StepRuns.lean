import Mathlib.Data.List.Basic
import Mathlib.Data.List.Infix

/-!
# Runs of a step function

What holds of every step of a run, where a step is an action with the state it meets.

Main results:

- Theorem {lit}`everyStep_cons`: the first step and the run behind it.
- Theorem {lit}`EveryStep.invariant`: what the steps keep holds in the state behind the run.
- Theorem {lit}`everyStep_congr`: two conditions that agree on the states of an invariant agree on runs.
- Theorem {lit}`simulates_iff`: when a run keeps up with the run of a second system.
-/

namespace ZyxelRouter
namespace Lib

variable {S A : Type} {step : S → A → S} {P Q : S → A → Prop} {I : S → Prop} {s : S}

/-- Every action of a run and the state it meets. -/
def EveryStep (step : S → A → S) (P : S → A → Prop) (s : S) (actions : List A) : Prop :=
  ∀ before action, before ++ [action] <+: actions → P (before.foldl step s) action

theorem everyStep_nil : EveryStep step P s [] := by
  intro before action hrun
  exact absurd (List.prefix_nil.mp hrun) (by simp)

theorem everyStep_cons {action : A} {actions : List A} :
    EveryStep step P s (action :: actions) ↔
      P s action ∧ EveryStep step P (step s action) actions := by
  constructor
  · intro h
    constructor
    · exact h [] action (by simp)
    · intro before next hrun
      exact h (action :: before) next (by simpa using hrun)
  · rintro ⟨hfirst, hrest⟩ before next hrun
    cases before with
    | nil =>
        have heq : next = action := by simpa using hrun
        exact heq ▸ hfirst
    | cons head before =>
        obtain ⟨rfl, htail⟩ := List.cons_prefix_cons.mp hrun
        exact hrest before next htail

/-- What each step keeps holds in the state behind a run. -/
theorem EveryStep.invariant (hkeep : ∀ s a, I s → P s a → I (step s a)) :
    ∀ {actions : List A} {s : S}, I s → EveryStep step P s actions →
      I (actions.foldl step s) := by
  intro actions
  induction actions with
  | nil =>
      intro s hs _
      exact hs
  | cons action actions ih =>
      intro s hs h
      obtain ⟨hfirst, hrest⟩ := everyStep_cons.mp h
      exact ih (hkeep s action hs hfirst) hrest

/-- Conditions that agree in the states of an invariant, which the first of them keeps. -/
theorem everyStep_congr (hkeep : ∀ s a, I s → P s a → I (step s a))
    (hiff : ∀ s a, I s → (P s a ↔ Q s a)) :
    ∀ {actions : List A} {s : S}, I s →
      (EveryStep step P s actions ↔ EveryStep step Q s actions) := by
  intro actions
  induction actions with
  | nil =>
      intro s _
      exact iff_of_true everyStep_nil everyStep_nil
  | cons action actions ih =>
      intro s hs
      rw [everyStep_cons, everyStep_cons, hiff s action hs]
      apply and_congr_right
      intro hfirst
      exact ih (hkeep s action hs ((hiff s action hs).mpr hfirst))

/-- A run is simulated up to each of its states, exactly if each step meets the condition under which one
step is. -/
theorem simulates_iff {M : Type} {apply : M → A → M} {R : S → M → Prop}
    (hstep : ∀ s m a, R s m → (R (step s a) (apply m a) ↔ P s a)) :
    ∀ {actions : List A} {s : S} {m : M}, R s m →
      ((∀ done, done <+: actions → R (done.foldl step s) (done.foldl apply m)) ↔
        EveryStep step P s actions) := by
  intro actions
  induction actions with
  | nil =>
      intro s m hs
      refine iff_of_true ?_ everyStep_nil
      intro done hdone
      rw [List.prefix_nil.mp hdone]
      exact hs
  | cons action actions ih =>
      intro s m hs
      rw [everyStep_cons]
      constructor
      · intro h
        have hfirst : R (step s action) (apply m action) := h [action] (by simp)
        refine ⟨(hstep s m action hs).mp hfirst, (ih hfirst).mp ?_⟩
        intro done hdone
        exact h (action :: done) (by simpa using hdone)
      · rintro ⟨hfirst, hrest⟩ done hdone
        cases done with
        | nil => exact hs
        | cons head done =>
            obtain ⟨rfl, htail⟩ := List.cons_prefix_cons.mp hdone
            exact (ih ((hstep s m head hs).mpr hfirst)).mpr hrest done htail

end Lib
end ZyxelRouter
