import Mathlib.Logic.Basic

/-!
# Programs over a state

Sequential C code with global state is written as programs that read a fixed context and
transform a state.  This module gives the program monad and its weakest preconditions.

Main results:

- Theorems {lit}`wp_bind`, {lit}`wp_ite` and the other rewriting rules: preconditions are
  computed through the program text.
- Theorem {lit}`wp_mono`: a proved specification of a callee is used at its call.
-/

namespace ZyxelRouter
namespace Lib

/-- A program with context {lit}`ρ`, state {lit}`σ` and result {lit}`α`. -/
def Prog (ρ σ α : Type) : Type :=
  ρ → σ → α × σ

namespace Prog

variable {ρ σ α β : Type}

instance : Monad (Prog ρ σ) where
  pure a := fun _ s => (a, s)
  bind c f := fun r s =>
    match c r s with
    | (a, s') => f a r s'

/-- The context. -/
def ask : Prog ρ σ ρ :=
  fun r s => (r, s)

/-- The state. -/
def get : Prog ρ σ σ :=
  fun _ s => (s, s)

/-- Change the state. -/
def modify (f : σ → σ) : Prog ρ σ Unit :=
  fun _ s => ((), f s)

/-- Run a state transformer that also needs the context. -/
def step (f : ρ → σ → α × σ) : Prog ρ σ α :=
  f

/-- {lit}`Q` holds of the result and the state after running the program. -/
def wp (c : Prog ρ σ α) (r : ρ) (Q : α → σ → Prop) (s : σ) : Prop :=
  Q (c r s).1 (c r s).2

/-! ## Running -/

/-- The result and the state after running the program. -/
def run (c : Prog ρ σ α) (r : ρ) (s : σ) : α × σ :=
  c r s

section Runs

variable {r : ρ} {s : σ}

theorem run_pure (a : α) : run (pure a : Prog ρ σ α) r s = (a, s) :=
  rfl

theorem run_bind (c : Prog ρ σ β) (f : β → Prog ρ σ α) :
    run (c >>= f) r s = run (f (run c r s).1) r (run c r s).2 :=
  rfl

theorem run_ask_bind (f : ρ → Prog ρ σ α) : run (ask >>= f) r s = run (f r) r s :=
  rfl

theorem run_get_bind (f : σ → Prog ρ σ α) : run (get >>= f) r s = run (f s) r s :=
  rfl

theorem run_ite {p : Prop} [Decidable p] (c d : Prog ρ σ α) :
    run (if p then c else d) r s = if p then run c r s else run d r s := by
  split
  · rfl
  · rfl

end Runs

/-! ## Weakest preconditions -/

section Rules

variable {r : ρ} {s : σ} {Q Q' : α → σ → Prop}

@[simp]
theorem wp_pure (a : α) : wp (pure a : Prog ρ σ α) r Q s ↔ Q a s :=
  Iff.rfl

@[simp]
theorem wp_bind (c : Prog ρ σ β) (f : β → Prog ρ σ α) :
    wp (c >>= f) r Q s ↔ wp c r (fun b s' => wp (f b) r Q s') s :=
  Iff.rfl

@[simp]
theorem wp_ask {Q : ρ → σ → Prop} : wp (ask : Prog ρ σ ρ) r Q s ↔ Q r s :=
  Iff.rfl

@[simp]
theorem wp_get {Q : σ → σ → Prop} : wp (get : Prog ρ σ σ) r Q s ↔ Q s s :=
  Iff.rfl

@[simp]
theorem wp_modify {Q : Unit → σ → Prop} (f : σ → σ) :
    wp (modify f : Prog ρ σ Unit) r Q s ↔ Q () (f s) :=
  Iff.rfl

@[simp]
theorem wp_step (f : ρ → σ → α × σ) : wp (step f) r Q s ↔ Q (f r s).1 (f r s).2 :=
  Iff.rfl

/-- A conditional, with its condition as a hypothesis in either branch. -/
theorem wp_ite {p : Prop} [Decidable p] {c d : Prog ρ σ α} :
    wp (if p then c else d) r Q s ↔ (p → wp c r Q s) ∧ (¬ p → wp d r Q s) := by
  by_cases hp : p
  · simp [hp]
  · simp [hp]

/-- A weaker postcondition follows. -/
theorem wp_mono {c : Prog ρ σ α}
    (h : wp c r Q s)
    (hQ : ∀ a s', Q a s' → Q' a s') :
    wp c r Q' s :=
  hQ _ _ h

/-- Two postconditions hold together. -/
theorem wp_and {c : Prog ρ σ α}
    (h : wp c r Q s)
    (h' : wp c r Q' s) :
    wp c r (fun a s' => Q a s' ∧ Q' a s') s :=
  ⟨h, h'⟩

/-- Every program has the postcondition that says what it computes. -/
theorem wp_run (c : Prog ρ σ α) (r : ρ) (s : σ) :
    wp c r (fun a s' => c r s = (a, s')) s :=
  rfl

end Rules

end Prog

end Lib
end ZyxelRouter
