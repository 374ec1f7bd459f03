import ZyxelRouter.Lib.StateProg

/-!
# Programs whose loops may not end

A loop that nothing bounds is a recursion on fuel that gives no result when the fuel runs out.  A program
made of such loops ends if, from some amount of fuel on, it has one result, whatever the fuel.

Main results:

- Theorems {lit}`ends_bind`, {lit}`ends_lift`: programs that end as one without such loops does.
- Theorems {lit}`endsWithin_bind`, {lit}`endsWithin_of_ends`: an amount of fuel that is enough for all
  parts is enough for the whole.
-/

namespace ZyxelRouter
namespace Lib

open Prog

/-- A program that may run out of fuel. -/
abbrev Fuelled (ρ σ α : Type) := OptionT (Prog ρ σ) α

namespace Fuelled

variable {ρ σ α β : Type} {r : ρ} {s : σ}

/-- A program without such loops. -/
def lift (d : Prog ρ σ α) : Fuelled ρ σ α :=
  OptionT.mk (d >>= fun a => pure (some a))

/-- No fuel is left. -/
def outOfFuel : Fuelled ρ σ α :=
  OptionT.mk (pure none)

theorem run_bind_some {c : Fuelled ρ σ β} {f : β → Fuelled ρ σ α} {b : β} {s' : σ}
    (h : run c.run r s = (some b, s')) : run (c >>= f).run r s = run (f b).run r s' := by
  change run (c.run >>= fun o => match o with
    | some b => (f b).run
    | none => pure none) r s = _
  rw [run_bind, h]

/-! ## Programs that end as another one -/

/-- The program ends as one without such loops does. -/
def Ends (c : Fuelled ρ σ α) (d : Prog ρ σ α) (r : ρ) (s : σ) : Prop :=
  run c.run r s = (some (run d r s).1, (run d r s).2)

theorem ends_pure (a : α) : Ends (pure a : Fuelled ρ σ α) (pure a) r s :=
  rfl

theorem ends_lift (d : Prog ρ σ α) : Ends (lift d) d r s :=
  rfl

/-- The two programs go on from the same result in the same state. -/
theorem ends_bind {c : Fuelled ρ σ β} {d : Prog ρ σ β} {f : β → Fuelled ρ σ α}
    {g : β → Prog ρ σ α} (h : Ends c d r s) (hf : wp d r (fun b s' => Ends (f b) (g b) r s') s) :
    Ends (c >>= f) (d >>= g) r s := by
  rw [Ends, run_bind_some h, run_bind]
  exact hf

/-- A call of a program without such loops. -/
theorem ends_lift_bind {d : Prog ρ σ β} {f : β → Fuelled ρ σ α} {g : β → Prog ρ σ α}
    (hf : wp d r (fun b s' => Ends (f b) (g b) r s') s) : Ends (lift d >>= f) (d >>= g) r s :=
  ends_bind (ends_lift d) hf

theorem ends_pure_left {b : β} {f : β → Fuelled ρ σ α} {d : Prog ρ σ α} :
    Ends (lift (pure b) >>= f) d r s ↔ Ends (f b) d r s :=
  Iff.rfl

/-- Programs without such loops may be called one after another. -/
theorem ends_lift_assoc {γ : Type} {d : Prog ρ σ β} {f : β → Prog ρ σ γ} {g : γ → Fuelled ρ σ α}
    {e : Prog ρ σ α} :
    Ends (lift (d >>= f) >>= g) e r s ↔ Ends (lift d >>= fun b => lift (f b) >>= g) e r s :=
  Iff.rfl

/-- Looking at the state or the context changes nothing. -/
theorem ends_get_left {f : σ → Fuelled ρ σ α} {d : Prog ρ σ α} :
    Ends (lift get >>= f) d r s ↔ Ends (f s) d r s :=
  Iff.rfl

theorem ends_ask_left {f : ρ → Fuelled ρ σ α} {d : Prog ρ σ α} :
    Ends (lift ask >>= f) d r s ↔ Ends (f r) d r s :=
  Iff.rfl

theorem ends_get_right {c : Fuelled ρ σ α} {g : σ → Prog ρ σ α} :
    Ends c (get >>= g) r s ↔ Ends c (g s) r s :=
  Iff.rfl

theorem ends_ask_right {c : Fuelled ρ σ α} {g : ρ → Prog ρ σ α} :
    Ends c (ask >>= g) r s ↔ Ends c (g r) r s :=
  Iff.rfl

/-! ## Enough fuel -/

/-- From {lit}`N` on, all amounts of fuel give one result, for which {lit}`Q` holds. -/
def EndsWithin (N : Nat) (c : Nat → Fuelled ρ σ α) (r : ρ) (Q : α → σ → Prop) (s : σ) : Prop :=
  ∃ a s', (∀ fuel, N ≤ fuel → run (c fuel).run r s = (some a, s')) ∧ Q a s'

section Enough

variable {N : Nat} {c : Nat → Fuelled ρ σ α} {Q Q' : α → σ → Prop}

theorem endsWithin_of_ends {d : Prog ρ σ α} (h : ∀ fuel, N ≤ fuel → Ends (c fuel) d r s)
    (hd : wp d r Q s) : EndsWithin N c r Q s :=
  ⟨_, _, h, hd⟩

/-- What holds of the result holds of that of the program it ends as. -/
theorem wp_of_endsWithin {d : Prog ρ σ α} (h : EndsWithin N c r Q s) (hd : Ends (c N) d r s) :
    wp d r Q s := by
  obtain ⟨a, s', hrun, hpost⟩ := h
  rw [Ends, hrun N (Nat.le_refl N), Prod.mk.injEq, Option.some.injEq] at hd
  show Q (run d r s).1 (run d r s).2
  rw [← hd.1, ← hd.2]
  exact hpost

theorem endsWithin_lift {d : Prog ρ σ α} (hd : wp d r Q s) : EndsWithin N (fun _ => lift d) r Q s :=
  endsWithin_of_ends (fun _ _ => ends_lift d) hd

theorem endsWithin_pure {a : α} (h : Q a s) : EndsWithin N (fun _ => pure a) r Q s :=
  endsWithin_of_ends (fun _ _ => ends_pure a) h

/-- Only the programs with enough fuel matter. -/
theorem endsWithin_congr {c' : Nat → Fuelled ρ σ α} (h : EndsWithin N c r Q s)
    (hc : ∀ fuel, N ≤ fuel → c' fuel = c fuel) : EndsWithin N c' r Q s := by
  obtain ⟨a, s', hrun, hpost⟩ := h
  exact ⟨a, s', fun fuel hfuel => by rw [hc fuel hfuel, hrun fuel hfuel], hpost⟩

theorem endsWithin_bind {b : Nat → Fuelled ρ σ β} {f : Nat → β → Fuelled ρ σ α}
    {R : β → σ → Prop} (h : EndsWithin N b r R s)
    (hf : ∀ x s', R x s' → EndsWithin N (fun fuel => f fuel x) r Q s') :
    EndsWithin N (fun fuel => b fuel >>= f fuel) r Q s := by
  obtain ⟨x, s', hrun, hpost⟩ := h
  obtain ⟨a, s'', hrun', hpost'⟩ := hf x s' hpost
  exact ⟨a, s'', fun fuel hfuel => by rw [run_bind_some (hrun fuel hfuel), hrun' fuel hfuel], hpost'⟩

/-- A call of a program without such loops. -/
theorem endsWithin_lift_bind {d : Prog ρ σ β} {f : Nat → β → Fuelled ρ σ α}
    (hf : wp d r (fun x s' => EndsWithin N (fun fuel => f fuel x) r Q s') s) :
    EndsWithin N (fun fuel => lift d >>= f fuel) r Q s :=
  endsWithin_bind (endsWithin_lift hf) (fun _ _ h => h)

end Enough

end Fuelled
end Lib
end ZyxelRouter
