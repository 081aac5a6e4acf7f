import Webserv.ForStd.Transition

/-!
# Simulation between transition systems

A relation between the states of two systems such that each step of the concrete
one is matched by steps of the abstract one.  The abstract steps make the events
that are `visible` in the concrete event: none for a hidden step.

## Key results

- `Simulation.run`: what holds of one step holds of whole runs
-/

namespace Transition

variable {σ τ ε δ : Type*}

/-- The events of a run that the level above sees. -/
def visible (see : ε → List δ) (es : List ε) : List δ := es.flatMap see

/-- What two runs show, one behind the other. -/
@[simp] theorem visible_append (see : ε → List δ) (es es' : List ε) :
    visible see (es ++ es') = visible see es ++ visible see es' := List.flatMap_append

/-- The last event shows last. -/
theorem visible_snoc (see : ε → List δ) (es : List ε) (e : ε) :
    visible see (es ++ [e]) = visible see es ++ see e := by
  rw [visible_append]
  exact congrArg (visible see es ++ ·) (List.flatMap_singleton see e)

/-- A run in a system with fewer steps. -/
theorem Run.mono {step step' : σ → ε → σ → Prop} (hstep : ∀ s e s', step s e s' → step' s e s')
    {s s' : σ} {es : List ε} (h : Run step s es s') : Run step' s es s' := by
  induction h with
  | nil => exact .nil
  | snoc _ hlast ih => exact ih.snoc (hstep _ _ _ hlast)

/-- Related states stay related, whatever the concrete system does. -/
structure Simulation (concrete : σ → ε → σ → Prop) (abstract : τ → δ → τ → Prop)
    (see : ε → List δ) (Related : σ → τ → Prop) : Prop where
  step : ∀ s t e s', Related s t → concrete s e s' →
    ∃ t', Run abstract t (see e) t' ∧ Related s' t'

section simulation
variable {concrete : σ → ε → σ → Prop} {abstract : τ → δ → τ → Prop} {see : ε → List δ}
  {Related : σ → τ → Prop}

/-- Every run of the concrete system is matched by one of the abstract system that makes the
    visible events. -/
theorem Simulation.run (hsim : Simulation concrete abstract see Related) {s s' : σ} {t : τ}
    {es : List ε} (h : Run concrete s es s') (hrel : Related s t) :
    ∃ t', Run abstract t (visible see es) t' ∧ Related s' t' := by
  induction h with
  | nil => exact ⟨t, .nil, hrel⟩
  | snoc _ hstep ih =>
    -- the steps that match the last one come behind those that match the others
    obtain ⟨t₁, hrun, hrel₁⟩ := ih
    obtain ⟨t', hlast, hrel'⟩ := hsim.step _ t₁ _ _ hrel₁ hstep
    refine ⟨t', ?_, hrel'⟩
    rw [visible_snoc]
    exact hrun.append hlast

end simulation

end Transition
