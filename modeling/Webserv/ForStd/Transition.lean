import Mathlib.Data.List.Induction
import Mathlib.Tactic.TypeStar

/-!
# Runs of a labelled transition system

A step relation that labels its steps with events.  `Run` is a finite run with
the events it made, and the rules say what an invariant is good for.

## Key results

- `Run.history`: an invariant of the state and the events so far
- `Run.invariant`: an invariant of the state alone
- `Run.exists_step`: a run stopped in front of one of its events
- `Run.forall_events`: what every step from an invariant state emits
- `Inevitably.of_wellFounded`: internal steps that cannot go on for ever
- `Run.of_halting`: a run that ends with its first event of a kind
-/

namespace Transition

variable {σ ε : Type*} {step : σ → ε → σ → Prop}

/-- A run and its events, in order. -/
inductive Run (step : σ → ε → σ → Prop) (s : σ) : List ε → σ → Prop where
  | nil : Run step s [] s
  | snoc {es : List ε} {s' s'' : σ} {e : ε} (h : Run step s es s') (hstep : step s' e s'') :
      Run step s (es ++ [e]) s''

/-- What holds at the start and is kept by every step holds at the end. -/
theorem Run.history {P : List ε → σ → Prop} {s s' : σ} {es : List ε} (h : Run step s es s')
    (hinit : P [] s) (hkeep : ∀ es s e s', P es s → step s e s' → P (es ++ [e]) s') : P es s' := by
  induction h with
  | nil => exact hinit
  | snoc _ hstep ih => exact hkeep _ _ _ _ ih hstep

/-- A run goes on from where another one ended. -/
theorem Run.append {s s' s'' : σ} {es es' : List ε} (h : Run step s es s')
    (h' : Run step s' es' s'') : Run step s (es ++ es') s'' := by
  induction h' with
  | nil => rwa [List.append_nil]
  | snoc _ hstep ih =>
    rw [← List.append_assoc]
    exact ih.snoc hstep

/-- The last step of a run. -/
theorem Run.exists_of_snoc {s s'' : σ} {es : List ε} {e : ε} (h : Run step s (es ++ [e]) s'') :
    ∃ s', Run step s es s' ∧ step s' e s'' := by
  -- the events are named, so that the last step can be split off
  generalize hes : es ++ [e] = es' at h
  cases h with
  | nil => simp at hes
  | snoc h hstep =>
    obtain ⟨rfl, he⟩ := List.append_inj' hes rfl
    cases he
    exact ⟨_, h, hstep⟩

/-- The state between two parts of a run. -/
theorem Run.exists_of_append {s s'' : σ} {es es' : List ε} (h : Run step s (es ++ es') s'') :
    ∃ s', Run step s es s' ∧ Run step s' es' s'' := by
  induction es' using List.reverseRecOn generalizing s'' with
  | nil => exact ⟨s'', by rwa [List.append_nil] at h, .nil⟩
  | append_singleton es' e ih =>
    rw [← List.append_assoc] at h
    obtain ⟨s₁, hrun, hstep⟩ := h.exists_of_snoc
    obtain ⟨s', hpre, hpost⟩ := ih hrun
    exact ⟨s', hpre, hpost.snoc hstep⟩

/-- The state in which an event of a run was made. -/
theorem Run.exists_step {s s'' : σ} {pre post : List ε} {e : ε}
    (h : Run step s (pre ++ e :: post) s'') :
    ∃ s₁ s₂, Run step s pre s₁ ∧ step s₁ e s₂ := by
  have happ : pre ++ e :: post = (pre ++ [e]) ++ post := by simp
  rw [happ] at h
  obtain ⟨s₂, hpre, -⟩ := h.exists_of_append
  obtain ⟨s₁, hrun, hstep⟩ := hpre.exists_of_snoc
  exact ⟨s₁, s₂, hrun, hstep⟩

/-- What holds at the start and is kept by every step, whatever happened before. -/
theorem Run.invariant {P : σ → Prop} {s s' : σ} {es : List ε} (h : Run step s es s')
    (hinit : P s) (hkeep : ∀ s e s', P s → step s e s' → P s') : P s' :=
  h.history (P := fun _ => P) hinit fun _ => hkeep

/-- Every event of a run from an invariant state is one such a state emits. -/
theorem Run.forall_events {P : σ → Prop} {Q : ε → Prop} {s s' : σ} {es : List ε}
    (h : Run step s es s') (hinit : P s) (hkeep : ∀ s e s', P s → step s e s' → P s' ∧ Q e) :
    ∀ e ∈ es, Q e := by
  -- both together are an invariant of the state and its events
  have hboth : P s' ∧ ∀ e ∈ es, Q e := by
    refine h.history (P := fun es s => P s ∧ ∀ e ∈ es, Q e) ⟨hinit, by simp⟩ ?_
    rintro es s e s' ⟨hP, hQ⟩ hstep
    obtain ⟨hP', hQe⟩ := hkeep s e s' hP hstep
    refine ⟨hP', fun e' he' => ?_⟩
    rcases List.mem_append.mp he' with he' | he'
    · exact hQ e' he'
    · rw [List.mem_singleton.mp he']
      exact hQe
  exact hboth.2

/-- Whatever internal steps are taken, an idle state is reached: there is always one
    more to take before it, and they cannot go on for ever. -/
inductive Inevitably (step : σ → ε → σ → Prop) (Internal : ε → Prop) (Idle : σ → Prop) :
    σ → Prop where
  | intro {s : σ} (hprogress : Idle s ∨ ∃ e s', Internal e ∧ step s e s')
      (hnext : ∀ e s', Internal e → step s e s' → Inevitably step Internal Idle s') :
      Inevitably step Internal Idle s

/-- The rule for a measure that every internal step lowers. -/
theorem Inevitably.of_wellFounded {μ : Type*} {r : μ → μ → Prop} (hwf : WellFounded r)
    {P : μ → σ → Prop} {Internal : ε → Prop} {Idle : σ → Prop}
    (hlower : ∀ m s e s', P m s → Internal e → step s e s' → ∃ m', r m' m ∧ P m' s')
    (hprogress : ∀ m s, P m s → Idle s ∨ ∃ e s', Internal e ∧ step s e s') {m : μ} {s : σ}
    (h : P m s) : Inevitably step Internal Idle s := by
  -- the measure of the state behind an internal step is lower
  induction m using hwf.induction generalizing s with
  | h m ih =>
    refine .intro (hprogress m s h) fun e s' he hstep => ?_
    obtain ⟨m', hm', h'⟩ := hlower m s e s' h he hstep
    exact ih m' hm' h'

/-- One of the ways to an idle state. -/
theorem Inevitably.exists_run {Internal : ε → Prop} {Idle : σ → Prop} {s : σ}
    (h : Inevitably step Internal Idle s) :
    ∃ es s', Run step s es s' ∧ Idle s' ∧ ∀ e ∈ es, Internal e := by
  induction h with
  | @intro s hprogress _ ih =>
    obtain hidle | ⟨e, s', he, hstep⟩ := hprogress
    · exact ⟨[], s, .nil, hidle, by simp⟩
    · -- some step is possible, and behind it the same holds
      -- some step is possible, and behind it the same holds
      obtain ⟨es, s'', hrun, hidle, hinternal⟩ := ih e s' he hstep
      exact ⟨e :: es, s'', (Run.snoc .nil hstep).append hrun, hidle,
        List.forall_mem_cons.mpr ⟨he, hinternal⟩⟩

/-! ## Steps up to an event -/

/-- The steps up to the first event that halts; the flag tells whether it has come. -/
inductive Halting (step : σ → ε → σ → Prop) (halts : ε → Bool) : σ × Bool → ε → σ × Bool → Prop where
  | step {s s' : σ} {e : ε} (h : step s e s') : Halting step halts (s, false) e (s', halts e)

section halting
variable {halts : ε → Bool} {s s' : σ} {es : List ε} {halted : Bool}

/-- Such a run is a run, and only its last event may halt. -/
theorem Run.of_halting (h : Run (Halting step halts) (s, false) es (s', halted)) : Run step s es s' ∧
    (halted = false → ∀ e ∈ es, halts e = false) ∧
    (halted = true → ∃ pre e, es = pre ++ [e] ∧ halts e = true ∧ ∀ e ∈ pre, halts e = false) := by
  refine h.history (P := fun es x => Run step s es x.1 ∧ (x.2 = false → ∀ e ∈ es, halts e = false) ∧
    (x.2 = true → ∃ pre e, es = pre ++ [e] ∧ halts e = true ∧ ∀ e ∈ pre, halts e = false))
    ⟨.nil, by simp, fun hfalse => by cases hfalse⟩ ?_
  rintro es _ e _ ⟨hrun, hquiet, -⟩ ⟨hstep⟩
  -- no event before the last one has halted the run
  have hpre := hquiet rfl
  refine ⟨hrun.snoc hstep, fun hhalts e' he' => ?_, fun hhalts => ⟨es, e, rfl, hhalts, hpre⟩⟩
  obtain he' | he' := List.mem_append.mp he'
  · exact hpre e' he'
  · rwa [List.mem_singleton.mp he']

/-- A run without such an event. -/
theorem Run.halting (h : Run step s es s') (hquiet : ∀ e ∈ es, halts e = false) :
    Run (Halting step halts) (s, false) es (s', false) := by
  induction h with
  | nil => exact .nil
  | @snoc es s' s'' e _ hstep ih =>
    have hlast : halts e = false := hquiet e (by simp)
    have hhalting : Halting step halts (s', false) e (s'', halts e) := .step hstep
    rw [hlast] at hhalting
    exact (ih fun e he => hquiet e (List.mem_append_left _ he)).snoc hhalting

/-- What is inevitable comes before such an event, or the event does. -/
theorem Inevitably.halting {Internal : ε → Prop} {Idle : σ → Prop} (h : Inevitably step Internal Idle s)
    (halted : Bool) :
    Inevitably (Halting step halts) Internal (fun x => x.2 = true ∨ Idle x.1) (s, halted) := by
  induction h generalizing halted with
  | @intro s hprogress _ ih =>
    -- halted, idle, or one more step; and each step lowers the same tree
    refine .intro ?_ fun e x he hstep => ?_
    · cases halted with
      | true => exact .inl (.inl rfl)
      | false =>
        obtain hidle | ⟨e, s', he, hstep⟩ := hprogress
        · exact .inl (.inr hidle)
        · exact .inr ⟨e, _, he, .step hstep⟩
    · cases hstep with
      | step hstep => exact ih e _ he hstep _

end halting

end Transition
