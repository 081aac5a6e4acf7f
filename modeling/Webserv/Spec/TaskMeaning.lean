import Webserv.Native.Task
import Webserv.Spec.FutureRuns

/-!
# What a task does

`Finishes` and `Stops` read a task as an ordinary program, as `Delivers` and
`Blocks` read an expression.

## Key results

- `Task.safe`: the program of a task is safe
- `Task.Good.outcome`: what a run of it has done when every call has returned
- `Task.Good.returns`: and they all return
-/

namespace Webserv.Futures

open Transition

variable {S S' : Signature}

/-! ## The meaning of a task -/

/-- The task comes to its end behind these notes. -/
inductive Finishes (bodies : Bodies S) : Task S → Trace S → Prop where
  | done : Finishes bodies .done []
  | perform {effect : S.Effect} {next : Task S} {trace : Trace S} (h : Finishes bodies next trace) :
      Finishes bodies (.perform effect next) (.performed effect :: trace)
  | onComplete {t : S.Ty} {future : Expr S t} {callback : S.Val t → Task S}
      {trace trace' : Trace S} {value : S.Val t} (h : Delivers bodies future trace value)
      (hnext : Finishes bodies (callback value) trace') :
      Finishes bodies (.onComplete future callback) (trace ++ trace')

/-- Behind these notes the task waits. -/
inductive Stops (bodies : Bodies S) : Task S → Trace S → Wait S → Prop where
  | perform {effect : S.Effect} {next : Task S} {trace : Trace S} {wait : Wait S}
      (h : Stops bodies next trace wait) :
      Stops bodies (.perform effect next) (.performed effect :: trace) wait
  | future {t : S.Ty} {future : Expr S t} {callback : S.Val t → Task S} {trace : Trace S}
      {wait : Wait S} (h : Blocks bodies future trace wait) :
      Stops bodies (.onComplete future callback) trace wait
  | callback {t : S.Ty} {future : Expr S t} {callback : S.Val t → Task S}
      {trace trace' : Trace S} {value : S.Val t} {wait : Wait S}
      (h : Delivers bodies future trace value) (hnext : Stops bodies (callback value) trace' wait) :
      Stops bodies (.onComplete future callback) (trace ++ trace') wait

section meaning
variable {bodies : Bodies S} {t : S.Ty} {future : Expr S t} {callback : S.Val t → Task S}
  {effect : S.Effect} {next : Task S} {trace : Trace S} {wait : Wait S}

/-- The empty task finishes. -/
@[simp] theorem finishes_done : Finishes bodies .done trace ↔ trace = [] := by
  constructor
  · rintro ⟨⟩
    rfl
  · rintro rfl
    exact .done

/-- An effect in front is performed first. -/
@[simp] theorem finishes_perform : Finishes bodies (.perform effect next) trace ↔
    ∃ trace', Finishes bodies next trace' ∧ trace = .performed effect :: trace' := by
  constructor
  · intro h
    cases h with
    | perform h => exact ⟨_, h, rfl⟩
  · rintro ⟨trace', h, rfl⟩
    exact .perform h

/-- The callback goes on with the value of the future. -/
theorem finishes_onComplete : Finishes bodies (.onComplete future callback) trace ↔
    ∃ trace₁ value trace₂, Delivers bodies future trace₁ value ∧
      Finishes bodies (callback value) trace₂ ∧ trace = trace₁ ++ trace₂ := by
  constructor
  · intro h
    cases h with
    | onComplete h hnext => exact ⟨_, _, _, h, hnext, rfl⟩
  · rintro ⟨trace₁, value, trace₂, h, hnext, rfl⟩
    exact .onComplete h hnext

/-- The empty task does not stop half-way. -/
@[simp] theorem not_stops_done : ¬ Stops bodies .done trace wait := nofun

/-- An effect in front is performed before the stop. -/
@[simp] theorem stops_perform : Stops bodies (.perform effect next) trace wait ↔
    ∃ trace', Stops bodies next trace' wait ∧ trace = .performed effect :: trace' := by
  constructor
  · intro h
    cases h with
    | perform h => exact ⟨_, h, rfl⟩
  · rintro ⟨trace', h, rfl⟩
    exact .perform h

/-- A task stops in the future, or in the callback. -/
theorem stops_onComplete : Stops bodies (.onComplete future callback) trace wait ↔
    Blocks bodies future trace wait ∨ ∃ trace₁ value trace₂,
      Delivers bodies future trace₁ value ∧ Stops bodies (callback value) trace₂ wait ∧
        trace = trace₁ ++ trace₂ := by
  constructor
  · intro h
    cases h with
    -- the future stops first, or the callback does
    | future h => exact .inl h
    | callback h hnext => exact .inr ⟨_, _, _, h, hnext, rfl⟩
  · rintro (h | ⟨trace₁, value, trace₂, h, hnext, rfl⟩)
    · exact .future h
    · exact .callback h hnext

end meaning

/-! ## Well-formed tasks -/

/-- The task uses each of the contracts at most once, and no other one. -/
inductive Task.Takes : Multiset (Σ t : S.Ty, S.Contract t) → Task S → Prop where
  | done {D : Multiset (Σ t : S.Ty, S.Contract t)} : Takes D .done
  | perform {D : Multiset (Σ t : S.Ty, S.Contract t)} (effect : S.Effect) {next : Task S}
      (h : Takes D next) : Takes D (.perform effect next)
  | onComplete {D D₁ D₂ : Multiset (Σ t : S.Ty, S.Contract t)} {t : S.Ty} {future : Expr S t}
      {callback : S.Val t → Task S} (hD : D = D₁ + D₂) (h : Futures.Takes D₁ future)
      (hcallback : ∀ value, Takes D₂ (callback value)) : Takes D (.onComplete future callback)

variable (ends : ∀ t : S.Ty, S.Proc t → ℕ)

/-- With `n` free calls the task comes to its next answer. -/
inductive Task.Pays : ℕ → Task S → Prop where
  | done {n : ℕ} : Pays n .done
  | perform {n : ℕ} (effect : S.Effect) {next : Task S} (h : Pays n next) :
      Pays n (.perform effect next)
  | onComplete {n m : ℕ} {t : S.Ty} {future : Expr S t} {callback : S.Val t → Task S}
      (h : Futures.Pays ends n future m) (hcallback : ∀ value, Pays m (callback value)) :
      Pays n (.onComplete future callback)

/-- The functions wait before they call themselves again, and the task uses each contract
    at most once. -/
structure Task.Good (bodies : Bodies S) (task : Task S) : Prop where
  guarded : Guarded ends bodies
  takes : ∃ D : Multiset (Σ t : S.Ty, S.Contract t), D.Nodup ∧ task.Takes D
  pays : ∃ n, task.Pays ends n

/-- The plan of a task. -/
def Task.plan (bodies : Bodies S) (task : Task S) : Plan S where
  Waits := Stops bodies task
  Final := Finishes bodies task
  Pre _ proc trace := ∀ trace' wait, Blocks bodies (.call proc) trace' wait →
    Stops bodies task (trace ++ trace') wait
  post t proc trace := Result bodies (.call proc) trace (ends t proc)

variable {ends}

/-! ## The program of a task is safe -/

section safe
variable {bodies : Bodies S} {plan : Plan S}

/-- The program of a task is safe. -/
theorem Task.safe (hpre : ∀ t proc trace, plan.Pre t proc trace ↔ ∀ trace' wait,
      Blocks bodies (.call (t := t) proc) trace' wait → plan.Waits (trace ++ trace') wait)
    (hpost : ∀ t proc trace, plan.post t proc trace = Result bodies (.call proc) trace (ends t proc))
    (task : Task S) {D : Multiset (Σ t : S.Ty, S.Contract t)} {n : ℕ} {b : Baton S}
    (htakes : task.Takes D) (hpays : task.Pays ends n) (hcalls : n ≤ b.calls)
    (hwaits : ∀ trace wait, Stops bodies task trace wait → plan.Waits (b.trace ++ trace) wait)
    (hfinal : ∀ trace, Finishes bodies task trace → plan.Final (b.trace ++ trace)) :
    plan.Safe (Futures.takes D + {.baton b}) task.code := by
  -- induction on the task, each callback with the baton its future delivers
  induction task generalizing D n b with
  | done =>
    refine .finish rfl (canKeep_takes D) ?_
    simpa using hfinal [] .done
  -- an effect is noted on the baton
  | perform effect next ih =>
    cases htakes with
    | perform _ htakes =>
      cases hpays with
      | perform _ hpays =>
        refine .perform rfl (ih (b := b.note (.performed effect)) htakes hpays hcalls
          (fun trace wait h => ?_) fun trace h => ?_)
        · show plan.Waits (b.trace ++ [.performed effect] ++ trace) wait
          rw [← List.append_cons]
          exact hwaits _ _ (.perform h)
        · show plan.Final (b.trace ++ [.performed effect] ++ trace)
          rw [← List.append_cons]
          exact hfinal _ (.perform h)
  | onComplete future callback ih =>
    cases htakes with
    | @onComplete _ D₁ D₂ _ _ _ hD htakes htakesCallback =>
      cases hpays with
      | onComplete hpays hpaysCallback =>
        have hrights : Futures.takes D + {.baton b} =
            Futures.takes D₂ + Futures.takes D₁ + {.baton b} := by
          rw [hD, Futures.takes, Multiset.map_add, add_comm (Multiset.map _ D₁)]
          rfl
        rw [hrights]
        refine future.safe hpre hpost htakes hpays hcalls
          (fun trace wait h => hwaits trace wait (.future h)) fun ref F hfuture => ?_
        -- the contracts of the callback go with it
        have hkept : Futures.takes D₂ + F = 0 + Futures.takes D₂ + F := by
          rw [zero_add]
        refine .setCallback hkept (canKeep_takes D₂) hfuture (fun value b' hb => ?_)
          (.done canKeep_zero)
        obtain ⟨trace, hdelivers, htrace, hm⟩ := hb
        refine ih value (htakesCallback value) (hpaysCallback value) hm (fun trace' wait h => ?_)
          fun trace' h => ?_
        · rw [htrace, List.append_assoc]
          exact hwaits _ _ (.callback hdelivers h)
        · rw [htrace, List.append_assoc]
          exact hfinal _ (.onComplete hdelivers h)

end safe

/-! ## Runs -/

/-- What there is when every call has returned. -/
inductive Task.Outcome (bodies : Bodies S) (task : Task S) (c : Config S) (trace : Trace S) :
    Prop where
  | finished (hpending : c.pending = 0) (h : Finishes bodies task trace)
  | asks {handler : Σ query : S.Query, S.Answer query → Prog S} (hpending : c.pending = {handler})
      (h : Stops bodies task trace (.answer handler.1))
  | waits {t : S.Ty} {contract : S.Contract t} (hpending : c.pending = 0)
      (h : Stops bodies task trace (.value t contract))
      (hunset : (c.heap ⟨t, .given contract⟩).state.value = .empty)

section runs
variable {bodies : Bodies S} {task : Task S} {es : List (Event S)} {c : Config S}

/-- The bodies keep to the plan. -/
theorem Guarded.sound_task (h : Guarded ends bodies) (task : Task S) :
    (task.plan ends bodies).Sound bodies := by
  intro t proc trace calls R next hpre hnext
  have hsafe : (task.plan ends bodies).Safe (R + Futures.takes 0 + {.baton ⟨trace, calls⟩})
      ((bodies t proc).code next) := by
    -- as for an expression, with the rest of the task in the place of a callback
    refine (bodies t proc).safe (fun _ _ _ => Iff.rfl) (fun _ _ _ => rfl) (h.takes t proc)
      (h.pays t proc) (Nat.zero_le _) (fun trace' wait hblocks => hpre trace' wait (.call hblocks))
      fun future F hfuture => hnext future F (hfuture.mono fun value b hb => ?_)
    obtain ⟨trace', hdelivers, hrest⟩ := hb
    exact ⟨trace', .call hdelivers, hrest⟩
  have hrights : R + Futures.takes (0 : Multiset (Σ t : S.Ty, S.Contract t)) = R := add_zero R
  rwa [hrights] at hsafe

/-- The logic applies to every run of the task. -/
theorem Task.Good.world (h : task.Good ends bodies) (hrun : ProgRun bodies task.code es c) :
    ∃ g, World (task.plan ends bodies) es c 0 g := by
  obtain ⟨D, hD, htakes⟩ := h.takes
  obtain ⟨n, hpays⟩ := h.pays
  have hsafe : (task.plan ends bodies).Safe (Futures.takes D + {.baton ⟨[], n⟩}) task.code :=
    task.safe (fun _ _ _ => Iff.rfl) (fun _ _ _ => rfl) htakes hpays (Nat.le_refl n)
      (fun trace wait hstops => hstops) fun trace hfinishes => hfinishes
  exact (h.guarded.sound_task task).world hD hsafe hrun

/-- What has been done when every call has returned is what the task means. -/
theorem Task.Good.outcome (h : task.Good ends bodies) (hrun : ProgRun bodies task.code es c)
    (hidle : c.Idle) : ∃ trace, Agrees trace es ∧ task.Outcome bodies c trace := by
  obtain ⟨g, hworld⟩ := h.world hrun
  refine ⟨g.baton.trace, hworld.agrees, ?_⟩
  obtain ⟨hpending, hfinishes⟩ | ⟨handler, hpending, hstops⟩ |
    ⟨t, contract, hpending, hstops, hunset⟩ := hworld.idle hidle
  · -- the task ended, some event is waited for, or a contract that nobody has set
    exact .finished hpending hfinishes
  · exact .asks hpending hstops
  · exact .waits hpending hstops hunset

/-- Without contracts from outside the notes are the trace. -/
theorem Task.Good.outcome_notes [∀ t, IsEmpty (S.Contract t)] (h : task.Good ends bodies)
    (hrun : ProgRun bodies task.code es c) (hidle : c.Idle) : task.Outcome bodies c (notes es) := by
  obtain ⟨trace, hagrees, houtcome⟩ := h.outcome hrun hidle
  rwa [hagrees.eq_notes] at houtcome

/-- Whatever was done so far, the calls return, in any order. -/
theorem Task.Good.returns (h : task.Good ends bodies) (hrun : ProgRun bodies task.code es c) :
    Inevitably (Step bodies) Event.Internal Config.Idle c := by
  obtain ⟨g, hworld⟩ := h.world hrun
  exact hworld.returns (h.guarded.sound_task task)

/-- Every run can go on until all calls have returned. -/
theorem Task.Good.settles (h : task.Good ends bodies) (hrun : ProgRun bodies task.code es c) :
    ∃ es' c', ProgRun bodies task.code (es ++ es') c' ∧ c'.Idle ∧ ∀ e ∈ es', e.Internal := by
  obtain ⟨es', c', hrest, hidle, hinternal⟩ := (h.returns hrun).exists_run
  exact ⟨es', c', hrun.append hrest, hidle, hinternal⟩

/-- No exception escapes. -/
theorem Task.Good.not_uncaught (h : task.Good ends bodies) (hrun : ProgRun bodies task.code es c) :
    .uncaught ∉ es :=
  hrun.not_uncaught fun _ _ => h.world

end runs

end Webserv.Futures
