import Webserv.Spec.TaskMeaning

/-!
# The meaning of a task, computed

Given the answers so far, `resume` finds the query that waits, or what was
delivered and the answers that are left.  The calls of recursive functions are
counted, and it gives up when they are used up.

## Key results

- `resume_of_delivers`, `resume_of_blocks`: what is found is the meaning
- `Task.Good.goOn`, `Expr.Good.exists_answers`: answers that fit are those of a run
-/

namespace Webserv.Futures

open Transition

variable {S : Signature}

/-- How far an expression comes with the answers it is given. -/
inductive Reached (S : Signature) (t : S.Ty) where
  | value (value : S.Val t) (rest : List (Σ query : S.Query, S.Answer query))
  | waits (query : S.Query)

/-- What a function does with the answers it is given; none if it is not known. -/
abbrev Calls (S : Signature) : Type :=
  ∀ t : S.Ty, S.Proc t → List (Σ query : S.Query, S.Answer query) → Option (Reached S t)

variable [DecidableEq S.Query]

def Expr.resume (calls : Calls S) {t : S.Ty} :
    Expr S t → List (Σ query : S.Query, S.Answer query) → Option (Reached S t)
  | .given _, _ => none
  | .fromVal val, as => some (.value val as)
  | .when query _, [] => some (.waits query)
  | .when query handler, a :: as =>
    if h : a.1 = query then some (.value (handler (h ▸ a.2)) as) else none
  | .map future func, as =>
    match future.resume calls as with
    | none => none
    | some (.waits query) => some (.waits query)
    | some (.value val rest) => some (.value (func val).2 rest)
  | .flatmap future func, as =>
    match future.resume calls as with
    | none => none
    | some (.waits query) => some (.waits query)
    | some (.value val rest) => (func val).resume calls rest
  | .perform _ future, as => future.resume calls as
  | .call proc, as => calls _ proc as

/-- The calls of the recursive functions, `n` of them deep. -/
def callsOf (bodies : Bodies S) : ℕ → Calls S
  | 0 => fun _ _ _ => none
  | n + 1 => fun t proc as => (bodies t proc).resume (callsOf bodies n) as

/-- The query a task waits for, if there is one. -/
def Task.resume (calls : Calls S) :
    Task S → List (Σ query : S.Query, S.Answer query) → Option (Option S.Query)
  | .done, _ => some none
  | .perform _ next, as => next.resume calls as
  | .onComplete future callback, as =>
    match future.resume calls as with
    | none => none
    | some (.waits query) => some (some query)
    | some (.value val rest) => (callback val).resume calls rest

section meaning
variable {bodies : Bodies S} {s t : S.Ty} {e : Expr S t} {trace : Trace S}

section calls
variable {calls : Calls S} {as : List (Σ query : S.Query, S.Answer query)} {future : Expr S s}

/-- The future of a `map` waits, or the function is applied. -/
theorem resume_map_cases {func : S.Val s → List S.Effect × S.Val t} {r : Reached S t}
    (h : (Expr.map future func).resume calls as = some r) :
    (∃ query, future.resume calls as = some (.waits query) ∧ r = .waits query) ∨
    ∃ val rest, future.resume calls as = some (.value val rest) ∧ r = .value (func val).2 rest := by
  rw [Expr.resume] at h
  split at h
  · cases h
  · rename_i query hfuture
    exact .inl ⟨query, hfuture, (Option.some.inj h).symm⟩
  · rename_i val rest hfuture
    exact .inr ⟨val, rest, hfuture, (Option.some.inj h).symm⟩

/-- The first future of a `flatmap` waits, or the second one reads what is left. -/
theorem resume_flatmap_cases {func : S.Val s → Expr S t} {r : Reached S t}
    (h : (Expr.flatmap future func).resume calls as = some r) :
    (∃ query, future.resume calls as = some (.waits query) ∧ r = .waits query) ∨
    ∃ val rest, future.resume calls as = some (.value val rest) ∧
      (func val).resume calls rest = some r := by
  rw [Expr.resume] at h
  split at h
  · cases h
  · rename_i query hfuture
    exact .inl ⟨query, hfuture, (Option.some.inj h).symm⟩
  · rename_i val rest hfuture
    exact .inr ⟨val, rest, hfuture, h⟩

/-- The future of a task waits, or its callback reads what is left. -/
theorem Task.resume_onComplete_cases {callback : S.Val s → Task S} {r : Option S.Query}
    (h : (Task.onComplete future callback).resume calls as = some r) :
    (∃ query, future.resume calls as = some (.waits query) ∧ r = some query) ∨
    ∃ val rest, future.resume calls as = some (.value val rest) ∧
      (callback val).resume calls rest = some r := by
  rw [Task.resume] at h
  split at h
  · cases h
  · rename_i query hfuture
    exact .inl ⟨query, hfuture, (Option.some.inj h).symm⟩
  · rename_i val rest hfuture
    exact .inr ⟨val, rest, hfuture, h⟩

end calls

/-- Where an expression delivers, reading its answers gives its value. -/
theorem resume_of_delivers {value : S.Val t} (h : Delivers bodies e trace value) (n : ℕ)
    (rest : List (Σ query : S.Query, S.Answer query)) {r : Reached S t}
    (hresume : e.resume (callsOf bodies n) (answers trace ++ rest) = some r) :
    r = .value value rest := by
  -- induction on what the expression does
  induction h generalizing n rest with
  | given contract value => cases hresume
  | fromVal value =>
    cases hresume
    rfl
  | when handler answer =>
    rw [show answers [.answered _ answer] ++ rest = ⟨_, answer⟩ :: rest from rfl, Expr.resume,
      dif_pos rfl] at hresume
    cases hresume
    rfl
  | map h ih =>
    rw [answers_append, answers_performed, List.append_nil] at hresume
    obtain ⟨query, hfuture, -⟩ | ⟨val, rest', hfuture, rfl⟩ := resume_map_cases hresume
    · cases ih n rest hfuture
    · cases ih n rest hfuture
      rfl
  | flatmap h hnext ih ihnext =>
    rw [answers_append, List.append_assoc] at hresume
    obtain ⟨query, hfuture, -⟩ | ⟨val, rest', hfuture, hfunc⟩ := resume_flatmap_cases hresume
    · cases ih n _ hfuture
    · -- the second future reads the answers that are left
      cases ih n _ hfuture
      exact ihnext n rest hfunc
  | perform h ih => exact ih n rest hresume
  | call h ih =>
    cases n with
    | zero => cases hresume
    -- a call is read with one call less
    | succ n => exact ih n rest hresume

/-- Where it waits, reading its answers gives the query. -/
theorem resume_of_blocks {wait : Wait S} (h : Blocks bodies e trace wait) (n : ℕ) {r : Reached S t}
    (hresume : e.resume (callsOf bodies n) (answers trace) = some r) :
    ∃ query, wait = .answer query ∧ r = .waits query := by
  induction h generalizing n with
  -- no handler is registered, so the reading gives up
  | given contract => cases hresume
  | when query handler =>
    cases hresume
    exact ⟨query, rfl, rfl⟩
  | map h ih =>
    obtain ⟨query, hfuture, rfl⟩ | ⟨val, rest, hfuture, -⟩ := resume_map_cases hresume
    · obtain ⟨_, rfl, ⟨⟩⟩ := ih n hfuture
      exact ⟨query, rfl, rfl⟩
    · obtain ⟨_, -, ⟨⟩⟩ := ih n hfuture
  | flatmap h ih =>
    obtain ⟨query, hfuture, rfl⟩ | ⟨val, rest, hfuture, -⟩ := resume_flatmap_cases hresume
    · obtain ⟨_, rfl, ⟨⟩⟩ := ih n hfuture
      exact ⟨query, rfl, rfl⟩
    · obtain ⟨_, -, ⟨⟩⟩ := ih n hfuture
  | next h hnext ih =>
    rw [answers_append] at hresume
    obtain ⟨query, hfuture, -⟩ | ⟨val, rest, hfuture, hfunc⟩ := resume_flatmap_cases hresume
    · cases resume_of_delivers h n _ hfuture
    · -- the first future takes its answers and leaves the others
      cases resume_of_delivers h n _ hfuture
      exact ih n hfunc
  | perform h ih => exact ih n hresume
  | call h ih =>
    cases n with
    | zero => cases hresume
    | succ n => exact ih n hresume

variable {task : Task S}

/-- A task that finishes is read to its end. -/
theorem Task.resume_of_finishes (h : Finishes bodies task trace) (n : ℕ) {r : Option S.Query}
    (hresume : task.resume (callsOf bodies n) (answers trace) = some r) : r = none := by
  induction h with
  | done =>
    cases hresume
    rfl
  | perform h ih => exact ih hresume
  | onComplete h hnext ih =>
    rw [answers_append] at hresume
    obtain ⟨query, hfuture, -⟩ | ⟨val, rest, hfuture, hcallback⟩ :=
      Task.resume_onComplete_cases hresume
    · cases resume_of_delivers h n _ hfuture
    · -- the callback goes on with the answers that are left
      cases resume_of_delivers h n _ hfuture
      exact ih hcallback

/-- A task that stops is read to the query it stops at. -/
theorem Task.resume_of_stops {wait : Wait S} (h : Stops bodies task trace wait) (n : ℕ)
    {r : Option S.Query} (hresume : task.resume (callsOf bodies n) (answers trace) = some r) :
    ∃ query, wait = .answer query ∧ r = some query := by
  induction h with
  | perform h ih => exact ih hresume
  -- the future waits itself
  | future h =>
    obtain ⟨query, hfuture, rfl⟩ | ⟨val, rest, hfuture, -⟩ := Task.resume_onComplete_cases hresume
    · obtain ⟨_, rfl, ⟨⟩⟩ := resume_of_blocks h n hfuture
      exact ⟨query, rfl, rfl⟩
    · obtain ⟨_, -, ⟨⟩⟩ := resume_of_blocks h n hfuture
  -- the future is set, and something waits in its callback
  | callback h hnext ih =>
    rw [answers_append] at hresume
    obtain ⟨query, hfuture, -⟩ | ⟨val, rest, hfuture, hcallback⟩ :=
      Task.resume_onComplete_cases hresume
    · cases resume_of_delivers h n _ hfuture
    · cases resume_of_delivers h n _ hfuture
      exact ih hcallback

end meaning

section runs
variable {bodies : Bodies S} {ends : ∀ t : S.Ty, S.Proc t → ℕ} {task : Task S} {n : ℕ}
  [∀ t, IsEmpty (S.Contract t)]

/-- The handler that waits when every call has returned is the one that is computed. -/
theorem Task.Good.pending_of_resume (h : task.Good ends bodies) {es : List (Event S)} {c : Config S}
    (hrun : ProgRun bodies task.code es c) (hidle : c.Idle) {query : S.Query}
    (hresume : task.resume (callsOf bodies n) (answers (notes es)) = some (some query)) :
    ∃ handler, c.pending = {⟨query, handler⟩} := by
  cases h.outcome_notes hrun hidle with
  | finished hpending hfinishes => cases Task.resume_of_finishes hfinishes n hresume
  | @asks handler hpending hstops =>
    obtain ⟨query', hwait, hquery⟩ := Task.resume_of_stops hstops n hresume
    cases hwait
    cases hquery
    exact ⟨handler.2, hpending⟩
  | @waits t contract => exact isEmptyElim contract

/-- When the task is read to its end nothing is pending. -/
theorem Task.Good.pending_eq_zero (h : task.Good ends bodies) {es : List (Event S)} {c : Config S}
    (hrun : ProgRun bodies task.code es c) (hidle : c.Idle)
    (hresume : task.resume (callsOf bodies n) (answers (notes es)) = some none) : c.pending = 0 := by
  cases h.outcome_notes hrun hidle with
  | finished hpending => exact hpending
  | asks _ hstops =>
    obtain ⟨query, -, hquery⟩ := Task.resume_of_stops hstops n hresume
    cases hquery
  | @waits t contract => exact isEmptyElim contract

/-- Behind the answers so far, each of these is one to the query that waits. -/
def Task.Fits (task : Task S) (calls : Calls S) (sofar as : List (Σ query : S.Query, S.Answer query)) :
    Prop :=
  ∀ i < as.length, task.resume calls (sofar ++ as.take i) = some (as[i]?.map Sigma.fst)

instance (task : Task S) (calls : Calls S) (sofar as : List (Σ query : S.Query, S.Answer query)) :
    Decidable (task.Fits calls sofar as) :=
  inferInstanceAs (Decidable (∀ i < as.length, _))

/-- Answers that fit are those of a run. -/
theorem Task.Good.goOn (h : task.Good ends bodies) {es : List (Event S)} {c : Config S}
    (hrun : ProgRun bodies task.code es c) {as : List (Σ query : S.Query, S.Answer query)}
    (hfits : task.Fits (callsOf bodies n) (answers (notes es)) as) :
    ∃ es' c', Run (Step bodies) c es' c' ∧ c'.Idle ∧ answers (notes es') = as := by
  induction as using List.reverseRecOn with
  | nil =>
    obtain ⟨es', c', hrun', hidle, hinternal⟩ := (h.returns hrun).exists_run
    exact ⟨es', c', hrun', hidle, answers_internal hinternal⟩
  | append_singleton as a ih =>
    obtain ⟨es', c', hrun', hidle, hanswers⟩ := ih fun i hi => by
      have hfit := hfits i (hi.trans (by simp))
      rwa [List.take_append_of_le_length hi.le, List.getElem?_append_left hi] at hfit
    -- the last one is the answer to the handler that waits
    have hlast := hfits as.length (by simp)
    rw [List.take_left, List.getElem?_concat_length, ← hanswers, ← answers_append,
      ← notes_append] at hlast
    obtain ⟨handler, hpending⟩ := h.pending_of_resume (hrun.append hrun') hidle hlast
    -- that answer is given, and the threads run on
    have hanswered := hrun'.snoc (.answer a.2 hpending)
    obtain ⟨es'', c'', hrun'', hidle'', hinternal⟩ := (h.returns (hrun.append hanswered)).exists_run
    refine ⟨_, c'', hanswered.append hrun'', hidle'', ?_⟩
    rw [answers_notes_append_internal hinternal, notes_append, answers_append, hanswers]
    rfl

end runs

section exprs
variable {bodies : Bodies S} {ends : ∀ t : S.Ty, S.Proc t → ℕ} {t : S.Ty} {e : Expr S t} {n : ℕ}
  {callback : S.Val t → List S.Effect} {es : List (Event S)} {c : Config S}

/-- The query that waits behind these answers, if there is one. -/
def Expr.waitsFor (calls : Calls S) (e : Expr S t)
    (as : List (Σ query : S.Query, S.Answer query)) : Option S.Query :=
  match e.resume calls as with
  | some (.waits query) => some query
  | _ => none

/-- Each answer is one to the query that waits. -/
def Expr.Fits (e : Expr S t) (calls : Calls S) (as : List (Σ query : S.Query, S.Answer query)) :
    Prop :=
  ∀ i < as.length, e.waitsFor calls (as.take i) = as[i]?.map Sigma.fst

instance (e : Expr S t) (calls : Calls S) (as : List (Σ query : S.Query, S.Answer query)) :
    Decidable (e.Fits calls as) :=
  inferInstanceAs (Decidable (∀ i < as.length, _))

/-- Waiting for a query is a place in the reading. -/
theorem Expr.resume_of_waitsFor {calls : Calls S} {as : List (Σ query : S.Query, S.Answer query)}
    {query : S.Query} (h : e.waitsFor calls as = some query) :
    e.resume calls as = some (.waits query) := by
  rw [Expr.waitsFor] at h
  split at h
  · rename_i hresume
    rw [hresume, Option.some.inj h]
  · cases h

variable [∀ t, IsEmpty (S.Contract t)]

/-- The query that is read is the one that is pending. -/
theorem Expr.Good.pending_of_resume (h : e.Good ends bodies)
    (hrun : ProgRun bodies (e.onComplete callback) es c) (hidle : c.Idle) {query : S.Query}
    (hresume : e.resume (callsOf bodies n) (answers (notes es)) = some (.waits query)) :
    ∃ handler, c.pending = {⟨query, handler⟩} := by
  cases h.outcome_notes hrun hidle with
  | finished _ hdelivers htrace =>
    rw [htrace, answers_append, answers_performed] at hresume
    cases resume_of_delivers hdelivers n [] hresume
  | @asks handler hpending hblocks =>
    obtain ⟨query', hwait, hquery⟩ := resume_of_blocks hblocks n hresume
    cases hwait
    cases hquery
    exact ⟨handler.2, hpending⟩
  | @waits t contract => exact isEmptyElim contract

/-- Answers that fit are those of a run of the expression. -/
theorem Expr.Good.exists_answers (h : e.Good ends bodies) (callback : S.Val t → List S.Effect)
    {as : List (Σ query : S.Query, S.Answer query)} (hfits : e.Fits (callsOf bodies n) as) :
    ∃ es c, ProgRun bodies (e.onComplete callback) es c ∧ c.Idle ∧ answers (notes es) = as := by
  induction as using List.reverseRecOn with
  | nil =>
    have hstart : ProgRun bodies (e.onComplete callback) [] (.start (e.onComplete callback)) := .nil
    obtain ⟨es, c, hrun, hidle, hinternal⟩ := h.settles hstart
    exact ⟨es, c, hrun, hidle, answers_internal hinternal⟩
  | append_singleton as a ih =>
    obtain ⟨es, c, hrun, hidle, hanswers⟩ := ih fun i hi => by
      have hfit := hfits i (hi.trans (by simp))
      rwa [List.take_append_of_le_length hi.le, List.getElem?_append_left hi] at hfit
    -- the last one is the answer to the handler that waits
    have hlast := hfits as.length (by simp)
    rw [List.take_left, List.getElem?_concat_length, ← hanswers] at hlast
    obtain ⟨handler, hpending⟩ :=
      h.pending_of_resume hrun hidle (Expr.resume_of_waitsFor hlast)
    obtain ⟨es', c', hrun', hidle', hinternal⟩ := h.settles (hrun.snoc (.answer a.2 hpending))
    refine ⟨_, c', hrun', hidle', ?_⟩
    rw [answers_notes_append_internal hinternal, notes_append, answers_append, hanswers]
    rfl

/-- What the callback has done, if the answers so far deliver a value. -/
theorem Expr.Good.effects_of_resume (h : e.Good ends bodies)
    (hbodies : ∀ t proc, (bodies t proc).Quiet) (hquiet : e.Quiet)
    (hrun : ProgRun bodies (e.onComplete callback) es c) (hidle : c.Idle) {value : S.Val t}
    {rest : List (Σ query : S.Query, S.Answer query)}
    (hresume : e.resume (callsOf bodies n) (answers (notes es)) = some (.value value rest)) :
    effects es = callback value := by
  obtain ⟨trace, value', hdelivers, hanswers, heffects, -⟩ | ⟨handler, hblocks, -⟩ :=
    h.idle_of_quiet hbodies hquiet hrun hidle
  · rw [hanswers, ← List.append_nil (answers trace)] at hresume
    cases resume_of_delivers hdelivers n [] hresume
    exact heffects
  · obtain ⟨query, -, hquery⟩ := resume_of_blocks hblocks n hresume
    cases hquery

end exprs

end Webserv.Futures
