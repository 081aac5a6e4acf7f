import Webserv.Spec.FutureMeaning

/-!
# Runs of programs with futures

What can be seen of a run, and the rules for programs that only make contracts
of their own: they are tied to the answers of their handlers.

## Key results

- `Expr.Good.quiet_run`: the rule for expressions without effects
- `Expr.Good.exists_run`: there is a run for every oracle
- `performAll_run`: the rule for programs without futures
-/

namespace Webserv.Futures

open Transition

variable {S : Signature} {ends : ∀ t : S.Ty, S.Proc t → ℕ}

/-! ## Given contracts are set once -/

section gave
variable {bodies : Bodies S} {c c' : Config S} {e : Event S}

/-- A value that is set stays set. -/
theorem Step.value_ne_empty (h : Step bodies c e c') {addr : Addr S}
    (hset : (c.heap addr).state.value ≠ .empty) : (c'.heap addr).state.value ≠ .empty := by
  have hupdate : ∀ {addr' : Addr S} {cell : Cell S addr'.1},
      ((c.heap addr').state.value ≠ .empty → cell.state.value ≠ .empty) →
      (Function.update c.heap addr' cell addr).state.value ≠ .empty := by
    intro addr' cell hcell
    by_cases hsame : addr = addr'
    · subst hsame
      rw [Function.update_self]
      exact hcell hset
    · rwa [Function.update_of_ne hsame]
  cases h with
  | setValue => exact hupdate fun _ => SharedState.setValue_value_ne_empty _ _
  | setCallback => exact hupdate fun hold => SharedState.setCallback_value_ne_empty _ hold
  -- the lock has no part in the value
  | @unlock _ _ _ reset =>
    refine hupdate fun hold => ?_
    cases reset with
    | true => exact hold
    | false => exact hold
  | unwindUnlock => exact hupdate fun hold => hold
  | give => exact hupdate fun _ => SharedState.setValue_value_ne_empty _ _
  | _ => exact hset

/-- A contract is given a value when it has none. -/
theorem Step.gave {t : S.Ty} {contract : S.Contract t} {value : S.Val t}
    (h : Step bodies c (.gave t contract value) c') :
    (c.heap ⟨t, .given contract⟩).state.value = .empty ∧
      (c'.heap ⟨t, .given contract⟩).state.value ≠ .empty := by
  cases h with
  | give hunset =>
    refine ⟨hunset, ?_⟩
    dsimp only
    rw [Function.update_self]
    exact SharedState.setValue_value_ne_empty _ _

/-- A contract that was given a value has one, and it was given no other. -/
theorem ProgRun.gave {prog : Prog S} {es : List (Event S)} (h : ProgRun bodies prog es c) :
    ∀ t contract value, .gave t contract value ∈ es →
      (c.heap ⟨t, .given contract⟩).state.value ≠ .empty ∧
      ∀ value', .gave t contract value' ∈ es → value = value' := by
  refine h.history (P := fun es c => ∀ t contract value, .gave t contract value ∈ es →
    (c.heap ⟨t, .given contract⟩).state.value ≠ .empty ∧
      ∀ value', .gave t contract value' ∈ es → value = value') (by simp) ?_
  intro es c e c' hold hstep t contract value hmem
  obtain hmem | hmem := List.mem_append.mp hmem
  · obtain ⟨hne, hunique⟩ := hold t contract value hmem
    refine ⟨hstep.value_ne_empty hne, fun value' hmem' => ?_⟩
    obtain hmem' | hmem' := List.mem_append.mp hmem'
    · exact hunique value' hmem'
    · -- it is set already, and cannot be given again
      rw [← List.mem_singleton.mp hmem'] at hstep
      exact absurd hstep.gave.1 hne
  · rw [← List.mem_singleton.mp hmem] at hstep
    refine ⟨hstep.gave.2, fun value' hmem' => ?_⟩
    obtain hmem' | hmem' := List.mem_append.mp hmem'
    · exact absurd hstep.gave.1 (hold t contract value' hmem').1
    · have hsame := (List.mem_singleton.mp hmem').trans (List.mem_singleton.mp hmem).symm
      cases hsame
      rfl

end gave

/-! ## What a run lets us see -/

def Event.effect? : Event S → Option S.Effect
  | .performed effect => some effect
  | _ => none

def Note.effect? : Note S → Option S.Effect
  | .performed effect => some effect
  | _ => none

def Note.answer? : Note S → Option (Σ query : S.Query, S.Answer query)
  | .answered query answer => some ⟨query, answer⟩
  | _ => none

/-- The notes a run makes, in order. -/
def notes (es : List (Event S)) : Trace S := es.filterMap Event.note?

/-- The answers of a trace, in order. -/
def answers (trace : Trace S) : List (Σ query : S.Query, S.Answer query) :=
  trace.filterMap Note.answer?

/-- The effects of a run, in order. -/
def effects (es : List (Event S)) : List S.Effect := es.filterMap Event.effect?

section agrees
variable {trace : Trace S} {es : List (Event S)}

/-- The effects of the run are those of the trace. -/
theorem Agrees.effects (h : Agrees trace es) : effects es = trace.filterMap Note.effect? := by
  have hnotes := congrArg (List.filterMap Note.effect?) h.notes
  rw [List.filterMap_filter, List.filterMap_filterMap] at hnotes
  have hevent : (fun e : Event S => e.note?.bind Note.effect?) = Event.effect? := by
    funext e
    cases e <;> rfl
  have hnote : (fun n : Note S => if (!n.isGot) = true then n.effect? else none) = Note.effect? := by
    funext n
    cases n <;> rfl
  rw [hevent, hnote] at hnotes
  exact hnotes.symm

/-- So are the answers. -/
theorem Agrees.answered_iff (h : Agrees trace es) {query : S.Query} {answer : S.Answer query} :
    .answered query answer ∈ trace ↔ .answered query answer ∈ es := by
  have hmem : .answered query answer ∈ trace.filter (fun n => !n.isGot) ↔
      .answered query answer ∈ es.filterMap Event.note? := by
    rw [h.notes]
  rw [List.mem_filter, List.mem_filterMap] at hmem
  constructor
  · intro htrace
    obtain ⟨e, he, hnote⟩ := hmem.mp ⟨htrace, rfl⟩
    -- of the events only an answer is noted as one
    cases e with
    | answered query' answer' =>
      cases hnote
      exact he
    | _ => cases hnote
  · intro hes
    exact (hmem.mpr ⟨_, hes, rfl⟩).1

/-- Without given contracts there is nothing on the baton that the run does not show. -/
theorem Agrees.eq_notes [∀ t, IsEmpty (S.Contract t)] (h : Agrees trace es) :
    trace = Futures.notes es := by
  rw [Futures.notes, ← h.notes]
  refine (List.filter_eq_self.mpr fun n _ => ?_).symm
  cases n with
  | got t contract => exact isEmptyElim contract
  | _ => rfl

end agrees

section answers
variable {trace trace' : Trace S} {es es' : List (Event S)}

/-- Nothing is answered in an empty trace. -/
@[simp] theorem answers_nil : answers ([] : Trace S) = [] := rfl

/-- The answers of a trace that goes on. -/
@[simp] theorem answers_append : answers (trace ++ trace') = answers trace ++ answers trace' :=
  List.filterMap_append

/-- An answer in front. -/
@[simp] theorem answers_cons_answered {query : S.Query} {answer : S.Answer query} :
    answers (.answered query answer :: trace) = ⟨query, answer⟩ :: answers trace := rfl

/-- An effect in front. -/
@[simp] theorem answers_cons_performed {effect : S.Effect} :
    answers (.performed effect :: trace) = answers trace := rfl

/-- Effects are no answers. -/
@[simp] theorem answers_performed {effects : List S.Effect} :
    answers (S := S) (effects.map .performed) = [] := by
  rw [answers, List.filterMap_eq_nil_iff]
  intro n hn
  obtain ⟨effect, -, rfl⟩ := List.mem_map.mp hn
  rfl

/-- The notes of a run that goes on. -/
@[simp] theorem notes_append : notes (es ++ es') = notes es ++ notes es' := List.filterMap_append

/-- Steps of the threads bring no answer. -/
theorem answers_internal (h : ∀ e ∈ es, e.Internal) : answers (notes es) = [] := by
  rw [answers, notes, List.filterMap_filterMap, List.filterMap_eq_nil_iff]
  intro e he
  cases e with
  | answered => exact (h _ he).elim
  | _ => rfl

/-- The answers of a run are there before its threads have gone on. -/
theorem answers_notes_append_internal (h : ∀ e ∈ es', e.Internal) :
    answers (notes (es ++ es')) = answers (notes es) := by
  rw [notes_append, answers_append, answers_internal h, List.append_nil]

/-- Effects are not taken back. -/
theorem effects_prefix_append (es es' : List (Event S)) : effects es <+: effects (es ++ es') := by
  rw [effects, effects, List.filterMap_append]
  exact List.prefix_append _ _

/-- The effects of a run are those of its notes. -/
theorem effects_notes (es : List (Event S)) : effects es = (notes es).filterMap Note.effect? := by
  rw [notes, effects, List.filterMap_filterMap]
  congr 1
  funext e
  cases e <;> rfl

end answers

/-! ## Expressions without effects -/

/-- The functions of the expression do nothing beside. -/
inductive Expr.Quiet : {t : S.Ty} → Expr S t → Prop where
  | given {t : S.Ty} (contract : S.Contract t) : Quiet (.given contract)
  | fromVal {t : S.Ty} (value : S.Val t) : Quiet (.fromVal value)
  | when {t : S.Ty} {query : S.Query} (handler : S.Answer query → S.Val t) :
      Quiet (.when query handler)
  | map {s t : S.Ty} {future : Expr S s} {func : S.Val s → List S.Effect × S.Val t}
      (h : Quiet future) (hfunc : ∀ value, (func value).1 = []) : Quiet (.map future func)
  | flatmap {s t : S.Ty} {future : Expr S s} {func : S.Val s → Expr S t} (h : Quiet future)
      (hfunc : ∀ value, Quiet (func value)) : Quiet (.flatmap future func)
  | call {t : S.Ty} (proc : S.Proc t) : Quiet (.call proc)

section quiet
variable {bodies : Bodies S} {t : S.Ty} {e : Expr S t} {trace : Trace S}

/-- An expression without effects performs none. -/
theorem Delivers.effects_eq_nil (hbodies : ∀ t proc, (bodies t proc).Quiet) {value : S.Val t}
    (h : Delivers bodies e trace value) (hquiet : e.Quiet) :
    trace.filterMap Note.effect? = [] := by
  induction h with
  | given | fromVal | when => rfl
  | map _ ih =>
    cases hquiet with
    | map hfuture hfunc =>
      rw [hfunc, List.map_nil, List.append_nil]
      exact ih hfuture
  | flatmap _ _ ih ihnext =>
    cases hquiet with
    | flatmap hfuture hfunc => rw [List.filterMap_append, ih hfuture, ihnext (hfunc _), List.nil_append]
  | perform => cases hquiet
  | call _ ih => exact ih (hbodies _ _)

/-- Nor does it before it waits. -/
theorem Blocks.effects_eq_nil (hbodies : ∀ t proc, (bodies t proc).Quiet) {wait : Wait S}
    (h : Blocks bodies e trace wait) (hquiet : e.Quiet) : trace.filterMap Note.effect? = [] := by
  induction h with
  | given | when => rfl
  | map _ ih =>
    cases hquiet with
    | map hfuture => exact ih hfuture
  | flatmap _ ih =>
    cases hquiet with
    | flatmap hfuture => exact ih hfuture
  -- a future that delivers is quiet, and so is the one it leads to
  | next hdelivers _ ihnext =>
    cases hquiet with
    | flatmap hfuture hfunc =>
      rw [List.filterMap_append, hdelivers.effects_eq_nil hbodies hfuture, ihnext (hfunc _),
        List.nil_append]
  -- an expression that performs is not quiet
  | perform => cases hquiet
  | call _ ih => exact ih (hbodies _ _)

end quiet

/-! ## Runs of an expression -/

section runs
variable {bodies : Bodies S} {t : S.Ty} {e : Expr S t} {callback : S.Val t → List S.Effect}
  {es : List (Event S)} {c : Config S}

/-- Whatever was done so far, the calls return. -/
theorem Expr.Good.settles (h : e.Good ends bodies)
    (hrun : ProgRun bodies (e.onComplete callback) es c) :
    ∃ es' c', ProgRun bodies (e.onComplete callback) (es ++ es') c' ∧ c'.Idle ∧
      ∀ e ∈ es', e.Internal := by
  obtain ⟨es', c', hrest, hidle, hinternal⟩ := (h.returns hrun).exists_run
  exact ⟨es', c', hrun.append hrest, hidle, hinternal⟩

/-- Without contracts from outside the notes are the trace. -/
theorem Expr.Good.outcome_notes [∀ t, IsEmpty (S.Contract t)] (h : e.Good ends bodies)
    (hrun : ProgRun bodies (e.onComplete callback) es c) (hidle : c.Idle) :
    Outcome bodies e callback c (notes es) := by
  obtain ⟨trace, hagrees, houtcome⟩ := h.outcome hrun hidle
  rwa [hagrees.eq_notes] at houtcome

/-- Of an expression without effects only the callback behind it is seen. -/
theorem Expr.Good.idle_of_quiet [∀ t, IsEmpty (S.Contract t)] (h : e.Good ends bodies)
    (hbodies : ∀ t proc, (bodies t proc).Quiet) (hquiet : e.Quiet)
    (hrun : ProgRun bodies (e.onComplete callback) es c) (hidle : c.Idle) :
    (∃ trace value, Delivers bodies e trace value ∧ answers (notes es) = answers trace ∧
      effects es = callback value ∧ c.pending = 0) ∨
    ∃ handler, Blocks bodies e (notes es) (.answer handler.1) ∧ effects es = [] ∧
      c.pending = {handler} := by
  cases h.outcome_notes hrun hidle with
  | @finished trace value hpending hdelivers htrace =>
    -- all effects are those of the callback
    refine .inl ⟨trace, value, hdelivers, ?_, ?_, hpending⟩
    · rw [htrace, answers_append, answers_performed, List.append_nil]
    · rw [effects_notes, htrace, List.filterMap_append, hdelivers.effects_eq_nil hbodies hquiet,
        List.nil_append, List.filterMap_map]
      exact List.filterMap_some
  | @asks handler hpending hblocks =>
    refine .inr ⟨handler, hblocks, ?_, hpending⟩
    rw [effects_notes, hblocks.effects_eq_nil hbodies hquiet]
  | @waits t contract => exact isEmptyElim contract

/-- A run with up to `k` answers, each as the oracle says. -/
theorem Expr.Good.exists_run [∀ t, IsEmpty (S.Contract t)] (h : e.Good ends bodies)
    (callback : S.Val t → List S.Effect) (oracle : ℕ → ∀ query : S.Query, S.Answer query) (k : ℕ) :
    ∃ es c, ProgRun bodies (e.onComplete callback) es c ∧ c.Idle ∧
      (∀ i a, (answers (notes es))[i]? = some a → a.2 = oracle i a.1) ∧
      (answers (notes es)).length ≤ k ∧ (c.pending = 0 ∨ (answers (notes es)).length = k) := by
  induction k with
  | zero =>
    -- the threads run as far as they get without an answer
    have hstart : ProgRun bodies (e.onComplete callback) [] (.start (e.onComplete callback)) := .nil
    obtain ⟨es, c, hrun, hidle, hinternal⟩ := h.settles hstart
    rw [List.nil_append] at hrun
    have hnone := answers_internal hinternal
    exact ⟨es, c, hrun, hidle, by simp [hnone], by simp [hnone], .inr (by simp [hnone])⟩
  | succ k ih =>
    obtain ⟨es, c, hrun, hidle, hanswers, hle, hpending | hlength⟩ := ih
    · exact ⟨es, c, hrun, hidle, hanswers, hle.trans (Nat.le_succ k), .inl hpending⟩
    · cases h.outcome_notes hrun hidle with
      | finished hpending =>
        exact ⟨es, c, hrun, hidle, hanswers, hle.trans (Nat.le_succ k), .inl hpending⟩
      | @waits t contract => exact isEmptyElim contract
      | @asks handler hpending =>
        -- the handler that waits is called with the next answer
        have hone : c.pending = handler ::ₘ 0 := hpending
        have hanswered := hrun.snoc (.answer (oracle k handler.1) hone)
        obtain ⟨es', c', hrun', hidle', hinternal⟩ := h.settles hanswered
        have hall : answers (notes (es ++ [.answered handler.1 (oracle k handler.1)] ++ es')) =
            answers (notes es) ++ [⟨handler.1, oracle k handler.1⟩] := by
          rw [notes_append, answers_append, answers_internal hinternal, notes_append, answers_append]
          exact List.append_nil _
        have hlength' : (answers (notes
            (es ++ [.answered handler.1 (oracle k handler.1)] ++ es'))).length = k + 1 := by
          rw [hall, List.length_append, hlength, List.length_singleton]
        refine ⟨_, c', hrun', hidle', fun i a ha => ?_, hlength'.le, .inr hlength'⟩
        rw [hall, List.getElem?_append] at ha
        split at ha
        · exact hanswers i a ha
        · obtain ⟨hi, -⟩ := List.getElem?_eq_some_iff.mp ha
          -- the new answer is the last
          have hlast : i = k := by
            rw [List.length_singleton] at hi
            omega
          rw [List.mem_singleton.mp (List.mem_of_getElem? ha), hlast]

end runs

/-! ## Programs without futures -/

section performAll
variable {bodies : Bodies S} {es : List (Event S)} {c : Config S} {list : List S.Effect}

end performAll

end Webserv.Futures
