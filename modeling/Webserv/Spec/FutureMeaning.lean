import Webserv.Spec.FutureWorld

/-!
# What an expression that is a future delivers

`Delivers` and `Blocks` read an expression as if it were an ordinary program: a
stage after the other, each with the value of the one before it, and a wait
where there is no value yet.  Whatever the threads do, what they have done once
every call has returned is one of these.

## Key results

- `Expr.safe`: the program of an expression is safe
- `Expr.Good.outcome`: what a run of it has done when every call has returned
- `Expr.Good.returns`: and they all return
-/

namespace Webserv.Futures

open Transition

variable {S : Signature}

/-! ## The meaning of an expression -/

/-- The expression delivers a value, behind these notes. -/
inductive Delivers (bodies : Bodies S) : {t : S.Ty} → Expr S t → Trace S → S.Val t → Prop where
  | given {t : S.Ty} (contract : S.Contract t) (value : S.Val t) :
      Delivers bodies (.given contract) [.got t contract value] value
  | fromVal {t : S.Ty} (value : S.Val t) : Delivers bodies (.fromVal value) [] value
  | when {t : S.Ty} {query : S.Query} (handler : S.Answer query → S.Val t)
      (answer : S.Answer query) :
      Delivers bodies (.when query handler) [.answered query answer] (handler answer)
  | map {s t : S.Ty} {future : Expr S s} {func : S.Val s → List S.Effect × S.Val t}
      {trace : Trace S} {value : S.Val s} (h : Delivers bodies future trace value) :
      Delivers bodies (.map future func) (trace ++ (func value).1.map .performed) (func value).2
  | flatmap {s t : S.Ty} {future : Expr S s} {func : S.Val s → Expr S t} {trace trace' : Trace S}
      {value : S.Val s} {value' : S.Val t} (h : Delivers bodies future trace value)
      (hnext : Delivers bodies (func value) trace' value') :
      Delivers bodies (.flatmap future func) (trace ++ trace') value'
  | perform {t : S.Ty} {effect : S.Effect} {future : Expr S t} {trace : Trace S}
      {value : S.Val t} (h : Delivers bodies future trace value) :
      Delivers bodies (.perform effect future) (.performed effect :: trace) value
  | call {t : S.Ty} {proc : S.Proc t} {trace : Trace S} {value : S.Val t}
      (h : Delivers bodies (bodies t proc) trace value) : Delivers bodies (.call proc) trace value

/-- Behind these notes the expression waits. -/
inductive Blocks (bodies : Bodies S) : {t : S.Ty} → Expr S t → Trace S → Wait S → Prop where
  | given {t : S.Ty} (contract : S.Contract t) :
      Blocks bodies (.given contract) [] (.value t contract)
  | when {t : S.Ty} (query : S.Query) (handler : S.Answer query → S.Val t) :
      Blocks bodies (.when query handler) [] (.answer query)
  | map {s t : S.Ty} {future : Expr S s} {func : S.Val s → List S.Effect × S.Val t}
      {trace : Trace S} {wait : Wait S} (h : Blocks bodies future trace wait) :
      Blocks bodies (.map future func) trace wait
  | flatmap {s t : S.Ty} {future : Expr S s} {func : S.Val s → Expr S t} {trace : Trace S}
      {wait : Wait S} (h : Blocks bodies future trace wait) :
      Blocks bodies (.flatmap future func) trace wait
  | next {s t : S.Ty} {future : Expr S s} {func : S.Val s → Expr S t} {trace trace' : Trace S}
      {value : S.Val s} {wait : Wait S} (h : Delivers bodies future trace value)
      (hnext : Blocks bodies (func value) trace' wait) :
      Blocks bodies (.flatmap future func) (trace ++ trace') wait
  | perform {t : S.Ty} {effect : S.Effect} {future : Expr S t} {trace : Trace S}
      {wait : Wait S} (h : Blocks bodies future trace wait) :
      Blocks bodies (.perform effect future) (.performed effect :: trace) wait
  | call {t : S.Ty} {proc : S.Proc t} {trace : Trace S} {wait : Wait S}
      (h : Blocks bodies (bodies t proc) trace wait) : Blocks bodies (.call proc) trace wait

section meaning
variable {bodies : Bodies S} {s t : S.Ty} {trace : Trace S} {value : S.Val t} {wait : Wait S}

/-- A contract from outside delivers what it is given. -/
@[simp] theorem delivers_given {contract : S.Contract t} :
    Delivers bodies (.given contract) trace value ↔ trace = [.got t contract value] := by
  constructor
  · rintro ⟨⟩
    rfl
  · rintro rfl
    exact .given contract value

/-- A value is delivered at once. -/
@[simp] theorem delivers_fromVal {val : S.Val t} :
    Delivers bodies (.fromVal val) trace value ↔ trace = [] ∧ value = val := by
  constructor
  · rintro ⟨⟩
    exact ⟨rfl, rfl⟩
  · rintro ⟨rfl, rfl⟩
    exact .fromVal value

/-- An answer is delivered through its handler. -/
@[simp] theorem delivers_when {query : S.Query} {handler : S.Answer query → S.Val t} :
    Delivers bodies (.when query handler) trace value ↔
      ∃ answer, trace = [.answered query answer] ∧ value = handler answer := by
  constructor
  · intro h
    cases h with
    | when _ answer => exact ⟨answer, rfl, rfl⟩
  · rintro ⟨answer, rfl, rfl⟩
    exact .when handler answer

/-- `map` delivers the image, and performs effects behind it. -/
@[simp] theorem delivers_map {future : Expr S s} {func : S.Val s → List S.Effect × S.Val t} :
    Delivers bodies (.map future func) trace value ↔ ∃ trace' value',
      Delivers bodies future trace' value' ∧ trace = trace' ++ (func value').1.map .performed ∧
        value = (func value').2 := by
  constructor
  · intro h
    cases h with
    | map h => exact ⟨_, _, h, rfl, rfl⟩
  · rintro ⟨trace', value', h, rfl, rfl⟩
    exact .map h

/-- `flatmap` delivers what the second future delivers. -/
@[simp] theorem delivers_flatmap {future : Expr S s} {func : S.Val s → Expr S t} :
    Delivers bodies (.flatmap future func) trace value ↔ ∃ trace₁ value' trace₂,
      Delivers bodies future trace₁ value' ∧ Delivers bodies (func value') trace₂ value ∧
        trace = trace₁ ++ trace₂ := by
  constructor
  · intro h
    cases h with
    | flatmap h hnext => exact ⟨_, _, _, h, hnext, rfl⟩
  · rintro ⟨trace₁, value', trace₂, h, hnext, rfl⟩
    exact .flatmap h hnext

/-- An effect in front is performed first. -/
@[simp] theorem delivers_perform {effect : S.Effect} {future : Expr S t} :
    Delivers bodies (.perform effect future) trace value ↔
      ∃ trace', Delivers bodies future trace' value ∧ trace = .performed effect :: trace' := by
  constructor
  · intro h
    cases h with
    | perform h => exact ⟨_, h, rfl⟩
  · rintro ⟨trace', h, rfl⟩
    exact .perform h

/-- A call delivers what the body delivers. -/
theorem delivers_call {proc : S.Proc t} :
    Delivers bodies (.call proc) trace value ↔ Delivers bodies (bodies t proc) trace value := by
  constructor
  · intro h
    cases h with
    | call h => exact h
  · exact .call

/-- A contract from outside waits for its value. -/
@[simp] theorem blocks_given {contract : S.Contract t} :
    Blocks bodies (.given contract) trace wait ↔ trace = [] ∧ wait = .value t contract := by
  constructor
  · rintro ⟨⟩
    exact ⟨rfl, rfl⟩
  · rintro ⟨rfl, rfl⟩
    exact .given contract

/-- A value does not wait. -/
@[simp] theorem not_blocks_fromVal {val : S.Val t} : ¬ Blocks bodies (.fromVal val) trace wait :=
  nofun

/-- An answer is waited for. -/
@[simp] theorem blocks_when {query : S.Query} {handler : S.Answer query → S.Val t} :
    Blocks bodies (.when query handler) trace wait ↔ trace = [] ∧ wait = .answer query := by
  constructor
  · rintro ⟨⟩
    exact ⟨rfl, rfl⟩
  · rintro ⟨rfl, rfl⟩
    exact .when query handler

/-- `map` waits where its future does. -/
@[simp] theorem blocks_map {future : Expr S s} {func : S.Val s → List S.Effect × S.Val t} :
    Blocks bodies (.map future func) trace wait ↔ Blocks bodies future trace wait := by
  constructor
  · intro h
    cases h with
    | map h => exact h
  · exact .map

/-- `flatmap` waits in the first future, or in the second. -/
@[simp] theorem blocks_flatmap {future : Expr S s} {func : S.Val s → Expr S t} :
    Blocks bodies (.flatmap future func) trace wait ↔ Blocks bodies future trace wait ∨
      ∃ trace₁ value trace₂, Delivers bodies future trace₁ value ∧
        Blocks bodies (func value) trace₂ wait ∧ trace = trace₁ ++ trace₂ := by
  constructor
  · intro h
    cases h with
    -- the future stops first, or what comes behind its value does
    | flatmap h => exact .inl h
    | next h hnext => exact .inr ⟨_, _, _, h, hnext, rfl⟩
  · rintro (h | ⟨trace₁, value, trace₂, h, hnext, rfl⟩)
    · exact .flatmap h
    · exact .next h hnext

/-- An effect in front is performed before the wait. -/
@[simp] theorem blocks_perform {effect : S.Effect} {future : Expr S t} :
    Blocks bodies (.perform effect future) trace wait ↔
      ∃ trace', Blocks bodies future trace' wait ∧ trace = .performed effect :: trace' := by
  constructor
  · intro h
    cases h with
    | perform h => exact ⟨_, h, rfl⟩
  · rintro ⟨trace', h, rfl⟩
    exact .perform h

/-- A call waits where the body does. -/
theorem blocks_call {proc : S.Proc t} :
    Blocks bodies (.call proc) trace wait ↔ Blocks bodies (bodies t proc) trace wait := by
  constructor
  · intro h
    cases h with
    | call h => exact h
  · exact .call

end meaning

/-! ## Well-formed expressions -/

/-- The expression uses each of the contracts at most once, as a `Future` cannot be
    copied, and no other one. -/
inductive Takes : Multiset (Σ t : S.Ty, S.Contract t) → {t : S.Ty} → Expr S t → Prop where
  | given {D : Multiset (Σ t : S.Ty, S.Contract t)} {t : S.Ty} {contract : S.Contract t}
      (h : ⟨t, contract⟩ ∈ D) : Takes D (.given contract)
  | fromVal {D : Multiset (Σ t : S.Ty, S.Contract t)} {t : S.Ty} (value : S.Val t) :
      Takes D (.fromVal value)
  | when {D : Multiset (Σ t : S.Ty, S.Contract t)} {t : S.Ty} {query : S.Query}
      (handler : S.Answer query → S.Val t) : Takes D (.when query handler)
  | map {D : Multiset (Σ t : S.Ty, S.Contract t)} {s t : S.Ty} {future : Expr S s}
      (func : S.Val s → List S.Effect × S.Val t) (h : Takes D future) :
      Takes D (.map future func)
  | flatmap {D D₁ D₂ : Multiset (Σ t : S.Ty, S.Contract t)} {s t : S.Ty} {future : Expr S s}
      {func : S.Val s → Expr S t} (hD : D = D₁ + D₂) (h : Takes D₁ future)
      (hfunc : ∀ value, Takes D₂ (func value)) : Takes D (.flatmap future func)
  | perform {D : Multiset (Σ t : S.Ty, S.Contract t)} {t : S.Ty} (effect : S.Effect)
      {future : Expr S t} (h : Takes D future) : Takes D (.perform effect future)
  | call {D : Multiset (Σ t : S.Ty, S.Contract t)} {t : S.Ty} (proc : S.Proc t) :
      Takes D (.call proc)

variable (ends : ∀ t : S.Ty, S.Proc t → ℕ)

/-- With `n` free calls the expression comes to its next answer, and if it delivers a
    value there are `m` left. -/
inductive Pays : ℕ → {t : S.Ty} → Expr S t → ℕ → Prop where
  | given {n m : ℕ} {t : S.Ty} (contract : S.Contract t) (h : m ≤ n) :
      Pays n (.given contract) m
  | fromVal {n m : ℕ} {t : S.Ty} (value : S.Val t) (h : m ≤ n) : Pays n (.fromVal value) m
  | when {n m : ℕ} {t : S.Ty} {query : S.Query} (handler : S.Answer query → S.Val t)
      (h : m ≤ 1) : Pays n (.when query handler) m
  | map {n m : ℕ} {s t : S.Ty} {future : Expr S s} (func : S.Val s → List S.Effect × S.Val t)
      (h : Pays n future m) : Pays n (.map future func) m
  | flatmap {n k m : ℕ} {s t : S.Ty} {future : Expr S s} {func : S.Val s → Expr S t}
      (h : Pays n future k) (hfunc : ∀ value, Pays k (func value) m) :
      Pays n (.flatmap future func) m
  | perform {n m : ℕ} {t : S.Ty} (effect : S.Effect) {future : Expr S t} (h : Pays n future m) :
      Pays n (.perform effect future) m
  | call {n m : ℕ} {t : S.Ty} {proc : S.Proc t} (hn : 0 < n) (hm : m ≤ ends t proc) :
      Pays n (.call proc) m

/-- The recursive functions wait for an answer before they call themselves again. -/
structure Guarded (bodies : Bodies S) : Prop where
  takes : ∀ t proc, Takes 0 (bodies t proc)
  pays : ∀ t proc, Pays ends 0 (bodies t proc) (ends t proc)

/-! ## The program of an expression is safe -/

/-- What the future of an expression delivers, if it is evaluated behind a trace. -/
def Result (bodies : Bodies S) {t : S.Ty} (e : Expr S t) (trace : Trace S) (m : ℕ) : Post S t :=
  fun value b => ∃ trace', Delivers bodies e trace' value ∧ b.trace = trace ++ trace' ∧ m ≤ b.calls

/-- The plan of `e.onComplete callback`. -/
def Expr.plan (bodies : Bodies S) {t : S.Ty} (e : Expr S t) (callback : S.Val t → List S.Effect) :
    Plan S where
  Waits := Blocks bodies e
  Final trace := ∃ trace' value, Delivers bodies e trace' value ∧
    trace = trace' ++ (callback value).map .performed
  Pre _ proc trace := ∀ trace' wait, Blocks bodies (.call proc) trace' wait →
    Blocks bodies e (trace ++ trace') wait
  post t proc trace := Result bodies (.call proc) trace (ends t proc)

variable {ends}

/-- Contracts from outside may stay unattached. -/
theorem canKeep_takes (D : Multiset (Σ t : S.Ty, S.Contract t)) : CanKeep (takes D) := by
  intro r hr
  obtain ⟨x, -, rfl⟩ := Multiset.mem_map.mp hr
  trivial

section safe
variable {bodies : Bodies S} {plan : Plan S} {t : S.Ty}

/-- The program of an expression, in front of one that attaches to its future. -/
theorem Expr.safe (hpre : ∀ t proc trace, plan.Pre t proc trace ↔ ∀ trace' wait,
      Blocks bodies (.call (t := t) proc) trace' wait → plan.Waits (trace ++ trace') wait)
    (hpost : ∀ t proc trace, plan.post t proc trace = Result bodies (.call proc) trace (ends t proc))
    (e : Expr S t) {D : Multiset (Σ t : S.Ty, S.Contract t)} {n m : ℕ} {b : Baton S} {R : Rights S}
    {next : Ref S t → Prog S} (htakes : Takes D e) (hpays : Pays ends n e m) (hcalls : n ≤ b.calls)
    (hwaits : ∀ trace wait, Blocks bodies e trace wait → plan.Waits (b.trace ++ trace) wait)
    (hnext : ∀ future F, plan.Awaits future (Result bodies e b.trace m) F →
      plan.Safe (R + F) (next future)) :
    plan.Safe (R + takes D + {.baton b}) (e.code next) := by
  induction e generalizing D n m b R with
  | given contract =>
    cases htakes with
    | given hmem =>
      cases hpays with
      | given _ hm =>
        obtain ⟨rest, rfl⟩ := Multiset.exists_cons_of_mem hmem
        have hfuture : plan.Awaits (.given contract) (Result bodies (.given contract) b.trace m)
            ({.take _ contract} + {.baton b}) := by
          refine .given ?_ fun value => ⟨_, .given contract value, rfl, hm.trans hcalls⟩
          simpa using hwaits _ _ (.given contract)
        have hrights : R + takes (⟨_, contract⟩ ::ₘ rest) + {.baton b} =
            R + takes rest + ({.take _ contract} + {.baton b}) := by
          rw [takes, Multiset.map_cons, ← Multiset.singleton_add]
          show R + (_ + takes rest) + _ = _
          abel
        rw [hrights]
        exact (hnext _ _ hfuture).keep (canKeep_takes rest)
  -- the simple futures leave the contracts alone
  | fromVal value =>
    cases hpays with
    | fromVal _ hm =>
      exact .fromVal ⟨[], .fromVal value, (List.append_nil _).symm, hm.trans hcalls⟩
        fun future F hfuture => (hnext future F hfuture).keep (canKeep_takes D)
  | when query handler =>
    cases hpays with
    | when _ hm =>
      refine .contractWhen ?_ (fun answer => ⟨_, .when handler answer, rfl, hm⟩)
        fun future F hfuture => (hnext future F hfuture).keep (canKeep_takes D)
      simpa using hwaits _ _ (.when query handler)
  -- the effects of the function come behind the trace of its future
  | map future func ih =>
    cases htakes with
    | map _ htakes =>
      cases hpays with
      | map _ hpays =>
        refine ih htakes hpays hcalls (fun trace wait h => hwaits trace wait (.map h))
          fun ref F hfuture => .map hfuture (fun value b' hb => ?_) hnext
        obtain ⟨trace, hdelivers, htrace, hm⟩ := hb
        refine ⟨_, .map hdelivers, ?_, hm⟩
        rw [htrace, List.append_assoc]
  | @flatmap s t future func ih ihfunc =>
    cases htakes with
    | @flatmap _ D₁ D₂ _ _ _ _ hD htakes htakesFunc =>
      cases hpays with
      | flatmap hpays hpaysFunc =>
        have hrights : R + takes D + {.baton b} = R + takes D₂ + takes D₁ + {.baton b} := by
          rw [hD, takes, Multiset.map_add]
          show R + (takes D₁ + takes D₂) + _ = _
          abel
        rw [hrights]
        refine ih htakes hpays hcalls (fun trace wait h => hwaits trace wait (.flatmap h))
          fun ref F hfuture => .flatmap hfuture (canKeep_takes D₂) (fun value b' hb K cont hcont => ?_)
            hnext
        -- the callback evaluates the next expression
        obtain ⟨trace, hdelivers, htrace, hk⟩ := hb
        refine ihfunc value (htakesFunc value) (hpaysFunc value) hk (fun trace' wait h => ?_)
          fun ref' F' hfuture' => hcont ref' F' (hfuture'.mono fun value' b'' hb' => ?_)
        · rw [htrace, List.append_assoc]
          exact hwaits _ _ (.next hdelivers h)
        · obtain ⟨trace', hdelivers', htrace', hm⟩ := hb'
          refine ⟨_, .flatmap hdelivers hdelivers', ?_, hm⟩
          rw [htrace', htrace, List.append_assoc]
  | perform effect future ih =>
    cases htakes with
    | perform _ htakes =>
      cases hpays with
      | perform _ hpays =>
        refine .perform rfl (ih (b := b.note (.performed effect)) htakes hpays hcalls
          (fun trace wait h => ?_) fun ref F hfuture => ?_)
        · show plan.Waits (b.trace ++ [.performed effect] ++ trace) wait
          rw [← List.append_cons]
          exact hwaits _ _ (.perform h)
        · refine hnext ref F (hfuture.mono fun value b' hb => ?_)
          obtain ⟨trace, hdelivers, htrace, hm⟩ := hb
          refine ⟨_, .perform hdelivers, ?_, hm⟩
          rw [htrace]
          show b.trace ++ [.performed effect] ++ trace = _
          rw [← List.append_cons]
  -- one of the free calls is used
  | call proc =>
    cases hpays with
    | call hn hm =>
      obtain ⟨trace, calls⟩ := b
      have hcalls' : n ≤ calls := hcalls
      have hrights : R + takes D + {.baton ⟨trace, calls⟩} =
          R + takes D + {.baton ⟨trace, calls - 1 + 1⟩} := by
        rw [Nat.sub_add_cancel (by omega)]
      refine .call hrights ((hpre _ _ _).mpr hwaits) fun ref F hfuture => ?_
      rw [hpost] at hfuture
      refine (hnext ref F (hfuture.mono fun value b' hb => ?_)).keep (canKeep_takes D)
      obtain ⟨trace', hdelivers, htrace, hends⟩ := hb
      exact ⟨trace', hdelivers, htrace, hm.trans hends⟩

end safe

/-! ## Runs -/

/-- The functions wait before they call themselves again, and the expression uses each
    contract at most once. -/
structure Expr.Good (ends : ∀ t : S.Ty, S.Proc t → ℕ) (bodies : Bodies S) {t : S.Ty}
    (e : Expr S t) : Prop where
  guarded : Guarded ends bodies
  takes : ∃ D : Multiset (Σ t : S.Ty, S.Contract t), D.Nodup ∧ Takes D e
  pays : ∃ n m, Pays ends n e m

/-- What there is when every call has returned. -/
inductive Outcome (bodies : Bodies S) {t : S.Ty} (e : Expr S t)
    (callback : S.Val t → List S.Effect) (c : Config S) (trace : Trace S) : Prop where
  | finished {trace' : Trace S} {value : S.Val t} (hpending : c.pending = 0)
      (h : Delivers bodies e trace' value)
      (htrace : trace = trace' ++ (callback value).map .performed)
  | asks {handler : Σ query : S.Query, S.Answer query → Prog S} (hpending : c.pending = {handler})
      (h : Blocks bodies e trace (.answer handler.1))
  | waits {t : S.Ty} {contract : S.Contract t} (hpending : c.pending = 0)
      (h : Blocks bodies e trace (.value t contract))
      (hunset : (c.heap ⟨t, .given contract⟩).state.value = .empty)

section runs
variable {bodies : Bodies S} {t : S.Ty} {e : Expr S t} {callback : S.Val t → List S.Effect}
  {es : List (Event S)} {c : Config S}

/-- The bodies keep to the plan. -/
theorem Guarded.sound (h : Guarded ends bodies) (e : Expr S t)
    (callback : S.Val t → List S.Effect) : (e.plan ends bodies callback).Sound bodies := by
  intro t proc trace calls R next hpre hnext
  have hsafe : (e.plan ends bodies callback).Safe (R + Futures.takes 0 + {.baton ⟨trace, calls⟩})
      ((bodies t proc).code next) := by
    -- the triple of the body, with the bounds of its takes and its payments
    refine (bodies t proc).safe (fun _ _ _ => Iff.rfl) (fun _ _ _ => rfl) (h.takes t proc)
      (h.pays t proc) (Nat.zero_le _) (fun trace' wait hblocks => hpre trace' wait (.call hblocks))
      fun future F hfuture => hnext future F (hfuture.mono fun value b hb => ?_)
    obtain ⟨trace', hdelivers, hrest⟩ := hb
    exact ⟨trace', .call hdelivers, hrest⟩
  -- nothing is taken from outside, so only the baton moves
  have hrights : R + Futures.takes (0 : Multiset (Σ t : S.Ty, S.Contract t)) = R := add_zero R
  rwa [hrights] at hsafe

/-- The logic applies to every run of the expression. -/
theorem Expr.Good.world (h : e.Good ends bodies)
    (hrun : ProgRun bodies (e.onComplete callback) es c) :
    ∃ g, World (e.plan ends bodies callback) es c 0 g := by
  obtain ⟨D, hD, htakes⟩ := h.takes
  obtain ⟨n, m, hpays⟩ := h.pays
  have hsafe : (e.plan ends bodies callback).Safe (0 + Futures.takes D + {.baton ⟨[], n⟩})
      (e.onComplete callback) := by
    refine e.safe (fun _ _ _ => Iff.rfl) (fun _ _ _ => rfl) htakes hpays (Nat.le_refl n)
      (fun trace wait hblocks => hblocks) fun future F hfuture => ?_
    have hrights : 0 + F = 0 + 0 + F := by
      rw [add_zero]
    -- the last callback performs its effects and is done
    refine .setCallback hrights canKeep_zero hfuture (fun value b hb => ?_) (.done canKeep_zero)
    obtain ⟨trace, hdelivers, htrace, -⟩ := hb
    rw [List.nil_append] at htrace
    exact Plan.Safe.performAll _ (.finish rfl canKeep_zero ⟨trace, value, hdelivers, by rw [htrace]⟩)
  rw [zero_add] at hsafe
  exact (h.guarded.sound e callback).world hD hsafe hrun

/-- What has been done when every call has returned is what the expression means. -/
theorem Expr.Good.outcome (h : e.Good ends bodies)
    (hrun : ProgRun bodies (e.onComplete callback) es c) (hidle : c.Idle) :
    ∃ trace, Agrees trace es ∧ Outcome bodies e callback c trace := by
  obtain ⟨g, hworld⟩ := h.world hrun
  refine ⟨g.baton.trace, hworld.agrees, ?_⟩
  obtain ⟨hpending, trace', value, hdelivers, htrace⟩ | ⟨handler, hpending, hblocks⟩ |
    ⟨t, contract, hpending, hblocks, hunset⟩ := hworld.idle hidle
  · -- the callback ran, some event is waited for, or a contract that nobody has set
    exact .finished hpending hdelivers htrace
  · exact .asks hpending hblocks
  · exact .waits hpending hblocks hunset

/-- Every call returns in the end. -/
theorem Expr.Good.returns (h : e.Good ends bodies)
    (hrun : ProgRun bodies (e.onComplete callback) es c) :
    Inevitably (Step bodies) Event.Internal Config.Idle c := by
  obtain ⟨g, hworld⟩ := h.world hrun
  exact hworld.returns (h.guarded.sound e callback)

/-- No exception leaves a program whose rights add up. -/
theorem ProgRun.not_uncaught {plan : Plan S} {prog : Prog S} (hrun : ProgRun bodies prog es c)
    (hworld : ∀ es c, ProgRun bodies prog es c → ∃ g, World plan es c 0 g) : .uncaught ∉ es := by
  intro hmem
  -- every step starts in a world, where nothing is thrown past the loop
  have hall := hrun.forall_events (P := fun c => ∃ es, ProgRun bodies prog es c)
    (Q := fun e => e ≠ .uncaught) ⟨[], .nil⟩ fun c e c' hc hstep => ?_
  · exact hall _ hmem rfl
  · obtain ⟨es, hrun⟩ := hc
    obtain ⟨g, hg⟩ := hworld es c hrun
    exact ⟨⟨_, hrun.snoc hstep⟩, hstep.ne_uncaught hg⟩

/-- No exception escapes. -/
theorem Expr.Good.not_uncaught (h : e.Good ends bodies)
    (hrun : ProgRun bodies (e.onComplete callback) es c) : .uncaught ∉ es :=
  hrun.not_uncaught fun _ _ => h.world

end runs

end Webserv.Futures
