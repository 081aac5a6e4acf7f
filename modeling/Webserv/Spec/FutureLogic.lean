import Mathlib.Logic.Hydra
import Mathlib.Tactic.Abel
import Webserv.ForStd.Multiset
import Webserv.Native.Future

/-!
# A logic for programs with futures

What the outside world sees is tied to a baton: whoever has it may perform
effects, register a handler or set a promise with it, and there is only one.
Beside it there are rights to set a promise and to attach a callback, each to be
used once.  `Safe R prog` says that `prog` makes do with the rights `R`.

A callback may keep rights to set promises and to attach to contracts it was
given, but none to attach to what the program made: once every call has returned
there is nobody left who could, so no value lies about that nobody asks for.

## Key results

- `Plan.Safe`: the rules
- `Plan.Safe.weaken`: rights that may be kept need not be used
-/

namespace Webserv.Futures

variable {S : Signature}

/-! ## Traces -/

/-- What is noted on the baton. -/
inductive Note (S : Signature) where
  | performed (effect : S.Effect)
  | answered (query : S.Query) (answer : S.Answer query)
  /-- The value of a contract that was given. -/
  | got (t : S.Ty) (contract : S.Contract t) (value : S.Val t)

abbrev Trace (S : Signature) : Type := List (Note S)

/-- What it may be that a program waits for. -/
inductive Wait (S : Signature) where
  | answer (query : S.Query)
  | value (t : S.Ty) (contract : S.Contract t)

structure Baton (S : Signature) where
  trace : Trace S
  /-- How many calls of recursive functions are free until the next answer. -/
  calls : ℕ

/-- What is known when a value is delivered. -/
abbrev Post (S : Signature) (t : S.Ty) : Type := S.Val t → Baton S → Prop

def Baton.note (b : Baton S) (n : Note S) : Baton S := { b with trace := b.trace ++ [n] }

/-- The baton behind an answer. -/
def Baton.answered (b : Baton S) (query : S.Query) (answer : S.Answer query) : Baton S where
  trace := b.trace ++ [.answered query answer]
  calls := 1

/-! ## Rights -/

inductive Right (S : Signature) where
  | set (t : S.Ty) (promise : ℕ) (post : Post S t)
  | attach (t : S.Ty) (future : ℕ) (post : Post S t)
  /-- To attach to a contract that was given. -/
  | take (t : S.Ty) (contract : S.Contract t)
  | unlock (addr : Addr S)
  | baton (b : Baton S)

abbrev Rights (S : Signature) : Type := Multiset (Right S)

/-- What a callback may keep. -/
def Right.CanKeep : Right S → Prop
  | .set _ _ _ => True
  | .take _ _ => True
  | _ => False

def CanKeep (R : Rights S) : Prop := ∀ r ∈ R, r.CanKeep

/-- No rights need not be used. -/
theorem canKeep_zero : CanKeep (0 : Rights S) := by simp [CanKeep]

/-- Rights that may stay unused can be put together. -/
theorem CanKeep.add {R R' : Rights S} (h : CanKeep R) (h' : CanKeep R') : CanKeep (R + R') := by
  intro r hr
  exact (Multiset.mem_add.mp hr).elim (h r) (h' r)

/-- A promise may stay unset. -/
theorem canKeep_set (t : S.Ty) (promise : ℕ) (post : Post S t) :
    CanKeep {Right.set t promise post} := by
  intro r hr
  rw [Multiset.mem_singleton.mp hr]
  trivial

/-- What a program is meant to do. -/
structure Plan (S : Signature) where
  /-- Behind a trace it may wait for this. -/
  Waits : Trace S → Wait S → Prop
  /-- Behind a trace it may be over. -/
  Final : Trace S → Prop
  /-- When a recursive function may be called. -/
  Pre : ∀ t : S.Ty, S.Proc t → Trace S → Prop
  /-- What the future it returns delivers, if it is called behind a trace. -/
  post : ∀ t : S.Ty, S.Proc t → Trace S → Post S t

variable (plan : Plan S)

/-- The rights one needs to attach to a future that delivers what `post` says. -/
inductive Plan.Awaits {t : S.Ty} : Ref S t → Post S t → Rights S → Prop where
  | made {id : ℕ} {post post' : Post S t} (hpost : ∀ value b, post value b → post' value b) :
      Plan.Awaits (.made id) post' {.attach t id post}
  | given {contract : S.Contract t} {post : Post S t} {b : Baton S}
      (hwaits : plan.Waits b.trace (.value t contract))
      (hpost : ∀ value, post value (b.note (.got t contract value))) :
      Plan.Awaits (.given contract) post ({.take t contract} + {.baton b})

/-- A future that delivers more delivers less. -/
theorem Plan.Awaits.mono {plan : Plan S} {t : S.Ty} {future : Ref S t} {post post' : Post S t}
    {F : Rights S} (h : plan.Awaits future post F)
    (hpost : ∀ value b, post value b → post' value b) : plan.Awaits future post' F := by
  cases h with
  | made hpost' => exact .made fun value b hb => hpost value b (hpost' value b hb)
  | given hwaits hpost' => exact .given hwaits fun value => hpost value _ (hpost' value)

/-- The program makes do with the rights. -/
inductive Plan.Safe : Rights S → Prog S → Prop where
  | done {R : Rights S} (hkeep : CanKeep R) : Plan.Safe R .done
  | finish {R R' : Rights S} {b : Baton S} (hR : R = R' + {.baton b}) (hkeep : CanKeep R')
      (hfinal : plan.Final b.trace) : Plan.Safe R .done
  | makeContract {R : Rights S} {t : S.Ty} {next : ℕ → Prog S} (post : Post S t)
      (hnext : ∀ id, Plan.Safe (R + {.set t id post} + {.attach t id post}) (next id)) :
      Plan.Safe R (.makeContract t next)
  | setValue {R R' : Rights S} {t : S.Ty} {promise : ℕ} {value : S.Val t} {next : Prog S}
      {post : Post S t} {b : Baton S} (hR : R = R' + {.set t promise post} + {.baton b})
      (hpost : post value b) (hnext : Plan.Safe R' next) :
      Plan.Safe R (.setValue t promise value next)
  | setCallback {R R' K F : Rights S} {t : S.Ty} {future : Ref S t}
      {callback : S.Val t → Prog S} {next : Prog S} {post : Post S t} (hR : R = R' + K + F)
      (hkeep : CanKeep K) (hfuture : plan.Awaits future post F)
      (hcallback : ∀ value b, post value b → Plan.Safe (K + {.baton b}) (callback value))
      (hnext : Plan.Safe R' next) : Plan.Safe R (.setCallback t future callback next)
  | perform {R R' : Rights S} {effect : S.Effect} {next : Prog S} {b : Baton S}
      (hR : R = R' + {.baton b})
      (hnext : Plan.Safe (R' + {.baton (b.note (.performed effect))}) next) :
      Plan.Safe R (.perform effect next)
  | register {R R' K : Rights S} {query : S.Query} {handler : S.Answer query → Prog S}
      {next : Prog S} {b : Baton S} (hR : R = R' + K + {.baton b}) (hkeep : CanKeep K)
      (hwaits : plan.Waits b.trace (.answer query))
      (hhandler : ∀ answer, Plan.Safe (K + {.baton (b.answered query answer)}) (handler answer))
      (hnext : Plan.Safe R' next) : Plan.Safe R (.register query handler next)
  | call {R R' : Rights S} {t : S.Ty} {proc : S.Proc t} {next : Ref S t → Prog S}
      {trace : Trace S} {calls : ℕ} (hR : R = R' + {.baton ⟨trace, calls + 1⟩})
      (hpre : plan.Pre t proc trace)
      (hnext : ∀ future F, plan.Awaits future (plan.post t proc trace) F →
        Plan.Safe (R' + F) (next future)) : Plan.Safe R (.call t proc next)

/-- Rights that may be kept need not be used. -/
theorem Plan.Safe.weaken {plan : Plan S} {R : Rights S} {prog : Prog S} (h : plan.Safe R prog)
    {K : Rights S} (hkeep : CanKeep K) : plan.Safe (R + K) prog := by
  induction h with
  | done hkeep' => exact .done (hkeep'.add hkeep)
  | @finish R R' b hR hkeep' hfinal =>
    have hrights : R + K = R' + K + {.baton b} := by
      rw [hR]
      abel
    exact .finish hrights (hkeep'.add hkeep) hfinal
  | @makeContract R t next post hnext ih =>
    -- the frame stays beside the two new rights
    refine .makeContract post fun id => ?_
    have hrights : R + K + {.set t id post} + {.attach t id post} =
        R + {.set t id post} + {.attach t id post} + K := by
      abel
    rw [hrights]
    exact ih id
  | @setValue R R' t promise value next post b hR hpost hnext ih =>
    have hrights : R + K = R' + K + {.set t promise post} + {.baton b} := by
      rw [hR]
      abel
    exact .setValue hrights hpost ih
  -- what the callback gets is its own, and no part of the frame
  | @setCallback R R' K' F t future callback next post hR hkeep' hfuture hcallback hnext _ ih =>
    have hrights : R + K = R' + K + K' + F := by
      rw [hR]
      abel
    exact .setCallback hrights hkeep' hfuture hcallback ih
  | @perform R R' effect next b hR hnext ih =>
    have hrights : R + K = R' + K + {.baton b} := by
      rw [hR]
      abel
    have hrights' : R' + {.baton (b.note (.performed effect))} + K =
        R' + K + {.baton (b.note (.performed effect))} := by
      abel
    rw [hrights'] at ih
    exact .perform hrights ih
  | @register R R' K' query handler next b hR hkeep' hwaits hhandler hnext _ ih =>
    have hrights : R + K = R' + K + K' + {.baton b} := by
      rw [hR]
      abel
    exact .register hrights hkeep' hwaits hhandler ih
  -- the frame waits until the call has returned
  | @call R R' t proc next trace calls hR hpre hnext ih =>
    have hrights : R + K = R' + K + {.baton ⟨trace, calls + 1⟩} := by
      rw [hR]
      abel
    refine .call hrights hpre fun future F hfuture => ?_
    have hrights' : R' + K + F = R' + F + K := by
      abel
    rw [hrights']
    exact ih future F hfuture

/-- Rights that may be kept, beside those of a future. -/
theorem Plan.Safe.keep {plan : Plan S} {R F K : Rights S} {prog : Prog S}
    (h : plan.Safe (R + F) prog) (hkeep : CanKeep K) : plan.Safe (R + K + F) prog := by
  rw [add_right_comm]
  exact h.weaken hkeep

/-! ## Rules for the functions that return a future -/

/-- The effects of a function are noted one after the other. -/
theorem Plan.Safe.performAll {plan : Plan S} {R : Rights S} {next : Prog S} {b : Baton S}
    (effects : List S.Effect)
    (h : plan.Safe (R + {.baton ⟨b.trace ++ effects.map .performed, b.calls⟩}) next) :
    plan.Safe (R + {.baton b}) (performAll effects next) := by
  induction effects generalizing b with
  | nil =>
    rw [List.map_nil, List.append_nil] at h
    exact h
  | cons effect effects ih =>
    -- the effect is noted, and the others are performed behind it
    refine .perform rfl (ih (b := b.note (.performed effect)) ?_)
    show plan.Safe
      (R + {.baton ⟨b.trace ++ [.performed effect] ++ effects.map .performed, b.calls⟩}) next
    rw [← List.append_cons]
    exact h

/-- The last step of a callback: a promise is set. -/
theorem Plan.Safe.setLast {plan : Plan S} {t : S.Ty} {promise : ℕ} {value : S.Val t}
    {post : Post S t} {b : Baton S}
    (hpost : post value b) :
    plan.Safe ({.set t promise post} + {.baton b}) (.setValue t promise value .done) := by
  have hrights : ({.set t promise post} + {.baton b} : Rights S) =
      0 + {.set t promise post} + {.baton b} := by
    abel
  exact .setValue hrights hpost (.done canKeep_zero)

section derived
variable {plan : Plan S} {R K F : Rights S} {s t : S.Ty} {b : Baton S} {next : Ref S t → Prog S}
  {post : Post S t}

/-- The rule for `from_val`: the value is promised at once. -/
theorem Plan.Safe.fromVal {value : S.Val t} (hpost : post value b)
    (hnext : ∀ future F, plan.Awaits future post F → plan.Safe (R + F) (next future)) :
    plan.Safe (R + {.baton b}) (Futures.fromVal value next) := by
  refine .makeContract post fun id => ?_
  have hrights : R + {.baton b} + {.set t id post} + {.attach t id post} =
      R + {.attach t id post} + {.set t id post} + {.baton b} := by
    abel
  exact .setValue hrights hpost (hnext _ _ (.made fun _ _ h => h))

/-- The rule for `contract_when`: each answer must do. -/
theorem Plan.Safe.contractWhen {query : S.Query} {handler : S.Answer query → S.Val t}
    (hwaits : plan.Waits b.trace (.answer query))
    (hpost : ∀ answer, post (handler answer) (b.answered query answer))
    (hnext : ∀ future F, plan.Awaits future post F → plan.Safe (R + F) (next future)) :
    plan.Safe (R + {.baton b}) (Futures.contractWhen query handler next) := by
  refine .makeContract post fun id => ?_
  have hrights : R + {.baton b} + {.set t id post} + {.attach t id post} =
      R + {.attach t id post} + {.set t id post} + {.baton b} := by
    abel
  -- the setter goes with the callback, the right to attach with the future
  exact .register hrights (canKeep_set _ _ _) hwaits (fun answer => .setLast (hpost answer))
    (hnext _ _ (.made fun _ _ h => h))

/-- The rule for `map`: the function takes the value and adds its effects. -/
theorem Plan.Safe.map {future : Ref S s} {func : S.Val s → List S.Effect × S.Val t}
    {post' : Post S s} (hfuture : plan.Awaits future post' F)
    (hpost : ∀ value b, post' value b →
      post (func value).2 ⟨b.trace ++ (func value).1.map .performed, b.calls⟩)
    (hnext : ∀ future F, plan.Awaits future post F → plan.Safe (R + F) (next future)) :
    plan.Safe (R + F) (Future.map future func next) := by
  refine .makeContract post fun id => ?_
  have hrights : R + F + {.set t id post} + {.attach t id post} =
      R + {.attach t id post} + {.set t id post} + F := by
    abel
  -- the setter goes with the callback on the old future
  exact .setCallback hrights (canKeep_set _ _ _) hfuture
    (fun value b hb => .performAll _ (.setLast (hpost value b hb)))
    (hnext _ _ (.made fun _ _ h => h))

/-- What the function returns is forwarded by a second callback. -/
theorem Plan.Safe.flatmap {future : Ref S s} {func : S.Val s → (Ref S t → Prog S) → Prog S}
    {post' : Post S s} (hfuture : plan.Awaits future post' F) (hkeep : CanKeep K)
    (hfunc : ∀ value b, post' value b → ∀ (R : Rights S) (cont : Ref S t → Prog S),
      (∀ future F, plan.Awaits future post F → plan.Safe (R + F) (cont future)) →
      plan.Safe (R + K + {.baton b}) (func value cont))
    (hnext : ∀ future F, plan.Awaits future post F → plan.Safe (R + F) (next future)) :
    plan.Safe (R + K + F) (Future.flatmap future func next) := by
  refine .makeContract post fun id => ?_
  have hrights : R + K + F + {.set t id post} + {.attach t id post} =
      R + {.attach t id post} + ({.set t id post} + K) + F := by
    abel
  refine .setCallback hrights ((canKeep_set _ _ _).add hkeep) hfuture (fun value b hb => ?_)
    (hnext _ _ (.made fun _ _ h => h))
  -- the inner future passes its value on, with the right to set the outer one
  refine hfunc value b hb _ _ fun future' F' hfuture' => ?_
  have hforward : {.set t id post} + F' = 0 + {.set t id post} + F' := by
    abel
  exact .setCallback hforward (canKeep_set _ _ _) hfuture' (fun value' b' hb' => .setLast hb')
    (.done canKeep_zero)

end derived

/-- The bodies of the recursive functions do what the plan says of them. -/
def Plan.Sound (bodies : Bodies S) : Prop :=
  ∀ (t : S.Ty) (proc : S.Proc t) (trace : Trace S) (calls : ℕ) (R : Rights S)
    (next : Ref S t → Prog S), plan.Pre t proc trace →
    (∀ future F, plan.Awaits future (plan.post t proc trace) F →
      plan.Safe (R + F) (next future)) →
    plan.Safe (R + {.baton ⟨trace, calls⟩}) ((bodies t proc).code next)

end Webserv.Futures
