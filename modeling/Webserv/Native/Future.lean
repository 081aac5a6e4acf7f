import Mathlib.Data.Multiset.AddSub
import Mathlib.Data.Multiset.MapFold
import Mathlib.Logic.Function.Basic
import Webserv.Native.SharedState

/-!
# Programs with promises and futures

`Prog` is what one thread does with them, a section at a time: the calls of
`make_contract`, `Promise::set` and `on_complete`, with the rest of the program
as a continuation.  `Future.map`, `Future.flatmap` and `fromVal` are the
source's, and `Expr` is what the callers build from them.

A callback runs under the mutex of its state, in the thread that set the value
or the callback.  Any thread may take the next step.
-/

namespace Webserv.Futures

/-- What a program deals in. -/
structure Signature where
  Ty : Type
  /-- The values of a future of a type. -/
  Val : Ty → Type
  /-- The contracts that somebody else made, and sets at any time. -/
  Contract : Ty → Type
  /-- What a handler is registered for, and what it may be called with. -/
  Query : Type
  Answer : Query → Type
  /-- The recursive functions that return a future. -/
  Proc : Ty → Type
  /-- What the functions do beside. -/
  Effect : Type
  [decTy : DecidableEq Ty]
  [decContract : ∀ t, DecidableEq (Contract t)]

attribute [instance] Signature.decTy Signature.decContract

variable {S : Signature}

/-- A shared state: one the program made, or one it was given. -/
inductive Ref (S : Signature) (t : S.Ty) where
  | made (id : ℕ)
  | given (contract : S.Contract t)
deriving DecidableEq

/-! ## Programs -/

inductive Prog (S : Signature) : Type where
  | done
  | makeContract (t : S.Ty) (next : ℕ → Prog S)
  /-- `promise.set(value)` -/
  | setValue (t : S.Ty) (promise : ℕ) (value : S.Val t) (next : Prog S)
  /-- `future.on_complete(callback)` -/
  | setCallback (t : S.Ty) (future : Ref S t) (callback : S.Val t → Prog S) (next : Prog S)
  | perform (effect : S.Effect) (next : Prog S)
  /-- `when_readable`, `when_writable`: the handler is called later, once. -/
  | register (query : S.Query) (handler : S.Answer query → Prog S) (next : Prog S)
  | call (t : S.Ty) (proc : S.Proc t) (next : Ref S t → Prog S)

/-- The effects of a function, in order. -/
def performAll (effects : List S.Effect) (next : Prog S) : Prog S :=
  effects.foldr .perform next

/-- `futures::from_val` -/
def fromVal {t : S.Ty} (val : S.Val t) (next : Ref S t → Prog S) : Prog S :=
  -- set before anyone can attach to it
  .makeContract t fun promise => .setValue t promise val (next (.made promise))

/-- `Future::map` -/
def Future.map {s t : S.Ty} (future : Ref S s) (func : S.Val s → List S.Effect × S.Val t)
    (next : Ref S t → Prog S) : Prog S :=
  .makeContract t fun promise =>
    -- if the future is set already, the function runs before the new one is handed out
    .setCallback s future
      (fun val => performAll (func val).1 (.setValue t promise (func val).2 .done))
      (next (.made promise))

/-- `Future::flatmap` -/
def Future.flatmap {s t : S.Ty} (future : Ref S s)
    (func : S.Val s → (Ref S t → Prog S) → Prog S) (next : Ref S t → Prog S) : Prog S :=
  .makeContract t fun promise =>
    .setCallback s future
      (fun val => func val fun nextFut =>
        -- the promise waits for the inner future, too
        .setCallback t nextFut (fun val2 => .setValue t promise val2 .done) .done)
      (next (.made promise))

/-- A contract whose promise is set by a handler. -/
def contractWhen {t : S.Ty} (query : S.Query) (handler : S.Answer query → S.Val t)
    (next : Ref S t → Prog S) : Prog S :=
  .makeContract t fun promise =>
    -- a handler is called once, so the promise is set once
    .register query (fun answer => .setValue t promise (handler answer) .done)
      (next (.made promise))

/-- An expression that is a future. -/
inductive Expr (S : Signature) : S.Ty → Type where
  | given {t : S.Ty} (contract : S.Contract t) : Expr S t
  | fromVal {t : S.Ty} (val : S.Val t) : Expr S t
  | when {t : S.Ty} (query : S.Query) (handler : S.Answer query → S.Val t) : Expr S t
  | map {s t : S.Ty} (future : Expr S s) (func : S.Val s → List S.Effect × S.Val t) : Expr S t
  | flatmap {s t : S.Ty} (future : Expr S s) (func : S.Val s → Expr S t) : Expr S t
  | perform {t : S.Ty} (effect : S.Effect) (future : Expr S t) : Expr S t
  | call {t : S.Ty} (proc : S.Proc t) : Expr S t

/-- The program that evaluates the expression. -/
def Expr.code {t : S.Ty} : Expr S t → (Ref S t → Prog S) → Prog S
  | .given contract, next => next (.given contract)
  | .fromVal val, next => Futures.fromVal val next
  | .when query handler, next => contractWhen query handler next
  | .map future func, next => future.code fun ref => Future.map ref func next
  | .flatmap future func, next =>
    future.code fun ref => Future.flatmap ref (fun val => (func val).code) next
  | .perform effect future, next => .perform effect (future.code next)
  | .call proc, next => .call _ proc next

/-- `on_complete` of the future an expression is. -/
def Expr.onComplete {t : S.Ty} (future : Expr S t) (callback : S.Val t → List S.Effect) : Prog S :=
  future.code fun ref => .setCallback t ref (fun val => performAll (callback val) .done) .done

/-- The bodies of the recursive functions. -/
abbrev Bodies (S : Signature) : Type := ∀ t : S.Ty, S.Proc t → Expr S t

/-! ## Threads -/

/-- A shared state and its mutex. -/
structure Cell (S : Signature) (t : S.Ty) where
  state : SharedState (S.Val t) (S.Val t → Prog S) := {}
  locked : Bool := false

abbrev Addr (S : Signature) : Type := Σ t : S.Ty, Ref S t

abbrev Heap (S : Signature) : Type := ∀ addr : Addr S, Cell S addr.1

/-- What a thread has still to do. -/
inductive Frame (S : Signature) where
  | code (prog : Prog S)
  /-- The end of a section behind the callback it called. -/
  | unlock (addr : Addr S) (reset : Bool)
  /-- An exception on its way down. -/
  | threw

structure Config (S : Signature) where
  heap : Heap S := fun _ => {}
  /-- How many contracts were made. -/
  made : ℕ := 0
  threads : Multiset (List (Frame S))
  /-- The registered handlers. -/
  pending : Multiset (Σ query : S.Query, S.Answer query → Prog S) := 0

inductive Event (S : Signature) where
  | silent
  | performed (effect : S.Effect)
  | answered (query : S.Query) (answer : S.Answer query)
  | gave (t : S.Ty) (contract : S.Contract t) (value : S.Val t)
  /-- An exception that nobody caught. -/
  | uncaught

/-- The call of a section: is the mutex kept, and what the thread does next. -/
inductive Called (addr : Addr S) (reset : Bool) (below : List (Frame S)) :
    Call (S.Val addr.1) (S.Val addr.1 → Prog S) → Bool → List (Frame S) → Prop where
  | nothing : Called addr reset below .nothing false below
  | run (callback : S.Val addr.1 → Prog S) (value : S.Val addr.1) :
      Called addr reset below (.run callback value) true
        (.code (callback value) :: .unlock addr reset :: below)
  /-- With whatever the move has left. -/
  | runMovedFrom (callback : S.Val addr.1 → Prog S) (value : S.Val addr.1) :
      Called addr reset below (.runMovedFrom callback) true
        (.code (callback value) :: .unlock addr reset :: below)
  | badFunctionCall : Called addr reset below .badFunctionCall false (.threw :: below)

/-- A step of one thread, of the loop that calls the handlers, or of somebody who
    sets the promise of a given contract. -/
inductive Step (bodies : Bodies S) : Config S → Event S → Config S → Prop where
  | done {c : Config S} {stack : List (Frame S)} {rest : Multiset (List (Frame S))}
      (hthread : c.threads = (.code .done :: stack) ::ₘ rest) :
      Step bodies c .silent { c with threads := stack ::ₘ rest }
  | makeContract {c : Config S} {stack : List (Frame S)} {rest : Multiset (List (Frame S))}
      {t : S.Ty} {next : ℕ → Prog S}
      (hthread : c.threads = (.code (.makeContract t next) :: stack) ::ₘ rest) :
      Step bodies c .silent
        { c with made := c.made + 1, threads := (.code (next c.made) :: stack) ::ₘ rest }
  | setValue {c : Config S} {stack stack' : List (Frame S)} {rest : Multiset (List (Frame S))}
      {t : S.Ty} {promise : ℕ} {value : S.Val t} {next : Prog S} {locked : Bool}
      (hthread : c.threads = (.code (.setValue t promise value next) :: stack) ::ₘ rest)
      (hfree : (c.heap ⟨t, .made promise⟩).locked = false)
      -- the mutex stays locked while the callback runs
      (hcalled : Called ⟨t, .made promise⟩ true (.code next :: stack)
        ((c.heap ⟨t, .made promise⟩).state.setValue value).1 locked stack') :
      Step bodies c .silent
        { c with
          heap := Function.update c.heap ⟨t, .made promise⟩
            ⟨((c.heap ⟨t, .made promise⟩).state.setValue value).2, locked⟩
          threads := stack' ::ₘ rest }
  | setCallback {c : Config S} {stack stack' : List (Frame S)}
      {rest : Multiset (List (Frame S))} {t : S.Ty} {future : Ref S t}
      {callback : S.Val t → Prog S} {next : Prog S} {locked : Bool}
      (hthread : c.threads = (.code (.setCallback t future callback next) :: stack) ::ₘ rest)
      (hfree : (c.heap ⟨t, future⟩).locked = false)
      (hcalled : Called ⟨t, future⟩ false (.code next :: stack)
        ((c.heap ⟨t, future⟩).state.setCallback callback).1 locked stack') :
      Step bodies c .silent
        { c with
          heap := Function.update c.heap ⟨t, future⟩
            ⟨((c.heap ⟨t, future⟩).state.setCallback callback).2, locked⟩
          threads := stack' ::ₘ rest }
  | perform {c : Config S} {stack : List (Frame S)} {rest : Multiset (List (Frame S))}
      {effect : S.Effect} {next : Prog S}
      (hthread : c.threads = (.code (.perform effect next) :: stack) ::ₘ rest) :
      Step bodies c (.performed effect) { c with threads := (.code next :: stack) ::ₘ rest }
  | register {c : Config S} {stack : List (Frame S)} {rest : Multiset (List (Frame S))}
      {query : S.Query} {handler : S.Answer query → Prog S} {next : Prog S}
      (hthread : c.threads = (.code (.register query handler next) :: stack) ::ₘ rest) :
      Step bodies c .silent
        { c with threads := (.code next :: stack) ::ₘ rest
                 pending := ⟨query, handler⟩ ::ₘ c.pending }
  | call {c : Config S} {stack : List (Frame S)} {rest : Multiset (List (Frame S))}
      {t : S.Ty} {proc : S.Proc t} {next : Ref S t → Prog S}
      (hthread : c.threads = (.code (.call t proc next) :: stack) ::ₘ rest) :
      Step bodies c .silent
        { c with threads := (.code ((bodies t proc).code next) :: stack) ::ₘ rest }
  | unlock {c : Config S} {stack : List (Frame S)} {rest : Multiset (List (Frame S))}
      {addr : Addr S} {reset : Bool}
      (hthread : c.threads = (.unlock addr reset :: stack) ::ₘ rest) :
      Step bodies c .silent
        { c with
          heap := Function.update c.heap addr
            { state := if reset then (c.heap addr).state.afterCall else (c.heap addr).state }
          threads := stack ::ₘ rest }
  | unwindCode {c : Config S} {stack : List (Frame S)} {rest : Multiset (List (Frame S))}
      {prog : Prog S} (hthread : c.threads = (.threw :: .code prog :: stack) ::ₘ rest) :
      Step bodies c .silent { c with threads := (.threw :: stack) ::ₘ rest }
  -- the guard unlocks, but the statement behind the call is skipped
  | unwindUnlock {c : Config S} {stack : List (Frame S)} {rest : Multiset (List (Frame S))}
      {addr : Addr S} {reset : Bool}
      (hthread : c.threads = (.threw :: .unlock addr reset :: stack) ::ₘ rest) :
      Step bodies c .silent
        { c with
          heap := Function.update c.heap addr { state := (c.heap addr).state }
          threads := (.threw :: stack) ::ₘ rest }
  | uncaught {c : Config S} {rest : Multiset (List (Frame S))}
      (hthread : c.threads = [.threw] ::ₘ rest) :
      Step bodies c .uncaught { c with threads := rest }
  -- the loop calls it, with nothing of the program below
  | answer {c : Config S} {rest : Multiset (Σ query : S.Query, S.Answer query → Prog S)}
      {query : S.Query} {handler : S.Answer query → Prog S} (answer : S.Answer query)
      (hpending : c.pending = ⟨query, handler⟩ ::ₘ rest) :
      Step bodies c (.answered query answer)
        { c with threads := [.code (handler answer)] ::ₘ c.threads, pending := rest }
  | give {c : Config S} {stack' : List (Frame S)} {t : S.Ty} {contract : S.Contract t}
      {value : S.Val t} {locked : Bool}
      -- each promise is set once
      (hunset : (c.heap ⟨t, .given contract⟩).state.value = .empty)
      (hfree : (c.heap ⟨t, .given contract⟩).locked = false)
      (hcalled : Called ⟨t, .given contract⟩ true []
        ((c.heap ⟨t, .given contract⟩).state.setValue value).1 locked stack') :
      Step bodies c (.gave t contract value)
        { c with
          heap := Function.update c.heap ⟨t, .given contract⟩
            ⟨((c.heap ⟨t, .given contract⟩).state.setValue value).2, locked⟩
          threads := stack' ::ₘ c.threads }

/-- The program at its start, in one thread. -/
def Config.start (prog : Prog S) : Config S where
  threads := {[.code prog]}

/-- A run of the program. -/
def ProgRun (bodies : Bodies S) (prog : Prog S) (es : List (Event S)) (c : Config S) : Prop :=
  Transition.Run (Step bodies) (.start prog) es c

/-- Every call has returned. -/
def Config.Idle (c : Config S) : Prop := ∀ stack ∈ c.threads, stack = []

/-- The steps the threads take by themselves. -/
def Event.Internal : Event S → Prop
  | .answered _ _ => False
  | .gave _ _ _ => False
  | _ => True

end Webserv.Futures
