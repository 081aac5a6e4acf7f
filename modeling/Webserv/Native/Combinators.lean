import Webserv.Native.SharedState

/-!
# `futures::fastest` and `futures::collect`

Both attach one and the same callback to each input future, in a loop that may
run beside the promises of the inputs.  A callback runs under the mutex of its
input, so what it does with the promise or the container behind it is part of
the same step.
-/

namespace Webserv.Futures

/-! ## The inputs -/

/-- What happens to the inputs. -/
inductive InputEvent (T : Type) where
  /-- `Promise::set` of an input. -/
  | set (input : ℕ) (value : T)
  /-- A turn of the loop: `it->on_complete`. -/
  | turn

/-- The shared states of the inputs, and the number of turns. -/
structure Inputs (T : Type) where
  states : ℕ → SharedState T Unit := fun _ => {}
  turned : ℕ := 0

namespace Inputs

variable {T : Type}

/-- An event up to the end of the call it makes. -/
def step (s : Inputs T) : InputEvent T → Call T Unit × Inputs T
  | .set i value =>
    let (call, st) := (s.states i).setValue value
    (call, { s with states := Function.update s.states i st })
  | .turn =>
    let (call, st) := (s.states s.turned).setCallback ()
    (call, { states := Function.update s.states s.turned st, turned := s.turned + 1 })

/-- An event behind a call that returned. -/
def afterCall (s : Inputs T) : InputEvent T → Inputs T
  -- `set_value` resets its callback, `set_callback` does not
  | .set i _ => { s with states := Function.update s.states i (s.states i).afterCall }
  | .turn => s

/-- Each promise is set once, and there is one turn for each of the inputs. -/
def Ready (total : ℕ) (s : Inputs T) : InputEvent T → Prop
  | .set i _ => i < total ∧ (s.states i).value = .empty
  | .turn => s.turned < total

end Inputs

/-! ## `fastest` -/

/-- The inputs, and the state of the future that `fastest` returns. -/
structure Fastest (T : Type) where
  inputs : Inputs T := {}
  result : SharedState T Unit := {}
  /-- `on_complete` was called on the returned future. -/
  attached : Bool := false

/-- What a step did, with the call the result's state made. -/
inductive FastestEvent (T : Type) where
  | input (event : InputEvent T) (call : Call T Unit)
  /-- `on_complete` of the returned future. -/
  | onComplete (call : Call T Unit)

namespace Fastest

variable {T : Type}

/-- `promise.set(value)` in the callback of an input. -/
def handOver (s : Fastest T) (value : T) : Call T Unit × Fastest T :=
  match s.result.setValue value with
  -- the exception leaves the section in front of `_callback = std::nullopt`
  | (.badFunctionCall, st) => (.badFunctionCall, { s with result := st })
  | (call, st) => (call, { s with result := st.afterCall })

/-- An event of an input, and the callback it may call. -/
def input (s : Fastest T) (event : InputEvent T) : Call T Unit × Fastest T :=
  match s.inputs.step event with
  | (.run () value, inputs) =>
    match { s with inputs := inputs }.handOver value with
    -- out of `Promise::set` of the input, too
    | (.badFunctionCall, s) => (.badFunctionCall, s)
    | (call, s) => (call, { s with inputs := s.inputs.afterCall event })
  | (.badFunctionCall, inputs) => (.badFunctionCall, { s with inputs := inputs })
  | (_, inputs) => (.nothing, { s with inputs := inputs })

end Fastest

/-- A step of a promise, of the loop or of the caller of `fastest`, who has its
    result once the loop is over. -/
inductive FastestStep {T : Type} (total : ℕ) : Fastest T → FastestEvent T → Fastest T → Prop where
  | input {s : Fastest T} (event : InputEvent T) (hready : s.inputs.Ready total event) :
      FastestStep total s (.input event (s.input event).1) (s.input event).2
  -- the future is returned behind the loop
  | onComplete {s : Fastest T} (hturned : s.inputs.turned = total) (honce : s.attached = false) :
      FastestStep total s (.onComplete (s.result.setCallback ()).1)
        { s with result := (s.result.setCallback ()).2, attached := true }

/-- A run of `fastest` on `total` inputs. -/
def FastestRun {T : Type} (total : ℕ) (es : List (FastestEvent T)) (s : Fastest T) : Prop :=
  Transition.Run (FastestStep total) {} es s

/-! ## `collect` -/

/-- The inputs, the container, and the state of the future that `collect` returns. -/
structure Collect (T : Type) where
  inputs : Inputs T := {}
  container : SharedContainer T Unit
  result : SharedState (List T) Unit := {}
  /-- The loop is over, and the container has the callback of `collect`. -/
  attached : Bool := false

/-- What a step did, with the values it resolved the returned future with. -/
inductive CollectEvent (T : Type) where
  | input (event : InputEvent T) (resolved : Option (List T))
  /-- `f_with_cont.on_complete` -/
  | attach (resolved : Option (List T))

namespace Collect

variable {T : Type}

/-- `promise.set(values)`, if the container called its callback. -/
def resolve (s : Collect T) (called : Option (Unit × List T)) : Option (List T) × Collect T :=
  match called with
  | none => (none, s)
  -- each call resolves the promise, also a second one
  | some ((), values) => (some values, { s with result := (s.result.setValue values).2 })

/-- An event of an input, and the callback it may call. -/
def input (s : Collect T) (event : InputEvent T) : Option (List T) × Collect T :=
  match s.inputs.step event with
  | (.run () value, inputs) =>
    let (called, container) := s.container.addValue value
    { s with inputs := inputs.afterCall event, container := container }.resolve called
  | (_, inputs) => (none, { s with inputs := inputs })

/-- The callback of the container. -/
def attach (s : Collect T) : Option (List T) × Collect T :=
  let (called, container) := s.container.setCallback ()
  { s with container := container, attached := true }.resolve called

end Collect

/-- A step of a promise, of the loop, or the end of `collect`. -/
inductive CollectStep {T : Type} (total : ℕ) : Collect T → CollectEvent T → Collect T → Prop where
  | input {s : Collect T} (event : InputEvent T) (hready : s.inputs.Ready total event) :
      CollectStep total s (.input event (s.input event).1) (s.input event).2
  | attach {s : Collect T} (hturned : s.inputs.turned = total) (honce : s.attached = false) :
      CollectStep total s (.attach s.attach.1) s.attach.2

/-- A run of `collect` on `total` inputs. -/
def CollectRun {T : Type} (total n : ℕ) (es : List (CollectEvent T)) (s : Collect T) : Prop :=
  Transition.Run (CollectStep total) { container := { requiredAmount := n } } es s

end Webserv.Futures
