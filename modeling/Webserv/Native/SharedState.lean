import Mathlib.Data.Nat.Notation
import Mathlib.Logic.Function.Basic
import Webserv.ForStd.Transition

/-!
# The shared states of promises and futures

`_state` is what a promise and its future share, `_shared_container` what the
promises of `collect` share.  What a call does while it holds the mutex is one
function; the call of the callback, which happens under the mutex too, is what
the function returns.  All executors are `same_thread`.
-/

namespace Webserv.Futures

/-- A `std::optional` whose value may have been moved out: it stays engaged. -/
inductive Slot (α : Type) where
  | empty
  | full (a : α)
  | movedFrom
deriving DecidableEq, Repr

/-- `has_value` -/
def Slot.hasValue {α : Type} : Slot α → Bool
  | .empty => false
  | .full _ => true
  | .movedFrom => true

/-- The call a section makes through the executor. -/
inductive Call (T C : Type) where
  | nothing
  | run (callback : C) (value : T)
  /-- The value was moved out before. -/
  | runMovedFrom (callback : C)
  /-- The function was moved out before: `std::bad_function_call`. -/
  | badFunctionCall
deriving DecidableEq, Repr

/-- The value and the callback of a `_state`. -/
structure SharedState (T C : Type) where
  value : Slot T := .empty
  callback : Slot C := .empty
deriving DecidableEq, Repr

namespace SharedState

variable {T C : Type}

/-- `_call_by_executor`: both members are moved into the task. -/
def callByExecutor (st : SharedState T C) : Call T C × SharedState T C :=
  let call :=
    match st.callback, st.value with
    -- what is engaged may have been moved from by an earlier call
    | .full callback, .full value => .run callback value
    | .full callback, _ => .runMovedFrom callback
    | _, _ => .badFunctionCall
  -- a move out of an `optional` does not disengage it
  (call, { value := .movedFrom, callback := .movedFrom })

/-- `set_value` up to the end of the call it makes. -/
def setValue (st : SharedState T C) (value : T) : Call T C × SharedState T C :=
  let st := { st with value := .full value }
  -- `on_complete` came first
  if st.callback.hasValue then st.callByExecutor else (.nothing, st)

/-- `set_value` behind a call that returned: `_callback = std::nullopt`. -/
def afterCall (st : SharedState T C) : SharedState T C := { st with callback := .empty }

/-- `set_callback`.  Nothing is reset behind the call. -/
def setCallback (st : SharedState T C) (callback : C) : Call T C × SharedState T C :=
  let st := { st with callback := .full callback }
  -- the promise was set first
  if st.value.hasValue then st.callByExecutor else (.nothing, st)

/-- A promise that was set stays set. -/
theorem setValue_value_ne_empty (st : SharedState T C) (value : T) :
    (st.setValue value).2.value ≠ .empty := by
  obtain ⟨slot, callback⟩ := st
  cases callback <;> exact nofun

/-- A callback does not unset the promise. -/
theorem setCallback_value_ne_empty {st : SharedState T C} (callback : C)
    (h : st.value ≠ .empty) : (st.setCallback callback).2.value ≠ .empty := by
  obtain ⟨slot, _⟩ := st
  cases slot with
  | empty => exact absurd rfl h
  | full _ => exact nofun
  | movedFrom => exact nofun

/-- All that `set_value` can do. -/
theorem setValue_cases (st : SharedState T C) (value : T) :
    (st.callback = .empty ∧ st.setValue value = (.nothing, { value := .full value })) ∨
    (∃ callback, st.callback = .full callback ∧
      st.setValue value = (.run callback value, { value := .movedFrom, callback := .movedFrom })) ∨
    (st.callback = .movedFrom ∧
      st.setValue value = (.badFunctionCall, { value := .movedFrom, callback := .movedFrom })) := by
  obtain ⟨slot, callback⟩ := st
  cases callback with
  | empty => exact .inl ⟨rfl, rfl⟩
  | full callback => exact .inr (.inl ⟨callback, rfl, rfl⟩)
  | movedFrom => exact .inr (.inr ⟨rfl, rfl⟩)

end SharedState

/-- The members of a `_shared_container`. -/
structure SharedContainer (T C : Type) where
  values : List T := []
  requiredAmount : ℕ
  callback : Option C := none

namespace SharedContainer

variable {T C : Type}

/-- `add_value`: the callback, and the values it is called with. -/
def addValue (st : SharedContainer T C) (value : T) :
    Option (C × List T) × SharedContainer T C :=
  let values := st.values ++ [value]
  -- the source counts before it pushes, and adds one
  if st.requiredAmount ≤ st.values.length + 1 then
    match st.callback with
    | some callback => (some (callback, values), { st with values := values, callback := none })
    | none => (none, { st with values := values })
  else (none, { st with values := values })

/-- `set_callback`: the values are handed over as they are, however many. -/
def setCallback (st : SharedContainer T C) (callback : C) :
    Option (C × List T) × SharedContainer T C :=
  if st.requiredAmount ≤ st.values.length then (some (callback, st.values), st)
  else (none, { st with callback := some callback })

end SharedContainer

end Webserv.Futures
