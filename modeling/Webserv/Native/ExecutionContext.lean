import Mathlib.Data.Finset.Erase
import Mathlib.Data.Finset.Insert
import Mathlib.Data.List.Nodup
import Mathlib.Logic.Function.Basic
import Webserv.ForStd.Transition

/-!
# The event loop

`ExecutionContext` keeps two tables: the descriptors that are registered with
the listener, and the handlers waiting for them.  `LoopStep` lets registrations
come between any two steps of `loop()`.

The loop runs on one thread, with the executor `same_thread`.  Its `del_event`
and `get_handler` are not under the mutex that `add_handler_for_event` takes,
so a registration by another thread between the two would be a data race; here
they are one step.
-/

namespace Webserv.Io

/-- A file descriptor is an `int`. -/
abbrev Fd := Int32

/-- `_event`: the descriptor in the upper half of the word, the type below. -/
structure Event where
  data : UInt64
deriving DecidableEq, Repr

/-- `_event::fd` -/
def Event.fd (ev : Event) : Fd := (ev.data >>> 32).toUInt32.toInt32

/-- `_event::EventType` -/
inductive EventType where
  | toRead
  | toWrite
  | toAccept
  | closed
  | error
deriving DecidableEq, Repr

/-- The enumerators, in the type that holds an enumeration. -/
def EventType.value : EventType → UInt32
  | .toRead => 0
  | .toWrite => 1
  | .toAccept => 2
  | .closed => 3
  | .error => 4

namespace Event

/-- `_event(int fd, EventType event_type)`: the conversion of `fd` extends its sign. -/
def ofFd (fd : Fd) (eventType : EventType) : Event where
  data := eventType.value.toUInt64 ||| (fd.toInt64.toUInt64 <<< 32)

def rightHalf : UInt64 := ((2 : UInt64) <<< 33) - 1

/-- What `event_type()` converts to the enumeration. -/
def typeData (ev : Event) : UInt64 := ev.data &&& rightHalf

/-- `event_type()`, which compilers take from the low 32 bits; for a value that is out of
    range of the enumeration the language says nothing. -/
def eventType (ev : Event) : UInt32 := ev.typeData.toUInt32

end Event

/-- The `std::logic_error`s of the two tables. -/
inductive LogicError where
  /-- `Epoll Add event: ` -/
  | epollAdd
  /-- `Epoll del event: ` -/
  | epollDel
  /-- `CallbackStorage: Event must be here` -/
  | eventMustBeHere
deriving DecidableEq, Repr

/-- The descriptors an epoll instance holds. -/
structure Listener where
  registered : Finset Fd := ∅

namespace Listener

/-- `add_event`.  The kernel refuses a descriptor that is registered, and may
    refuse any other one (`granted`). -/
def addEvent (l : Listener) (ev : Event) (granted : Bool) : Except LogicError Listener :=
  if ev.fd ∈ l.registered ∨ granted = false then .error .epollAdd
  else .ok { registered := insert ev.fd l.registered }

/-- `del_event` of a descriptor that is open. -/
def delEvent (l : Listener) (ev : Event) : Except LogicError Listener :=
  if ev.fd ∈ l.registered then .ok { registered := l.registered.erase ev.fd }
  else .error .epollDel

end Listener

/-- `CallbackStorage`, with handlers of type `H`. -/
structure CallbackStorage (H : Type) where
  handlers : Fd → Option H := fun _ => none

namespace CallbackStorage

variable {H : Type}

def setHandler (st : CallbackStorage H) (ev : Event) (callback : H) : CallbackStorage H :=
  { handlers := Function.update st.handlers ev.fd (some callback) }

def getHandler (st : CallbackStorage H) (ev : Event) : Except LogicError (H × CallbackStorage H) :=
  match st.handlers ev.fd with
  | none => .error .eventMustBeHere
  | some res => .ok (res, { handlers := Function.update st.handlers ev.fd none })

end CallbackStorage

/-- The members of `ExecutionContext` that change. -/
structure ExecutionContext (H : Type) where
  listener : Listener := {}
  evStorage : CallbackStorage H := {}

namespace ExecutionContext

variable {H : Type}

/-- `add_handler_for_event`.  When the listener throws, the storage is not reached. -/
def addHandlerForEvent (ctx : ExecutionContext H) (event : Event) (callback : H)
    (granted : Bool) : Except LogicError Unit × ExecutionContext H :=
  match ctx.listener.addEvent event granted with
  | .error e => (.error e, ctx)
  | .ok listener =>
    -- a handler that was stored before is replaced
    (.ok (), { listener := listener, evStorage := ctx.evStorage.setHandler event callback })

/-- What `loop()` does with one event before it calls the handler. -/
def takeHandler (ctx : ExecutionContext H) (ev : Event) :
    Except LogicError H × ExecutionContext H :=
  match ctx.listener.delEvent ev with
  | .error e => (.error e, ctx)
  | .ok listener =>
    match ctx.evStorage.getHandler ev with
    | .error e => (.error e, { ctx with listener := listener })
    -- both are gone before the call, so the handler may register again
    | .ok (handler, evStorage) => (.ok handler, { listener := listener, evStorage := evStorage })

end ExecutionContext

/-! ## The loop -/

/-- Where `loop()` stands. -/
inductive LoopPhase where
  /-- Not entered yet, left by an exception, or in `_listener.block`. -/
  | blocking
  /-- Behind some turns of the loop over `event_buf`; `rest` is still to come. -/
  | batch (rest : List Event)
  /-- In the call of a handler. -/
  | running (handler : ℕ) (rest : List Event)
deriving DecidableEq

/-- The context and the loop.  Handlers are numbered by their registration. -/
structure LoopState where
  ctx : ExecutionContext ℕ := {}
  phase : LoopPhase := .blocking
  /-- Number of registrations that were accepted. -/
  accepted : ℕ := 0

/-- What a step did. -/
inductive LoopEvent where
  /-- A call of `add_handler_for_event`; `handler` is the number it gets. -/
  | add (event : Event) (handler : ℕ) (result : Except LogicError Unit)
  | block (events : List Event)
  /-- `del_event` and `get_handler`, and the start of the handler. -/
  | take (event : Event) (result : Except LogicError ℕ)
  | returned (handler : ℕ)
  /-- An exception of a handler leaves `loop()`, and `event_buf` is gone. -/
  | threw (handler : ℕ)
  /-- All futures of a batch are complete. -/
  | batchDone

/-- The phase behind `get_handler`. -/
def LoopPhase.afterTake (rest : List Event) : Except LogicError ℕ → LoopPhase
  | .ok handler => .running handler rest
  | .error _ => .blocking

/-- A registration, by a running handler or from outside, or a step of the loop. -/
inductive LoopStep : LoopState → LoopEvent → LoopState → Prop where
  | add {s : LoopState} (event : Event) (granted : Bool) :
      LoopStep s
        (.add event s.accepted (s.ctx.addHandlerForEvent event s.accepted granted).1)
        { s with
          ctx := (s.ctx.addHandlerForEvent event s.accepted granted).2
          accepted :=
            if (s.ctx.addHandlerForEvent event s.accepted granted).1 = .ok () then s.accepted + 1
            else s.accepted }
  | block {s : LoopState} (events : List Event) (hphase : s.phase = .blocking)
      -- the kernel reports nothing that is not registered
      (hregistered : ∀ ev ∈ events, ev.fd ∈ s.ctx.listener.registered)
      (hdistinct : (events.map Event.fd).Nodup) :
      LoopStep s (.block events) { s with phase := .batch events }
  | take {s : LoopState} {ev : Event} {rest : List Event} (hphase : s.phase = .batch (ev :: rest)) :
      LoopStep s (.take ev (s.ctx.takeHandler ev).1)
        { s with
          ctx := (s.ctx.takeHandler ev).2
          phase := .afterTake rest (s.ctx.takeHandler ev).1 }
  | returned {s : LoopState} {handler : ℕ} {rest : List Event}
      (hphase : s.phase = .running handler rest) :
      LoopStep s (.returned handler) { s with phase := .batch rest }
  -- `loop()` may be entered again
  | threw {s : LoopState} {handler : ℕ} {rest : List Event}
      (hphase : s.phase = .running handler rest) :
      LoopStep s (.threw handler) { s with phase := .blocking }
  | batchDone {s : LoopState} (hphase : s.phase = .batch []) :
      LoopStep s .batchDone { s with phase := .blocking }

/-- A run from an empty context. -/
def LoopRun (es : List LoopEvent) (s : LoopState) : Prop := Transition.Run LoopStep {} es s

end Webserv.Io
