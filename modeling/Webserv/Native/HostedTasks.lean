import Webserv.Native.Descriptors
import Webserv.Native.Task

/-!
# Tasks on the event loop

One thread runs all of them: `async_main` starts the first ones, and `loop()`
calls the handlers they wait with.  A handler goes on in its task, and may start
other tasks.

The calls below a handler may take their steps in any order here; in the source
each is over before its caller goes on.
-/

namespace Webserv.Io

open Futures

/-- The code of a process.  A task is told by its kind, and by the number of its start. -/
structure Application (K O : Type) where
  signature : K → Signature
  bodies : ∀ k, Bodies (signature k)
  task : ∀ k, Task (signature k)
  /-- The object a handler waits for. -/
  object : ∀ k, ℕ → (signature k).Query → O
  eventType : ∀ k, (signature k).Query → EventType
  /-- The task that an effect starts, if it starts one. -/
  Starts : ∀ k, (signature k).Effect → Option K → Prop
  /-- The effect is an exception that nobody catches. -/
  Faults : ∀ k, (signature k).Effect → Bool

variable {K O : Type} {A : Application K O}

/-- A callback in the storage, and what it was registered for. -/
structure Waiter (A : Application K O) where
  task : ℕ
  kind : K
  query : (A.signature kind).Query
  callback : (A.signature kind).Answer query → Prog (A.signature kind)

def Waiter.object (w : Waiter A) : O := A.object w.kind w.task w.query

/-- Where the thread of the process stands. -/
inductive HostPhase (K : Type) where
  /-- In `async_main`, which has these tasks still to start. -/
  | starting (rest : List (ℕ → K))
  /-- In `_listener.block`. -/
  | blocking
  /-- Between two turns of the loop over `event_buf`. -/
  | batch (rest : List Event)
  /-- In a handler. -/
  | running (rest : List Event)
  /-- An exception of the library has left `main`. -/
  | terminated
  /-- An exception of the code of a task has left `main`. -/
  | faulted

/-- The code of tasks is run. -/
def HostPhase.Active : HostPhase K → Prop
  | .starting _ => True
  | .running _ => True
  | _ => False

/-- The process. -/
structure Host (A : Application K O) where
  kernel : Kernel := {}
  /-- The objects that are alive, with their descriptors. -/
  fds : O → Option Fd := fun _ => none
  evStorage : CallbackStorage (Waiter A) := {}
  phase : HostPhase K
  /-- What the tasks have still to do, but for the handlers in the storage. -/
  tasks : List (Σ k : K, Config (A.signature k)) := []

namespace Host

def startTask (s : Host A) (k : K) : Host A :=
  { s with tasks := s.tasks ++ [⟨k, .start (A.task k).code⟩] }

/-- An effect has started this one, if any. -/
def startTask? (s : Host A) : Option K → Host A
  | none => s
  | some k => s.startTask k

def setTask (s : Host A) (n : ℕ) (k : K) (c : Config (A.signature k)) : Host A :=
  { s with tasks := s.tasks.set n ⟨k, c⟩ }

/-- Every call has returned. -/
def Idle (s : Host A) : Prop := ∀ (n : ℕ) (k : K) (c : Config (A.signature k)),
  s.tasks[n]? = some ⟨k, c⟩ → c.Idle

section objects
variable [DecidableEq O]

/-- A socket, a pipe or an acceptor is made. -/
def openObject (s : Host A) (o : O) (fd : Fd) : Host A :=
  { s with kernel := s.kernel.openFd fd, fds := Function.update s.fds o (some fd) }

/-- Its last holder goes: a descriptor that is 0 stands for none. -/
def closeObject (s : Host A) (o : O) (fd : Fd) : Host A :=
  { s with
    kernel := if fd ≠ 0 then (s.kernel.close fd).2 else s.kernel
    fds := Function.update s.fds o none }

end objects

/-- `add_handler_for_event`, and the state behind it; nobody catches its exception. -/
def addHandlerForEvent (s : Host A) (event : Event) (w : Waiter A)
    (c : Config (A.signature w.kind)) (granted : Bool) : Except LogicError Unit × Host A :=
  match s.kernel.ctlAdd event.fd granted with
  | none => (.error .epollAdd, { s with phase := .terminated })
  | some kernel =>
    -- the thread goes on behind the call, and the handler waits
    (.ok (), { s.setTask w.task w.kind c with
      kernel := kernel
      evStorage := s.evStorage.setHandler event w })

/-- `del_event` and `get_handler` -/
def takeHandler (s : Host A) (ev : Event) : Except LogicError (Waiter A) × Host A :=
  match s.kernel.ctlDel ev.fd with
  | none => (.error .epollDel, s)
  | some kernel =>
    match s.evStorage.getHandler ev with
    | .error e => (.error e, { s with kernel := kernel })
    -- descriptor and handler are free before the call
    | .ok (w, evStorage) => (.ok w, { s with kernel := kernel, evStorage := evStorage })

end Host

variable [DecidableEq O]

/-- What a step did. -/
inductive HostEvent (A : Application K O) where
  | started (k : K)
  | task (n : ℕ) (k : K) (e : Futures.Event (A.signature k))
  | registered (w : Waiter A) (granted : Bool) (result : Except LogicError Unit)
  | opened (o : O) (fd : Fd)
  | closed (o : O)
  /-- `conn_tcp_serv` when `connect` fails: the descriptor is left open. -/
  | abandoned (fd : Fd)
  | entered
  | block (events : List Event)
  /-- `del_event` or `get_handler` has thrown. -/
  | lost (ev : Event) (err : LogicError)
  | returned
  | batchDone

/-- A step of a task, of the loop, or of what makes and destroys the objects. -/
inductive HostStep : Host A → HostEvent A → Host A → Prop where
  | started {s : Host A} {start : ℕ → K} {rest : List (ℕ → K)}
      (hphase : s.phase = .starting (start :: rest)) :
      HostStep s (.started (start s.tasks.length))
        { s.startTask (start s.tasks.length) with phase := .starting rest }
  | silent {s : Host A} {n : ℕ} {k : K} {c c' : Config (A.signature k)} (hactive : s.phase.Active)
      (htask : s.tasks[n]? = some ⟨k, c⟩) (hstep : Step (A.bodies k) c .silent c')
      -- a registration is a step of its own
      (hpending : c'.pending = c.pending) :
      HostStep s (.task n k .silent) (s.setTask n k c')
  | performed {s : Host A} {n : ℕ} {k : K} {c c' : Config (A.signature k)} {new : Option K}
      {effect : (A.signature k).Effect} (hactive : s.phase.Active)
      (htask : s.tasks[n]? = some ⟨k, c⟩) (hstep : Step (A.bodies k) c (.performed effect) c')
      (hfaults : A.Faults k effect = false) (hstarts : A.Starts k effect new) :
      HostStep s (.task n k (.performed effect)) ((s.setTask n k c').startTask? new)
  /-- The process ends: no step leads on from there. -/
  | faulted {s : Host A} {n : ℕ} {k : K} {c c' : Config (A.signature k)}
      {effect : (A.signature k).Effect} (hactive : s.phase.Active)
      (htask : s.tasks[n]? = some ⟨k, c⟩) (hstep : Step (A.bodies k) c (.performed effect) c')
      (hfaults : A.Faults k effect = true) :
      HostStep s (.task n k (.performed effect)) { s.setTask n k c' with phase := .faulted }
  | uncaught {s : Host A} {n : ℕ} {k : K} {c c' : Config (A.signature k)} (hactive : s.phase.Active)
      (htask : s.tasks[n]? = some ⟨k, c⟩) (hstep : Step (A.bodies k) c .uncaught c') :
      HostStep s (.task n k .uncaught) { s.setTask n k c' with phase := .terminated }
  | registered {s : Host A} {n : ℕ} {k : K} {c : Config (A.signature k)} {fd : Fd}
      {stack : List (Frame (A.signature k))} {rest : Multiset (List (Frame (A.signature k)))}
      {query : (A.signature k).Query}
      {callback : (A.signature k).Answer query → Prog (A.signature k)} {next : Prog (A.signature k)}
      (granted : Bool) (hactive : s.phase.Active) (htask : s.tasks[n]? = some ⟨k, c⟩)
      (hthread : c.threads = (.code (.register query callback next) :: stack) ::ₘ rest)
      (hfd : s.fds (A.object k n query) = some fd) :
      HostStep s
        (.registered ⟨n, k, query, callback⟩ granted
          (s.addHandlerForEvent (.ofFd fd (A.eventType k query)) ⟨n, k, query, callback⟩
            { c with threads := (.code next :: stack) ::ₘ rest } granted).1)
        (s.addHandlerForEvent (.ofFd fd (A.eventType k query)) ⟨n, k, query, callback⟩
          { c with threads := (.code next :: stack) ::ₘ rest } granted).2
  | opened {s : Host A} {o : O} {fd : Fd} (hactive : s.phase.Active) (ho : s.fds o = none)
      (hfree : s.kernel.files fd = none) : HostStep s (.opened o fd) (s.openObject o fd)
  /-- The callbacks in the storage hold what they wait for. -/
  | closed {s : Host A} {o : O} {fd : Fd} (hactive : s.phase.Active) (ho : s.fds o = some fd)
      (hunheld : s.evStorage.handlers fd = none) : HostStep s (.closed o) (s.closeObject o fd)
  | abandoned {s : Host A} {fd : Fd} (hactive : s.phase.Active)
      (hfree : s.kernel.files fd = none) :
      HostStep s (.abandoned fd) { s with kernel := s.kernel.openFd fd }
  | entered {s : Host A} (hphase : s.phase = .starting []) (hidle : s.Idle) :
      HostStep s .entered { s with phase := .blocking }
  -- the kernel reports each registered descriptor at most once
  | block {s : Host A} (events : List Event) (hphase : s.phase = .blocking)
      (hregistered : ∀ ev ∈ events, ∃ f, (ev.fd, f) ∈ s.kernel.epoll)
      (hdistinct : (events.map Event.fd).Nodup) :
      HostStep s (.block events) { s with phase := .batch events }
  /-- The handler is called, with what the system calls in it will return. -/
  | answered {s s' : Host A} {ev : Event} {rest : List Event} {w : Waiter A}
      {c : Config (A.signature w.kind)} (answer : (A.signature w.kind).Answer w.query)
      (hphase : s.phase = .batch (ev :: rest)) (htake : s.takeHandler ev = (.ok w, s'))
      (htask : s.tasks[w.task]? = some ⟨w.kind, c⟩) :
      HostStep s (.task w.task w.kind (.answered w.query answer))
        { s'.setTask w.task w.kind
            { c with threads := [.code (w.callback answer)] ::ₘ c.threads } with
          phase := .running rest }
  | lost {s s' : Host A} {ev : Event} {rest : List Event} {err : LogicError}
      (hphase : s.phase = .batch (ev :: rest)) (htake : s.takeHandler ev = (.error err, s')) :
      HostStep s (.lost ev err) { s' with phase := .terminated }
  -- every call below the handler is over
  | returned {s : Host A} {rest : List Event} (hphase : s.phase = .running rest) (hidle : s.Idle) :
      HostStep s .returned { s with phase := .batch rest }
  | batchDone {s : Host A} (hphase : s.phase = .batch []) :
      HostStep s .batchDone { s with phase := .blocking }

/-- The process before it started anything, with the descriptors it was given. -/
def Host.start (A : Application K O) (inherited : Finset Fd) (tasks : List (ℕ → K)) : Host A where
  kernel := { files := fun fd => if fd ∈ inherited then some (.inherited fd) else none }
  phase := .starting tasks

/-- A run of the process from there. -/
def HostRun (A : Application K O) (inherited : Finset Fd) (tasks : List (ℕ → K))
    (es : List (HostEvent A)) (s : Host A) : Prop :=
  Transition.Run HostStep (.start A inherited tasks) es s

end Webserv.Io
