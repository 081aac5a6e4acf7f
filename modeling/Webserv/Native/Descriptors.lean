import Mathlib.Data.Multiset.AddSub
import Webserv.ForStd.Heap
import Webserv.Native.ExecutionContext

/-!
# Descriptors and who owns them

`Socket`, `TCPAcceptor`, `PipeReceiver` and `PipeSender` own a descriptor, which
their destructors close.  The futures hold them through a `shared_ptr` and wait
with `when_readable`, `when_writable` and `when_acceptable`, whose callbacks hold
the object they wait for.

The kernel hands out a descriptor again as soon as it was closed.  Its epoll
instance knows a registration by the descriptor and the open file behind it;
closing the descriptor need not end the registration, for the file may be open
elsewhere: a CGI child inherits every descriptor.
-/

namespace Webserv.Io

/-- An open file: inherited by the process, or one of those it opened. -/
inductive File where
  | inherited (fd : Fd)
  | opened (n : ℕ)
deriving DecidableEq, Repr

/-- What the kernel knows of the process. -/
structure Kernel where
  files : Fd → Option File := fun _ => none
  nextFile : ℕ := 0
  epoll : Finset (Fd × File) := ∅

namespace Kernel

/-- `socket`, `accept` or one half of `pipe2`: a descriptor for a new file. -/
def openFd (k : Kernel) (fd : Fd) : Kernel :=
  { k with
    files := Function.update k.files fd (some (.opened k.nextFile))
    nextFile := k.nextFile + 1 }

/-- `::close`, with the file it closes; the result is not looked at. -/
def close (k : Kernel) (fd : Fd) : Option File × Kernel :=
  -- a registration may outlive its descriptor
  (k.files fd, { k with files := Function.update k.files fd none })

/-- `epoll_ctl(_epfd, EPOLL_CTL_ADD, fd, ..)`; the kernel may also refuse for reasons of
    its own. -/
def ctlAdd (k : Kernel) (fd : Fd) (granted : Bool) : Option Kernel :=
  match k.files fd with
  | none => none
  | some f =>
    if (fd, f) ∈ k.epoll ∨ granted = false then none
    else some { k with epoll := insert (fd, f) k.epoll }

/-- `epoll_ctl(_epfd, EPOLL_CTL_DEL, fd, ..)` -/
def ctlDel (k : Kernel) (fd : Fd) : Option Kernel :=
  match k.files fd with
  -- a descriptor that is closed is refused
  | none => none
  | some f => if (fd, f) ∈ k.epoll then some { k with epoll := k.epoll.erase (fd, f) } else none

end Kernel

/-- A `Socket`, `TCPAcceptor`, `PipeReceiver` or `PipeSender`. -/
structure Endpoint where
  fd : Fd
  /-- Made by `make_shared`, and only reached through a `shared_ptr`. -/
  shared : Bool := false
  /-- No member: the file that the descriptor was opened for. -/
  file : File

/-- A callback in the storage: its number and the objects it holds. -/
structure Callback where
  number : ℕ
  captures : List ℕ

/-- The process.  Objects have the numbers of their construction. -/
structure Process where
  kernel : Kernel := {}
  objects : Heap Endpoint := {}
  /-- What local variables, running callbacks and futures hold, once for each holder. -/
  scope : Multiset ℕ := 0
  evStorage : CallbackStorage Callback := {}
  phase : LoopPhase := .blocking
  accepted : ℕ := 0

namespace Process

/-- Someone holds the object. -/
def Held (s : Process) (o : ℕ) : Prop :=
  o ∈ s.scope ∨ ∃ fd callback, s.evStorage.handlers fd = some callback ∧ o ∈ callback.captures

/-- `Socket(fd, context)` and the like, for a descriptor the kernel has just opened. -/
def construct (s : Process) (fd : Fd) : Process :=
  { s with
    kernel := s.kernel.openFd fd
    objects := s.objects.new { fd := fd, file := .opened s.kernel.nextFile }
    scope := s.objects.size ::ₘ s.scope }

/-- `Socket(Socket && other)` and the like, by value or into `make_shared`. -/
def moveConstruct (s : Process) (other : ℕ) (e : Endpoint) (shared : Bool) : Process :=
  { s with
    -- 0 marks an object without a descriptor
    objects := (s.objects.put other { e with fd := 0 }).new { e with shared := shared }
    scope := s.objects.size ::ₘ s.scope }

/-- `close()`: a descriptor that is 0 stands for none. -/
def closeFd (k : Kernel) (e : Endpoint) : Option (Fd × Option File) × Kernel :=
  if e.fd ≠ 0 then
    let (file, k) := k.close e.fd
    (some (e.fd, file), k)
  else (none, k)

/-- The destructor of an object, once its last holder `s.scope` was left. -/
def destroy (s : Process) (o : ℕ) (e : Endpoint) : Process :=
  { s with
    kernel := (closeFd s.kernel e).2
    objects := s.objects.remove o
    scope := s.scope.erase o }

/-- `when_readable`, `when_writable` and `when_acceptable`: `add_handler_for_event` for the
    descriptor of the object. -/
def addHandlerForEvent (s : Process) (event : Event) (captures : List ℕ) (granted : Bool) :
    Except LogicError Unit × Process :=
  match s.kernel.ctlAdd event.fd granted with
  -- the callback goes, and what it captured is still in scope
  | none => (.error .epollAdd, s)
  | some kernel =>
    (.ok (), { s with
      kernel := kernel
      evStorage := s.evStorage.setHandler event { number := s.accepted, captures := captures }
      accepted := s.accepted + 1 })

/-- `del_event` and `get_handler`.  What the callback holds is held by the running code from
    now on. -/
def takeHandler (s : Process) (ev : Event) : Except LogicError ℕ × Process :=
  match s.kernel.ctlDel ev.fd with
  | none => (.error .epollDel, s)
  | some kernel =>
    match s.evStorage.getHandler ev with
    | .error e => (.error e, { s with kernel := kernel })
    | .ok (callback, evStorage) =>
      (.ok callback.number, { s with
        kernel := kernel
        evStorage := evStorage
        -- it is moved out of the storage with what it captured
        scope := s.scope + (callback.captures : Multiset ℕ) })

end Process

/-- What a step did. -/
inductive ProcessEvent where
  | constructed (o : ℕ) (fd : Fd) (file : File)
  /-- `conn_tcp_serv` when `connect` fails: the descriptor is left open. -/
  | abandoned (fd : Fd) (file : File)
  /-- `local_with_port` when `bind` or `listen` fails: the descriptor is closed. -/
  | withdrawn (fd : Fd) (file : File)
  | moved (o new : ℕ)
  | copied (o : ℕ)
  | released (o : ℕ)
  /-- The destructor, with what it called `::close` with and the file that was closed. -/
  | destroyed (o : ℕ) (closed : Option (Fd × Option File))
  | loop (e : LoopEvent)

/-- A step of the code that uses the library, or of the event loop. -/
inductive ProcessStep : Process → ProcessEvent → Process → Prop where
  | constructed {s : Process} (fd : Fd) (hfree : s.kernel.files fd = none) :
      ProcessStep s (.constructed s.objects.size fd (.opened s.kernel.nextFile)) (s.construct fd)
  | abandoned {s : Process} (fd : Fd) (hfree : s.kernel.files fd = none) :
      ProcessStep s (.abandoned fd (.opened s.kernel.nextFile))
        { s with kernel := s.kernel.openFd fd }
  | withdrawn {s : Process} (fd : Fd) (hfree : s.kernel.files fd = none) :
      ProcessStep s (.withdrawn fd (.opened s.kernel.nextFile))
        { s with kernel := ((s.kernel.openFd fd).close fd).2 }
  | moved {s : Process} {o : ℕ} {e : Endpoint} (shared : Bool) (hscope : o ∈ s.scope)
      (hlive : s.objects.lookup o = some e) (hvalue : e.shared = false) :
      ProcessStep s (.moved o s.objects.size) (s.moveConstruct o e shared)
  /-- A copy of a `shared_ptr`. -/
  | copied {s : Process} {o : ℕ} {e : Endpoint} (hscope : o ∈ s.scope)
      (hlive : s.objects.lookup o = some e) (hshared : e.shared = true) :
      ProcessStep s (.copied o) { s with scope := o ::ₘ s.scope }
  /-- A `shared_ptr` that is not the last one goes. -/
  | released {s : Process} {o : ℕ} (hscope : o ∈ s.scope)
      (hheld : Process.Held { s with scope := s.scope.erase o } o) :
      ProcessStep s (.released o) { s with scope := s.scope.erase o }
  | destroyed {s : Process} {o : ℕ} {e : Endpoint} (hscope : o ∈ s.scope)
      (hlive : s.objects.lookup o = some e)
      -- the count of the `shared_ptr`s falls to zero
      (hlast : ¬ Process.Held { s with scope := s.scope.erase o } o) :
      ProcessStep s (.destroyed o (Process.closeFd s.kernel e).1) (s.destroy o e)
  /-- The callback holds the object it waits for, and whatever else is at hand. -/
  | add {s : Process} {o : ℕ} {e : Endpoint} (eventType : EventType) (captures : List ℕ)
      (granted : Bool) (hlive : s.objects.lookup o = some e) (hshared : e.shared = true)
      (hself : o ∈ captures) (hcaptures : ∀ c ∈ captures, c ∈ s.scope) :
      ProcessStep s
        (.loop (.add (.ofFd e.fd eventType) s.accepted
          (s.addHandlerForEvent (.ofFd e.fd eventType) captures granted).1))
        (s.addHandlerForEvent (.ofFd e.fd eventType) captures granted).2
  | block {s : Process} (events : List Event) (hphase : s.phase = .blocking)
      (hregistered : ∀ ev ∈ events, ∃ f, (ev.fd, f) ∈ s.kernel.epoll)
      (hdistinct : (events.map Event.fd).Nodup) :
      ProcessStep s (.loop (.block events)) { s with phase := .batch events }
  | take {s : Process} {ev : Event} {rest : List Event} (hphase : s.phase = .batch (ev :: rest)) :
      ProcessStep s (.loop (.take ev (s.takeHandler ev).1))
        { (s.takeHandler ev).2 with phase := .afterTake rest (s.takeHandler ev).1 }
  | returned {s : Process} {handler : ℕ} {rest : List Event}
      (hphase : s.phase = .running handler rest) :
      ProcessStep s (.loop (.returned handler)) { s with phase := .batch rest }
  | threw {s : Process} {handler : ℕ} {rest : List Event}
      (hphase : s.phase = .running handler rest) :
      ProcessStep s (.loop (.threw handler)) { s with phase := .blocking }
  | batchDone {s : Process} (hphase : s.phase = .batch []) :
      ProcessStep s (.loop .batchDone) { s with phase := .blocking }

/-- The process before it opened anything, with the descriptors it was started with. -/
def Process.start (inherited : Finset Fd) : Process where
  kernel := { files := fun fd => if fd ∈ inherited then some (.inherited fd) else none }

/-- A run of the process from there. -/
def ProcessRun (inherited : Finset Fd) (es : List ProcessEvent) (s : Process) : Prop :=
  Transition.Run ProcessStep (.start inherited) es s

end Webserv.Io
