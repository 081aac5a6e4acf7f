import Mathlib.Data.List.Forall2
import Mathlib.Data.List.Nodup
import Mathlib.Data.List.Perm.Basic
import Webserv.Native.ExecutionContext

/-!
# What `block` makes of the kernel's answer

`EventListener` stands on `epoll` or, with `USE_POLL`, on `poll`.  The listener
on `poll` keeps the registrations itself and hands them over on every turn; the
event loop around the two is the same.
-/

namespace Webserv.Io

/-! ## poll -/

def pollIn : UInt16 := 1
def pollOut : UInt16 := 4
def pollErr : UInt16 := 8
def pollHup : UInt16 := 16
def pollNval : UInt16 := 32

/-- `struct pollfd` -/
structure PollFd where
  fd : Fd := 0
  events : UInt16 := 0
  revents : UInt16 := 0
deriving DecidableEq, Repr

namespace PollFd

/-- A test of `revents`. -/
def Has (p : PollFd) (flag : UInt16) : Prop := p.revents &&& flag ≠ 0

instance (p : PollFd) (flag : UInt16) : Decidable (p.Has flag) :=
  inferInstanceAs (Decidable (p.revents &&& flag ≠ 0))

/-- The body of the loop over `poll_evs`. -/
def decode (p : PollFd) : List Event :=
  (if p.Has pollIn then [.ofFd p.fd .toRead]
   else if p.Has pollOut then [.ofFd p.fd .toWrite]
   else if p.Has pollHup then [.ofFd p.fd .closed]
   else []) ++
  -- no `else` here
  (if p.Has pollErr then [.ofFd p.fd .error] else [])

/-- What `poll` may make of an entry.  It writes `revents` only, with flags that were asked
    for or that it always reports, and ignores a negative descriptor. -/
structure Returned (given returned : PollFd) : Prop where
  fd : returned.fd = given.fd
  events : returned.events = given.events
  revents : returned.revents &&& ~~~(given.events ||| pollErr ||| pollHup ||| pollNval) = 0
  negative : given.fd < 0 → returned.revents = 0

end PollFd

/-- `poll` returns the array it was given. -/
def PollReturns (given returned : List PollFd) : Prop := List.Forall₂ PollFd.Returned given returned

/-- `_pollfds`, an `std::unordered_map`: the order of its entries means nothing. -/
structure PollListener where
  pollfds : List (Fd × PollFd) := []
  keys : (pollfds.map Prod.fst).Nodup := by exact List.nodup_nil
  own : ∀ e ∈ pollfds, e.2.fd = e.1 := by simp

namespace PollListener

/-- `_pollfds.erase(fd)` -/
def erase (l : PollListener) (fd : Fd) : PollListener where
  pollfds := l.pollfds.filter fun e => e.1 ≠ fd
  keys := l.keys.sublist (List.filter_sublist.map Prod.fst)
  own := fun e he => l.own e (List.mem_of_mem_filter he)

/-- `_pollfds[fd] = pollfd{fd, events, 0}` -/
def assign (l : PollListener) (fd : Fd) (events : UInt16) : PollListener where
  pollfds := (fd, { fd := fd, events := events }) :: (l.erase fd).pollfds
  -- what was there under this key is gone
  keys := by
    refine List.nodup_cons.mpr ⟨fun hmem => ?_, (l.erase fd).keys⟩
    obtain ⟨e, he, heq⟩ := List.mem_map.mp hmem
    exact of_decide_eq_true (List.mem_filter.mp he).2 heq
  own := List.forall_mem_cons.mpr ⟨rfl, (l.erase fd).own⟩

/-- `add_event`.  The result of `set_nonblock` is not looked at. -/
def addEvent (l : PollListener) (event : Event) : PollListener :=
  if event.eventType = EventType.toRead.value ∨ event.eventType = EventType.toAccept.value then
    l.assign event.fd pollIn
  else if event.eventType = EventType.toWrite.value then l.assign event.fd pollOut
  -- any other type of event is not registered, and nothing says so
  else l

/-- `del_event` -/
def delEvent (l : PollListener) (event : Event) : PollListener := l.erase event.fd

/-- The descriptors that are in the table. -/
def Registered (l : PollListener) (fd : Fd) : Prop := fd ∈ l.pollfds.map Prod.fst

/-- `poll_evs`, for the order in which the table is walked through: the vector is built
    with the size of the table and gets the entries behind that. -/
def pollEvs (order : List (Fd × PollFd)) : List PollFd :=
  List.replicate order.length ({} : PollFd) ++ order.map Prod.snd

/-- What `block` appends to `events` for the entries as `poll` leaves them.  When `poll`
    fails, `block` throws and appends nothing. -/
def blockEvents (returned : List PollFd) : List Event := returned.flatMap PollFd.decode

/-- A call of `add_event` or `del_event`. -/
inductive Call where
  | add (event : Event)
  | del (event : Event)

def call (l : PollListener) : Call → PollListener
  | .add event => l.addEvent event
  | .del event => l.delEvent event

/-- A new listener after some calls. -/
def history (calls : List Call) : PollListener := calls.foldl call {}

end PollListener

/-! ## epoll -/

/-- `struct epoll_event`, with the data that was stored at the registration. -/
structure EpollEvent where
  events : UInt32
  data : Event
deriving DecidableEq, Repr

namespace EpollEvent

def Has (e : EpollEvent) (flag : UInt32) : Prop := e.events &&& flag ≠ 0

instance (e : EpollEvent) (flag : UInt32) : Decidable (e.Has flag) :=
  inferInstanceAs (Decidable (e.events &&& flag ≠ 0))

/-- The body of the loop over `_events`.  The flags have the values they have for `poll`. -/
def decode (e : EpollEvent) : List Event :=
  -- at most one event for an entry here: each test but the first has an `else` before it
  if e.Has pollIn.toUInt32 then [.ofFd e.data.fd .toRead]
  else if e.Has pollOut.toUInt32 then [.ofFd e.data.fd .toWrite]
  else if e.Has pollHup.toUInt32 then [.ofFd e.data.fd .closed]
  else if e.Has pollErr.toUInt32 then [.ofFd e.data.fd .error]
  else []

end EpollEvent

/-- `EPOLL_SIZE` -/
def epollSize : ℕ := 100

/-- What `epoll_wait` may return: registered descriptors, each once. -/
structure EpollReturns (l : Listener) (ready : List EpollEvent) : Prop where
  size : ready.length ≤ epollSize
  registered : ∀ e ∈ ready, e.data.fd ∈ l.registered
  distinct : (ready.map fun e => e.data.fd).Nodup

/-- What `block` appends to `events`. -/
def Listener.blockEvents (ready : List EpollEvent) : List Event := ready.flatMap EpollEvent.decode

/-! ## The loop on poll -/

/-- `ExecutionContext` with the listener on `poll`. -/
structure PollContext (H : Type) where
  listener : PollListener := {}
  evStorage : CallbackStorage H := {}

namespace PollContext

variable {H : Type}

def addHandlerForEvent (ctx : PollContext H) (event : Event) (callback : H) : PollContext H where
  listener := ctx.listener.addEvent event
  evStorage := ctx.evStorage.setHandler event callback

def takeHandler (ctx : PollContext H) (ev : Event) : Except LogicError H × PollContext H :=
  match ctx.evStorage.getHandler ev with
  | .error e => (.error e, { ctx with listener := ctx.listener.delEvent ev })
  | .ok (handler, evStorage) =>
    (.ok handler, { listener := ctx.listener.delEvent ev, evStorage := evStorage })

end PollContext

/-- The context and the loop. -/
structure PollLoopState where
  ctx : PollContext ℕ := {}
  phase : LoopPhase := .blocking
  accepted : ℕ := 0

/-- What a step did. -/
inductive PollLoopEvent where
  | add (event : Event) (handler : ℕ)
  /-- A call of `block`, with the table and the answer of `poll`. -/
  | block (listener : PollListener) (returned : List PollFd)
  | blockThrew
  | take (event : Event) (result : Except LogicError ℕ)
  | returned (handler : ℕ)
  | threw (handler : ℕ)
  | batchDone

/-- The steps of `LoopStep`, with `poll` behind `block`. -/
inductive PollLoopStep : PollLoopState → PollLoopEvent → PollLoopState → Prop where
  | add {s : PollLoopState} (event : Event) :
      PollLoopStep s (.add event s.accepted)
        { s with
          ctx := s.ctx.addHandlerForEvent event s.accepted
          accepted := s.accepted + 1 }
  | block {s : PollLoopState} {order : List (Fd × PollFd)} {returned : List PollFd}
      -- the vector is filled in the order the table happens to have
      (hphase : s.phase = .blocking) (horder : order.Perm s.ctx.listener.pollfds)
      (hreturned : PollReturns (PollListener.pollEvs order) returned) :
      PollLoopStep s (.block s.ctx.listener returned)
        { s with phase := .batch (PollListener.blockEvents returned) }
  -- `poll` has failed, and the loop may be entered again
  | blockThrew {s : PollLoopState} (hphase : s.phase = .blocking) : PollLoopStep s .blockThrew s
  | take {s : PollLoopState} {ev : Event} {rest : List Event}
      (hphase : s.phase = .batch (ev :: rest)) :
      PollLoopStep s (.take ev (s.ctx.takeHandler ev).1)
        { s with
          ctx := (s.ctx.takeHandler ev).2
          phase := .afterTake rest (s.ctx.takeHandler ev).1 }
  | returned {s : PollLoopState} {handler : ℕ} {rest : List Event}
      (hphase : s.phase = .running handler rest) :
      PollLoopStep s (.returned handler) { s with phase := .batch rest }
  | threw {s : PollLoopState} {handler : ℕ} {rest : List Event}
      (hphase : s.phase = .running handler rest) :
      PollLoopStep s (.threw handler) { s with phase := .blocking }
  | batchDone {s : PollLoopState} (hphase : s.phase = .batch []) :
      PollLoopStep s .batchDone { s with phase := .blocking }

/-- A run from an empty context. -/
def PollLoopRun (es : List PollLoopEvent) (s : PollLoopState) : Prop :=
  Transition.Run PollLoopStep {} es s

end Webserv.Io
