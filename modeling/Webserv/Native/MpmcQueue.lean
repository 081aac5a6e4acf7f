import Mathlib.Data.Finset.Erase
import Mathlib.Data.Finset.Insert
import Mathlib.Data.Multiset.AddSub
import Webserv.ForStd.Transition

/-!
# The MPMC channel

`UnboundedMPMCQueue` with its `Sender` and `Receiver` handles.  What a call does
while it holds the mutex is one function of the queue; it returns whom to
notify.  `Step` lets any number of handles and of blocked calls take these
sections in any order.
-/

namespace Webserv.Mpmc

/-- `ft::mpmc::closed` -/
inductive Closed where
  | closed
deriving DecidableEq, Repr

/-- The members of `UnboundedMPMCQueue` that the mutex protects; `unsigned` counts. -/
structure Queue (T : Type) where
  queue : List T := []
  consumderCount : UInt32 := 1
  producerCount : UInt32 := 1

/-- What a section does with `_not_empty`. -/
inductive Notify where
  | none
  /-- `notify_one` -/
  | one
  /-- `notify_all` -/
  | all
deriving DecidableEq, Repr

/-- How one pass of `pop` through its section ends. -/
inductive PopResult (T : Type) where
  | returns (result : Except Closed T)
  /-- `_not_empty.wait(lock)` -/
  | waits

namespace Queue

variable {T : Type}

def incrConsumerCnt (q : Queue T) : Queue T := { q with consumderCount := q.consumderCount + 1 }

def decrConsumerCnt (q : Queue T) : Queue T := { q with consumderCount := q.consumderCount - 1 }

def incrProducerCnt (q : Queue T) : Queue T := { q with producerCount := q.producerCount + 1 }

def decrProducerCnt (q : Queue T) : Queue T × Notify :=
  let q := { q with producerCount := q.producerCount - 1 }
  -- the last producer wakes everyone who waits
  (q, if q.producerCount = 0 then .all else .none)

def push (q : Queue T) (value : T) : Except Closed Unit × Queue T × Notify :=
  -- nobody is left who could take the value
  if q.consumderCount = 0 then (.error .closed, q, .none)
  else (.ok (), { q with queue := q.queue ++ [value] }, .one)

/-- `pop` from the test of its loop to the `wait` or the `return`. -/
def pop (q : Queue T) : PopResult T × Queue T :=
  match q.queue with
  -- what is still queued is handed out before `closed`
  | [] => if q.producerCount = 0 then (.returns (.error .closed), q) else (.waits, q)
  | value :: rest => (.returns (.ok value), { q with queue := rest })

def tryPop (q : Queue T) : Except Closed (Option T) × Queue T :=
  match q.queue with
  -- here an empty queue is no reason to wait
  | [] => if q.producerCount = 0 then (.error .closed, q) else (.ok none, q)
  | value :: rest => (.ok (some value), { q with queue := rest })

end Queue

/-! ## Handles and blocked calls -/

/-- A channel in use.  Handles have numbers; `waiting` are the calls of `recv` that
    sleep in `wait`, by their handle, and `signalled` those that were woken and
    have not got the mutex yet. -/
structure System (T : Type) where
  shared : Queue T := {}
  senders : Finset ℕ
  receivers : Finset ℕ
  waiting : Multiset ℕ := 0
  signalled : Multiset ℕ := 0

/-- `channel()` -/
def System.channel (T : Type) : System T where
  senders := {0}
  receivers := {0}

/-- Whom a notification wakes. -/
inductive Notified {T : Type} : Notify → System T → System T → Prop where
  | none (s : System T) : Notified .none s s
  | nobody (s : System T) (h : s.waiting = 0) : Notified .one s s
  | one (s : System T) (r : ℕ) (h : r ∈ s.waiting) :
      Notified .one s
        { s with waiting := s.waiting.erase r, signalled := r ::ₘ s.signalled }
  | all (s : System T) :
      Notified .all s { s with waiting := 0, signalled := s.signalled + s.waiting }

/-- What a step did. -/
inductive Event (T : Type) where
  | copySender (source new : ℕ)
  | dropSender (sender : ℕ)
  | copyReceiver (source new : ℕ)
  | dropReceiver (receiver : ℕ)
  | send (sender : ℕ) (value : T) (result : Except Closed Unit)
  /-- The first pass of a call of `recv`. -/
  | recv (receiver : ℕ) (result : PopResult T)
  /-- A later pass, after a wake-up. -/
  | resume (receiver : ℕ) (result : PopResult T)
  /-- A spurious wake-up. -/
  | wake (receiver : ℕ)
  | tryRecv (receiver : ℕ) (result : Except Closed (Option T))

/-- The blocked calls once a pass of `pop` by the handle `r` is over. -/
def blocked {T : Type} (waiting : Multiset ℕ) (r : ℕ) : PopResult T → Multiset ℕ
  | .returns _ => waiting
  | .waits => r ::ₘ waiting

/-- One section under the mutex, or a wake-up.  Nothing keeps a handle from being
    dropped while a call on it is blocked. -/
inductive Step {T : Type} : System T → Event T → System T → Prop where
  | copySender {s : System T} {source new : ℕ} (hsource : source ∈ s.senders)
      (hnew : new ∉ s.senders) :
      Step s (.copySender source new)
        { s with shared := s.shared.incrProducerCnt, senders := insert new s.senders }
  | dropSender {s s' : System T} {sender : ℕ} (hsender : sender ∈ s.senders)
      (hnotify : Notified s.shared.decrProducerCnt.2
        { s with shared := s.shared.decrProducerCnt.1, senders := s.senders.erase sender } s') :
      Step s (.dropSender sender) s'
  | copyReceiver {s : System T} {source new : ℕ} (hsource : source ∈ s.receivers)
      (hnew : new ∉ s.receivers) :
      Step s (.copyReceiver source new)
        { s with shared := s.shared.incrConsumerCnt, receivers := insert new s.receivers }
  | dropReceiver {s : System T} {receiver : ℕ} (hreceiver : receiver ∈ s.receivers) :
      Step s (.dropReceiver receiver)
        { s with shared := s.shared.decrConsumerCnt, receivers := s.receivers.erase receiver }
  | send {s s' : System T} {sender : ℕ} (value : T) (hsender : sender ∈ s.senders)
      (hnotify : Notified (s.shared.push value).2.2
        { s with shared := (s.shared.push value).2.1 } s') :
      Step s (.send sender value (s.shared.push value).1) s'
  | recv {s : System T} {receiver : ℕ} (hreceiver : receiver ∈ s.receivers) :
      Step s (.recv receiver s.shared.pop.1)
        { s with
          shared := s.shared.pop.2
          waiting := blocked s.waiting receiver s.shared.pop.1 }
  -- it tests its condition again
  | resume {s : System T} {receiver : ℕ} (hsignalled : receiver ∈ s.signalled) :
      Step s (.resume receiver s.shared.pop.1)
        { s with
          shared := s.shared.pop.2
          waiting := blocked s.waiting receiver s.shared.pop.1
          signalled := s.signalled.erase receiver }
  -- the standard allows it at any time
  | wake {s : System T} {receiver : ℕ} (hwaiting : receiver ∈ s.waiting) :
      Step s (.wake receiver)
        { s with
          waiting := s.waiting.erase receiver
          signalled := receiver ::ₘ s.signalled }
  | tryRecv {s : System T} {receiver : ℕ} (hreceiver : receiver ∈ s.receivers) :
      Step s (.tryRecv receiver s.shared.tryPop.1) { s with shared := s.shared.tryPop.2 }

/-- A run of a channel from its creation. -/
def ChannelRun {T : Type} (es : List (Event T)) (s : System T) : Prop :=
  Transition.Run Step (System.channel T) es s

end Webserv.Mpmc
