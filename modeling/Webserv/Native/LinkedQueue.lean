import Webserv.Native.ForwardList
import Webserv.Native.MpmcQueue

/-!
# The MPMC channel over its linked list

`UnboundedMPMCQueue` with the `forward_list` it is made of, on the heap of nodes,
and the `shared_ptr`s through which the handles own it.  The section a call runs
under the mutex is a function of the members and the heap that may fault.

Copying a handle takes a `shared_ptr` first and counts in a section of its own;
dropping one counts down in a section and gives the `shared_ptr` back afterwards.
The last one to be given back destroys the queue.
-/

namespace Webserv.Mpmc

open Heap (Ptr)

/-- How a section goes wrong. -/
inductive LinkedFault where
  | memory (fault : Heap.Fault)
  /-- `value()` of an empty `optional` -/
  | badOptionalAccess
deriving DecidableEq, Repr

/-- An operation of the list as part of a section. -/
def ofList {α : Type} (x : Except Heap.Fault α) : Except LinkedFault α := x.mapError .memory

/-- `UnboundedMPMCQueue` -/
structure LinkedQueue where
  queue : ForwardList
  consumderCount : UInt32
  producerCount : UInt32

namespace LinkedQueue

variable {T : Type}

/-- `UnboundedMPMCQueue()` -/
def construct (h : NodeHeap T) : Except LinkedFault (LinkedQueue × NodeHeap T) := do
  let (queue, h) ← ofList (ForwardList.construct h)
  return ({ queue := queue, consumderCount := 1, producerCount := 1 }, h)

/-- `~UnboundedMPMCQueue()` -/
def destruct (q : LinkedQueue) (h : NodeHeap T) : Except LinkedFault (NodeHeap T) :=
  ofList (q.queue.destruct h)

def incrConsumerCnt (q : LinkedQueue) : LinkedQueue :=
  { q with consumderCount := q.consumderCount + 1 }

def decrConsumerCnt (q : LinkedQueue) : LinkedQueue :=
  { q with consumderCount := q.consumderCount - 1 }

def incrProducerCnt (q : LinkedQueue) : LinkedQueue :=
  { q with producerCount := q.producerCount + 1 }

def decrProducerCnt (q : LinkedQueue) : LinkedQueue × Notify :=
  let q := { q with producerCount := q.producerCount - 1 }
  -- nobody will push any more, so those who wait may give up
  (q, if q.producerCount = 0 then .all else .none)

def push (q : LinkedQueue) (value : T) (h : NodeHeap T) :
    Except LinkedFault (Except Closed Unit × LinkedQueue × Notify × NodeHeap T) := do
  if q.consumderCount = 0 then
    -- no receiver is left to take it
    return (.error .closed, q, .none, h)
  let (queue, h) ← ofList (q.queue.pushBack value h)
  return (.ok (), { q with queue := queue }, .one, h)

/-- `pop` from the test of its loop to the `wait` or the `return`. -/
def pop (q : LinkedQueue) (h : NodeHeap T) :
    Except LinkedFault (PopResult T × LinkedQueue × NodeHeap T) := do
  if ← ofList q.queue.isEmpty then
    if q.producerCount = 0 then
      return (.returns (.error .closed), q, h)
    else
      -- the loop tests again behind `wait`, so to be woken is not yet to have a value
      return (.waits, q, h)
  else
    let (res, queue, h) ← ofList (q.queue.popFront h)
    match res with
    -- never: the list was not empty under the same lock
    | none => throw .badOptionalAccess
    | some value => return (.returns (.ok value), { q with queue := queue }, h)

def tryPop (q : LinkedQueue) (h : NodeHeap T) :
    Except LinkedFault (Except Closed (Option T) × LinkedQueue × NodeHeap T) := do
  if (← ofList q.queue.isEmpty) ∧ q.producerCount = 0 then
    return (.error .closed, q, h)
  else
    -- of an empty list that may still be filled comes a `nullopt`
    let (res, queue, h) ← ofList (q.queue.popFront h)
    return (.ok res, { q with queue := queue }, h)

end LinkedQueue

/-! ## Handles -/

/-- Handles in the middle of their constructor or destructor. -/
structure Pending where
  /-- The sources of the copies that have their `shared_ptr` and are not counted yet. -/
  copiedSenders : Multiset ℕ := 0
  copiedReceivers : Multiset ℕ := 0
  /-- How many are counted down and have not given back their `shared_ptr`. -/
  leaving : ℕ := 0

/-- A channel in use. -/
structure LinkedSystem (T : Type) where
  nodes : NodeHeap T
  /-- The queue; `none` once it was destroyed. -/
  shared : Option LinkedQueue
  /-- `use_count` -/
  useCount : ℕ
  senders : Finset ℕ
  receivers : Finset ℕ
  pending : Pending := {}
  waiting : Multiset ℕ := 0
  signalled : Multiset ℕ := 0

/-- What some thread does next. -/
inductive Action (T : Type) where
  /-- `_queue(other._queue)` in the copy constructor of a `Sender` -/
  | retainSender (source : ℕ)
  /-- and its body -/
  | copySender (source new : ℕ)
  /-- The body of `~Sender` -/
  | dropSender (sender : ℕ)
  | retainReceiver (source : ℕ)
  | copyReceiver (source new : ℕ)
  | dropReceiver (receiver : ℕ)
  /-- `~shared_ptr` behind the body of `~Sender` or `~Receiver` -/
  | release
  | send (sender : ℕ) (value : T)
  | recv (receiver : ℕ)
  | resume (receiver : ℕ)
  | wake (receiver : ℕ)
  | tryRecv (receiver : ℕ)

namespace LinkedSystem

variable {T : Type}

/-- `channel()`, when both handles were handed out. -/
def channel (T : Type) : Except LinkedFault (LinkedSystem T) := do
  let (q, nodes) ← LinkedQueue.construct .empty
  return { nodes := nodes, shared := some q, useCount := 2, senders := {0}, receivers := {0} }

/-- `*_queue` -/
def deref (s : LinkedSystem T) : Except LinkedFault LinkedQueue :=
  match s.shared with
  | none => throw (.memory .dangling)
  | some q => return q

/-- `~shared_ptr`: the last one destroys the queue. -/
def release (s : LinkedSystem T) : Except LinkedFault (LinkedSystem T) := do
  let s := { s with useCount := s.useCount - 1, pending.leaving := s.pending.leaving - 1 }
  if s.useCount = 0 then
    let q ← s.deref
    let nodes ← q.destruct s.nodes
    return { s with nodes := nodes, shared := none }
  else
    return s

/-- Whom a notification wakes. -/
inductive Notified : Notify → LinkedSystem T → LinkedSystem T → Prop where
  | none (s : LinkedSystem T) : Notified .none s s
  | nobody (s : LinkedSystem T) (h : s.waiting = 0) : Notified .one s s
  -- the condition variable picks any of those who wait
  | one (s : LinkedSystem T) (r : ℕ) (h : r ∈ s.waiting) :
      Notified .one s { s with waiting := s.waiting.erase r, signalled := r ::ₘ s.signalled }
  | all (s : LinkedSystem T) :
      Notified .all s { s with waiting := 0, signalled := s.signalled + s.waiting }

end LinkedSystem

namespace Action

variable {T : Type}

/-- The handle is there, and a handle that is being used is not destroyed: that is
    what every object asks of its user. -/
def Allowed (s : LinkedSystem T) : Action T → Prop
  | retainSender source => source ∈ s.senders
  | copySender source new => source ∈ s.pending.copiedSenders ∧ new ∉ s.senders
  | dropSender sender => sender ∈ s.senders ∧ sender ∉ s.pending.copiedSenders
  | retainReceiver source => source ∈ s.receivers
  | copyReceiver source new => source ∈ s.pending.copiedReceivers ∧ new ∉ s.receivers
  | dropReceiver receiver => receiver ∈ s.receivers ∧ receiver ∉ s.pending.copiedReceivers ∧
      receiver ∉ s.waiting ∧ receiver ∉ s.signalled
  | release => 0 < s.pending.leaving
  | send sender _ => sender ∈ s.senders
  | recv receiver => receiver ∈ s.receivers
  | resume receiver => receiver ∈ s.signalled
  | wake receiver => receiver ∈ s.waiting
  | tryRecv receiver => receiver ∈ s.receivers

/-- The event a section makes, what it does with `_not_empty`, and the state behind it. -/
def exec (s : LinkedSystem T) :
    Action T → Except LinkedFault (List (Event T) × Notify × LinkedSystem T)
  | retainSender source =>
    return ([], .none,
      { s with
        useCount := s.useCount + 1
        pending.copiedSenders := source ::ₘ s.pending.copiedSenders })
  | copySender source new => do
    let q ← s.deref
    return ([.copySender source new], .none,
      { s with
        shared := some q.incrProducerCnt
        senders := insert new s.senders
        pending.copiedSenders := s.pending.copiedSenders.erase source })
  | dropSender sender => do
    let q ← s.deref
    let (q, notify) := q.decrProducerCnt
    return ([.dropSender sender], notify,
      { s with
        shared := some q
        senders := s.senders.erase sender
        pending.leaving := s.pending.leaving + 1 })
  | retainReceiver source =>
    return ([], .none,
      { s with
        useCount := s.useCount + 1
        pending.copiedReceivers := source ::ₘ s.pending.copiedReceivers })
  | copyReceiver source new => do
    let q ← s.deref
    return ([.copyReceiver source new], .none,
      { s with
        shared := some q.incrConsumerCnt
        receivers := insert new s.receivers
        pending.copiedReceivers := s.pending.copiedReceivers.erase source })
  | dropReceiver receiver => do
    let q ← s.deref
    return ([.dropReceiver receiver], .none,
      { s with
        shared := some q.decrConsumerCnt
        receivers := s.receivers.erase receiver
        pending.leaving := s.pending.leaving + 1 })
  -- outside the mutex, which may be destroyed with the queue
  | release => do
    let s ← s.release
    return ([], .none, s)
  | send sender value => do
    let q ← s.deref
    let (result, q, notify, nodes) ← q.push value s.nodes
    return ([.send sender value result], notify, { s with nodes := nodes, shared := some q })
  | recv receiver => do
    let q ← s.deref
    let (result, q, nodes) ← q.pop s.nodes
    return ([.recv receiver result], .none,
      { s with nodes := nodes, shared := some q, waiting := blocked s.waiting receiver result })
  | resume receiver => do
    let q ← s.deref
    let (result, q, nodes) ← q.pop s.nodes
    return ([.resume receiver result], .none,
      { s with
        nodes := nodes
        shared := some q
        waiting := blocked s.waiting receiver result
        signalled := s.signalled.erase receiver })
  -- nobody has notified
  | wake receiver =>
    return ([.wake receiver], .none,
      { s with
        waiting := s.waiting.erase receiver
        signalled := receiver ::ₘ s.signalled })
  | tryRecv receiver => do
    let q ← s.deref
    let (result, q, nodes) ← q.tryPop s.nodes
    return ([.tryRecv receiver result], .none, { s with nodes := nodes, shared := some q })

end Action

/-- A thread runs a section, which wakes whom it notifies.  The label is the events the
    handles see of it. -/
inductive LinkedStep {T : Type} (s : LinkedSystem T) : List (Event T) → LinkedSystem T → Prop where
  | intro {a : Action T} {es : List (Event T)} {notify : Notify} {s₁ s' : LinkedSystem T}
      (hallowed : a.Allowed s) (hexec : a.exec s = .ok (es, notify, s₁))
      (hnotify : LinkedSystem.Notified notify s₁ s') : LinkedStep s es s'

/-- A run of a channel from its creation. -/
def LinkedRun {T : Type} (es : List (List (Event T))) (s : LinkedSystem T) : Prop :=
  ∃ s₀, LinkedSystem.channel T = .ok s₀ ∧ Transition.Run LinkedStep s₀ es s

end Webserv.Mpmc
