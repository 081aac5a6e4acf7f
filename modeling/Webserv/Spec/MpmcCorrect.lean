import Mathlib.Algebra.Group.Nat.Defs
import Mathlib.Data.Finset.Card
import Mathlib.Data.Finset.Range
import Webserv.Native.MpmcQueue

/-!
# What the MPMC channel guarantees

Invariants of every run of the channel, in any interleaving of its handles.

## Key results

- `Step.moves`: what a step does to the queue and to the two histories
- `run_counted`: the two counts are the numbers of live handles modulo `2^32`
- `channel_fifo`: nothing is lost, doubled or reordered, and `closed` means closed
- `channel_wakes`: a value never lies in the queue while everyone who could take it sleeps
-/

namespace Webserv.Mpmc

open Transition

variable {T : Type}

/-! ## Histories -/

/-- The value of a `send` that returned Ok. -/
def Event.sent : Event T → Option T
  | .send _ value (.ok ()) => some value
  | _ => none

/-- The value that `recv` or `try_recv` handed out. -/
def Event.received : Event T → Option T
  | .recv _ (.returns (.ok value)) => some value
  | .resume _ (.returns (.ok value)) => some value
  | .tryRecv _ (.ok (some value)) => some value
  | _ => none

/-- A pass of `recv` or `try_recv` under the mutex. -/
def Event.receives : Event T → Prop
  | .recv _ _ => True
  | .resume _ _ => True
  | .tryRecv _ _ => True
  | _ => False

/-- `recv` or `try_recv` returned `closed`. -/
def Event.reportsClosed : Event T → Prop
  | .recv _ (.returns (.error .closed)) => True
  | .resume _ (.returns (.error .closed)) => True
  | .tryRecv _ (.error .closed) => True
  | _ => False

/-- The values sent, in push order. -/
def sent (es : List (Event T)) : List T := es.filterMap Event.sent

/-- The values handed out, in pop order. -/
def received (es : List (Event T)) : List T := es.filterMap Event.received

/-- What is sent in a run that goes on. -/
theorem sent_snoc (es : List (Event T)) (e : Event T) :
    sent (es ++ [e]) = sent es ++ e.sent.toList := by
  unfold sent
  rw [List.filterMap_append]
  cases h : e.sent with
  | none => simp [h]
  | some value => simp [h]

/-- What is received in a run that goes on. -/
theorem received_snoc (es : List (Event T)) (e : Event T) :
    received (es ++ [e]) = received es ++ e.received.toList := by
  unfold received
  rw [List.filterMap_append]
  cases h : e.received with
  | none => simp [h]
  | some value => simp [h]

/-! ## The sections of the queue -/

namespace Queue

/-- All that `push` can do. -/
theorem push_cases (q : Queue T) (value : T) :
    (q.consumderCount = 0 ∧ q.push value = (.error .closed, q, .none)) ∨
    (q.consumderCount ≠ 0 ∧
      q.push value = (.ok (), { q with queue := q.queue ++ [value] }, .one)) := by
  unfold push
  by_cases h : q.consumderCount = 0
  · left
    exact ⟨h, if_pos h⟩
  · right
    exact ⟨h, if_neg h⟩

/-- All that a pass of `pop` can do. -/
theorem pop_cases (q : Queue T) :
    (q.queue = [] ∧ q.producerCount = 0 ∧ q.pop = (.returns (.error .closed), q)) ∨
    (q.queue = [] ∧ q.producerCount ≠ 0 ∧ q.pop = (.waits, q)) ∨
    (∃ value rest, q.queue = value :: rest ∧
      q.pop = (.returns (.ok value), { q with queue := rest })) := by
  unfold pop
  -- a value goes out before the senders are looked at
  cases hqueue : q.queue with
  | nil =>
    by_cases h : q.producerCount = 0
    · exact .inl ⟨rfl, h, if_pos h⟩
    · exact .inr (.inl ⟨rfl, h, if_neg h⟩)
  | cons value rest => exact .inr (.inr ⟨value, rest, rfl, rfl⟩)

/-- All that `try_pop` can do. -/
theorem tryPop_cases (q : Queue T) :
    (q.queue = [] ∧ q.producerCount = 0 ∧ q.tryPop = (.error .closed, q)) ∨
    (q.queue = [] ∧ q.producerCount ≠ 0 ∧ q.tryPop = (.ok none, q)) ∨
    (∃ value rest, q.queue = value :: rest ∧
      q.tryPop = (.ok (some value), { q with queue := rest })) := by
  unfold tryPop
  -- a value goes out before the senders are looked at
  cases hqueue : q.queue with
  | nil =>
    by_cases h : q.producerCount = 0
    · exact .inl ⟨rfl, h, if_pos h⟩
    · exact .inr (.inl ⟨rfl, h, if_neg h⟩)
  | cons value rest => exact .inr (.inr ⟨value, rest, rfl, rfl⟩)

end Queue

/-- A notification moves blocked calls and touches nothing else. -/
theorem Notified.frame {n : Notify} {s s' : System T} (h : Notified n s s') :
    s'.shared = s.shared ∧ s'.senders = s.senders ∧ s'.receivers = s.receivers := by
  cases h <;> exact ⟨rfl, rfl, rfl⟩

/-! ## FIFO -/

/-- What an event says about the queue before and after it. -/
inductive Moves : List T → Event T → List T → Prop where
  | stays {queue : List T} {e : Event T} (hsent : e.sent = none) (hreceived : e.received = none) :
      Moves queue e queue
  | enters {queue : List T} {e : Event T} {value : T} (hsent : e.sent = some value)
      (hreceived : e.received = none) : Moves queue e (queue ++ [value])
  | leaves {queue : List T} {e : Event T} {value : T} (hsent : e.sent = none)
      (hreceived : e.received = some value) : Moves (value :: queue) e queue

/-- A step does to the queue what its event says. -/
theorem Step.moves {s s' : System T} {e : Event T} (h : Step s e s') :
    Moves s.shared.queue e s'.shared.queue := by
  cases h with
  | copySender hsource hnew => exact .stays rfl rfl
  | dropSender hsender hnotify =>
    rw [hnotify.frame.1]
    exact .stays rfl rfl
  | copyReceiver hsource hnew => exact .stays rfl rfl
  | dropReceiver hreceiver => exact .stays rfl rfl
  | send value hsender hnotify =>
    -- refused, or queued
    rw [hnotify.frame.1]
    obtain ⟨_, hpush⟩ | ⟨_, hpush⟩ := s.shared.push_cases value <;> rw [hpush]
    · exact .stays rfl rfl
    · exact .enters rfl rfl
  | recv hreceiver | resume hsignalled =>
    obtain ⟨_, _, hpop⟩ | ⟨_, _, hpop⟩ | ⟨value, rest, hqueue, hpop⟩ := s.shared.pop_cases
    · rw [hpop]
      exact .stays rfl rfl
    · rw [hpop]
      exact .stays rfl rfl
    · rw [hpop, hqueue]
      exact .leaves rfl rfl
  | wake hwaiting => exact .stays rfl rfl
  | tryRecv hreceiver =>
    obtain ⟨_, _, hpop⟩ | ⟨_, _, hpop⟩ | ⟨value, rest, hqueue, hpop⟩ := s.shared.tryPop_cases
    · rw [hpop]
      exact .stays rfl rfl
    · rw [hpop]
      exact .stays rfl rfl
    · rw [hpop, hqueue]
      exact .leaves rfl rfl

/-- Sent is received and then queued: a step of any kind keeps the equation. -/
theorem Moves.keeps_fifo {queue queue' : List T} {e : Event T} (h : Moves queue e queue')
    {es : List (Event T)} (hfifo : sent es = received es ++ queue) :
    sent (es ++ [e]) = received (es ++ [e]) ++ queue' := by
  rw [sent_snoc, received_snoc, hfifo]
  cases h with
  | stays hsent hreceived => simp [hsent, hreceived]
  | enters hsent hreceived => simp [hsent, hreceived]
  | leaves hsent hreceived => simp [hsent, hreceived]

/-- What was sent is what was received, followed by what is queued. -/
theorem run_fifo {es : List (Event T)} {s : System T} (h : ChannelRun es s) :
    sent es = received es ++ s.shared.queue :=
  h.history (P := fun es s => sent es = received es ++ s.shared.queue) rfl
    fun _ _ _ _ hfifo hstep => hstep.moves.keeps_fifo hfifo

/-! ## Handle counts -/

/-- A count of live handles in an `unsigned`, which wraps. -/
def Counted (count : UInt32) (handles : Finset ℕ) : Prop :=
  count.toNat = handles.card % 2 ^ 32

/-- A handle more is counted, even when the count wraps. -/
theorem Counted.insert {count : UInt32} {handles : Finset ℕ} (h : Counted count handles)
    {new : ℕ} (hnew : new ∉ handles) : Counted (count + 1) (insert new handles) := by
  unfold Counted at h ⊢
  have hone : (1 : UInt32).toNat = 1 := rfl
  rw [UInt32.toNat_add, h, hone, Finset.card_insert_of_notMem hnew]
  omega

/-- A handle less is counted. -/
theorem Counted.erase {count : UInt32} {handles : Finset ℕ} (h : Counted count handles)
    {old : ℕ} (hold : old ∈ handles) : Counted (count - 1) (handles.erase old) := by
  unfold Counted at h ⊢
  have hone : (1 : UInt32).toNat = 1 := rfl
  -- a live handle is counted
  have hpos : 0 < handles.card := Finset.card_pos.mpr ⟨old, hold⟩
  rw [UInt32.toNat_sub, h, hone, Finset.card_erase_of_mem hold]
  omega

/-- As long as the handles fit the type the count is exact. -/
theorem Counted.toNat_eq {count : UInt32} {handles : Finset ℕ} (h : Counted count handles)
    (hfew : handles.card < 2 ^ 32) : count.toNat = handles.card := by
  rw [h, Nat.mod_eq_of_lt hfew]

/-- The code's test for "no handle is left". -/
theorem Counted.eq_zero_iff {count : UInt32} {handles : Finset ℕ} (h : Counted count handles)
    (hfew : handles.card < 2 ^ 32) : count = 0 ↔ handles = ∅ := by
  rw [← Finset.card_eq_zero, ← h.toNat_eq hfew, ← UInt32.toNat_inj]
  rfl

/-- No handles count as zero. -/
theorem Counted.of_empty {count : UInt32} (h : Counted count ∅) : count = 0 :=
  (h.eq_zero_iff (by simp)).mpr rfl

/-- Both counts of a system. -/
structure System.Counts (s : System T) : Prop where
  producers : Counted s.shared.producerCount s.senders
  consumers : Counted s.shared.consumderCount s.receivers

/-- A new channel counts its two handles. -/
theorem counts_channel : (System.channel T).Counts := ⟨rfl, rfl⟩

namespace Queue

/-! `push`, `pop` and `try_pop` leave the counts alone. -/

/-- `push` leaves the counts alone. -/
theorem push_frame (q : Queue T) (value : T) :
    ∃ queue, (q.push value).2.1 = { q with queue := queue } := by
  obtain ⟨_, h⟩ | ⟨_, h⟩ := q.push_cases value
  · exact ⟨q.queue, by rw [h]⟩
  · exact ⟨q.queue ++ [value], by rw [h]⟩

/-- So does `pop`. -/
theorem pop_frame (q : Queue T) : ∃ queue, q.pop.2 = { q with queue := queue } := by
  obtain ⟨_, _, h⟩ | ⟨_, _, h⟩ | ⟨value, rest, _, h⟩ := q.pop_cases
  · exact ⟨q.queue, by rw [h]⟩
  · exact ⟨q.queue, by rw [h]⟩
  · exact ⟨rest, by rw [h]⟩

/-- So does `try_pop`. -/
theorem tryPop_frame (q : Queue T) : ∃ queue, q.tryPop.2 = { q with queue := queue } := by
  obtain ⟨_, _, h⟩ | ⟨_, _, h⟩ | ⟨value, rest, _, h⟩ := q.tryPop_cases
  · exact ⟨q.queue, by rw [h]⟩
  · exact ⟨q.queue, by rw [h]⟩
  · exact ⟨rest, by rw [h]⟩

end Queue

/-- Each step keeps the counts. -/
theorem Step.counts {s s' : System T} {e : Event T} (h : Step s e s') (hcounts : s.Counts) :
    s'.Counts := by
  obtain ⟨hproducers, hconsumers⟩ := hcounts
  cases h with
  | copySender hsource hnew => exact ⟨hproducers.insert hnew, hconsumers⟩
  | dropSender hsender hnotify =>
    obtain ⟨hshared, hsenders, hreceivers⟩ := hnotify.frame
    constructor
    · rw [hshared, hsenders]
      exact hproducers.erase hsender
    · rw [hshared, hreceivers]
      exact hconsumers
  | copyReceiver hsource hnew => exact ⟨hproducers, hconsumers.insert hnew⟩
  | dropReceiver hreceiver => exact ⟨hproducers, hconsumers.erase hreceiver⟩
  | send value hsender hnotify =>
    obtain ⟨hshared, hsenders, hreceivers⟩ := hnotify.frame
    -- a value is queued under the same counts
    obtain ⟨queue, hqueue⟩ := s.shared.push_frame value
    constructor
    · rw [hshared, hsenders, hqueue]
      exact hproducers
    · rw [hshared, hreceivers, hqueue]
      exact hconsumers
  | recv hreceiver | resume hsignalled =>
    obtain ⟨queue, hqueue⟩ := s.shared.pop_frame
    rw [hqueue]
    exact ⟨hproducers, hconsumers⟩
  | wake hwaiting => exact ⟨hproducers, hconsumers⟩
  | tryRecv hreceiver =>
    obtain ⟨queue, hqueue⟩ := s.shared.tryPop_frame
    rw [hqueue]
    exact ⟨hproducers, hconsumers⟩

/-- So they hold in every state of a run. -/
theorem run_counted {es : List (Event T)} {s : System T} (h : ChannelRun es s) : s.Counts :=
  h.invariant counts_channel fun _ _ _ hcounts hstep => hstep.counts hcounts

/-- A step that copies no handle and drops none. -/
def Event.keepsHandles : Event T → Prop
  | .copySender _ _ => False
  | .dropSender _ => False
  | .copyReceiver _ _ => False
  | .dropReceiver _ => False
  | _ => True

/-- The other steps make no handle and drop none. -/
theorem Step.handles {s s' : System T} {e : Event T} (h : Step s e s') (he : e.keepsHandles) :
    s'.senders = s.senders ∧ s'.receivers = s.receivers := by
  cases h with
  | copySender hsource hnew => exact he.elim
  | dropSender hsender hnotify => exact he.elim
  | copyReceiver hsource hnew => exact he.elim
  | dropReceiver hreceiver => exact he.elim
  | send value hsender hnotify => exact hnotify.frame.2
  | recv hreceiver => exact ⟨rfl, rfl⟩
  | resume hsignalled => exact ⟨rfl, rfl⟩
  | wake hwaiting => exact ⟨rfl, rfl⟩
  | tryRecv hreceiver => exact ⟨rfl, rfl⟩

/-! ## A closed channel -/

/-- No sender is left and every value was handed out. -/
structure System.Drained (s : System T) : Prop where
  senders : s.senders = ∅
  queue : s.shared.queue = []
  producers : s.shared.producerCount = 0

/-- On a drained queue `pop` reports that the channel is closed. -/
theorem Queue.pop_drained {q : Queue T} (hqueue : q.queue = []) (hproducers : q.producerCount = 0) :
    q.pop = (.returns (.error .closed), q) := by
  unfold pop
  rw [hqueue]
  exact if_pos hproducers

/-- So does `try_pop`. -/
theorem Queue.tryPop_drained {q : Queue T} (hqueue : q.queue = [])
    (hproducers : q.producerCount = 0) : q.tryPop = (.error .closed, q) := by
  unfold tryPop
  rw [hqueue]
  exact if_pos hproducers

/-- A drained channel stays drained, since only a sender can make a sender, and
    every receive reports it. -/
theorem Step.drained {s s' : System T} {e : Event T} (h : Step s e s') (hs : s.Drained) :
    s'.Drained ∧ (e.receives → e.reportsClosed) := by
  obtain ⟨hsenders, hqueue, hproducers⟩ := hs
  cases h with
  -- without a sender nothing is copied, dropped or sent
  | copySender hsource hnew => simp [hsenders] at hsource
  | dropSender hsender hnotify => simp [hsenders] at hsender
  | copyReceiver hsource hnew => exact ⟨⟨hsenders, hqueue, hproducers⟩, False.elim⟩
  | dropReceiver hreceiver => exact ⟨⟨hsenders, hqueue, hproducers⟩, False.elim⟩
  | send value hsender hnotify => simp [hsenders] at hsender
  | recv hreceiver | resume hsignalled =>
    -- an empty queue without producers is closed
    rw [Queue.pop_drained hqueue hproducers]
    exact ⟨⟨hsenders, hqueue, hproducers⟩, fun _ => trivial⟩
  | wake hwaiting => exact ⟨⟨hsenders, hqueue, hproducers⟩, False.elim⟩
  | tryRecv hreceiver =>
    rw [Queue.tryPop_drained hqueue hproducers]
    exact ⟨⟨hsenders, hqueue, hproducers⟩, fun _ => trivial⟩

/-- A drained channel reports it for ever. -/
theorem run_drained {s s' : System T} {es : List (Event T)} (h : Run Step s es s')
    (hs : s.Drained) : ∀ e ∈ es, e.receives → e.reportsClosed :=
  h.forall_events hs fun _ _ _ hdrained hstep => hstep.drained hdrained

/-- `closed` is reported on an empty queue whose producer count is zero. -/
theorem Step.reportsClosed {s s' : System T} {e : Event T} (h : Step s e s')
    (hclosed : e.reportsClosed) :
    s.shared.queue = [] ∧ s.shared.producerCount = 0 := by
  cases h with
  | copySender hsource hnew => exact hclosed.elim
  | dropSender hsender hnotify => exact hclosed.elim
  | copyReceiver hsource hnew => exact hclosed.elim
  | dropReceiver hreceiver => exact hclosed.elim
  | send value hsender hnotify => exact hclosed.elim
  -- of the three ways of `pop` only the first one is `closed`
  | recv hreceiver | resume hsignalled =>
    obtain ⟨hqueue, hcount, hpop⟩ | ⟨_, _, hpop⟩ | ⟨value, rest, _, hpop⟩ := s.shared.pop_cases
    · exact ⟨hqueue, hcount⟩
    · rw [hpop] at hclosed
      exact hclosed.elim
    · rw [hpop] at hclosed
      exact hclosed.elim
  | wake hwaiting => exact hclosed.elim
  | tryRecv hreceiver =>
    obtain ⟨hqueue, hcount, hpop⟩ | ⟨_, _, hpop⟩ | ⟨value, rest, _, hpop⟩ := s.shared.tryPop_cases
    · exact ⟨hqueue, hcount⟩
    · rw [hpop] at hclosed
      exact hclosed.elim
    · rw [hpop] at hclosed
      exact hclosed.elim

/-- The same while the senders can be counted: the channel is drained. -/
theorem Step.drained_of_closed {s s' : System T} {e : Event T} (h : Step s e s')
    (hcounts : s.Counts) (hfew : s.senders.card < 2 ^ 32) (hclosed : e.reportsClosed) :
    s.Drained := by
  obtain ⟨hqueue, hcount⟩ := h.reportsClosed hclosed
  exact ⟨(hcounts.producers.eq_zero_iff hfew).mp hcount, hqueue, hcount⟩

/-- A send is refused when no receiver is left. -/
theorem Step.send_closed_iff {s s' : System T} {sender : ℕ} {value : T}
    {result : Except Closed Unit} (h : Step s (.send sender value result) s')
    (hcounts : s.Counts) (hfew : s.receivers.card < 2 ^ 32) :
    result = .error .closed ↔ s.receivers = ∅ := by
  rw [← hcounts.consumers.eq_zero_iff hfew]
  cases h with
  | send value hsender hnotify =>
    obtain ⟨hcount, hpush⟩ | ⟨hcount, hpush⟩ := s.shared.push_cases value
    · simp [hcount, hpush]
    · simp [hcount, hpush]

/-- A refused value changes nothing. -/
theorem Step.send_closed {s s' : System T} {sender : ℕ} {value : T}
    (h : Step s (.send sender value (.error .closed)) s') : s' = s := by
  generalize hresult : (Except.error Closed.closed : Except Closed Unit) = result at h
  cases h with
  | send value hsender hnotify =>
    -- the error is given when no receiver is left, and then nothing is pushed
    obtain ⟨hcount, hpush⟩ | ⟨hcount, hpush⟩ := s.shared.push_cases value
    · rw [hpush] at hnotify
      cases hnotify
      rfl
    · rw [hpush] at hresult
      cases hresult

/-! ## The guarantee -/

/-- In every run the values sent are those handed out followed by the queue.  With
    fewer than `2^32` handles of a kind its count is exact, and then `closed` means
    that the other side is gone for good. -/
theorem channel_fifo {es : List (Event T)} {s : System T} (h : ChannelRun es s) :
    sent es = received es ++ s.shared.queue ∧
    (s.senders.card < 2 ^ 32 → s.shared.producerCount.toNat = s.senders.card) ∧
    (s.receivers.card < 2 ^ 32 → s.shared.consumderCount.toNat = s.receivers.card) ∧
    (∀ e s', s.senders.card < 2 ^ 32 → Step s e s' → e.reportsClosed →
      s.senders = ∅ ∧ received es = sent es ∧
      ∀ es' s'', Run Step s' es' s'' → ∀ e' ∈ es', e'.receives → e'.reportsClosed) ∧
    (∀ sender value result s', s.receivers.card < 2 ^ 32 →
      Step s (.send sender value result) s' →
      (result = .error .closed ↔ s.receivers = ∅) ∧
      (result = .error .closed → s'.shared = s.shared)) := by
  have hfifo := run_fifo h
  have hcounts := run_counted h
  refine ⟨hfifo, hcounts.producers.toNat_eq, hcounts.consumers.toNat_eq, ?_, ?_⟩
  · intro e s' hfew hstep hclosed
    -- what closed it once keeps it closed
    have hdrained := hstep.drained_of_closed hcounts hfew hclosed
    refine ⟨hdrained.senders, ?_, ?_⟩
    · rw [hfifo, hdrained.queue, List.append_nil]
    · intro es' s'' hrun
      exact run_drained hrun (hstep.drained hdrained).1
  · intro sender value result s' hfew hstep
    refine ⟨hstep.send_closed_iff hcounts hfew, ?_⟩
    rintro rfl
    rw [hstep.send_closed]

/-- One value goes through, then the sender is dropped. -/
theorem channel_fifo_closing : ∃ s : System ℕ,
    ChannelRun [.send 0 7 (.ok ()), .tryRecv 0 (.ok (some 7)), .dropSender 0] s ∧
    s.senders = ∅ ∧ Step s (.recv 0 (.returns (.error .closed))) s ∧
    ∀ es s', Run Step s es s' → ∀ e ∈ es, e.receives → e.reportsClosed := by
  let s : System ℕ := { shared := { producerCount := 0 }, senders := ∅, receivers := {0} }
  have hrun : ChannelRun [.send 0 7 (.ok ()), .tryRecv 0 (.ok (some 7)), .dropSender 0] s := by
    have hsend : ChannelRun [.send 0 7 (.ok ())]
        { shared := { queue := [7] }, senders := {0}, receivers := {0} } :=
      .snoc .nil (.send 7 (by decide) (.nobody _ rfl))
    have htry : ChannelRun [.send 0 7 (.ok ()), .tryRecv 0 (.ok (some 7))]
        { shared := {}, senders := {0}, receivers := {0} } :=
      .snoc hsend (.tryRecv (by decide))
    exact .snoc htry (.dropSender (by decide) (.all _))
  -- the channel is drained now, and stays so
  have hrecv : Step s (.recv 0 (.returns (.error .closed))) s := .recv (by decide)
  obtain ⟨-, -, -, hclosed, -⟩ := channel_fifo hrun
  have hlater := hclosed _ _ (by decide) hrecv trivial
  exact ⟨s, hrun, hlater.1, hrecv, hlater.2.2⟩

/-! ### More handles than an `unsigned` counts -/

/-- The first sender is copied `n` times. -/
def copies (n : ℕ) : List (Event T) := (List.range n).map fun i => .copySender 0 (i + 1)

/-- Copying the first sender makes any number of them. -/
theorem run_copies (n : ℕ) : ∃ s : System T, ChannelRun (copies n) s ∧
    s.senders = Finset.range (n + 1) ∧ s.receivers = {0} ∧ s.shared.queue = [] := by
  induction n with
  | zero => exact ⟨System.channel T, .nil, rfl, rfl, rfl⟩
  | succ n ih =>
    obtain ⟨s, hrun, hsenders, hreceivers, hqueue⟩ := ih
    have hsource : 0 ∈ s.senders := by simp [hsenders]
    have hnew : n + 1 ∉ s.senders := by simp [hsenders]
    -- one more copy of the first sender
    have hcopies : copies (n + 1) = copies n ++ [(.copySender 0 (n + 1) : Event T)] := by
      unfold copies
      rw [List.range_succ, List.map_append]
      rfl
    have hnext := hrun.snoc (.copySender hsource hnew)
    rw [← hcopies] at hnext
    refine ⟨_, hnext, ?_, hreceivers, hqueue⟩
    show insert (n + 1) s.senders = Finset.range (n + 1 + 1)
    rw [hsenders, Finset.range_add_one (n := n + 1)]

/-- With `2^32` senders the count is back at zero and `recv` reports `closed`. -/
theorem channel_count_wraps : ∃ s : System ℕ, ChannelRun (copies (2 ^ 32 - 1)) s ∧
    s.senders.card = 2 ^ 32 ∧ s.shared.producerCount.toNat = 0 ∧
    Step s (.recv 0 (.returns (.error .closed))) s := by
  obtain ⟨s, hrun, hsenders, hreceivers, hqueue⟩ := run_copies (T := ℕ) (2 ^ 32 - 1)
  have hcard : s.senders.card = 2 ^ 32 := by
    rw [hsenders, Finset.card_range]
    rfl
  have hcount : s.shared.producerCount.toNat = 0 := by
    rw [(run_counted hrun).producers, hcard]
    exact Nat.mod_self _
  -- with a count of 0 the channel takes itself for closed
  have hpop : s.shared.pop = (.returns (.error .closed), s.shared) :=
    Queue.pop_drained hqueue (UInt32.toNat_inj.mp hcount)
  have hreceiver : 0 ∈ s.receivers := by simp [hreceivers]
  have hstep := Step.recv hreceiver
  rw [hpop] at hstep
  exact ⟨s, hrun, hcard, hcount, hstep⟩

/-! ## Wake-ups -/

/-- No wake-up is lost. -/
structure System.Wakes (s : System T) : Prop where
  /-- While someone sleeps, every queued value has a woken receiver to take it. -/
  queued_le : s.waiting ≠ 0 → s.shared.queue.length ≤ s.signalled.card
  /-- Nobody sleeps on a closed channel. -/
  closed : s.senders = ∅ → s.waiting = 0

/-- Nobody waits at first. -/
theorem wakes_channel : (System.channel T).Wakes := ⟨fun h => absurd rfl h, fun _ => rfl⟩

/-- No notification changes nothing. -/
theorem Notified.none_eq {s s' : System T} (h : Notified .none s s') : s' = s := by
  cases h
  rfl

/-- After `notify_all` nobody waits. -/
theorem Notified.all_waiting {s s' : System T} (h : Notified .all s s') : s'.waiting = 0 := by
  cases h
  rfl

/-- `notify_one` signals one more call unless nobody waits. -/
theorem Notified.one_signalled {s s' : System T} (h : Notified .one s s')
    (hwaiting : s'.waiting ≠ 0) :
    s.waiting ≠ 0 ∧ s'.signalled.card = s.signalled.card + 1 := by
  cases h with
  | nobody _ hnobody => exact absurd hnobody hwaiting
  | one _ r hr =>
    have hne : s.waiting ≠ 0 := by
      intro hnone
      simp [hnone] at hr
    exact ⟨hne, Multiset.card_cons r s.signalled⟩

/-- The last sender wakes everybody. -/
theorem Step.dropSender_wakes {s s' : System T} {sender : ℕ} (hs : s.Wakes) (hcounts : s.Counts)
    (h : Step s (.dropSender sender) s') : s'.Wakes := by
  have hcounts' := h.counts hcounts
  cases h with
  | dropSender hsender hnotify =>
    by_cases hlast : s.shared.producerCount - 1 = 0
    · -- `notify_all`
      have hall : s.shared.decrProducerCnt.2 = .all := if_pos hlast
      rw [hall] at hnotify
      have hwaiting := hnotify.all_waiting
      exact ⟨fun h => absurd hwaiting h, fun _ => hwaiting⟩
    · -- some sender is left, for a count of zero handles is zero
      have hnone : s.shared.decrProducerCnt.2 = .none := if_neg hlast
      rw [hnone] at hnotify
      rw [hnotify.none_eq] at hcounts' ⊢
      constructor
      · exact hs.queued_le
      · intro hsenders
        have hzero := hcounts'.producers
        rw [hsenders] at hzero
        exact absurd hzero.of_empty hlast

/-- A value that is queued wakes a receiver, if one waits. -/
theorem Step.send_wakes {s s' : System T} {sender : ℕ} {value : T} {result : Except Closed Unit}
    (hs : s.Wakes) (h : Step s (.send sender value result) s') : s'.Wakes := by
  cases h with
  | send value hsender hnotify =>
    constructor
    · intro hwaiting
      obtain ⟨_, hpush⟩ | ⟨_, hpush⟩ := s.shared.push_cases value
      · rw [hpush] at hnotify
        rw [hnotify.none_eq] at hwaiting ⊢
        exact hs.queued_le hwaiting
      · -- one value more, but also one call more that is awake
        rw [hpush] at hnotify
        obtain ⟨hne, hcard⟩ := hnotify.one_signalled hwaiting
        rw [hnotify.frame.1, hcard, List.length_append]
        exact Nat.add_le_add_right (hs.queued_le hne) 1
    · intro hsenders
      rw [hnotify.frame.2.1] at hsenders
      rw [show s.senders = ∅ from hsenders] at hsender
      exact absurd hsender (Finset.notMem_empty sender)

/-- A pass of `pop` by a call that is awake, or by a new one. -/
theorem System.Wakes.pop {s : System T} (hs : s.Wakes) (hcounts : s.Counts) (r : ℕ)
    (signalled : Multiset ℕ) (hsignalled : s.signalled.card ≤ signalled.card + 1) :
    ({ s with
        shared := s.shared.pop.2
        waiting := blocked s.waiting r s.shared.pop.1
        signalled := signalled } : System T).Wakes := by
  obtain ⟨hqueue, _, hpop⟩ | ⟨hqueue, hcount, hpop⟩ | ⟨value, rest, hqueue, hpop⟩ :=
    s.shared.pop_cases
  · rw [hpop]
    constructor
    · intro _
      simp [hqueue]
    · exact hs.closed
  · -- the call falls asleep on an empty queue that has a sender
    rw [hpop]
    constructor
    · intro _
      simp [hqueue]
    · intro hsenders
      have hzero := hcounts.producers
      rw [show s.senders = ∅ from hsenders] at hzero
      exact absurd hzero.of_empty hcount
  · -- one value less, and at most one call less that is awake
    rw [hpop]
    constructor
    · intro hwaiting
      have hle := hs.queued_le hwaiting
      rw [hqueue, List.length_cons] at hle
      show rest.length ≤ signalled.card
      omega
    · exact hs.closed

/-- Each step keeps the invariant. -/
theorem Step.wakes {s s' : System T} {e : Event T} (h : Step s e s') (hcounts : s.Counts)
    (hs : s.Wakes) : s'.Wakes := by
  have hstep := h
  cases h with
  | copySender hsource hnew => exact ⟨hs.queued_le, fun h => absurd h (Finset.insert_ne_empty _ _)⟩
  | dropSender hsender hnotify => exact hstep.dropSender_wakes hs hcounts
  | copyReceiver hsource hnew => exact ⟨hs.queued_le, hs.closed⟩
  | dropReceiver hreceiver => exact ⟨hs.queued_le, hs.closed⟩
  | send value hsender hnotify => exact hstep.send_wakes hs
  -- a call that was never asleep may take the value another was woken for
  | recv hreceiver => exact hs.pop hcounts _ s.signalled (Nat.le_succ _)
  | resume hsignalled =>
    apply hs.pop hcounts
    rw [Multiset.card_erase_add_one hsignalled]
  | wake hwaiting =>
    -- a spurious wake-up only adds a call that is awake
    have hne : s.waiting ≠ 0 := by
      intro hnone
      simp [hnone] at hwaiting
    constructor
    · intro _
      rw [Multiset.card_cons]
      exact Nat.le_succ_of_le (hs.queued_le hne)
    · intro hsenders
      exact absurd (hs.closed hsenders) hne
  -- a call that never sleeps only takes values
  | tryRecv hreceiver =>
    obtain ⟨_, _, hpop⟩ | ⟨_, _, hpop⟩ | ⟨value, rest, hqueue, hpop⟩ := s.shared.tryPop_cases
    · rw [hpop]
      exact ⟨hs.queued_le, hs.closed⟩
    · rw [hpop]
      exact ⟨hs.queued_le, hs.closed⟩
    · rw [hpop]
      constructor
      · intro hwaiting
        have hle := hs.queued_le hwaiting
        rw [hqueue] at hle
        exact Nat.le_of_succ_le hle
      · exact hs.closed

/-- In every run a value in the queue has a woken receiver while another sleeps, and
    a channel without senders has nobody asleep. -/
theorem channel_wakes {es : List (Event T)} {s : System T} (h : ChannelRun es s) :
    (s.waiting ≠ 0 → s.shared.queue.length ≤ s.signalled.card) ∧
    (s.senders = ∅ → s.waiting = 0) := by
  have hboth : s.Counts ∧ s.Wakes := by
    apply h.invariant (P := fun s => s.Counts ∧ s.Wakes) ⟨counts_channel, wakes_channel⟩
    rintro s e s' ⟨hcounts, hwakes⟩ hstep
    exact ⟨hstep.counts hcounts, hstep.wakes hcounts hwakes⟩
  exact ⟨hboth.2.queued_le, hboth.2.closed⟩

/-- Two receivers sleep and one value comes. -/
theorem channel_wakes_one_of_two : ∃ s : System ℕ,
    ChannelRun [.copyReceiver 0 1, .recv 0 .waits, .recv 1 .waits, .send 0 7 (.ok ())] s ∧
    s.waiting ≠ 0 ∧ s.shared.queue = [7] ∧ s.shared.queue.length ≤ s.signalled.card := by
  let q : Queue ℕ := { consumderCount := 2 }
  have hcopy : ChannelRun [.copyReceiver 0 1]
      { shared := q, senders := {0}, receivers := insert 1 {0} } :=
    .snoc .nil (.copyReceiver (by decide) (by decide))
  have hfirst : ChannelRun [.copyReceiver 0 1, .recv 0 .waits]
      { shared := q, senders := {0}, receivers := insert 1 {0}, waiting := {0} } :=
    .snoc hcopy (.recv (by decide))
  have hsecond : ChannelRun [.copyReceiver 0 1, .recv 0 .waits, .recv 1 .waits]
      { shared := q, senders := {0}, receivers := insert 1 {0}, waiting := 1 ::ₘ {0} } :=
    .snoc hfirst (.recv (by decide))
  -- one of the two is woken, and the other sleeps on
  have hsender : 0 ∈ ({0} : Finset ℕ) := by decide
  have hwaits : 1 ∈ (1 ::ₘ {0} : Multiset ℕ) := Multiset.mem_cons_self 1 _
  have hsend := hsecond.snoc (.send 7 hsender (.one _ 1 hwaits))
  have hwaiting : (1 ::ₘ {0} : Multiset ℕ).erase 1 ≠ 0 := by decide
  exact ⟨_, hsend, hwaiting, rfl, (channel_wakes hsend).1 hwaiting⟩

end Webserv.Mpmc
