import Mathlib.Algebra.BigOperators.Group.Finset.Basic
import Mathlib.Algebra.Order.BigOperators.Group.Multiset
import Mathlib.Tactic.Abel
import Webserv.Native.StaticThreadPool
import Webserv.Spec.MpmcCorrect

/-!
# The thread pool runs every task once

The pool is a client of the MPMC channel: its runs are runs of the channel, so
what was accepted is what the workers took followed by the queue.  Beside that
an invariant follows each taken value to the state of the worker that took it.

## Key results

- `create_channelRun`: the constructors leave one sender and a receiver for each worker
- `PoolRun.channel`: a run of the pool is a run of the channel
- `PoolRun.accounted`: where the tasks and the stop markers are
- `pool_runs_once`: every task runs once, and `shutdown` stops every worker once
-/

namespace Webserv.StaticThreadPool

open Mpmc (Closed PopResult ChannelRun)
open Transition

/-! ## Construction -/

/-- The channel once the constructor has made `i` workers. -/
def spawned (i : ℕ) : Mpmc.System (Option ℕ) where
  shared := { consumderCount := 2 + UInt32.ofNat i, producerCount := 3 }
  senders := {2, 1, 0}
  receivers := {1, 0} ∪ (Finset.range i).image receiverOf

/-- The handles are made by copies, in the order of the threads. -/
theorem spawned_channelRun (i : ℕ) :
    ∃ es, ChannelRun es (spawned i) ∧ Mpmc.sent es = [] ∧ Mpmc.received es = [] := by
  induction i with
  | zero =>
    -- the parameters of the constructor, and the member
    have hchannel : ChannelRun [] (Mpmc.System.channel (Option ℕ)) := .nil
    have hsender : ChannelRun [.copySender 0 1] _ :=
      hchannel.snoc (.copySender (by decide) (by decide))
    have hreceiver : ChannelRun [.copySender 0 1, .copyReceiver 0 1] _ :=
      hsender.snoc (.copyReceiver (by decide) (by decide))
    have hmember : ChannelRun [.copySender 0 1, .copyReceiver 0 1, .copySender 1 2] _ :=
      hreceiver.snoc (.copySender (by decide) (by decide))
    exact ⟨_, hmember, rfl, rfl⟩
  | succ i ih =>
    obtain ⟨es, hrun, hsent, hreceived⟩ := ih
    -- the next thread gets a copy of the receiver
    have hsource : 1 ∈ (spawned i).receivers := by simp [spawned]
    have hnew : receiverOf i ∉ (spawned i).receivers := by
      simp [spawned, receiverOf]
    have hnext := hrun.snoc (.copyReceiver hsource hnew)
    have heq : { spawned i with
        shared := (spawned i).shared.incrConsumerCnt
        receivers := insert (receiverOf i) (spawned i).receivers } = spawned (i + 1) := by
      have hcount : UInt32.ofNat (i + 1) = UInt32.ofNat i + 1 := by simp
      simp only [spawned, Mpmc.Queue.incrConsumerCnt, Finset.range_add_one, Finset.image_insert,
        Finset.union_insert, hcount, UInt32.add_assoc]
    rw [heq] at hnext
    refine ⟨_, hnext, ?_, ?_⟩
    · rw [Mpmc.sent_snoc, hsent]
      rfl
    · rw [Mpmc.received_snoc, hreceived]
      rfl

/-- The handles 0 and 1 are dropped once the workers are made. -/
def dropped (s : Mpmc.System (Option ℕ)) (handle : ℕ) : Mpmc.System (Option ℕ) :=
  { s with
    shared := { s.shared with
      consumderCount := s.shared.consumderCount - 1
      producerCount := s.shared.producerCount - 1 }
    senders := s.senders.erase handle
    receivers := s.receivers.erase handle }

/-- Both handles of a number are dropped, and other senders are left. -/
theorem dropped_channelRun {es : List (Mpmc.Event (Option ℕ))} {s : Mpmc.System (Option ℕ)}
    (handle : ℕ) (hrun : ChannelRun es s) (hsender : handle ∈ s.senders)
    (hreceiver : handle ∈ s.receivers) (hcount : s.shared.producerCount - 1 ≠ 0) :
    ChannelRun (es ++ [.dropReceiver handle] ++ [.dropSender handle]) (dropped s handle) := by
  refine .snoc (.snoc hrun (.dropReceiver hreceiver)) (.dropSender hsender ?_)
  have hnone : ({ s with
      shared := s.shared.decrConsumerCnt
      receivers := s.receivers.erase handle } : Mpmc.System (Option ℕ)).shared.decrProducerCnt.2 =
      .none := if_neg hcount
  rw [hnone]
  exact .none _

/-- The channel of a new pool is one that the constructors make of `channel()`. -/
theorem create_channelRun (threadCount : UInt32) :
    ∃ es, ChannelRun es (create threadCount).channel ∧ Mpmc.sent es = [] ∧
      Mpmc.received es = [] := by
  obtain ⟨es, hrun, hsent, hreceived⟩ := spawned_channelRun threadCount.toNat
  -- the parameters go, then the handles of `create`
  have hparameters := dropped_channelRun 1 hrun (by simp [spawned]) (by simp [spawned])
    (by simp [spawned])
  have hcreate := dropped_channelRun 0 hparameters (by simp [spawned, dropped])
    (by simp [spawned, dropped]) (by simp [spawned, dropped])
  have heq : dropped (dropped (spawned threadCount.toNat) 1) 0 = (create threadCount).channel := by
    -- the count wraps only when all handles do
    have hcount : 2 + threadCount - 1 - 1 = threadCount := by
      apply UInt32.toNat_inj.mp
      have hone : (1 : UInt32).toNat = 1 := rfl
      have htwo : (2 : UInt32).toNat = 2 := rfl
      have hlt := threadCount.toNat_lt
      rw [UInt32.toNat_sub, UInt32.toNat_sub, UInt32.toNat_add, hone, htwo]
      omega
    have hreceivers : ((({1, 0} ∪ (Finset.range threadCount.toNat).image receiverOf).erase 1).erase 0)
        = (Finset.range threadCount.toNat).image receiverOf := by
      ext handle
      have hlow : handle ∈ (Finset.range threadCount.toNat).image receiverOf → 2 ≤ handle := by
        simp only [Finset.mem_image, receiverOf]
        omega
      simp only [Finset.mem_erase, Finset.mem_union, Finset.mem_insert, Finset.mem_singleton]
      constructor
      · rintro ⟨hzero, hone, (hold | hold) | hworker⟩
        · exact absurd hold hone
        · exact absurd hold hzero
        · exact hworker
      · intro hworker
        have hle := hlow hworker
        exact ⟨by omega, by omega, Or.inr hworker⟩
    simp only [dropped, spawned, create, UInt32.ofNat_toNat, hcount, hreceivers]
    rfl
  rw [heq] at hcreate
  refine ⟨_, hcreate, ?_, ?_⟩
  · rw [Mpmc.sent_snoc, Mpmc.sent_snoc, Mpmc.sent_snoc, Mpmc.sent_snoc, hsent]
    rfl
  · rw [Mpmc.received_snoc, Mpmc.received_snoc, Mpmc.received_snoc, Mpmc.received_snoc, hreceived]
    rfl

/-! ## Histories -/

/-- The value that `execute` or `shutdown` put into the channel. -/
def PoolEvent.accepts : PoolEvent → Option (Option ℕ)
  | .execute task (.ok ()) => some (some task)
  | .marker (.ok ()) => some none
  | _ => none

/-- The value a worker took, with the worker. -/
def PoolEvent.takes : PoolEvent → Option (ℕ × Option ℕ)
  | .recv worker (.returns (.ok value)) => some (worker, value)
  | _ => none

/-- The task that returned. -/
def PoolEvent.finishes : PoolEvent → Option ℕ
  | .ran _ task => some task
  | _ => none

/-- The values put into the channel, in order. -/
def accepted (es : List PoolEvent) : List (Option ℕ) := es.filterMap PoolEvent.accepts

/-- The values taken out, each with the worker that took it, in order. -/
def taken (es : List PoolEvent) : List (ℕ × Option ℕ) := es.filterMap PoolEvent.takes

/-- The tasks that returned, in order. -/
def finished (es : List PoolEvent) : List ℕ := es.filterMap PoolEvent.finishes

/-- What is accepted in a run that goes on. -/
theorem accepted_snoc (es : List PoolEvent) (e : PoolEvent) :
    accepted (es ++ [e]) = accepted es ++ e.accepts.toList := by
  cases h : e.accepts <;> simp [accepted, h]

/-- What is taken in a run that goes on. -/
theorem taken_snoc (es : List PoolEvent) (e : PoolEvent) :
    taken (es ++ [e]) = taken es ++ e.takes.toList := by
  cases h : e.takes <;> simp [taken, h]

/-- What is finished in a run that goes on. -/
theorem finished_snoc (es : List PoolEvent) (e : PoolEvent) :
    finished (es ++ [e]) = finished es ++ e.finishes.toList := by
  cases h : e.finishes <;> simp [finished, h]

/-! ## The pool as a client of the channel -/

/-- A step of the pool leaves the channel alone or is a step of the channel that
    moves the same value. -/
theorem PoolStep.channel {s s' : Pool} {e : PoolEvent} (h : PoolStep s e s') :
    (s'.channel = s.channel ∧ e.accepts = none ∧ e.takes = none) ∨
      ∃ ce, Mpmc.Step s.channel ce s'.channel ∧ ce.sent = e.accepts ∧
        ce.received = e.takes.map Prod.snd := by
  cases h with
  | @execute channel result hstep =>
    refine Or.inr ⟨_, hstep, ?_, rfl⟩
    -- only what the channel took counts as accepted
    rcases result with ⟨⟨⟩⟩ | ⟨⟨⟩⟩ <;> rfl
  | @recv channel i result hi hworker hstep | @resume channel i result hi hworker hstep =>
    refine Or.inr ⟨_, hstep, rfl, ?_⟩
    rcases result with (⟨⟨⟩⟩ | value) | _ <;> rfl
  | wake hstep => exact Or.inr ⟨_, hstep, rfl, rfl⟩
  -- to run a task is no step of the channel
  | ran hi hworker => exact Or.inl ⟨rfl, rfl, rfl⟩
  | exit hi hworker hstep => exact Or.inr ⟨_, hstep, rfl, rfl⟩
  | shutdown hshutdown => exact Or.inl ⟨rfl, rfl, rfl⟩
  | @marker channel sent result hshutdown hsent hstep =>
    refine Or.inr ⟨_, hstep, ?_, rfl⟩
    rcases result with ⟨⟨⟩⟩ | ⟨⟨⟩⟩ <;> rfl
  | markersSent hshutdown => exact Or.inl ⟨rfl, rfl, rfl⟩
  | join hshutdown hjoined hworker => exact Or.inl ⟨rfl, rfl, rfl⟩
  | shutdownReturned hshutdown => exact Or.inl ⟨rfl, rfl, rfl⟩

/-- A run of the pool is a run of its channel. -/
theorem PoolRun.channel {threadCount : UInt32} {es : List PoolEvent} {s : Pool}
    (h : PoolRun threadCount es s) :
    ∃ ces, ChannelRun ces s.channel ∧ Mpmc.sent ces = accepted es ∧
      Mpmc.received ces = (taken es).map Prod.snd := by
  refine h.history (P := fun es s => ∃ ces, ChannelRun ces s.channel ∧
    Mpmc.sent ces = accepted es ∧ Mpmc.received ces = (taken es).map Prod.snd) ?_ ?_
  · -- the handles of the workers are copies made at the start
    exact create_channelRun threadCount
  · rintro es s e s' ⟨ces, hrun, hsent, hreceived⟩ hstep
    rcases hstep.channel with ⟨hsame, haccepts, htakes⟩ | ⟨ce, hchannel, haccepts, htakes⟩
    · refine ⟨ces, hsame ▸ hrun, ?_, ?_⟩
      · simp [accepted_snoc, haccepts, hsent]
      · simp [taken_snoc, htakes, hreceived]
    · refine ⟨ces ++ [ce], hrun.snoc hchannel, ?_, ?_⟩
      · rw [Mpmc.sent_snoc, accepted_snoc, hsent, haccepts]
      · rw [Mpmc.received_snoc, taken_snoc, hreceived, htakes, List.map_append]
        cases e.takes <;> rfl

/-- What was accepted is what was taken, followed by the queue. -/
theorem PoolRun.fifo {threadCount : UInt32} {es : List PoolEvent} {s : Pool}
    (h : PoolRun threadCount es s) :
    accepted es = (taken es).map Prod.snd ++ s.channel.shared.queue := by
  obtain ⟨ces, hrun, hsent, hreceived⟩ := h.channel
  rw [← hsent, ← hreceived]
  exact Mpmc.run_fifo hrun

/-! ## The handles of the pool -/

/-- One sender, and a receiver for each worker that is not finished. -/
structure Pool.Handles (s : Pool) : Prop where
  senders : s.channel.senders = {toWorkers}
  receivers : ∀ handle, handle ∈ s.channel.receivers ↔
    ∃ i < s.threads, handle = receiverOf i ∧ s.workers i ≠ .finished

/-- The pool begins with one handle for each worker. -/
theorem handles_create (threadCount : UInt32) : (create threadCount).Handles := by
  refine ⟨rfl, fun handle => ?_⟩
  simp [create, eq_comm]

/-- A worker that is not finished goes on, and the channel keeps its handles. -/
theorem Pool.Handles.update {s : Pool} (h : s.Handles) {channel : Mpmc.System (Option ℕ)} {i : ℕ}
    {w : Worker} (hi : s.workers i ≠ .finished) (hw : w ≠ .finished)
    (hchannel : channel.senders = s.channel.senders ∧ channel.receivers = s.channel.receivers) :
    ({ s with channel := channel, workers := Function.update s.workers i w } : Pool).Handles := by
  refine ⟨hchannel.1.trans h.senders, fun handle => ?_⟩
  show handle ∈ channel.receivers ↔ _
  rw [hchannel.2, h.receivers]
  have hsame : ∀ j, Function.update s.workers i w j ≠ .finished ↔ s.workers j ≠ .finished := by
    intro j
    by_cases hj : j = i
    · subst hj
      simp [hi, hw]
    · simp [hj]
  simp only [hsame]

/-- A receive does not end a worker. -/
theorem Worker.afterRecv_ne_finished (result : PopResult (Option ℕ)) :
    Worker.afterRecv result ≠ .finished := by
  rcases result with (⟨⟨⟩⟩ | (_ | task)) | _ <;> simp [Worker.afterRecv]

/-- A step keeps the handles of the workers that run. -/
theorem PoolStep.handles {s s' : Pool} {e : PoolEvent} (h : PoolStep s e s') (hs : s.Handles) :
    s'.Handles := by
  cases h with
  | execute hstep | wake hstep | marker _ _ hstep =>
    obtain ⟨hsenders, hreceivers⟩ := hstep.handles trivial
    refine ⟨hsenders.trans hs.senders, fun handle => ?_⟩
    rw [hreceivers]
    exact hs.receivers handle
  | recv hi hworker hstep | resume hi hworker hstep =>
    refine hs.update ?_ (Worker.afterRecv_ne_finished _) (hstep.handles trivial)
    simp [hworker]
  | ran hi hworker => exact hs.update (by simp [hworker]) (by simp) ⟨rfl, rfl⟩
  | @exit channel i hi hworker hstep =>
    cases hstep with
    | dropReceiver hreceiver =>
      refine ⟨hs.senders, fun handle => ?_⟩
      simp only [Finset.mem_erase, hs.receivers]
      constructor
      · -- the handle that is dropped is that of the worker that ends
        rintro ⟨hne, j, hj, rfl, hfinished⟩
        have hji : j ≠ i := fun heq => hne (heq ▸ rfl)
        exact ⟨j, hj, rfl, by simpa [hji] using hfinished⟩
      · rintro ⟨j, hj, rfl, hfinished⟩
        have hji : j ≠ i := by
          rintro rfl
          simp at hfinished
        refine ⟨by simpa [receiverOf] using hji, j, hj, rfl, by simpa [hji] using hfinished⟩
  | shutdown hshutdown => exact ⟨hs.senders, hs.receivers⟩
  | markersSent hshutdown => exact ⟨hs.senders, hs.receivers⟩
  | join hshutdown hjoined hworker => exact ⟨hs.senders, hs.receivers⟩
  | shutdownReturned hshutdown => exact ⟨hs.senders, hs.receivers⟩

/-- So does a run. -/
theorem PoolRun.handles {threadCount : UInt32} {es : List PoolEvent} {s : Pool}
    (h : PoolRun threadCount es s) : s.Handles :=
  h.invariant (handles_create threadCount) fun _ _ _ hs hstep => hstep.handles hs

/-- The number of workers does not change. -/
theorem PoolRun.threads {threadCount : UInt32} {es : List PoolEvent} {s : Pool}
    (h : PoolRun threadCount es s) : s.threads = threadCount.toNat := by
  refine h.invariant (P := fun s => s.threads = threadCount.toNat) rfl ?_
  intro s e s' hs hstep
  cases hstep <;> exact hs

/-- The receivers of a pool are counted exactly. -/
theorem PoolRun.receivers_few {threadCount : UInt32} {es : List PoolEvent} {s : Pool}
    (h : PoolRun threadCount es s) : s.channel.receivers.card < 2 ^ 32 := by
  have hsub : s.channel.receivers ⊆ (Finset.range s.threads).image receiverOf := by
    intro handle hhandle
    obtain ⟨i, hi, rfl, -⟩ := (h.handles.receivers handle).mp hhandle
    exact Finset.mem_image_of_mem _ (Finset.mem_range.mpr hi)
  have hcard := (Finset.card_le_card hsub).trans Finset.card_image_le
  rw [Finset.card_range, h.threads] at hcard
  exact hcard.trans_lt threadCount.toNat_lt

/-- A pass through `recv` does not find the channel closed. -/
theorem PoolRun.not_closed {threadCount : UInt32} {es : List PoolEvent} {s s' : Pool} {i : ℕ}
    {result : PopResult (Option ℕ)} (h : PoolRun threadCount es s)
    (hstep : PoolStep s (.recv i result) s') : result ≠ .returns (.error .closed) := by
  rintro rfl
  obtain ⟨ces, hrun, -, -⟩ := h.channel
  -- `to_workers` is never dropped
  have hcount := (Mpmc.run_counted hrun).producers
  rw [h.handles.senders] at hcount
  have hone : s.channel.shared.producerCount.toNat = 1 := hcount.toNat_eq (by simp)
  have hzero : s.channel.shared.producerCount = 0 := by
    cases hstep with
    | recv hi hworker hrecv => exact (hrecv.reportsClosed trivial).2
    | resume hi hworker hrecv => exact (hrecv.reportsClosed trivial).2
  rw [hzero] at hone
  exact absurd hone (by decide)

/-- No worker ever finds the channel closed, for the pool keeps a sender. -/
theorem PoolRun.closed_not_mem {threadCount : UInt32} {es : List PoolEvent} {s : Pool}
    (h : PoolRun threadCount es s) (worker : ℕ) :
    PoolEvent.recv worker (.returns (.error .closed)) ∉ es := by
  induction h with
  | nil => simp
  | snoc hrun hstep ih =>
    intro hmem
    rcases List.mem_append.mp hmem with hold | hlast
    · exact ih hold
    · rw [← List.mem_singleton.mp hlast] at hstep
      exact PoolRun.not_closed hrun hstep rfl

/-! ## What the workers hold -/

/-- The stop markers a worker took. -/
def Worker.markers : Worker → ℕ
  | .stopping => 1
  | .finished => 1
  | _ => 0

/-- The task a worker has taken and not finished. -/
def Worker.tasks : Worker → Multiset ℕ
  | .running task => {task}
  | _ => 0

/-- The tasks all workers have taken and not finished. -/
def Pool.running (s : Pool) : Multiset ℕ := ∑ i ∈ Finset.range s.threads, (s.workers i).tasks

/-- A worker changes its state. -/
theorem running_update {n i : ℕ} (hi : i < n) (workers : ℕ → Worker) (w : Worker) :
    (∑ j ∈ Finset.range n, (Function.update workers i w j).tasks) + (workers i).tasks =
      (∑ j ∈ Finset.range n, (workers j).tasks) + w.tasks := by
  have hmem : i ∈ Finset.range n := Finset.mem_range.mpr hi
  have hothers : ∑ j ∈ (Finset.range n).erase i, (Function.update workers i w j).tasks =
      ∑ j ∈ (Finset.range n).erase i, (workers j).tasks := by
    refine Finset.sum_congr rfl fun j hj => ?_
    rw [Function.update_of_ne (Finset.ne_of_mem_erase hj)]
  rw [← Finset.add_sum_erase _ _ hmem, ← Finset.add_sum_erase _ (fun j => (workers j).tasks) hmem,
    hothers, Function.update_self]
  -- the same three parts on both sides
  abel

/-- A worker holds a marker from when it takes one. -/
theorem PoolStep.markers {s s' : Pool} {e : PoolEvent} (h : PoolStep s e s') (j : ℕ) :
    (s'.workers j).markers =
      (s.workers j).markers + if e.takes = some (j, none) then 1 else 0 := by
  -- the worker that receives gains a marker if it takes one
  have hrecv : ∀ {i : ℕ} {result : PopResult (Option ℕ)}, (s.workers i).markers = 0 →
      (Function.update s.workers i (.afterRecv result) j).markers = (s.workers j).markers +
        if (PoolEvent.recv i result).takes = some (j, none) then 1 else 0 := by
    intro i result hi
    by_cases hj : j = i
    · subst hj
      rw [hi, Function.update_self, Nat.zero_add]
      rcases result with (⟨⟨⟩⟩ | (_ | task)) | _ <;>
        simp [Worker.afterRecv, Worker.markers, PoolEvent.takes]
    · have hne : (PoolEvent.recv i result).takes ≠ some (j, none) := by
        rcases result with (⟨⟨⟩⟩ | value) | _ <;> simp [PoolEvent.takes, Ne.symm hj]
      rw [Function.update_of_ne hj, if_neg hne, Nat.add_zero]
  -- any other step leaves the markers where they are
  have hkeep : ∀ {i : ℕ} {w : Worker}, (s.workers i).markers = w.markers →
      (Function.update s.workers i w j).markers = (s.workers j).markers := by
    intro i w hi
    by_cases hj : j = i
    · subst hj
      simp [hi]
    · simp [hj]
  cases h with
  | recv hi hworker hstep => exact hrecv (by simp [hworker, Worker.markers])
  | resume hi hworker hstep => exact hrecv (by simp [hworker, Worker.markers])
  | ran hi hworker => exact hkeep (by simp [hworker, Worker.markers])
  | exit hi hworker hstep => exact hkeep (by simp [hworker, Worker.markers])
  | _ => simp [PoolEvent.takes]

/-- A task runs from when it is taken until it is finished. -/
theorem PoolStep.running {s s' : Pool} {e : PoolEvent} (h : PoolStep s e s') :
    s'.running + e.finishes.toList = s.running + (e.takes.bind Prod.snd).toList := by
  cases h with
  | @recv channel i result hi hworker hstep | @resume channel i result hi hworker hstep =>
    have hupdate := running_update hi s.workers (.afterRecv result)
    have hnone : (s.workers i).tasks = 0 := by simp [hworker, Worker.tasks]
    have htask : (Worker.afterRecv result).tasks =
        (((PoolEvent.recv i result).takes.bind Prod.snd).toList : Multiset ℕ) := by
      rcases result with (⟨⟨⟩⟩ | (_ | task)) | _ <;> rfl
    rw [hnone, add_zero, htask] at hupdate
    simpa [Pool.running, PoolEvent.finishes] using hupdate
  | @ran i task hi hworker =>
    -- the task of the worker is finished, so it leaves the running ones
    have hupdate := running_update hi s.workers .ready
    have htask : (s.workers i).tasks = {task} := by simp [hworker, Worker.tasks]
    rw [htask] at hupdate
    simpa [Pool.running, PoolEvent.finishes, PoolEvent.takes, Worker.tasks] using hupdate
  | @exit channel i hi hworker hstep =>
    have hupdate := running_update hi s.workers .finished
    have hnone : (s.workers i).tasks = 0 := by simp [hworker, Worker.tasks]
    rw [hnone, add_zero] at hupdate
    simpa [Pool.running, PoolEvent.finishes, PoolEvent.takes, Worker.tasks] using hupdate
  | _ => simp [Pool.running, PoolEvent.finishes, PoolEvent.takes]

/-- A task is accepted under the number of its call. -/
theorem PoolStep.number {s s' : Pool} {e : PoolEvent} (h : PoolStep s e s') :
    s.submitted ≤ s'.submitted ∧
      ∀ task, e.accepts = some (some task) → task = s.submitted ∧ s'.submitted = task + 1 := by
  cases h with
  | @execute channel result hstep =>
    refine ⟨Nat.le_succ _, fun task htask => ?_⟩
    rcases result with ⟨⟨⟩⟩ | ⟨⟨⟩⟩
    · simp [PoolEvent.accepts] at htask
    · obtain rfl : s.submitted = task := by simpa [PoolEvent.accepts] using htask
      exact ⟨rfl, rfl⟩
  | @marker channel sent result hshutdown hsent hstep =>
    refine ⟨Nat.le_refl _, fun task htask => ?_⟩
    rcases result with ⟨⟨⟩⟩ | ⟨⟨⟩⟩ <;> simp [PoolEvent.accepts] at htask
  | _ => exact ⟨Nat.le_refl _, by simp [PoolEvent.accepts]⟩

/-- Where the taken values are. -/
structure Accounted (es : List PoolEvent) (s : Pool) : Prop where
  markers : ∀ i, (taken es).count (i, none) = (s.workers i).markers
  tasks : (((taken es).filterMap Prod.snd : List ℕ) : Multiset ℕ) = finished es + s.running
  distinct : ((accepted es).filterMap id).Nodup
  numbers : ∀ task ∈ (accepted es).filterMap id, task < s.submitted

/-- Nothing is taken at first. -/
theorem accounted_create (threadCount : UInt32) : Accounted [] (create threadCount) := by
  refine ⟨fun i => rfl, ?_, List.nodup_nil, by simp [accepted]⟩
  simp [taken, finished, Pool.running, create, Worker.tasks]

/-- A step keeps the account. -/
theorem PoolStep.accounted {es : List PoolEvent} {s s' : Pool} {e : PoolEvent}
    (h : PoolStep s e s') (hacc : Accounted es s) : Accounted (es ++ [e]) s' := by
  obtain ⟨hmarkers, htasks, hdistinct, hnumbers⟩ := hacc
  obtain ⟨hle, hnumber⟩ := h.number
  -- an accepted marker is not a task
  have haccepted : (accepted (es ++ [e])).filterMap id =
      (accepted es).filterMap id ++ (e.accepts.bind id).toList := by
    rw [accepted_snoc, List.filterMap_append]
    rcases e.accepts with _ | _ | task <;> rfl
  refine ⟨fun i => ?_, ?_, ?_, ?_⟩
  · rw [taken_snoc, List.count_append, hmarkers, h.markers i]
    congr 1
    cases htakes : e.takes with
    | none => simp
    | some p =>
      simp only [Option.toList_some, List.count_singleton, beq_iff_eq, Option.some.injEq]
  · have hrunning := h.running
    have hsplit : (((taken (es ++ [e])).filterMap Prod.snd : List ℕ) : Multiset ℕ) =
        ((taken es).filterMap Prod.snd : List ℕ) + (e.takes.bind Prod.snd).toList := by
      rw [taken_snoc, List.filterMap_append, ← Multiset.coe_add]
      rcases e.takes with _ | ⟨i, _ | task⟩ <;> rfl
    rw [hsplit, htasks, finished_snoc, ← Multiset.coe_add, add_assoc, ← hrunning]
    abel
  · rw [haccepted]
    cases haccepts : e.accepts.bind id with
    | none => simpa using hdistinct
    | some task =>
      obtain ⟨rfl, -⟩ := hnumber task (by simpa [Option.bind_eq_some_iff] using haccepts)
      -- the number is above all earlier ones
      rw [Option.toList_some, List.nodup_append]
      refine ⟨hdistinct, by simp, fun t ht t' ht' => ?_⟩
      rw [List.mem_singleton.mp ht']
      exact (hnumbers t ht).ne
  · rw [haccepted]
    intro task htask
    rcases List.mem_append.mp htask with hold | hnew
    · exact (hnumbers task hold).trans_le hle
    · have hsome : e.accepts = some (some task) := by
        simpa [Option.bind_eq_some_iff] using hnew
      obtain ⟨-, hnext⟩ := hnumber task hsome
      omega

/-- So does a run. -/
theorem PoolRun.accounted {threadCount : UInt32} {es : List PoolEvent} {s : Pool}
    (h : PoolRun threadCount es s) : Accounted es s :=
  h.history (accounted_create threadCount) fun _ _ _ _ hacc hstep => hstep.accounted hacc

/-! ## Shutdown -/

/-- A finished worker does nothing more. -/
theorem PoolStep.finished_stays {s s' : Pool} {e : PoolEvent} (h : PoolStep s e s') {i : ℕ}
    (hi : s.workers i = .finished) : s'.workers i = .finished := by
  have hother : ∀ {j : ℕ} {w : Worker}, s.workers j ≠ .finished →
      Function.update s.workers j w i = .finished := by
    intro j w hj
    have hne : i ≠ j := by
      rintro rfl
      exact hj hi
    simp [hne, hi]
  cases h with
  | recv _ hworker _ | resume _ hworker _ => exact hother (by simp [hworker])
  | ran _ hworker => exact hother (by simp [hworker])
  | exit _ hworker _ => exact hother (by simp [hworker])
  | _ => exact hi

/-- The workers joined so far are finished. -/
def Pool.Joined (s : Pool) : Prop :=
  match s.shutdown with
  | .joining joined => ∀ i < joined, s.workers i = .finished
  | .returned => ∀ i < s.threads, s.workers i = .finished
  | _ => True

/-- A worker that was joined has finished. -/
theorem PoolStep.joined {s s' : Pool} {e : PoolEvent} (h : PoolStep s e s') (hs : s.Joined) :
    s'.Joined := by
  have hstays := fun i => h.finished_stays (i := i)
  have hsame : s'.shutdown = s.shutdown → s'.threads = s.threads → s'.Joined := by
    intro hshutdown hthreads
    unfold Pool.Joined at hs ⊢
    rw [hshutdown, hthreads]
    -- a worker that has finished stays finished
    cases hphase : s.shutdown with
    | notCalled => trivial
    | sending sent => trivial
    | joining joined =>
      rw [hphase] at hs
      exact fun i hi => hstays i (hs i hi)
    | returned =>
      rw [hphase] at hs
      exact fun i hi => hstays i (hs i hi)
  cases h with
  | shutdown hshutdown => trivial
  | marker hshutdown hsent hstep => trivial
  | markersSent hshutdown => exact fun i hi => absurd hi (Nat.not_lt_zero i)
  | @join joined hshutdown hjoined hworker =>
    unfold Pool.Joined at hs
    rw [hshutdown] at hs
    intro i hi
    -- the worker that was joined now, and those before it
    rcases Nat.lt_succ_iff_lt_or_eq.mp hi with hlt | rfl
    · exact hs i hlt
    · exact hworker
  | shutdownReturned hshutdown =>
    unfold Pool.Joined at hs
    rw [hshutdown] at hs
    exact hs
  | _ => exact hsame rfl rfl

/-- The joins of `shutdown` have all returned. -/
def Pool.AllJoined (s : Pool) : Prop := s.shutdown = .joining s.threads ∨ s.shutdown = .returned

/-- Once all are joined all have finished. -/
theorem PoolRun.all_finished {threadCount : UInt32} {es : List PoolEvent} {s : Pool}
    (h : PoolRun threadCount es s) (hjoined : s.AllJoined) :
    ∀ i < s.threads, s.workers i = .finished := by
  have hs : s.Joined := h.invariant (P := Pool.Joined) trivial fun _ _ _ hs hstep => hstep.joined hs
  unfold Pool.Joined at hs
  rcases hjoined with hshutdown | hshutdown
  · rwa [hshutdown] at hs
  · rwa [hshutdown] at hs

/-- The channel refuses a value when no worker is left. -/
theorem PoolRun.send_closed_iff {threadCount : UInt32} {es : List PoolEvent} {s : Pool}
    {channel : Mpmc.System (Option ℕ)} {value : Option ℕ} {result : Except Closed Unit}
    (h : PoolRun threadCount es s)
    (hsend : Mpmc.Step s.channel (.send toWorkers value result) channel) :
    result = .error .closed ↔ ∀ i < s.threads, s.workers i = .finished := by
  obtain ⟨ces, hrun, -, -⟩ := h.channel
  -- a worker has its handle until it finishes
  have hreceivers : s.channel.receivers = ∅ ↔ ∀ i < s.threads, s.workers i = .finished := by
    rw [Finset.eq_empty_iff_forall_notMem]
    simp only [h.handles.receivers]
    constructor
    · intro hnone i hi
      by_contra hworker
      exact hnone (receiverOf i) ⟨i, hi, rfl, hworker⟩
    · rintro hall handle ⟨i, hi, -, hworker⟩
      exact hworker (hall i hi)
  rw [← hreceivers]
  exact hsend.send_closed_iff (Mpmc.run_counted hrun) h.receivers_few

/-- `execute` is refused when no worker is left. -/
theorem PoolRun.execute_closed_iff {threadCount : UInt32} {es : List PoolEvent} {s s' : Pool}
    {task : ℕ} {result : Except Closed Unit} (h : PoolRun threadCount es s)
    (hstep : PoolStep s (.execute task result) s') :
    result = .error .closed ↔ ∀ i < s.threads, s.workers i = .finished := by
  cases hstep with
  | execute hsend => exact h.send_closed_iff hsend

/-- A pool whose workers are finished runs nothing. -/
theorem running_eq_zero {s : Pool} (hall : ∀ i < s.threads, s.workers i = .finished) :
    s.running = 0 := by
  unfold Pool.running
  refine Finset.sum_eq_zero fun i hi => ?_
  rw [hall i (Finset.mem_range.mp hi)]
  rfl

/-- `execute` is not called while `shutdown` runs. -/
def Orderly (es : List PoolEvent) : Prop :=
  ∀ pre task result post, es = pre ++ .execute task result :: post →
    .shutdownCalled ∈ pre → .shutdownReturned ∈ pre

/-- The beginning of an orderly run is orderly. -/
theorem Orderly.of_append {es es' : List PoolEvent} (h : Orderly (es ++ es')) : Orderly es :=
  fun pre task result post hsplit =>
    h pre task result (post ++ es') (by rw [hsplit, List.append_assoc, List.cons_append])

/-- The events tell how far `shutdown` is. -/
structure PhaseOf (es : List PoolEvent) (s : Pool) : Prop where
  called : .shutdownCalled ∈ es ↔ s.shutdown ≠ .notCalled
  returned : .shutdownReturned ∈ es ↔ s.shutdown = .returned

/-- The phase of `shutdown` is that of the events. -/
theorem PoolRun.phaseOf {threadCount : UInt32} {es : List PoolEvent} {s : Pool}
    (h : PoolRun threadCount es s) : PhaseOf es s := by
  refine h.history (P := PhaseOf) ⟨by simp [create], by simp [create]⟩ ?_
  rintro es s e s' ⟨hcalled, hreturned⟩ hstep
  cases hstep with
  | shutdown hshutdown => exact ⟨by simp, by simp [hreturned, hshutdown]⟩
  | marker hshutdown hsent hsend =>
    exact ⟨by simp [hcalled, hshutdown], by simp [hreturned, hshutdown]⟩
  | markersSent hshutdown => exact ⟨by simp [hcalled, hshutdown], by simp [hreturned, hshutdown]⟩
  | join hshutdown hjoined hworker =>
    exact ⟨by simp [hcalled, hshutdown], by simp [hreturned, hshutdown]⟩
  | shutdownReturned hshutdown => exact ⟨by simp [hcalled, hshutdown], by simp⟩
  | _ => exact ⟨by simpa using hcalled, by simpa using hreturned⟩

/-- Before `shutdown` is called every task is accepted. -/
theorem PoolRun.execute_ok {threadCount : UInt32} {es : List PoolEvent} {s s' : Pool} {task : ℕ}
    {result : Except Closed Unit} (h : PoolRun threadCount es s) (hcount : 0 < threadCount.toNat)
    (hmarkers : none ∉ accepted es) (hstep : PoolStep s (.execute task result) s') :
    result = .ok () := by
  rcases hresult : result with ⟨⟨⟩⟩ | ⟨⟨⟩⟩
  · -- a finished worker took a stop marker
    have hfinished := (h.execute_closed_iff hstep).mp hresult 0 (h.threads ▸ hcount)
    have hmarker := h.accounted.markers 0
    rw [hfinished] at hmarker
    have hmem : ((0, none) : ℕ × Option ℕ) ∈ taken es := by
      apply List.count_pos_iff.mp
      rw [hmarker]
      exact Nat.one_pos
    refine absurd ?_ hmarkers
    rw [h.fifo]
    exact List.mem_append_left _ (List.mem_map_of_mem (f := Prod.snd) hmem)
  · rfl

/-- All tasks are in front of the stop markers. -/
theorem PoolRun.split {threadCount : UInt32} {es : List PoolEvent} {s : Pool}
    (h : PoolRun threadCount es s) (horder : Orderly es) :
    ∃ tasks : List ℕ, ∃ k, accepted es = tasks.map some ++ List.replicate k none ∧
      (s.shutdown = .notCalled → k = 0) := by
  induction h with
  | nil => exact ⟨[], 0, rfl, fun _ => rfl⟩
  | @snoc es s s' e hrun hstep ih =>
    obtain ⟨tasks, k, hsplit, hnotCalled⟩ := ih horder.of_append
    -- a step that gives the channel nothing keeps the split
    have hquiet : e.accepts = none → (s'.shutdown = .notCalled → s.shutdown = .notCalled) →
        ∃ tasks : List ℕ, ∃ k, accepted (es ++ [e]) = tasks.map some ++ List.replicate k none ∧
          (s'.shutdown = .notCalled → k = 0) := by
      intro haccepts hphase
      exact ⟨tasks, k, by simp [accepted_snoc, haccepts, hsplit], hnotCalled ∘ hphase⟩
    have hphases := PoolRun.phaseOf hrun
    have hstep' := hstep
    cases hstep with
    | @execute channel result hsend =>
      rcases result with ⟨⟨⟩⟩ | ⟨⟨⟩⟩
      · exact hquiet rfl id
      · -- an accepted task comes before `shutdown` is called
        have hphase : s.shutdown = .notCalled := by
          by_contra hcalled
          have hreturned := hphases.returned.mp
            (horder es _ _ [] rfl (hphases.called.mpr hcalled))
          have hclosed := (PoolRun.execute_closed_iff hrun hstep').mpr
            (PoolRun.all_finished hrun (Or.inr hreturned))
          cases hclosed
        obtain rfl := hnotCalled hphase
        refine ⟨tasks ++ [s.submitted], 0, ?_, fun _ => rfl⟩
        rw [accepted_snoc, hsplit]
        simp [PoolEvent.accepts]
    | @marker channel sent result hshutdown hsent hsend =>
      rcases result with ⟨⟨⟩⟩ | ⟨⟨⟩⟩
      · exact hquiet rfl (by simp)
      · -- a marker goes behind the others
        refine ⟨tasks, k + 1, ?_, by simp⟩
        rw [accepted_snoc, hsplit, List.replicate_succ', ← List.append_assoc]
        rfl
    | shutdown hshutdown => exact hquiet rfl (by simp)
    | markersSent hshutdown => exact hquiet rfl (by simp)
    | join hshutdown hjoined hworker => exact hquiet rfl (by simp)
    | shutdownReturned hshutdown => exact hquiet rfl (by simp)
    | _ => exact hquiet rfl id

/-- Once a stop marker is taken, every task was. -/
theorem tasks_of_marker {taken queue : List (Option ℕ)} {tasks : List ℕ} {k : ℕ}
    (h : tasks.map some ++ List.replicate k none = taken ++ queue) (hmarker : none ∈ taken) :
    taken.filterMap id = tasks := by
  rcases List.append_eq_append_iff.mp h with ⟨rest, rfl, hrest⟩ | ⟨rest, htasks, -⟩
  · -- what was taken behind the tasks are markers
    have hnone : rest.filterMap id = [] := by
      refine List.filterMap_eq_nil_iff.mpr fun value hvalue => ?_
      have hmem : value ∈ List.replicate k none := hrest ▸ List.mem_append_left queue hvalue
      rw [List.eq_of_mem_replicate hmem]
      rfl
    rw [List.filterMap_append, hnone, List.append_nil]
    simp
  · have hmem : none ∈ tasks.map some := htasks ▸ List.mem_append_left rest hmarker
    simp at hmem

/-- The pool runs every task once and stops every worker once. -/
theorem pool_runs_once {threadCount : UInt32} {es : List PoolEvent} {s : Pool}
    (hcount : 0 < threadCount.toNat) (h : PoolRun threadCount es s) (horder : Orderly es) :
    ((taken es).filterMap Prod.snd).Nodup ∧ (finished es).Nodup ∧
    (∀ worker, PoolEvent.recv worker (.returns (.error .closed)) ∉ es) ∧
    (s.shutdown = .notCalled → ∀ task result s', PoolStep s (.execute task result) s' →
      result = .ok ()) ∧
    (s.AllJoined →
      (∀ task, .execute task (.ok ()) ∈ es → (finished es).count task = 1) ∧
      (∀ worker < threadCount.toNat, (taken es).count (worker, none) = 1) ∧
      ∀ task result s', PoolStep s (.execute task result) s' → result = .error .closed) := by
  have hacc := h.accounted
  have hfifo := h.fifo
  obtain ⟨tasks, k, hsplit, hnotCalled⟩ := h.split horder
  have hpairs : ((taken es).map Prod.snd).filterMap id = (taken es).filterMap Prod.snd := by
    rw [List.filterMap_map]
    rfl
  -- the numbers taken are the first ones accepted
  have hdistinct : ((taken es).filterMap Prod.snd).Nodup := by
    have hall := hacc.distinct
    rw [hfifo, List.filterMap_append, hpairs] at hall
    exact (List.nodup_append.mp hall).1
  -- a task is finished by the worker that took it
  have hfinished : (finished es).Nodup := by
    have hle : (finished es : Multiset ℕ) ≤ ((taken es).filterMap Prod.snd : List ℕ) := by
      rw [hacc.tasks]
      exact Multiset.le_add_right _ _
    exact Multiset.coe_nodup.mp (Multiset.nodup_of_le hle (Multiset.coe_nodup.mpr hdistinct))
  refine ⟨hdistinct, hfinished, h.closed_not_mem, fun hphase task result s' hstep => ?_,
    fun hjoined => ?_⟩
  · refine h.execute_ok hcount ?_ hstep
    rw [hsplit, hnotCalled hphase]
    simp
  · have hall := h.all_finished hjoined
    rw [h.threads] at hall
    -- each worker has taken the marker it ended on
    have hmarkers : ∀ worker < threadCount.toNat, (taken es).count (worker, none) = 1 := by
      intro worker hworker
      rw [hacc.markers, hall worker hworker]
      rfl
    refine ⟨fun task htask => ?_, hmarkers, fun task result s' hstep => ?_⟩
    · -- no worker holds a task any more
      have hnobody : s.running = 0 := running_eq_zero (by rwa [h.threads])
      have hmarker : none ∈ (taken es).map Prod.snd := by
        have hpos : 0 < (taken es).count (0, none) := by
          rw [hmarkers 0 hcount]
          exact Nat.one_pos
        exact List.mem_map_of_mem (f := Prod.snd) (List.count_pos_iff.mp hpos)
      have htaken := tasks_of_marker (hsplit.symm.trans hfifo) hmarker
      -- an accepted task is in front of the markers
      have hmem : task ∈ tasks := by
        have haccepted : some task ∈ accepted es := List.mem_filterMap.mpr ⟨_, htask, rfl⟩
        rw [hsplit, List.mem_append] at haccepted
        rcases haccepted with hin | hin
        · simpa using hin
        · exact absurd (List.eq_of_mem_replicate hin) (by simp)
      have hperm := hacc.tasks
      rw [hnobody, add_zero, Multiset.coe_eq_coe] at hperm
      rw [← hperm.count_eq, List.count_eq_one_of_mem hdistinct]
      rw [← hpairs, htaken]
      exact hmem
    · exact (h.execute_closed_iff hstep).mpr (by rwa [h.threads])

/-- Worker 1 is blocked when the tasks come, and wakes; the second task ends before the first. -/
def overtaking : List PoolEvent :=
  [.recv 1 .waits, .execute 0 (.ok ()), .execute 1 (.ok ())] ++
    [.recv 1 (.returns (.ok (some 0))), .recv 0 (.returns (.ok (some 1)))] ++
    [.shutdownCalled, .marker (.ok ()), .marker (.ok ()), .markersSent] ++
    [.ran 0 1, .ran 1 0] ++
    [.recv 1 (.returns (.ok none)), .recv 0 (.returns (.ok none)), .exited 1, .exited 0] ++
    [.joined 0, .joined 1, .shutdownReturned]

/-- The pool can do all this. -/
theorem overtaking_run : ∃ s, PoolRun 2 overtaking s ∧ s.shutdown = .returned := by
  have hwaits : PoolRun 2 [.recv 1 .waits] _ :=
    .snoc .nil (.recv (by decide) rfl (.recv (by decide)))
  have hwoken : PoolRun 2 [.recv 1 .waits, .execute 0 (.ok ())] _ :=
    .snoc hwaits (.execute (.send (some 0) (by decide) (.one _ (receiverOf 1) (by decide))))
  have hexecuted : PoolRun 2 [.recv 1 .waits, .execute 0 (.ok ()), .execute 1 (.ok ())] _ :=
    .snoc hwoken (.execute (.send (some 1) (by decide) (.nobody _ (by decide))))
  -- each worker takes one of the two tasks
  have htaken : PoolRun 2 ([.recv 1 .waits, .execute 0 (.ok ()), .execute 1 (.ok ())] ++
      [.recv 1 (.returns (.ok (some 0))), .recv 0 (.returns (.ok (some 1)))]) _ :=
    .snoc (.snoc hexecuted (.resume (by decide) rfl (.resume (by decide))))
      (.recv (by decide) rfl (.recv (by decide)))
  -- the markers are sent while both tasks run
  have hmarkers : PoolRun 2 ([.recv 1 .waits, .execute 0 (.ok ()), .execute 1 (.ok ())] ++
      [.recv 1 (.returns (.ok (some 0))), .recv 0 (.returns (.ok (some 1)))] ++
      [.shutdownCalled, .marker (.ok ()), .marker (.ok ()), .markersSent]) _ :=
    .snoc (.snoc (.snoc (.snoc htaken (.shutdown rfl))
      (.marker rfl (by decide) (.send none (by decide) (.nobody _ (by decide)))))
      (.marker rfl (by decide) (.send none (by decide) (.nobody _ (by decide))))) (.markersSent rfl)
  have hran : PoolRun 2 ([.recv 1 .waits, .execute 0 (.ok ()), .execute 1 (.ok ())] ++
      [.recv 1 (.returns (.ok (some 0))), .recv 0 (.returns (.ok (some 1)))] ++
      [.shutdownCalled, .marker (.ok ()), .marker (.ok ()), .markersSent] ++
      [.ran 0 1, .ran 1 0]) _ :=
    .snoc (.snoc hmarkers (.ran (by decide) rfl)) (.ran (by decide) rfl)
  -- each takes its marker, and leaves
  have hexited : PoolRun 2 ([.recv 1 .waits, .execute 0 (.ok ()), .execute 1 (.ok ())] ++
      [.recv 1 (.returns (.ok (some 0))), .recv 0 (.returns (.ok (some 1)))] ++
      [.shutdownCalled, .marker (.ok ()), .marker (.ok ()), .markersSent] ++
      [.ran 0 1, .ran 1 0] ++
      [.recv 1 (.returns (.ok none)), .recv 0 (.returns (.ok none)), .exited 1, .exited 0]) _ :=
    .snoc (.snoc (.snoc (.snoc hran (.recv (by decide) rfl (.recv (by decide))))
      (.recv (by decide) rfl (.recv (by decide))))
      (.exit (by decide) rfl (.dropReceiver (by decide))))
      (.exit (by decide) rfl (.dropReceiver (by decide)))
  have hreturned : PoolRun 2 overtaking _ :=
    .snoc (.snoc (.snoc hexited (.join rfl (by decide) rfl)) (.join rfl (by decide) rfl))
      (.shutdownReturned rfl)
  exact ⟨_, hreturned, rfl⟩

/-- Both calls of `execute` stand before the one of `shutdown`. -/
theorem orderly_overtaking : Orderly overtaking := by
  intro pre task result post hsplit hcalled
  rcases pre with _ | ⟨e₁, _ | ⟨e₂, _ | ⟨e₃, pre⟩⟩⟩
  · simp at hcalled
  · cases hsplit
    simp at hcalled
  · cases hsplit
    simp at hcalled
  · simp only [overtaking, List.cons_append, List.nil_append, List.cons.injEq] at hsplit
    have hmem : PoolEvent.execute task result ∈ pre ++ .execute task result :: post := by simp
    rw [← hsplit.2.2.2] at hmem
    simp at hmem

/-- Both tasks run once, both workers take one marker, and a later task is refused. -/
theorem pool_runs_once_overtaking : ∃ s, PoolRun 2 overtaking s ∧ s.shutdown = .returned ∧
    finished overtaking = [1, 0] ∧ (taken overtaking).count (0, none) = 1 ∧
    (taken overtaking).count (1, none) = 1 ∧
    ∀ task result s', PoolStep s (.execute task result) s' → result = .error .closed := by
  obtain ⟨s, hrun, hreturned⟩ := overtaking_run
  obtain ⟨-, -, -, -, hjoined⟩ := pool_runs_once (by decide) hrun orderly_overtaking
  obtain ⟨-, hmarkers, hlate⟩ := hjoined (Or.inr hreturned)
  exact ⟨s, hrun, hreturned, rfl, hmarkers 0 (by decide), hmarkers 1 (by decide), hlate⟩

end Webserv.StaticThreadPool
