import Mathlib.Algebra.Group.Nat.Defs
import Mathlib.Data.Finset.Image
import Mathlib.Data.Finset.Range
import Mathlib.Logic.Function.Basic
import Webserv.Native.MpmcQueue

/-!
# The static thread pool

`StaticThreadPool` hands its tasks to the workers through one MPMC channel, and
`shutdown` sends a `std::nullopt` for each worker through the same channel.
`PoolStep` lets the workers, the callers of `execute` and the caller of
`shutdown` take their steps in any order; each step on the channel is a step of
`Mpmc.Step`.

Tasks are numbered in the order of the `execute` calls and return normally.
-/

namespace Webserv.StaticThreadPool

open Mpmc (Closed PopResult)

/-- Where the thread of a worker stands. -/
inductive Worker where
  /-- In front of `tasks.recv()`. -/
  | ready
  /-- Blocked in `tasks.recv()`. -/
  | receiving
  | running (task : ℕ)
  /-- Behind the `break`; the closure still holds the receiver. -/
  | stopping
  /-- The closure is destroyed, and `join` returns. -/
  | finished
  /-- `mpmc closed in static thread pool` -/
  | threw
deriving DecidableEq

/-- How the loop of a worker goes on behind `recv`. -/
def Worker.afterRecv : PopResult (Option ℕ) → Worker
  | .waits => .receiving
  -- a `std::logic_error` in a thread: nobody catches it
  | .returns (.error .closed) => .threw
  -- the marker of `shutdown`
  | .returns (.ok none) => .stopping
  | .returns (.ok (some task)) => .running task

/-- Where `shutdown` stands. -/
inductive Shutdown where
  | notCalled
  /-- So many stop markers are sent. -/
  | sending (sent : ℕ)
  /-- So many workers are joined. -/
  | joining (joined : ℕ)
  | returned
deriving DecidableEq

/-- A pool in use. -/
structure Pool where
  channel : Mpmc.System (Option ℕ)
  /-- `workers.size()` -/
  threads : ℕ
  workers : ℕ → Worker := fun _ => .ready
  shutdown : Shutdown := .notCalled
  /-- Number of calls of `execute`. -/
  submitted : ℕ := 0

/-- The handle `to_workers`; 0 and 1 are the one of `create` and the parameter. -/
def toWorkers : ℕ := 2

/-- The handle in the closure of a worker. -/
def receiverOf (worker : ℕ) : ℕ := worker + 2

/-- `create(thread_count)` -/
def create (threadCount : UInt32) : Pool where
  channel :=
    -- the two handles of `create` are dropped again, its parameters too
    { shared := { consumderCount := threadCount }
      senders := {toWorkers}
      receivers := (Finset.range threadCount.toNat).image receiverOf }
  threads := threadCount.toNat

/-- What a step did. -/
inductive PoolEvent where
  /-- `execute` throws if the result is `closed`. -/
  | execute (task : ℕ) (result : Except Closed Unit)
  /-- A pass of a worker through `recv`. -/
  | recv (worker : ℕ) (result : PopResult (Option ℕ))
  | wake (worker : ℕ)
  /-- A task returned. -/
  | ran (worker : ℕ) (task : ℕ)
  | exited (worker : ℕ)
  | shutdownCalled
  /-- `shutdown` sent a `std::nullopt`; it does not look at the result. -/
  | marker (result : Except Closed Unit)
  | markersSent
  | joined (worker : ℕ)
  | shutdownReturned

/-- A step of a worker, of a caller of `execute`, or of the caller of `shutdown`. -/
inductive PoolStep : Pool → PoolEvent → Pool → Prop where
  | execute {s : Pool} {channel : Mpmc.System (Option ℕ)} {result : Except Closed Unit}
      (h : Mpmc.Step s.channel (.send toWorkers (some s.submitted) result) channel) :
      PoolStep s (.execute s.submitted result)
        { s with channel := channel, submitted := s.submitted + 1 }
  | recv {s : Pool} {channel : Mpmc.System (Option ℕ)} {i : ℕ} {result : PopResult (Option ℕ)}
      (hi : i < s.threads) (hworker : s.workers i = .ready)
      (h : Mpmc.Step s.channel (.recv (receiverOf i) result) channel) :
      PoolStep s (.recv i result)
        { s with channel := channel, workers := Function.update s.workers i (.afterRecv result) }
  | resume {s : Pool} {channel : Mpmc.System (Option ℕ)} {i : ℕ} {result : PopResult (Option ℕ)}
      (hi : i < s.threads) (hworker : s.workers i = .receiving)
      (h : Mpmc.Step s.channel (.resume (receiverOf i) result) channel) :
      PoolStep s (.recv i result)
        { s with channel := channel, workers := Function.update s.workers i (.afterRecv result) }
  | wake {s : Pool} {channel : Mpmc.System (Option ℕ)} {i : ℕ}
      (h : Mpmc.Step s.channel (.wake (receiverOf i)) channel) :
      PoolStep s (.wake i) { s with channel := channel }
  -- the loop of the worker begins again
  | ran {s : Pool} {i task : ℕ} (hi : i < s.threads) (hworker : s.workers i = .running task) :
      PoolStep s (.ran i task) { s with workers := Function.update s.workers i .ready }
  -- the receiver goes with the closure of the thread
  | exit {s : Pool} {channel : Mpmc.System (Option ℕ)} {i : ℕ} (hi : i < s.threads)
      (hworker : s.workers i = .stopping)
      (h : Mpmc.Step s.channel (.dropReceiver (receiverOf i)) channel) :
      PoolStep s (.exited i)
        { s with channel := channel, workers := Function.update s.workers i .finished }
  | shutdown {s : Pool} (hshutdown : s.shutdown = .notCalled) :
      PoolStep s .shutdownCalled { s with shutdown := .sending 0 }
  | marker {s : Pool} {channel : Mpmc.System (Option ℕ)} {sent : ℕ} {result : Except Closed Unit}
      (hshutdown : s.shutdown = .sending sent) (hsent : sent < s.threads)
      (h : Mpmc.Step s.channel (.send toWorkers none result) channel) :
      PoolStep s (.marker result)
        { s with channel := channel, shutdown := .sending (sent + 1) }
  | markersSent {s : Pool} (hshutdown : s.shutdown = .sending s.threads) :
      PoolStep s .markersSent { s with shutdown := .joining 0 }
  -- the workers are joined in their order, so one that is slow holds up the rest
  | join {s : Pool} {joined : ℕ} (hshutdown : s.shutdown = .joining joined)
      (hjoined : joined < s.threads) (hworker : s.workers joined = .finished) :
      PoolStep s (.joined joined) { s with shutdown := .joining (joined + 1) }
  | shutdownReturned {s : Pool} (hshutdown : s.shutdown = .joining s.threads) :
      PoolStep s .shutdownReturned { s with shutdown := .returned }

/-- A run of a pool of `threadCount` workers. -/
def PoolRun (threadCount : UInt32) (es : List PoolEvent) (s : Pool) : Prop :=
  Transition.Run PoolStep (create threadCount) es s

end Webserv.StaticThreadPool
