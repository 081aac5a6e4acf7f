import Mathlib.Algebra.BigOperators.Group.Finset.Piecewise
import Mathlib.Algebra.Order.BigOperators.Group.Finset
import Webserv.Spec.ThreadPoolCorrect

/-!
# Tasks that come during `shutdown`

A task in front of the last stop marker is run.  The worker that takes this
marker is the last one to take anything, but until the last worker is gone
`execute` accepts tasks, and those are left in the queue.

## Key results

- `PoolRun.markers_accepted`: no stop marker is refused
- `PoolRun.taken_last`: nothing is taken behind the last stop marker
- `late_tasks_iff`: when every task that is accepted during `shutdown` is run
-/

namespace Webserv.StaticThreadPool

open Mpmc (Closed PopResult)
open Transition

/-! ## Counting stop markers -/

def PoolEvent.isMarker : PoolEvent → Bool
  | .marker _ => true
  | _ => false

/-- The number of stop markers `shutdown` has sent. -/
def markerCount (es : List PoolEvent) : ℕ := es.countP PoolEvent.isMarker

/-- The markers of a run that goes on. -/
theorem markerCount_snoc (es : List PoolEvent) (e : PoolEvent) :
    markerCount (es ++ [e]) = markerCount es + if e.isMarker then 1 else 0 := by
  rw [markerCount, List.countP_append, List.countP_singleton]
  rfl

/-- The stop markers that are sent at this point of `shutdown`. -/
def Shutdown.markers (threads : ℕ) : Shutdown → ℕ
  | .notCalled => 0
  | .sending sent => sent
  | _ => threads

/-- `shutdown` sends one marker at a time, up to one for each worker. -/
theorem PoolStep.shutdown_markers {s s' : Pool} {e : PoolEvent} (h : PoolStep s e s')
    (hle : s.shutdown.markers s.threads ≤ s.threads) :
    s'.shutdown.markers s'.threads =
        s.shutdown.markers s.threads + (if e.isMarker then 1 else 0) ∧
      s'.shutdown.markers s'.threads ≤ s'.threads := by
  cases h with
  | shutdown hshutdown => simp [hshutdown, Shutdown.markers, PoolEvent.isMarker]
  | marker hshutdown hsent _ =>
    simp only [hshutdown, Shutdown.markers, PoolEvent.isMarker, ↓reduceIte, true_and]
    exact hsent
  | markersSent hshutdown => simp [hshutdown, Shutdown.markers, PoolEvent.isMarker]
  | join hshutdown _ _ => simp [hshutdown, Shutdown.markers, PoolEvent.isMarker]
  | shutdownReturned hshutdown => simp [hshutdown, Shutdown.markers, PoolEvent.isMarker]
  | _ => exact ⟨rfl, hle⟩

/-- So the phase says how many were sent. -/
theorem PoolRun.markerCount_eq {threadCount : UInt32} {es : List PoolEvent} {s : Pool}
    (h : PoolRun threadCount es s) :
    markerCount es = s.shutdown.markers s.threads ∧
      s.shutdown.markers s.threads ≤ s.threads := by
  refine h.history (P := fun es s => markerCount es = s.shutdown.markers s.threads ∧
    s.shutdown.markers s.threads ≤ s.threads) ⟨rfl, Nat.zero_le _⟩ ?_
  rintro es s e s' ⟨hcount, hle⟩ hstep
  obtain ⟨hmarkers, hle'⟩ := hstep.shutdown_markers hle
  refine ⟨?_, hle'⟩
  rw [markerCount_snoc, hcount, hmarkers]

/-! ## The workers that took them -/

/-- A worker that takes something has not taken a marker before. -/
theorem PoolStep.taker_lt {s s' : Pool} {e : PoolEvent} (h : PoolStep s e s') {i : ℕ}
    {value : Option ℕ} (he : e.takes = some (i, value)) :
    i < s.threads ∧ (s.workers i).markers = 0 := by
  cases h with
  | @recv channel j result hj hworker hstep | @resume channel j result hj hworker hstep =>
    rcases result with (⟨⟨⟩⟩ | v) | _
    · simp [PoolEvent.takes] at he
    · simp only [PoolEvent.takes, Option.some.injEq, Prod.mk.injEq] at he
      obtain ⟨rfl, -⟩ := he
      exact ⟨hj, by rw [hworker]; rfl⟩
    · simp [PoolEvent.takes] at he
  | _ => simp [PoolEvent.takes] at he

/-- The number of workers does not change. -/
theorem PoolStep.threads_eq {s s' : Pool} {e : PoolEvent} (h : PoolStep s e s') :
    s'.threads = s.threads := by
  cases h <;> rfl

/-- The stop markers taken are with the workers. -/
theorem PoolRun.count_markers {threadCount : UInt32} {es : List PoolEvent} {s : Pool}
    (h : PoolRun threadCount es s) :
    ((taken es).map Prod.snd).count none =
      ∑ i ∈ Finset.range s.threads, (s.workers i).markers := by
  refine h.history (P := fun es s => ((taken es).map Prod.snd).count none =
    ∑ i ∈ Finset.range s.threads, (s.workers i).markers) ?_ ?_
  · simp [taken, create, Worker.markers]
  · intro es s e s' hcount hstep
    rw [taken_snoc, List.map_append, List.count_append, hcount, hstep.threads_eq]
    simp only [hstep.markers, Finset.sum_add_distrib]
    congr 1
    -- a marker that is taken is counted with its one worker
    cases htakes : e.takes with
    | none => simp
    | some p =>
      obtain ⟨i, value⟩ := p
      have hi := (hstep.taker_lt htakes).1
      cases value with
      | none => simp [eq_comm (a := i), hi]
      | some task => simp

/-- A worker takes one marker at most. -/
theorem Worker.markers_le (w : Worker) : w.markers ≤ 1 := by
  cases w <;> simp [Worker.markers]

/-- A worker that took no stop marker leaves one to be taken. -/
theorem sum_markers_lt {n i : ℕ} {workers : ℕ → Worker} (hi : i < n)
    (hnone : (workers i).markers = 0) : ∑ j ∈ Finset.range n, (workers j).markers < n := by
  have hlt : ∑ j ∈ Finset.range n, (workers j).markers < ∑ _j ∈ Finset.range n, 1 :=
    Finset.sum_lt_sum (fun j _ => (workers j).markers_le)
      ⟨i, Finset.mem_range.mpr hi, by rw [hnone]; exact Nat.one_pos⟩
  simpa using hlt

/-- Workers that have finished have each taken one. -/
theorem sum_markers_of_finished {n : ℕ} {workers : ℕ → Worker}
    (hall : ∀ i < n, workers i = .finished) : ∑ j ∈ Finset.range n, (workers j).markers = n := by
  have hone : ∑ j ∈ Finset.range n, (workers j).markers = ∑ _j ∈ Finset.range n, 1 := by
    refine Finset.sum_congr rfl fun j hj => ?_
    rw [hall j (Finset.mem_range.mp hj)]
    rfl
  simpa using hone

/-- Nothing is taken behind the last stop marker. -/
theorem PoolRun.taken_last {threadCount : UInt32} {es : List PoolEvent} {s : Pool}
    (h : PoolRun threadCount es s) (hcount : 0 < threadCount.toNat)
    (hall : ((taken es).map Prod.snd).count none = threadCount.toNat) :
    ∃ values, (taken es).map Prod.snd = values ++ [none] := by
  induction h with
  | nil =>
    -- there is a worker, so not all markers are taken yet
    rw [taken, List.filterMap_nil, List.map_nil, List.count_nil] at hall
    omega
  | @snoc es s s' e hrun hstep ih =>
    rw [taken_snoc, List.map_append] at hall ⊢
    cases htakes : e.takes with
    | none =>
      rw [htakes, Option.toList_none, List.map_nil, List.append_nil] at hall
      rw [Option.toList_none, List.map_nil, List.append_nil]
      exact ih hall
    | some p =>
      obtain ⟨i, value⟩ := p
      cases value with
      | none => exact ⟨_, rfl⟩
      | some task =>
        -- the worker that takes a task has not taken its stop marker
        obtain ⟨hi, hnone⟩ := hstep.taker_lt htakes
        have hlt := sum_markers_lt hi hnone
        rw [← PoolRun.count_markers hrun, PoolRun.threads hrun] at hlt
        rw [htakes, List.count_append] at hall
        simp at hall
        omega

/-- No stop marker is refused. -/
theorem PoolRun.markers_accepted {threadCount : UInt32} {es : List PoolEvent} {s : Pool}
    (h : PoolRun threadCount es s) : (accepted es).count none = markerCount es := by
  induction h with
  | nil => rfl
  | @snoc es s s' e hrun hstep ih =>
    rw [accepted_snoc, List.count_append, markerCount_snoc, ih]
    congr 1
    -- only a refused marker could make a difference
    cases hstep with
    | @execute channel result hsend => rcases result with ⟨⟨⟩⟩ | ⟨⟨⟩⟩ <;> rfl
    | @marker channel sent result hshutdown hsent hsend =>
      rcases result with ⟨⟨⟩⟩ | ⟨⟨⟩⟩
      · -- every worker would have taken one, and there are not so many yet
        have hall := (PoolRun.send_closed_iff hrun hsend).mp rfl
        have htaken := PoolRun.count_markers hrun
        rw [sum_markers_of_finished hall] at htaken
        have hmarkers := (PoolRun.markerCount_eq hrun).1
        rw [hshutdown] at hmarkers
        rw [PoolRun.fifo hrun, List.count_append, htaken, hmarkers] at ih
        simp only [Shutdown.markers] at ih
        omega
      · rfl
    | _ => rfl

/-! ## The end of the workers -/

/-- A worker has finished when it did so now or before. -/
theorem PoolStep.exited_iff {s s' : Pool} {e : PoolEvent} (h : PoolStep s e s') (i : ℕ) :
    s'.workers i = .finished ↔ s.workers i = .finished ∨ e = .exited i := by
  -- a worker that was not finished and is not now changes nothing
  have hother : ∀ {j : ℕ} {w : Worker}, s.workers j ≠ .finished → w ≠ .finished →
      (Function.update s.workers j w i = .finished ↔ s.workers i = .finished) := by
    intro j w hj hw
    by_cases hi : i = j
    · subst hi
      simp [hj, hw]
    · simp [hi]
  cases h with
  | recv hj hworker _ | resume hj hworker _ =>
    rw [hother (by simp [hworker]) (Worker.afterRecv_ne_finished _)]
    simp
  | ran hj hworker =>
    rw [hother (by simp [hworker]) (by simp)]
    simp
  | @exit channel j hj hworker hstep =>
    by_cases hi : i = j
    · subst hi
      simp
    · simp [hi, Ne.symm hi]
  | _ => simp

/-- So the run shows which workers have finished. -/
theorem PoolRun.exited_iff {threadCount : UInt32} {es : List PoolEvent} {s : Pool}
    (h : PoolRun threadCount es s) (i : ℕ) : .exited i ∈ es ↔ s.workers i = .finished := by
  refine h.history (P := fun es s => .exited i ∈ es ↔ s.workers i = .finished) ?_ ?_
  · simp [create]
  · intro es s e s' hexited hstep
    rw [List.mem_append, List.mem_singleton, hexited, hstep.exited_iff i, eq_comm (a := e)]

/-- `execute` is accepted until the last worker is gone. -/
theorem PoolRun.execute_ok_iff {threadCount : UInt32} {es : List PoolEvent} {s s' : Pool} {task : ℕ}
    {result : Except Closed Unit} (h : PoolRun threadCount es s)
    (hstep : PoolStep s (.execute task result) s') :
    result = .ok () ↔ ∃ worker < threadCount.toNat, .exited worker ∉ es := by
  have hclosed := h.execute_closed_iff hstep
  rw [h.threads] at hclosed
  have hresult : result = .ok () ↔ ¬ result = .error .closed := by
    rcases result with ⟨⟨⟩⟩ | ⟨⟨⟩⟩ <;> simp
  rw [hresult, hclosed]
  simp only [h.exited_iff, not_forall, exists_prop]

/-! ## Tasks and the last stop marker -/

section order
variable {values queue front back : List (Option ℕ)} {task : ℕ}

/-- What stands in front of a marker that is taken is taken. -/
theorem mem_of_count_lt (h : front ++ some task :: back = values ++ queue)
    (hlt : front.count none < values.count none) : some task ∈ values := by
  rcases List.append_eq_append_iff.mp h with ⟨rest, rfl, hrest⟩ | ⟨rest, rfl, -⟩
  · cases rest with
    | nil => simp at hlt
    | cons value rest =>
      obtain ⟨rfl, -⟩ := List.cons.inj hrest
      simp
  · -- the markers taken would all stand in front of the task
    rw [List.count_append] at hlt
    omega

/-- A new task behind the last marker is not taken if that marker is the last value taken. -/
theorem notMem_of_count_le (h : front ++ some task :: back = values ++ queue)
    (hlast : ∃ init, values = init ++ [none]) (hle : values.count none ≤ front.count none)
    (hnew : some task ∉ front) : some task ∉ values := by
  intro hmem
  rcases List.append_eq_append_iff.mp h with ⟨rest, rfl, hrest⟩ | ⟨rest, rfl, -⟩
  · cases rest with
    | nil => exact hnew (by simpa using hmem)
    | cons value rest =>
      obtain ⟨rfl, -⟩ := List.cons.inj hrest
      -- the last value is a marker, and is counted
      obtain ⟨init, hinit⟩ := hlast
      have hnone : (some task :: rest).getLast? = some none := by
        have hgetLast := congrArg List.getLast? hinit
        rwa [List.getLast?_append_of_ne_nil _ (List.cons_ne_nil _ _), List.getLast?_concat]
          at hgetLast
      have hin : none ∈ some task :: rest := List.mem_of_getLast? hnone
      have hpos := List.count_pos_iff.mpr hin
      rw [List.count_append] at hle
      omega
  · exact hnew (List.mem_append_left rest hmem)

end order

/-- When `shutdown` has returned, the tasks taken have returned. -/
theorem PoolRun.mem_finished_iff {threadCount : UInt32} {es : List PoolEvent} {s : Pool}
    (h : PoolRun threadCount es s) (hjoined : s.AllJoined) (task : ℕ) :
    task ∈ finished es ↔ some task ∈ (taken es).map Prod.snd := by
  have htasks := h.accounted.tasks
  rw [running_eq_zero (h.all_finished hjoined), add_zero, Multiset.coe_eq_coe] at htasks
  rw [← htasks.mem_iff, List.mem_filterMap, List.mem_map]

/-- What is accepted around a call of `execute`. -/
theorem accepted_execute (pre post : List PoolEvent) (task : ℕ) :
    accepted (pre ++ .execute task (.ok ()) :: post) =
      accepted pre ++ some task :: accepted post := by
  rw [accepted, List.filterMap_append, List.filterMap_cons]
  rfl

/-- The number of a call of `execute` is new. -/
theorem PoolRun.notMem_accepted {threadCount : UInt32} {es : List PoolEvent} {s s' : Pool}
    {task : ℕ} (h : PoolRun threadCount es s) (hstep : PoolStep s (.execute task (.ok ())) s') :
    some task ∉ accepted es := by
  intro hmem
  -- the numbers given out so far are all lower
  obtain ⟨rfl, -⟩ := hstep.number.2 task rfl
  have hlt := h.accounted.numbers s.submitted
    (List.mem_filterMap.mpr ⟨some s.submitted, hmem, rfl⟩)
  exact absurd hlt (Nat.lt_irrefl _)

/-- Every task accepted during `shutdown` is run exactly when between the last stop
    marker and the end of the last worker `execute` is not called. -/
theorem late_tasks_iff {threadCount : UInt32} {es : List PoolEvent} {s : Pool}
    (hcount : 0 < threadCount.toNat) (h : PoolRun threadCount es s)
    (hreturned : s.shutdown = .returned) :
    (∀ pre task result post, es = pre ++ .execute task result :: post → .shutdownCalled ∈ pre →
        result = .error .closed ∨ task ∈ finished es) ↔
      ∀ pre task result post, es = pre ++ .execute task result :: post →
        markerCount pre = threadCount.toNat →
        ∀ worker < threadCount.toNat, .exited worker ∈ pre := by
  have hjoined : s.AllJoined := Or.inr hreturned
  -- at the end each worker has taken its stop marker
  have hall : ((taken es).map Prod.snd).count none = threadCount.toNat := by
    rw [h.count_markers, sum_markers_of_finished (h.all_finished hjoined), h.threads]
  have hfifo := h.fifo
  constructor
  · intro hrun pre task result post hsplit hsent worker hworker
    by_contra hexited
    subst hsplit
    obtain ⟨s₁, s₂, hpre, hstep⟩ := Run.exists_step h
    -- the call is accepted, and its task comes behind the last marker
    obtain rfl := (PoolRun.execute_ok_iff hpre hstep).mpr ⟨worker, hworker, hexited⟩
    have hcalled : .shutdownCalled ∈ pre := by
      refine (PoolRun.phaseOf hpre).called.mpr fun hnotCalled => ?_
      have hmarkers := (PoolRun.markerCount_eq hpre).1
      rw [hnotCalled, hsent] at hmarkers
      exact absurd hmarkers hcount.ne'
    rcases hrun pre task _ post rfl hcalled with hclosed | hfinished
    · cases hclosed
    · rw [accepted_execute] at hfifo
      refine notMem_of_count_le hfifo (h.taken_last hcount hall) ?_
        (PoolRun.notMem_accepted hpre hstep) ((h.mem_finished_iff hjoined task).mp hfinished)
      rw [hall, PoolRun.markers_accepted hpre, hsent]
  · intro hquiet pre task result post hsplit hcalled
    subst hsplit
    obtain ⟨s₁, s₂, hpre, hstep⟩ := Run.exists_step h
    rcases result with ⟨⟨⟩⟩ | ⟨⟨⟩⟩
    · exact Or.inl rfl
    · -- a worker is left, so a marker is still to be sent
      obtain ⟨worker, hworker, hexited⟩ := (PoolRun.execute_ok_iff hpre hstep).mp rfl
      -- with all markers sent every worker would have finished
      have hne : markerCount pre ≠ threadCount.toNat := fun hsent =>
        hexited (hquiet pre task _ post rfl hsent worker hworker)
      obtain ⟨hmarkers, hle⟩ := PoolRun.markerCount_eq hpre
      rw [← hmarkers, PoolRun.threads hpre] at hle
      refine Or.inr ((h.mem_finished_iff hjoined task).mpr ?_)
      rw [accepted_execute] at hfifo
      refine mem_of_count_lt hfifo ?_
      rw [hall, PoolRun.markers_accepted hpre]
      exact lt_of_le_of_ne hle hne

/-- A task that comes before the only stop marker. -/
theorem late_tasks_before_marker : ∃ es s, PoolRun 1 es s ∧ s.shutdown = .returned ∧
    .execute 0 (.ok ()) ∈ es ∧
    ∀ pre task result post, es = pre ++ .execute task result :: post → .shutdownCalled ∈ pre →
      result = .error .closed ∨ task ∈ finished es := by
  have hshutdown : PoolRun 1 [.shutdownCalled] _ := .snoc .nil (.shutdown rfl)
  have hexecute : PoolRun 1 [.shutdownCalled, .execute 0 (.ok ())] _ :=
    .snoc hshutdown (.execute (.send (some 0) (by decide) (.nobody _ rfl)))
  have hmarker : PoolRun 1 [.shutdownCalled, .execute 0 (.ok ()), .marker (.ok ())] _ :=
    .snoc hexecute (.marker rfl (by decide) (.send none (by decide) (.nobody _ rfl)))
  have hworker : PoolRun 1 ([.shutdownCalled, .execute 0 (.ok ()), .marker (.ok ())] ++
      [.markersSent, .recv 0 (.returns (.ok (some 0))), .ran 0 0, .recv 0 (.returns (.ok none)),
        .exited 0]) _ :=
    .snoc (.snoc (.snoc (.snoc (.snoc hmarker (.markersSent rfl))
      (.recv (by decide) rfl (.recv (by decide)))) (.ran (by decide) rfl))
      (.recv (by decide) rfl (.recv (by decide)))) (.exit (by decide) rfl (.dropReceiver (by decide)))
  have hreturned : PoolRun 1 (([.shutdownCalled, .execute 0 (.ok ()), .marker (.ok ())] ++
      [.markersSent, .recv 0 (.returns (.ok (some 0))), .ran 0 0, .recv 0 (.returns (.ok none)),
        .exited 0]) ++ [.joined 0, .shutdownReturned]) _ :=
    .snoc (.snoc hworker (.join rfl (by decide) rfl)) (.shutdownReturned rfl)
  refine ⟨_, _, hreturned, rfl, by simp, (late_tasks_iff (by decide) hreturned rfl).mpr ?_⟩
  -- the only call of `execute` is the second event
  intro pre task result post hsplit hsent
  rcases pre with _ | ⟨e, _ | ⟨e', pre⟩⟩
  · simp at hsplit
  · simp only [List.cons_append, List.nil_append, List.cons.injEq] at hsplit
    obtain ⟨rfl, -⟩ := hsplit
    exact absurd hsent (by decide)
  · simp only [List.cons_append, List.cons.injEq] at hsplit
    have hmem : PoolEvent.execute task result ∈ pre ++ .execute task result :: post := by simp
    rw [← hsplit.2.2] at hmem
    simp at hmem

/-- A task that comes behind the only stop marker is accepted and never run. -/
theorem late_tasks_dropped :
    ¬ ∀ (threadCount : UInt32) (es : List PoolEvent) (s : Pool), 0 < threadCount.toNat →
      PoolRun threadCount es s → s.shutdown = .returned →
      ∀ pre task result post, es = pre ++ .execute task result :: post → .shutdownCalled ∈ pre →
        result = .error .closed ∨ task ∈ finished es := by
  intro hall
  have hshutdown : PoolRun 1 [.shutdownCalled] _ := .snoc .nil (.shutdown rfl)
  have hmarker : PoolRun 1 [.shutdownCalled, .marker (.ok ())] _ :=
    .snoc hshutdown (.marker rfl (by decide) (.send none (by decide) (.nobody _ rfl)))
  -- accepted behind the only marker
  have hexecute : PoolRun 1 [.shutdownCalled, .marker (.ok ()), .execute 0 (.ok ())] _ :=
    .snoc hmarker (.execute (.send (some 0) (by decide) (.nobody _ rfl)))
  -- the worker takes the marker and leaves the task
  have hworker : PoolRun 1 ([.shutdownCalled, .marker (.ok ()), .execute 0 (.ok ())] ++
      [.markersSent, .recv 0 (.returns (.ok none)), .exited 0]) _ :=
    .snoc (.snoc (.snoc hexecute (.markersSent rfl)) (.recv (by decide) rfl (.recv (by decide))))
      (.exit (by decide) rfl (.dropReceiver (by decide)))
  have hreturned : PoolRun 1 (([.shutdownCalled, .marker (.ok ()), .execute 0 (.ok ())] ++
      [.markersSent, .recv 0 (.returns (.ok none)), .exited 0]) ++ [.joined 0, .shutdownReturned]) _ :=
    .snoc (.snoc hworker (.join rfl (by decide) rfl)) (.shutdownReturned rfl)
  rcases hall 1 _ _ (by decide) hreturned rfl [.shutdownCalled, .marker (.ok ())] 0 (.ok ()) _ rfl
    (by simp) with hclosed | hfinished
  · cases hclosed
  · exact absurd hfinished (by decide)

end Webserv.StaticThreadPool
