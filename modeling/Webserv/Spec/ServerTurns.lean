import Webserv.Spec.HostedTasksLoop
import Webserv.Spec.HostedTasksTurns
import Webserv.Spec.ServerCorrect

/-!
# The loop of the server

A call of `server_pipeline` that has its connection may start two tasks: the next
call, and the connection.  Neither of them starts another one before it was
answered itself.  So each turn of the loop comes to its end.  And the loop calls
the handlers of all connections as it calls any others: each of them once.

## Key results

- `serverRanking`: a call that was answered is above what it starts
- `loop_comes_back`: from every state of every run, the loop blocks again
- `server_refines_loop`: a run of the server is a run of the loop
-/

namespace Webserv

open Config Futures Http Io Transition

variable {creators : Connection.Creators}

/-- A call of `server_pipeline` counts from its answer on, a connection never. -/
def ServerTask.rank (creators : Connection.Creators) :
    ∀ k : ServerTask, Trace ((webserv creators).signature k) → ℕ
  | .pipeline _ _, trace => min 1 trace.length
  | .connection _ _, _ => 0

/-- A task that has done nothing has no rank. -/
theorem ServerTask.rank_nil (k : ServerTask) : ServerTask.rank creators k [] = 0 := by
  cases k with
  | pipeline server info => rfl
  | connection env info => rfl

/-- Nothing is performed in front of the answer. -/
theorem serverPipeline_answered {trace : Trace acceptSignature} {effect : AcceptEffect}
    (h : Begins acceptBodies serverPipeline (trace ++ [.performed effect])) :
    1 ≤ trace.length := by
  obtain ⟨ev, ⟨-, rfl⟩ | ⟨-, rfl⟩⟩ := serverPipeline_performs h
  · exact le_rfl
  · exact Nat.le_succ 1

/-- An environment for a connection from this address. -/
def closedEnvironment (clientIp : Bytes) : Environment where
  file _ := .notOpened
  pipeToCgi := .error .undefined
  pipeFromCgi := .error .undefined
  forked := false
  connTcpServ _ _ := .error .undefined
  clientIp := clientIp

def serverRanking (creators : Connection.Creators) : (serverDiscipline creators).Ranking where
  rank := ServerTask.rank creators
  performs k trace effect _ hbegins := by
    cases k with
    | pipeline server info =>
      exact (Nat.min_le_left _ _).trans (le_min le_rfl (serverPipeline_answered hbegins))
    | connection env info => exact le_rfl
  starts k trace effect k' _ hstarts hbegins := by
    rw [ServerTask.rank_nil]
    cases k with
    | pipeline server info => exact lt_min Nat.one_pos (serverPipeline_answered hbegins)
    | connection env info => cases hstarts
  total k effect := by
    cases k with
    | connection env info => exact ⟨none, rfl⟩
    | pipeline server info =>
      cases effect with
      | serverPipeline => exact ⟨_, rfl⟩
      | getRequest clientIp => exact ⟨_, closedEnvironment clientIp, rfl, rfl⟩
      | cerr line => exact ⟨none, rfl⟩

instance (creators : Connection.Creators) (k : ServerTask)
    (query : ((webserv creators).signature k).Query) :
    Nonempty (((webserv creators).signature k).Answer query) := by
  cases k with
  | pipeline server info => exact ⟨AcceptEvent.closed⟩
  | connection env info =>
    cases query with
    | read channel => exact ⟨Fut.ReadEvent.closed⟩
    | write channel offered => exact ⟨Fut.WriteEvent.closed⟩

/-- From every state of every run, whatever the handlers are answered and in whatever order
    the steps are taken: after finitely many of them the loop blocks again, as long as the
    kernel refuses nothing and each object is made before it is waited for. -/
theorem loop_comes_back {env : Startup} {calls : List CreateCall}
    (hmain : asyncMain env = .ok (calls, none)) (creators : Connection.Creators)
    {inherited : Finset Fd} {es : List (HostEvent (webserv creators))}
    {s : Host (webserv creators)} (hrun : ServerRun creators inherited calls es s)
    (halive : s.phase ≠ .terminated) :
    Inevitably HostStep HostEvent.OfLoop
      (fun s' => s'.phase = .blocking ∨ s'.Lacks ∨ s'.phase = .faulted) s := by
  obtain ⟨hs, -⟩ := HostRun.good (mayStart_calls hmain creators) hrun
  -- the tasks of the server go down in the ranking with every step of their own
  exact hs.comes_back (serverRanking creators) halive

/-- A server that has answered a connection, and is in the handler of the next one. -/
theorem loop_comes_back_running : asyncMain pageStartup = .ok ([pageCall], none) ∧ ∃ es s,
    ServerRun Connection.parsers {0, 1, 2} [pageCall] es s ∧ s.phase = .running [] ∧
      seenBy 2 es = pageSeen ∧ Inevitably HostStep HostEvent.OfLoop
        (fun s' => s'.phase = .blocking ∨ s'.Lacks ∨ s'.phase = .faulted) s := by
  obtain ⟨es, s, hrun, hs, hphase, hkinds, hseen⟩ := exists_page_served
  have hgrown := hrun.grown (mayStart_calls asyncMain_pageStartup Connection.parsers)
  obtain ⟨n, fd, callback, hlistens⟩ := hgrown.listens hs hphase (i := 0) rfl
  -- it is not the connection that is called
  have hn : 2 ≠ n := by
    rintro rfl
    obtain ⟨c, htask⟩ := hs.tasked.waiter fd _ hlistens.1
    have hkind : (kinds s)[2]? = some (.pipeline 0 [pageServer]) := by
      rw [kinds, List.getElem?_map, htask]
      rfl
    rw [hkinds] at hkind
    cases hkind
  obtain ⟨es', s', hrun', hs', hphase', -, -, -, -, -, hothers⟩ :=
    hs.call hphase hlistens.1 AcceptEvent.closed
  have hrun'' := hrun.append hrun'
  refine ⟨asyncMain_pageStartup, _, s', hrun'', hphase', ?_, ?_⟩
  · rw [← hseen, seenBy, hothers 2 hn]
    rfl
  · refine loop_comes_back asyncMain_pageStartup Connection.parsers hrun'' ?_
    rw [hphase']
    exact fun heq => by cases heq

/-- A run of the process is a run of `ExecutionContext::loop`: the handlers that were called
    are those the loop has invoked, each of them once, and the others are in the storage. -/
theorem server_refines_loop {env : Startup} {calls : List CreateCall}
    (hmain : asyncMain env = .ok (calls, none)) (creators : Connection.Creators)
    {inherited : Finset Fd} {es : List (HostEvent (webserv creators))}
    {s : Host (webserv creators)} (hrun : ServerRun creators inherited calls es s) :
    ∃ les t, s.Loops es les t ∧ ((invocations les).map Prod.fst).Nodup ∧
      ∀ i w, (waiters es)[i]? = some w → (∃ fd, (i, fd) ∈ invocations les) ∨
        (∃ fd, s.evStorage.handlers fd = some w) ∧ ∀ fd, (i, fd) ∉ invocations les := by
  obtain ⟨les, t, hloops⟩ := HostRun.loops (mayStart_calls hmain creators) hrun
  -- the loop keeps account of the callbacks, and the calls are the same on both sides
  exact ⟨les, t, hloops, hloops.run.accounted.once, fun i w hi => hloops.called_or_stored hi⟩

/-- The server that has answered its first connection: the loop has invoked its handlers. -/
theorem server_refines_loop_page : asyncMain pageStartup = .ok ([pageCall], none) ∧ ∃ es s,
    ServerRun Connection.parsers {0, 1, 2} [pageCall] es s ∧ s.phase = .blocking ∧
      ∃ les t, s.Loops es les t ∧ ((invocations les).map Prod.fst).Nodup ∧
        ∀ a ∈ pageSeen, ∃ p ∈ invocations les, (waiters es)[p.1]?.map Waiter.call =
          some ⟨.connection fileEnvironment [pageServer], 2, a.1⟩ := by
  obtain ⟨es, s, hrun, hs, hphase, hkinds, hseen⟩ := exists_page_served
  obtain ⟨les, t, hloops, honce, -⟩ :=
    server_refines_loop asyncMain_pageStartup Connection.parsers hrun
  refine ⟨asyncMain_pageStartup, es, s, hrun, hphase, les, t, hloops, honce, fun a ha => ?_⟩
  have hkind : (kinds s)[2]? = some (.connection fileEnvironment [pageServer]) := by
    rw [hkinds]
    rfl
  obtain ⟨c, es', -, -, pending, -, hhistory, -⟩ := exists_run hs hkind
  rw [← hseen, seenBy_eq hhistory] at ha
  obtain ⟨note, hnote, hanswer⟩ := List.mem_filterMap.mp ha
  -- each answer was given through a handler
  have hdone : ⟨.connection fileEnvironment [pageServer], note⟩ ∈ doneIn 2 es := by
    rw [hhistory]
    exact List.mem_map_of_mem hnote
  cases note with
  | answered query answer =>
    cases hanswer
    exact hloops.exists_invocation (mem_handled hdone)
  | _ => cases hanswer

end Webserv
