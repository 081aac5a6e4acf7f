import Webserv.Spec.ServerRuns

/-!
# The server as a whole

What is seen of each connection, and which handlers wait, when the loop waits
again; and with which exceptions the process ends.

## Key results

- `connection_permitted`, `connection_idle`: each connection gets its response
- `ServerRun.fault_of_faulted`: why the process has ended
- `server_serves`: every run of the server
-/

namespace Webserv

open Config Futures Http Io Transition

section views
variable {creators : Connection.Creators} {s : Host (webserv creators)}
  {es : List (HostEvent (webserv creators))}

/-- An exception of a connection is one of the process. -/
theorem exists_faults {n : ℕ} {f : Fault} (hmem : .fault f ∈ effectsBy n es) :
    ∃ e ∈ es, e.faults = true := by
  obtain ⟨note, hnote, heffect⟩ := List.mem_filterMap.mp hmem
  obtain ⟨e, he, hnote⟩ := List.mem_filterMap.mp hnote
  refine ⟨e, he, ?_⟩
  cases e with
  | task m k e =>
    rw [HostEvent.note?] at hnote
    split at hnote
    · obtain ⟨note, hnote, rfl⟩ := Option.map_eq_some_iff.mp hnote
      cases k with
      -- a server performs no fault
      | pipeline server info => cases heffect
      | connection env info =>
        cases e with
        | performed effect =>
          cases hnote
          cases heffect
          rfl
        | _ =>
          cases hnote
          try cases heffect
    · cases hnote
  | _ => cases hnote

/-- A connection is over, or waits for what is missing. -/
theorem connection_idle (hs : s.Good (serverDiscipline creators) es) (hidle : s.Idle) {n : ℕ}
    {env : Environment} {info : List Server}
    (hkind : (kinds s)[n]? = some (.connection env info))
    (hnot : ∀ f, .fault f ∉ effectsBy n es) :
    Connection.fault creators env info (seenBy n es) = none ∧
      effectsBy n es = Connection.complaints creators env info (seenBy n es) ∧
      ((∀ fd w, s.evStorage.handlers fd = some w → w.task ≠ n) ∧
          Connection.Over creators env info (seenBy n es) ∨
        ∃ fd query callback, Listens s fd ⟨n, .connection env info, query, callback⟩ ∧
          Connection.Awaited creators env info (seenBy n es) query) := by
  obtain ⟨c, es', htask, hinfo, pending, hrun, hhistory, hwaits⟩ := exists_run hs hkind
  have hidle' : Futures.Config.Idle { c with pending := pending } := hidle n _ c htask
  rw [effectsBy_eq hhistory] at hnot ⊢
  rw [seenBy_eq hhistory]
  obtain ⟨hfault, heffects⟩ := Connection.serve_complaints hinfo hrun hidle' hnot
  refine ⟨hfault, heffects, ?_⟩
  obtain ⟨hpending, hserved⟩ | ⟨handler, hpending, hserved⟩ :=
    Connection.serve_idle hinfo hrun hidle'
  · -- the connection is over
    exact .inl ⟨hwaits.nobody_of_zero hpending, hserved.over hfault⟩
  · refine .inr ?_
    replace hpending : pending = {handler} := hpending
    cases hwaits with
    | nobody => exact absurd hpending.symm (Multiset.singleton_ne_zero _)
    | @handler fd query callback hfd =>
      obtain rfl := Multiset.singleton_inj.mp hpending
      exact ⟨fd, query, callback, listens_of_handlers hs.tables hfd, hserved.awaited⟩

/-- What a connection writes is permitted, and it complains about nothing else. -/
theorem connection_permitted (hs : s.Good (serverDiscipline creators) es) {n : ℕ}
    {env : Environment} {info : List Server}
    (hkind : (kinds s)[n]? = some (.connection env info))
    (hlast : Connection.FaultsLast (effectsBy n es)) :
    Connection.Permitted creators env info (seenBy n es) ∧
      effectsBy n es <+: Connection.complaints creators env info (seenBy n es) := by
  obtain ⟨c, es', htask, hinfo, pending, hrun, hhistory, -⟩ := exists_run hs hkind
  rw [effectsBy_eq hhistory] at hlast ⊢
  rw [seenBy_eq hhistory]
  obtain ⟨done, query, hbegins, hserved⟩ := Connection.exists_served hinfo hrun
  exact ⟨hserved.permitted, hserved.upToFault.prefix hbegins hlast⟩

/-! ## The end of the process -/

section faults
variable {inherited : Finset Fd} {calls : List CreateCall}
  (hrun : ServerRun creators inherited calls es s)
include hrun

/-- While the process is alive no connection has met a fault. -/
theorem ServerRun.not_fault (hphase : s.phase ≠ .faulted) (n : ℕ) (f : Fault) :
    .fault f ∉ effectsBy n es := by
  intro hmem
  obtain ⟨e, he, hfaults⟩ := exists_faults hmem
  rw [HostRun.not_faults hrun hphase e he] at hfaults
  cases hfaults

/-- No connection does anything behind an exception. -/
theorem ServerRun.faultsLast (n : ℕ) : Connection.FaultsLast (effectsBy n es) := by
  by_cases hphase : s.phase = .faulted
  · obtain ⟨pre, e, s₀, rfl, -, -, -, hquiet⟩ := HostRun.exists_fault hrun hphase
    -- no step before the last one has faulted
    have hpre : ∀ f, .fault f ∉ effectsBy n pre := by
      intro f hmem
      obtain ⟨e, he, hfaults⟩ := exists_faults hmem
      rw [hquiet e he] at hfaults
      cases hfaults
    have hsnoc : effectsBy n (pre ++ [e]) =
        effectsBy n pre ++ (e.note? n).toList.filterMap effectOf := by
      rw [effectsBy, doneIn_snoc, List.filterMap_append]
      rfl
    rw [hsnoc]
    cases hnote : e.note? n with
    | none =>
      rw [Option.toList_none, List.filterMap_nil, List.append_nil]
      exact Connection.faultsLast_of_notMem hpre
    | some note =>
      rw [Option.toList_some]
      cases heffect : effectOf note with
      | none =>
        rw [List.filterMap_cons_none heffect, List.filterMap_nil, List.append_nil]
        exact Connection.faultsLast_of_notMem hpre
      | some effect =>
        rw [List.filterMap_cons_some heffect, List.filterMap_nil]
        exact Connection.faultsLast_concat hpre effect
  · exact Connection.faultsLast_of_notMem fun f => hrun.not_fault hphase n f

/-- The process has ended in a connection, and for the reason that its bytes or its file are. -/
theorem ServerRun.fault_of_faulted (hs : s.Good (serverDiscipline creators) es)
    (hphase : s.phase = .faulted) : ∃ n env info f, (kinds s)[n]? = some (.connection env info) ∧
      Connection.fault creators env info (seenBy n es) = some f ∧ effectsBy n es = [.fault f] := by
  obtain ⟨pre, e, s₀, rfl, -, hstep, hfaults, -⟩ := HostRun.exists_fault hrun hphase
  -- the last event is the fault, and a pipeline has none
  have hconnection : ∃ n env info f, (kinds s)[n]? = some (.connection env info) ∧
      .fault f ∈ effectsBy n (pre ++ [e]) := by
    cases hstep with
    | @faulted n k c c' effect hactive htask =>
      cases k with
      | pipeline server info => cases hfaults
      | connection env info =>
        obtain ⟨f, rfl⟩ : ∃ f, effect = ConnectionEffect.fault f := by
          cases effect with
          | cerr line => cases hfaults
          | fault f => exact ⟨f, rfl⟩
        refine ⟨n, env, info, f, ?_, ?_⟩
        · have hkinds : kinds (s₀.setTask n (.connection env info) c') = kinds s₀ :=
            kinds_setTask htask
          show (kinds (s₀.setTask n (.connection env info) c'))[n]? = _
          rw [hkinds, kinds, List.getElem?_map, htask]
          rfl
        · rw [effectsBy, doneIn_snoc, task_note?, List.filterMap_append]
          exact List.mem_append_right _ (List.mem_singleton_self _)
    | performed _ _ _ hnot => cases hnot.symm.trans hfaults
    | _ => cases hfaults
  obtain ⟨n, env, info, f, hkind, hmem⟩ := hconnection
  -- what is performed begins the complaints, so it is all of them
  have hbegins := (connection_permitted hs hkind (hrun.faultsLast n)).2
  exact ⟨n, env, info, f, hkind, Connection.fault_of_mem hbegins hmem⟩

end faults

/-! ## What was accepted -/

/-- When every call has returned, a task has started the connections it has accepted. -/
theorem filterMap_doneIn (hs : s.Good (serverDiscipline creators) es) (hidle : s.Idle) {n : ℕ}
    (hn : n < (kinds s).length) :
    (doneIn n es).filterMap acceptedOf = (doneIn n es).filterMap startedOf := by
  obtain ⟨k, hkind⟩ : ∃ k, (kinds s)[n]? = some k := ⟨_, List.getElem?_eq_getElem hn⟩
  cases k with
  | pipeline server info =>
    obtain ⟨ev, hturn⟩ | ⟨hnil, -⟩ := pipeline_idle hs hidle hkind
    · rw [hturn]
      cases ev with
      | closed => rfl
      | error => rfl
      | toAccept res => cases res <;> rfl
    · rw [hnil]
      rfl
  -- a connection accepts nobody
  | connection env info =>
    obtain ⟨c, es', -, -, pending, -, hhistory, -⟩ := exists_run hs hkind
    have hnone : ∀ note ∈ doneIn n es, acceptedOf note = none ∧ startedOf note = none := by
      intro note hnote
      rw [hhistory] at hnote
      obtain ⟨note, -, rfl⟩ := List.mem_map.mp hnote
      exact ⟨rfl, rfl⟩
    rw [List.filterMap_eq_nil_iff.mpr fun note hnote => (hnone note hnote).1,
      List.filterMap_eq_nil_iff.mpr fun note hnote => (hnone note hnote).2]

/-- At a block each accepted client has its connection. -/
theorem accepted_perm (hs : s.Good (serverDiscipline creators) es) (hidle : s.Idle) :
    (accepted es).Perm ((done es).filterMap startedOf) := by
  have hlater : ∀ n, (kinds s).length ≤ n → doneIn n es = [] := fun n hn => by
    rw [kinds, List.length_map] at hn
    exact hs.tasked.later n hn
  have hperm := done_perm hlater
  have hsame : ((List.range (kinds s).length).flatMap fun n => doneIn n es).filterMap acceptedOf =
      ((List.range (kinds s).length).flatMap fun n => doneIn n es).filterMap startedOf := by
    rw [List.filterMap_flatMap, List.filterMap_flatMap]
    refine List.flatMap_congr fun n hn => ?_
    exact filterMap_doneIn hs hidle (List.mem_range.mp hn)
  -- task by task, what was started is what was accepted
  have hstarted := hperm.filterMap startedOf
  rw [← hsame] at hstarted
  exact (hperm.filterMap acceptedOf).trans hstarted.symm

end views

/-! ## Every run of the server -/

/-- The next call of `server_pipeline` waits, for each server. -/
theorem Grown.listens {creators : Connection.Creators} {calls : List CreateCall}
    {s : Host (webserv creators)} {es : List (HostEvent (webserv creators))}
    (hgrown : Grown calls s es) (hs : s.Good (serverDiscipline creators) es)
    (hphase : s.phase = .blocking) {i : ℕ} {call : CreateCall} (hcall : calls[i]? = some call) :
    ∃ n fd callback, Listens s fd ⟨n, .pipeline i call.servInfo, (), callback⟩ := by
  have hidle : s.Idle := by
    have hphased := hs.phased
    rwa [Host.Phased, hphase] at hphased
  have hentered : calls.length ≤ (kinds s).length := hgrown.entered (by rw [hphase]; trivial)
  have hi := (List.getElem?_eq_some_iff.mp hcall).1.trans_le hentered
  -- the last call for this server has not taken its turn
  obtain ⟨m, hm, hnot⟩ := hgrown.heirs i call hcall hi
  obtain ⟨ev, hturn⟩ | ⟨-, fd, callback, hlistens⟩ := pipeline_idle hs hidle hm
  · rw [hturn] at hnot
    exact absurd (List.mem_map_of_mem (List.mem_cons_of_mem _ List.mem_cons_self)) hnot
  · exact ⟨m, fd, callback, hlistens⟩

/-- Whatever clients, peers and the kernel do, down to single reads and writes: no handler is
    registered twice or missing when its event comes; an exception leaves a handler only if the
    kernel refuses a registration, or if a connection has read what its parser throws on, or has
    a file that cannot be read; each connection gets its response, and only that; and when the
    loop waits again, it waits for every server's next connection, has started every connection
    that was accepted, and waits for each that is not over. -/
theorem server_serves {env : Startup} {calls : List CreateCall}
    (hmain : asyncMain env = .ok (calls, none)) (creators : Connection.Creators)
    {inherited : Finset Fd} {es : List (HostEvent (webserv creators))}
    {s : Host (webserv creators)} (hrun : ServerRun creators inherited calls es s) :
    (∀ e ∈ es, e.Harmless) ∧
      (s.phase = .faulted → ∃ n env info f, (kinds s)[n]? = some (.connection env info) ∧
        Connection.fault creators env info (seenBy n es) = some f ∧
          effectsBy n es = [.fault f]) ∧
      (∀ n env info, (kinds s)[n]? = some (.connection env info) →
        Connection.Permitted creators env info (seenBy n es) ∧
          effectsBy n es <+: Connection.complaints creators env info (seenBy n es)) ∧
      (s.phase = .blocking →
        (accepted es).Perm (connections s) ∧
        (∀ i call, calls[i]? = some call →
          ∃ fd w, Listens s fd w ∧ w.kind = .pipeline i call.servInfo) ∧
        ∀ n env info, (kinds s)[n]? = some (.connection env info) →
          Connection.fault creators env info (seenBy n es) = none ∧
            effectsBy n es = Connection.complaints creators env info (seenBy n es) ∧
            ((∀ fd w, s.evStorage.handlers fd = some w → w.task ≠ n) ∧
                Connection.Over creators env info (seenBy n es) ∨
              ∃ fd query callback, Listens s fd ⟨n, .connection env info, query, callback⟩ ∧
                Connection.Awaited creators env info (seenBy n es) query)) := by
  have hstarts := mayStart_calls hmain creators
  have hgrown := hrun.grown hstarts
  obtain ⟨hs, hharmless⟩ := HostRun.good hstarts hrun
  refine ⟨hharmless, hrun.fault_of_faulted hs,
    fun n env info hkind => connection_permitted hs hkind (hrun.faultsLast n), fun hphase => ?_⟩
  -- at a block every call has returned
  have hidle : s.Idle := by
    have hphased := hs.phased
    rwa [Host.Phased, hphase] at hphased
  -- the accepted connections, the pipelines, and each connection
  refine ⟨?_, fun i call hcall => ?_, fun n env info hkind => ?_⟩
  · rw [connections, hgrown.connections]
    exact accepted_perm hs hidle
  · obtain ⟨n, fd, callback, hlistens⟩ := hgrown.listens hs hphase hcall
    exact ⟨fd, _, hlistens, rfl⟩
  · refine connection_idle hs hidle hkind (hrun.not_fault ?_ n)
    rw [hphase]
    exact fun heq => by cases heq

/-- The server of `pageStartup` has answered its first connection, and waits for the next one. -/
theorem server_serves_page : asyncMain pageStartup = .ok ([pageCall], none) ∧ ∃ es s,
    ServerRun Connection.parsers {0, 1, 2} [pageCall] es s ∧ s.phase = .blocking ∧
      (accepted es).Perm [([pageServer], fileEnvironment.clientIp)] ∧
      (∃ fd w, Listens s fd w ∧ w.kind = .pipeline 0 [pageServer]) ∧
      Connection.wrote .client (seenBy 2 es) = pageSerializer.bytes ∧
      Connection.Permitted Connection.parsers fileEnvironment [pageServer] (seenBy 2 es) ∧
      effectsBy 2 es = [] := by
  obtain ⟨es, s, hrun, -, hphase, hkinds, hseen⟩ := exists_page_served
  obtain ⟨-, -, hpermitted, hblocking⟩ := server_serves asyncMain_pageStartup Connection.parsers hrun
  -- the third task is the connection, behind two calls of the pipeline
  obtain ⟨hperm, hlistens, hidle⟩ := hblocking hphase
  have hkind : (kinds s)[2]? = some (.connection fileEnvironment [pageServer]) := by
    rw [hkinds]
    rfl
  obtain ⟨-, heffects, -⟩ := hidle 2 _ _ hkind
  refine ⟨asyncMain_pageStartup, es, s, hrun, hphase, ?_, hlistens 0 _ rfl, ?_,
    (hpermitted 2 _ _ hkind).1, ?_⟩
  · rw [connections, hkinds] at hperm
    exact hperm
  · rw [hseen]
    decide +kernel
  · rw [heffects, hseen]
    decide +kernel

end Webserv
