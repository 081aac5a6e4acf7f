import Webserv.Native.Server
import Webserv.Spec.ConfigCorrect
import Webserv.Spec.ConnectionCorrect
import Webserv.Spec.HostPort
import Webserv.Spec.HostedTasksRuns

/-!
# The tasks of the server

Each call of `server_pipeline` takes one turn: it is called with a connection or
an error, calls itself again, and then goes on with the connection.  So there is
one of them waiting for each server, and as many connections as were accepted.

## Key results

- `serverPipeline_begins`: what a call of `server_pipeline` does
- `serverDiscipline`: what the tasks of the server keep to
- `ServerRun.grown`: which tasks the calls so far have started
- `exists_run`: each task is in a run of its own
- `pipeline_idle`: where a call of `server_pipeline` stands
-/

namespace Webserv

open Config Futures Http Io Transition

/-! ## One call of `server_pipeline` -/

/-- What is done in a call of `server_pipeline`. -/
def turn (ev : AcceptEvent) : Trace acceptSignature :=
  [.answered () ev, .performed .serverPipeline, .performed (acceptEffect ev.result)]

section pipeline
variable {trace : Trace acceptSignature} {wait : Wait acceptSignature}

/-- One answer of `accept` is delivered. -/
theorem delivers_getConn {res : Except Io.Error Bytes}
    (h : Delivers acceptBodies getConn trace res) :
    ∃ ev : AcceptEvent, trace = [.answered () ev] ∧ res = ev.result := by
  obtain ⟨_, _, hwhen, rfl, rfl⟩ := delivers_map.mp h
  obtain ⟨ev, rfl, rfl⟩ := delivers_when.mp hwhen
  exact ⟨ev, List.append_nil _, rfl⟩

/-- A call that is over has taken one turn. -/
theorem serverPipeline_finishes (h : Finishes acceptBodies serverPipeline trace) :
    ∃ ev, trace = turn ev := by
  obtain ⟨_, res, _, hconn, hrest, rfl⟩ := finishes_onComplete.mp h
  obtain ⟨ev, rfl, rfl⟩ := delivers_getConn hconn
  obtain ⟨_, hnext, rfl⟩ := finishes_perform.mp hrest
  obtain ⟨_, hdone, rfl⟩ := finishes_perform.mp hnext
  obtain rfl := finishes_done.mp hdone
  exact ⟨ev, rfl⟩

/-- A call that waits has done nothing. -/
theorem serverPipeline_stops (h : Stops acceptBodies serverPipeline trace wait) :
    trace = [] ∧ wait = .answer () := by
  obtain hconn | ⟨_, _, _, -, hrest, -⟩ := stops_onComplete.mp h
  · exact blocks_when.mp (blocks_map.mp hconn)
  · obtain ⟨_, hnext, -⟩ := stops_perform.mp hrest
    obtain ⟨_, hdone, -⟩ := stops_perform.mp hnext
    exact absurd hdone not_stops_done

/-- What a call has done begins a turn. -/
theorem serverPipeline_begins (h : Begins acceptBodies serverPipeline trace) :
    ∃ ev, trace <+: turn ev := by
  -- the task ended, so it is a start of a whole turn, or it still waits for the accept
  obtain ⟨trace', h⟩ | ⟨trace', wait, h⟩ := h
  · obtain ⟨ev, htrace⟩ := serverPipeline_finishes h
    exact ⟨ev, trace', htrace⟩
  · obtain ⟨htrace, -⟩ := serverPipeline_stops h
    obtain ⟨rfl, -⟩ := List.append_eq_nil_iff.mp htrace
    exact ⟨.closed, List.nil_prefix⟩

/-- An effect comes behind the connection, and the call itself before what is done with it. -/
theorem serverPipeline_performs {effect : AcceptEffect}
    (h : Begins acceptBodies serverPipeline (trace ++ [.performed effect])) : ∃ ev,
      effect = .serverPipeline ∧ trace = [.answered () ev] ∨
      effect = acceptEffect ev.result ∧
        trace = [.answered () ev, .performed .serverPipeline] := by
  obtain ⟨ev, hturn⟩ := serverPipeline_begins h
  refine ⟨ev, ?_⟩
  obtain ⟨rest, hrest⟩ := hturn
  -- how long the trace is
  match trace, hrest with
  | [], hrest => cases hrest
  | [_], hrest =>
    injection hrest with h₁ hrest
    injection hrest with h₂ hrest
    injection h₂ with h₂
    exact .inl ⟨h₂, by rw [h₁]⟩
  | [_, _], hrest =>
    injection hrest with h₁ hrest
    injection hrest with h₂ hrest
    injection hrest with h₃ hrest
    injection h₃ with h₃
    exact .inr ⟨h₃, by rw [h₁, h₂]⟩
  | _ :: _ :: _ :: _, hrest => simp [turn] at hrest

/-- There is no recursive function to call. -/
def acceptEnds : ∀ t : AcceptTy, acceptSignature.Proc t → ℕ := fun _ proc => nomatch proc

/-- The task of a server is sound. -/
theorem good_serverPipeline : serverPipeline.Good acceptEnds acceptBodies where
  guarded := ⟨fun _ proc => (nomatch proc), fun _ proc => (nomatch proc)⟩
  takes := ⟨0, Multiset.nodup_zero, .onComplete (add_zero 0).symm (.map _ (.when _))
    fun _ => .perform _ (.perform _ .done)⟩
  pays := ⟨0, .onComplete (.map _ (.when _ (Nat.zero_le _))) fun _ => .perform _ (.perform _ .done)⟩

end pipeline

/-! ## Who waits for what -/

/-- What a task of the server has: a call of `server_pipeline` the acceptor, until it
    calls itself again, and a connection what was made for it. -/
def ServerTask.Owns (creators : Connection.Creators) : ∀ k : ServerTask, ℕ →
    Trace ((webserv creators).signature k) → ServerObject → Prop
  | .pipeline server _, _, trace, o =>
    o = ⟨server, .acceptor⟩ ∧ Note.performed AcceptEffect.serverPipeline ∉ trace
  | .connection _ _, n, _, o => o.number = n

/-- The servers of the task. -/
def ServerTask.info : ServerTask → List Server
  | .pipeline _ info => info
  | .connection _ info => info

/-- Each object of the server has one task that may wait for it. -/
def serverDiscipline (creators : Connection.Creators) : Discipline (webserv creators) where
  ends
    | .pipeline _ _ => acceptEnds
    | .connection _ _ => Connection.connectionEnds
  Allowed k := k.info ≠ []
  good
    | .pipeline _ _, _ => good_serverPipeline
    | .connection env _, hinfo => Connection.good_serve creators env hinfo
  number o := o.number
  Owns := ServerTask.Owns creators
  waits k n trace query h := by
    cases k with
    | pipeline server info =>
      obtain ⟨rfl, -⟩ := serverPipeline_stops h
      exact ⟨rfl, List.not_mem_nil⟩
    | connection env info => rfl
  shrinks k n trace trace' o h := by
    cases k with
    | pipeline server info => exact ⟨h.1, fun hmem => h.2 (List.mem_append_left _ hmem)⟩
    | connection env info => exact h
  inherits k n trace effect k' hallowed hstarts hbegins := by
    cases k with
    | connection env info => cases hstarts
    | pipeline server info =>
      cases effect with
      | serverPipeline =>
        cases hstarts
        refine ⟨hallowed, fun n' o howns => .inr ⟨⟨howns.1, ?_⟩, fun hgone => hgone.2 (by simp)⟩⟩
        -- the first effect of the call
        obtain ⟨ev, ⟨-, rfl⟩ | ⟨heffect, -⟩⟩ := serverPipeline_performs hbegins
        · exact fun hmem => nomatch List.mem_singleton.mp hmem
        · cases hres : ev.result with
          | error err => rw [hres] at heffect; cases heffect
          | ok clientIp => rw [hres] at heffect; cases heffect
      | getRequest clientIp =>
        obtain ⟨env, -, hnew⟩ := hstarts
        cases hnew
        exact ⟨hallowed, fun n' o howns => .inl howns⟩
      | cerr line => cases hstarts

/-- A server with a configuration may be started. -/
theorem mayStart_pipeline (creators : Connection.Creators) {call : CreateCall}
    (hinfo : call.servInfo ≠ []) : (serverDiscipline creators).MayStart call.start := by
  intro n
  refine ⟨hinfo, fun o howns => ?_⟩
  obtain ⟨rfl, -⟩ := howns
  rfl

instance (creators : Connection.Creators) (k : ServerTask)
    (t : ((webserv creators).signature k).Ty) :
    IsEmpty (((webserv creators).signature k).Contract t) := by
  cases k with
  | pipeline server info => exact inferInstanceAs (IsEmpty Empty)
  | connection env info => exact inferInstanceAs (IsEmpty Empty)

/-! ## What the calls have started -/

/-- The tasks, in the order of their start. -/
def kinds {creators : Connection.Creators} (s : Host (webserv creators)) : List ServerTask :=
  s.tasks.map Sigma.fst

/-- A connection that was accepted, with the server blocks it was accepted for. -/
def acceptedOf {creators : Connection.Creators} :
    (Σ k, Note ((webserv creators).signature k)) → Option (List Server × Bytes)
  | ⟨.pipeline _ info, .answered _ (.toAccept (.ok clientIp))⟩ => some (info, clientIp)
  | _ => none

/-- A connection that a call of `server_pipeline` has gone on with. -/
def startedOf {creators : Connection.Creators} :
    (Σ k, Note ((webserv creators).signature k)) → Option (List Server × Bytes)
  | ⟨.pipeline _ info, .performed (.getRequest clientIp)⟩ => some (info, clientIp)
  | _ => none

/-- A connection that is served. -/
def ServerTask.connection? : ServerTask → Option (List Server × Bytes)
  | .pipeline _ _ => none
  | .connection env info => some (info, env.clientIp)

section started
variable {creators : Connection.Creators} {calls : List CreateCall}
  {s s' : Host (webserv creators)} {es : List (HostEvent (webserv creators))}
  {e : HostEvent (webserv creators)}

/-- The loop was entered. -/
def InLoop : HostPhase ServerTask → Prop
  | .blocking => True
  | .batch _ => True
  | .running _ => True
  | _ => False

/-- The call of `server_pipeline` that has not called itself again. -/
def Heir (s : Host (webserv creators)) (es : List (HostEvent (webserv creators))) (server : ℕ)
    (info : List Server) : Prop :=
  ∃ m, (kinds s)[m]? = some (.pipeline server info) ∧
    ⟨.pipeline server info, .performed AcceptEffect.serverPipeline⟩ ∉ doneIn m es

/-- What the calls so far have left. -/
structure Grown (calls : List CreateCall) (s : Host (webserv creators))
    (es : List (HostEvent (webserv creators))) : Prop where
  starting : ∀ rest, s.phase = .starting rest → (∀ n, doneIn n es = []) ∧
    rest = (calls.drop (kinds s).length).map CreateCall.start ∧
    ∀ k ∈ kinds s, ∃ server info, k = .pipeline server info
  entered : InLoop s.phase → calls.length ≤ (kinds s).length
  heirs : ∀ i call, calls[i]? = some call → i < (kinds s).length → Heir s es i call.servInfo
  connections : (kinds s).filterMap ServerTask.connection? = (done es).filterMap startedOf

/-- The servers of `async_main` have server blocks. -/
theorem servInfo_ne_nil {env : Startup} {calls : List CreateCall} {exit : Option Exit}
    (hmain : asyncMain env = .ok (calls, exit)) : ∀ call ∈ calls, call.servInfo ≠ [] := by
  intro call hcall
  obtain ⟨calls', exit', hmain', hcalls⟩ := asyncMain_calls env
  rw [hmain] at hmain'
  cases hmain'
  obtain ⟨confFile, servConf, config, -, hservConf, hconfig, entry, hentry, rfl⟩ :=
    hcalls call hcall
  obtain ⟨-, rfl⟩ := (okWhen_from (Webserv.Conf.full_of_from hservConf) config).mp hconfig
  -- the servers are grouped by their address, and no group is empty
  rw [entries_serversOf] at hentry
  exact SortedEntries.ne_nil_of_mem_groupByKey hentry

/-- The first calls of `server_pipeline` have the acceptors to themselves. -/
theorem mayStart_calls {env : Startup} {exit : Option Exit}
    (hmain : asyncMain env = .ok (calls, exit)) (creators : Connection.Creators) :
    ∀ start ∈ calls.map CreateCall.start, (serverDiscipline creators).MayStart start := by
  intro start hstart
  obtain ⟨call, hcall, rfl⟩ := List.mem_map.mp hstart
  exact mayStart_pipeline creators (servInfo_ne_nil hmain call hcall)

/-- A task keeps its kind. -/
theorem kinds_setTask {n : ℕ} {k : ServerTask} {c c' : Futures.Config ((webserv creators).signature k)}
    (htask : s.tasks[n]? = some ⟨k, c⟩) : kinds (s.setTask n k c') = kinds s :=
  Host.map_fst_setTask htask c'

/-- A new task comes last. -/
theorem kinds_startTask? (s : Host (webserv creators)) (new : Option ServerTask) :
    kinds (s.startTask? new) = kinds s ++ new.toList := by
  cases new with
  | none => exact (List.append_nil _).symm
  | some k => exact List.map_append

namespace Grown

/-- No call of `server_pipeline` does anything. -/
theorem quiet (h : Grown calls s es) (hkinds : kinds s' = kinds s)
    (hdone : ∀ server info effect, e.done? ≠ some ⟨.pipeline server info, .performed effect⟩)
    (hstarting : ∀ rest, s'.phase = .starting rest → s.phase = .starting rest ∧ e.done? = none)
    (hentered : InLoop s'.phase → InLoop s.phase ∨ s.phase = .starting []) :
    Grown calls s' (es ++ [e]) := by
  constructor
  · -- in `async_main`
    intro rest hphase
    obtain ⟨hold, hnone⟩ := hstarting rest hphase
    obtain ⟨hnil, hrest⟩ := h.starting rest hold
    rw [hkinds]
    refine ⟨fun n => ?_, hrest⟩
    rw [doneIn_snoc, hnil]
    cases hnote : e.note? n with
    | none => rfl
    | some note => rw [done?_of_note? hnote] at hnone; cases hnone
  · intro hloop
    rw [hkinds]
    obtain hloop | hphase := hentered hloop
    · exact h.entered hloop
    · -- nothing was left to start
      obtain ⟨-, hrest, -⟩ := h.starting [] hphase
      have hdrop := List.map_eq_nil_iff.mp hrest.symm
      exact List.drop_eq_nil_iff.mp hdrop
  · intro i call hcall hi
    rw [hkinds] at hi
    -- the heir has not gone on
    obtain ⟨m, hm, hnot⟩ := h.heirs i call hcall hi
    refine ⟨m, by rwa [hkinds], fun hmem => ?_⟩
    rw [doneIn_snoc, List.mem_append, Option.mem_toList] at hmem
    exact hmem.elim hnot fun hnote => hdone _ _ _ (done?_of_note? hnote)
  · rw [hkinds, h.connections, done_snoc, List.filterMap_append]
    cases hnote : e.done? with
    | none => simp
    | some note =>
      obtain ⟨k, note⟩ := note
      cases k with
      | connection env info => simp [startedOf]
      | pipeline server info =>
        cases note with
        | performed effect => exact absurd hnote (hdone _ _ _)
        | _ => simp [startedOf]

/-- Nothing is done, and the phase stays. -/
theorem silent (h : Grown calls s es) (hkinds : kinds s' = kinds s) (hdone : e.done? = none)
    (hphase : s'.phase = s.phase) : Grown calls s' (es ++ [e]) := by
  refine h.quiet hkinds (fun server info effect heq => ?_)
    (fun rest hstarting => ⟨hphase ▸ hstarting, hdone⟩) fun hloop => .inl (hphase ▸ hloop)
  rw [hdone] at heq
  cases heq

/-- Nothing is done, in the loop or on the way to it. -/
theorem rephase (h : Grown calls s es) (hkinds : kinds s' = kinds s) (hdone : e.done? = none)
    (hstarting : ∀ rest, s'.phase ≠ .starting rest)
    (hentered : InLoop s'.phase → InLoop s.phase ∨ s.phase = .starting []) :
    Grown calls s' (es ++ [e]) := by
  refine h.quiet hkinds (fun server info effect heq => ?_)
    (fun rest hphase => absurd hphase (hstarting rest)) hentered
  rw [hdone] at heq
  -- the event starts no task
  cases heq

/-- A call of `server_pipeline` goes on. -/
theorem performed (h : Grown calls s es) (hloop : InLoop s.phase) {n server : ℕ}
    {info : List Server} {effect : AcceptEffect} {new : Option ServerTask}
    (hhistory : ∀ m, (kinds s).length ≤ m → m ≠ n ∧ doneIn m es = [])
    (hphase : s'.phase = s.phase) (hkinds : kinds s' = kinds s ++ new.toList)
    (he : e = .task n (.pipeline server info) (.performed effect))
    (hstarts : effect.Starts server info new) : Grown calls s' (es ++ [e]) := by
  subst he
  have hnote : ∀ m, m ≠ n → doneIn m (es ++ [.task n (.pipeline server info) (.performed effect)]) =
      doneIn m es := fun m hm => doneIn_of_none (task_note?_of_ne _ hm) es
  constructor
  · intro rest hstarting
    rw [hphase] at hstarting
    rw [hstarting] at hloop
    exact hloop.elim
  · intro _
    rw [hkinds, List.length_append]
    exact (h.entered hloop).trans (Nat.le_add_right _ _)
  · intro i call hcall _
    have hi : i < (kinds s).length :=
      (List.getElem?_eq_some_iff.mp hcall).1.trans_le (h.entered hloop)
    obtain ⟨m, hm, hnot⟩ := h.heirs i call hcall hi
    by_cases hsame : effect = .serverPipeline ∧
        ServerTask.pipeline i call.servInfo = .pipeline server info
    · -- the call has started the next one
      obtain ⟨rfl, heq⟩ := hsame
      obtain rfl := hstarts
      obtain ⟨hne, hnil⟩ := hhistory _ le_rfl
      refine ⟨(kinds s).length, ?_, ?_⟩
      · rw [hkinds, heq]
        simp
      · rw [hnote _ hne, hnil]
        exact List.not_mem_nil
    · -- it is another call, or it has not come to the next one yet
      refine ⟨m, ?_, fun hmem => ?_⟩
      · rw [hkinds, List.getElem?_append_left (List.getElem?_eq_some_iff.mp hm).1, hm]
      · rw [doneIn_snoc, List.mem_append, Option.mem_toList] at hmem
        refine hmem.elim hnot fun hmem => hsame ?_
        cases done?_of_note? hmem
        exact ⟨rfl, rfl⟩
  · rw [hkinds, List.filterMap_append, h.connections, done_snoc, List.filterMap_append]
    congr 1
    -- what has been accepted is what has been given a connection
    cases effect with
    | serverPipeline =>
      obtain rfl := hstarts
      rfl
    | getRequest clientIp =>
      obtain ⟨env, rfl, rfl⟩ := hstarts
      rfl
    | cerr line =>
      obtain rfl := hstarts
      rfl

/-- `async_main` goes on to the next server. -/
theorem start (h : Grown calls s es) {start : ℕ → ServerTask} {rest : List (ℕ → ServerTask)}
    (hphase : s.phase = .starting (start :: rest)) (hphase' : s'.phase = .starting rest)
    (hkinds : kinds s' = kinds s ++ [start (kinds s).length])
    (he : e = .started (start (kinds s).length)) : Grown calls s' (es ++ [e]) := by
  subst he
  obtain ⟨hnil, hrest, hpipelines⟩ := h.starting _ hphase
  -- the call that is started is the next one of the list
  obtain ⟨call, later, hdrop, rfl, rfl⟩ := List.map_eq_cons_iff.mp hrest.symm
  have hcall : calls[(kinds s).length]? = some call := by
    rw [← List.head?_drop, hdrop]
    rfl
  have hnote : ∀ m, doneIn m (es ++ [HostEvent.started (A := webserv creators)
      (call.start (kinds s).length)]) = doneIn m es := fun m => doneIn_of_none rfl es
  constructor
  · intro rest' hstarting
    rw [hphase'] at hstarting
    cases hstarting
    refine ⟨fun n => (hnote n).trans (hnil n), ?_, fun k hk => ?_⟩
    · rw [hkinds, List.length_append, List.length_singleton, ← List.drop_drop, hdrop]
      rfl
    · rw [hkinds, List.mem_append] at hk
      obtain hk | hk := hk
      · exact hpipelines k hk
      · exact ⟨_, _, List.mem_singleton.mp hk⟩
  · intro hloop
    rw [hphase'] at hloop
    exact hloop.elim
  · intro i call' hcall' hi
    rw [hkinds, List.length_append, List.length_singleton] at hi
    -- an earlier call keeps its heir, and the new one is its own
    obtain hi | rfl := Nat.lt_succ_iff_lt_or_eq.mp hi
    · obtain ⟨m, hm, hnot⟩ := h.heirs i call' hcall' hi
      refine ⟨m, ?_, by rwa [hnote]⟩
      rw [hkinds, List.getElem?_append_left (List.getElem?_eq_some_iff.mp hm).1, hm]
    · rw [hcall] at hcall'
      cases hcall'
      refine ⟨(kinds s).length, ?_, ?_⟩
      · rw [hkinds, List.getElem?_concat_length]
        rfl
      · rw [hnote, hnil]
        exact List.not_mem_nil
  · rw [hkinds, List.filterMap_append, h.connections, done_snoc]
    simp [CreateCall.start, ServerTask.connection?, HostEvent.done?]

end Grown

/-- Before the loop is entered, nothing is performed. -/
theorem Grown.inLoop_of_performed (h : Grown calls s es)
    (hs : s.Good (serverDiscipline creators) es) (hactive : s.phase.Active) {n : ℕ} {k : ServerTask}
    {c c' : Futures.Config ((webserv creators).signature k)} (htask : s.tasks[n]? = some ⟨k, c⟩)
    {effect : ((webserv creators).signature k).Effect}
    (hstep : Step ((webserv creators).bodies k) c (.performed effect) c') : InLoop s.phase := by
  cases hphase : s.phase with
  | running rest => trivial
  | starting rest =>
    obtain ⟨hnil, -, hpipelines⟩ := h.starting rest hphase
    have hkind : k ∈ kinds s := List.mem_map_of_mem (List.mem_of_getElem? htask)
    obtain ⟨server, info, rfl⟩ := hpipelines k hkind
    -- an effect comes behind an answer, and there was none yet
    obtain ⟨trace, hhistory, hbegins⟩ := hs.tasked.begins_performed htask hstep
    rw [hnil] at hhistory
    obtain rfl := List.map_eq_nil_iff.mp hhistory.symm
    obtain ⟨ev, ⟨-, htrace⟩ | ⟨-, htrace⟩⟩ := serverPipeline_performs hbegins
    · cases htrace
    · cases htrace
  | _ => rw [hphase] at hactive; exact hactive.elim

/-- Each step keeps this. -/
theorem Grown.step (hg : Grown calls s es) (hs : s.Good (serverDiscipline creators) es)
    (h : HostStep s e s') : Grown calls s' (es ++ [e]) := by
  cases h with
  | @started start rest hphase =>
    have hlength : s.tasks.length = (kinds s).length := (List.length_map _).symm
    rw [hlength]
    exact hg.start hphase rfl (kinds_startTask? s (some _)) rfl
  | silent hactive htask hstep hpending => exact hg.silent (kinds_setTask htask) rfl rfl
  | @performed n k c c' new effect hactive htask hstep _ hstarts =>
    have hloop := hg.inLoop_of_performed hs hactive htask hstep
    have hkinds := kinds_startTask? (s.setTask n k c') new
    rw [kinds_setTask htask] at hkinds
    have hphase : ((s.setTask n k c').startTask? new).phase = s.phase := by
      cases new <;> rfl
    cases k with
    -- a connection starts nothing
    | connection env info =>
      obtain rfl := hstarts
      refine hg.quiet (kinds_setTask htask) (fun server info effect heq => ?_)
        (fun rest hstarting => ?_) .inl
      · cases heq
      · rw [show s.phase = .starting rest from hstarting] at hloop
        exact hloop.elim
    | pipeline server info =>
      refine hg.performed hloop (fun m hm => ⟨?_, ?_⟩) hphase hkinds rfl hstarts
      · have hn := (List.getElem?_eq_some_iff.mp htask).1
        rw [kinds, List.length_map] at hm
        omega
      · rw [kinds, List.length_map] at hm
        exact hs.tasked.later m hm
  | @faulted n k c c' effect hactive htask hstep hfaults =>
    cases k with
    | pipeline server info => cases hfaults
    | connection env info =>
      exact hg.quiet (kinds_setTask htask) (fun server info effect heq => by cases heq)
        (fun rest heq => by cases heq) False.elim
  | uncaught hactive htask hstep =>
    exact hg.rephase (kinds_setTask htask) rfl (fun _ heq => by cases heq) False.elim
  -- a registration that is refused ends the process
  | registered granted hactive htask hthread hfd =>
    rw [Host.addHandlerForEvent]
    split
    · exact hg.rephase rfl rfl (fun _ heq => by cases heq) False.elim
    · exact hg.silent (kinds_setTask htask) rfl rfl
  | opened hactive ho hfree => exact hg.silent rfl rfl rfl
  | closed hactive ho hunheld => exact hg.silent rfl rfl rfl
  | abandoned hactive hfree => exact hg.silent rfl rfl rfl
  | entered hphase hidle =>
    exact hg.rephase rfl rfl (fun _ heq => by cases heq) fun _ => .inr hphase
  | block events hphase hregistered hdistinct =>
    exact hg.rephase rfl rfl (fun _ heq => by cases heq)
      fun _ => .inl (by rw [hphase]; trivial)
  | @answered _ ev rest w c answer hphase htake htask =>
    -- the handler is there
    obtain ⟨f, w', -, -, hfound⟩ := hs.takeHandler_eq hphase
    rw [htake] at hfound
    cases hfound
    obtain ⟨n, k, query, callback⟩ := w
    refine hg.quiet (kinds_setTask htask) (fun server info effect heq => ?_)
      (fun _ heq => by cases heq) fun _ => .inl (by rw [hphase]; trivial)
    cases heq
  | lost hphase htake =>
    obtain ⟨f, w, -, -, hfound⟩ := hs.takeHandler_eq hphase
    rw [htake] at hfound
    cases hfound
  -- the phases of the loop change no task
  | returned hphase hidle =>
    exact hg.rephase rfl rfl (fun _ heq => by cases heq)
      fun _ => .inl (by rw [hphase]; trivial)
  | batchDone hphase =>
    exact hg.rephase rfl rfl (fun _ heq => by cases heq)
      fun _ => .inl (by rw [hphase]; trivial)

/-- So it holds in every run. -/
theorem ServerRun.grown {inherited : Finset Fd}
    (hstarts : ∀ start ∈ calls.map CreateCall.start, (serverDiscipline creators).MayStart start)
    (hrun : ServerRun creators inherited calls es s) : Grown calls s es := by
  have hboth : s.Good (serverDiscipline creators) es ∧ Grown calls s es := by
    -- the discipline is needed for each step, so both go together
    refine hrun.history (P := fun es s => s.Good (serverDiscipline creators) es ∧ Grown calls s es)
      ⟨Host.good_start inherited hstarts, ?_⟩ ?_
    · exact {
        starting := fun rest hphase => by
          cases hphase
          exact ⟨fun _ => rfl, rfl, nofun⟩
        entered := fun hloop => hloop.elim
        heirs := fun i call _ hi => absurd hi (Nat.not_lt_zero i)
        connections := rfl }
    · rintro es s e s' ⟨hs, hg⟩ hstep
      exact ⟨(hstep.good hs).1, hg.step hs hstep⟩
  exact hboth.2

end started

/-! ## What is seen of the whole server -/

/-- What a connection has read and written. -/
def seenOf {creators : Connection.Creators} :
    (Σ k, Note ((webserv creators).signature k)) → Option Connection.Seen
  | ⟨.connection _ _, .answered query answer⟩ => some ⟨query, answer⟩
  | _ => none

/-- What a connection has done beside. -/
def effectOf {creators : Connection.Creators} :
    (Σ k, Note ((webserv creators).signature k)) → Option ConnectionEffect
  | ⟨.connection _ _, .performed effect⟩ => some effect
  | _ => none

section views
variable {creators : Connection.Creators}

def seenBy (n : ℕ) (es : List (HostEvent (webserv creators))) : List Connection.Seen :=
  (doneIn n es).filterMap seenOf

def effectsBy (n : ℕ) (es : List (HostEvent (webserv creators))) : List ConnectionEffect :=
  (doneIn n es).filterMap effectOf

/-- The connections that were accepted, with the server blocks they were accepted for. -/
def accepted (es : List (HostEvent (webserv creators))) : List (List Server × Bytes) :=
  (done es).filterMap acceptedOf

/-- The connections that were started. -/
def connections (s : Host (webserv creators)) : List (List Server × Bytes) :=
  (kinds s).filterMap ServerTask.connection?

/-- The loop waits for the descriptor, and has a callback for it. -/
def Listens (s : Host (webserv creators)) (fd : Fd) (w : Waiter (webserv creators)) : Prop :=
  s.evStorage.handlers fd = some w ∧ s.fds w.object = some fd ∧
    ∃ f, s.kernel.files fd = some f ∧ (fd, f) ∈ s.kernel.epoll

variable {s : Host (webserv creators)} {es : List (HostEvent (webserv creators))}

/-- A handler that is stored listens to an object. -/
theorem listens_of_handlers (h : s.Tables) {fd : Fd} {w : Waiter (webserv creators)}
    (hw : s.evStorage.handlers fd = some w) : Listens s fd w := by
  obtain ⟨f, hfile⟩ := Option.ne_none_iff_exists'.mp (h.files_ne_none hw)
  exact ⟨hw, h.waiter fd w hw, f, hfile, (h.epoll fd f).mpr ⟨hfile, by simp [hw]⟩⟩

section connection
variable {n : ℕ} {env : Environment} {info : List Server}
  {es' : List (Futures.Event connectionSignature)}
  (hhistory : doneIn n es = (notes es').map (Sigma.mk (.connection env info)))
include hhistory

/-- What a connection has seen is what its run was answered. -/
theorem seenBy_eq : seenBy n es = answers (notes es') := by
  rw [seenBy, hhistory]
  refine List.filterMap_map.trans (List.filterMap_congr fun note _ => ?_)
  cases note <;> rfl

/-- What it has performed is what its run performed. -/
theorem effectsBy_eq : effectsBy n es = effects es' := by
  rw [effectsBy, hhistory, effects_notes]
  refine List.filterMap_map.trans (List.filterMap_congr fun note _ => ?_)
  cases note <;> rfl

end connection

/-- The run a task is in. -/
theorem exists_run (hs : s.Good (serverDiscipline creators) es) {n : ℕ} {k : ServerTask}
    (hkind : (kinds s)[n]? = some k) : ∃ c es', s.tasks[n]? = some ⟨k, c⟩ ∧ k.info ≠ [] ∧
      ∃ pending, ProgRun ((webserv creators).bodies k) ((webserv creators).task k).code es'
          { c with pending := pending } ∧
        doneIn n es = (notes es').map (Sigma.mk k) ∧ s.Waits n k pending := by
  rw [kinds, List.getElem?_map] at hkind
  obtain ⟨⟨k', c⟩, htask, rfl⟩ := Option.map_eq_some_iff.mp hkind
  obtain ⟨hallowed, -, es', pending, hrun, hhistory, hwaits⟩ := hs.tasked.runs n k' c htask
  exact ⟨c, es', htask, hallowed, pending, hrun, hhistory, hwaits⟩

/-- When every call has returned, a call of `server_pipeline` has taken its turn or waits. -/
theorem pipeline_idle (hs : s.Good (serverDiscipline creators) es) (hidle : s.Idle) {n server : ℕ}
    {info : List Server} (hkind : (kinds s)[n]? = some (.pipeline server info)) :
    (∃ ev, doneIn n es = (turn ev).map (Sigma.mk (.pipeline server info))) ∨
      doneIn n es = [] ∧
        ∃ fd callback, Listens s fd ⟨n, .pipeline server info, (), callback⟩ := by
  obtain ⟨c, es', htask, -, pending, hrun, hhistory, hwaits⟩ := exists_run hs hkind
  have houtcome := good_serverPipeline.outcome_notes hrun (hidle n _ c htask)
  cases houtcome with
  | finished _ hfinishes =>
    obtain ⟨ev, hturn⟩ := serverPipeline_finishes hfinishes
    exact .inl ⟨ev, hhistory.trans (congrArg _ hturn)⟩
  -- it waits, so its handler is stored
  | asks hpending hstops =>
    obtain ⟨hnil, -⟩ := serverPipeline_stops hstops
    refine .inr ⟨hhistory.trans (congrArg _ hnil), ?_⟩
    cases hwaits with
    | nobody => exact absurd hpending.symm (Multiset.singleton_ne_zero _)
    | @handler fd query callback hfd =>
      exact ⟨fd, callback, listens_of_handlers hs.tables hfd⟩
  | @waits t contract => exact nomatch contract

end views

end Webserv
