import Webserv.Spec.FutureExecution
import Webserv.Spec.ServerTasks

/-!
# Runs of the server

A run of the server is put together from what clients do: the loop blocks, an
event comes, the calls behind it return, and the loop blocks again.  The kernel
refuses nothing here, and the locations are answered without a peer.

## Key results

- `exists_blocking`: the server waits for its first connection
- `exists_accepted`: it accepts a connection
- `exists_answered`: a connection reads or writes
-/

namespace Webserv

open Config Futures Http Io Transition

variable {creators : Connection.Creators} {s s' : Host (webserv creators)}
  {es : List (HostEvent (webserv creators))}

/-! ## Calls that return -/

/-- A task that goes on may start others. -/
theorem kinds_of_wentOn {n : ℕ} {k : ServerTask}
    {c c' : Futures.Config ((webserv creators).signature k)}
    {new : List (Σ k : ServerTask, Futures.Config ((webserv creators).signature k))}
    (h : s.WentOn s' n k c' new) (htask : s.tasks[n]? = some ⟨k, c⟩) :
    kinds s' = kinds s ++ new.map Sigma.fst := by
  have hset : (s.tasks.set n ⟨k, { c' with pending := 0 }⟩).map Sigma.fst = kinds s :=
    kinds_setTask htask
  rw [kinds, h.tasks, List.map_append, hset]

/-- The tasks that a call of `server_pipeline` starts, with this connection. -/
def pipelineSpawn (creators : Connection.Creators) (server : ℕ) (info : List Server)
    (env : Environment) :
    ((webserv creators).signature (.pipeline server info)).Effect → Option ServerTask
  | AcceptEffect.serverPipeline => some (.pipeline server info)
  | AcceptEffect.getRequest _ => some (.connection env info)
  | AcceptEffect.cerr _ => none

section turns
variable {n server : ℕ} {info : List Server} {env : Environment}

/-- What the calls do before they return, when the whole is one turn. -/
theorem effects_of_turn {es₀ es₁ : List (Futures.Event acceptSignature)} {ev₀ ev : AcceptEvent}
    (hall : notes (es₀ ++ es₁) = turn ev) (hbefore : notes es₀ = [.answered () ev₀]) :
    effects es₁ = [.serverPipeline, acceptEffect ev₀.result] := by
  -- the answer is in front of the turn, so it is the same one
  rw [notes_append, hbefore] at hall
  injection hall with hanswer hrest
  injection hanswer with _ hev
  subst hev
  rw [effects_notes, show notes es₁ = _ from hrest]
  rfl

/-- A call of `server_pipeline` that waits has nothing left to do. -/
theorem pipeline_silent {es₀ es₁ : List (Futures.Event acceptSignature)}
    {c : Futures.Config acceptSignature}
    (hrun : ProgRun acceptBodies serverPipeline.code (es₀ ++ es₁) c) (hidle : c.Idle)
    (hbefore : notes es₀ = []) (hinternal : ∀ e ∈ es₁, e.Internal) :
    notes es₁ = [] ∧ effects es₁ = [] := by
  have hnil : notes es₁ = [] := by
    cases good_serverPipeline.outcome_notes hrun hidle with
    | finished _ hfinishes =>
      -- it was not answered
      obtain ⟨ev, hturn⟩ := serverPipeline_finishes hfinishes
      have hanswers := answers_internal hinternal
      rw [notes_append, hbefore, List.nil_append] at hturn
      rw [hturn] at hanswers
      cases hanswers
    | asks _ hstops =>
      obtain ⟨hall, -⟩ := serverPipeline_stops hstops
      rw [notes_append, hbefore] at hall
      exact hall
    | @waits t contract => exact nomatch contract
  rw [effects_notes, hnil]
  exact ⟨rfl, rfl⟩

/-- The turn of a call that was answered. -/
theorem pipeline_turn {es₀ es₁ : List (Futures.Event acceptSignature)}
    {c : Futures.Config acceptSignature}
    (hrun : ProgRun acceptBodies serverPipeline.code (es₀ ++ es₁) c) (hidle : c.Idle)
    {ev : AcceptEvent} (hbefore : notes es₀ = [.answered () ev]) :
    effects es₁ = [.serverPipeline, acceptEffect ev.result] := by
  cases good_serverPipeline.outcome_notes hrun hidle with
  | finished _ hfinishes =>
    obtain ⟨ev', hturn⟩ := serverPipeline_finishes hfinishes
    exact effects_of_turn hturn hbefore
  | asks _ hstops =>
    obtain ⟨hall, -⟩ := serverPipeline_stops hstops
    rw [notes_append, hbefore] at hall
    cases hall
  | @waits t contract => exact nomatch contract

/-- The call of `server_pipeline` that waits. -/
theorem exists_pipeline_waits (hs : s.Good (serverDiscipline creators) es)
    (hactive : s.phase.Active) (hkind : (kinds s)[n]? = some (.pipeline server info))
    (hnil : doneIn n es = []) (hacceptor : s.fds ⟨server, .acceptor⟩ ≠ none) {busy : List ℕ}
    (hbusy : s.IdleBut (n :: busy)) : ∃ es' s', Run HostStep s es' s' ∧
      s'.Good (serverDiscipline creators) (es ++ es') ∧ s'.phase = s.phase ∧
      kinds s' = kinds s ∧ s'.fds = s.fds ∧ s'.kernel.files = s.kernel.files ∧
      s'.IdleBut busy ∧ ∀ m, doneIn m (es ++ es') = doneIn m es := by
  obtain ⟨c, -, htask, -⟩ := exists_run hs hkind
  obtain ⟨es', s', es₀, es₁, c₁, hhost, hs', hwent, hidle, hrun, hinternal, hbefore, hafter, hothers⟩ :=
    hs.settle hactive htask (fun _ => none)
      (fun es₀ es₁ c₁ hrun hidle hbefore hinternal effect heffect => by
        have hnotes : notes es₀ = [] := List.map_eq_nil_iff.mp (hbefore.symm.trans hnil)
        have hnone : effects es₁ = [] := (pipeline_silent hrun hidle hnotes hinternal).2
        rw [hnone] at heffect
        cases heffect)
      (fun _ _ _ => hacceptor)
  have hnotes : notes es₀ = [] := List.map_eq_nil_iff.mp (hbefore.symm.trans hnil)
  -- until a connection comes a call has no effect
  have hsilent : notes es₁ = [] ∧ effects es₁ = [] := pipeline_silent hrun hidle hnotes hinternal
  have hnew : spawned (webserv creators) (k := .pipeline server info) (fun _ => none) es₁ = [] := by
    rw [spawned, hsilent.2]
    rfl
  have hidle' := hwent.idleBut hidle hbusy
  rw [hnew, List.length_nil, List.range'_zero, List.append_nil] at hidle'
  refine ⟨es', s', hhost, hs', hwent.phase, ?_, hwent.fds, hwent.files, hidle', fun m => ?_⟩
  · rw [kinds_of_wentOn hwent htask, hnew]
    exact List.append_nil _
  · by_cases hm : m = n
    · subst hm
      rw [hafter, hnil, notes_append, hnotes, hsilent.1]
      rfl
    · exact hothers m hm

/-- The call of `server_pipeline` that has a connection starts the next one, and serves it. -/
theorem exists_pipeline_turn (hs : s.Good (serverDiscipline creators) es)
    (hactive : s.phase.Active) (hkind : (kinds s)[n]? = some (.pipeline server info))
    (hanswered : doneIn n es =
      [⟨.pipeline server info, .answered () (.toAccept (.ok env.clientIp))⟩])
    (hacceptor : s.fds ⟨server, .acceptor⟩ ≠ none) {busy : List ℕ}
    (hbusy : s.IdleBut (n :: busy)) : ∃ es' s', Run HostStep s es' s' ∧
      s'.Good (serverDiscipline creators) (es ++ es') ∧ s'.phase = s.phase ∧
      kinds s' = kinds s ++ [.pipeline server info, .connection env info] ∧ s'.fds = s.fds ∧
      s'.kernel.files = s.kernel.files ∧
      s'.IdleBut (busy ++ [(kinds s).length, (kinds s).length + 1]) ∧
      ∀ m, m ≠ n → doneIn m (es ++ es') = doneIn m es := by
  obtain ⟨c, -, htask, -⟩ := exists_run hs hkind
  -- one answer is all this call has seen
  have hnotes : ∀ es₀ : List (Futures.Event acceptSignature),
      doneIn n es = (notes es₀).map (Sigma.mk (.pipeline server info)) →
        notes es₀ = [.answered () (.toAccept (.ok env.clientIp))] := by
    intro es₀ hbefore
    have hmap : (notes es₀).map (Sigma.mk (ServerTask.pipeline server info)) =
        (([.answered () (.toAccept (.ok env.clientIp))] : Trace acceptSignature).map
          (Sigma.mk (ServerTask.pipeline server info)) :
          List (Σ k, Note ((webserv creators).signature k))) := hbefore.symm.trans hanswered
    exact trace_eq (A := webserv creators) hmap
  obtain ⟨es', s', es₀, es₁, c₁, hhost, hs', hwent, hidle, hrun, -, hbefore, -, hothers⟩ :=
    hs.settle hactive htask (pipelineSpawn creators server info env)
      (fun es₀ es₁ c₁ hrun hidle hbefore _ effect heffect => by
        have heffects : effects es₁ = [.serverPipeline, .getRequest env.clientIp] :=
          pipeline_turn hrun hidle (hnotes es₀ hbefore)
        rw [heffects] at heffect
        refine ⟨rfl, ?_⟩
        obtain rfl | hrest := List.mem_cons.mp heffect
        · rfl
        · obtain rfl := List.mem_singleton.mp hrest
          exact ⟨env, rfl, rfl⟩)
      (fun _ _ _ => hacceptor)
  -- the turn starts the next call, and the connection
  have hnew : (spawned (webserv creators) (k := .pipeline server info)
      (pipelineSpawn creators server info env) es₁).map Sigma.fst =
        [.pipeline server info, .connection env info] := by
    have heffects : effects es₁ = [.serverPipeline, .getRequest env.clientIp] :=
      pipeline_turn hrun hidle (hnotes es₀ hbefore)
    rw [spawned, heffects]
    rfl
  have hidle' := hwent.idleBut hidle hbusy
  have hlength := congrArg List.length hnew
  rw [List.length_map] at hlength
  have htasks : s.tasks.length = (kinds s).length := (List.length_map _).symm
  rw [hlength, htasks] at hidle'
  refine ⟨es', s', hhost, hs', hwent.phase, ?_, hwent.fds, hwent.files, hidle', hothers⟩
  rw [kinds_of_wentOn hwent htask, hnew]

end turns

/-! ## Connections without a peer -/

namespace Connection

variable {env : Environment} {info : List Server}

/-- No location passes a request on. -/
def Unaided (info : List Server) : Prop := ∀ server ∈ info, ∀ loc ∈ server.locations.entries,
  loc.2.root ≠ [] ∨ loc.2.cgiPath = [] ∧ loc.2.proxyPass = []

/-- Without scripts and servers behind it nothing is passed on. -/
theorem Unaided.passedOn_eq_none (h : Unaided info) (hinfo : info ≠ []) {request : Request}
    {locPtr : Option (Bytes × Location)} (hlocation : getLocation request info = .ok locPtr) :
    passedOn env request (routeOf locPtr) = none := by
  rw [getLocation_eq hinfo] at hlocation
  cases hlocation
  cases hserver : serverFor request info with
  | none => rfl
  | some server =>
    have hmem : server ∈ info := by
      rw [serverFor] at hserver
      split at hserver
      · exact List.mem_of_head? hserver
      · exact List.mem_of_find?_eq_some hserver
    dsimp only
    -- the location is one of the server, and none of them is aided
    cases hloc : (server.locations.entries.filter fun loc => Qualifies request loc).getLast? with
    | none => rfl
    | some loc =>
      have hentry : loc ∈ server.locations.entries :=
        List.mem_of_mem_filter (List.mem_of_mem_getLast? hloc)
      rw [routeOf]
      obtain hroot | ⟨hcgi, hproxy⟩ := h server hmem loc hentry
      · rw [if_pos hroot]
        rfl
      · rw [if_neg (not_not_intro hcgi), if_neg (not_not_intro hproxy)]
        split
        · rfl
        · rfl

/-- Then nobody but the client is waited for. -/
theorem Unaided.kind_eq_client (h : Unaided info) (hinfo : info ≠ [])
    {trace : Trace connectionSignature} {query : ConnectionQuery}
    (hstops : Stops (bodies creators) (serve creators env info) trace (.answer query)) :
    ConnectionQuery.kind query = .client := by
  obtain ⟨query', hwait, hserved⟩ := serve_stops hinfo hstops
  cases hwait
  generalize answers trace = seen, effectsOf trace = effs at hserved
  cases hserved with
  | requesting => rfl
  | routed _ _ hlocation _ hprogress =>
    have hnobody : passedOn env _ _ = none := h.passedOn_eq_none hinfo hlocation
    cases hprogress with
    | exchanging hpassed => cases hnobody.symm.trans hpassed
    | responding => rfl

/-- Calls that have returned have thrown nothing, if what was seen is no reason to. -/
theorem fault_notMem_effects (hinfo : info ≠ []) {es es' : List (Futures.Event connectionSignature)}
    {c : Futures.Config connectionSignature}
    (hrun : ProgRun (bodies creators) (serve creators env info).code (es ++ es') c) (hidle : c.Idle)
    (hinternal : ∀ e ∈ es', e.Internal)
    (hfault : fault creators env info (answers (notes es)) = none) (f : Fault) :
    .fault f ∉ effects es' := by
  have hupTo := serve_upToFault hinfo hrun hidle
  rw [answers_notes_append_internal hinternal, hfault] at hupTo
  have heffects : effects (es ++ es') = refusal creators (answers (notes es)) := hupTo
  intro hmem
  have hall : .fault f ∈ effects (es ++ es') := by
    rw [effects, List.filterMap_append]
    exact List.mem_append_right _ hmem
  rw [heffects] at hall
  exact fault_notMem_refusal f _ hall

end Connection

section connection
variable {n : ℕ} {env : Environment} {info : List Server}

/-- The calls of a connection return, if nothing that it has read is such that they throw. -/
theorem exists_connection_returns (hs : s.Good (serverDiscipline creators) es)
    (hactive : s.phase.Active) (hkind : (kinds s)[n]? = some (.connection env info))
    (hunaided : Connection.Unaided info) (hclient : s.fds ⟨n, .client⟩ ≠ none)
    (hfault : Connection.fault creators env info (seenBy n es) = none) {busy : List ℕ}
    (hbusy : s.IdleBut (n :: busy)) : ∃ es' s', Run HostStep s es' s' ∧
      s'.Good (serverDiscipline creators) (es ++ es') ∧ s'.phase = s.phase ∧
      kinds s' = kinds s ∧ s'.fds = s.fds ∧ s'.IdleBut busy ∧
      ∀ m, seenBy m (es ++ es') = seenBy m es := by
  obtain ⟨c, -, htask, hinfo, -⟩ := exists_run hs hkind
  obtain ⟨es', s', es₀, es₁, c₁, hhost, hs', hwent, hidle, -, hinternal, hbefore, hafter, hothers⟩ :=
    hs.settle hactive htask (fun _ => none)
      (fun es₀ es₁ c₁ hrun hidle hbefore hinternal effect heffect => by
        cases effect with
        | cerr line => exact ⟨rfl, rfl⟩
        | fault f =>
          have hnone := (congrArg _ (seenBy_eq hbefore)).symm.trans hfault
          -- what it reads does not fault, so none of its effects is a fault
          exact absurd heffect
            (Connection.fault_notMem_effects hinfo hrun hidle hinternal hnone f))
      (fun trace query hstops => by
        have hobject : (webserv creators).object (.connection env info) n query = ⟨n, .client⟩ :=
          congrArg (ServerObject.mk n) (hunaided.kind_eq_client hinfo hstops)
        rw [hobject]
        exact hclient)
  -- a connection starts no other task
  have hnew : spawned (webserv creators) (k := .connection env info) (fun _ => none) es₁ = [] :=
    List.filterMap_eq_nil_iff.mpr fun _ _ => rfl
  have hidle' := hwent.idleBut hidle hbusy
  rw [hnew, List.length_nil, List.range'_zero, List.append_nil] at hidle'
  refine ⟨es', s', hhost, hs', hwent.phase, ?_, hwent.fds, hidle', fun m => ?_⟩
  · rw [kinds_of_wentOn hwent htask, hnew]
    exact List.append_nil _
  · by_cases hm : m = n
    · subst hm
      rw [seenBy_eq hafter, seenBy_eq hbefore]
      exact answers_notes_append_internal hinternal
    · rw [seenBy, hothers m hm]
      rfl

end connection

/-! ## What clients do -/

section clients
variable {n server : ℕ} {env : Environment} {info : List Server}

/-- The handler of a waiting call of `server_pipeline` is called with a connection, and the
    socket is made. -/
theorem exists_taken (hs : s.Good (serverDiscipline creators) es) (hphase : s.phase = .blocking)
    (hkind : (kinds s)[n]? = some (.pipeline server info)) (hnil : doneIn n es = [])
    (clientIp : Bytes) {fd : Fd} (hfree : s.kernel.files fd = none) {number : ℕ}
    (hnew : s.fds ⟨number, .client⟩ = none) :
    ∃ es' s', Run HostStep s es' s' ∧ s'.Good (serverDiscipline creators) (es ++ es') ∧
      s'.phase = .running [] ∧ kinds s' = kinds s ∧ s'.IdleBut [n] ∧
      s'.fds ⟨server, .acceptor⟩ ≠ none ∧ s'.fds ⟨number, .client⟩ ≠ none ∧
      doneIn n (es ++ es') =
        [⟨.pipeline server info, .answered () (.toAccept (.ok clientIp))⟩] ∧
      ∀ m, m ≠ n → doneIn m (es ++ es') = doneIn m es := by
  have hidle : s.Idle := by
    have hphased := hs.phased
    rwa [Host.Phased, hphase] at hphased
  -- the call has seen nothing yet, so it listens
  obtain ⟨ev, hturn⟩ | ⟨-, listener, callback, hlistens⟩ := pipeline_idle hs hidle hkind
  · rw [hnil] at hturn
    cases hturn
  have hacceptor : s.fds ⟨server, .acceptor⟩ = some listener := hlistens.2.1
  obtain ⟨es₁, s₁, hrun₁, hs₁, hphase₁, hkinds₁, hbusy₁, hfds₁, hfiles₁, hdone₁, hothers₁⟩ :=
    hs.call hphase hlistens.1 (.toAccept (.ok clientIp))
  have hactive₁ : s₁.phase.Active := by
    rw [hphase₁]
    trivial
  -- `accept` has made a descriptor, which nobody had
  have hopened : HostStep s₁ (.opened ⟨number, .client⟩ fd) (s₁.openObject ⟨number, .client⟩ fd) :=
    .opened hactive₁ (by rw [hfds₁]; exact hnew) (by rw [hfiles₁]; exact hfree)
  have hmade : ∀ o, (s₁.openObject ⟨number, .client⟩ fd).fds o =
      if o = ⟨number, .client⟩ then some fd else s.fds o := by
    intro o
    rw [← hfds₁]
    exact Function.update_apply _ _ _ _
  refine ⟨es₁ ++ [.opened ⟨number, .client⟩ fd], s₁.openObject ⟨number, .client⟩ fd,
    hrun₁.snoc hopened, ?_, hphase₁, hkinds₁, hbusy₁, ?_, ?_, ?_, fun m hm => ?_⟩
  · rw [← List.append_assoc]
    exact (hopened.good hs₁).1
  · have hne : (⟨server, .acceptor⟩ : ServerObject) ≠ ⟨number, .client⟩ := fun heq => by
      injection heq with _ hkinds
      cases hkinds
    rw [hmade, if_neg hne, hacceptor]
    exact Option.some_ne_none _
  · rw [hmade, if_pos rfl]
    exact Option.some_ne_none _
  · rw [← List.append_assoc, doneIn_of_none rfl, hdone₁, hnil]
    rfl
  · rw [← List.append_assoc, doneIn_of_none rfl, hothers₁ m hm]

/-- A waiting call of `server_pipeline` accepts a connection, and everything waits again. -/
theorem exists_accepted (hs : s.Good (serverDiscipline creators) es) (hphase : s.phase = .blocking)
    (hkind : (kinds s)[n]? = some (.pipeline server info)) (hnil : doneIn n es = [])
    (env : Environment) (hunaided : Connection.Unaided info) {fd : Fd}
    (hfree : s.kernel.files fd = none) (hnew : s.fds ⟨(kinds s).length + 1, .client⟩ = none) :
    ∃ es' s', Run HostStep s es' s' ∧ s'.Good (serverDiscipline creators) (es ++ es') ∧
      s'.phase = .blocking ∧
      kinds s' = kinds s ++ [.pipeline server info, .connection env info] ∧
      s'.fds ⟨(kinds s).length + 1, .client⟩ ≠ none ∧
      seenBy ((kinds s).length + 1) (es ++ es') = [] := by
  have hn : n < (kinds s).length := (List.getElem?_eq_some_iff.mp hkind).1
  obtain ⟨es₂, s₂, hrun₂, hs₂, hphase₂, hkinds₂, hbusy₂, hacceptor₂, hclient₂, hdone₂, hothers₂⟩ :=
    exists_taken hs hphase hkind hnil env.clientIp hfree hnew
  -- the two tasks to come have no history
  have hlater : ∀ m, (kinds s).length ≤ m → doneIn m (es ++ es₂) = [] := by
    intro m hm
    rw [hothers₂ m (Nat.ne_of_gt (hn.trans_le hm))]
    exact hs.tasked.later m (by rwa [kinds, List.length_map] at hm)
  have hactive₂ : s₂.phase.Active := by
    rw [hphase₂]
    trivial
  -- the call takes its turn
  obtain ⟨es₃, s₃, hrun₃, hs₃, hphase₃, hkinds₃, hfds₃, -, hbusy₃, hothers₃⟩ :=
    exists_pipeline_turn hs₂ hactive₂ (hkinds₂.symm ▸ hkind) hdone₂ hacceptor₂ hbusy₂
  rw [hkinds₂, List.nil_append] at hbusy₃
  rw [hkinds₂] at hkinds₃
  have hphase₃ : s₃.phase = .running [] := hphase₃.trans hphase₂
  have hactive₃ : s₃.phase.Active := by
    rw [hphase₃]
    trivial
  -- the next call waits
  obtain ⟨es₄, s₄, hrun₄, hs₄, hphase₄, hkinds₄, hfds₄, -, hbusy₄, hdone₄⟩ :=
    exists_pipeline_waits (n := (kinds s).length) hs₃ hactive₃
      (by rw [hkinds₃, List.getElem?_append_right le_rfl, Nat.sub_self]; rfl)
      (by rw [hothers₃ _ hn.ne']; exact hlater _ le_rfl) (hfds₃ ▸ hacceptor₂) hbusy₃
  have hphase₄ : s₄.phase = .running [] := hphase₄.trans hphase₃
  have hactive₄ : s₄.phase.Active := by
    rw [hphase₄]
    trivial
  -- the connection waits
  have hclient : s₄.fds ⟨(kinds s).length + 1, .client⟩ ≠ none := by
    rw [hfds₄, hfds₃]
    exact hclient₂
  have hconnection : (kinds s ++ [.pipeline server info, .connection env info])[(kinds s).length + 1]? =
      some (.connection env info) := by
    simp
  have hseen₄ : seenBy ((kinds s).length + 1) (es ++ es₂ ++ es₃ ++ es₄) = [] := by
    rw [seenBy, hdone₄, hothers₃ _ (Nat.ne_of_gt (Nat.lt_succ_of_lt hn)), hlater _ (Nat.le_succ _)]
    rfl
  obtain ⟨es₅, s₅, hrun₅, hs₅, hphase₅, hkinds₅, hfds₅, hbusy₅, hseen₅⟩ :=
    exists_connection_returns hs₄ hactive₄
      (show (kinds s₄)[(kinds s).length + 1]? = some (.connection env info) by
        rw [hkinds₄, hkinds₃]; exact hconnection)
      hunaided hclient (by rw [hseen₄]; rfl) hbusy₄
  -- and the loop
  obtain ⟨es₆, hrun₆, hs₆, hdone₆⟩ :=
    hs₅.block_again (hphase₅.trans hphase₄) (Host.idleBut_nil.mp hbusy₅)
  refine ⟨es₂ ++ es₃ ++ es₄ ++ es₅ ++ es₆, _,
    (((hrun₂.append hrun₃).append hrun₄).append hrun₅).append hrun₆, ?_, rfl, ?_, ?_, ?_⟩
  · simpa only [List.append_assoc] using hs₆
  · exact hkinds₅.trans (hkinds₄.trans hkinds₃)
  · show s₅.fds ⟨(kinds s).length + 1, .client⟩ ≠ none
    rwa [hfds₅]
  · have hseen : seenBy ((kinds s).length + 1) (es ++ es₂ ++ es₃ ++ es₄ ++ es₅ ++ es₆) = [] := by
      rw [seenBy, hdone₆]
      exact (hseen₅ _).trans hseen₄
    simpa only [List.append_assoc] using hseen

/-- The handler that waits, if the task comes to this query. -/
theorem exists_waiting (hs : s.Good (serverDiscipline creators) es) (hidle : s.Idle)
    (hkind : (kinds s)[n]? = some (.connection env info)) {m : ℕ} {query : ConnectionQuery}
    (hresume : (Connection.serve creators env info).resume (callsOf (Connection.bodies creators) m)
      (seenBy n es) = some (some query)) :
    ∃ fd callback, s.evStorage.handlers fd = some ⟨n, .connection env info, query, callback⟩ := by
  obtain ⟨c, es', htask, hinfo, pending, hrun, hhistory, hwaits⟩ := exists_run hs hkind
  have hidle' : Futures.Config.Idle { c with pending := pending } := hidle n _ c htask
  rw [seenBy_eq hhistory] at hresume
  obtain ⟨handler, hpending⟩ :=
    (Connection.good_serve creators env hinfo).pending_of_resume hrun hidle' hresume
  replace hpending : pending = {⟨query, handler⟩} := hpending
  -- its one pending handler is the one in the storage
  cases hwaits with
  | nobody => exact absurd hpending.symm (Multiset.singleton_ne_zero _)
  | @handler fd query' callback hfd =>
    cases Multiset.singleton_inj.mp hpending
    exact ⟨fd, _, hfd⟩

/-- A connection reads or writes, and everything waits again. -/
theorem exists_answered (hs : s.Good (serverDiscipline creators) es) (hphase : s.phase = .blocking)
    (hkind : (kinds s)[n]? = some (.connection env info)) (hunaided : Connection.Unaided info)
    (hclient : s.fds ⟨n, .client⟩ ≠ none) {m : ℕ} {query : ConnectionQuery}
    (hresume : (Connection.serve creators env info).resume (callsOf (Connection.bodies creators) m)
      (seenBy n es) = some (some query)) (answer : connectionSignature.Answer query)
    (hfault : Connection.fault creators env info (seenBy n es ++ [⟨query, answer⟩]) = none) :
    ∃ es' s', Run HostStep s es' s' ∧ s'.Good (serverDiscipline creators) (es ++ es') ∧
      s'.phase = .blocking ∧ kinds s' = kinds s ∧ s'.fds = s.fds ∧
      seenBy n (es ++ es') = seenBy n es ++ [⟨query, answer⟩] := by
  have hidle : s.Idle := by
    have hphased := hs.phased
    rwa [Host.Phased, hphase] at hphased
  -- the handler that waits is stored, and is called
  obtain ⟨fd, callback, hwaits⟩ := exists_waiting hs hidle hkind hresume
  obtain ⟨es₁, s₁, hrun₁, hs₁, hphase₁, hkinds₁, hbusy₁, hfds₁, -, hdone₁, -⟩ :=
    hs.call hphase hwaits answer
  have hactive₁ : s₁.phase.Active := by
    rw [hphase₁]
    trivial
  have hseen₁ : seenBy n (es ++ es₁) = seenBy n es ++ [⟨query, answer⟩] := by
    rw [seenBy, hdone₁, List.filterMap_append]
    rfl
  -- the connection runs until it waits again, or is done
  obtain ⟨es₂, s₂, hrun₂, hs₂, hphase₂, hkinds₂, hfds₂, hbusy₂, hseen₂⟩ :=
    exists_connection_returns hs₁ hactive₁
      (show (kinds s₁)[n]? = some (.connection env info) by rw [kinds, hkinds₁]; exact hkind)
      hunaided (by rwa [hfds₁]) (hseen₁ ▸ hfault) hbusy₁
  -- then the loop blocks again
  obtain ⟨es₃, hrun₃, hs₃, hdone₃⟩ :=
    hs₂.block_again (hphase₂.trans hphase₁) (Host.idleBut_nil.mp hbusy₂)
  refine ⟨es₁ ++ es₂ ++ es₃, _, (hrun₁.append hrun₂).append hrun₃, ?_, rfl,
    hkinds₂.trans hkinds₁, hfds₂.trans hfds₁, ?_⟩
  · simpa only [List.append_assoc] using hs₃
  · have hseen : seenBy n (es ++ es₁ ++ es₂ ++ es₃) = seenBy n es ++ [⟨query, answer⟩] := by
      rw [seenBy, hdone₃]
      exact (hseen₂ n).trans hseen₁
    simpa only [List.append_assoc] using hseen

/-- A connection reads and writes these, one after the other. -/
theorem exists_served_by {m : ℕ} {as : List Connection.Seen}
    (hs : s.Good (serverDiscipline creators) es) (hphase : s.phase = .blocking)
    (hkind : (kinds s)[n]? = some (.connection env info)) (hunaided : Connection.Unaided info)
    (hclient : s.fds ⟨n, .client⟩ ≠ none)
    (hfits : (Connection.serve creators env info).Fits (callsOf (Connection.bodies creators) m)
      (seenBy n es) as)
    (hfault : ∀ i < as.length,
      Connection.fault creators env info (seenBy n es ++ as.take (i + 1)) = none) :
    ∃ es' s', Run HostStep s es' s' ∧ s'.Good (serverDiscipline creators) (es ++ es') ∧
      s'.phase = .blocking ∧ kinds s' = kinds s ∧ s'.fds = s.fds ∧
      seenBy n (es ++ es') = seenBy n es ++ as := by
  -- induction on the answers, one turn of the loop for each
  induction as using List.reverseRecOn with
  | nil =>
    refine ⟨[], s, .nil, by rwa [List.append_nil], hphase, rfl, rfl, ?_⟩
    rw [List.append_nil, List.append_nil]
  | append_singleton as a ih =>
    obtain ⟨es₁, s₁, hrun₁, hs₁, hphase₁, hkinds₁, hfds₁, hseen₁⟩ := ih
      (fun i hi => by
        have hfit := hfits i (hi.trans (by simp))
        rwa [List.take_append_of_le_length hi.le, List.getElem?_append_left hi] at hfit)
      (fun i hi => by
        have hnone := hfault i (hi.trans (by simp))
        rwa [List.take_append_of_le_length hi] at hnone)
    -- the last one is the answer to the handler that waits
    have hlast := hfits as.length (by simp)
    rw [List.take_left, List.getElem?_concat_length, ← hseen₁] at hlast
    have hnone := hfault as.length (by simp)
    rw [List.take_of_length_le (by simp), ← List.append_assoc, ← hseen₁] at hnone
    obtain ⟨es₂, s₂, hrun₂, hs₂, hphase₂, hkinds₂, hfds₂, hseen₂⟩ :=
      exists_answered hs₁ hphase₁
        (show (kinds s₁)[n]? = some (.connection env info) from hkinds₁ ▸ hkind) hunaided
        (hfds₁ ▸ hclient) hlast a.2 hnone
    refine ⟨es₁ ++ es₂, s₂, hrun₁.append hrun₂, ?_, hphase₂, hkinds₂.trans hkinds₁,
      hfds₂.trans hfds₁, ?_⟩
    · rwa [← List.append_assoc]
    · rw [← List.append_assoc, hseen₂, hseen₁, List.append_assoc]

end clients

/-! ## The first call -/

/-- The server waits for its first connection. -/
theorem exists_blocking (creators : Connection.Creators) {call : CreateCall}
    (hinfo : call.servInfo ≠ []) : ∃ es s, ServerRun creators {0, 1, 2} [call] es s ∧
      s.Good (serverDiscipline creators) es ∧ s.phase = .blocking ∧
      kinds s = [.pipeline 0 call.servInfo] ∧ doneIn 0 es = [] ∧
      (∀ o, s.fds o ≠ none → o = ⟨0, .acceptor⟩) ∧ s.kernel.files 4 = none := by
  have hstarted : ServerRun creators {0, 1, 2} [call] [.started (call.start 0)] _ :=
    .snoc .nil (.started rfl)
  -- the listening socket of the server
  have hopened := hstarted.snoc
    (show HostStep _ (.opened ⟨0, .acceptor⟩ 3) _ from .opened trivial rfl rfl)
  have hmay : ∀ start ∈ [call].map CreateCall.start, (serverDiscipline creators).MayStart start := by
    intro start hstart
    obtain rfl := List.mem_singleton.mp hstart
    exact mayStart_pipeline creators hinfo
  obtain ⟨hs, -⟩ := HostRun.good hmay hopened
  obtain ⟨es', s', hrun', hs', hphase', hkinds', hfds', hfiles', hbusy', hdone'⟩ :=
    exists_pipeline_waits hs trivial
      (show (kinds _)[0]? = some (.pipeline 0 call.servInfo) from rfl) rfl (Option.some_ne_none _)
      (show Host.IdleBut _ [0] from fun m k c htask hm => by
        cases m with
        | zero => exact absurd List.mem_cons_self hm
        | succ m => cases htask)
  -- `async_main` has returned to the loop
  have hentered : HostStep s' .entered { s' with phase := .blocking } :=
    .entered hphase' (Host.idleBut_nil.mp hbusy')
  refine ⟨_, _, (hopened.append hrun').snoc hentered, (hentered.good hs').1, rfl, hkinds', ?_,
    fun o ho => ?_, ?_⟩
  · rw [doneIn_of_none rfl, hdone']
    rfl
  · rw [hfds'] at ho
    by_contra hne
    exact ho (Function.update_of_ne hne _ _)
  · rw [hfiles']
    rfl

/-! ## A page -/

/-- A server on port 8080 that has one page. -/
def pageStartup : Startup where
  argc := 2
  confFile := some (ascii ("http \x7b server \x7b listen 8080;" ++
    " location / \x7b root /a.html; accepted_method GET; \x7d \x7d \x7d"))
  create _ _ := .ok ()

/-- A server that hands over a page. -/
def pageServer : Server where
  listen := ascii "8080"
  serverName := []
  locations := (∅ : OrderedMap Bytes Location).insert (ascii "/")
    { acceptedMethods := {ascii "GET"}, root := ascii "/a.html" }

/-- The call that starts it. -/
def pageCall : CreateCall := ⟨[], 8080, [pageServer]⟩

/-- `async_main` starts one server. -/
theorem asyncMain_pageStartup : asyncMain pageStartup = .ok ([pageCall], none) := by
  decide +kernel

/-- The page, written to the client that has asked for it. -/
def pageSerializer : Serializer := ResponseSerializer.new (page (ascii "text/html") (ascii "hi"))

/-- What is read and written for it. -/
def pageSeen : List Connection.Seen :=
  [Connection.readAll .client (ascii "GET / HTTP/1.1\r\n\r\n"),
    Connection.writeAll .client pageSerializer.headers,
    Connection.writeAll .client pageSerializer.body]

/-- The connection can go on like this. -/
theorem pageSeen_fits : (Connection.serve Connection.parsers fileEnvironment [pageServer]).Fits
    (callsOf (Connection.bodies Connection.parsers) 4) [] pageSeen := by
  decide +kernel

/-- It meets no fault. -/
theorem pageSeen_fault : ∀ i < pageSeen.length, Connection.fault Connection.parsers fileEnvironment
    [pageServer] ([] ++ pageSeen.take (i + 1)) = none := by
  decide +kernel

/-- The server has accepted a connection and has answered it, and waits for the next one. -/
theorem exists_page_served : ∃ es s,
    ServerRun Connection.parsers {0, 1, 2} [pageCall] es s ∧
      s.Good (serverDiscipline Connection.parsers) es ∧ s.phase = .blocking ∧
      kinds s = [.pipeline 0 [pageServer], .pipeline 0 [pageServer],
        .connection fileEnvironment [pageServer]] ∧ seenBy 2 es = pageSeen := by
  obtain ⟨es₁, s₁, hrun₁, hs₁, hphase₁, hkinds₁, hnil₁, hfds₁, hfree₁⟩ :=
    exists_blocking Connection.parsers (show pageCall.servInfo ≠ [] from List.cons_ne_nil _ _)
  have hunaided : Connection.Unaided [pageServer] := by
    intro server hserver loc hloc
    obtain rfl := List.mem_singleton.mp hserver
    obtain rfl := List.mem_singleton.mp hloc
    exact .inl (by decide)
  -- the connection is the third task
  have hlength : (kinds s₁).length + 1 = 2 := by rw [hkinds₁]; rfl
  obtain ⟨es₂, s₂, hrun₂, hs₂, hphase₂, hkinds₂, hclient₂, hseen₂⟩ :=
    exists_accepted (n := 0) hs₁ hphase₁ (by rw [hkinds₁]; rfl) hnil₁ fileEnvironment hunaided hfree₁
      (by
        by_contra hne
        cases hfds₁ _ hne)
  rw [hlength] at hclient₂ hseen₂
  rw [hkinds₁] at hkinds₂
  obtain ⟨es₃, s₃, hrun₃, hs₃, hphase₃, hkinds₃, -, hseen₃⟩ :=
    exists_served_by (n := 2) hs₂ hphase₂ (by rw [hkinds₂]; rfl) hunaided hclient₂
      (hseen₂ ▸ pageSeen_fits) (hseen₂ ▸ pageSeen_fault)
  rw [hseen₂, List.nil_append] at hseen₃
  exact ⟨_, s₃, (hrun₁.append hrun₂).append hrun₃, hs₃, hphase₃, hkinds₃.trans hkinds₂, hseen₃⟩

end Webserv
