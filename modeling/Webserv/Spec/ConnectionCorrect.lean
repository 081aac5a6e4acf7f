import Webserv.Spec.ConnectionTraces
import Webserv.Spec.EndOfStream
import Webserv.Spec.TaskMeaning

/-!
# A connection, from its bytes to its bytes

From the bytes of the client follows the request, from the request its route,
from the bytes of the peer what the exchange with it has come to, and from that
the response, with the `Route.response` the handler of the request is measured by.
From the same bytes follows whether one of the calls throws; nobody catches
that, and the process ends there.

## Key results

- `ServeRun.effects_prefix`: the effects of a run are what the bytes say
- `ServeRun.fault_of_dead`: a process that has ended had its reason
- `serve_answers_once`: the client gets this response, and nothing else
-/

namespace Webserv.Connection

open Config Futures Fut Http Transition

/-- Who a request is passed on to, and as what. -/
def passedOn (env : Environment) (request : Request) : Route → Option (Peer × Request)
  | .cgi path => some (.cgi path, request)
  | .proxyPass address =>
    some (.proxy (upstream address).1 (upstream address).2, addForwarder env.clientIp request)
  | _ => none

/-- What the exchange has come to, if there is one. -/
def exchangeOf (creators : Creators) (passed : Option (Peer × Request)) (seen : List Seen) :
    List Answered :=
  match passed with
  | none => []
  | some (peer, req) => exchange creators peer req seen

/-- The fault on what the peer has answered. -/
def exchangeFault (passed : Option (Peer × Request)) (seen : List Seen) : Option Fault :=
  passed.bind fun p => peerFault p.1 seen

/-- Nothing but the exchange is seen. -/
inductive Exchanged (passed : Option (Peer × Request)) : List Seen → Prop where
  | nothing : Exchanged passed []
  | exchanging {peer : Peer} {req : Request} {seen : List Seen} (hpassed : passed = some (peer, req))
      (h : Exchanging peer req seen) : Exchanged passed seen

/-! ## The way of a request -/

/-- How far a request on this route has come, with which effects, and which handler waits. -/
inductive Progress (creators : Creators) (env : Environment) (request : Request) (route : Route) :
    List Seen → List ConnectionEffect → Option ConnectionQuery → Prop where
  | exchanging {peer : Peer} {req : Request} {seen : List Seen} {effs : List ConnectionEffect}
      {query : ConnectionQuery} (hpassed : passedOn env request route = some (peer, req))
      (h : Exchanging peer req seen)
      (hresponse : route.response env (exchange creators peer req seen) = none)
      (hfault : UpToFault (exchangeFault (passedOn env request route) seen) [] effs)
      (hquery : query.channel = .peer peer) :
      Progress creators env request route seen effs (some query)
  | responding {seen seen' : List Seen} {effs : List ConnectionEffect} {r : Response}
      {offered : Bytes}
      (h : Exchanged (passedOn env request route) seen)
      (hresponse : route.response env (exchangeOf creators (passedOn env request route) seen) = some r)
      (hfault : UpToFault (exchangeFault (passedOn env request route) seen) [] effs)
      (hsending : Sending .client (ResponseSerializer.new r) seen')
      (hnone : writeError .client seen' = none) :
      Progress creators env request route (seen ++ seen') effs (some (.write .client offered))
  | finished {seen seen' : List Seen} {effs : List ConnectionEffect} {r : Response}
      (h : Exchanged (passedOn env request route) seen)
      (hresponse : route.response env (exchangeOf creators (passedOn env request route) seen) = some r)
      (hfault : UpToFault (exchangeFault (passedOn env request route) seen) [] effs)
      (hsending : Sending .client (ResponseSerializer.new r) seen')
      (hall : writeError .client seen' = none →
        wrote .client seen' = (ResponseSerializer.new r).bytes) :
      Progress creators env request route (seen ++ seen') effs none

/-- The task is made of plain expressions. -/
structure PlainTask (task : Task connectionSignature) : Prop where
  takes : task.Takes 0
  pays : task.Pays connectionEnds 0

/-- The empty task needs nothing. -/
theorem plainTask_done : PlainTask .done := ⟨.done, .done⟩

/-- Nor does an effect. -/
theorem plainTask_perform (effect : ConnectionEffect) : PlainTask (.perform effect .done) :=
  ⟨.perform _ .done, .perform _ .done⟩

/-- A callback needs what its future and its tasks do. -/
theorem Plain.onComplete {t : ConnectionTy} {future : Expr connectionSignature t} (h : Plain future)
    {callback : connectionSignature.Val t → Task connectionSignature}
    (hcallback : ∀ value, PlainTask (callback value)) : PlainTask (.onComplete future callback) :=
  ⟨.onComplete (add_zero 0).symm h.takes fun value => (hcallback value).takes,
    .onComplete h.pays fun value => (hcallback value).pays⟩

/-- The task answers the request on this route. -/
structure Follows (creators : Creators) (env : Environment) (request : Request) (route : Route)
    (task : Task connectionSignature) : Prop where
  plain : PlainTask task
  finishes : ∀ trace, Finishes (bodies creators) task trace →
    Progress creators env request route (answers trace) (effectsOf trace) none
  stops : ∀ trace wait, Stops (bodies creators) task trace wait → ∃ query, wait = .answer query ∧
    Progress creators env request route (answers trace) (effectsOf trace) (some query)

section routes
variable {creators : Creators} {env : Environment} {request : Request} {route : Route}
  {trace : Trace connectionSignature} {wait : Wait connectionSignature}

/-- Nor does a response. -/
theorem plainTask_respond (r : Response) : PlainTask (respond r) :=
  (plain_send .client _).onComplete fun _ => plainTask_done

/-- A response is written whole unless a write failed. -/
theorem finishes_respond {r : Response} (h : Finishes (bodies creators) (respond r) trace) :
    effectsOf trace = [] ∧ Sending .client (ResponseSerializer.new r) (answers trace) ∧
      (writeError .client (answers trace) = none →
        wrote .client (answers trace) = (ResponseSerializer.new r).bytes) := by
  obtain ⟨trace₁, written, trace₂, hsend, hdone, rfl⟩ := finishes_onComplete.mp h
  obtain rfl := finishes_done.mp hdone
  rw [List.append_nil]
  -- all of it was written, or a write has failed
  obtain ⟨hquiet, hsending, ⟨-, hall, -⟩ | ⟨err, -, herr⟩⟩ := delivers_send hsend
  · exact ⟨hquiet, hsending, fun _ => hall⟩
  · exact ⟨hquiet, hsending, fun hnone => absurd (herr.symm.trans hnone) (Option.some_ne_none err)⟩

/-- Before that it is being written. -/
theorem stops_respond {r : Response} (h : Stops (bodies creators) (respond r) trace wait) :
    effectsOf trace = [] ∧ Sending .client (ResponseSerializer.new r) (answers trace) ∧
      writeError .client (answers trace) = none ∧
      ∃ offered, wait = .answer (.write .client offered) := by
  obtain hsend | ⟨_, _, _, _, hdone, _⟩ := stops_onComplete.mp h
  · exact blocks_send hsend
  · exact absurd hdone not_stops_done

/-- A response that is known behind what was seen. -/
theorem Progress.of_finishes {seen : List Seen} {effs : List ConnectionEffect} {r : Response}
    (hexchanged : Exchanged (passedOn env request route) seen)
    (hresponse : route.response env (exchangeOf creators (passedOn env request route) seen) = some r)
    (hfault : UpToFault (exchangeFault (passedOn env request route) seen) [] effs)
    (h : Finishes (bodies creators) (respond r) trace) :
    Progress creators env request route (seen ++ answers trace) (effs ++ effectsOf trace) none := by
  obtain ⟨hquiet, hsending, hall⟩ := finishes_respond h
  rw [hquiet, List.append_nil]
  exact .finished hexchanged hresponse hfault hsending hall

/-- As long as the client has not taken it all. -/
theorem Progress.of_stops {seen : List Seen} {effs : List ConnectionEffect} {r : Response}
    (hexchanged : Exchanged (passedOn env request route) seen)
    (hresponse : route.response env (exchangeOf creators (passedOn env request route) seen) = some r)
    (hfault : UpToFault (exchangeFault (passedOn env request route) seen) [] effs)
    (h : Stops (bodies creators) (respond r) trace wait) : ∃ query, wait = .answer query ∧
      Progress creators env request route (seen ++ answers trace) (effs ++ effectsOf trace)
        (some query) := by
  obtain ⟨hquiet, hsending, hnone, offered, rfl⟩ := stops_respond h
  rw [hquiet, List.append_nil]
  exact ⟨_, rfl, .responding hexchanged hresponse hfault hsending hnone⟩

/-- No bytes of a peer, no fault. -/
theorem exchangeFault_nil (passed : Option (Peer × Request)) : exchangeFault passed [] = none := by
  cases passed <;> rfl

/-- A response that does not depend on an exchange. -/
theorem follows_respond {r : Response}
    (hresponse : route.response env (exchangeOf creators (passedOn env request route) []) = some r) :
    Follows creators env request route (respond r) :=
  have hfault : UpToFault (exchangeFault (passedOn env request route) []) [] [] :=
    exchangeFault_nil (passedOn env request route) ▸ rfl
  { plain := plainTask_respond r
    finishes := fun _ h => Progress.of_finishes .nothing hresponse hfault h
    stops := fun _ _ h => Progress.of_stops .nothing hresponse hfault h }

/-- A response that is what the future delivers. -/
theorem follows_onComplete {peer : Peer} {req : Request} {t : ConnectionTy}
    {future : Expr connectionSignature t}
    {callback : connectionSignature.Val t → Task connectionSignature}
    (toResponse : connectionSignature.Val t → Response)
    (hplain : Plain future) (hpassed : passedOn env request route = some (peer, req))
    (hdelivers : ∀ trace value, Delivers (bodies creators) future trace value →
      Exchanging peer req (answers trace) ∧
        route.response env (exchange creators peer req (answers trace)) = some (toResponse value) ∧
        UpToFault (peerFault peer (answers trace)) [] (effectsOf trace))
    (hblocks : ∀ trace wait, Blocks (bodies creators) future trace wait →
      Exchanging peer req (answers trace) ∧
        route.response env (exchange creators peer req (answers trace)) = none ∧
        UpToFault (peerFault peer (answers trace)) [] (effectsOf trace) ∧
        ((∃ offered, wait = .answer (.write (.peer peer) offered)) ∨
          wait = .answer (.read (.peer peer))))
    (hcallback : ∀ value, callback value = respond (toResponse value)) :
    Follows creators env request route (.onComplete future callback) := by
  -- the exchange of the route is that with this peer
  have hof : ∀ seen, exchangeOf creators (passedOn env request route) seen =
      exchange creators peer req seen := by
    intro seen
    rw [hpassed]
    rfl
  have hfaultOf : ∀ seen, exchangeFault (passedOn env request route) seen = peerFault peer seen := by
    intro seen
    rw [hpassed]
    rfl
  refine ⟨hplain.onComplete fun value => ?_, fun trace h => ?_, fun trace wait h => ?_⟩
  · rw [hcallback]
    exact plainTask_respond _
  · obtain ⟨trace₁, value, trace₂, hfuture, hnext, rfl⟩ := finishes_onComplete.mp h
    -- the exchange is over, and its result is sent
    obtain ⟨hexchanging, hresponse, hfault⟩ := hdelivers _ _ hfuture
    rw [hcallback] at hnext
    rw [answers_append, effectsOf_append]
    exact .of_finishes (.exchanging hpassed hexchanging) ((hof _).symm ▸ hresponse)
      ((hfaultOf _).symm ▸ hfault) hnext
  · -- either the exchange still waits, or the sending does
    obtain hfuture | ⟨trace₁, value, trace₂, hfuture, hnext, rfl⟩ := stops_onComplete.mp h
    · obtain ⟨hexchanging, hresponse, hfault, hwait⟩ := hblocks _ _ hfuture
      have hfault' := (hfaultOf (answers trace)).symm ▸ hfault
      obtain ⟨offered, rfl⟩ | rfl := hwait
      · exact ⟨_, rfl, .exchanging hpassed hexchanging hresponse hfault' rfl⟩
      · exact ⟨_, rfl, .exchanging hpassed hexchanging hresponse hfault' rfl⟩
    · obtain ⟨hexchanging, hresponse, hfault⟩ := hdelivers _ _ hfuture
      rw [hcallback] at hnext
      rw [answers_append, effectsOf_append]
      exact Progress.of_stops (.exchanging hpassed hexchanging) ((hof _).symm ▸ hresponse)
        ((hfaultOf _).symm ▸ hfault) hnext

/-! ## The routes -/

/-- The exchange with a script, if there is one. -/
theorem delivers_cgiSendRequest {path : Bytes} {value : Except Cgi.Error Response}
    (h : Delivers (bodies creators) (cgiSendRequest creators env request path) trace value) :
    Exchanging (.cgi path) request (answers trace) ∧
      (Route.cgi path).outcome env (exchange creators (.cgi path) request (answers trace)) =
        some value.toOption ∧
      UpToFault (peerFault (.cgi path) (answers trace)) [] (effectsOf trace) := by
  rw [cgiSendRequest] at h
  obtain ⟨hfrom, houtcome⟩ | ⟨err, hfrom, houtcome⟩ := objectFrom_cases env path
  · rw [hfrom] at h
    rw [houtcome]
    refine delivers_exchange Except.toOption (fun err trace value herr => ?_)
      (fun trace value hnext => ?_) h
    · obtain ⟨rfl, rfl⟩ := delivers_fromVal.mp herr
      exact ⟨rfl, rfl⟩
    · obtain ⟨trace, res, hread, rfl, rfl⟩ := delivers_map.mp hnext
      obtain ⟨evs, hseen, hres, hfault⟩ := delivers_getResponse hread
      -- the `map` behind it adds nothing
      have hnothing : trace ++ List.map (Note.performed (S := connectionSignature)) [] = trace :=
        List.append_nil _
      refine ⟨evs, res, ?_, hres, ?_, ?_⟩
      · cases res <;> exact (congrArg answers hnothing).trans hseen
      · cases res <;> exact (congrArg effectsOf hnothing).symm ▸ hfault
      · cases res <;> rfl
  · rw [hfrom] at h
    rw [houtcome]
    -- the object could not be made, and nothing is exchanged
    obtain ⟨rfl, rfl⟩ := delivers_fromVal.mp h
    exact ⟨.nil, rfl, rfl⟩

/-- A script that is waited for has not answered. -/
theorem blocks_cgiSendRequest {path : Bytes}
    (h : Blocks (bodies creators) (cgiSendRequest creators env request path) trace wait) :
    Exchanging (.cgi path) request (answers trace) ∧
      (Route.cgi path).outcome env (exchange creators (.cgi path) request (answers trace)) = none ∧
      UpToFault (peerFault (.cgi path) (answers trace)) [] (effectsOf trace) ∧
      ((∃ offered, wait = .answer (.write (.peer (.cgi path)) offered)) ∨
        wait = .answer (.read (.peer (.cgi path)))) := by
  rw [cgiSendRequest] at h
  -- without the pipes and the child there is nothing to wait for
  obtain ⟨hfrom, houtcome⟩ | ⟨err, hfrom, -⟩ := objectFrom_cases env path
  · rw [hfrom] at h
    rw [houtcome]
    refine blocks_exchange (fun err trace wait herr => ?_) (fun trace wait hnext => ?_) h
    · exact not_blocks_fromVal herr
    · exact blocks_getResponse (blocks_map.mp hnext)
  · rw [hfrom] at h
    exact absurd h not_blocks_fromVal

/-- The exchange with a proxy. -/
theorem delivers_requestResponse {peer : Peer} {req : Request} {value : Http.Result Response}
    (h : Delivers (bodies creators) (requestResponse creators peer req) trace value) :
    Exchanging peer req (answers trace) ∧
      exchanged (exchange creators peer req (answers trace)) = some value.toOption ∧
      UpToFault (peerFault peer (answers trace)) [] (effectsOf trace) := by
  refine delivers_exchange Except.toOption (fun err trace value herr => ?_)
    (fun trace value hnext => ?_) h
  · obtain ⟨rfl, rfl⟩ := delivers_fromVal.mp herr
    exact ⟨rfl, rfl⟩
  · obtain ⟨evs, hseen, hres, hfault⟩ := delivers_getResponse hnext
    exact ⟨evs, value, hseen, hres, hfault, rfl⟩

/-- A server that is waited for has not answered. -/
theorem blocks_requestResponse {peer : Peer} {req : Request}
    (h : Blocks (bodies creators) (requestResponse creators peer req) trace wait) :
    Exchanging peer req (answers trace) ∧
      exchanged (exchange creators peer req (answers trace)) = none ∧
      UpToFault (peerFault peer (answers trace)) [] (effectsOf trace) ∧
      ((∃ offered, wait = .answer (.write (.peer peer) offered)) ∨
        wait = .answer (.read (.peer peer))) := by
  refine blocks_exchange (fun err trace wait herr => ?_) (fun trace wait hnext => ?_) h
  · exact not_blocks_fromVal herr
  · exact blocks_getResponse hnext

/-- The exchange with a script needs nothing from outside. -/
theorem plain_cgiSendRequest (path : Bytes) : Plain (cgiSendRequest creators env request path) := by
  rw [cgiSendRequest]
  -- an error is a future that is set at once
  cases Cgi.objectFrom env with
  | error err => exact plain_fromVal _
  | ok _ =>
    refine (plain_send _ _).flatmap fun res => ?_
    cases res with
    | error err => exact plain_fromVal _
    | ok _ =>
      exact (plain_readsResponse _ _).map _

/-- Nor does that with a server. -/
theorem plain_requestResponse (peer : Peer) (req : Request) :
    Plain (requestResponse creators peer req) := by
  refine (plain_send _ _).flatmap fun res => ?_
  cases res with
  | error err => exact plain_fromVal _
  | ok _ => exact plain_readsResponse _ _

/-- The task for a script follows its route. -/
theorem follows_cgi (env : Environment) (request : Request) (path : Bytes) :
    Follows creators env request (.cgi path)
      (.onComplete (cgiSendRequest creators env request path) fun
        | .error _ => respond (withErrorCode status503)
        | .ok response => respond response) := by
  refine follows_onComplete (fun value => value.toOption.getD (withErrorCode status503))
    (plain_cgiSendRequest path) rfl (fun trace value h => ?_) (fun trace wait h => ?_) fun value => ?_
  · -- the exchange is over and gives the response
    obtain ⟨hexchanging, houtcome, hfault⟩ := delivers_cgiSendRequest h
    exact ⟨hexchanging, by rw [Route.response, houtcome]; rfl, hfault⟩
  · -- the exchange is not over and gives none
    obtain ⟨hexchanging, houtcome, hrest⟩ := blocks_cgiSendRequest h
    exact ⟨hexchanging, by rw [Route.response, houtcome]; rfl, hrest⟩
  · cases value <;> rfl

/-- So does the task for a server behind this one. -/
theorem follows_proxy {proxyPass ip : Bytes} {port : ℕ} (request : Request)
    (haddress : proxyAddress proxyPass = .ok (ip, port))
    (hclient : env.connTcpServ (cStr ip) port = .ok ()) :
    Follows creators env request (.proxyPass proxyPass)
      (.onComplete (requestResponse creators (.proxy ip port) (addForwarder env.clientIp request)) fun
        | .error _ => respond (withErrorCode status502)
        | .ok response => respond response) := by
  have houtcome : ∀ answers, (Route.proxyPass proxyPass).outcome env answers = exchanged answers := by
    intro answers
    rw [outcome_proxyPass haddress, hclient]
  -- the request goes out with the forwarder line
  have hpassed : passedOn env request (.proxyPass proxyPass) =
      some (.proxy ip port, addForwarder env.clientIp request) := by
    rw [proxyAddress_eq, Except.ok.injEq] at haddress
    rw [passedOn, haddress]
  refine follows_onComplete (fun value => value.toOption.getD (withErrorCode status502))
    (plain_requestResponse _ _) hpassed (fun trace value h => ?_) (fun trace wait h => ?_) fun value => ?_
  · -- the exchange is over and gives the response
    obtain ⟨hexchanging, hvalue, hfault⟩ := delivers_requestResponse h
    exact ⟨hexchanging, by rw [Route.response, houtcome, hvalue]; rfl, hfault⟩
  · -- the exchange is not over and gives none
    obtain ⟨hexchanging, hvalue, hrest⟩ := blocks_requestResponse h
    exact ⟨hexchanging, by rw [Route.response, houtcome, hvalue]; rfl, hrest⟩
  · cases value <;> rfl

/-- The callback does on each route what it should, unless there is a file it cannot read. -/
theorem requestCallback_follows (creators : Creators) {info : List Server}
    {locPtr : Option (Bytes × Location)} (hlocation : getLocation request info = .ok locPtr)
    (hreadable : ¬ (routeOf locPtr).Unreadable env) : ∃ task,
      requestCallback creators env info (.ok request) = .ok task ∧
      Follows creators env request (routeOf locPtr) task := by
  cases locPtr with
  | none => exact ⟨_, by rw [requestCallback, hlocation]; rfl, follows_respond rfl⟩
  | some entry =>
    obtain ⟨path, loc⟩ := entry
    rw [routeOf] at hreadable ⊢
    split_ifs at hreadable ⊢ with hroot hcgi hproxy
    · -- a file, in front of all other routes
      obtain ⟨res, hstatic, hres⟩ := staticFrom_of_readable hreadable
      cases res with
      | error err =>
        refine ⟨respond (withErrorCode status500), ?_, follows_respond ?_⟩
        · rw [requestCallback, hlocation]
          refine (if_pos hroot).trans ?_
          rw [hstatic]
          rfl
        · rw [Route.response, Route.outcome, ← hres]
          rfl
      | ok response =>
        refine ⟨respond response, ?_, follows_respond ?_⟩
        · rw [requestCallback, hlocation]
          refine (if_pos hroot).trans ?_
          rw [hstatic]
          rfl
        · rw [Route.response, Route.outcome, ← hres]
          rfl
    · -- a script, whether it can be started or not
      refine ⟨_, ?_, follows_cgi env request loc.cgiPath⟩
      rw [requestCallback, hlocation]
      exact (if_neg hroot).trans (if_pos hcgi)
    · -- a server behind this one, if it can be reached
      obtain ⟨⟨ip, port⟩, haddress⟩ : ∃ address, proxyAddress loc.proxyPass = .ok address :=
        ⟨_, proxyAddress_eq loc.proxyPass⟩
      cases hclient : env.connTcpServ (cStr ip) port with
      | error err =>
        refine ⟨respond (withErrorCode status502), ?_, follows_respond ?_⟩
        · rw [requestCallback, hlocation]
          refine (if_neg hroot).trans ((if_neg hcgi).trans ((if_pos hproxy).trans ?_))
          rw [haddress]
          dsimp only [bind, Except.bind]
          rw [Client.from, hclient]
          rfl
        · rw [Route.response, outcome_proxyPass haddress, hclient]
          rfl
      | ok _ =>
        refine ⟨_, ?_, follows_proxy request haddress hclient⟩
        rw [requestCallback, hlocation]
        refine (if_neg hroot).trans ((if_neg hcgi).trans ((if_pos hproxy).trans ?_))
        rw [haddress]
        dsimp only [bind, Except.bind]
        rw [Client.from, hclient]
        rfl
    · refine ⟨_, ?_, follows_respond rfl⟩
      rw [requestCallback, hlocation]
      exact (if_neg hroot).trans ((if_neg hcgi).trans (if_neg hproxy))

/-- The exception of a file that it cannot read leaves the callback. -/
theorem requestCallback_of_unreadable (creators : Creators) {info : List Server}
    {locPtr : Option (Bytes × Location)} (hlocation : getLocation request info = .ok locPtr)
    (h : (routeOf locPtr).Unreadable env) :
    requestCallback creators env info (.ok request) = .error .iosFailure := by
  cases locPtr with
  | none => exact h.elim
  | some entry =>
    obtain ⟨path, loc⟩ := entry
    rw [routeOf] at h
    split_ifs at h with hroot
    -- only a `root` reads a file
    · rw [requestCallback, hlocation]
      refine (if_pos hroot).trans ?_
      rw [staticFrom_of_unreadable h]
      rfl
    all_goals exact h.elim

end routes

/-! ## The connection -/

/-- How far a connection has come, with which effects, and which handler waits. -/
inductive Served (creators : Creators) (env : Environment) (info : List Server) :
    List Seen → List ConnectionEffect → Option ConnectionQuery → Prop where
  | requesting {evs : List ReadEvent} {effs : List ConnectionEffect}
      (hrequest : (readLoop creators.request (.fresh requestFormat) evs).2 = none)
      (hfault : UpToFault (readFault requestFormat (.fresh requestFormat) evs) [] effs) :
      Served creators env info (readsSeen .client evs) effs (some (.read .client))
  | refused {evs : List ReadEvent} {effs : List ConnectionEffect} {err : Http.Error}
      (hrequest : (readLoop creators.request (.fresh requestFormat) evs).2 = some (.error err))
      (hfault : UpToFault (readFault requestFormat (.fresh requestFormat) evs) [] effs) :
      Served creators env info (readsSeen .client evs)
        (effs ++ [.cerr (ascii "Http Request Error\n")]) none
  | unreadable {evs : List ReadEvent} {effs : List ConnectionEffect} {request : Request}
      {locPtr : Option (Bytes × Location)}
      (hrequest : (readLoop creators.request (.fresh requestFormat) evs).2 = some (.ok request))
      (hfault : UpToFault (readFault requestFormat (.fresh requestFormat) evs) [] effs)
      (hlocation : getLocation request info = .ok locPtr)
      (h : (routeOf locPtr).Unreadable env) :
      Served creators env info (readsSeen .client evs) (effs ++ [.fault .iosFailure]) none
  | routed {evs : List ReadEvent} {effs effs' : List ConnectionEffect} {request : Request}
      {locPtr : Option (Bytes × Location)} {seen : List Seen} {query : Option ConnectionQuery}
      (hrequest : (readLoop creators.request (.fresh requestFormat) evs).2 = some (.ok request))
      (hfault : UpToFault (readFault requestFormat (.fresh requestFormat) evs) [] effs)
      (hlocation : getLocation request info = .ok locPtr)
      (hreadable : ¬ (routeOf locPtr).Unreadable env)
      (h : Progress creators env request (routeOf locPtr) seen effs' query) :
      Served creators env info (readsSeen .client evs ++ seen) (effs ++ effs') query

section serve
variable {creators : Creators} {env : Environment} {info : List Server}
  {trace : Trace connectionSignature} {wait : Wait connectionSignature}

/-- With a server configured the lookup does not throw. -/
theorem exists_location (hinfo : info ≠ []) (request : Request) :
    ∃ locPtr, getLocation request info = .ok locPtr :=
  ⟨_, getLocation_eq hinfo⟩

/-- A task of one effect. -/
theorem finishes_perform_done {effect : ConnectionEffect}
    (h : Finishes (bodies creators) (.perform effect .done) trace) : trace = [.performed effect] := by
  obtain ⟨trace, hdone, rfl⟩ := finishes_perform.mp h
  rw [finishes_done.mp hdone]

/-- A task that only performs an effect does not stop half-way. -/
theorem not_stops_perform_done {effect : ConnectionEffect} :
    ¬ Stops (bodies creators) (.perform effect .done) trace wait := by
  intro h
  obtain ⟨_, hdone, -⟩ := stops_perform.mp h
  exact not_stops_done hdone

/-- What was seen when the task has come to its end. -/
theorem serve_finishes (hinfo : info ≠ [])
    (h : Finishes (bodies creators) (serve creators env info) trace) :
    Served creators env info (answers trace) (effectsOf trace) none := by
  obtain ⟨trace₁, value, trace₂, hrequest, hnext, rfl⟩ := finishes_onComplete.mp h
  obtain ⟨evs, hseen, hloop, hfault⟩ := delivers_getRequest hrequest
  rw [answers_append, hseen, effectsOf_append]
  cases value with
  | error err =>
    obtain rfl := finishes_perform_done hnext
    rw [answers_cons_performed, answers_nil, List.append_nil]
    exact .refused hloop hfault
  | ok request =>
    obtain ⟨locPtr, hlocation⟩ := exists_location hinfo request
    -- what opens but cannot be read throws out of the handler
    by_cases hunreadable : (routeOf locPtr).Unreadable env
    · rw [requestCallback_of_unreadable creators hlocation hunreadable] at hnext
      obtain rfl := finishes_perform_done hnext
      rw [answers_cons_performed, answers_nil, List.append_nil]
      exact .unreadable hloop hfault hlocation hunreadable
    · obtain ⟨task, htask, hfollows⟩ := requestCallback_follows creators hlocation hunreadable
      rw [htask] at hnext
      exact .routed hloop hfault hlocation hunreadable (hfollows.finishes _ hnext)

/-- What was seen when it waits. -/
theorem serve_stops (hinfo : info ≠ [])
    (h : Stops (bodies creators) (serve creators env info) trace wait) : ∃ query,
      wait = .answer query ∧
      Served creators env info (answers trace) (effectsOf trace) (some query) := by
  obtain hrequest | ⟨trace₁, value, trace₂, hrequest, hnext, rfl⟩ := stops_onComplete.mp h
  · obtain ⟨evs, hseen, rfl, hloop, hfault⟩ := blocks_getRequest hrequest
    rw [hseen]
    exact ⟨_, rfl, .requesting hloop hfault⟩
  · obtain ⟨evs, hseen, hloop, hfault⟩ := delivers_getRequest hrequest
    rw [answers_append, hseen, effectsOf_append]
    cases value with
    -- the complaint is not waited for
    | error err => exact absurd hnext not_stops_perform_done
    | ok request =>
      obtain ⟨locPtr, hlocation⟩ := exists_location hinfo request
      by_cases hunreadable : (routeOf locPtr).Unreadable env
      · rw [requestCallback_of_unreadable creators hlocation hunreadable] at hnext
        exact absurd hnext not_stops_perform_done
      · obtain ⟨task, htask, hfollows⟩ := requestCallback_follows creators hlocation hunreadable
        rw [htask] at hnext
        obtain ⟨query, hwait, hprogress⟩ := hfollows.stops _ _ hnext
        exact ⟨query, hwait, .routed hloop hfault hlocation hunreadable hprogress⟩

/-- The task of a connection is sound. -/
theorem good_serve (creators : Creators) (env : Environment) (hinfo : info ≠ []) :
    (serve creators env info).Good connectionEnds (bodies creators) := by
  have hrequest : Plain (getRequest creators) := plain_readsRequest _
  have hserve : PlainTask (serve creators env info) := by
    refine hrequest.onComplete fun reqRes => ?_
    cases reqRes with
    | error err => exact plainTask_perform _
    | ok request =>
      obtain ⟨locPtr, hlocation⟩ := exists_location hinfo request
      -- a root that cannot be read ends the process, any other route answers
      by_cases hunreadable : (routeOf locPtr).Unreadable env
      · rw [requestCallback_of_unreadable creators hlocation hunreadable]
        exact plainTask_perform _
      · obtain ⟨task, htask, hfollows⟩ := requestCallback_follows creators hlocation hunreadable
        rw [htask]
        exact hfollows.plain
  exact ⟨guarded_connection, ⟨0, Multiset.nodup_zero, hserve.takes⟩, 0, hserve.pays⟩

end serve

/-! ## What the bytes say -/

/-- The request of the bytes of the client, and its route. -/
def routed (creators : Creators) (info : List Server) (seen : List Seen) :
    Option (Request × Route) :=
  match requested creators seen with
  | some (.ok request) =>
    match getLocation request info with
    | .error _ => none
    | .ok locPtr => some (request, routeOf locPtr)
  | _ => none

/-- Who it is passed on to, and as what. -/
def passed (creators : Creators) (env : Environment) (info : List Server) (seen : List Seen) :
    Option (Peer × Request) :=
  (routed creators info seen).bind fun r => passedOn env r.1 r.2

/-- What it is answered with, once the exchange is over. -/
def responseTo (creators : Creators) (env : Environment) (info : List Server) (seen : List Seen) :
    Option Response :=
  (routed creators info seen).bind fun r =>
    r.2.response env (exchangeOf creators (passedOn env r.1 r.2) seen)

/-- The exception that ends the process, if there is one: of the parser on the bytes of the
    client, of `static_from` on the file, or of the parser on the bytes of the peer. -/
def fault (creators : Creators) (env : Environment) (info : List Server) (seen : List Seen) :
    Option Fault :=
  (readFault requestFormat (.fresh requestFormat) (reads .client seen)).or <|
    (routed creators info seen).bind fun r =>
      if r.2.Unreadable env then some .iosFailure else exchangeFault (passedOn env r.1 r.2) seen

/-- What is written to `cerr`. -/
def refusal (creators : Creators) (seen : List Seen) : List ConnectionEffect :=
  match requested creators seen with
  | some (.error _) => [.cerr (ascii "Http Request Error\n")]
  | _ => []

/-- What is done beside: the process ends, or there is something on `cerr`. -/
def complaints (creators : Creators) (env : Environment) (info : List Server) (seen : List Seen) :
    List ConnectionEffect :=
  orFault (fault creators env info seen) (refusal creators seen)

/-- Each side gets the beginning of what it should get, and not too early: the peer its
    request, the client its response, and nobody else anything. -/
structure Permitted (creators : Creators) (env : Environment) (info : List Server)
    (seen : List Seen) : Prop where
  client : writes .client seen ≠ [] → ∃ r, responseTo creators env info seen = some r ∧
    wrote .client seen <+: (ResponseSerializer.new r).bytes
  peer : ∀ peer, reads (.peer peer) seen ≠ [] ∨ writes (.peer peer) seen ≠ [] → ∃ req,
    passed creators env info seen = some (peer, req) ∧
    wrote (.peer peer) seen <+: (RequestSerializer.new req).bytes ∧
    (reads (.peer peer) seen ≠ [] → wrote (.peer peer) seen = (RequestSerializer.new req).bytes)

/-- A handler waits for what is missing: the request, the end of the exchange, or that the
    client takes the response. -/
def Awaited (creators : Creators) (env : Environment) (info : List Server) (seen : List Seen)
    (query : ConnectionQuery) : Prop :=
  match query.channel with
  | .peer peer => responseTo creators env info seen = none ∧
      ∃ req, passed creators env info seen = some (peer, req)
  | .client => (query = .read .client ∧ requested creators seen = none) ∨
      ∃ offered, query = .write .client offered ∧ (responseTo creators env info seen).isSome

/-- There is no request to answer, or the response was written, unless a write failed. -/
def Over (creators : Creators) (env : Environment) (info : List Server) (seen : List Seen) : Prop :=
  (∃ err, requested creators seen = some (.error err)) ∨
    ∃ r, responseTo creators env info seen = some r ∧
      (writeError .client seen = none → wrote .client seen = (ResponseSerializer.new r).bytes)

section served
variable {creators : Creators} {env : Environment} {info : List Server} {evs : List ReadEvent}
  {seen seen' : List Seen}

/-- The exchange does not touch the client. -/
theorem Exchanged.client {passed : Option (Peer × Request)} (h : Exchanged passed seen) :
    reads .client seen = [] ∧ writes .client seen = [] := by
  cases h with
  | nothing => exact ⟨rfl, rfl⟩
  | exchanging hpassed h => exact h.only .client (Channel.noConfusion)

/-- Only the client is written to. -/
structure Trailing (seen : List Seen) : Prop where
  reads : ∀ channel, reads channel seen = []
  writes : ∀ channel, channel ≠ .client → writes channel seen = []

/-- The response trails what came before it. -/
theorem Sending.trailing {entity : Serializer} (h : Sending .client entity seen) : Trailing seen :=
  ⟨h.reads_eq_nil, fun _ hne => h.writes_eq_nil hne⟩

/-- So does nothing. -/
theorem trailing_nil : Trailing [] := ⟨fun _ => rfl, fun _ _ => rfl⟩

/-- The reads of the request, the exchange and the writes of the response are told apart. -/
structure Split (evs : List ReadEvent) (seen seen' all : List Seen) : Prop where
  readsClient : reads .client all = evs
  writesClient : writes .client all = writes .client seen'
  readsPeer : ∀ peer, reads (.peer peer) all = reads (.peer peer) seen
  writesPeer : ∀ peer, writes (.peer peer) all = writes (.peer peer) seen

/-- What is seen falls into request, exchange and response. -/
theorem Exchanged.split {passed : Option (Peer × Request)} (h : Exchanged passed seen)
    (htrailing : Trailing seen') (evs : List ReadEvent) :
    Split evs seen seen' (readsSeen .client evs ++ (seen ++ seen')) where
  readsClient := by
    rw [reads_append, reads_append, reads_readsSeen, if_pos rfl, h.client.1, htrailing.reads,
      List.append_nil, List.append_nil]
  writesClient := by
    rw [writes_append, writes_append, writes_readsSeen, h.client.2, List.nil_append, List.nil_append]
  readsPeer peer := by
    rw [reads_append, reads_append, reads_readsSeen, if_neg Channel.noConfusion, htrailing.reads,
      List.nil_append, List.append_nil]
  -- what comes behind is written to the client only
  writesPeer peer := by
    rw [writes_append, writes_append, writes_readsSeen, htrailing.writes _ Channel.noConfusion,
      List.nil_append, List.append_nil]

variable {request : Request} {locPtr : Option (Bytes × Location)} {all : List Seen}

section split
variable (h : Split evs seen seen' all)
  (hrequest : (readLoop creators.request (.fresh requestFormat) evs).2 = some (.ok request))
  (hlocation : getLocation request info = .ok locPtr)
include h hrequest hlocation

/-- The route is that of the request. -/
theorem Split.routed : routed creators info all = some (request, routeOf locPtr) := by
  have hrequested : requested creators all = some (.ok request) := by
    rw [requested, h.readsClient, hrequest]
  rw [Connection.routed, hrequested]
  dsimp only
  rw [hlocation]

/-- What is passed on is what the route says. -/
theorem Split.passed : passed creators env info all = passedOn env request (routeOf locPtr) := by
  rw [Connection.passed, h.routed hrequest hlocation, Option.bind_some]

/-- The response is what the route makes of the exchange. -/
theorem Split.responseTo : responseTo creators env info all = (routeOf locPtr).response env
    (exchangeOf creators (passedOn env request (routeOf locPtr)) seen) := by
  rw [Connection.responseTo, h.routed hrequest hlocation, Option.bind_some]
  congr 1
  -- the exchange is what is seen of the peer
  cases passedOn env request (routeOf locPtr) with
  | none => rfl
  | some p => exact exchange_congr (h.readsPeer p.1) (h.writesPeer p.1)

/-- A fault is one of the request's parser, or of the response's. -/
theorem Split.fault (hreadable : ¬ (routeOf locPtr).Unreadable env) :
    Connection.fault creators env info all =
      (readFault requestFormat (.fresh requestFormat) evs).or
        (exchangeFault (passedOn env request (routeOf locPtr)) seen) := by
  rw [Connection.fault, h.readsClient, h.routed hrequest hlocation, Option.bind_some,
    if_neg hreadable]
  -- the fault of an exchange is one of what the peer sent
  have hexchange : exchangeFault (passedOn env request (routeOf locPtr)) all =
      exchangeFault (passedOn env request (routeOf locPtr)) seen := by
    cases passedOn env request (routeOf locPtr) with
    | none => rfl
    | some p => exact congrArg (readFault responseFormat (.fresh responseFormat)) (h.readsPeer p.1)
  rw [hexchange]

omit hlocation in
/-- The request was read. -/
theorem Split.refusal : refusal creators all = [] := by
  rw [Connection.refusal, requested, h.readsClient, hrequest]

/-- Each part keeps to its channel. -/
theorem Split.permitted (hexchanged : Exchanged (passedOn env request (routeOf locPtr)) seen)
    (hresponse : writes .client seen' ≠ [] → ∃ r, (routeOf locPtr).response env
      (exchangeOf creators (passedOn env request (routeOf locPtr)) seen) = some r ∧
        wrote .client seen' <+: (ResponseSerializer.new r).bytes) :
    Permitted creators env info all where
  client hwrites := by
    rw [h.writesClient] at hwrites
    obtain ⟨r, hr, hbegins⟩ := hresponse hwrites
    refine ⟨r, (h.responseTo hrequest hlocation).trans hr, ?_⟩
    rwa [wrote_congr h.writesClient]
  peer peer hused := by
    rw [h.readsPeer, h.writesPeer] at hused
    rw [h.passed hrequest hlocation, h.readsPeer, wrote_congr (h.writesPeer peer)]
    cases hexchanged with
    | nothing => exact absurd hused (by simp [reads, writes])
    | @exchanging peer' req _ hpassed hexchanging =>
      -- only the peer of the route is used
      have hpeer : peer = peer' := by
        by_contra hne
        obtain ⟨hreads, hwrites⟩ := hexchanging.only (.peer peer) fun heq => hne (by injection heq)
        exact hused.elim (fun h => h hreads) fun h => h hwrites
      subst hpeer
      exact ⟨req, hpassed, hexchanging.begins, hexchanging.ordered⟩

end split

/-- Before the request is there nothing else is done. -/
theorem permitted_readsSeen (evs : List ReadEvent) :
    Permitted creators env info (readsSeen .client evs) where
  client hwrites := absurd writes_readsSeen hwrites
  peer peer hused := by
    rw [reads_readsSeen, if_neg Channel.noConfusion, writes_readsSeen] at hused
    exact absurd hused (by simp)

/-- The request is what the loop returns. -/
theorem requested_readsSeen (evs : List ReadEvent) : requested creators (readsSeen .client evs) =
    (readLoop creators.request (.fresh requestFormat) evs).2 := by
  rw [requested, reads_readsSeen, if_pos rfl]

variable {effs : List ConnectionEffect} {query : ConnectionQuery}

/-- In every phase what is written is permitted. -/
theorem Served.permitted {query : Option ConnectionQuery}
    (h : Served creators env info all effs query) : Permitted creators env info all := by
  cases h with
  | requesting => exact permitted_readsSeen _
  | refused => exact permitted_readsSeen _
  | unreadable => exact permitted_readsSeen _
  | @routed evs effs effs' request locPtr seen query hrequest _ hlocation _ h =>
    cases h with
    | exchanging hpassed h =>
      have hexchanged : Exchanged (passedOn env request (routeOf locPtr)) seen :=
        .exchanging hpassed h
      -- the client has not been written to
      have hsplit := hexchanged.split trailing_nil evs
      rw [List.append_nil] at hsplit
      exact hsplit.permitted hrequest hlocation hexchanged fun hne => absurd rfl hne
    -- what the client was sent is a beginning of the response
    | responding hexchanged hresponse _ hsending =>
      exact (hexchanged.split hsending.trailing evs).permitted hrequest hlocation hexchanged
        fun _ => ⟨_, hresponse, hsending.begins⟩
    | finished hexchanged hresponse _ hsending =>
      exact (hexchanged.split hsending.trailing evs).permitted hrequest hlocation hexchanged
        fun _ => ⟨_, hresponse, hsending.begins⟩

/-- What is waited for is what is still missing. -/
theorem Served.awaited (h : Served creators env info all effs (some query)) :
    Awaited creators env info all query := by
  cases h with
  | requesting hrequest => exact .inl ⟨rfl, (requested_readsSeen _).trans hrequest⟩
  | @routed evs effs effs' request locPtr seen query hrequest _ hlocation _ h =>
    cases h with
    | exchanging hpassed h hresponse _ hquery =>
      have hexchanged : Exchanged (passedOn env request (routeOf locPtr)) seen :=
        .exchanging hpassed h
      have hsplit := hexchanged.split trailing_nil evs
      rw [List.append_nil] at hsplit
      -- the handler waits for the peer
      rw [Awaited, hquery]
      refine ⟨?_, _, (hsplit.passed hrequest hlocation).trans hpassed⟩
      rw [hsplit.responseTo hrequest hlocation, hpassed]
      exact hresponse
    | @responding seen seen' _ r offered hexchanged hresponse _ hsending =>
      have hsplit := hexchanged.split hsending.trailing evs
      -- the handler waits for the client to take the rest
      refine .inr ⟨offered, rfl, ?_⟩
      rw [hsplit.responseTo hrequest hlocation, hresponse]
      rfl

/-- Unless the process has ended on the way. -/
theorem Served.over (h : Served creators env info all effs none)
    (hfault : fault creators env info all = none) : Over creators env info all := by
  cases h with
  | refused hrequest => exact .inl ⟨_, (requested_readsSeen _).trans hrequest⟩
  | @unreadable evs effs request locPtr hrequest _ hlocation hunreadable =>
    -- what cannot be read is a fault, which was excluded
    have hrequested := (requested_readsSeen evs).trans hrequest
    rw [fault, Connection.routed, hrequested] at hfault
    dsimp only at hfault
    rw [hlocation, Option.bind_some, if_pos hunreadable, reads_readsSeen, if_pos rfl] at hfault
    exact absurd (Option.or_eq_none_iff.mp hfault).2 (Option.some_ne_none _)
  | @routed evs effs effs' request locPtr seen query hrequest _ hlocation _ h =>
    cases h with
    | @finished seen seen' _ r hexchanged hresponse _ hsending hall =>
      have hsplit := hexchanged.split hsending.trailing evs
      refine .inr ⟨r, (hsplit.responseTo hrequest hlocation).trans hresponse, ?_⟩
      rw [writeError_congr hsplit.writesClient, wrote_congr hsplit.writesClient]
      exact hall

/-- The effects of a request that is passed on, or not. -/
theorem Split.upToFault {effs' : List ConnectionEffect} (h : Split evs seen seen' all)
    (hrequest : (readLoop creators.request (.fresh requestFormat) evs).2 = some (.ok request))
    (hlocation : getLocation request info = .ok locPtr)
    (hreadable : ¬ (routeOf locPtr).Unreadable env)
    (hfault : UpToFault (readFault requestFormat (.fresh requestFormat) evs) [] effs)
    (hfault' : UpToFault (exchangeFault (passedOn env request (routeOf locPtr)) seen) [] effs') :
    UpToFault (Connection.fault creators env info all) (Connection.refusal creators all)
      (effs ++ effs') := by
  rw [h.fault hrequest hlocation hreadable, h.refusal hrequest]
  exact hfault.append hfault'

/-- The effects are those that the bytes say, up to the end of the process. -/
theorem Served.upToFault {query : Option ConnectionQuery}
    (h : Served creators env info all effs query) :
    UpToFault (fault creators env info all) (refusal creators all) effs := by
  cases h with
  | @requesting evs effs hrequest hfault =>
    have hrequested := (requested_readsSeen evs).trans hrequest
    rw [fault, refusal, Connection.routed, hrequested, reads_readsSeen, if_pos rfl, ← List.append_nil effs]
    exact hfault.append (show UpToFault none _ [] from rfl)
  -- the line on `cerr` is the last effect
  | @refused evs effs err hrequest hfault =>
    have hrequested := (requested_readsSeen evs).trans hrequest
    rw [fault, refusal, Connection.routed, hrequested, reads_readsSeen, if_pos rfl]
    exact hfault.append (show UpToFault none _ [.cerr (ascii "Http Request Error\n")] from rfl)
  -- the exception of `static_from` is the last effect
  | @unreadable evs effs request locPtr hrequest hfault hlocation hunreadable =>
    have hrequested := (requested_readsSeen evs).trans hrequest
    rw [fault, refusal, Connection.routed, hrequested, reads_readsSeen, if_pos rfl]
    dsimp only
    rw [hlocation, Option.bind_some, if_pos hunreadable]
    exact hfault.append (show UpToFault (some .iosFailure) _ _ from List.prefix_rfl)
  | @routed evs effs effs' request locPtr seen query hrequest hfault hlocation hreadable h =>
    cases h with
    | exchanging hpassed h _ hfault' =>
      have hexchanged : Exchanged (passedOn env request (routeOf locPtr)) seen :=
        .exchanging hpassed h
      -- the response has not begun
      have hsplit := hexchanged.split trailing_nil evs
      rw [List.append_nil] at hsplit
      exact hsplit.upToFault hrequest hlocation hreadable hfault hfault'
    | responding hexchanged _ hfault' hsending =>
      exact (hexchanged.split hsending.trailing evs).upToFault hrequest hlocation hreadable hfault
        hfault'
    | finished hexchanged _ hfault' hsending =>
      exact (hexchanged.split hsending.trailing evs).upToFault hrequest hlocation hreadable hfault
        hfault'

end served

/-! ## Runs -/

section runs
variable {creators : Creators} {env : Environment} {info : List Server}
  {es : List (Event connectionSignature)} {c : Config connectionSignature} {dead : Bool}

/-- When every call has returned the connection is in one of its phases. -/
theorem serve_idle (hinfo : info ≠ [])
    (hrun : ProgRun (bodies creators) (serve creators env info).code es c) (hidle : c.Idle) :
    (c.pending = 0 ∧ Served creators env info (answers (notes es)) (effects es) none) ∨
      ∃ handler, c.pending = {handler} ∧
        Served creators env info (answers (notes es)) (effects es) (some handler.1) := by
  rw [effects_notes]
  cases (good_serve creators env hinfo).outcome_notes hrun hidle with
  -- the task is over, or it waits for one handler
  | finished hpending h => exact .inl ⟨hpending, serve_finishes hinfo h⟩
  | @asks handler hpending h =>
    obtain ⟨query, hwait, hserved⟩ := serve_stops hinfo h
    cases hwait
    exact .inr ⟨handler, hpending, hserved⟩
  | @waits t contract => exact nomatch contract

/-- What was read and written is there before the threads have gone on. -/
theorem exists_served (hinfo : info ≠ [])
    (hrun : ProgRun (bodies creators) (serve creators env info).code es c) : ∃ es' query,
      effects es <+: es' ∧ Served creators env info (answers (notes es)) es' query := by
  -- let the calls return: nothing more is seen by then
  obtain ⟨es', c', hrun', hidle', hinternal⟩ := (good_serve creators env hinfo).settles hrun
  have hanswers : answers (notes (es ++ es')) = answers (notes es) :=
    answers_notes_append_internal hinternal
  have hbegins : effects es <+: effects (es ++ es') := effects_prefix_append es es'
  rw [← hanswers]
  obtain ⟨-, hserved⟩ | ⟨handler, -, hserved⟩ := serve_idle hinfo hrun' hidle'
  · exact ⟨_, _, hbegins, hserved⟩
  · exact ⟨_, _, hbegins, hserved⟩

/-- So what is written is permitted at any time. -/
theorem permitted_of_run (hinfo : info ≠ [])
    (hrun : ProgRun (bodies creators) (serve creators env info).code es c) :
    Permitted creators env info (answers (notes es)) := by
  obtain ⟨_, _, -, hserved⟩ := exists_served hinfo hrun
  exact hserved.permitted

/-- Without a fault the connection is over, or waits for what is missing. -/
theorem over_or_awaited (hinfo : info ≠ [])
    (hrun : ProgRun (bodies creators) (serve creators env info).code es c) (hidle : c.Idle)
    (hfault : fault creators env info (answers (notes es)) = none) :
    (c.pending = 0 ∧ Over creators env info (answers (notes es))) ∨ ∃ handler,
      c.pending = {handler} ∧ Awaited creators env info (answers (notes es)) handler.1 := by
  obtain ⟨hpending, hserved⟩ | ⟨handler, hpending, hserved⟩ := serve_idle hinfo hrun hidle
  · exact .inl ⟨hpending, hserved.over hfault⟩
  · exact .inr ⟨handler, hpending, hserved.awaited⟩

/-- Only a fault ends the process. -/
theorem exists_fault_of_halts {e : Event connectionSignature} (h : halts e = true) :
    ∃ f, e = .performed (.fault f) := by
  cases e with
  | performed effect =>
    cases effect with
    | cerr line => cases h
    | fault f => exact ⟨f, rfl⟩
  | _ => cases h

/-- A fault is the last thing that is done. -/
theorem ServeRun.effects (h : ServeRun creators env info es (c, dead)) :
    (dead = false → ∀ f, .fault f ∉ effects es) ∧
    (dead = true → ∃ pre f, effects es = pre ++ [.fault f]) ∧ FaultsLast (effects es) := by
  obtain ⟨-, hfalse, htrue⟩ := Run.of_halting h
  -- a fault halts, so the steps before it show none
  have hnot : ∀ es : List (Event connectionSignature), (∀ e ∈ es, halts e = false) →
      ∀ f, .fault f ∉ Futures.effects es := by
    intro es hquiet f hmem
    obtain ⟨e, he, heffect⟩ := List.mem_filterMap.mp hmem
    cases e with
    | performed effect =>
      cases heffect
      cases hquiet _ he
    | _ => cases heffect
  cases dead with
  | false =>
    have hnone := hnot es (hfalse rfl)
    exact ⟨fun _ => hnone, fun heq => (by cases heq), faultsLast_of_notMem hnone⟩
  | true =>
    obtain ⟨pre, e, rfl, hhalts, hquiet⟩ := htrue rfl
    obtain ⟨f, rfl⟩ := exists_fault_of_halts hhalts
    have hf : Futures.effects (pre ++ [.performed (.fault f)]) = Futures.effects pre ++ [.fault f] :=
      List.filterMap_append
    rw [hf]
    exact ⟨fun heq => (by cases heq), fun _ => ⟨_, f, rfl⟩, faultsLast_concat (hnot pre hquiet) _⟩

/-- The effects of a run are what the bytes say. -/
theorem ServeRun.effects_prefix (hinfo : info ≠ [])
    (hrun : ServeRun creators env info es (c, dead)) :
    Futures.effects es <+: complaints creators env info (answers (notes es)) := by
  obtain ⟨es', query, hbegins, hserved⟩ := exists_served hinfo (Run.of_halting hrun).1
  exact hserved.upToFault.prefix hbegins hrun.effects.2.2

/-- An exception is not written to `cerr`. -/
theorem fault_notMem_refusal (f : Fault) (seen : List Seen) : .fault f ∉ refusal creators seen := by
  intro hmem
  rw [refusal] at hmem
  split at hmem
  · cases List.mem_singleton.mp hmem
  · cases hmem

/-- An exception among the effects is the one that the bytes say, and nothing comes before it. -/
theorem fault_of_mem {seen : List Seen} {sofar : List ConnectionEffect} {f : Fault}
    (h : sofar <+: complaints creators env info seen) (hmem : .fault f ∈ sofar) :
    fault creators env info seen = some f ∧ sofar = [.fault f] := by
  rw [complaints] at h
  cases hfault : fault creators env info seen with
  | none =>
    rw [hfault] at h
    -- a refusal is a line, no fault
    exact absurd (h.subset hmem) (fault_notMem_refusal f seen)
  | some f' =>
    rw [hfault] at h
    obtain rfl | ⟨rest, rfl, hrest⟩ := List.prefix_cons_iff.mp h
    · cases hmem
    · rw [List.prefix_nil.mp hrest] at hmem ⊢
      cases List.mem_singleton.mp hmem
      exact ⟨rfl, rfl⟩

/-- The process has ended with the fault that the bytes say. -/
theorem ServeRun.fault_of_dead (hinfo : info ≠ [])
    (hrun : ServeRun creators env info es (c, true)) :
    ∃ f, fault creators env info (answers (notes es)) = some f ∧ Futures.effects es = [.fault f] := by
  obtain ⟨pre, f, heffects⟩ := hrun.effects.2.1 rfl
  have hmem : .fault f ∈ Futures.effects es :=
    heffects ▸ List.mem_append_right pre (List.mem_singleton_self _)
  exact ⟨f, fault_of_mem (hrun.effects_prefix hinfo) hmem⟩

/-- The effects when every call has returned. -/
theorem serve_upToFault (hinfo : info ≠ [])
    (hrun : ProgRun (bodies creators) (serve creators env info).code es c) (hidle : c.Idle) :
    UpToFault (fault creators env info (answers (notes es))) (refusal creators (answers (notes es)))
      (Futures.effects es) := by
  obtain ⟨-, hserved⟩ | ⟨handler, -, hserved⟩ := serve_idle hinfo hrun hidle
  · exact hserved.upToFault
  · exact hserved.upToFault

/-- Where nothing was thrown, there was no reason to. -/
theorem serve_complaints (hinfo : info ≠ [])
    (hrun : ProgRun (bodies creators) (serve creators env info).code es c) (hidle : c.Idle)
    (hnot : ∀ f, .fault f ∉ Futures.effects es) :
    fault creators env info (answers (notes es)) = none ∧
      Futures.effects es = complaints creators env info (answers (notes es)) := by
  obtain ⟨hfault, heffects⟩ := (serve_upToFault hinfo hrun hidle).eq_of_notMem hnot
  refine ⟨hfault, ?_⟩
  rw [complaints, hfault]
  exact heffects

/-- A process that is still alive has met no fault, and made its complaints. -/
theorem ServeRun.idle (hinfo : info ≠ [])
    (hrun : ServeRun creators env info es (c, false)) (hidle : c.Idle) :
    fault creators env info (answers (notes es)) = none ∧
      Futures.effects es = complaints creators env info (answers (notes es)) :=
  serve_complaints hinfo (Run.of_halting hrun).1 hidle (hrun.effects.1 rfl)

/-- Whatever the client, the peer and the system calls do, in whatever parts: the client gets
    the response that follows from what was read, and only that; its request goes to the peer
    of its location, and to nobody else; and no call waits but for the next read or write.
    The process ends in a call that throws if, and as soon as, the bytes are such or the file
    cannot be read; nothing else is thrown. -/
theorem serve_answers_once (creators : Creators) (env : Environment) (hinfo : info ≠ [])
    (hrun : ServeRun creators env info es (c, dead)) :
    Permitted creators env info (answers (notes es)) ∧
      Futures.effects es <+: complaints creators env info (answers (notes es)) ∧ .uncaught ∉ es ∧
      Inevitably (Halting (Step (bodies creators)) halts) Event.Internal
        (fun s => s.2 = true ∨ s.1.Idle) (c, dead) ∧
      (dead = true → ∃ f, fault creators env info (answers (notes es)) = some f ∧
        Futures.effects es = [.fault f]) ∧
      (dead = false → c.Idle → fault creators env info (answers (notes es)) = none ∧
        Futures.effects es = complaints creators env info (answers (notes es)) ∧
        ((c.pending = 0 ∧ Over creators env info (answers (notes es))) ∨
          ∃ handler, c.pending = {handler} ∧
            Awaited creators env info (answers (notes es)) handler.1)) := by
  have hplain := (Run.of_halting hrun).1
  have hgood := good_serve creators env hinfo
  -- safety is that of the run without its end, progress that of the task
  refine ⟨permitted_of_run hinfo hplain, hrun.effects_prefix hinfo, hgood.not_uncaught hplain,
    (hgood.returns hplain).halting dead, fun hdead => ?_, fun hlive hidle => ?_⟩
  · subst hdead
    exact hrun.fault_of_dead hinfo
  · subst hlive
    obtain ⟨hfault, heffects⟩ := hrun.idle hinfo hidle
    exact ⟨hfault, heffects, over_or_awaited hinfo hplain hidle hfault⟩

end runs

/-! ## The first read -/

/-- The parsers. -/
def parsers : Creators where
  request := requestFormat.creator
  response := responseFormat.creator
  isRequest := requestFormat.isCreator_creator
  isResponse := responseFormat.isCreator_creator

/-- A run from here on to where every call has returned, or the process has ended. -/
theorem ServeRun.settles {creators : Creators} {env : Environment} {info : List Server}
    (hinfo : info ≠ []) {es : List (Event connectionSignature)} {c : Config connectionSignature}
    {dead : Bool} (hrun : ServeRun creators env info es (c, dead)) :
    ∃ es' s, ServeRun creators env info (es ++ es') s ∧ (s.2 = true ∨ s.1.Idle) ∧
      answers (notes (es ++ es')) = answers (notes es) := by
  have hplain := (Run.of_halting hrun).1
  -- a run that may end early settles, too
  have hreturns : Inevitably (Halting (Step (bodies creators)) halts) _ _ (c, dead) :=
    ((good_serve creators env hinfo).returns hplain).halting dead
  obtain ⟨es', s, hrest, hsettled, hinternal⟩ := hreturns.exists_run
  exact ⟨es', s, hrun.append hrest, hsettled, answers_notes_append_internal hinternal⟩

/-- Whatever the first read of the client's socket may give. -/
theorem exists_read (creators : Creators) (env : Environment) {info : List Server}
    (hinfo : info ≠ []) (event : ReadEvent) : ∃ es s, ServeRun creators env info es s ∧
      (s.2 = true ∨ s.1.Idle) ∧ answers (notes es) = [⟨.read .client, event⟩] := by
  have hstart : ServeRun creators env info [] (.start (serve creators env info).code, false) := .nil
  obtain ⟨es, ⟨c, dead⟩, hrun, hsettled, hanswers⟩ := hstart.settles hinfo
  have hnone : answers (notes ([] ++ es)) = [] := hanswers
  -- nothing is read, so there is no fault and no response
  have hfault : fault creators env info [] = none := rfl
  have hrequested : requested creators [] = none := rfl
  have hresponse : responseTo creators env info [] = none := rfl
  cases dead with
  | true =>
    -- nothing is read, so nothing throws
    obtain ⟨f, hf, -⟩ := hrun.fault_of_dead hinfo
    rw [hnone, hfault] at hf
    cases hf
  | false =>
    have hidle : c.Idle := hsettled.resolve_left Bool.false_ne_true
    obtain ⟨-, hover⟩ | ⟨⟨query, handler⟩, hpending, hawaited⟩ :=
      over_or_awaited hinfo (Run.of_halting hrun).1 hidle (hnone ▸ hfault)
    · rw [hnone] at hover
      obtain ⟨err, herr⟩ | ⟨r, hr, -⟩ := hover
      · rw [hrequested] at herr
        cases herr
      · rw [hresponse] at hr
        cases hr
    · rw [hnone] at hawaited
      obtain rfl : query = .read .client := by
        rw [Awaited] at hawaited
        split at hawaited
        · obtain ⟨-, req, hreq⟩ := hawaited
          cases hreq
        · obtain ⟨hquery, -⟩ | ⟨offered, -, hsome⟩ := hawaited
          · exact hquery
          · rw [hresponse] at hsome
            cases hsome
      -- it waits for the client, and is answered
      have hanswered : ServeRun creators env info ([] ++ es ++ [.answered (.read .client) event])
          (_, false) := hrun.snoc (.step (.answer event hpending))
      obtain ⟨es', s, hrun', hsettled', hanswers'⟩ := hanswered.settles hinfo
      refine ⟨_, s, hrun', hsettled', ?_⟩
      rw [hanswers', notes_append, answers_append, hnone]
      rfl

def scriptRead : Seen := ⟨.read .client, .toRead (.ok (ascii "GET /script HTTP/1.1\r\n\r\n"))⟩

/-- A header line that ends with its colon. -/
def hostRead : Seen := ⟨.read .client, .toRead (.ok (ascii "GET / HTTP/1.1\r\nHost:\r\n\r\n"))⟩

/-- A connection that waits to write its response, and one that is the end of the process. -/
theorem serve_answers_once_script :
    (∃ es c, ServeRun parsers busyEnvironment [scriptServer] es (c, false) ∧ c.Idle ∧
      answers (notes es) = [scriptRead] ∧
      responseTo parsers busyEnvironment [scriptServer] (answers (notes es)) =
        some (withErrorCode status503) ∧
      ∃ handler offered, c.pending = {handler} ∧ handler.1 = .write .client offered) ∧
    ∃ es c, ServeRun parsers busyEnvironment [scriptServer] es (c, true) ∧
      answers (notes es) = [hostRead] ∧ Futures.effects es = [.fault .outOfRange] := by
  have hinfo : [scriptServer] ≠ [] := List.cons_ne_nil _ _
  constructor
  · obtain ⟨es, ⟨c, dead⟩, hrun, hsettled, hseen⟩ :=
      exists_read parsers busyEnvironment hinfo scriptRead.2
    change answers (notes es) = [scriptRead] at hseen
    have hfault : fault parsers busyEnvironment [scriptServer] [scriptRead] = none := by
      decide +kernel
    have hscript : responseTo parsers busyEnvironment [scriptServer] [scriptRead] =
        some (withErrorCode status503) := by decide +kernel
    have hrequest : (requested parsers [scriptRead]).map Except.isOk = some true := by
      decide +kernel
    -- nothing of the response has been written
    have hbytes : wrote .client [scriptRead] ≠
        (ResponseSerializer.new (withErrorCode status503)).bytes := by decide +kernel
    obtain ⟨-, -, -, -, hdead, hlive⟩ := serve_answers_once parsers busyEnvironment hinfo hrun
    rw [hseen, hfault] at hdead hlive
    -- nothing faults, so the process is alive
    cases dead with
    | true =>
      obtain ⟨f, hf, -⟩ := hdead rfl
      cases hf
    | false =>
      have hidle : c.Idle := hsettled.resolve_left Bool.false_ne_true
      refine ⟨es, c, hrun, hidle, hseen, hseen ▸ hscript, ?_⟩
      obtain ⟨-, -, ⟨-, hover⟩ | ⟨handler, hpending, hawaited⟩⟩ := hlive rfl hidle
      · obtain ⟨err, herr⟩ | ⟨r, hr, hall⟩ := hover
        · rw [herr] at hrequest
          cases hrequest
        · rw [hscript] at hr
          cases hr
          exact absurd (hall rfl) hbytes
      · rw [Awaited] at hawaited
        split at hawaited
        · obtain ⟨hnot, -⟩ := hawaited
          rw [hscript] at hnot
          cases hnot
        · obtain ⟨-, hnot⟩ | ⟨offered, hquery, -⟩ := hawaited
          · rw [hnot] at hrequest
            cases hrequest
          · exact ⟨handler, offered, hpending, hquery⟩
  · obtain ⟨es, ⟨c, dead⟩, hrun, hsettled, hseen⟩ :=
      exists_read parsers busyEnvironment hinfo hostRead.2
    change answers (notes es) = [hostRead] at hseen
    -- the bare header line faults
    have hfault : fault parsers busyEnvironment [scriptServer] [hostRead] = some .outOfRange := by
      decide +kernel
    obtain ⟨-, -, -, -, hdead, hlive⟩ := serve_answers_once parsers busyEnvironment hinfo hrun
    rw [hseen, hfault] at hdead hlive
    cases dead with
    | true =>
      obtain ⟨f, hf, heffects⟩ := hdead rfl
      cases hf
      exact ⟨es, c, hrun, hseen, heffects⟩
    | false =>
      obtain ⟨hnot, -⟩ := hlive rfl (hsettled.resolve_left Bool.false_ne_true)
      cases hnot

end Webserv.Connection
