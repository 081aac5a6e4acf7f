import Webserv.ForStd.Stream
import Webserv.Spec.ConnectionCorrect
import Webserv.Spec.FutureExecution
import Webserv.Spec.MessageStreams
import Webserv.Spec.ServerResponses

/-!
# A server in front of a server

A connection of one server that is passed on to a connection of another one, with
a stream of bytes each way between the two.  Both run `serve`, in any
interleaving, and the bytes arrive in any parts.

## Key results

- `relay_transparent`: the front answers its client with what the back answers
- `relay_never_stuck`: the two do not wait for each other
-/

namespace Webserv.Connection

open Config Futures Fut Http Transition

/-! ## The two servers -/

/-- A server: what the system calls do for it, and its configuration. -/
structure Site where
  env : Environment
  info : List Server

/-- The bytes that were read. -/
def took (channel : Channel) (seen : List Seen) : Bytes := (partsOf (reads channel seen)).flatten

/-- What a handler was called with in this event. -/
def seenIn (e : Event connectionSignature) : List Seen := answers (notes [e])

/-- What a connection does with the bytes of a channel. -/
def port (channel : Channel) : Port (Event connectionSignature) UInt8 where
  sent e := wrote channel (seenIn e)
  taken e := took channel (seenIn e)

/-- The two processes, each of which may have ended, and the streams. -/
abbrev Relay : Type :=
  Linked (Config connectionSignature × Bool) (Config connectionSignature × Bool) UInt8

/-- A run of a connection of `front`, and of the one that `back` has accepted from it. -/
def RelayRun (creators : Creators) (front back : Site) (peer : Peer)
    (es : List (Event connectionSignature ⊕ Event connectionSignature)) (s : Relay) : Prop :=
  LinkedRun (Halting (Step (bodies creators)) halts) (Halting (Step (bodies creators)) halts)
    (port (.peer peer)) (port .client) (.start (serve creators front.env front.info).code, false)
    (.start (serve creators back.env back.info).code, false) es s

/-- What is seen of the front. -/
def frontSeen (es : List (Event connectionSignature ⊕ Event connectionSignature)) : List Seen :=
  answers (notes (lefts es))

/-- What is seen of the back. -/
def backSeen (es : List (Event connectionSignature ⊕ Event connectionSignature)) : List Seen :=
  answers (notes (rights es))

section link
variable {creators : Creators} {front back : Site} {peer : Peer}
  {es : List (Event connectionSignature ⊕ Event connectionSignature)}
  {s : Relay}

/-- The front runs `serve`. -/
theorem RelayRun.serveFront (h : RelayRun creators front back peer es s) :
    ServeRun creators front.env front.info (lefts es) s.left := LinkedRun.left h

/-- So does the back. -/
theorem RelayRun.serveBack (h : RelayRun creators front back peer es s) :
    ServeRun creators back.env back.info (rights es) s.right := LinkedRun.right h

/-- What is written by a connection that goes on. -/
@[simp] theorem wrote_append (channel : Channel) (seen seen' : List Seen) :
    wrote channel (seen ++ seen') = wrote channel seen ++ wrote channel seen' := by
  rw [wrote, writes_append, List.flatMap_append]
  rfl

/-- What is taken by a connection that goes on. -/
@[simp] theorem took_append (channel : Channel) (seen seen' : List Seen) :
    took channel (seen ++ seen') = took channel seen ++ took channel seen' := by
  rw [took, reads_append, partsOf, List.filterMap_append, List.flatten_append]
  rfl

/-- The bytes that leave through a port are those written. -/
theorem flatMap_sent (channel : Channel) (es : List (Event connectionSignature)) :
    es.flatMap (port channel).sent = wrote channel (answers (notes es)) := by
  induction es with
  | nil => rfl
  | cons e es ih =>
    rw [List.flatMap_cons, ih, ← List.singleton_append, notes_append, answers_append, wrote_append]
    rfl

/-- The bytes that enter through it are those read. -/
theorem flatMap_taken (channel : Channel) (es : List (Event connectionSignature)) :
    es.flatMap (port channel).taken = took channel (answers (notes es)) := by
  induction es with
  | nil => rfl
  | cons e es ih =>
    rw [List.flatMap_cons, ih, ← List.singleton_append, notes_append, answers_append, took_append]
    rfl

/-- What the back has read, and what is under way, is what the front has written. -/
theorem relay_toBack (h : RelayRun creators front back peer es s) :
    wrote (.peer peer) (frontSeen es) = took .client (backSeen es) ++ s.toRight := by
  have hsent := LinkedRun.toRight h
  rwa [flatMap_sent, flatMap_taken] at hsent

/-- The same in the other direction. -/
theorem relay_toFront (h : RelayRun creators front back peer es s) :
    wrote .client (backSeen es) = took (.peer peer) (frontSeen es) ++ s.toLeft := by
  have hsent := LinkedRun.toLeft h
  rwa [flatMap_sent, flatMap_taken] at hsent

end link

/-! ## What the two are set up for -/

/-- The front passes the request on to the back, and is connected with it. -/
structure Upstream (front : Site) (ip : Bytes) (port : ℕ) (r : Request) : Prop where
  route : ∃ locPtr address, getLocation r front.info = .ok locPtr ∧
    routeOf locPtr = .proxyPass address ∧ proxyAddress address = .ok (ip, port)
  connected : front.env.connTcpServ (cStr ip) port = .ok ()

/-- Two servers with configurations. -/
structure Deployed (front back : Site) : Prop where
  frontInfo : front.info ≠ []
  backInfo : back.info ≠ []
  nul : Byte.nul ∉ front.env.clientIp
  lf : Byte.lf ∉ front.env.clientIp

/-- A client sends `S`, which the parser takes for `r`.  Messages are cut at the start of a
    line, and those that are passed on can be read again. -/
structure Carried (creators : Creators) (back : Site) (ip : Bytes) (port : ℕ) (S : Bytes)
    (r : Request) (seen seen' : List Seen) : Prop where
  message : requestFormat.outcome [S] = .entity (.ok r)
  nulFree : requestCodec.NulFree S
  sent : took .client seen <+: S
  client : Parser.LineAligned requestFormat (partsOf (reads .client seen))
  toBack : Parser.LineAligned requestFormat (partsOf (reads .client seen'))
  toFront : Parser.LineAligned responseFormat (partsOf (reads (.peer (.proxy ip port)) seen))
  response : ∀ r', responseTo creators back.env back.info seen' = some r' →
    responseCodec.Survives r'

/-- A read or a write between the two failed at the front. -/
def LinkFailed (peer : Peer) (seen : List Seen) : Prop :=
  writeError (.peer peer) seen ≠ none ∨ ReadFailed (reads (.peer peer) seen)

instance (peer : Peer) (seen : List Seen) : Decidable (LinkFailed peer seen) :=
  inferInstanceAs (Decidable (_ ∨ _))

/-- What the client should be answered with: what the back answers the request with, or that
    there is no answer. -/
def Relayed (creators : Creators) (back : Site) (peer : Peer) (seen seen' : List Seen)
    (r' : Response) : Prop :=
  responseTo creators back.env back.info seen' = some r' ∨
    (r' = withErrorCode status502 ∧ LinkFailed peer seen)

section relay
variable {creators : Creators} {front back : Site} {ip : Bytes} {port : ℕ} {S : Bytes} {r : Request}
  {es : List (Event connectionSignature ⊕ Event connectionSignature)}
  {s : Relay}
  {seen seen' : List Seen}

/-! ## The request -/

/-- The front has no other request than that of its client. -/
theorem Carried.requested (h : Carried creators back ip port S r seen seen')
    {r' : Request} (hrequested : requested creators seen = some (.ok r')) : r' = r := by
  rw [Connection.requested] at hrequested
  -- nothing yet, the message that was sent, or an error of a read
  obtain ⟨-, hres⟩ | hres | ⟨-, err, hres⟩ :=
    readLoop_message creators.isRequest h.message h.client h.sent
  · rw [hres] at hrequested
    cases hrequested
  · rw [hres] at hrequested
    cases hrequested
    rfl
  · rw [hres] at hrequested
    cases hrequested

/-- The request is routed to the server behind. -/
theorem Upstream.routed (h : Upstream front ip port r)
    (hrequested : requested creators seen = some (.ok r)) : ∃ address,
    proxyAddress address = .ok (ip, port) ∧
      routed creators front.info seen = some (r, .proxyPass address) := by
  obtain ⟨locPtr, address, hlocation, hroute, haddress⟩ := h.route
  refine ⟨address, haddress, ?_⟩
  rw [Connection.routed, hrequested]
  dsimp only
  rw [hlocation]
  dsimp only
  rw [hroute]

/-- The request is passed on with its forwarder. -/
theorem passedOn_proxyPass (env : Environment) {address : Bytes}
    (haddress : proxyAddress address = .ok (ip, port)) :
    passedOn env r (.proxyPass address) = some (.proxy ip port, addForwarder env.clientIp r) := by
  rw [proxyAddress_eq, Except.ok.injEq] at haddress
  rw [passedOn, haddress]

/-- So that is what the front passes on. -/
theorem Upstream.passed (h : Upstream front ip port r)
    (hrequested : requested creators seen = some (.ok r)) :
    passed creators front.env front.info seen =
      some (.proxy ip port, addForwarder front.env.clientIp r) := by
  obtain ⟨address, haddress, hrouted⟩ := h.routed hrequested
  rw [Connection.passed, hrouted, Option.bind_some, passedOn_proxyPass _ haddress]

/-- A request that is routed is the one that was sent. -/
theorem Carried.requested_of_routed (h : Carried creators back ip port S r seen seen')
    {x : Request × Route} (hrouted : routed creators front.info seen = some x) :
    Connection.requested creators seen = some (.ok r) := by
  rw [Connection.routed] at hrouted
  split at hrouted
  · rename_i r' hr'
    rw [hr', h.requested hr']
  · cases hrouted

/-- A request that is passed on is the client's, with the line of the front. -/
theorem Carried.passed (hupstream : Upstream front ip port r)
    (h : Carried creators back ip port S r seen seen') {p : Peer × Request} (hpassed : passed creators front.env front.info seen = some p) :
    p = (.proxy ip port, addForwarder front.env.clientIp r) := by
  obtain ⟨x, hrouted, -⟩ := Option.bind_eq_some_iff.mp hpassed
  rw [hupstream.passed (h.requested_of_routed hrouted), Option.some.injEq] at hpassed
  exact hpassed.symm

/-- The request that is passed on is read again. -/
theorem Carried.survives (hsites : Deployed front back)
    (h : Carried creators back ip port S r seen seen') :
    requestCodec.Survives (addForwarder front.env.clientIp r) :=
  Codec.survives_addForwarder h.message h.nulFree hsites.nul hsites.lf

section run
variable (hsites : Deployed front back) (hupstream : Upstream front ip port r)
  (hrun : RelayRun creators front back (.proxy ip port) es s)
  (h : Carried creators back ip port S r (frontSeen es) (backSeen es))
include hsites hrun

/-- What the front writes is permitted. -/
theorem permitted_front : Permitted creators front.env front.info (frontSeen es) :=
  permitted_of_run hsites.frontInfo (Run.of_halting hrun.serveFront).1

/-- So is what the back writes. -/
theorem permitted_back : Permitted creators back.env back.info (backSeen es) :=
  permitted_of_run hsites.backInfo (Run.of_halting hrun.serveBack).1

/-- The back has ended with an exception, or is through, or waits. -/
theorem back_ended_or (hidle : s.right.1.Idle) :
    (s.right.2 = true ∧ ∃ f, fault creators back.env back.info (backSeen es) = some f) ∨
      (s.right.1.pending = 0 ∧ Over creators back.env back.info (backSeen es)) ∨ ∃ handler,
        s.right.1.pending = {handler} ∧
          Awaited creators back.env back.info (backSeen es) handler.1 := by
  have hserve := hrun.serveBack
  -- the process behind is over, or it is idle and its loop goes on
  by_cases hended : s.right.2 = true
  · have hback : ServeRun creators back.env back.info (rights es) (s.right.1, true) :=
      hended ▸ hserve
    obtain ⟨f, hf, -⟩ := hback.fault_of_dead hsites.backInfo
    exact .inl ⟨hended, f, hf⟩
  · have hback : ServeRun creators back.env back.info (rights es) (s.right.1, false) :=
      Bool.eq_false_of_not_eq_true hended ▸ hserve
    exact .inr (over_or_awaited hsites.backInfo (Run.of_halting hserve).1 hidle
      (hback.idle hsites.backInfo hidle).1)

include h

include hupstream in
/-- The back has read a beginning of the request that is passed on. -/
theorem took_back : took .client (backSeen es) <+:
    (RequestSerializer.new (addForwarder front.env.clientIp r)).bytes := by
  have hlink := relay_toBack hrun
  -- nothing was written to the peer, or the bytes of the request in order
  by_cases hwrites : writes (.peer (.proxy ip port)) (frontSeen es) = []
  · rw [wrote_of_writes_nil hwrites, eq_comm, List.append_eq_nil_iff] at hlink
    rw [hlink.1]
    exact List.nil_prefix
  · obtain ⟨req, hpassed, hbegins, -⟩ :=
      (permitted_front hsites hrun).peer (.proxy ip port) (.inr hwrites)
    cases h.passed hupstream hpassed
    exact (List.prefix_append _ _).trans (hlink ▸ hbegins)

include hupstream in
/-- The back reads the request that was passed on, or not all of it. -/
theorem requested_back :
    (took .client (backSeen es) ≠
        (RequestSerializer.new (addForwarder front.env.clientIp r)).bytes ∧
      requested creators (backSeen es) = none) ∨
    requested creators (backSeen es) = some (.ok (addForwarder front.env.clientIp r)) ∨
      StreamError creators.request (reads .client (backSeen es))
        (requested creators (backSeen es)) :=
  readLoop_message creators.isRequest (h.survives hsites) h.toBack
    (took_back hsites hupstream hrun h)

/-! ## The response -/

omit h in
/-- The front has read a beginning of the back's response, or nothing. -/
theorem took_front : took (.peer (.proxy ip port)) (frontSeen es) = [] ∨
    ∃ r', responseTo creators back.env back.info (backSeen es) = some r' ∧
      took (.peer (.proxy ip port)) (frontSeen es) <+: (ResponseSerializer.new r').bytes := by
  have hlink := relay_toFront hrun
  by_cases hwrites : writes .client (backSeen es) = []
  · rw [wrote_of_writes_nil hwrites, eq_comm, List.append_eq_nil_iff] at hlink
    exact .inl hlink.1
  · obtain ⟨r', hr', hbegins⟩ := (permitted_back hsites hrun).client hwrites
    exact .inr ⟨r', hr', (List.prefix_append _ _).trans (hlink ▸ hbegins)⟩

/-- The answer of the back, as soon as it is there. -/
theorem received_front {res : Http.Result Response}
    (hres : received creators (.proxy ip port) (frontSeen es) = some res) :
    (∃ r', responseTo creators back.env back.info (backSeen es) = some r' ∧ res = .ok r') ∨
      ((∃ err, res = .error err) ∧ ReadFailed (reads (.peer (.proxy ip port)) (frontSeen es))) := by
  rw [received] at hres
  -- the back has sent nothing, or a beginning of its response
  obtain hnothing | ⟨r', hr', hbegins⟩ := took_front hsites hrun
  · obtain hnone | ⟨hfailed, err, herr⟩ := readLoop_silence creators.isResponse h.toFront hnothing
    · rw [hnone] at hres
      cases hres
    · rw [herr] at hres
      cases hres
      exact .inr ⟨⟨_, rfl⟩, hfailed⟩
  · obtain ⟨-, hnone⟩ | hok | ⟨hfailed, err, herr⟩ :=
      readLoop_message creators.isResponse (h.response r' hr') h.toFront hbegins
    · rw [hnone] at hres
      cases hres
    · rw [hok] at hres
      cases hres
      exact .inl ⟨r', hr', rfl⟩
    · rw [herr] at hres
      cases hres
      exact .inr ⟨⟨_, rfl⟩, hfailed⟩

omit hsites hrun h in
/-- The response of the front follows from what it has received. -/
theorem Upstream.responseTo (hupstream : Upstream front ip port r)
    (hrequested : requested creators seen = some (.ok r)) :
    responseTo creators front.env front.info seen =
      (exchanged (exchange creators (.proxy ip port) (addForwarder front.env.clientIp r) seen)).map
        fun response => response.getD (withErrorCode status502) := by
  obtain ⟨address, haddress, hrouted⟩ := hupstream.routed hrequested
  rw [Connection.responseTo, hrouted, Option.bind_some, passedOn_proxyPass _ haddress,
    Route.response, outcome_proxyPass haddress, hupstream.connected]
  rfl

include hupstream in
/-- The response of the front is that of the back, or reports a failure of the link. -/
theorem relayed_of_responseTo {r' : Response}
    (hresponse : responseTo creators front.env front.info (frontSeen es) = some r') :
    Relayed creators back (.proxy ip port) (frontSeen es) (backSeen es) r' := by
  obtain ⟨x, hrouted, -⟩ := Option.bind_eq_some_iff.mp hresponse
  rw [hupstream.responseTo (h.requested_of_routed hrouted), exchange] at hresponse
  -- the request could not be written: the page of the status 502
  cases hwrite : writeError (.peer (.proxy ip port)) (frontSeen es) with
  | some err =>
    rw [hwrite] at hresponse
    cases hresponse
    exact .inr ⟨rfl, .inl (by rw [hwrite]; exact Option.some_ne_none err)⟩
  | none =>
    rw [hwrite] at hresponse
    dsimp only at hresponse
    -- written, and the answer of the other server decides
    cases hreceived : received creators (.proxy ip port) (frontSeen es) with
    | none =>
      rw [hreceived] at hresponse
      cases hresponse
    | some res =>
      rw [hreceived] at hresponse
      obtain ⟨r'', hr'', rfl⟩ | ⟨⟨err, rfl⟩, hfailed⟩ := received_front hsites hrun h hreceived
      · cases hresponse
        exact .inl hr''
      · cases hresponse
        exact .inr ⟨rfl, .inr hfailed⟩

/-! ## The front goes on -/

include hupstream in
/-- The front has no bytes on which its parsers throw, and no file to read. -/
theorem fault_front : fault creators front.env front.info (frontSeen es) = none := by
  rw [fault, readFault_message h.message h.client h.sent, Option.none_or]
  cases hrouted : Connection.routed creators front.info (frontSeen es) with
  | none => rfl
  | some x =>
    obtain ⟨address, haddress, hrouted'⟩ :=
      hupstream.routed (h.requested_of_routed hrouted)
    cases hrouted.symm.trans hrouted'
    rw [Option.bind_some, passedOn_proxyPass _ haddress]
    refine (if_neg fun hunreadable => hunreadable.elim).trans ?_
    -- what the back sends is a response that is read again
    obtain hnothing | ⟨r', hr', hbegins⟩ := took_front hsites hrun
    · exact readFault_silence h.toFront hnothing
    · exact readFault_message (h.response r' hr') h.toFront hbegins

include hupstream in
/-- So the front does not end by an exception. -/
theorem running_front : s.left.2 = false := by
  by_contra hdead
  have hfront : ServeRun creators front.env front.info (lefts es) (s.left.1, true) :=
    Bool.eq_true_of_not_eq_false hdead ▸ hrun.serveFront
  obtain ⟨f, hf, -⟩ := hfront.fault_of_dead hsites.frontInfo
  exact absurd ((fault_front hsites hupstream hrun h).symm.trans hf) (Option.some_ne_none f).symm

include hupstream in
/-- The front is over, or waits for what is missing. -/
theorem front_over_or_awaited (hidle : s.left.1.Idle) :
    (s.left.1.pending = 0 ∧ Over creators front.env front.info (frontSeen es)) ∨ ∃ handler,
      s.left.1.pending = {handler} ∧
        Awaited creators front.env front.info (frontSeen es) handler.1 :=
  over_or_awaited hsites.frontInfo (Run.of_halting hrun.serveFront).1 hidle
    (fault_front hsites hupstream hrun h)

end run

/-! ## Two servers as one -/

/-- Whatever the two servers, the client and the system calls do: the back takes up the client's
    request, with the line of the front, and no other one; what the client has got is a beginning
    of what the back answers this request with, or of a 502 if there is no answer; and all of it
    when the front is through.  The front does not end with an exception. -/
theorem relay_transparent (hsites : Deployed front back)
    (hupstream : Upstream front ip port r) (hrun : RelayRun creators front back (.proxy ip port) es s)
    (h : Carried creators back ip port S r (frontSeen es) (backSeen es)) :
    s.left.2 = false ∧
    (∀ q, requested creators (backSeen es) = some (.ok q) →
      q = addForwarder front.env.clientIp r) ∧
    (writes .client (frontSeen es) ≠ [] → ∃ r',
      Relayed creators back (.proxy ip port) (frontSeen es) (backSeen es) r' ∧
        wrote .client (frontSeen es) <+: (ResponseSerializer.new r').bytes) ∧
    (s.left.1.Idle → s.left.1.pending = 0 → ¬ ReadFailed (reads .client (frontSeen es)) → ∃ r',
      Relayed creators back (.proxy ip port) (frontSeen es) (backSeen es) r' ∧
        (writeError .client (frontSeen es) = none →
          wrote .client (frontSeen es) = (ResponseSerializer.new r').bytes)) := by
  refine ⟨running_front hsites hupstream hrun h, fun q hq => ?_, fun hwrites => ?_,
    fun hidle hpending hread => ?_⟩
  · obtain ⟨-, hnone⟩ | hok | ⟨-, err, herr⟩ := requested_back hsites hupstream hrun h
    · rw [hnone] at hq
      cases hq
    · rw [hok] at hq
      cases hq
      rfl
    · rw [herr] at hq
      cases hq
  · -- what is written begins the response
    obtain ⟨r', hr', hbegins⟩ := (permitted_front hsites hrun).client hwrites
    exact ⟨r', relayed_of_responseTo hsites hupstream hrun h hr', hbegins⟩
  · obtain ⟨-, ⟨err, herr⟩ | ⟨r', hr', hall⟩⟩ | ⟨handler, hhandler, -⟩ :=
      front_over_or_awaited hsites hupstream hrun h hidle
    · -- the parser takes what the client sends
      rw [requested] at herr
      obtain ⟨-, hres⟩ | hres | ⟨hfailed, -⟩ :=
        readLoop_message creators.isRequest h.message h.client h.sent
      · exact absurd (herr.symm.trans hres) (Option.some_ne_none _)
      · cases herr.symm.trans hres
      · exact absurd hfailed hread
    · exact ⟨r', relayed_of_responseTo hsites hupstream hrun h hr', hall⟩
    · rw [hpending] at hhandler
      exact absurd hhandler.symm (Multiset.singleton_ne_zero handler)

/-- Nothing failed between the two, and nothing is under way. -/
structure Settled (peer : Peer) (seen seen' : List Seen)
    (s : Relay) : Prop where
  left : s.left.1.Idle
  right : s.right.1.Idle
  toRight : s.toRight = []
  toLeft : s.toLeft = []
  front : ¬ LinkFailed peer seen
  back : writeError .client seen' = none ∧ ¬ ReadFailed (reads .client seen')

/-- The request and its way follow from what the client has sent. -/
theorem passed_congr {env : Environment} {info : List Server}
    (h : reads .client seen = reads .client seen') :
    passed creators env info seen = passed creators env info seen' := by
  rw [passed, passed, routed, routed, requested, requested, h]

/-- What a connection reads of a peer it reads behind all of its request. -/
theorem wrote_of_waiting {env : Environment} {info : List Server} {peer : Peer} {req : Request}
    {es : List (Event connectionSignature)} {c : Config connectionSignature}
    {handler : Σ query : ConnectionQuery, connectionSignature.Answer query → Prog connectionSignature}
    (hinfo : info ≠ []) (hrun : ProgRun (bodies creators) (serve creators env info).code es c)
    (hpending : c.pending = {handler}) (hquery : handler.1 = .read (.peer peer))
    (hpassed : passed creators env info (answers (notes es)) = some (peer, req)) :
    wrote (.peer peer) (answers (notes es)) = (RequestSerializer.new req).bytes := by
  obtain ⟨query, handler⟩ := handler
  obtain rfl : query = .read (.peer peer) := hquery
  -- it might read next
  have hnext := permitted_of_run hinfo
    (hrun.snoc (.answer (.toRead (.ok []) : ReadEvent) hpending))
  have hseen : answers (notes (es ++ [.answered (.read (.peer peer)) (.toRead (.ok []))])) =
      answers (notes es) ++ [⟨.read (.peer peer), .toRead (.ok [])⟩] := by
    rw [notes_append, answers_append]
    rfl
  have hreads : reads (.peer peer)
      (answers (notes es) ++ [⟨.read (.peer peer), .toRead (.ok [])⟩]) ≠ [] := by
    simp [reads, readOn]
  have hclient : reads .client [(⟨.read (.peer peer), .toRead (.ok [])⟩ : Seen)] = [] := rfl
  have hpassed' : passed creators env info
      (answers (notes es) ++ [⟨.read (.peer peer), .toRead (.ok [])⟩]) = some (peer, req) := by
    rw [← hpassed]
    exact passed_congr (by rw [reads_append, hclient, List.append_nil])
  rw [hseen] at hnext
  obtain ⟨req', hreq', -, hordered⟩ := hnext.peer peer (.inl hreads)
  -- by then it must have written all of the request
  cases hreq'.symm.trans hpassed'
  have hwrote := hordered hreads
  rw [wrote_append] at hwrote
  exact (List.append_nil _).symm.trans hwrote

/-- As long as the front waits for the back's answer, the back waits for something else, or its
    process has ended with an exception. -/
theorem relay_never_stuck (hsites : Deployed front back)
    (hupstream : Upstream front ip port r) (hrun : RelayRun creators front back (.proxy ip port) es s)
    (h : Carried creators back ip port S r (frontSeen es) (backSeen es))
    (hsettled : Settled (.proxy ip port) (frontSeen es) (backSeen es) s)
    (hwaits : ∃ handler ∈ s.left.1.pending, handler.1 = .read (.peer (.proxy ip port))) :
    (s.right.2 = true ∧ ∃ f, fault creators back.env back.info (backSeen es) = some f) ∨
      ∃ handler ∈ s.right.1.pending, handler.1 ≠ .read .client := by
  obtain ⟨handler, hmem, hquery⟩ := hwaits
  obtain ⟨hpending, -⟩ | ⟨handler', hpending, hawaited⟩ :=
    front_over_or_awaited hsites hupstream hrun h hsettled.left
  · rw [hpending] at hmem
    exact absurd hmem (Multiset.notMem_zero handler)
  rw [hpending, Multiset.mem_singleton] at hmem
  subst hmem
  rw [Awaited, hquery] at hawaited
  obtain ⟨hunanswered, req, hpassed⟩ := hawaited
  -- all of the request is with the back
  have hwrote := wrote_of_waiting hsites.frontInfo (Run.of_halting hrun.serveFront).1 hpending hquery
    hpassed
  cases h.passed hupstream hpassed
  have htook := relay_toBack hrun
  rw [hsettled.toRight, List.append_nil] at htook
  have hrequested : requested creators (backSeen es) =
      some (.ok (addForwarder front.env.clientIp r)) := by
    obtain ⟨hmore, -⟩ | hok | ⟨hfailed, -⟩ := requested_back hsites hupstream hrun h
    · exact absurd (htook.symm.trans hwrote) hmore
    · exact hok
    · exact absurd hfailed hsettled.back.2
  -- the back has ended, is over, or waits
  obtain hended | ⟨-, ⟨err, herr⟩ | ⟨r', hr', hall⟩⟩ | ⟨handler', hpending', hawaited'⟩ :=
    back_ended_or hsites hrun hsettled.right
  · exact .inl hended
  · cases herr.symm.trans hrequested
  · -- all of the response is with the front
    have htook' := relay_toFront hrun
    rw [hsettled.toLeft, List.append_nil] at htook'
    have hbytes := htook'.symm.trans (hall hsettled.back.1)
    obtain ⟨x, hrouted, -⟩ := Option.bind_eq_some_iff.mp hpassed
    have hfront := h.requested_of_routed hrouted
    have hreceived : received creators (.proxy ip port) (frontSeen es) = some (.ok r') := by
      obtain ⟨hmore, -⟩ | hok | ⟨hfailed, -⟩ :=
        readLoop_message creators.isResponse (h.response r' hr') h.toFront (hbytes ▸ List.prefix_rfl)
      · exact absurd hbytes hmore
      · exact hok
      · exact absurd (.inr hfailed) hsettled.front
    have hnone : writeError (.peer (.proxy ip port)) (frontSeen es) = none := by
      by_contra herr
      exact hsettled.front (.inl herr)
    rw [hupstream.responseTo hfront, exchange, hnone, hreceived] at hunanswered
    cases hunanswered
  · refine .inr ⟨handler', hpending' ▸ Multiset.mem_singleton_self handler', fun hread => ?_⟩
    rw [Awaited, hread] at hawaited'
    obtain ⟨-, hnone⟩ | ⟨offered, hwrite, -⟩ := hawaited'
    · cases hnone.symm.trans hrequested
    · cases hwrite

end relay

/-! ## A page that comes through -/

section goOn
variable {creators : Creators} {front back : Site} {peer : Peer} {n : ℕ} {as : List Seen}

/-- A connection goes on with answers that fit, and on which no parser throws. -/
theorem ServeRun.goOn {env : Environment} {info : List Server}
    {es : List (Event connectionSignature)} {c : Config connectionSignature} (hinfo : info ≠ [])
    (h : ServeRun creators env info es (c, false))
    (hfits : (serve creators env info).Fits (callsOf (bodies creators) n) (answers (notes es)) as)
    (hfault : fault creators env info (answers (notes es) ++ as) = none) : ∃ es' c',
      Run (Halting (Step (bodies creators)) halts) (c, false) es' (c', false) ∧ c'.Idle ∧
        answers (notes es') = as := by
  have hplain := (Run.of_halting h).1
  obtain ⟨es', c', hrun, hidle, hanswers⟩ := (good_serve creators env hinfo).goOn hplain hfits
  have hall : answers (notes (es ++ es')) = answers (notes es) ++ as := by
    rw [notes_append, answers_append, hanswers]
  have hupTo := serve_upToFault hinfo (hplain.append hrun) hidle
  rw [hall, hfault] at hupTo
  refine ⟨es', c', hrun.halting fun e he => ?_, hidle, hanswers⟩
  by_contra hhalts
  -- an exception would be among the effects
  obtain ⟨f, rfl⟩ := exists_fault_of_halts (Bool.eq_true_of_not_eq_false hhalts)
  have hmem : ConnectionEffect.fault f ∈ Futures.effects (es ++ es') :=
    List.mem_filterMap.mpr ⟨_, List.mem_append_right es he, rfl⟩
  exact fault_notMem_refusal f _ ((show Futures.effects (es ++ es') = _ from hupTo) ▸ hmem)

variable {es : List (Event connectionSignature ⊕ Event connectionSignature)}
  {left right : Config connectionSignature} {toRight toLeft rest : Bytes}

/-- The front goes on. -/
theorem RelayRun.goOnFront
    (h : RelayRun creators front back peer es ⟨(left, false), (right, false), toRight, toLeft⟩)
    (hinfo : front.info ≠ [])
    (hfits : (serve creators front.env front.info).Fits (callsOf (bodies creators) n)
      (frontSeen es) as) (hfault : fault creators front.env front.info (frontSeen es ++ as) = none)
    (htaken : toLeft = took (.peer peer) as ++ rest) : ∃ es' left',
    RelayRun creators front back peer es'
        ⟨(left', false), (right, false), toRight ++ wrote (.peer peer) as, rest⟩ ∧
      left'.Idle ∧ frontSeen es' = frontSeen es ++ as ∧ backSeen es' = backSeen es := by
  obtain ⟨es', left', hrun, hidle, hanswers⟩ := h.serveFront.goOn hinfo hfits hfault
  -- what it read from the peer was on its way
  have htaken' : toLeft = es'.flatMap (port (.peer peer)).taken ++ rest := by
    rw [flatMap_taken, hanswers]
    exact htaken
  have hlinked := LinkedRun.goOnLeft h hrun htaken'
  rw [flatMap_sent, hanswers] at hlinked
  refine ⟨_, left', hlinked, hidle, ?_, ?_⟩
  · rw [frontSeen, lefts_append, lefts_map_inl, notes_append, answers_append, hanswers]
    rfl
  · rw [backSeen, rights_append, rights_map_inl, List.append_nil]
    rfl

/-- The back goes on. -/
theorem RelayRun.goOnBack
    (h : RelayRun creators front back peer es ⟨(left, false), (right, false), toRight, toLeft⟩)
    (hinfo : back.info ≠ [])
    (hfits : (serve creators back.env back.info).Fits (callsOf (bodies creators) n)
      (backSeen es) as) (hfault : fault creators back.env back.info (backSeen es ++ as) = none)
    (htaken : toRight = took .client as ++ rest) : ∃ es' right',
    RelayRun creators front back peer es'
        ⟨(left, false), (right', false), rest, toLeft ++ wrote .client as⟩ ∧
      right'.Idle ∧ frontSeen es' = frontSeen es ∧ backSeen es' = backSeen es ++ as := by
  obtain ⟨es', right', hrun, hidle, hanswers⟩ := h.serveBack.goOn hinfo hfits hfault
  -- what it read from its client was on its way
  have htaken' : toRight = es'.flatMap (port .client).taken ++ rest := by
    rw [flatMap_taken, hanswers]
    exact htaken
  have hlinked := LinkedRun.goOnRight h hrun htaken'
  rw [flatMap_sent, hanswers] at hlinked
  refine ⟨_, right', hlinked, hidle, ?_, ?_⟩
  · rw [frontSeen, lefts_append, lefts_map_inr, List.append_nil]
    rfl
  · rw [backSeen, rights_append, rights_map_inr, notes_append, answers_append, hanswers]
    rfl

end goOn

/-- Everything goes to the server on port 8080. -/
def frontSite : Site where
  env := { busyEnvironment with clientIp := ascii "10.0.0.1" }
  info := [{ scriptServer with
    locations := (∅ : OrderedMap Bytes Location).insert (ascii "/")
      { acceptedMethods := {ascii "GET"}, proxyPass := ascii "8080" } }]

/-- There is one page. -/
def backSite : Site where
  env := { busyEnvironment with file := fun _ => .contents (ascii "hi") }
  info := [{ scriptServer with
    locations := (∅ : OrderedMap Bytes Location).insert (ascii "/")
      { acceptedMethods := {ascii "GET"}, root := ascii "index.html" } }]

/-- The back, as the front sees it. -/
def backPeer : Peer := .proxy (ascii "127.0.0.1") 8080

/-- What the client sends. -/
def pageText : Bytes := ascii "GET / HTTP/1.1\r\n\r\n"

/-- What the front reads. -/
def pageRequest : Request := ⟨ascii "GET", ascii "/", ascii "HTTP/1.1", ∅, []⟩

/-- What the front makes of it. -/
def pagePassedOn : Serializer :=
  RequestSerializer.new (addForwarder frontSite.env.clientIp pageRequest)

/-- What the back makes of its file. -/
def pageResponse : Response := page (ascii "text/html") (ascii "hi")

example : Response.staticFrom (ascii "index.html") (.contents (ascii "hi")) =
    .ok (.ok pageResponse) := by
  decide +kernel

/-- The front passes the request on. -/
def frontAsks : List Seen :=
  [readAll .client pageText, writeAll (.peer backPeer) pagePassedOn.headers,
    writeAll (.peer backPeer) pagePassedOn.body]

/-- The back takes it. -/
def backTakes : List Seen := [readAll .client pagePassedOn.bytes]

/-- The back answers. -/
def backAnswers : List Seen :=
  [writeAll .client (ResponseSerializer.new pageResponse).headers,
    writeAll .client (ResponseSerializer.new pageResponse).body]

/-- The front answers, too. -/
def frontAnswers : List Seen :=
  readAll (.peer backPeer) (ResponseSerializer.new pageResponse).bytes :: backAnswers

/-- One chunk is cut at the ends of lines. -/
theorem lineAligned_single {F E : Type} {fmt : Format F E} {chunk : Bytes}
    (h : chunk.head? ≠ some Byte.lf) : Parser.LineAligned fmt [chunk] := by
  intro pre k post p hsplit hpre
  obtain ⟨rfl, rfl⟩ : pre = [] ∧ k = chunk := by
    cases pre with
    | nil =>
      cases hsplit
      exact ⟨rfl, rfl⟩
    | cons => simp at hsplit
  -- no chunk stands in front, so the parser is the new one
  cases hpre
  exact ⟨fun _ _ => ⟨h, rfl⟩, fun hstate => ParserState.noConfusion hstate⟩

/-- So is no chunk. -/
theorem lineAligned_nil {F E : Type} {fmt : Format F E} : Parser.LineAligned fmt [] := by
  intro pre k post p hsplit
  simp at hsplit

/-- The two sites are configured. -/
theorem deployed_page : Deployed frontSite backSite where
  frontInfo := List.cons_ne_nil _ _
  backInfo := List.cons_ne_nil _ _
  nul := by decide
  lf := by decide

/-- The front passes the request on. -/
theorem upstream_page : Upstream frontSite (ascii "127.0.0.1") 8080 pageRequest where
  route := by
    refine ⟨some (ascii "/", { acceptedMethods := {ascii "GET"}, proxyPass := ascii "8080" }),
      ascii "8080", ?_, ?_, ?_⟩ <;> decide +kernel
  connected := rfl

/-- The message is carried whole. -/
theorem carried_page {seen seen' : List Seen} (hsent : took .client seen = pageText)
    (hclient : partsOf (reads .client seen) = [pageText])
    (hback : partsOf (reads .client seen') = [pagePassedOn.bytes])
    (hfront : Parser.LineAligned responseFormat (partsOf (reads (.peer backPeer) seen)))
    (hresponse : responseTo parsers backSite.env backSite.info seen' = some pageResponse) :
    Carried parsers backSite (ascii "127.0.0.1") 8080 pageText pageRequest seen seen' where
  message := by decide +kernel
  nulFree := by
    intro line hs hlines
    have hframe : (frame [] pageText).1 = [ascii "GET / HTTP/1.1"] := by decide +kernel
    rw [hframe] at hlines
    cases hlines
    refine ⟨(by decide : Byte.nul ∉ ascii "GET / HTTP/1.1"), ?_⟩
    intro pre line post key val hsplit
    simp at hsplit
  sent := hsent ▸ List.prefix_rfl
  -- each of the two messages came in one part
  client := hclient ▸ lineAligned_single (by decide)
  toBack := hback ▸ lineAligned_single (by decide +kernel)
  toFront := hfront
  response r' hr' := by
    cases hresponse.symm.trans hr'
    show responseFormat.outcome [_] = _
    decide +kernel

/-- How the front goes on with a request. -/
theorem frontAsks_fits :
    (serve parsers frontSite.env frontSite.info).Fits (callsOf (bodies parsers) 4) [] frontAsks := by
  decide +kernel

/-- The front can go on with what the back sends. -/
theorem frontAnswers_fits : (serve parsers frontSite.env frontSite.info).Fits
    (callsOf (bodies parsers) 4) frontAsks frontAnswers := by
  decide +kernel

/-- And the back. -/
theorem backTakes_fits :
    (serve parsers backSite.env backSite.info).Fits (callsOf (bodies parsers) 4) [] backTakes := by
  decide +kernel

/-- The back can answer. -/
theorem backAnswers_fits : (serve parsers backSite.env backSite.info).Fits
    (callsOf (bodies parsers) 4) backTakes backAnswers := by
  decide +kernel

/-- The front has passed the request on, and the back has taken it. -/
theorem relay_asked : ∃ es left right,
    RelayRun parsers frontSite backSite backPeer es ⟨(left, false), (right, false), [], []⟩ ∧
      left.Idle ∧ right.Idle ∧ frontSeen es = frontAsks ∧ backSeen es = backTakes := by
  have hstart : RelayRun parsers frontSite backSite backPeer [] _ := .nil
  have hnothing : [] = took (.peer backPeer) frontAsks ++ [] := by decide +kernel
  obtain ⟨es, left, hrun, hleft, hfront, hback⟩ :=
    hstart.goOnFront deployed_page.frontInfo frontAsks_fits (by decide +kernel) hnothing
  -- what the front has written is what the back reads
  have hasked : [] ++ wrote (.peer backPeer) frontAsks = took .client backTakes ++ [] := by
    decide +kernel
  obtain ⟨es', right, hrun', hright, hfront', hback'⟩ :=
    hrun.goOnBack deployed_page.backInfo (by rw [hback]; exact backTakes_fits)
      (by rw [hback]; decide +kernel) hasked
  have hsilent : [] ++ wrote .client backTakes = [] := by decide +kernel
  rw [hsilent] at hrun'
  refine ⟨es', left, right, hrun', hleft, hright, ?_, ?_⟩
  · rw [hfront', hfront]
    rfl
  · rw [hback', hback]
    rfl

/-- The client gets the page. -/
theorem relay_transparent_page : ∃ es s, RelayRun parsers frontSite backSite backPeer es s ∧
    s.left.1.pending = 0 ∧
    wrote .client (frontSeen es) = (ResponseSerializer.new pageResponse).bytes := by
  obtain ⟨es, left, right, hrun, -, -, hfront, hback⟩ := relay_asked
  have hnothing : [] = took .client backAnswers ++ [] := by decide +kernel
  obtain ⟨es₁, right₁, hrun₁, hright₁, hfront₁, hback₁⟩ :=
    hrun.goOnBack deployed_page.backInfo (hback.symm ▸ backAnswers_fits)
      (by rw [hback]; decide +kernel) hnothing
  rw [hfront] at hfront₁
  rw [hback] at hback₁
  -- what the back has written is what the front reads
  have hanswered : [] ++ wrote .client backAnswers = took (.peer backPeer) frontAnswers ++ [] := by
    decide +kernel
  obtain ⟨es₂, left₂, hrun₂, hleft₂, hfront₂, hback₂⟩ :=
    hrun₁.goOnFront deployed_page.frontInfo (hfront₁.symm ▸ frontAnswers_fits)
      (by rw [hfront₁]; decide +kernel) hanswered
  rw [hfront₁] at hfront₂
  rw [hback₁] at hback₂
  have hfinished : (serve parsers frontSite.env frontSite.info).resume (callsOf (bodies parsers) 4)
      (frontSeen es₂) = some none := by
    rw [hfront₂]
    decide +kernel
  have hpending : left₂.pending = 0 := (good_serve parsers frontSite.env
    deployed_page.frontInfo).pending_eq_zero (Run.of_halting hrun₂.serveFront).1 hleft₂ hfinished
  have hresponse : responseTo parsers backSite.env backSite.info (backSeen es₂) =
      some pageResponse := by
    rw [hback₂]
    decide +kernel
  -- the response arrives in one part
  have hparts : partsOf (reads (.peer backPeer) (frontSeen es₂)) =
      [(ResponseSerializer.new pageResponse).bytes] := by
    rw [hfront₂]
    decide +kernel
  obtain ⟨-, -, -, hdone⟩ := relay_transparent deployed_page upstream_page hrun₂ (carried_page
    (by rw [hfront₂]; decide +kernel) (by rw [hfront₂]; decide +kernel)
    (by rw [hback₂]; decide +kernel) (hparts ▸ lineAligned_single (by decide +kernel)) hresponse)
  obtain ⟨r', hr' | ⟨-, hfailed⟩, hall⟩ :=
    hdone hleft₂ hpending (by rw [hfront₂]; decide +kernel)
  · refine ⟨es₂, _, hrun₂, hpending, ?_⟩
    cases hresponse.symm.trans hr'
    refine hall ?_
    rw [hfront₂]
    decide +kernel
  · rw [hfront₂] at hfailed
    exact absurd hfailed (by decide +kernel)

/-- The back waits to write the page. -/
theorem relay_never_stuck_page : ∃ es s, RelayRun parsers frontSite backSite backPeer es s ∧
    (∃ handler ∈ s.left.1.pending, handler.1 = .read (.peer backPeer)) ∧
    ∃ handler ∈ s.right.1.pending, handler.1 ≠ .read .client := by
  obtain ⟨es, left, right, hrun, hleft, hright, hfront, hback⟩ := relay_asked
  have hreads : (serve parsers frontSite.env frontSite.info).resume (callsOf (bodies parsers) 4)
      (frontSeen es) = some (some (.read (.peer backPeer))) := by
    rw [hfront]
    decide +kernel
  obtain ⟨handler, hpending⟩ := (good_serve parsers frontSite.env
    deployed_page.frontInfo).pending_of_resume (Run.of_halting hrun.serveFront).1 hleft hreads
  have hwaits : ∃ handler ∈ left.pending, handler.1 = .read (.peer backPeer) :=
    ⟨_, hpending ▸ Multiset.mem_singleton_self _, rfl⟩
  -- the channels are open, so it is the other server that waits
  obtain ⟨hended, -⟩ | hstuck := relay_never_stuck deployed_page upstream_page hrun
    (carried_page (by rw [hfront]; decide +kernel) (by rw [hfront]; decide +kernel)
      (by rw [hback]; decide +kernel) (by rw [hfront]; exact lineAligned_nil)
      (by rw [hback]; decide +kernel))
    ⟨hleft, hright, rfl, rfl, by rw [hfront]; decide +kernel, by rw [hback]; decide +kernel⟩ hwaits
  · cases hended
  · exact ⟨es, _, hrun, hwaits, hstuck⟩

end Webserv.Connection
