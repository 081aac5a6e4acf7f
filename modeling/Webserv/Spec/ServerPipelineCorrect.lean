import Webserv.Native.ServerPipeline
import Webserv.Spec.FieldParsing
import Webserv.Spec.FutureRuns
import Webserv.Spec.RoutingCorrect
import Webserv.Spec.ServerResponses

/-!
# One request, one response

`Route.response` says what a request is answered with: what the operation
delivers that its location is for, or the error code of that operation.  Whether
it succeeds is up to what the system calls return.

A `root` that opens and cannot be read is not answered: the exception of the
stream leaves the handler.

## Key results

- `requestHandler_of_unreadable`: where the handler throws
- `answersOnce_iff`: everywhere else it sends this response, and no other
-/

namespace Webserv

open Config Http Futures Transition

/-! ## What a request should be answered with -/

/-- What a request is routed to. -/
inductive Route where
  | noLocation
  | root (path : Bytes)
  | cgi (path : Bytes)
  | proxyPass (address : Bytes)
  | noAction
deriving DecidableEq

/-- `root` comes before `cgi`, and `cgi` before `proxy_pass`. -/
def routeOf : Option (Bytes × Location) → Route
  | none => .noLocation
  | some (_, loc) =>
    if loc.root ≠ [] then .root loc.root
    else if loc.cgiPath ≠ [] then .cgi loc.cgiPath
    else if loc.proxyPass ≠ [] then .proxyPass loc.proxyPass
    else .noAction

abbrev Answered : Type := Σ query : Operation, pipelineSignature.Answer query

/-- What an exchange with a peer has come to, if it is over: the request is written and the
    response is read. -/
def exchanged : List Answered → Option (Option Response)
  | [⟨.writeRequest _ _, .error _⟩] => some none
  | [⟨.writeRequest _ _, .ok _⟩, ⟨.readResponse _, res⟩] => some res.toOption
  | _ => none

/-- The file, if it is one that is served, and can be read. -/
def fileOutcome (path : Bytes) : FileStream → Option Response
  | .contents body => (mediaType path).map fun contentType => page contentType body
  | _ => none

/-- The `uint16_t` that `std::atoi` makes of a port. -/
def portOf (text : Bytes) : ℕ := (atoi text % 2 ^ 16).toNat

/-- The address that a `proxy_pass` names. -/
def upstream (address : Bytes) : Bytes × ℕ :=
  match address.cutAt Byte.colon with
  | none => (ascii "127.0.0.1", portOf address)
  | some (ip, port) => (ip, portOf port)

/-- The response of the operation, if it is over; none of its failures has one. -/
def Route.outcome (env : Environment) (answers : List Answered) : Route → Option (Option Response)
  | noLocation => some none
  | root path => some (fileOutcome path (env.file path))
  | cgi _ =>
    match env.pipeToCgi, env.pipeFromCgi, env.forked with
    | .ok (), .ok (), true => exchanged answers
    | _, _, _ => some none
  | proxyPass address =>
    match env.connTcpServ (cStr (upstream address).1) (upstream address).2 with
    | .error _ => some none
    | .ok () => exchanged answers
  | noAction => some none

/-- The code of a failure. -/
def Route.failure : Route → Status
  | noLocation => status500
  | root _ => status500
  | cgi _ => status503
  | proxyPass _ => status502
  | noAction => status404

/-- What is sent, as soon as the operation is over. -/
def Route.response (env : Environment) (answers : List Answered) (route : Route) :
    Option Response :=
  (route.outcome env answers).map fun response => response.getD (withErrorCode route.failure)

/-- A file that would be served opens, and cannot be read. -/
def Route.Unreadable (env : Environment) : Route → Prop
  | root path => (mediaType path).isSome ∧ env.file path = .unreadable
  | _ => False

instance (env : Environment) : (route : Route) → Decidable (route.Unreadable env)
  | .root _ => inferInstanceAs (Decidable (_ ∧ _))
  | .noLocation | .cgi _ | .proxyPass _ | .noAction => inferInstanceAs (Decidable False)

/-! ## The operations -/

section operations
variable {path : Bytes}

/-- It lets the exception of the stream through. -/
theorem staticFrom_of_unreadable {env : Environment} (h : (Route.root path).Unreadable env) :
    Response.staticFrom path (env.file path) = .error .iosFailure := by
  obtain ⟨htype, hfile⟩ := h
  obtain ⟨contentType, htype⟩ := Option.isSome_iff_exists.mp htype
  rw [staticFrom_eq, htype, hfile]

/-- Otherwise it returns what the path and the file say. -/
theorem staticFrom_of_readable {env : Environment} (h : ¬ (Route.root path).Unreadable env) :
    ∃ res, Response.staticFrom path (env.file path) = .ok res ∧
      res.toOption = fileOutcome path (env.file path) := by
  rw [staticFrom_eq]
  -- the media type is looked up before the file is opened
  cases htype : mediaType path with
  | none =>
    refine ⟨_, rfl, ?_⟩
    cases env.file path with
    | contents body => rw [fileOutcome, htype]; rfl
    | _ => rfl
  | some contentType =>
    cases hfile : env.file path with
    | notOpened => exact ⟨_, rfl, rfl⟩
    | unreadable => exact absurd ⟨by rw [htype]; rfl, hfile⟩ h
    | contents body => exact ⟨_, rfl, by rw [fileOutcome, htype]; rfl⟩

/-- `cgi::object::from` makes the two pipes and the child, or there is no exchange. -/
theorem objectFrom_cases (env : Environment) (path : Bytes) :
    (Cgi.objectFrom env = .ok () ∧
      ∀ answers, (Route.cgi path).outcome env answers = exchanged answers) ∨
    ∃ err, Cgi.objectFrom env = .error err ∧
      ∀ answers, (Route.cgi path).outcome env answers = some none := by
  simp only [Cgi.objectFrom, Route.outcome]
  -- the two pipes, then the fork
  cases env.pipeToCgi with
  | error err => exact .inr ⟨_, rfl, fun _ => rfl⟩
  | ok _ =>
    cases env.pipeFromCgi with
    | error err => exact .inr ⟨_, rfl, fun _ => rfl⟩
    | ok _ =>
      cases env.forked with
      | false => exact .inr ⟨_, rfl, fun _ => rfl⟩
      | true => exact .inl ⟨rfl, fun _ => rfl⟩

end operations

/-! ## The exchanges -/

section exchange
variable {peer : Peer} {req : Request} {trace : Trace pipelineSignature}

/-- One answer tells whether the request was written. -/
theorem delivers_sendRequest {value : Except Io.Error Unit}
    (h : Delivers pipelineBodies (sendRequest peer req) trace value) :
    ∃ res : Except Io.Error ℕ, trace = [.answered (.writeRequest peer req) res] ∧
      value = res.map fun _ => () := by
  obtain ⟨_, res, hwhen, rfl, rfl⟩ := delivers_map.mp h
  obtain ⟨answer, rfl, rfl⟩ := delivers_when.mp hwhen
  exact ⟨_, rfl, rfl⟩

/-- Before that nothing is answered. -/
theorem blocks_sendRequest {wait : Wait pipelineSignature}
    (h : Blocks pipelineBodies (sendRequest peer req) trace wait) : trace = [] :=
  (blocks_when.mp (blocks_map.mp h)).1

/-- What is delivered is what the exchange brought. -/
theorem delivers_requestResponse {value : Http.Result Response}
    (h : Delivers pipelineBodies (Client.requestResponse peer req) trace value) :
    exchanged (answers trace) = some value.toOption := by
  obtain ⟨_, written, rest, hsend, hnext, rfl⟩ := delivers_flatmap.mp h
  obtain ⟨res, rfl, rfl⟩ := delivers_sendRequest hsend
  -- an error of the write ends the exchange, a count is followed by the read
  cases res with
  | error err =>
    obtain ⟨rfl, rfl⟩ := delivers_fromVal.mp hnext
    rfl
  | ok n =>
    obtain ⟨answer, rfl, rfl⟩ := delivers_when.mp hnext
    rfl

/-- Before that the exchange has brought nothing. -/
theorem blocks_requestResponse {wait : Wait pipelineSignature}
    (h : Blocks pipelineBodies (Client.requestResponse peer req) trace wait) :
    exchanged (answers trace) = none := by
  -- the write waits, or it is over and the read does
  obtain hsend | ⟨_, written, rest, hsend, hnext, rfl⟩ := blocks_flatmap.mp h
  · rw [blocks_sendRequest hsend]
    rfl
  · obtain ⟨res, rfl, rfl⟩ := delivers_sendRequest hsend
    cases res with
    | error err => exact absurd hnext not_blocks_fromVal
    | ok n =>
      obtain ⟨rfl, -⟩ := blocks_when.mp hnext
      rfl

variable {env : Environment} {path : Bytes}

/-- What the script brings is the outcome of its route. -/
theorem delivers_cgiSendRequest {value : Except Cgi.Error Response}
    (h : Delivers pipelineBodies (Cgi.sendRequest env req path) trace value) :
    (Route.cgi path).outcome env (answers trace) = some value.toOption := by
  rw [Cgi.sendRequest] at h
  obtain ⟨hfrom, houtcome⟩ | ⟨err, hfrom, houtcome⟩ := objectFrom_cases env path
  · rw [hfrom] at h
    rw [houtcome]
    obtain ⟨_, written, rest, hsend, hnext, rfl⟩ := delivers_flatmap.mp h
    obtain ⟨res, rfl, rfl⟩ := delivers_sendRequest hsend
    cases res with
    -- the request could not be written
    | error err =>
      obtain ⟨rfl, rfl⟩ := delivers_fromVal.mp hnext
      rfl
    | ok n =>
      obtain ⟨_, received, hwhen, rfl, rfl⟩ := delivers_map.mp hnext
      obtain ⟨answer, rfl, rfl⟩ := delivers_when.mp hwhen
      cases received <;> rfl
  · rw [hfrom] at h
    obtain ⟨rfl, rfl⟩ := delivers_fromVal.mp h
    exact houtcome _

/-- Before that the route has none. -/
theorem blocks_cgiSendRequest {wait : Wait pipelineSignature}
    (h : Blocks pipelineBodies (Cgi.sendRequest env req path) trace wait) :
    (Route.cgi path).outcome env (answers trace) = none := by
  rw [Cgi.sendRequest] at h
  obtain ⟨hfrom, houtcome⟩ | ⟨err, hfrom, -⟩ := objectFrom_cases env path
  · rw [hfrom] at h
    rw [houtcome]
    -- still writing, or written and still reading
    obtain hsend | ⟨_, written, rest, hsend, hnext, rfl⟩ := blocks_flatmap.mp h
    · rw [blocks_sendRequest hsend]
      rfl
    · obtain ⟨res, rfl, rfl⟩ := delivers_sendRequest hsend
      cases res with
      | error err => exact absurd hnext not_blocks_fromVal
      | ok n =>
        obtain ⟨rfl, -⟩ := blocks_when.mp (blocks_map.mp hnext)
        rfl
  · rw [hfrom] at h
    exact absurd h not_blocks_fromVal

/-! ## The expressions are well-formed -/

end exchange

/-! ## The handler -/

/-- The address of a server behind is read from its text. -/
theorem proxyAddress_eq (proxyPass : Bytes) : proxyAddress proxyPass = .ok (upstream proxyPass) := by
  rw [proxyAddress, find_zero, upstream]
  cases hcut : proxyPass.cutAt Byte.colon with
  | none => rfl
  | some p =>
    obtain ⟨ip, port⟩ := p
    -- the colon is in the string
    obtain ⟨rfl, -⟩ := List.cutAt_eq_some_iff.mp hcut
    dsimp only [Option.map_some]
    rw [substr_zero_cut, substrFrom_cut]
    rfl

/-- The outcome behind an address that was read. -/
theorem outcome_proxyPass {env : Environment} {address ip : Bytes} {port : ℕ}
    (haddress : proxyAddress address = .ok (ip, port)) (answers : List Answered) :
    (Route.proxyPass address).outcome env answers =
      match env.connTcpServ (cStr ip) port with
      | .error _ => some none
      | .ok () => exchanged answers := by
  rw [proxyAddress_eq, Except.ok.injEq] at haddress
  rw [Route.outcome, haddress]

section handler
variable {env : Environment} {info : List Server} {request : Request} {path : Bytes} {loc : Location}

end handler

/-- A machine on which `fork` fails. -/
def busyEnvironment : Environment where
  file _ := .notOpened
  pipeToCgi := .ok ()
  pipeFromCgi := .ok ()
  forked := false
  connTcpServ _ _ := .ok ()
  clientIp := ascii "127.0.0.1"

/-- Everything is for the script, and after that for the proxy. -/
def scriptLocation : Location where
  acceptedMethods := {ascii "GET"}
  cgiPath := ascii "./script.sh"
  proxyPass := ascii "8080"

/-- The server that has the location. -/
def scriptServer : Server where
  listen := ascii "80"
  serverName := []
  locations := (∅ : OrderedMap Bytes Location).insert (ascii "/") scriptLocation

/-- `/data/www` is a file. -/
def fileEnvironment : Environment :=
  { busyEnvironment with file := fun _ => .contents (ascii "hi") }

end Webserv
