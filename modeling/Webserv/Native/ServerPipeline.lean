import Webserv.Native.Future
import Webserv.Native.Routing

/-!
# The request handler of `server_pipeline`

The callback of `get_request`, with `cgi::send_request` and the two calls of
`Client` it leads to.  The futures of `write_entity` and `read_entity` are set
by somebody else, and a call of `send_response` is an effect.
-/

namespace Webserv

open Config Http Futures

/-- `error_description` -/
def Io.errorDescription : Io.Error → Bytes
  | .undefined => ascii "undefined error"
  | .connectionAborted => ascii "a connection has been aborted"
  | .interrupted => ascii "the system call was interrupted by a signal"
  | .openFdLimitProc => ascii "the per-process limit on the number of open fd has been reached"
  | .openFdLimitSys =>
    ascii "the system-wide limit on the total number of open files has been reached"
  | .bufOutMemory => ascii "Not enough free memory"
  | .logic => ascii "logic error"
  | .portAlreadyUse => ascii "given port already in use"
  | .again => ascii "eagain"
  | .connectionClosed => ascii "connection was closed"

/-- `cgi::Error` -/
structure Cgi.Error where
  err : Bytes
deriving DecidableEq

/-- What the system calls of one request return. -/
structure Environment where
  /-- The stream on a path. -/
  file : Bytes → FileStream
  /-- The two calls of `make_pipe`. -/
  pipeToCgi : Except Io.Error Unit
  pipeFromCgi : Except Io.Error Unit
  /-- Does `fork` make a child? -/
  forked : Bool
  connTcpServ : (ip : Bytes) → (port : ℕ) → Except Io.Error Unit
  clientIp : Bytes

/-- Who a request is passed on to. -/
inductive Peer where
  | cgi (path : Bytes)
  | proxy (ip : Bytes) (port : ℕ)
deriving DecidableEq

/-- The futures the handler waits for. -/
inductive Operation where
  /-- `write_entity` of a `RequestSerializer` -/
  | writeRequest (peer : Peer) (req : Request)
  /-- `read_entity` of a `ResponseParser` -/
  | readResponse (peer : Peer)

inductive PipelineTy where
  | count
  | written
  | response
  | cgiResponse
deriving DecidableEq

abbrev pipelineSignature : Signature where
  Ty := PipelineTy
  Val
    | .count => Except Io.Error ℕ
    | .written => Except Io.Error Unit
    | .response => Http.Result Response
    | .cgiResponse => Except Cgi.Error Response
  Contract _ := Empty
  Query := Operation
  Answer
    | .writeRequest _ _ => Except Io.Error ℕ
    | .readResponse _ => Http.Result Response
  Proc _ := Empty
  -- the responses that are sent
  Effect := Response

/-- There is no recursive function. -/
def pipelineBodies : Bodies pipelineSignature := fun _ proc => nomatch proc

/-- `send_request` of `Client` and `cgi::object` -/
def sendRequest (peer : Peer) (req : Request) : Expr pipelineSignature .written :=
  let future : Expr pipelineSignature .count := .when (.writeRequest peer req) fun res => res
  .map future fun res => ([], res.map fun _ => ())

/-- `get_response` of `Client` and `cgi::object` -/
def getResponse (peer : Peer) : Expr pipelineSignature .response :=
  .when (.readResponse peer) fun res => res

/-! ## `Cgi.cpp` -/

/-- `cgi::object::from` -/
def Cgi.objectFrom (env : Environment) : Except Cgi.Error Unit :=
  match env.pipeToCgi with
  | .error _ => .error ⟨ascii "pipe"⟩
  | .ok () =>
    match env.pipeFromCgi with
    | .error _ => .error ⟨ascii "pipe"⟩
    | .ok () => if env.forked then .ok () else .error ⟨ascii "fork"⟩

/-- `cgi::send_request` -/
def Cgi.sendRequest (env : Environment) (req : Request) (cgiPath : Bytes) :
    Expr pipelineSignature .cgiResponse :=
  match Cgi.objectFrom env with
  | .error err => .fromVal (.error err)
  | .ok () =>
    .flatmap (Webserv.sendRequest (.cgi cgiPath) req) fun
      | .error err => .fromVal (.error ⟨ascii "cgi::send_request " ++ Io.errorDescription err⟩)
      | .ok () =>
        .map (getResponse (.cgi cgiPath)) fun
          | .error _ => ([], .error ⟨ascii "http error"⟩)
          | .ok response => ([], .ok response)

/-! ## `Client` -/

/-- `Client::from` -/
def Client.from (env : Environment) (ip : Bytes) (port : ℕ) : Http.Result Unit :=
  -- a C string is what the system call reads
  match env.connTcpServ (cStr ip) port with
  | .error err => .error (.ioError err)
  | .ok () => .ok ()

/-- `Client::request_response` -/
def Client.requestResponse (peer : Peer) (req : Request) : Expr pipelineSignature .response :=
  .flatmap (sendRequest peer req) fun
    -- the answer is not waited for
    | .error err => .fromVal (.error (.ioError err))
    | .ok () => getResponse peer

/-! ## `webserv.cpp` -/

/-- `Status::from(500).get_val()` -/
def status500 : Status := ⟨500, by decide, by decide⟩

/-- `Status::from(503).get_val()` -/
def status503 : Status := ⟨503, by decide, by decide⟩

/-- `Status::from(502).get_val()` -/
def status502 : Status := ⟨502, by decide, by decide⟩

/-- `Status::from(404).get_val()` -/
def status404 : Status := ⟨404, by decide, by decide⟩

example : Status.fromInt 500 = .ok status500 ∧ Status.fromInt 503 = .ok status503 ∧
    Status.fromInt 502 = .ok status502 ∧ Status.fromInt 404 = .ok status404 := by decide

/-- `http_conn.send_response` -/
def sendResponse (response : Response) : Prog pipelineSignature := performAll [response] .done

/-- The header line that names the client. -/
def addForwarder (clientIp : Bytes) (request : Request) : Request :=
  -- `operator[]` makes an empty line if there is none
  let forwarded := (request.headers.find? (ascii "X-Forwarder-For")).getD []
  let forwarded := if forwarded = [] then clientIp else forwarded ++ (ascii ", " ++ clientIp)
  { request with headers := request.headers.insert (ascii "X-Forwarder-For") forwarded }

/-- The address in `proxy_pass`. -/
def proxyAddress (proxyPass : Bytes) : Throws (Bytes × ℕ) := do
  let (proxyIp, proxyPortStr) ←
    match find proxyPass Byte.colon 0 with
    | none => pure (ascii "127.0.0.1", proxyPass)
    | some pos => do
      let proxyIp ← substr proxyPass 0 pos
      let proxyPortStr ← substrFrom proxyPass (pos + 1)
      pure (proxyIp, proxyPortStr)
  -- the conversion to `uint16_t`
  pure (proxyIp, (atoi proxyPortStr % 2 ^ 16).toNat)

end Webserv
