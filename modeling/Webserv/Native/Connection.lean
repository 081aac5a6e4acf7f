import Webserv.ForStd.Transition
import Webserv.Native.HttpParser
import Webserv.Native.HttpSerializer
import Webserv.Native.ServerPipeline
import Webserv.Native.Task

/-!
# A connection of `server_pipeline`

The callback of `get_conn` for one connection: `get_request`, the callback
behind it, and behind that `send_response`, down to the handlers of
`when_readable` and `when_writable`.  `read_entity` and `write_entity` are those
of `ft::io::fut`, embedded for the client and for the peer of the request.

Nothing between a handler and `main` catches an exception.  So a call that
throws, of a parser or of `static_from`, is an effect with which the process
ends; what the code would do behind it is never done.
-/

namespace Webserv

open Config Futures Http

/-- Whose bytes they are. -/
inductive Channel where
  | client
  | peer (peer : Peer)
deriving DecidableEq

inductive ConnectionTy where
  | part
  | count
  | request
  | written
  | response
  | cgiResponse
deriving DecidableEq

/-- What a handler is registered for. -/
inductive ConnectionQuery where
  | read (channel : Channel)
  /-- With the bytes that are offered. -/
  | write (channel : Channel) (offered : Bytes)
deriving DecidableEq

def ConnectionQuery.channel : ConnectionQuery → Channel
  | .read channel => channel
  | .write channel _ => channel

inductive ConnectionProc : ConnectionTy → Type where
  | readRequest (creator : RequestParser) : ConnectionProc .request
  | readResponse (peer : Peer) (creator : ResponseParser) : ConnectionProc .response
  | write (channel : Channel) (proc : Fut.WriteProc Serializer) : ConnectionProc .count

/-- What a connection does beside. -/
inductive ConnectionEffect where
  | cerr (line : Bytes)
  /-- A call that does not return. -/
  | fault (f : Fault)
deriving DecidableEq

def ConnectionEffect.isFault : ConnectionEffect → Bool
  | .cerr _ => false
  | .fault _ => true

/-- What is seen of a call: nothing, if it returns. -/
def ConnectionEffect.ofCall {α : Type} : Throws α → List ConnectionEffect
  | .error f => [.fault f]
  | .ok _ => []

abbrev connectionSignature : Signature where
  Ty := ConnectionTy
  Val
    | .part => Except Io.Error Bytes
    | .count => Except Io.Error ℕ
    | .request => Http.Result Request
    | .written => Except Io.Error Unit
    | .response => Http.Result Response
    | .cgiResponse => Except Cgi.Error Response
  Contract _ := Empty
  Query := ConnectionQuery
  Answer
    | .read _ => Fut.ReadEvent
    | .write _ offered => Fut.WriteEvent offered
  Proc := ConnectionProc
  Effect := ConnectionEffect

namespace Connection

/-! ## The templates of `ft::io::fut` -/

/-- `read_entity` of the client's socket. -/
def readsRequest : Embedding (Fut.readSignature RequestParser Request Http.Error)
    connectionSignature where
  ty
    | .part => .part
    | .entity => .request
  val
    | .part => .refl _
    | .entity => .refl _
  contract _ contract := nomatch contract
  query _ := .read .client
  answer _ := .refl _
  proc
    | .part, proc => nomatch proc
    | .entity, creator => .readRequest creator
  effects
    | .fed creator part => ConnectionEffect.ofCall (RequestParser.operatorCall creator part)
    | .created creator => ConnectionEffect.ofCall (RequestParser.createEntity creator)
    | .resolved _ => []

/-- `read_entity` of a proxy's socket, or of the pipe from a script. -/
def readsResponse (peer : Peer) :
    Embedding (Fut.readSignature ResponseParser Response Http.Error) connectionSignature where
  ty
    | .part => .part
    | .entity => .response
  val
    | .part => .refl _
    | .entity => .refl _
  contract _ contract := nomatch contract
  query _ := .read (.peer peer)
  answer _ := .refl _
  proc
    | .part, proc => nomatch proc
    | .entity, creator => .readResponse peer creator
  effects
    | .fed creator part => ConnectionEffect.ofCall (ResponseParser.operatorCall creator part)
    | .created creator => ConnectionEffect.ofCall (ResponseParser.createEntity creator)
    | .resolved _ => []

/-- `write_entity` of a socket or a pipe. -/
def writesTo (channel : Channel) : Embedding (Fut.writeSignature Serializer) connectionSignature where
  ty _ := .count
  val _ := .refl _
  contract _ contract := nomatch contract
  query offered := .write channel offered
  answer _ := .refl _
  proc _ proc := .write channel proc
  effects _ := []

/-- The serializers as an `EntitySerializer`. -/
def serializer : Fut.EntitySerializer Serializer where
  state := Serializer.ioState
  getData := Serializer.getData

/-- The parsers as `EntityCreator`s, whatever they would do behind a fault. -/
structure Creators where
  request : Fut.EntityCreator RequestParser Request Http.Error
  response : Fut.EntityCreator ResponseParser Response Http.Error
  isRequest : requestFormat.IsCreator request
  isResponse : responseFormat.IsCreator response

variable (creators : Creators)

def bodies : Bodies connectionSignature
  | _, .readRequest creator => (Fut.readEntity creators.request creator).embed readsRequest
  | _, .readResponse peer creator =>
    (Fut.readEntity creators.response creator).embed (readsResponse peer)
  | _, .write channel proc => (Fut.writeBodies serializer () proc).embed (writesTo channel)

/-! ## `HttpConnection.hpp` and `Cgi.cpp` -/

/-- `http::get_request` -/
def getRequest : Expr connectionSignature .request :=
  (Fut.readEntity creators.request (.fresh requestFormat)).embed readsRequest

/-- `http::get_response` -/
def getResponse (peer : Peer) : Expr connectionSignature .response :=
  (Fut.readEntity creators.response (.fresh responseFormat)).embed (readsResponse peer)

/-- `write_entity`, and the `map` behind it. -/
def send (channel : Channel) (entity : Serializer) : Expr connectionSignature .written :=
  let future : Expr connectionSignature .count :=
    (Fut.writeEntity serializer entity 0).embed (writesTo channel)
  -- the number of bytes is dropped
  .map future fun res => ([], res.map fun _ => ())

/-- `http::send_response` -/
def sendResponse (response : Response) : Expr connectionSignature .written :=
  send .client (ResponseSerializer.new response)

/-- `send_request` of `Client` and `cgi::object` -/
def sendRequest (peer : Peer) (req : Request) : Expr connectionSignature .written :=
  send (.peer peer) (RequestSerializer.new req)

/-- `cgi::send_request` -/
def cgiSendRequest (env : Environment) (req : Request) (cgiPath : Bytes) :
    Expr connectionSignature .cgiResponse :=
  match Cgi.objectFrom env with
  -- a pipe or the fork has failed, so nothing is sent
  | .error err => .fromVal (.error err)
  | .ok () =>
    .flatmap (sendRequest (.cgi cgiPath) req) fun
      | .error err => .fromVal (.error ⟨ascii "cgi::send_request " ++ Io.errorDescription err⟩)
      | .ok () =>
        .map (getResponse creators (.cgi cgiPath)) fun
          -- whichever error of the parser it was
          | .error _ => ([], .error ⟨ascii "http error"⟩)
          | .ok response => ([], .ok response)

/-- `Client::request_response` -/
def requestResponse (peer : Peer) (req : Request) : Expr connectionSignature .response :=
  .flatmap (sendRequest peer req) fun
    | .error err => .fromVal (.error (.ioError err))
    | .ok () => getResponse creators peer

/-! ## `webserv.cpp` -/

/-- `http_conn.send_response(response).on_complete([http_conn](auto _){})` -/
def respond (response : Response) : Task connectionSignature :=
  .onComplete (sendResponse response) fun _ => .done

/-- The callback of `get_request`. -/
def requestCallback (env : Environment) (serverConf : List Server) (reqRes : Http.Result Request) :
    Throws (Task connectionSignature) :=
  match reqRes with
  -- there is no response, and the connection goes
  | .error _ => pure (.perform (.cerr (ascii "Http Request Error\n")) .done)
  | .ok request => do
    match ← getLocation request serverConf with
    | none => pure (respond (withErrorCode status500))
    | some (_, loc) =>
      -- the first of the three that is not empty decides
      if loc.root ≠ [] then do
        match ← Response.staticFrom loc.root (env.file loc.root) with
        | .error _ => pure (respond (withErrorCode status500))
        | .ok response => pure (respond response)
      else if loc.cgiPath ≠ [] then
        pure <| .onComplete (cgiSendRequest creators env request loc.cgiPath) fun
          | .error _ => respond (withErrorCode status503)
          | .ok response => respond response
      else if loc.proxyPass ≠ [] then do
        -- a script gets the request as it came, a proxy does not
        let request := addForwarder env.clientIp request
        let (proxyIp, proxyPort) ← proxyAddress loc.proxyPass
        match Client.from env proxyIp proxyPort with
        | .error _ => pure (respond (withErrorCode status502))
        | .ok () =>
          pure <| .onComplete (requestResponse creators (.proxy proxyIp proxyPort) request) fun
            | .error _ => respond (withErrorCode status502)
            | .ok response => respond response
      else
        -- the location names nothing to answer with
        pure (respond (withErrorCode status404))

/-- What is done with a connection. -/
def serve (env : Environment) (info : List Server) : Task connectionSignature :=
  .onComplete (getRequest creators) fun reqRes =>
    match requestCallback creators env info reqRes with
    -- the exception leaves the handler
    | .error f => .perform (.fault f) .done
    | .ok task => task

/-! ## The end of the process -/

/-- Behind this event the connection does nothing more. -/
def halts : Event connectionSignature → Bool
  | .performed effect => effect.isFault
  | _ => false

/-- A run of a connection, up to the fault that ends the process. -/
def ServeRun (env : Environment) (info : List Server) (es : List (Event connectionSignature))
    (s : Futures.Config connectionSignature × Bool) : Prop :=
  Transition.Run (Transition.Halting (Step (bodies creators)) halts)
    (.start (serve creators env info).code, false) es s

end Connection

end Webserv
