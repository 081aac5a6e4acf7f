import Webserv.Native.AsyncMain
import Webserv.Native.Connection
import Webserv.Native.HostedTasks

/-!
# The server

`FutTCPAcceptor::accept_conn`, `Server::get_conn` and `server_pipeline`, which
starts itself again for the next connection, and all that runs on the event
loop behind `async_main`: the pipelines of its servers and the connections they
have accepted.
-/

namespace Webserv

open Config Futures Http

/-! ## Accepting a connection -/

/-- What a handler of `when_acceptable` finds. -/
inductive AcceptEvent where
  | closed
  | error
  /-- `accept_conn` returned this: with the socket comes the address of the client. -/
  | toAccept (res : Except Io.Error Bytes)
deriving DecidableEq

/-- What `accept_conn` of `FutTCPAcceptor` makes of it. -/
def AcceptEvent.result : AcceptEvent → Except Io.Error Bytes
  | .closed => .error .connectionClosed
  | .error => .error .undefined
  | .toAccept res => res

inductive AcceptTy where
  | accepted
  | connection
deriving DecidableEq

/-- What the callback of `get_conn` does. -/
inductive AcceptEffect where
  /-- `server_pipeline(server, info)` -/
  | serverPipeline
  /-- `get_request` of the connection, and the callback behind it. -/
  | getRequest (clientIp : Bytes)
  | cerr (line : Bytes)
deriving DecidableEq

abbrev acceptSignature : Signature where
  Ty := AcceptTy
  Val
    | .accepted => Except Io.Error Bytes
    | .connection => Except Io.Error Bytes
  Contract _ := Empty
  Query := Unit
  Answer _ := AcceptEvent
  Proc _ := Empty
  Effect := AcceptEffect

/-- There is no recursive function that returns a future. -/
def acceptBodies : Bodies acceptSignature := fun _ proc => nomatch proc

/-- `FutTCPAcceptor::accept_conn` -/
def acceptConn : Expr acceptSignature .accepted := .when () AcceptEvent.result

/-- `Server::get_conn` -/
def getConn : Expr acceptSignature .connection := .map acceptConn fun res => ([], res)

/-- What is done with a connection, or without one. -/
def acceptEffect : Except Io.Error Bytes → AcceptEffect
  | .error err => .cerr (ascii "Server accept error: " ++ Io.errorDescription err ++ ascii "\n")
  | .ok clientIp => .getRequest clientIp

/-- `server_pipeline` -/
def serverPipeline : Task acceptSignature :=
  -- the next connection is waited for before this one is looked at
  .onComplete getConn fun res => .perform .serverPipeline (.perform (acceptEffect res) .done)

/-! ## The process -/

/-- What runs on the event loop. -/
inductive ServerTask where
  /-- `server` is the number of its first call. -/
  | pipeline (server : ℕ) (info : List Server)
  | connection (env : Environment) (info : List Server)

/-- What owns a descriptor. -/
inductive ObjectKind where
  | acceptor
  | client
  | proxy (ip : Bytes) (port : ℕ)
  | toCgi (path : Bytes)
  | fromCgi (path : Bytes)
deriving DecidableEq

/-- An object of the server, or of the connection, with this number. -/
structure ServerObject where
  number : ℕ
  kind : ObjectKind
deriving DecidableEq

/-- The object a handler of a connection waits for: a socket, or one of two pipes. -/
def ConnectionQuery.kind : ConnectionQuery → ObjectKind
  | .read .client => .client
  | .write .client _ => .client
  | .read (.peer (.proxy ip port)) => .proxy ip port
  | .write (.peer (.proxy ip port)) _ => .proxy ip port
  | .read (.peer (.cgi path)) => .fromCgi path
  | .write (.peer (.cgi path)) _ => .toCgi path

/-- `when_readable` and `when_writable` -/
def ConnectionQuery.eventType : ConnectionQuery → Io.EventType
  | .read _ => .toRead
  | .write _ _ => .toWrite

/-- The tasks a callback of `get_conn` starts.  What the system calls of a connection
    return is its own. -/
def AcceptEffect.Starts (server : ℕ) (info : List Server) : AcceptEffect → Option ServerTask → Prop
  | .serverPipeline, new => new = some (.pipeline server info)
  -- whatever its system calls will return, but for the address of the client
  | .getRequest clientIp, new => ∃ env : Environment, env.clientIp = clientIp ∧
      new = some (.connection env info)
  | .cerr _, new => new = none

/-- `webserv` behind `async_main`. -/
def webserv (creators : Connection.Creators) : Io.Application ServerTask ServerObject where
  signature
    | .pipeline _ _ => acceptSignature
    | .connection _ _ => connectionSignature
  bodies
    | .pipeline _ _ => acceptBodies
    | .connection _ _ => Connection.bodies creators
  task
    | .pipeline _ _ => serverPipeline
    | .connection env info => Connection.serve creators env info
  object
    | .pipeline server _, _, _ => ⟨server, .acceptor⟩
    | .connection _ _, n, query => ⟨n, ConnectionQuery.kind query⟩
  eventType
    | .pipeline _ _, _ => .toAccept
    | .connection _ _, query => ConnectionQuery.eventType query
  Starts
    | .pipeline server info, effect, new => AcceptEffect.Starts server info effect new
    -- a connection starts no other task
    | .connection _ _, _, new => new = none
  Faults
    -- no call in front of a connection throws an exception of its own
    | .pipeline _ _, _ => false
    | .connection _ _, effect => ConnectionEffect.isFault effect

/-- `server_pipeline` of a server that `create` has returned. -/
def CreateCall.start (call : CreateCall) (n : ℕ) : ServerTask := .pipeline n call.servInfo

/-- A run of the process whose servers are those of `async_main`. -/
def ServerRun (creators : Connection.Creators) (inherited : Finset Io.Fd)
    (calls : List CreateCall) (es : List (Io.HostEvent (webserv creators)))
    (s : Io.Host (webserv creators)) : Prop :=
  Io.HostRun (webserv creators) inherited (calls.map CreateCall.start) es s

end Webserv
