import Mathlib.Data.Finset.Basic
import Webserv.Native.ServConf

/-!
# `Config`

The server blocks a configuration is turned into.
-/

namespace Webserv

namespace Config

/-- `Config::Error` -/
structure Error where
  cause : Bytes
deriving DecidableEq

/-- `Config::Server::Location` -/
structure Location where
  acceptedMethods : Finset Bytes := ∅
  root : Bytes := []
  proxyPass : Bytes := []
  cgiPath : Bytes := []
deriving DecidableEq

/-- `Config::Server`; `locations` maps a path to its location. -/
structure Server where
  listen : Bytes
  serverName : List Bytes
  locations : OrderedMap Bytes Location
deriving DecidableEq

/-- `std::map<std::string, std::vector<Server>>`, from a listen value to its server
    blocks. -/
abbrev Servers := OrderedMap Bytes (List Server)

/-- The `Config` itself. -/
structure Conf where
  servers : Servers
deriving DecidableEq

end Config

namespace ServConf.Node

open Config

/-- `get_operator_single_val` -/
def getOperatorSingleVal (key : Bytes) (node : Node) (defaultVal : Bytes) :
    Except Config.Error Bytes :=
  match node.getByKey key with
  | none => .ok defaultVal
  -- a key with several nodes is refused, even if they agree
  | some [val] =>
    if ¬ val.isOperator then .error ⟨key ++ ascii " must be an operator"⟩
    else
      match val.getArgs with
      | [arg] => .ok arg
      -- an operator without an argument, too
      | _ => .error ⟨key ++ ascii " has more than one arg"⟩
  | some _ => .error ⟨ascii "several blocks " ++ key⟩

/-- `get_operator_args` -/
def getOperatorArgs (key : Bytes) (node : Node) : Except Config.Error (List Bytes) :=
  match node.getByKey key with
  | none => .ok []
  | some [val] =>
    if ¬ val.isOperator then .error ⟨key ++ ascii " must be an operator"⟩
    else .ok val.getArgs
  | some _ => .error ⟨ascii "several blocks " ++ key⟩

/-- One turn of the loop of `get_location`. -/
def addLocation (locs : OrderedMap Bytes Location) (location : Node) :
    Except Config.Error (OrderedMap Bytes Location) :=
  if location.isOperator then .error ⟨ascii "location is not operator"⟩
  else
    match location.getArgs with
    | [path] => do
      let root ← getOperatorSingleVal (ascii "root") location []
      let proxyPass ← getOperatorSingleVal (ascii "proxy_pass") location []
      let cgi ← getOperatorSingleVal (ascii "cgi") location []
      let methods ← getOperatorArgs (ascii "accepted_method") location
      -- `locs[args[0]]`: an entry with this path is written over
      return locs.insert path ⟨methods.toFinset, root, proxyPass, cgi⟩
    | _ => .error ⟨ascii "location arg count error"⟩

/-- `get_location` of a server block. -/
def getLocation (node : Node) : Except Config.Error (OrderedMap Bytes Location) :=
  match node.getByKey (ascii "location") with
  | none => .error ⟨ascii "no location in server block"⟩
  | some locations => locations.foldlM addLocation ∅

end ServConf.Node

namespace Config

/-- One turn of the loop over the server blocks of an http block. -/
def addServer (servers : Servers) (server : ServConf.Node) : Except Error Servers := do
  let listen ← server.getOperatorSingleVal (ascii "listen") (ascii "80")
  let serverName ← server.getOperatorArgs (ascii "server_name")
  let locations ← server.getLocation
  -- blocks with the same value share one entry, in their order
  return servers.push listen ⟨listen, serverName, locations⟩

/-- One turn of the loop over the http blocks. -/
def addServers (servers : Servers) (http : ServConf.Node) : Except Error Servers :=
  match http.getByKey (ascii "server") with
  -- an http block may hold no server
  | none => .ok servers
  | some nodes => nodes.foldlM addServer servers

/-- `Config::from` -/
def «from» (servConf : ServConf) : Except Error Conf :=
  match servConf.getByKey (ascii "http") with
  | none => .error ⟨ascii "no http block"⟩
  | some httpBlocks => do
    let servers ← httpBlocks.foldlM addServers ∅
    if servers.entries = [] then .error ⟨ascii "no server block in http block"⟩
    else return ⟨servers⟩

end Config

end Webserv
