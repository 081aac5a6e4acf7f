import Webserv.Native.Config
import Webserv.Native.HttpMessage

/-!
# `get_location`

Which location of which server block a request goes to.  A pointer into a map
of locations is the entry it points to, `nullptr` is `none`.
-/

namespace Webserv

open Config Http

/-- The loop over `server.server_name`. -/
def hasName (hostname : Bytes) : List Bytes → Bool
  | [] => false
  | serverName :: rest => if serverName = hostname then true else hasName hostname rest

/-- The loop over the servers, which leaves at the first match. -/
def findServer (hostname : Bytes) : List Server → Option Server
  | [] => none
  | server :: rest =>
    if hasName hostname server.serverName then some server else findServer hostname rest

/-- One turn of the loop over the locations. -/
def locationTurn (req : Request) (locPtr : Option (Bytes × Location)) (loc : Bytes × Location) :
    Option (Bytes × Location) :=
  if req.method ∉ loc.2.acceptedMethods then locPtr
  else if ¬ loc.1.isPrefixOf req.path then locPtr
  else
    -- a later match replaces this one
    some loc

/-- `get_location` -/
def getLocation (req : Request) (info : List Server) : Throws (Option (Bytes × Location)) := do
  let serverPtr ←
    match req.headers.find? (ascii "Host") with
    | none =>
      -- `info->at(0)`
      match info with
      | [] => throw .outOfRange
      | server :: _ => pure (some server)
    | some hostname => pure (findServer hostname info)
  match serverPtr with
  -- no server has this name
  | none => pure none
  | some server => pure (server.locations.entries.foldl (locationTurn req) none)

end Webserv
