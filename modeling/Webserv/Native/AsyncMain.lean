import Webserv.Native.ServerPipeline

/-!
# `async_main`

From the command line to the servers.  What the configuration file holds and
what `Server::create` returns is given.
-/

namespace Webserv

open Config

/-- `ServConf::err_description` -/
def ServConf.errDescription : ServConf.ParseErr → Bytes
  | .extraBracket => ascii "extra bracket"
  | .operatorNotClosed => ascii "operator not closed"
  | .blockIsEmpty => ascii "block is empty"
  | .operatorIsEmpty => ascii "operator is empty"
  | .blockHasNoKey => ascii "block has no key"

/-- What `async_main` starts from. -/
structure Startup where
  argc : Int
  /-- What the stream on `argv[1]` yields, if it opens. -/
  confFile : Option Bytes
  /-- `Server::create` -/
  create : (ip : Bytes) → (port : ℕ) → Except Io.Error Unit

/-- A call of `std::exit`, with the line on `cerr`. -/
structure Exit where
  status : Int
  message : Bytes
deriving DecidableEq

/-- A call of `Server::create`, and what `server_pipeline` is given for its result. -/
structure CreateCall where
  ip : Bytes
  port : ℕ
  servInfo : List Server
deriving DecidableEq

/-- The address in a listen value. -/
def listenAddress (listen : Bytes) : Throws (Bytes × ℕ) := do
  let (ip, portStr) : Bytes × Bytes := ([], listen)
  match find listen Byte.colon 0 with
  | none => pure ()
  | some pos =>
    -- two new variables, which end with their block
    let _ip ← substr listen 0 pos
    let _port ← substrFrom listen (pos + 1)
    pure ()
  -- the conversion to `uint16_t`
  pure (ip, (atoi portStr % 2 ^ 16).toNat)

/-- The loop over `config.servers`: its calls of `create`, and the exit it ends in, if
    any. -/
def createServers (create : Bytes → ℕ → Except Io.Error Unit) :
    List (Bytes × List Server) → Throws (List CreateCall × Option Exit)
  | [] => pure ([], none)
  | (listen, servInfo) :: rest => do
    let (ip, port) ← listenAddress listen
    match create ip port with
    | .error err =>
      -- the exit comes in the middle of the loop, behind the servers that were created
      let message := ascii "Server with listen: " ++ listen ++ ascii " not created: " ++
        Io.errorDescription err
      pure ([⟨ip, port, servInfo⟩], some ⟨-1, message⟩)
    | .ok () =>
      let (calls, exit) ← createServers create rest
      pure (⟨ip, port, servInfo⟩ :: calls, exit)

/-- `async_main` -/
def asyncMain (env : Startup) : Throws (List CreateCall × Option Exit) :=
  if env.argc ≠ 2 then pure ([], some ⟨1, ascii "Not provided path to conf with arg"⟩)
  else
    match env.confFile with
    | none => pure ([], some ⟨1, ascii "Config file error"⟩)
    | some confFile =>
      match ServConf.from confFile with
      | .error err => pure ([], some ⟨1, ServConf.errDescription err ++ ascii " in conf file"⟩)
      | .ok servConf =>
        -- a file that parses may still make no configuration
        match Config.from servConf with
        | .error err => pure ([], some ⟨1, err.cause⟩)
        | .ok config => createServers env.create config.servers.entries

end Webserv
