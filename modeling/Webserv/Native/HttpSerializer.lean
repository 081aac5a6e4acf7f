import Webserv.Native.HttpParser

/-!
# `RequestSerializer` and `ResponseSerializer`

Both write the header block in their constructor and hand it out as one piece,
the body as a second one.
-/

namespace Webserv.Http

/-- `State` of a serializer. -/
inductive SerializerState where
  | headers
  | body
  | ready
deriving DecidableEq, Repr

/-- The members both serializers have. -/
structure Serializer where
  state : SerializerState := .headers
  headers : Bytes
  body : Bytes

namespace Serializer

/-- `get_data`.  A member that was moved out is empty. -/
def getData (s : Serializer) : Bytes × Serializer :=
  match s.state with
  | .headers => (s.headers, { s with state := .body, headers := [] })
  | .body => (s.body, { s with state := .ready, body := [] })
  | .ready => ([], s)

/-- `state()` -/
def ioState (s : Serializer) : IoState :=
  match s.state with
  | .headers => .pending
  | .body => .pending
  | .ready => .ready

/-- Number of pieces still to come. -/
def piecesLeft (s : Serializer) : Nat :=
  match s.state with
  | .headers => 2
  | .body => 1
  | .ready => 0

/-- The pieces `get_data()` yields while `state()` is PENDING. -/
def pieces (s : Serializer) : List Bytes :=
  if _h : s.ioState = .pending then s.getData.1 :: pieces s.getData.2 else []
termination_by s.piecesLeft
decreasing_by
  -- every call before READY moves the state on
  obtain ⟨state, headers, body⟩ := s
  cases state <;> simp_all [ioState, getData, piecesLeft]

/-- All the bytes of the pieces. -/
def bytes (s : Serializer) : Bytes := s.pieces.flatten

end Serializer

/-- `back_inserter`: the characters of a C string. -/
def backInserter (headers s : Bytes) : Bytes := headers ++ cStr s

/-- One turn of the loop over the header map. -/
def insertHeader (headers : Bytes) (header : Bytes × Bytes) : Bytes :=
  let headers := backInserter headers header.1
  let headers := backInserter headers (ascii ": ")
  let headers := backInserter headers header.2
  backInserter headers (ascii "\r\n")

/-- `RequestSerializer::RequestSerializer` -/
def RequestSerializer.new (req : Request) : Serializer :=
  let headers := backInserter [] req.method
  let headers := backInserter headers (ascii " ")
  let headers := backInserter headers req.path
  let headers := backInserter headers (ascii " ")
  let headers := backInserter headers req.httpVersion
  let headers := backInserter headers (ascii "\r\n")
  -- a map is iterated in the order of its keys
  let headers := req.headers.entries.foldl insertHeader headers
  let headers := backInserter headers (ascii "\r\n")
  { headers := headers, body := req.body }

/-- `ResponseSerializer::ResponseSerializer` -/
def ResponseSerializer.new (resp : Response) : Serializer :=
  let code := toDecimalInt resp.code.get
  let headers := backInserter [] resp.httpVersion
  let headers := backInserter headers (ascii " ")
  let headers := backInserter headers code
  let headers := backInserter headers (ascii " ")
  let headers := backInserter headers resp.status
  let headers := backInserter headers (ascii "\r\n")
  let headers := resp.headers.entries.foldl insertHeader headers
  let headers := backInserter headers (ascii "\r\n")
  { headers := headers, body := resp.body }

end Webserv.Http
