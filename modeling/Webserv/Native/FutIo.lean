import Webserv.ForStd.Incremental
import Webserv.Native.Future
import Webserv.Native.HttpMessage

/-!
# Asynchronous reads and writes

`read_part`, `read_until`, `read_entity`, `write_part`, `write_all` and
`write_entity` of `ft::io::fut`, for any reader and writer, predicate, creator
and serializer.  What the handler finds when it is called, the event and what
the system call returns, is the answer to its registration.
-/

namespace Webserv.Fut

open Futures

/-! ## `FutRead.hpp` -/

/-- What `read` returned. -/
inductive ReadCall where
  /-- So many bytes; none at the end of the stream. -/
  | bytes (data : Bytes)
  /-- -1, and `errno` is `EAGAIN`. -/
  | again
  /-- -1, and what `from_errno` makes of `errno`. -/
  | failed (err : Io.Error)
deriving DecidableEq

/-- `Socket::read_part` -/
def Socket.readPart : ReadCall → Except Io.Error Bytes
  | .bytes data => .ok data
  -- returns 0, as at the end of the stream
  | .again => .ok []
  | .failed err => .error err

/-- What a handler of `when_readable` finds. -/
inductive ReadEvent where
  | closed
  | error
  /-- `read_part` returned this. -/
  | toRead (res : Except Io.Error Bytes)
deriving DecidableEq

/-- What `read_part` makes of it. -/
def ReadEvent.result : ReadEvent → Except Io.Error Bytes
  | .closed => .error .connectionClosed
  | .error => .error .undefined
  | .toRead res => res

/-- An `EntityCreator` with the states `σ`. -/
structure EntityCreator (σ Entity Err : Type) where
  /-- `operator()` -/
  call : σ → Bytes → Incremental.Status × σ
  createEntity : σ → Except Err Entity
  /-- `Error(err)` -/
  errorOf : Io.Error → Err

section read
variable {σ Entity Err : Type}

inductive ReadTy where
  | part
  | entity
deriving DecidableEq

/-- The calls of a creator, and the callback behind `read_entity`. -/
inductive ReadEffect (σ Entity Err : Type) where
  | fed (creator : σ) (part : Bytes)
  | created (creator : σ)
  | resolved (res : Except Err Entity)
deriving DecidableEq

abbrev readSignature (σ Entity Err : Type) : Signature where
  Ty := ReadTy
  Val
    | .part => Except Io.Error Bytes
    | .entity => Except Err Entity
  Contract _ := Empty
  Query := Unit
  Answer _ := ReadEvent
  Proc
    | .part => Empty
    | .entity => σ
  Effect := ReadEffect σ Entity Err

/-- `read_part` -/
def readPart : Expr (readSignature σ Entity Err) .part := .when () ReadEvent.result

variable (impl : EntityCreator σ Entity Err)

/-- `read_entity` -/
def readEntity (creator : σ) : Expr (readSignature σ Entity Err) .entity :=
  .flatmap readPart fun
    | .error err => .fromVal (.error (impl.errorOf err))
    | .ok data =>
      .perform (.fed creator data) <|
        match impl.call creator data with
        | (.pending, creator) => .call creator
        | (.ready, creator) => .perform (.created creator) (.fromVal (impl.createEntity creator))

def readBodies : Bodies (readSignature σ Entity Err)
  | .part, proc => nomatch proc
  | .entity, creator => readEntity impl creator

/-- `read_entity` with a callback behind it. -/
def readProg (creator : σ) : Prog (readSignature σ Entity Err) :=
  (readEntity impl creator).onComplete fun res => [.resolved res]

end read

section readUntil

abbrev readUntilSignature : Signature where
  Ty := Unit
  Val _ := Except Io.Error Bytes
  Contract _ := Empty
  Query := Unit
  Answer _ := ReadEvent
  -- the bytes that are received
  Proc _ := Bytes
  -- what the callback is called with
  Effect := Except Io.Error Bytes

variable (predicate : Bytes → Prop) [DecidablePred predicate]

/-- `read_until`, for a predicate that has no state. -/
def readUntil (received : Bytes) : Expr readUntilSignature () :=
  .flatmap (.when () ReadEvent.result : Expr readUntilSignature ()) fun
    | .error err => .fromVal (.error err)
    | .ok part =>
      let received := received ++ part
      if ¬predicate received then .call received
      else .fromVal (.ok received)

def readUntilBodies : Bodies readUntilSignature
  | _, received => readUntil predicate received

/-- `read_until` with a callback behind it. -/
def readUntilProg (received : Bytes) : Prog readUntilSignature :=
  (readUntil predicate received).onComplete fun res => [res]

end readUntil

/-! ## `FutWrite.hpp` -/

/-- What a handler of `when_writable` finds that wants to write these bytes. -/
inductive WriteEvent (offered : Bytes) where
  | closed
  | error
  /-- `write_part` returned this: it takes no more than it is offered. -/
  | toWrite (res : Except Io.Error (Fin (offered.length + 1)))

/-- What `write_part` makes of it. -/
def WriteEvent.result {offered : Bytes} : WriteEvent offered → Except Io.Error ℕ
  | .closed => .error .connectionClosed
  | .error => .error .undefined
  | .toWrite (.error err) => .error err
  | .toWrite (.ok cnt) => .ok cnt

/-- An `EntitySerializer` with the states `σ`. -/
structure EntitySerializer (σ : Type) where
  state : σ → Incremental.Status
  getData : σ → Bytes × σ

section write
variable {σ : Type}

inductive WriteProc (σ : Type) where
  | writeAll (d : Bytes) (fromPos sended : ℕ)
  | writeEntity (serializer : σ) (sended : ℕ)

abbrev writeSignature (σ : Type) : Signature where
  Ty := Unit
  Val _ := Except Io.Error ℕ
  Contract _ := Empty
  -- the bytes that are offered
  Query := Bytes
  Answer := WriteEvent
  Proc _ := WriteProc σ
  -- what the callback is called with
  Effect := Except Io.Error ℕ

/-- `write_part` -/
def writePart (offered : Bytes) : Expr (writeSignature σ) () := .when offered WriteEvent.result

/-- `write_all` -/
def writeAll (d : Bytes) (fromPos sended : ℕ) : Expr (writeSignature σ) () :=
  .flatmap (writePart (d.drop fromPos)) fun
    | .error err => .fromVal (.error err)
    | .ok sendCnt =>
      let sended := sended + sendCnt
      if fromPos + sendCnt ≠ d.length then
        -- `sended` is not passed on
        .call (.writeAll d (fromPos + sendCnt) 0)
      else
        .fromVal (.ok sended)

variable (impl : EntitySerializer σ)

/-- `write_entity` -/
def writeEntity (serializer : σ) (sended : ℕ) : Expr (writeSignature σ) () :=
  match impl.state serializer with
  | .pending =>
    let (data, serializer) := impl.getData serializer
    .flatmap (writeAll data 0 0) fun
      | .error err => .fromVal (.error err)
      | .ok _ => .call (.writeEntity serializer sended)
  | .ready => .fromVal (.ok sended)

def writeBodies : Bodies (writeSignature σ)
  | _, .writeAll d fromPos sended => writeAll d fromPos sended
  | _, .writeEntity serializer sended => writeEntity impl serializer sended

/-- A future with a callback behind it. -/
def writeProg (future : Expr (writeSignature σ) ()) : Prog (writeSignature σ) :=
  future.onComplete fun res => [res]

end write

/-- `Socket::write_all` behind `writeCnt` bytes, on what `write_part` returns: none if it
    has not returned yet. -/
def Socket.writeAll (data : Bytes) : (writeCnt : ℕ) → List (Except Io.Error ℕ) →
    Option (Except Io.Error ℕ)
  | _, [] => none
  | _, .error err :: _ => some (.error err)
  | writeCnt, .ok cnt :: results =>
    let writeCnt := writeCnt + cnt
    if writeCnt = data.length then some (.ok writeCnt) else writeAll data writeCnt results

end Webserv.Fut
