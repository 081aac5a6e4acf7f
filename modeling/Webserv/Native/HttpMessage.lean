import Mathlib.Control.Monad.Basic
import Webserv.ForStd.OrderedMap
import Webserv.Native.Bytes

/-!
# HTTP messages and the responses the server builds itself

`Request`, `Response` and `Error` of `ft::http`, with `Response::static_from`
and `with_error_code`.
-/

namespace Webserv

/-- `ft::io::Error` -/
inductive Io.Error where
  | undefined
  | connectionAborted
  | interrupted
  | openFdLimitProc
  | openFdLimitSys
  | bufOutMemory
  | logic
  | portAlreadyUse
  | again
  | connectionClosed
deriving DecidableEq, Repr

namespace Http

/-- `ft::http::Error` -/
inductive Error where
  | httpRequestParse
  | httpResponseParse
  | undefined
  | incomplete
  | invalidStatucCode
  | ioError (err : Io.Error)
deriving DecidableEq, Repr

/-- `ft::http::Result<T>` -/
abbrev Result (T : Type) := Except Error T

/-- `std::map<std::string, std::string>` -/
abbrev Headers := OrderedMap Bytes Bytes

structure Request where
  method : Bytes
  path : Bytes
  httpVersion : Bytes
  headers : Headers
  body : Bytes
deriving DecidableEq

/-- `Response::Status`: its constructor is private, so a value is one that
    `from` accepted or the initial 599. -/
structure Status where
  val : Int
  lower : 100 ≤ val
  upper : val < 600
deriving DecidableEq

namespace Status

/-- `Status::from(int)` -/
def fromInt (val : Int) : Result Status :=
  if h : val < 100 ∨ 600 ≤ val then .error .invalidStatucCode
  else .ok ⟨val, by omega, by omega⟩

/-- `Status::from(const std::string &)` -/
def fromString (s : Bytes) : Result Status := fromInt (atoi s)

def get (s : Status) : Int := s.val

/-- `Response() : code(599)` -/
def initial : Status := ⟨599, by decide, by decide⟩

end Status

structure Response where
  httpVersion : Bytes := []
  code : Status := Status.initial
  status : Bytes := []
  headers : Headers := ∅
  body : Bytes := []
deriving DecidableEq

/-- `file_path.find_last_of('.')` and the `substr` behind it; `none` is `npos`. -/
def extension (filePath : Bytes) : Option Bytes :=
  if filePath.contains Byte.dot then some (filePath.reverse.takeWhile (· ≠ Byte.dot)).reverse else none

/-- What a stream on a path does. -/
inductive FileStream where
  | notOpened
  /-- It opens, and reading it fails: a directory. -/
  | unreadable
  | contents (body : Bytes)
deriving DecidableEq

/-- `Response::static_from`.  `file` is the stream on `filePath`. -/
def Response.staticFrom (filePath : Bytes) (file : FileStream) : Throws (Result Response) :=
  -- `none` leaves before the file is opened
  let contentType : Option Bytes :=
    match extension filePath with
    | none => some []
    | some ext =>
      if ext = ascii "html" then some (ascii "text/html")
      else if ext = ascii "txt" then some (ascii "text/plain")
      else none
  match contentType with
  | none => pure (.error .undefined)
  | some contentType =>
    match file with
    | .notOpened => pure (.error .undefined)
    -- the iterators read the buffer, whose `underflow` throws
    | .unreadable => .error .iosFailure
    | .contents body =>
      -- `Status::from(200).get_val()`
      match Status.fromInt 200 with
      | .error e => pure (.error e)
      | .ok code =>
        pure (.ok {
          body := body
          code := code
          status := ascii "OK"
          httpVersion := ascii "HTTP/1.1"
          headers := ((∅ : Headers).insert (ascii "Content-Type") contentType).insert
            (ascii "Content-Length") (toDecimal body.length) })

/-- `with_error_code` of `webserv.cpp`. -/
def withErrorCode (code : Status) : Response :=
  { code := code, httpVersion := ascii "HTTP/1.1", status := ascii "BAD_REQUEST" }

end Http

end Webserv
