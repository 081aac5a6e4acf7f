import Webserv.ForStd.Incremental
import Webserv.ForStd.List
import Webserv.Native.FutIo
import Webserv.Native.HttpMessage

/-!
# `RequestParser` and `ResponseParser`

The two parsers are the same program but for the first line, the error they
report, the `GET` test in `read_body` and the entity they build.  `Format`
collects these differences; `Parser` holds the members both classes have.

Iterators into the chunk are indices.  A read at an index the chunk or
`not_handled_data` does not have ends the call with `Fault.outOfBounds`.
-/

namespace Webserv.Http

/-- `io::State` -/
abbrev IoState := Incremental.Status

/-- `State` of a parser. -/
inductive ParserState where
  | headersRead
  | bodyRead
deriving DecidableEq, Repr

/-- The members of a parser; `first` holds what the first line fills. -/
structure Parser (F : Type) where
  first : F
  headers : Headers := ∅
  body : Bytes := []
  firstLineHandled : Bool := false
  notHandledData : Bytes := []
  contentLength : Option Nat := none
  err : Result Unit := .ok ()
  state : ParserState := .headersRead

/-- What the two parsers do differently. -/
structure Format (F E : Type) where
  /-- The first-line members of a fresh parser. -/
  initial : F
  /-- Members assigned before a failure stay assigned. -/
  parseFirstHeader : F → Bytes → Throws (Result Unit × F)
  parseError : Error
  /-- `read_body` returns READY before it looks at the length. -/
  bodiless : F → Bool
  createEntity : Parser F → Throws (Result E)

namespace Parser

variable {F E : Type}

/-- A newly constructed parser. -/
def fresh (fmt : Format F E) : Parser F := { first := fmt.initial }

/-- `parse_header` -/
def parseHeader (parseError : Error) (line : Bytes) : Throws (Result (Bytes × Bytes)) :=
  match find line Byte.colon 0 with
  | none => pure (.error parseError)
  | some idx => do
    let key ← substr line 0 idx
    let val ← substrFrom line (idx + 2)
    pure (.ok (key, val))

/-- `set_content_length` -/
def setContentLength (fmt : Format F E) (p : Parser F) : Result Unit × Parser F :=
  if p.contentLength ≠ none then (.ok (), p)
  else
    match p.headers.find? (ascii "Content-Length") with
    | none => (.error fmt.parseError, p)
    | some val =>
      match stoul val with
      -- either exception of `stoul` is caught
      | .error _ => (.error fmt.parseError, p)
      | .ok length => (.ok (), { p with contentLength := some length })

/-- `read_body`.  The result of `set_content_length` is dropped. -/
def readBody (fmt : Format F E) (p : Parser F) (data : Bytes) («from» : Nat) :
    Throws (IoState × Parser F) :=
  if fmt.bodiless p.first then .ok (.ready, p)
  else
    let p := (setContentLength fmt p).2
    match p.contentLength with
    | none => .error .badOptionalAccess
    | some length =>
      if length ≤ data.length - «from» + p.body.length then
        -- the range to insert would end in front of its start
        if length < p.body.length then .error .outOfBounds
        else .ok (.ready,
          { p with body := p.body ++ slice data «from» («from» + length - p.body.length) })
      else .ok (.pending, { p with body := p.body ++ data.drop «from» })

/-- The start of a line kept from earlier chunks, which is cleared. -/
def takeNotHandled (p : Parser F) : Throws (Bytes × Parser F) :=
  if p.notHandledData = [] then .ok ([], p)
  else
    match stringFromData p.notHandledData with
    | .error f => .error f
    | .ok s => .ok (s, { p with notHandledData := [] })

/-- A non-empty header line.  `ready` leaves the loop with `_err` set. -/
def handleLine (fmt : Format F E) (p : Parser F) (headerLine : Bytes) :
    Throws (IoState × Parser F) :=
  if ¬ p.firstLineHandled then
    match fmt.parseFirstHeader p.first headerLine with
    | .error f => .error f
    | .ok (.error e, first) =>
      -- `_err` takes the error of `parse_first_header` itself
      .ok (.ready, { p with firstLineHandled := true, first := first, err := .error e })
    | .ok (.ok (), first) => .ok (.pending, { p with firstLineHandled := true, first := first })
  else
    match parseHeader fmt.parseError headerLine with
    | .error f => .error f
    | .ok (.error _) => .ok (.ready, { p with err := .error fmt.parseError })
    | .ok (.ok (key, val)) => .ok (.pending, { p with headers := p.headers.insert key val })

/-- `line_end_it` steps back over a CR in front of the line feed. -/
def stepBackOverCr (nextPart : Bytes) (newline : Nat) : Nat :=
  if nextPart[newline - 1]? = some Byte.cr then newline - 1 else newline

/-- `++start_it; // skip \r`, and one more step over a `\n`. -/
def skipLineEnd (nextPart : Bytes) (lineEnd : Nat) : Nat :=
  if nextPart[lineEnd + 1]? = some Byte.lf then lineEnd + 2 else lineEnd + 1

/-- What is found is in the string, at `pos` or behind it. -/
theorem find_bounds {s : Bytes} {c : UInt8} {pos i : Nat} (h : find s c pos = some i) :
    pos ≤ i ∧ i < s.length := by
  simp only [find, Option.map_eq_some_iff] at h
  obtain ⟨j, hj, rfl⟩ := h
  rw [List.idxOf?_eq_map_cutAt, Option.map_eq_some_iff] at hj
  obtain ⟨⟨l, r⟩, hcut, rfl⟩ := hj
  -- what is cut off is not longer than what `drop` leaves
  have hlen := List.length_lt_of_cutAt hcut
  simp only [List.length_drop] at hlen
  dsimp only
  omega

/-- At least the line feed is skipped. -/
theorem lt_skipLineEnd (nextPart : Bytes) (lineEnd : Nat) :
    lineEnd < skipLineEnd nextPart lineEnd := by
  unfold skipLineEnd
  split <;> omega

/-- The loop of the `HEADERS_READ` case, from `start_it` on. -/
def headersLoop (fmt : Format F E) (nextPart : Bytes) (p : Parser F) (start : Nat) :
    Throws (IoState × Parser F) :=
  match _hfind : find nextPart Byte.lf start with
  | none =>
    .ok (.pending, { p with notHandledData := p.notHandledData ++ nextPart.drop start })
  | some newline =>
    -- `*(line_end_it - 1)` is in front of the chunk
    if newline = 0 then .error .outOfBounds
    else
      let lineEnd := stepBackOverCr nextPart newline
      match takeNotHandled p with
      | .error f => .error f
      | .ok (kept, p) =>
        -- `start_it != line_end_it` stays true past the end of the chunk
        if _hstart : lineEnd < start then .error .outOfBounds
        else
          let headerLine := kept ++ slice nextPart start lineEnd
          let next := skipLineEnd nextPart lineEnd
          -- an empty line ends the header block
          if headerLine = [] then
            readBody fmt { p with state := .bodyRead } nextPart next
          else
            match handleLine fmt p headerLine with
            | .error f => .error f
            | .ok (.ready, p) => .ok (.ready, p)
            | .ok (.pending, p) => headersLoop fmt nextPart p next
termination_by nextPart.length - start
decreasing_by
  have hbounds := find_bounds _hfind
  have hskip := lt_skipLineEnd nextPart (stepBackOverCr nextPart newline)
  simp only [lineEnd] at _hstart
  omega

/-- `operator()` -/
def operatorCall (fmt : Format F E) (p : Parser F) (nextPart : Bytes) :
    Throws (IoState × Parser F) :=
  match p.state with
  | .headersRead => headersLoop fmt nextPart p 0
  | .bodyRead => readBody fmt p nextPart 0

/-- Hand chunk after chunk to a parser until its first READY. -/
def feedChunks (fmt : Format F E) (p : Parser F) (chunks : List Bytes) :
    Throws (IoState × Parser F) :=
  Incremental.feed (operatorCall fmt) p chunks

end Parser

/-! ## Requests -/

structure RequestLine where
  method : Bytes := []
  path : Bytes := []
  httpVersion : Bytes := []
deriving DecidableEq

abbrev RequestParser := Parser RequestLine

namespace RequestParser

/-- `RequestParser::parse_first_header` -/
def parseFirstHeader (line : RequestLine) (s : Bytes) : Throws (Result Unit × RequestLine) :=
  match find s Byte.space 0 with
  | none => pure (.error .httpRequestParse, line)
  | some methodEnd =>
    if methodEnd = 0 then pure (.error .httpRequestParse, line)
    else do
      let method ← substr s 0 methodEnd
      let line := { line with method := method }
      match find s Byte.space (methodEnd + 1) with
      | none => pure (.error .httpRequestParse, line)
      | some pathEnd =>
        if pathEnd = methodEnd + 1 then pure (.error .httpRequestParse, line)
        else do
          let path ← substr s (methodEnd + 1) (pathEnd - methodEnd - 1)
          let line := { line with path := path }
          -- the version may hold further spaces
          let httpVersion ← substrFrom s (pathEnd + 1)
          let line := { line with httpVersion := httpVersion }
          if httpVersion = [] then pure (.error .httpRequestParse, line)
          else pure (.ok (), line)

/-- `RequestParser::create_entity` -/
def createEntity (p : RequestParser) : Throws (Result Request) :=
  match p.err with
  | .error e => pure (.error e)
  | .ok () =>
    pure (.ok {
      body := p.body
      headers := p.headers
      method := p.first.method
      path := p.first.path
      httpVersion := p.first.httpVersion })

end RequestParser

/-- What `RequestParser` does its own way. -/
def requestFormat : Format RequestLine Request where
  initial := {}
  parseFirstHeader := RequestParser.parseFirstHeader
  parseError := .httpRequestParse
  bodiless line := line.method = ascii "GET"
  createEntity := RequestParser.createEntity

namespace RequestParser

def parseHeader : Bytes → Throws (Result (Bytes × Bytes)) := Parser.parseHeader .httpRequestParse
def setContentLength : RequestParser → Result Unit × RequestParser :=
  Parser.setContentLength requestFormat
def readBody : RequestParser → Bytes → Nat → Throws (IoState × RequestParser) :=
  Parser.readBody requestFormat
def operatorCall : RequestParser → Bytes → Throws (IoState × RequestParser) :=
  Parser.operatorCall requestFormat

end RequestParser

/-! ## Responses -/

structure StatusLine where
  httpVersion : Bytes := []
  code : Option Status := none
  status : Bytes := []
deriving DecidableEq

abbrev ResponseParser := Parser StatusLine

namespace ResponseParser

/-- `ResponseParser::parse_first_header` -/
def parseFirstHeader (line : StatusLine) (s : Bytes) : Throws (Result Unit × StatusLine) :=
  match find s Byte.space 0 with
  | none => pure (.error .httpResponseParse, line)
  | some versionEnd =>
    if versionEnd = 0 then pure (.error .httpResponseParse, line)
    else do
      let httpVersion ← substr s 0 versionEnd
      let line := { line with httpVersion := httpVersion }
      match find s Byte.space (versionEnd + 1) with
      | none => pure (.error .httpResponseParse, line)
      | some codeEnd =>
        if codeEnd = versionEnd + 1 then pure (.error .httpResponseParse, line)
        else do
          let codeText ← substr s (versionEnd + 1) (codeEnd - versionEnd - 1)
          match Status.fromString codeText with
          -- the one error that is not `HTTP_RESPONSE_PARSE`
          | .error e => pure (.error e, line)
          | .ok code => do
            let line := { line with code := some code }
            let status ← substrFrom s (codeEnd + 1)
            let line := { line with status := status }
            if status = [] then pure (.error .httpResponseParse, line)
            else pure (.ok (), line)

/-- `ResponseParser::create_entity` -/
def createEntity (p : ResponseParser) : Throws (Result Response) :=
  match p.err with
  | .error e => pure (.error e)
  | .ok () =>
    match p.first.code with
    -- `code.value()`
    | none => .error .badOptionalAccess
    | some code =>
      pure (.ok {
        body := p.body
        headers := p.headers
        httpVersion := p.first.httpVersion
        status := p.first.status
        code := code })

end ResponseParser

/-- What `ResponseParser` does its own way. -/
def responseFormat : Format StatusLine Response where
  initial := {}
  parseFirstHeader := ResponseParser.parseFirstHeader
  parseError := .httpResponseParse
  bodiless _ := false
  createEntity := ResponseParser.createEntity

namespace ResponseParser

def parseHeader : Bytes → Throws (Result (Bytes × Bytes)) := Parser.parseHeader .httpResponseParse
def setContentLength : ResponseParser → Result Unit × ResponseParser :=
  Parser.setContentLength responseFormat
def readBody : ResponseParser → Bytes → Nat → Throws (IoState × ResponseParser) :=
  Parser.readBody responseFormat
def operatorCall : ResponseParser → Bytes → Throws (IoState × ResponseParser) :=
  Parser.operatorCall responseFormat

end ResponseParser

/-! ## The parsers as `EntityCreator`s -/

section creator
variable {F E : Type}

/-- A creator that does what the parser does wherever that returns. -/
structure Format.IsCreator (fmt : Format F E) (impl : Fut.EntityCreator (Parser F) E Error) :
    Prop where
  call : ∀ {p part r}, Parser.operatorCall fmt p part = .ok r → impl.call p part = r
  createEntity : ∀ {p r}, fmt.createEntity p = .ok r → impl.createEntity p = r

/-- A parser as a creator; what it does behind an exception, where nobody sees it, is
    filled in. -/
def Format.creator (fmt : Format F E) : Fut.EntityCreator (Parser F) E Error where
  call p part :=
    match Parser.operatorCall fmt p part with
    | .ok r => r
    | .error _ => (.ready, p)
  createEntity p :=
    match fmt.createEntity p with
    | .ok res => res
    | .error _ => .error .undefined
  errorOf := .ioError

/-- The parser is one such creator. -/
theorem Format.isCreator_creator (fmt : Format F E) : fmt.IsCreator fmt.creator where
  call hcall := by simp only [creator, hcall]
  createEntity hentity := by simp only [creator, hentity]

end creator

/-! ## What a run of calls comes to -/

/-- What feeding a message until the first READY comes to. -/
inductive Outcome (E : Type) where
  /-- No call returned READY. -/
  | pending
  /-- What `create_entity` returned after READY. -/
  | entity (result : Result E)
  | fault (f : Fault)
deriving DecidableEq

/-- What the last call leads to: after READY `create_entity` is called. -/
def Format.conclude {F E : Type} (fmt : Format F E) : Throws (IoState × Parser F) → Outcome E
  | .error f => .fault f
  | .ok (.pending, _) => .pending
  | .ok (.ready, p) =>
    match fmt.createEntity p with
    | .error f => .fault f
    | .ok result => .entity result

/-- Feed `chunks` to a fresh parser until the first READY, then call
    `create_entity`. -/
def Format.outcome {F E : Type} (fmt : Format F E) (chunks : List Bytes) : Outcome E :=
  fmt.conclude (Parser.feedChunks fmt (.fresh fmt) chunks)

end Webserv.Http
