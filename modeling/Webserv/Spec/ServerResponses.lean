import Webserv.Spec.ParserFaults
import Webserv.Spec.SerializerCorrect

/-!
# Can the server read its own responses?

A proxy reads what another instance of the server sends.  The responses of
`static_from` tell the length of their body and are read back; those of
`with_error_code` have no header at all, and `read_body` throws on them.

## Key results

- `staticFrom_ok`: what an accepted `static_from` builds
- `withErrorCode_outcome`: every error response makes the parser throw
- `built_outcome_iff`: which of the server's responses are read back
-/

namespace Webserv.Http

/-! ## Static files -/

/-- The extensions that are served, with their media types. -/
def servedTypes : List (Option Bytes × Bytes) :=
  [(none, []), (some (ascii "html"), ascii "text/html"), (some (ascii "txt"), ascii "text/plain")]

def mediaType (path : Bytes) : Option Bytes := servedTypes.lookup (extension path)

/-- The response that hands over a file. -/
def page (contentType body : Bytes) : Response where
  httpVersion := ascii "HTTP/1.1"
  code := ⟨200, by decide, by decide⟩
  status := ascii "OK"
  headers := ((∅ : Headers).insert (ascii "Content-Type") contentType).insert
    (ascii "Content-Length") (toDecimal body.length)
  body := body

/-- The extensions, in the order in which `static_from` asks for them. -/
theorem mediaType_eq (path : Bytes) : mediaType path =
    match extension path with
    | none => some []
    | some ext =>
      if ext = ascii "html" then some (ascii "text/html")
      else if ext = ascii "txt" then some (ascii "text/plain")
      else none := by
  rw [mediaType]
  cases extension path with
  | none => rfl
  | some ext =>
    dsimp only
    split_ifs with hhtml htxt
    · rw [hhtml]
      rfl
    · rw [htxt]
      rfl
    · -- any other extension is not in the table
      have hhtml' : (some ext == some (ascii "html")) = false := by simpa using hhtml
      have htxt' : (some ext == some (ascii "txt")) = false := by simpa using htxt
      simp only [servedTypes, List.lookup_cons, List.lookup_nil, hhtml', htxt']
      rfl

/-- `static_from` by the media type of the path. -/
theorem staticFrom_eq (path : Bytes) (file : FileStream) : Response.staticFrom path file =
    match mediaType path with
    | none => .ok (.error .undefined)
    | some contentType =>
      match file with
      | .notOpened => .ok (.error .undefined)
      | .unreadable => .error .iosFailure
      | .contents body => .ok (.ok (page contentType body)) := by
  rw [mediaType_eq, Response.staticFrom]
  cases extension path with
  | none => cases file <;> rfl
  | some ext =>
    dsimp only
    -- the type is looked at first, then the file
    split_ifs
    · cases file <;> rfl
    · cases file <;> rfl
    · rfl

/-- What an accepted `static_from` builds. -/
theorem staticFrom_ok {path : Bytes} {file : FileStream} {r : Response}
    (h : Response.staticFrom path file = .ok (.ok r)) :
    ∃ contentType body, mediaType path = some contentType ∧ r = page contentType body := by
  rw [staticFrom_eq] at h
  cases htype : mediaType path with
  | none =>
    rw [htype] at h
    cases h
  | some contentType =>
    rw [htype] at h
    cases file with
    | contents body =>
      cases h
      exact ⟨contentType, body, rfl, rfl⟩
    | _ => cases h

/-- Inserting a plain header keeps the headers encodable. -/
theorem EncodableHeaders.insert {headers : Headers} {key val : Bytes} (h : EncodableHeaders headers)
    (hcolon : Byte.colon ∉ key) (hkey : PlainText key) (hval : PlainText val) :
    EncodableHeaders (headers.insert key val) := by
  rintro ⟨key', val'⟩ hmem
  rw [← OrderedMap.find?_eq_some_iff, OrderedMap.find?_insert] at hmem
  split at hmem
  · rename_i heq
    cases hmem
    exact heq ▸ ⟨hcolon, hkey, hval⟩
  · exact h (key', val') (OrderedMap.find?_eq_some_iff.mp hmem)

/-- The types that are served are plain texts. -/
theorem plainText_of_mediaType {path contentType : Bytes} (h : mediaType path = some contentType) :
    PlainText contentType := by
  rw [mediaType_eq] at h
  split at h
  · cases h
    decide
  · split_ifs at h
    all_goals
      cases h
      decide

/-- A static response is read back. -/
theorem staticFrom_decodesTo {path : Bytes} {file : FileStream} {r : Response}
    (h : Response.staticFrom path file = .ok (.ok r)) (hsize : r.body.length < sizeLimit) :
    DecodesTo responseFormat (ResponseSerializer.new r) r := by
  obtain ⟨contentType, body, htype, rfl⟩ := staticFrom_ok h
  -- the two headers of a page are plain
  have hdigits : PlainText (toDecimal body.length) :=
    (plainText_of_digits fun _ => isDigit_of_mem_toDecimal).2
  have hempty : EncodableHeaders ∅ := fun header hmem => absurd hmem List.not_mem_nil
  have hheader : EncodableHeaders ((∅ : Headers).insert (ascii "Content-Type") contentType) :=
    hempty.insert (by decide) (by decide) (plainText_of_mediaType htype)
  have hencodable : (page contentType body).Encodable := by
    have hversion : ascii "HTTP/1.1" ≠ [] ∧ Byte.space ∉ ascii "HTTP/1.1" ∧
        PlainText (ascii "HTTP/1.1") := by decide
    have hstatus : ascii "OK" ≠ [] ∧ PlainText (ascii "OK") := by decide
    exact ⟨hversion, hstatus, hheader.insert (by decide) (by decide) hdigits⟩
  refine ResponseSerializer.decodesTo hencodable ?_ (stoul_toDecimal hsize)
  -- the length that is sent is the length that is read back
  rw [page, OrderedMap.find?_insert, if_pos rfl]

/-! ## Error responses -/

/-- Every error response makes the parser throw. -/
theorem withErrorCode_outcome (code : Status) :
    responseFormat.outcome [(ResponseSerializer.new (withErrorCode code)).bytes] =
      .fault .badOptionalAccess := by
  have hencodable : (withErrorCode code).Encodable :=
    ⟨by simp only [withErrorCode]; decide, by simp only [withErrorCode]; decide,
      fun header hmem => absurd hmem List.not_mem_nil⟩
  -- one line without a header behind it
  have hbytes : (ResponseSerializer.new (withErrorCode code)).bytes =
      blockText [(withErrorCode code).line] := by
    have htext := ResponseSerializer.headers_new hencodable
    rw [Serializer.bytes_eq rfl, htext]
    exact List.append_nil _
  have hgood := (withErrorCode code).line_good hencodable
  have hhead := head?_blockText [] [] hgood
  have hframe := frame_blockText (List.forall_mem_singleton.mpr hgood) []
  rw [List.append_nil] at hhead hframe
  have hfirst : FirstLine responseFormat [(withErrorCode code).line]
      ⟨ascii "HTTP/1.1", some code, ascii "BAD_REQUEST"⟩ [] :=
    ⟨_, rfl, ResponseParser.parseFirstHeader_line hencodable _⟩
  -- `read_body` finds no `Content-Length`
  have hlines := Parser.readLines_fresh_of_fields hfirst fun line hline =>
    absurd hline List.not_mem_nil
  rw [Format.outcome, hbytes, Parser.feedChunks_of_frame [] hhead hframe hlines,
    Parser.readBody_started_of_none _ rfl (by simp [fieldsOf])]
  rfl

/-! ## All responses of the server -/

/-- The two ways the server makes a response. -/
inductive Builder where
  | withErrorCode (code : Status)
  | staticFrom (filePath : Bytes) (file : FileStream)

def Builder.build : Builder → Throws (Result Response)
  | .withErrorCode code => .ok (.ok (Http.withErrorCode code))
  | .staticFrom filePath file => Response.staticFrom filePath file

/-- The responses that are read back are those of `static_from`. -/
theorem built_outcome_iff {b : Builder} {r : Response} (h : b.build = .ok (.ok r))
    (hsize : r.body.length < sizeLimit) :
    responseFormat.outcome [(ResponseSerializer.new r).bytes] = .entity (.ok r) ↔
      ∃ filePath file, b = .staticFrom filePath file := by
  cases b with
  | withErrorCode code =>
    cases h
    simp [withErrorCode_outcome]
  | staticFrom filePath file =>
    have hbytes : (ResponseSerializer.new r).bytes = _ := Serializer.bytes_eq rfl
    have hprefix : (ResponseSerializer.new r).headers <+: (ResponseSerializer.new r).bytes := by
      rw [hbytes]
      exact List.prefix_append _ _
    have hout := (staticFrom_decodesTo h hsize).outcome hprefix
    exact ⟨fun _ => ⟨filePath, file, rfl⟩, fun _ => hout⟩

/-- A small page. -/
theorem built_outcome_page : ∃ r,
    (Builder.staticFrom (ascii "/index.html") (.contents (ascii "hi"))).build = .ok (.ok r) ∧
      responseFormat.outcome [(ResponseSerializer.new r).bytes] = .entity (.ok r) := by
  have hbuild : (Builder.staticFrom (ascii "/index.html") (.contents (ascii "hi"))).build =
      .ok (.ok {
        body := ascii "hi", code := ⟨200, by decide, by decide⟩, status := ascii "OK",
        httpVersion := ascii "HTTP/1.1",
        headers := ((∅ : Headers).insert (ascii "Content-Type") (ascii "text/html")).insert
          (ascii "Content-Length") (ascii "2") }) := by decide +kernel
  exact ⟨_, hbuild, (built_outcome_iff hbuild (by decide)).mpr ⟨_, _, rfl⟩⟩

/-- The answer to a missing file is not read back. -/
theorem built_not_found_lost : ∃ code : Status, code.get = 404 ∧
    responseFormat.outcome [(ResponseSerializer.new (withErrorCode code)).bytes] ≠
      .entity (.ok (withErrorCode code)) :=
  ⟨⟨404, by decide, by decide⟩, rfl, by decide +kernel⟩

end Webserv.Http
