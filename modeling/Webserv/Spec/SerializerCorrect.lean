import Webserv.Native.HttpSerializer
import Webserv.Spec.DecimalCorrect
import Webserv.Spec.HeaderBlock
import Webserv.Spec.ParserChunking

/-!
# The parsers undo the serializers

What a serializer writes is the text of a header block, `blockText`, and the
body.  `frame` gives back the lines of such a text, the first-line parser and
`parse_header` give back what they were printed from, and `read_body` collects
the body over any cutting of it.

## Key results

- `frame_blockText`: the lines of the text of a block
- `feedChunks_of_frame`: chunks behind the header block are read as one
- `decodesTo_of_block`: when the parser gives back what was serialized
- `request_decodesTo`, `response_decodesTo`: the two parsers on the two serializers
-/

namespace Webserv.Http

/-! ## The text of a header block -/

/-- The end of a line. -/
def crlf : Bytes := [Byte.cr, Byte.lf]

/-- The lines of a block and the empty line behind them. -/
def blockText (ls : List Bytes) : Bytes := ls.flatMap (· ++ crlf) ++ crlf

/-- A line that ends with CR LF. -/
theorem splitLine_crlf {line : Bytes} (h : Byte.lf ∉ line) (rest : Bytes) :
    splitLine (line ++ crlf ++ rest) = some (line, rest) := by
  have hnot : Byte.lf ∉ line ++ [Byte.cr] := by
    have hne : Byte.lf ≠ Byte.cr := by decide
    simp [h, hne]
  -- the CR is cut off with the line and then taken from it
  have happ : line ++ crlf ++ rest = (line ++ [Byte.cr]) ++ Byte.lf :: rest := by simp [crlf]
  rw [happ, splitLine, List.cutAt_append_cons rest hnot]
  simp

/-- The text of a block is cut into its lines again. -/
theorem frame_blockText {ls : List Bytes} (h : ∀ line ∈ ls, line ≠ [] ∧ Byte.lf ∉ line)
    (rest : Bytes) : frame [] (blockText ls ++ rest) = (ls, .body rest) := by
  induction ls with
  | nil =>
    -- the blank line
    have hsplit : splitLine (blockText [] ++ rest) = some ([], rest) :=
      splitLine_crlf List.not_mem_nil rest
    rw [frame_of_empty hsplit rfl]
  | cons line ls ih =>
    obtain ⟨hline, hlf⟩ := h line List.mem_cons_self
    have happ : blockText (line :: ls) ++ rest = line ++ crlf ++ (blockText ls ++ rest) := by
      simp [blockText]
    rw [happ, frame_of_line (splitLine_crlf hlf _) (by simpa using hline),
      ih fun l hl => h l (List.mem_cons_of_mem line hl)]
    rfl

/-- The text of a block does not start with a line feed. -/
theorem head?_blockText {line : Bytes} (hs : List Bytes) (rest : Bytes)
    (h : line ≠ [] ∧ Byte.lf ∉ line) : (blockText (line :: hs) ++ rest).head? ≠ some Byte.lf := by
  obtain ⟨c, cs, rfl⟩ := List.exists_cons_of_ne_nil h.1
  have hc : c ≠ Byte.lf := fun heq => h.2 (heq ▸ List.mem_cons_self)
  simp [blockText, hc]

/-- Text that a serializer writes as it is and that does not end a line. -/
def PlainText (s : Bytes) : Prop := Byte.nul ∉ s ∧ Byte.cr ∉ s ∧ Byte.lf ∉ s

instance (s : Bytes) : Decidable (PlainText s) := inferInstanceAs (Decidable (_ ∧ _ ∧ _))

/-- A C string without NUL is the whole string. -/
theorem cStr_of_not_mem {s : Bytes} (h : Byte.nul ∉ s) : cStr s = s := by
  unfold cStr
  rw [List.takeWhile_eq_self_iff]
  intro c hc
  have hne : c ≠ Byte.nul := fun heq => h (heq ▸ hc)
  simpa using hne

/-- A plain text is inserted whole. -/
theorem backInserter_of_plain {headers s : Bytes} (h : PlainText s) :
    backInserter headers s = headers ++ s := by
  rw [backInserter, cStr_of_not_mem h.1]

/-- The end of a line is plain. -/
theorem backInserter_crlf (headers : Bytes) :
    backInserter headers (ascii "\r\n") = headers ++ crlf := rfl

/-- So is a space. -/
theorem backInserter_space (headers : Bytes) :
    backInserter headers (ascii " ") = headers ++ [Byte.space] := rfl

/-- A header as it is printed. -/
def fieldLine (header : Bytes × Bytes) : Bytes := header.1 ++ Byte.colon :: Byte.space :: header.2

/-- Headers whose names can be told from their values, and that stay on a line. -/
def EncodableHeaders (headers : Headers) : Prop :=
  ∀ header ∈ headers.entries, Byte.colon ∉ header.1 ∧ PlainText header.1 ∧ PlainText header.2

/-- The line of a header is a field. -/
theorem isField_fieldLine {header : Bytes × Bytes} (h : Byte.colon ∉ header.1) :
    IsField (fieldLine header) :=
  ⟨header.1, Byte.space, header.2, rfl, h⟩

/-- A header is one line. -/
theorem lf_not_mem_fieldLine {header : Bytes × Bytes} (h₁ : PlainText header.1)
    (h₂ : PlainText header.2) : Byte.lf ∉ fieldLine header := by
  have hcolon : Byte.lf ≠ Byte.colon := by decide
  have hspace : Byte.lf ≠ Byte.space := by decide
  simp [fieldLine, h₁.2.2, h₂.2.2, hcolon, hspace]

/-- A header as the serializers print it. -/
def cField (header : Bytes × Bytes) : Bytes := fieldLine (cStr header.1, cStr header.2)

/-- Without a NUL the line is written in full. -/
theorem cField_of_not_mem {header : Bytes × Bytes} (h₁ : Byte.nul ∉ header.1)
    (h₂ : Byte.nul ∉ header.2) : cField header = fieldLine header := by
  rw [cField, cStr_of_not_mem h₁, cStr_of_not_mem h₂]

/-- The loop of the constructors, whatever the headers hold. -/
theorem foldl_insertHeader_cField (entries : List (Bytes × Bytes)) (headers : Bytes) :
    entries.foldl insertHeader headers =
      headers ++ (entries.map cField).flatMap (· ++ crlf) := by
  induction entries generalizing headers with
  | nil => simp
  | cons header entries ih =>
    -- a turn of the loop writes one line
    have hturn : insertHeader headers header = headers ++ (cField header ++ crlf) := by
      have hcolon : cStr (ascii ": ") = [Byte.colon, Byte.space] := rfl
      have hcrlf : cStr (ascii "\r\n") = crlf := rfl
      simp [insertHeader, backInserter, hcolon, hcrlf, cField, fieldLine]
    rw [List.foldl_cons, hturn, ih]
    simp

/-- The loop of the constructor appends one line for each header. -/
theorem foldl_insertHeader {entries : List (Bytes × Bytes)} (headers : Bytes)
    (h : ∀ header ∈ entries, PlainText header.1 ∧ PlainText header.2) :
    entries.foldl insertHeader headers =
      headers ++ (entries.map fieldLine).flatMap (· ++ crlf) := by
  have hmap : entries.map cField = entries.map fieldLine :=
    List.map_congr_left fun header hheader =>
      cField_of_not_mem (h header hheader).1.1 (h header hheader).2.1
  rw [foldl_insertHeader_cField, hmap]

/-- Printed headers whose names have no colon are read back into the same map. -/
theorem fieldsOf_map_fieldLine {headers : Headers}
    (h : ∀ header ∈ headers.entries, Byte.colon ∉ header.1) :
    fieldsOf (headers.entries.map fieldLine) = headers := by
  -- `parse_header` skips the blank behind the colon
  have hadd : ∀ (m : Headers), ∀ header ∈ headers.entries,
      addField m (fieldLine header) = m.insert header.1 header.2 := by
    intro m header hheader
    rw [addField, fieldLine, List.cutAt_append_cons _ (h header hheader)]
    rfl
  rw [fieldsOf, List.foldl_map, List.foldl_ext _ _ _ fun m header => hadd m header]
  exact headers.foldl_insert_entries

/-- The headers are read back from their lines. -/
theorem fieldsOf_fieldLines {headers : Headers} (h : EncodableHeaders headers) :
    fieldsOf (headers.entries.map fieldLine) = headers :=
  fieldsOf_map_fieldLine fun header hheader => (h header hheader).1

/-! ## Chunks behind the header block -/

namespace Parser

variable {F E : Type} {fmt : Format F E}

/-- Chunks that come while the body is read are read as one. -/
theorem feedChunks_readBody {p p' : Parser F} {data : Bytes} (chunks : List Bytes)
    (hp : p.state = .bodyRead) (h : readBody fmt p data 0 = .ok (.pending, p')) :
    feedChunks fmt p' chunks = readBody fmt p (data ++ chunks.flatten) 0 := by
  induction chunks generalizing p' data with
  | nil =>
    rw [List.flatten_nil, List.append_nil, h]
    rfl
  | cons k ks ih =>
    have hp' : p'.state = .bodyRead := (readBody_pending h).1.trans hp
    have hcall : operatorCall fmt p' k = readBody fmt p (data ++ k) 0 := by
      rw [operatorCall_bodyRead hp', readBody_append_of_pending k h]
    rw [List.flatten_cons, ← List.append_assoc, feedChunks, Incremental.feed, hcall]
    cases hread : readBody fmt p (data ++ k) 0 with
    | error e => rw [readBody_append_of_settled _ (by simp [hread]), hread]
    | ok r =>
      obtain ⟨st, q⟩ := r
      cases st with
      | ready =>
        -- the body is complete: nothing more is handed over
        rw [readBody_append_of_settled _ (by simp [hread]), hread]
      | pending => exact ih hread

/-- Chunks behind one that starts the body are read as one with it. -/
theorem feedChunks_of_readBody {p q : Parser F} {chunk data : Bytes} (chunks : List Bytes)
    (hp : p.state = .bodyRead) (hcall : operatorCall fmt q chunk = readBody fmt p data 0) :
    feedChunks fmt q (chunk :: chunks) = readBody fmt p (data ++ chunks.flatten) 0 := by
  rw [feedChunks, Incremental.feed, hcall]
  cases hread : readBody fmt p data 0 with
  | error e => rw [readBody_append_of_settled _ (by simp [hread]), hread]
  | ok r =>
    obtain ⟨st, q'⟩ := r
    cases st with
    | ready => rw [readBody_append_of_settled _ (by simp [hread]), hread]
    | pending => exact feedChunks_readBody chunks hp hread

/-- Chunks behind the one with the header block are read as one with it. -/
theorem feedChunks_of_frame {first data : Bytes} {ls : List Bytes} {p : Parser F}
    (chunks : List Bytes) (hhead : first.head? ≠ some Byte.lf)
    (hframe : frame [] first = (ls, .body data))
    (hlines : readLines fmt (fresh fmt) ls = .ok (.pending, p)) :
    feedChunks fmt (fresh fmt) (first :: chunks) =
      readBody fmt { p with state := .bodyRead } (data ++ chunks.flatten) 0 := by
  have hcall : operatorCall fmt (fresh fmt) first =
      readBody fmt { p with state := .bodyRead } data 0 := by
    rw [operatorCall_fresh, if_neg hhead, hframe]
    simp only [readFrame, hlines]
  exact feedChunks_of_readBody chunks rfl hcall

end Parser

/-! ## Decoding what was serialized -/

variable {F E : Type} {fmt : Format F E}

/-- For every cutting of the serializer's bytes whose first chunk has the header
    block: a fresh parser is PENDING until the last byte is given, READY then,
    and gives the entity `e`. -/
def DecodesTo (fmt : Format F E) (s : Serializer) (e : E) : Prop :=
  ∀ first rest, (first :: rest).flatten = s.bytes → s.headers <+: first →
    ∀ given later, first :: rest = given ++ later →
      (given.flatten ≠ s.bytes →
        ∃ p, Parser.feedChunks fmt (.fresh fmt) given = .ok (.pending, p)) ∧
      (given.flatten = s.bytes →
        ∃ p, Parser.feedChunks fmt (.fresh fmt) given = .ok (.ready, p) ∧
          fmt.createEntity p = .ok (.ok e))

/-- In one chunk, too. -/
theorem DecodesTo.outcome {s : Serializer} {e : E} (h : DecodesTo fmt s e)
    (hheaders : s.headers <+: s.bytes) : fmt.outcome [s.bytes] = .entity (.ok e) := by
  obtain ⟨-, hready⟩ := h s.bytes [] (by simp) hheaders [s.bytes] [] rfl
  obtain ⟨p, hrun, hentity⟩ := hready (by simp)
  simp [Format.outcome, hrun, Format.conclude, hentity]

/-- The two pieces of a serializer. -/
theorem Serializer.bytes_eq {s : Serializer} (h : s.state = .headers) :
    s.bytes = s.headers ++ s.body := by
  obtain ⟨state, headers, body⟩ := s
  cases h
  -- one piece, the other, and then READY
  simp [bytes, pieces, ioState, getData]

/-- The body of a complete block, as far as it is given. -/
theorem Parser.readBody_started {first : F} {hs : List Bytes} {val : Bytes} {n : Nat}
    (data : Bytes) (hbodied : fmt.bodiless first = false)
    (hfind : (fieldsOf hs).find? (ascii "Content-Length") = some val) (hval : stoul val = .ok n) :
    readBody fmt { started fmt first (fieldsOf hs) with state := .bodyRead } data 0 =
      if n ≤ data.length then
        .ok (.ready, { started fmt first (fieldsOf hs) with
          state := .bodyRead, contentLength := some n, body := data.take n })
      else
        .ok (.pending, { started fmt first (fieldsOf hs) with
          state := .bodyRead, contentLength := some n, body := data }) := by
  rw [readBody_of_value (p := { started fmt first (fieldsOf hs) with state := .bodyRead }) rfl rfl
    hbodied hfind, hval]

/-- When the parser gives back what was serialized: `ls` are the lines of the
    header block, and the parser's members afterwards make up `e`. -/
theorem decodesTo_of_block {s : Serializer} {line : Bytes} {hs : List Bytes} {first : F} {e : E}
    (hstate : s.state = .headers) (htext : s.headers = blockText (line :: hs))
    (hlines : ∀ l ∈ line :: hs, l ≠ [] ∧ Byte.lf ∉ l)
    (hfirst : fmt.parseFirstHeader fmt.initial line = .ok (.ok (), first))
    (hfields : ∀ l ∈ hs, IsField l)
    (hlength : (fmt.bodiless first = true ∧ s.body = []) ∨
      (fmt.bodiless first = false ∧ ∃ val,
        (fieldsOf hs).find? (ascii "Content-Length") = some val ∧ stoul val = .ok s.body.length))
    (hentity : ∀ p : Parser F, p.first = first → p.headers = fieldsOf hs → p.body = s.body →
      p.err = .ok () → fmt.createEntity p = .ok (.ok e)) : DecodesTo fmt s e := by
  have hbytes := s.bytes_eq hstate
  have hne : s.headers ≠ [] := by simp [htext, blockText, crlf]
  intro chunk rest hflat hprefix given later hsplit
  cases given with
  | nil =>
    -- the header block is never empty
    refine ⟨fun _ => ⟨_, rfl⟩, fun hnil => absurd hnil.symm ?_⟩
    simp [hbytes, hne]
  | cons chunk' given =>
    obtain ⟨rfl, rfl⟩ := List.cons.inj hsplit
    obtain ⟨data, rfl⟩ := hprefix
    -- the first chunk holds the whole block, and so its blank line
    have hhead : (s.headers ++ data).head? ≠ some Byte.lf := by
      rw [htext]
      exact head?_blockText hs data (hlines line List.mem_cons_self)
    have hframe : frame [] (s.headers ++ data) = (line :: hs, .body data) := by
      rw [htext]
      exact frame_blockText hlines data
    have hrun := Parser.feedChunks_of_frame given hhead hframe
      (Parser.readLines_fresh_of_fields ⟨line, rfl, hfirst⟩ hfields)
    -- what is given of the body is a part of it
    have hbody : data ++ given.flatten ++ later.flatten = s.body := by
      have hcancel : s.headers ++ (data ++ given.flatten ++ later.flatten) =
          s.headers ++ s.body := by
        rw [← hbytes, ← hflat]
        simp
      exact List.append_cancel_left hcancel
    have hgiven : ((s.headers ++ data) :: given).flatten = s.headers ++ (data ++ given.flatten) := by
      simp
    rw [hgiven, hbytes, ne_eq, List.append_cancel_left_eq, hrun]
    generalize data ++ given.flatten = sofar at hbody ⊢
    rcases hlength with ⟨hbodiless, hnil⟩ | ⟨hbodied, val, hfind, hval⟩
    · -- a bodiless message is complete with its header block
      have hsofar : sofar = s.body := by
        rw [hnil, List.append_eq_nil_iff] at hbody
        rw [hbody.1, hnil]
      refine ⟨fun h => absurd hsofar h, fun _ => ?_⟩
      exact ⟨_, Parser.readBody_of_bodiless hbodiless _, hentity _ rfl rfl hnil.symm rfl⟩
    · -- otherwise the length tells
      rw [Parser.readBody_started sofar hbodied hfind hval]
      have hlen := congrArg List.length hbody
      rw [List.length_append] at hlen
      constructor
      · intro hmore
        have hlt : ¬ s.body.length ≤ sofar.length := by
          intro hle
          apply hmore
          have hlater : later.flatten = [] := List.eq_nil_of_length_eq_zero (by omega)
          rw [← hbody, hlater, List.append_nil]
        exact ⟨_, if_neg hlt⟩
      · rintro rfl
        exact ⟨_, if_pos le_rfl, hentity _ rfl rfl (List.take_length) rfl⟩

/-! ## Requests -/

/-- The members of a request can be told apart in its text. -/
structure Request.Encodable (r : Request) : Prop where
  method : r.method ≠ [] ∧ Byte.space ∉ r.method ∧ PlainText r.method
  path : r.path ≠ [] ∧ Byte.space ∉ r.path ∧ PlainText r.path
  httpVersion : r.httpVersion ≠ [] ∧ PlainText r.httpVersion
  headers : EncodableHeaders r.headers

/-- The header that tells the length of a body. -/
def LengthGiven (headers : Headers) (body : Bytes) : Prop :=
  headers.find? (ascii "Content-Length") = some (toDecimal body.length)

/-- The first line of a request as it is printed. -/
def Request.line (r : Request) : Bytes :=
  r.method ++ Byte.space :: (r.path ++ Byte.space :: r.httpVersion)

/-- The header block of a request as it is printed, with its empty line. -/
def Request.headerBlock (r : Request) : Bytes :=
  blockText (r.line :: r.headers.entries.map fieldLine)

/-- The serializer writes the header block. -/
theorem RequestSerializer.headers_new {r : Request} (h : r.Encodable) :
    (RequestSerializer.new r).headers = r.headerBlock := by
  have hheaders := foldl_insertHeader (r.line ++ crlf) fun e he => (h.headers e he).2
  simp only [RequestSerializer.new, backInserter_of_plain h.method.2.2,
    backInserter_of_plain h.path.2.2, backInserter_of_plain h.httpVersion.2, backInserter_space,
    backInserter_crlf]
  rw [← List.nil_append r.line] at hheaders
  simp only [Request.line, List.append_assoc, List.cons_append, List.nil_append] at hheaders ⊢
  rw [hheaders]
  simp [Request.headerBlock, Request.line, blockText]

/-- The first line is split into what it was printed from. -/
theorem RequestParser.parseFirstHeader_line {r : Request} (h : r.Encodable) (first : RequestLine) :
    RequestParser.parseFirstHeader first r.line =
      .ok (.ok (), ⟨r.method, r.path, r.httpVersion⟩) := by
  rw [RequestParser.parseFirstHeader_eq, Request.line, List.cutAt_append_cons _ h.method.2.1]
  simp only [if_neg h.method.1, List.cutAt_append_cons _ h.path.2.1, if_neg h.path.1,
    if_neg h.httpVersion.1]

/-- The lines are fields of a header block. -/
theorem fieldLines_good {headers : Headers} (h : EncodableHeaders headers) :
    ∀ l ∈ headers.entries.map fieldLine, IsField l ∧ l ≠ [] ∧ Byte.lf ∉ l := by
  intro l hl
  obtain ⟨e, he, rfl⟩ := List.mem_map.mp hl
  obtain ⟨hcolon, h₁, h₂⟩ := h e he
  exact ⟨isField_fieldLine hcolon, by simp [fieldLine], lf_not_mem_fieldLine h₁ h₂⟩

/-- The first line is not empty and stays on its line. -/
theorem Request.line_good {r : Request} (h : r.Encodable) : r.line ≠ [] ∧ Byte.lf ∉ r.line := by
  have hspace : Byte.lf ≠ Byte.space := by decide
  refine ⟨by simp [Request.line], ?_⟩
  simp [Request.line, h.method.2.2.2.2, h.path.2.2.2.2, h.httpVersion.2.2.2, hspace]

/-- `RequestSerializer` yields the header block and the body, and `RequestParser` undoes it, but
    for the body of a `GET`, which it does not read. -/
theorem request_decodesTo {r : Request} (h : r.Encodable)
    (hlength : (r.method = ascii "GET" ∧ r.body = []) ∨
      (r.method ≠ ascii "GET" ∧ LengthGiven r.headers r.body))
    (hsize : r.body.length < sizeLimit) :
    (RequestSerializer.new r).headers = r.headerBlock ∧
      (RequestSerializer.new r).bytes = r.headerBlock ++ r.body ∧
      DecodesTo requestFormat (RequestSerializer.new r) r := by
  have hheaders := RequestSerializer.headers_new h
  have hfields := fieldsOf_fieldLines h.headers
  refine ⟨hheaders, by rw [Serializer.bytes_eq rfl, hheaders]; rfl, ?_⟩
  refine decodesTo_of_block rfl (RequestSerializer.headers_new h)
    (List.forall_mem_cons.mpr ⟨r.line_good h, fun l hl => (fieldLines_good h.headers l hl).2⟩)
    (RequestParser.parseFirstHeader_line h _) (fun l hl => (fieldLines_good h.headers l hl).1) ?_ ?_
  · rcases hlength with ⟨hget, hnil⟩ | ⟨hget, hgiven⟩
    · exact Or.inl ⟨by simpa [requestFormat] using hget, hnil⟩
    · refine Or.inr ⟨by simpa [requestFormat] using hget, _, ?_, stoul_toDecimal hsize⟩
      rw [hfields]
      exact hgiven
  · intro p hfirst hheaders hbody herr
    -- the members are those of the request
    obtain ⟨method, path, httpVersion, headers, body⟩ := r
    simp only [requestFormat, RequestParser.createEntity, herr, hfirst, hheaders, hbody, hfields,
      RequestSerializer.new]
    rfl

/-- A `POST` with two header fields and a body. -/
def postWithBody : Request where
  method := ascii "POST"
  path := ascii "/a"
  httpVersion := ascii "HTTP/1.1"
  headers := ((∅ : Headers).insert (ascii "Host") (ascii "h")).insert
    (ascii "Content-Length") (ascii "2")
  body := ascii "hi"

/-- Its header block comes with the first byte of the body, then nothing, then the rest. -/
theorem request_decodesTo_post :
    postWithBody.headerBlock =
      ascii "POST /a HTTP/1.1\r\nContent-Length: 2\r\nHost: h\r\n\r\n" ∧
    (∃ p, Parser.feedChunks requestFormat (.fresh requestFormat)
      [postWithBody.headerBlock ++ ascii "h", []] = .ok (.pending, p)) ∧
    ∃ p, Parser.feedChunks requestFormat (.fresh requestFormat)
      [postWithBody.headerBlock ++ ascii "h", [], ascii "i"] = .ok (.ready, p) ∧
        requestFormat.createEntity p = .ok (.ok postWithBody) := by
  obtain ⟨hheaders, hbytes, hdecodes⟩ :=
    request_decodesTo (r := postWithBody) ⟨by decide, by decide, by decide, by
        unfold EncodableHeaders
        decide +kernel⟩
      (Or.inr ⟨by decide, by
        unfold LengthGiven
        decide +kernel⟩) (by decide)
  -- the cut is inside the body
  have hcut : [postWithBody.headerBlock ++ ascii "h", [], ascii "i"].flatten =
      (RequestSerializer.new postWithBody).bytes := by
    rw [hbytes]
    decide +kernel
  have hfirst : (RequestSerializer.new postWithBody).headers <+:
      postWithBody.headerBlock ++ ascii "h" := by
    rw [hheaders]
    exact List.prefix_append _ _
  refine ⟨by decide +kernel, ?_, ?_⟩
  · refine (hdecodes _ _ hcut hfirst [_, []] [ascii "i"] rfl).1 ?_
    rw [hbytes]
    decide +kernel
  · exact (hdecodes _ _ hcut hfirst _ [] (List.append_nil _).symm).2 hcut

/-- A `GET` with a body and the length of it. -/
def getWithBody : Request where
  method := ascii "GET"
  path := ascii "/"
  httpVersion := ascii "HTTP/1.1"
  headers := (∅ : Headers).insert (ascii "Content-Length") (ascii "2")
  body := ascii "hi"

/-- The body of a `GET` is lost. -/
theorem request_get_body_lost :
    getWithBody.Encodable ∧ LengthGiven getWithBody.headers getWithBody.body ∧
      ¬ DecodesTo requestFormat (RequestSerializer.new getWithBody) getWithBody := by
  refine ⟨⟨by decide, by decide, by decide, ?_⟩, ?_, fun h => ?_⟩
  · unfold EncodableHeaders
    decide +kernel
  · unfold LengthGiven
    decide +kernel
  · have hout := h.outcome ⟨ascii "hi", by decide +kernel⟩
    exact absurd hout (by decide +kernel)

/-! ## Responses -/

/-- Digits are plain. -/
theorem plainText_of_digits {s : Bytes} (h : ∀ c ∈ s, isDigit c = true) :
    Byte.space ∉ s ∧ PlainText s := by
  refine ⟨fun hc => ?_, fun hc => ?_, fun hc => ?_, fun hc => ?_⟩
  all_goals exact absurd (h _ hc) (by decide)

/-- The members of a response can be told apart in its text. -/
structure Response.Encodable (r : Response) : Prop where
  httpVersion : r.httpVersion ≠ [] ∧ Byte.space ∉ r.httpVersion ∧ PlainText r.httpVersion
  status : r.status ≠ [] ∧ PlainText r.status
  headers : EncodableHeaders r.headers

/-- The first line of a response as it is printed. -/
def Response.line (r : Response) : Bytes :=
  r.httpVersion ++ Byte.space :: (toDecimalInt r.code.get ++ Byte.space :: r.status)

/-- A status code is printed as a few digits. -/
theorem Status.toDecimalInt_get (code : Status) :
    toDecimalInt code.get ≠ [] ∧ ∀ c ∈ toDecimalInt code.get, isDigit c = true := by
  -- no status code is negative
  have hlow := code.lower
  rw [Status.get, toDecimalInt, if_neg (by omega)]
  exact ⟨toDecimal_ne_nil _, fun _ => isDigit_of_mem_toDecimal⟩

/-- A status code is read back. -/
theorem Status.fromString_toDecimalInt (code : Status) :
    Status.fromString (toDecimalInt code.get) = .ok code := by
  have hlow := code.lower
  have hhigh := code.upper
  rw [Status.fromString, Status.get, atoi_toDecimalInt (by omega) (by omega), Status.fromInt,
    dif_neg (by omega)]

/-- The header block of a response as it is printed, with its empty line. -/
def Response.headerBlock (r : Response) : Bytes :=
  blockText (r.line :: r.headers.entries.map fieldLine)

/-- The serializer writes the header block. -/
theorem ResponseSerializer.headers_new {r : Response} (h : r.Encodable) :
    (ResponseSerializer.new r).headers = r.headerBlock := by
  -- the code is printed in digits
  have hcode := plainText_of_digits r.code.toDecimalInt_get.2
  have hheaders := foldl_insertHeader (r.line ++ crlf) fun e he => (h.headers e he).2
  simp only [ResponseSerializer.new, backInserter_of_plain h.httpVersion.2.2,
    backInserter_of_plain hcode.2, backInserter_of_plain h.status.2, backInserter_space,
    backInserter_crlf]
  rw [← List.nil_append r.line] at hheaders
  simp only [Response.line, List.append_assoc, List.cons_append, List.nil_append] at hheaders ⊢
  rw [hheaders]
  simp [Response.headerBlock, Response.line, blockText]

/-- The status line is split into what it was printed from. -/
theorem ResponseParser.parseFirstHeader_line {r : Response} (h : r.Encodable)
    (first : StatusLine) :
    ResponseParser.parseFirstHeader first r.line =
      .ok (.ok (), ⟨r.httpVersion, some r.code, r.status⟩) := by
  have hcode := plainText_of_digits r.code.toDecimalInt_get.2
  rw [ResponseParser.parseFirstHeader_eq, Response.line,
    List.cutAt_append_cons _ h.httpVersion.2.1]
  simp only [if_neg h.httpVersion.1, List.cutAt_append_cons _ hcode.1,
    if_neg r.code.toDecimalInt_get.1, Status.fromString_toDecimalInt, if_neg h.status.1]

/-- The first line is not empty and stays on its line. -/
theorem Response.line_good {r : Response} (h : r.Encodable) : r.line ≠ [] ∧ Byte.lf ∉ r.line := by
  have hspace : Byte.lf ≠ Byte.space := by decide
  have hcode := plainText_of_digits r.code.toDecimalInt_get.2
  refine ⟨by simp [Response.line], ?_⟩
  simp [Response.line, h.httpVersion.2.2.2.2, h.status.2.2.2, hcode.2.2.2, hspace]

/-- A response is read back if its `Content-Length` reads as the length of its
    body. -/
theorem ResponseSerializer.decodesTo {r : Response} (h : r.Encodable) {val : Bytes}
    (hfind : r.headers.find? (ascii "Content-Length") = some val)
    (hval : stoul val = .ok r.body.length) :
    DecodesTo responseFormat (ResponseSerializer.new r) r := by
  have hfields := fieldsOf_fieldLines h.headers
  refine decodesTo_of_block rfl (ResponseSerializer.headers_new h)
    (List.forall_mem_cons.mpr ⟨r.line_good h, fun l hl => (fieldLines_good h.headers l hl).2⟩)
    (ResponseParser.parseFirstHeader_line h _) (fun l hl => (fieldLines_good h.headers l hl).1) ?_ ?_
  · refine Or.inr ⟨rfl, val, ?_, hval⟩
    rw [hfields]
    exact hfind
  · intro p hfirst hheaders hbody herr
    -- the members are those of the response
    obtain ⟨httpVersion, code, status, headers, body⟩ := r
    simp only [responseFormat, ResponseParser.createEntity, herr, hfirst, hheaders, hbody, hfields,
      ResponseSerializer.new]
    rfl

/-- `ResponseSerializer` yields the header block and the body, and `ResponseParser` undoes it. -/
theorem response_decodesTo {r : Response} (h : r.Encodable)
    (hlength : LengthGiven r.headers r.body) (hsize : r.body.length < sizeLimit) :
    (ResponseSerializer.new r).headers = r.headerBlock ∧
      (ResponseSerializer.new r).bytes = r.headerBlock ++ r.body ∧
      DecodesTo responseFormat (ResponseSerializer.new r) r := by
  have hheaders := ResponseSerializer.headers_new h
  refine ⟨hheaders, by rw [Serializer.bytes_eq rfl, hheaders]; rfl, ?_⟩
  exact ResponseSerializer.decodesTo h hlength (stoul_toDecimal hsize)

/-- A redirect with a body. -/
def redirect : Response where
  httpVersion := ascii "HTTP/1.1"
  code := ⟨301, by decide, by decide⟩
  status := ascii "Moved Permanently"
  headers := ((∅ : Headers).insert (ascii "Location") (ascii "/b")).insert
    (ascii "Content-Length") (ascii "2")
  body := ascii "hi"

/-- Its header block comes with the first byte of the body, then nothing, then the rest. -/
theorem response_decodesTo_redirect :
    redirect.headerBlock =
      ascii ("HTTP/1.1 301 Moved Permanently\r\nContent-Length: 2\r\n" ++
        "Location: /b\r\n\r\n") ∧
    (∃ p, Parser.feedChunks responseFormat (.fresh responseFormat)
      [redirect.headerBlock ++ ascii "h", []] = .ok (.pending, p)) ∧
    ∃ p, Parser.feedChunks responseFormat (.fresh responseFormat)
      [redirect.headerBlock ++ ascii "h", [], ascii "i"] = .ok (.ready, p) ∧
        responseFormat.createEntity p = .ok (.ok redirect) := by
  obtain ⟨hheaders, hbytes, hdecodes⟩ :=
    response_decodesTo (r := redirect) ⟨by decide, by decide, by
        unfold EncodableHeaders
        decide +kernel⟩
      (by
        unfold LengthGiven
        decide +kernel) (by decide)
  -- the cut is inside the body
  have hcut : [redirect.headerBlock ++ ascii "h", [], ascii "i"].flatten =
      (ResponseSerializer.new redirect).bytes := by
    rw [hbytes]
    decide +kernel
  have hfirst : (ResponseSerializer.new redirect).headers <+: redirect.headerBlock ++ ascii "h" := by
    rw [hheaders]
    exact List.prefix_append _ _
  refine ⟨by decide +kernel, ?_, ?_⟩
  · refine (hdecodes _ _ hcut hfirst [_, []] [ascii "i"] rfl).1 ?_
    rw [hbytes]
    decide +kernel
  · exact (hdecodes _ _ hcut hfirst _ [] (List.append_nil _).symm).2 hcut

end Webserv.Http
