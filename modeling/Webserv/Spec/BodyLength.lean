import Webserv.Spec.ParserComplete

/-!
# The number in `Content-Length`

`set_content_length` leaves the number to `std::stoul`, which takes signs and
trailing text, and `read_body` drops its result and takes the value out of an
optional that may be empty.  So a value is the length it denotes exactly when
it is a string of digits below 2^64, and what is not is never an error value.

## Key results

- `HeaderEnds.feedChunks`: the chunks from the blank line on are one read of the body
- `readsLength_iff`: which values are the length they denote, or an error
- `bodyLength_iff`: for `RequestParser` and for `ResponseParser`
-/

namespace Webserv.Http

variable {F E : Type} {fmt : Format F E}

/-- The digits of a `size_t`. -/
def IsLength (val : Bytes) : Prop :=
  val ≠ [] ∧ (∀ c ∈ val, isDigit c = true) ∧ digitsValue val < sizeLimit

instance (val : Bytes) : Decidable (IsLength val) := inferInstanceAs (Decidable (_ ∧ _ ∧ _))

/-- `chunk` has the blank line: the parser `p` has the whole header block, and `rest`
    follows it in the chunk. -/
def HeaderEnds (fmt : Format F E) (pre : List Bytes) (chunk : Bytes) (p : Parser F)
    (rest : Bytes) : Prop :=
  ∃ q kept q' ls, Parser.feedChunks fmt (.fresh fmt) pre = .ok (.pending, q) ∧
    q.state = .headersRead ∧ Byte.lf ∈ chunk ∧ chunk.head? ≠ some Byte.lf ∧
    Parser.takeNotHandled q = .ok (kept, q') ∧ frame kept chunk = (ls, .body rest) ∧
    Parser.readLines fmt q' ls = .ok (.pending, p)

/-- The value `val` of `Content-Length` is the length it denotes, or an error.  After the
    chunks `pre` comes `chunk`, in which `rest` follows the header block. -/
def ReadsLength (fmt : Format F E) (pre : List Bytes) (chunk rest val : Bytes) : Prop :=
  (IsLength val → ∀ more : List Bytes,
    ((rest ++ more.flatten).length < digitsValue val → ∃ p,
      Parser.feedChunks fmt (.fresh fmt) (pre ++ chunk :: more) = .ok (.pending, p) ∧
      p.body = rest ++ more.flatten) ∧
    (digitsValue val ≤ (rest ++ more.flatten).length → ∃ p,
      Parser.feedChunks fmt (.fresh fmt) (pre ++ chunk :: more) = .ok (.ready, p) ∧
      p.body = (rest ++ more.flatten).take (digitsValue val))) ∧
  (¬ IsLength val → ∃ p e,
    Parser.feedChunks fmt (.fresh fmt) (pre ++ [chunk]) = .ok (.ready, p) ∧
    fmt.createEntity p = .ok (.error e))

/-- A string of digits is read as the number it denotes. -/
theorem IsLength.stoul {val : Bytes} (h : IsLength val) : stoul val = .ok (digitsValue val) := by
  obtain ⟨hne, hdigits, hlimit⟩ := h
  have hscan := scanNumber_of_digits hne hdigits
  rw [Webserv.stoul, hscan]
  dsimp only
  rw [if_neg (Nat.not_le.mpr hlimit), if_neg Bool.false_ne_true]

namespace HeaderEnds

variable {pre : List Bytes} {chunk rest : Bytes} {p : Parser F}

/-- The header block was read without an error. -/
theorem inHead (hfmt : fmt.Lawful) (h : HeaderEnds fmt pre chunk p rest) : p.InHead fmt := by
  obtain ⟨q, kept, q', ls, hpre, hstate, -, -, htake, -, hlines⟩ := h
  have hq : Parser.Incomplete fmt q :=
    Parser.feedChunks_incomplete hfmt (Parser.incomplete_fresh fmt) hpre
  rw [Parser.Incomplete, hstate] at hq
  exact (hq.takeNotHandled htake).readLines_pending hlines

/-- The chunks from the blank line on are one read of the body. -/
theorem feedChunks (h : HeaderEnds fmt pre chunk p rest) (more : List Bytes) :
    Parser.feedChunks fmt (.fresh fmt) (pre ++ chunk :: more) =
      Parser.readBody fmt { p with state := .bodyRead } (rest ++ more.flatten) 0 := by
  obtain ⟨q, kept, q', ls, hpre, hstate, hlf, hhead, htake, hframe, hlines⟩ := h
  -- the call with the blank line hands the rest of its chunk to `read_body`
  have hcall : Parser.operatorCall fmt q chunk =
      Parser.readBody fmt { p with state := .bodyRead } rest 0 := by
    rw [Parser.operatorCall_headersRead hstate, if_neg (not_not.mpr hlf), if_neg hhead, htake]
    dsimp only
    rw [hframe, Parser.readFrame, hlines]
  have hsplit : Parser.feedChunks fmt (.fresh fmt) (pre ++ chunk :: more) =
      Parser.feedChunks fmt q (chunk :: more) := Incremental.feed_append_of_pending _ hpre
  rw [hsplit, Parser.feedChunks_of_readBody more rfl hcall]

/-- A header block in the first chunk. -/
theorem of_fields (line : Bytes) {hs : List Bytes} {first : F}
    (hhead : chunk.head? ≠ some Byte.lf) (hlf : Byte.lf ∈ chunk)
    (hframe : frame [] chunk = (line :: hs, .body rest))
    (hline : fmt.parseFirstHeader fmt.initial line = .ok (.ok (), first))
    (hfields : ∀ l ∈ hs, IsField l) :
    HeaderEnds fmt [] chunk (.started fmt first (fieldsOf hs)) rest :=
  ⟨.fresh fmt, [], .fresh fmt, line :: hs, rfl, rfl, hlf, hhead, rfl, hframe,
    Parser.readLines_fresh_of_fields ⟨line, rfl, hline⟩ hfields⟩

end HeaderEnds

/-- Which values are the length they denote, or an error. -/
theorem readsLength_iff (hfmt : fmt.Lawful) {pre : List Bytes} {chunk rest val : Bytes}
    {p : Parser F} (h : HeaderEnds fmt pre chunk p rest) (hbodied : fmt.bodiless p.first = false)
    (hfind : p.headers.find? (ascii "Content-Length") = some val) :
    ReadsLength fmt pre chunk rest val ↔ IsLength val := by
  have hp := h.inHead hfmt
  -- all that follows is one call of `read_body`
  have hbody : ∀ data, Parser.readBody fmt { p with state := .bodyRead } data 0 = _ :=
    Parser.readBody_of_value (p := { p with state := .bodyRead }) hp.contentLength hp.body hbodied
      hfind
  constructor
  · rintro ⟨-, herror⟩
    -- what is not a length does not come to an error value
    by_contra hnot
    obtain ⟨p', e, hready, hentity⟩ := herror hnot
    -- `read_body` records no error, and without a length it throws
    have herr : p'.err = .ok () := by
      have hcall := (h.feedChunks []).symm.trans hready
      rw [hbody] at hcall
      cases hval : stoul val with
      | error e => simp [hval] at hcall
      | ok n =>
        rw [hval] at hcall
        dsimp only at hcall
        split at hcall
        · cases hcall
          exact hp.err
        · cases hcall
    -- so READY comes with an entity
    obtain ⟨line, hline⟩ :=
      (Parser.feedChunks_complete hfmt (Parser.incomplete_fresh fmt) hready herr).first
    obtain ⟨entity, hok⟩ := hfmt.createEntity_ok p' _ line hline herr
    rw [hok] at hentity
    cases hentity
  · intro hlength
    refine ⟨fun _ more => ?_, fun hnot => absurd hlength hnot⟩
    -- all that follows the blank line is one read of the body
    rw [h.feedChunks, hbody, hlength.stoul]
    dsimp only
    constructor
    · intro hshort
      rw [if_neg (Nat.not_le.mpr hshort)]
      exact ⟨_, rfl, rfl⟩
    · intro henough
      rw [if_pos henough]
      exact ⟨_, rfl, rfl⟩

/-! ## The two parsers -/

/-- A value is the length it denotes, or an error, exactly when it is a length. -/
theorem bodyLength_iff (pre : List Bytes) (chunk rest val : Bytes) :
    (∀ p, HeaderEnds requestFormat pre chunk p rest → p.first.method ≠ ascii "GET" →
      p.headers.find? (ascii "Content-Length") = some val →
      (ReadsLength requestFormat pre chunk rest val ↔ IsLength val)) ∧
    ∀ p, HeaderEnds responseFormat pre chunk p rest →
      p.headers.find? (ascii "Content-Length") = some val →
      (ReadsLength responseFormat pre chunk rest val ↔ IsLength val) := by
  constructor
  · intro p h hmethod hfind
    exact readsLength_iff requestFormat_lawful h (decide_eq_false hmethod) hfind
  · intro p h hfind
    exact readsLength_iff responseFormat_lawful h rfl hfind

/-- The header block of a POST with the value `-1`. -/
theorem headerEnds_negative : HeaderEnds requestFormat []
    (ascii "POST / HTTP/1.1\r\nContent-Length: -1\r\n\r\n")
    (.started requestFormat ⟨ascii "POST", ascii "/", ascii "HTTP/1.1"⟩
      (fieldsOf [ascii "Content-Length: -1"])) [] := by
  have hfield : IsField (ascii "Content-Length: -1") :=
    ⟨ascii "Content-Length", Byte.space, ascii "-1", by decide, by decide⟩
  apply HeaderEnds.of_fields (ascii "POST / HTTP/1.1") (by decide) (by decide)
  · decide +kernel
  · decide +kernel
  · simpa using hfield

/-- A negative length is not one, and a small number is. -/
theorem bodyLength_iff_values :
    ¬ ReadsLength requestFormat [] (ascii "POST / HTTP/1.1\r\nContent-Length: -1\r\n\r\n") []
      (ascii "-1") ∧
    ReadsLength responseFormat [] (ascii "HTTP/1.1 200 OK\r\nContent-Length: 10\r\n\r\n") []
      (ascii "10") := by
  constructor
  · rw [(bodyLength_iff [] _ [] (ascii "-1")).1 _ headerEnds_negative (by decide)
      (by decide +kernel)]
    decide
  · have hfield : IsField (ascii "Content-Length: 10") :=
      ⟨ascii "Content-Length", Byte.space, ascii "10", by decide, by decide⟩
    -- the chunk ends with the blank line
    have hends : HeaderEnds responseFormat []
        (ascii "HTTP/1.1 200 OK\r\nContent-Length: 10\r\n\r\n")
        (.started responseFormat ⟨ascii "HTTP/1.1", some ⟨200, by decide, by decide⟩, ascii "OK"⟩
          (fieldsOf [ascii "Content-Length: 10"])) [] := by
      apply HeaderEnds.of_fields (ascii "HTTP/1.1 200 OK") (by decide) (by decide)
      · decide +kernel
      · decide +kernel
      · simpa using hfield
    rw [(bodyLength_iff [] _ [] (ascii "10")).2 _ hends (by decide +kernel)]
    decide +kernel

/-- The length -1 is taken for 2^64 - 1. -/
theorem bodyLength_false :
    ¬ ∀ (pre : List Bytes) (chunk rest val : Bytes) (p : RequestParser),
        HeaderEnds requestFormat pre chunk p rest → p.first.method ≠ ascii "GET" →
        p.headers.find? (ascii "Content-Length") = some val →
        ReadsLength requestFormat pre chunk rest val := by
  intro h
  -- the length of the request is `-1`
  have hfind : (Parser.started requestFormat ⟨ascii "POST", ascii "/", ascii "HTTP/1.1"⟩
      (fieldsOf [ascii "Content-Length: -1"])).headers.find? (ascii "Content-Length") =
        some (ascii "-1") := by decide +kernel
  have hreads := h [] _ [] _ _ headerEnds_negative (by decide) hfind
  rw [readsLength_iff requestFormat_lawful headerEnds_negative (by decide) hfind] at hreads
  exact absurd hreads (by decide)

end Webserv.Http
