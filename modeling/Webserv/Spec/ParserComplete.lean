import Webserv.Spec.ReencodeCorrect

/-!
# What a parser holds between calls and at READY

`Incomplete` is what every sequence of chunks keeps true of a parser until the
first READY: no error is recorded, the first line is not there yet or was
accepted, and a body that has been started is shorter than its length.  A call
from such a state that returns READY leaves a message that is `Complete`,
unless it recorded an error.

## Key results

- `feedChunks_incomplete`: the invariant of the runs up to READY
- `feedChunks_complete`: what READY means
- `ready_complete`: for `RequestParser` and for `ResponseParser`
-/

namespace Webserv.Http

variable {F E : Type} {fmt : Format F E}

/-- Members that an accepted first line leaves. -/
def Format.Accepts (fmt : Format F E) (first : F) : Prop :=
  ∃ line, fmt.parseFirstHeader fmt.initial line = .ok (.ok (), first)

namespace Parser

/-! ## The invariant -/

/-- A parser that reads header lines. -/
structure InHead (fmt : Format F E) (p : Parser F) : Prop where
  err : p.err = .ok ()
  first : (p.firstLineHandled = false ∧ p.first = fmt.initial ∧ p.headers = ∅) ∨
    (p.firstLineHandled = true ∧ fmt.Accepts p.first)
  contentLength : p.contentLength = none
  body : p.body = []

/-- A parser that has a part of the body. -/
structure InBody (fmt : Format F E) (p : Parser F) : Prop where
  err : p.err = .ok ()
  first : fmt.Accepts p.first
  bodied : fmt.bodiless p.first = false
  length : ∃ val n, p.headers.find? (ascii "Content-Length") = some val ∧ stoul val = .ok n ∧
    p.contentLength = some n ∧ p.body.length < n

/-- What holds between two calls before READY. -/
def Incomplete (fmt : Format F E) (p : Parser F) : Prop :=
  match p.state with
  | .headersRead => InHead fmt p
  | .bodyRead => InBody fmt p

/-- A message with an accepted first line and the body it announces. -/
structure Complete (fmt : Format F E) (p : Parser F) : Prop where
  first : fmt.Accepts p.first
  body : (fmt.bodiless p.first = true ∧ p.body = []) ∨
    (fmt.bodiless p.first = false ∧ ∃ val,
      p.headers.find? (ascii "Content-Length") = some val ∧ stoul val = .ok p.body.length)

/-- A new parser is in front of the header block. -/
theorem inHead_fresh (fmt : Format F E) : InHead fmt (fresh fmt) :=
  ⟨rfl, .inl ⟨rfl, rfl, rfl⟩, rfl, rfl⟩

/-- A new parser waits. -/
theorem incomplete_fresh (fmt : Format F E) : Incomplete fmt (fresh fmt) := inHead_fresh fmt

/-- The bytes of an unfinished line play no part. -/
theorem InHead.keep {p : Parser F} (h : InHead fmt p) (kept : Bytes) :
    InHead fmt { p with notHandledData := kept } :=
  ⟨h.err, h.first, h.contentLength, h.body⟩

/-- What was kept plays no part. -/
theorem InHead.takeNotHandled {p p' : Parser F} {kept : Bytes} (h : InHead fmt p)
    (htake : takeNotHandled p = .ok (kept, p')) : InHead fmt p' := by
  rw [Parser.takeNotHandled] at htake
  split at htake
  · cases htake
    exact h
  · split at htake
    · cases htake
    · cases htake
      exact h.keep []

/-! ## Header lines -/

/-- Taking what was kept leaves the state. -/
theorem takeNotHandled_state {p p' : Parser F} {kept : Bytes}
    (htake : takeNotHandled p = .ok (kept, p')) : p'.state = p.state := by
  rw [takeNotHandled] at htake
  split at htake
  · cases htake
    rfl
  · split at htake
    · cases htake
    · cases htake
      rfl

/-- The lines leave the state. -/
theorem readLines_state {p p' : Parser F} {ls : List Bytes}
    (hlines : readLines fmt p ls = .ok (.pending, p')) : p'.state = p.state :=
  Incremental.feed_pending_induction (P := fun q => q.state = p.state) rfl
    (fun _ _ _ _ hq hline => (handleLine_unchanged hline).2.2.1.trans hq) hlines

/-- A line that is accepted. -/
theorem InHead.handleLine_pending {p p' : Parser F} {line : Bytes} (h : InHead fmt p)
    (hline : handleLine fmt p line = .ok (.pending, p')) : InHead fmt p' := by
  rcases h.first with ⟨hhandled, hfirst, -⟩ | ⟨hhandled, haccepts⟩
  · -- the first line
    simp only [handleLine, hhandled, Bool.false_eq_true, not_false_eq_true, ↓reduceIte,
      hfirst] at hline
    split at hline
    · cases hline
    · cases hline
    · rename_i hparse
      cases hline
      exact ⟨h.err, .inr ⟨rfl, line, hparse⟩, h.contentLength, h.body⟩
  · -- a header line
    simp only [handleLine, hhandled, not_true_eq_false, ↓reduceIte] at hline
    split at hline
    · cases hline
    · cases hline
    · cases hline
      exact ⟨h.err, .inr ⟨rfl, haccepts⟩, h.contentLength, h.body⟩

/-- A line that ends the call recorded an error. -/
theorem err_of_handleLine_ready {p p' : Parser F} {line : Bytes}
    (hline : handleLine fmt p line = .ok (.ready, p')) : ∃ e, p'.err = .error e := by
  rw [handleLine] at hline
  -- a line answers READY only behind an error, in the first header and in the others
  split at hline
  · split at hline
    · cases hline
    · cases hline
      exact ⟨_, rfl⟩
    · cases hline
  · split at hline
    · cases hline
    · cases hline
      exact ⟨_, rfl⟩
    · cases hline

/-- Lines that are accepted. -/
theorem InHead.readLines_pending {p p' : Parser F} {ls : List Bytes} (h : InHead fmt p)
    (hlines : readLines fmt p ls = .ok (.pending, p')) : InHead fmt p' :=
  Incremental.feed_pending_induction (P := InHead fmt) h
    (fun _ _ _ _ hq hline => hq.handleLine_pending hline) hlines

/-- A line that ends the reading records an error. -/
theorem err_of_readLines_ready {p p' : Parser F} {ls : List Bytes}
    (hlines : readLines fmt p ls = .ok (.ready, p')) : ∃ e, p'.err = .error e := by
  obtain ⟨_, line, _, q, -, -, hline⟩ := Incremental.exists_last_call hlines (by simp)
  exact err_of_handleLine_ready hline

/-! ## The body -/

/-- The length `read_body` works with, at the blank line and later. -/
theorem setContentLength_cases {p : Parser F} {n : Nat} (hnone : p.contentLength = none)
    (hset : (setContentLength fmt p).2.contentLength = some n) :
    ∃ val, p.headers.find? (ascii "Content-Length") = some val ∧ stoul val = .ok n := by
  rw [setContentLength, if_neg (by simp [hnone])] at hset
  -- the length was not there, so it comes from the header
  cases hfind : p.headers.find? (ascii "Content-Length") with
  | none => simp [hfind, hnone] at hset
  | some val =>
    cases hval : stoul val with
    | error e => simp [hfind, hval, hnone] at hset
    | ok length =>
      simp only [hfind, hval, Option.some.injEq] at hset
      exact ⟨val, rfl, hset ▸ hval⟩

/-- `set_content_length` leaves the headers. -/
@[simp] theorem setContentLength_headers (p : Parser F) :
    (setContentLength fmt p).2.headers = p.headers := by
  obtain ⟨length, h⟩ := setContentLength_frame fmt p
  rw [h]

/-- A parser whose header block is over and whose body is not. -/
structure AtBody (fmt : Format F E) (p : Parser F) : Prop where
  state : p.state = .bodyRead
  err : p.err = .ok ()
  first : fmt.bodiless p.first = true ∨
      (∃ n, (setContentLength fmt p).2.contentLength = some n) → fmt.Accepts p.first
  length : ∀ n, (setContentLength fmt p).2.contentLength = some n →
    ∃ val, p.headers.find? (ascii "Content-Length") = some val ∧ stoul val = .ok n
  body : fmt.bodiless p.first = true → p.body = []
  short : ∀ n, (setContentLength fmt p).2.contentLength = some n → p.body.length ≤ n

/-- Without a first line there is neither a `GET` nor a length. -/
theorem InHead.atBody (hfmt : fmt.Lawful) {p : Parser F} (h : InHead fmt p) :
    AtBody fmt { p with state := .bodyRead } where
  state := rfl
  err := h.err
  first hbody := by
    rcases h.first with ⟨-, hfirst, hheaders⟩ | ⟨-, haccepts⟩
    · -- no line has been read, so the header map is empty
      exfalso
      rcases hbody with hbodiless | ⟨n, hn⟩
      · rw [hfirst, hfmt.initial_bodied] at hbodiless
        cases hbodiless
      · obtain ⟨val, hfind, -⟩ :=
          setContentLength_cases (p := { p with state := .bodyRead }) h.contentLength hn
        rw [hheaders] at hfind
        cases hfind
    · exact haccepts
  length n hn := setContentLength_cases (p := { p with state := .bodyRead }) h.contentLength hn
  body _ := h.body
  short n _ := by
    rw [h.body]
    exact Nat.zero_le n

/-- The body goes on. -/
theorem InBody.atBody {p : Parser F} (h : InBody fmt p) (hstate : p.state = .bodyRead) :
    AtBody fmt p := by
  obtain ⟨val, n, hfind, hval, hlength, hshort⟩ := h.length
  -- the length that was set is used again
  have hset : (setContentLength fmt p).2.contentLength = some n :=
    contentLength_setContentLength hlength
  refine ⟨hstate, h.err, fun _ => h.first, fun n' hn' => ?_, fun hbodiless => ?_, fun n' hn' => ?_⟩
  · cases hset.symm.trans hn'
    exact ⟨val, hfind, hval⟩
  · rw [h.bodied] at hbodiless
    cases hbodiless
  · cases hset.symm.trans hn'
    exact hshort.le

/-- The body is not complete yet. -/
theorem AtBody.readBody_pending {p p' : Parser F} {data : Bytes} (h : AtBody fmt p)
    (hread : readBody fmt p data 0 = .ok (.pending, p')) : Incomplete fmt p' := by
  rw [readBody_zero] at hread
  split at hread
  · cases hread
  rename_i hbodied
  cases hlength : (setContentLength fmt p).2.contentLength with
  | none => simp [hlength] at hread
  | some n =>
    rw [hlength] at hread
    dsimp only at hread
    split at hread
    · split at hread <;> cases hread
    · rename_i hmore
      cases hread
      have hbody : InBody fmt { (setContentLength fmt p).2 with body := p.body ++ data } := by
        obtain ⟨val, hfind, hval⟩ := h.length n hlength
        refine ⟨?_, ?_, ?_, val, n, ?_, hval, hlength, ?_⟩
        · simpa using h.err
        · simpa using h.first (.inr ⟨n, hlength⟩)
        · simpa using hbodied
        · simpa using hfind
        · -- the part that is there leaves something to wait for
          rw [List.length_append]
          omega
      rw [Incomplete]
      simpa [h.state] using hbody

/-- The body is complete. -/
theorem AtBody.readBody_ready {p p' : Parser F} {data : Bytes} (h : AtBody fmt p)
    (hread : readBody fmt p data 0 = .ok (.ready, p')) : Complete fmt p' := by
  rw [readBody_zero] at hread
  split at hread
  · -- no body is asked for
    rename_i hbodiless
    cases hread
    exact ⟨h.first (.inl hbodiless), .inl ⟨hbodiless, h.body hbodiless⟩⟩
  rename_i hbodied
  cases hlength : (setContentLength fmt p).2.contentLength with
  | none => simp [hlength] at hread
  | some n =>
    rw [hlength] at hread
    dsimp only at hread
    split at hread
    · rename_i henough
      split at hread
      · cases hread
      · cases hread
        obtain ⟨val, hfind, hval⟩ := h.length n hlength
        have hshort := h.short n hlength
        -- the bytes that are taken fill the body up to its length
        have hlen : (p.body ++ data.take (n - p.body.length)).length = n := by
          rw [List.length_append, List.length_take]
          omega
        refine ⟨?_, .inr ⟨?_, val, ?_, ?_⟩⟩
        · simpa using h.first (.inr ⟨n, hlength⟩)
        · simpa using hbodied
        · simpa using hfind
        · rw [hval]
          exact congrArg Except.ok hlen.symm
    · cases hread

/-! ## Calls and runs -/

/-- A call in the state `HEADERS_READ` that comes to the blank line. -/
theorem readFrame_cases {p p' : Parser F} {f : List Bytes × Tail} {st : IoState}
    (h : readFrame fmt p f = .ok (st, p')) :
    (st = .ready ∧ ∃ e, p'.err = .error e) ∨
      ∃ q, readLines fmt p f.1 = .ok (.pending, q) ∧
        ((∃ s, f.2 = .unfinished s ∧ st = .pending ∧
            p' = { q with notHandledData := q.notHandledData ++ s }) ∨
          ∃ s, f.2 = .body s ∧ readBody fmt { q with state := .bodyRead } s 0 = .ok (st, p')) := by
  rw [readFrame] at h
  cases hlines : readLines fmt p f.1 with
  | error e => simp [hlines] at h
  | ok r =>
    obtain ⟨st', q⟩ := r
    cases st' with
    -- a line can only end the parsing with an error
    | ready =>
      rw [hlines] at h
      cases h
      exact .inl ⟨rfl, err_of_readLines_ready hlines⟩
    | pending =>
      rw [hlines] at h
      refine .inr ⟨q, rfl, ?_⟩
      -- otherwise the lines are read, and the tail decides
      cases htail : f.2 with
      | unfinished s =>
        rw [htail] at h
        cases h
        exact .inl ⟨s, rfl, rfl, rfl⟩
      | body s =>
        rw [htail] at h
        exact .inr ⟨s, rfl, h⟩

/-- One call that returns. -/
theorem operatorCall_cases (hfmt : fmt.Lawful) {p p' : Parser F} {chunk : Bytes} {st : IoState}
    (h : Incomplete fmt p) (hcall : operatorCall fmt p chunk = .ok (st, p')) :
    (st = .pending ∧ Incomplete fmt p') ∨
      (st = .ready ∧ (p'.err = .ok () → Complete fmt p')) := by
  rw [Incomplete] at h
  cases hstate : p.state with
  | headersRead =>
    rw [hstate] at h
    rw [operatorCall_headersRead hstate] at hcall
    split at hcall
    · -- the line goes on in the next chunk
      cases hcall
      left
      rw [Incomplete]
      simpa [hstate] using h.keep (p.notHandledData ++ chunk)
    split at hcall
    · cases hcall
    cases htake : takeNotHandled p with
    | error f => simp [htake] at hcall
    | ok kq =>
      obtain ⟨kept, q⟩ := kq
      rw [htake] at hcall
      have hq : InHead fmt q := h.takeNotHandled htake
      have hqstate : q.state = .headersRead := by
        rw [← hstate]
        exact takeNotHandled_state htake
      rcases readFrame_cases hcall with ⟨rfl, e, he⟩ | ⟨q', hlines, ⟨s, -, rfl, rfl⟩ | ⟨s, -, hread⟩⟩
      · -- a line was refused
        exact .inr ⟨rfl, fun hok => absurd (hok.symm.trans he) (by simp)⟩
      · -- the blank line is still to come
        left
        refine ⟨rfl, ?_⟩
        have hstate' : q'.state = .headersRead := by
          rw [← hqstate]
          exact readLines_state hlines
        rw [Incomplete]
        simpa [hstate'] using (hq.readLines_pending hlines).keep (q'.notHandledData ++ s)
      · -- the rest of the chunk is the start of the body
        have hat := (hq.readLines_pending hlines).atBody hfmt
        cases st with
        | pending => exact .inl ⟨rfl, hat.readBody_pending hread⟩
        | ready => exact .inr ⟨rfl, fun _ => hat.readBody_ready hread⟩
  | bodyRead =>
    rw [hstate] at h
    rw [operatorCall_bodyRead hstate] at hcall
    have hat := h.atBody hstate
    cases st with
    | pending => exact .inl ⟨rfl, hat.readBody_pending hcall⟩
    | ready => exact .inr ⟨rfl, fun _ => hat.readBody_ready hcall⟩

/-- Between two calls before READY. -/
theorem feedChunks_incomplete (hfmt : fmt.Lawful) {p p' : Parser F} {chunks : List Bytes}
    (hp : Incomplete fmt p) (h : feedChunks fmt p chunks = .ok (.pending, p')) :
    Incomplete fmt p' := by
  refine Incremental.feed_pending_induction (P := Incomplete fmt) hp ?_ h
  intro q chunk q' _ hq hcall
  rcases operatorCall_cases hfmt hq hcall with ⟨-, hq'⟩ | ⟨hready, -⟩
  · exact hq'
  · cases hready

/-- At READY the message is complete, unless an error is recorded. -/
theorem feedChunks_complete (hfmt : fmt.Lawful) {p p' : Parser F} {chunks : List Bytes}
    (hp : Incomplete fmt p) (h : feedChunks fmt p chunks = .ok (.ready, p'))
    (hok : p'.err = .ok ()) : Complete fmt p' := by
  -- READY came from the last call that was made
  obtain ⟨pre, chunk, _, q, -, hpre, hcall⟩ := Incremental.exists_last_call h (by simp)
  rcases operatorCall_cases hfmt (feedChunks_incomplete hfmt hp hpre) hcall with
    ⟨hpending, -⟩ | ⟨-, hcomplete⟩
  · cases hpending
  · exact hcomplete hok

/-- Whatever READY was for, `create_entity` returns. -/
theorem createEntity_of_ready (hfmt : fmt.Lawful) {p p' : Parser F} {chunks : List Bytes}
    (hp : Incomplete fmt p) (h : feedChunks fmt p chunks = .ok (.ready, p')) :
    ∃ res, fmt.createEntity p' = .ok res ∧
      ((∃ e, res = .error e) ∨ Complete fmt p') := by
  -- READY comes of an error, which is given back, or of a complete message
  cases herr : p'.err with
  | error e => exact ⟨_, hfmt.createEntity_err p' e herr, .inl ⟨e, rfl⟩⟩
  | ok u =>
    have hcomplete := feedChunks_complete hfmt hp h herr
    obtain ⟨line, hline⟩ := hcomplete.first
    obtain ⟨entity, hentity⟩ := hfmt.createEntity_ok p' _ line hline herr
    exact ⟨_, hentity, .inr hcomplete⟩

/-- Before READY the body is shorter than the length, once there is one. -/
theorem Incomplete.body_lt {p : Parser F} {n : Nat} (h : Incomplete fmt p)
    (hlength : p.contentLength = some n) : p.body.length < n := by
  rw [Incomplete] at h
  cases hstate : p.state with
  -- in front of the body there is no length
  | headersRead =>
    rw [hstate] at h
    rw [h.contentLength] at hlength
    cases hlength
  | bodyRead =>
    rw [hstate] at h
    obtain ⟨_, m, -, -, hm, hlt⟩ := h.length
    cases hm.symm.trans hlength
    exact hlt

/-- A call whose state, length and body are known. -/
theorem exists_of_view {x : Throws (IoState × Parser F)} {st : IoState} {length : Option Nat}
    {body : Bytes}
    (h : x.toOption.map (fun r => (r.1, r.2.contentLength, r.2.body)) = some (st, length, body)) :
    ∃ p, x = .ok (st, p) ∧ p.contentLength = length ∧ p.body = body := by
  cases x with
  | error f => cases h
  | ok r =>
    obtain ⟨st', p⟩ := r
    cases h
    exact ⟨p, rfl, rfl, rfl⟩

end Parser

/-- An entity came from a READY. -/
theorem Format.ready_of_outcome (fmt : Format F E) {chunks : List Bytes} {res : Result E}
    (h : fmt.outcome chunks = .entity res) :
    ∃ p, Parser.feedChunks fmt (.fresh fmt) chunks = .ok (.ready, p) ∧
      fmt.createEntity p = .ok res := by
  rw [Format.outcome, Format.conclude.eq_def] at h
  -- the entity is what `create_entity` returned
  cases hfeed : Parser.feedChunks fmt (.fresh fmt) chunks with
  | error f => simp [hfeed] at h
  | ok r =>
    obtain ⟨st, p⟩ := r
    cases st with
    | pending => simp [hfeed] at h
    | ready =>
      rw [hfeed] at h
      dsimp only at h
      cases hentity : fmt.createEntity p with
      | error f => simp [hentity] at h
      | ok result =>
        rw [hentity] at h
        cases h
        exact ⟨p, rfl, hentity⟩

/-! ## The two parsers -/

/-- The size of the body is the number in the `Content-Length` field. -/
def HasLength (headers : Headers) (body : Bytes) : Prop :=
  ∃ val, headers.find? (ascii "Content-Length") = some val ∧ stoul val = .ok body.length

/-- A request with all its parts. -/
structure Request.Complete (r : Request) : Prop where
  method : r.method ≠ [] ∧ Byte.space ∉ r.method
  path : r.path ≠ [] ∧ Byte.space ∉ r.path
  httpVersion : r.httpVersion ≠ []
  body : (r.method = ascii "GET" ∧ r.body = []) ∨ HasLength r.headers r.body

/-- A response with all its parts; that its code was set and is in range is part
    of the type. -/
structure Response.Complete (r : Response) (first : StatusLine) : Prop where
  code : first.code = some r.code ∧ 100 ≤ r.code.get ∧ r.code.get ≤ 599
  status : r.status ≠ []
  body : HasLength r.headers r.body

/-- A request from a parser that is complete. -/
theorem Request.complete_of_parser {p : RequestParser} {r : Request}
    (h : Parser.Complete requestFormat p) (hentity : requestFormat.createEntity p = .ok (.ok r)) :
    r.Complete := by
  obtain ⟨-, hmembers⟩ := (RequestParser.createEntity_iff p r).mp hentity
  obtain ⟨hfirst, hheaders, hbody⟩ := by simpa only [Prod.mk.injEq] using hmembers
  -- the members are those of the first line
  obtain ⟨line, hline⟩ := h.first
  rw [← hfirst] at hline
  obtain ⟨-, hmethod, hpath, hversion⟩ := RequestParser.parseFirstHeader_ok_iff.mp hline
  refine ⟨hmethod.symm, hpath.symm, hversion, ?_⟩
  rcases h.body with ⟨hbodiless, hempty⟩ | ⟨-, hlength⟩
  · rw [← hfirst] at hbodiless
    exact .inl ⟨of_decide_eq_true hbodiless, hbody.trans hempty⟩
  · right
    rw [HasLength, hheaders, hbody]
    exact hlength

/-- A response from a parser that is complete. -/
theorem Response.complete_of_parser {p : ResponseParser} {r : Response}
    (h : Parser.Complete responseFormat p) (hentity : responseFormat.createEntity p = .ok (.ok r)) :
    r.Complete p.first := by
  obtain ⟨-, hmembers⟩ := (ResponseParser.createEntity_iff p r).mp hentity
  obtain ⟨hfirst, hheaders, hbody⟩ := by simpa only [Prod.mk.injEq] using hmembers
  obtain ⟨line, hline⟩ := h.first
  rw [← hfirst] at hline
  obtain ⟨_, _, -, -, -, -, -, hstatus⟩ := ResponseParser.parseFirstHeader_ok_iff.mp hline
  refine ⟨⟨?_, r.code.lower, Int.le_of_lt_add_one r.code.upper⟩, hstatus, ?_⟩
  · rw [← hfirst]
  rcases h.body with ⟨hbodiless, -⟩ | ⟨-, hlength⟩
  · -- a response always has a body
    cases hbodiless
  · rw [HasLength, hheaders, hbody]
    exact hlength

/-- The chunks are those up to the first READY, and every call on them returned. -/
theorem ready_complete (chunks : List Bytes) :
    (∀ p, Parser.feedChunks requestFormat (.fresh requestFormat) chunks = .ok (.ready, p) →
      ∃ res, requestFormat.createEntity p = .ok res ∧ ∀ r, res = .ok r → r.Complete) ∧
    (∀ p, Parser.feedChunks responseFormat (.fresh responseFormat) chunks = .ok (.ready, p) →
      ∃ res, responseFormat.createEntity p = .ok res ∧ ∀ r, res = .ok r → r.Complete p.first) ∧
    (∀ p n, Parser.feedChunks requestFormat (.fresh requestFormat) chunks = .ok (.pending, p) →
      p.contentLength = some n → p.body.length < n) ∧
    ∀ p n, Parser.feedChunks responseFormat (.fresh responseFormat) chunks = .ok (.pending, p) →
      p.contentLength = some n → p.body.length < n := by
  -- a new parser is incomplete, and each call keeps that until READY
  have hrequest := Parser.incomplete_fresh requestFormat
  have hresponse := Parser.incomplete_fresh responseFormat
  refine ⟨fun p h => ?_, fun p h => ?_, fun p n h => ?_, fun p n h => ?_⟩
  · obtain ⟨res, hentity, hres⟩ := Parser.createEntity_of_ready requestFormat_lawful hrequest h
    refine ⟨res, hentity, fun r hr => ?_⟩
    subst hr
    -- an error is no entity
    rcases hres with ⟨_, he⟩ | hcomplete
    · cases he
    · exact Request.complete_of_parser hcomplete hentity
  · obtain ⟨res, hentity, hres⟩ := Parser.createEntity_of_ready responseFormat_lawful hresponse h
    refine ⟨res, hentity, fun r hr => ?_⟩
    subst hr
    rcases hres with ⟨_, he⟩ | hcomplete
    · cases he
    · exact Response.complete_of_parser hcomplete hentity
  · exact (Parser.feedChunks_incomplete requestFormat_lawful hrequest h).body_lt
  · exact (Parser.feedChunks_incomplete responseFormat_lawful hresponse h).body_lt

/-- A POST in two chunks, before and at READY, and a response. -/
theorem ready_complete_post :
    (∃ r : Request, r.body = ascii "ab" ∧ r.Complete) ∧
    (∃ r : Response, ∃ first, r.code.get = 204 ∧ r.Complete first) ∧
    (ascii "a").length < 2 ∧ (ascii "").length < 1 := by
  refine ⟨?_, ?_, ?_, ?_⟩
  · have hready : requestFormat.outcome
        [ascii "POST / HTTP/1.1\r\nContent-Length: 2\r\n\r\na", ascii "bc"] = .entity (.ok {
          method := ascii "POST", path := ascii "/", httpVersion := ascii "HTTP/1.1",
          headers := (∅ : Headers).insert (ascii "Content-Length") (ascii "2"),
          body := ascii "ab" }) := by decide +kernel
    obtain ⟨p, hp, hentity⟩ := requestFormat.ready_of_outcome hready
    obtain ⟨res, hres, hcomplete⟩ := (ready_complete _).1 p hp
    cases hentity.symm.trans hres
    exact ⟨_, rfl, hcomplete _ rfl⟩
  · have hready : responseFormat.outcome
        [ascii "HTTP/1.1 204 No Content\r\nContent-Length: 0\r\n\r\n"] = .entity (.ok {
          httpVersion := ascii "HTTP/1.1", code := ⟨204, by decide, by decide⟩,
          status := ascii "No Content",
          headers := (∅ : Headers).insert (ascii "Content-Length") (ascii "0"),
          body := [] }) := by decide +kernel
    obtain ⟨p, hp, hentity⟩ := responseFormat.ready_of_outcome hready
    -- a status without a body needs its length all the same
    obtain ⟨res, hres, hcomplete⟩ := (ready_complete _).2.1 p hp
    cases hentity.symm.trans hres
    exact ⟨_, _, rfl, hcomplete _ rfl⟩
  · -- a body that is cut off is shorter than its length
    have hcall : (Parser.feedChunks requestFormat (.fresh requestFormat)
        [ascii "POST / HTTP/1.1\r\nContent-Length: 2\r\n\r\na"]).toOption.map
          (fun r => (r.1, r.2.contentLength, r.2.body)) = some (.pending, some 2, ascii "a") := by
      decide +kernel
    obtain ⟨p, hp, hlength, hbody⟩ := Parser.exists_of_view hcall
    rw [← hbody]
    exact (ready_complete _).2.2.1 p 2 hp hlength
  · have hcall : (Parser.feedChunks responseFormat (.fresh responseFormat)
        [ascii "HTTP/1.1 200 OK\r\nContent-Length: 1\r\n\r\n"]).toOption.map
          (fun r => (r.1, r.2.contentLength, r.2.body)) = some (.pending, some 1, ascii "") := by
      decide +kernel
    obtain ⟨p, hp, hlength, hbody⟩ := Parser.exists_of_view hcall
    rw [← hbody]
    exact (ready_complete _).2.2.2 p 1 hp hlength

end Webserv.Http
