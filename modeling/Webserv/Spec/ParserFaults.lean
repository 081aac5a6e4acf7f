import Webserv.Spec.HeaderBlock
import Webserv.Spec.ParserChunking

/-!
# Inputs that crash a parser

A parser should answer every sequence of chunks, and refuse a malformed message
with an error value.  Three things stand in the way: a chunk with a line feed
that comes while the start of a line is kept, or that starts with the line feed
(`WellCut`); a header line that ends at its first colon (`NoBareField`); and a
header block without a length where `read_body` needs one (`LacksLength`).

## Key results

- `AwaitsBody.feedChunks`: once the body has started nothing goes wrong
- `robust_of_wellCut`: without the three things a parser is robust
- `robust_iff`: for bytes other than NUL these are the only runs that are
-/

namespace Webserv.Http

variable {F E : Type} {fmt : Format F E}

/-! ## Robustness, and the three conditions -/

/-- The header block ends without a length for the body. -/
inductive LacksLength (fmt : Format F E) : List Bytes × Tail → Prop where
  | noLine (rest : Bytes) : LacksLength fmt ([], .body rest)
  | noLength {ls hs : List Bytes} {first : F} (rest : Bytes) (hls : FirstLine fmt ls first hs)
      (hcolon : ∀ line ∈ hs, Byte.colon ∈ line) (hbodied : fmt.bodiless first = false)
      (hlength : ∀ val n, (fieldsOf hs).find? (ascii "Content-Length") = some val →
        stoul val ≠ .ok n) : LacksLength fmt (ls, .body rest)

/-- A message that has to be answered with the error `e`. -/
inductive Refused (fmt : Format F E) (f : List Bytes × Tail) : Error → Prop where
  | firstLine {line : Bytes} {hs : List Bytes} {e : Error} {first : F} (hls : f.1 = line :: hs)
      (hline : fmt.parseFirstHeader fmt.initial line = .ok (.error e, first)) : Refused fmt f e
  | malformed {hs : List Bytes} {first : F} {line : Bytes} (hls : FirstLine fmt f.1 first hs)
      (hline : line ∈ hs) (hcolon : Byte.colon ∉ line) : Refused fmt f fmt.parseError
  | lacksLength (h : LacksLength fmt f) : Refused fmt f fmt.parseError

/-- Every call returns, so does `create_entity`, and a message that has to be
    refused is. -/
def Robust (fmt : Format F E) (chunks : List Bytes) : Prop :=
  (∀ f, fmt.outcome chunks ≠ .fault f) ∧
  ∀ e, Refused fmt (frame [] chunks.flatten) e → fmt.outcome chunks = .entity (.error e)

/-- A chunk with a line feed that comes in the state `HEADERS_READ` does not start
    with it, and finds nothing kept from earlier chunks. -/
def WellCut (fmt : Format F E) (chunks : List Bytes) : Prop :=
  ∀ pre k post p, chunks = pre ++ k :: post →
    Parser.feedChunks fmt (.fresh fmt) pre = .ok (.pending, p) →
      p.state = .headersRead → Byte.lf ∈ k → k.head? ≠ some Byte.lf ∧ p.notHandledData = []

/-- No header line in front of the first one without a colon ends at its first
    colon. -/
def NoBareField (fmt : Format F E) (ls : List Bytes) : Prop :=
  ∀ first hs, FirstLine fmt ls first hs →
    ∀ line ∈ hs.takeWhile (·.contains Byte.colon), ¬ EndsAtColon line

/-- A block has one first line. -/
theorem FirstLine.unique {ls hs hs' : List Bytes} {first first' : F}
    (h : FirstLine fmt ls first hs) (h' : FirstLine fmt ls first' hs') :
    first = first' ∧ hs = hs' := by
  obtain ⟨line, rfl, hline⟩ := h
  obtain ⟨line', heq, hline'⟩ := h'
  obtain ⟨rfl, rfl⟩ := List.cons.inj heq
  rw [hline] at hline'
  cases hline'
  exact ⟨rfl, rfl⟩

/-- The first line is either accepted or refused. -/
theorem FirstLine.not_refused {ls hs hs' : List Bytes} {line : Bytes} {first first' : F} {e : Error}
    (h : FirstLine fmt ls first hs) (hls : ls = line :: hs')
    (hline : fmt.parseFirstHeader fmt.initial line = .ok (.error e, first')) : False := by
  obtain ⟨line', rfl, hline'⟩ := h
  obtain ⟨rfl, rfl⟩ := List.cons.inj hls
  simp [hline] at hline'

/-- A block of fields is refused only for its length. -/
theorem Refused.of_fields {ls hs : List Bytes} {t : Tail} {first : F} {e : Error}
    (hls : FirstLine fmt ls first hs) (hfields : ∀ line ∈ hs, IsField line)
    (h : Refused fmt (ls, t) e) : LacksLength fmt (ls, t) := by
  cases h with
  | firstLine hls' hline => exact (hls.not_refused hls' hline).elim
  | malformed hls' hline hcolon =>
    obtain ⟨rfl, rfl⟩ := hls.unique hls'
    exact absurd (hfields _ hline).mem_colon hcolon
  | lacksLength h => exact h

/-! ## The body -/

namespace Parser

/-- A parser that has its header block, and a length that is not exceeded. -/
structure AwaitsBody (fmt : Format F E) (p : Parser F) : Prop where
  state : p.state = .bodyRead
  bodied : fmt.bodiless p.first = false
  length : ∃ n, (setContentLength fmt p).2.contentLength = some n ∧ p.body.length ≤ n
  err : p.err = .ok ()
  first : ∃ first line, fmt.parseFirstHeader first line = .ok (.ok (), p.first)

/-- A length that is set stays. -/
theorem contentLength_setContentLength {p : Parser F} {n : Nat} (h : p.contentLength = some n) :
    (setContentLength fmt p).2.contentLength = some n := by
  rw [setContentLength_of_some h, h]

/-- Reading the body asks for more or comes to an entity. -/
theorem AwaitsBody.readBody (hfmt : fmt.Lawful) {p : Parser F} (h : AwaitsBody fmt p)
    (data : Bytes) :
    (∃ p', readBody fmt p data 0 = .ok (.pending, p') ∧ AwaitsBody fmt p') ∨
      ∃ p' entity, readBody fmt p data 0 = .ok (.ready, p') ∧
        fmt.createEntity p' = .ok (.ok entity) := by
  obtain ⟨n, hn, hle⟩ := h.length
  obtain ⟨first, line, hline⟩ := h.first
  rw [readBody_zero, h.bodied, if_neg Bool.false_ne_true]
  split
  · simp_all
  · rename_i n' hn'
    obtain rfl : n = n' := Option.some.inj (hn.symm.trans hn')
    rw [if_neg (Nat.not_lt.mpr hle)]
    split
    · -- complete: the accepted first line makes an entity
      obtain ⟨entity, hentity⟩ := hfmt.createEntity_ok
        { (setContentLength fmt p).2 with body := p.body ++ data.take (n - p.body.length) }
        first line (by simpa using hline) (by simpa using h.err)
      exact Or.inr ⟨_, entity, rfl, hentity⟩
    · -- incomplete: what is there is still below the length
      refine Or.inl ⟨_, rfl, ⟨?_, ?_, ⟨n, ?_, ?_⟩, ?_, first, line, ?_⟩⟩
      · simpa using h.state
      · simpa using h.bodied
      · exact contentLength_setContentLength hn
      · simp only [List.length_append]
        omega
      · simpa using h.err
      · simpa using hline

/-- Once the body has started nothing goes wrong. -/
theorem AwaitsBody.feedChunks (hfmt : fmt.Lawful) {p : Parser F} (h : AwaitsBody fmt p)
    (chunks : List Bytes) :
    (∃ p', feedChunks fmt p chunks = .ok (.pending, p')) ∨
      ∃ p' entity, feedChunks fmt p chunks = .ok (.ready, p') ∧
        fmt.createEntity p' = .ok (.ok entity) := by
  induction chunks generalizing p with
  | nil => exact Or.inl ⟨p, rfl⟩
  | cons k ks ih =>
    rw [Parser.feedChunks, Incremental.feed, operatorCall_bodyRead h.state]
    rcases h.readBody hfmt k with ⟨p', hread, h'⟩ | ⟨p', entity, hread, hentity⟩
    · rw [hread]
      -- the next chunk is read in a state of the same kind
      exact ih h'
    · rw [hread]
      exact Or.inr ⟨p', entity, rfl, hentity⟩

/-- The body state is not left. -/
theorem feedChunks_bodyRead {p p' : Parser F} {chunks : List Bytes} (hp : p.state = .bodyRead)
    (h : Parser.feedChunks fmt p chunks = .ok (.pending, p')) : p'.state = .bodyRead :=
  Incremental.feed_pending_induction (P := fun p => p.state = .bodyRead) hp
    (fun q k q' _ hq hcall => by
      rw [operatorCall_bodyRead hq] at hcall
      exact (readBody_pending hcall).1.trans hq) h

end Parser

/-! ## One call on the whole message -/

/-- A line that ends at its first colon is reached behind fields only. -/
theorem not_noBareField_iff {ls : List Bytes} :
    ¬ NoBareField fmt ls ↔ ∃ first good bad more, FirstLine fmt ls first (good ++ bad :: more) ∧
      (∀ line ∈ good, IsField line) ∧ EndsAtColon bad := by
  constructor
  · intro h
    simp only [NoBareField, not_forall, not_not] at h
    obtain ⟨first, hs, hls, line, hmem, hline⟩ := h
    -- the first line that is not a field is the one
    rcases fields_or_split hs with hfields | ⟨good, bad, more, rfl, hgood, hbad⟩
    · exact absurd hline (hfields line (List.takeWhile_subset _ hmem)).not_endsAtColon
    · rcases line_cases bad with h | h | h
      · exact absurd h hbad
      · exact ⟨first, good, bad, more, hls, hgood, h⟩
      · -- the search ends in front of `bad`
        have hcolon : ∀ l ∈ good, l.contains Byte.colon = true := fun l hl =>
          List.contains_iff_mem.mpr (hgood l hl).mem_colon
        rw [List.takeWhile_append_of_pos hcolon, List.takeWhile_cons_of_neg (by simpa using h),
          List.append_nil] at hmem
        exact absurd hline (hgood line hmem).not_endsAtColon
  · -- the lines up to the one that ends at its colon all have a colon
    rintro ⟨first, good, bad, more, hls, hgood, hbad⟩ h
    have hcolon : ∀ l ∈ good, l.contains Byte.colon = true := fun l hl =>
      List.contains_iff_mem.mpr (hgood l hl).mem_colon
    refine h first _ hls bad ?_ hbad
    rw [List.takeWhile_append_of_pos hcolon,
      List.takeWhile_cons_of_pos (by simpa using hbad.mem_colon)]
    simp

namespace Parser

/-- A block without a length ends the call in `content_length.value()`. -/
theorem readBody_started_of_none {first : F} {hs : List Bytes} (rest : Bytes)
    (hbodied : fmt.bodiless first = false)
    (hlength : ∀ val n, (fieldsOf hs).find? (ascii "Content-Length") = some val →
      stoul val ≠ .ok n) :
    readBody fmt { started fmt first (fieldsOf hs) with state := .bodyRead } rest 0 =
      .error .badOptionalAccess :=
  readBody_of_noLength rfl hbodied hlength rest

/-- A block without any line ends the call the same way. -/
theorem readBody_fresh (hfmt : fmt.Lawful) (rest : Bytes) :
    readBody fmt { fresh fmt with state := .bodyRead } rest 0 = .error .badOptionalAccess :=
  -- the method is still empty, so it is not `GET`
  readBody_of_noLength rfl hfmt.initial_bodied (by simp [fresh]) rest

/-- A block with a length starts the body. -/
theorem awaitsBody_started {ls hs : List Bytes} {first : F} {val : Bytes} {n : Nat}
    (hls : FirstLine fmt ls first hs) (hbodied : fmt.bodiless first = false)
    (hfind : (fieldsOf hs).find? (ascii "Content-Length") = some val) (hval : stoul val = .ok n) :
    AwaitsBody fmt { started fmt first (fieldsOf hs) with state := .bodyRead } := by
  obtain ⟨line, -, hline⟩ := hls
  refine ⟨rfl, hbodied, ⟨n, ?_, Nat.zero_le _⟩, rfl, _, line, hline⟩
  simp [setContentLength, started, fresh, hfind, hval]

/-- A block that is complete starts the body without a fault. -/
theorem conclude_readBody_started (hfmt : fmt.Lawful) {ls hs : List Bytes} {first : F}
    {flt : Fault} (rest : Bytes) (hls : FirstLine fmt ls first hs)
    (hlength : fmt.bodiless first = false →
      ∃ val n, (fieldsOf hs).find? (ascii "Content-Length") = some val ∧ stoul val = .ok n) :
    fmt.conclude (readBody fmt { started fmt first (fieldsOf hs) with state := .bodyRead } rest 0) ≠
      .fault flt := by
  cases hbodied : fmt.bodiless first with
  -- a request that has no body is done
  | true =>
    obtain ⟨line, -, hline⟩ := hls
    obtain ⟨entity, hentity⟩ := hfmt.createEntity_ok
      { started fmt first (fieldsOf hs) with state := .bodyRead } _ line hline rfl
    have hread := readBody_of_bodiless
      (p := { started fmt first (fieldsOf hs) with state := .bodyRead }) hbodied rest
    simp [hread, Format.conclude, hentity]
  -- the length is known, so the body waits or is complete
  | false =>
    obtain ⟨val, n, hfind, hval⟩ := hlength hbodied
    rcases (awaitsBody_started hls hbodied hfind hval).readBody hfmt rest with
      ⟨p', hread, -⟩ | ⟨p', entity, hread, hentity⟩
    · simp [hread, Format.conclude]
    · simp [hread, Format.conclude, hentity]

/-- A line that ends at its first colon, or a missing length, makes the call throw. -/
theorem readFrame_fault (hfmt : fmt.Lawful) {f : List Bytes × Tail}
    (h : ¬ NoBareField fmt f.1 ∨ LacksLength fmt f) :
    ∃ flt, readFrame fmt (fresh fmt) f = .error flt := by
  rcases h with h | h
  · obtain ⟨first, good, bad, more, hls, hgood, hbad⟩ := not_noBareField_iff.mp h
    -- `substr` throws
    exact ⟨.outOfRange, by simp [readFrame, readLines_fresh_of_endsAtColon hls hgood hbad]⟩
  · cases h with
    | noLine rest =>
      -- `value()` throws
      refine ⟨.badOptionalAccess, ?_⟩
      simp only [readFrame, readLines, Incremental.feed_nil]
      exact readBody_fresh hfmt rest
    | @noLength ls hs first rest hls hcolon hbodied hlength =>
      rcases fields_or_split hs with hfields | ⟨good, bad, more, rfl, hgood, hbad⟩
      · refine ⟨.badOptionalAccess, ?_⟩
        simp only [readFrame, readLines_fresh_of_fields hls hfields]
        exact readBody_started_of_none rest hbodied hlength
      · rcases line_cases bad with h | h | h
        · exact absurd h hbad
        · exact ⟨.outOfRange, by simp [readFrame, readLines_fresh_of_endsAtColon hls hgood h]⟩
        · exact absurd (hcolon bad (by simp)) h

/-- Otherwise the call returns, and a message to be refused is refused. -/
theorem conclude_readFrame (hfmt : fmt.Lawful) {f : List Bytes × Tail}
    (hbare : NoBareField fmt f.1) (hlacks : ¬ LacksLength fmt f) :
    (∀ flt, fmt.conclude (readFrame fmt (fresh fmt) f) ≠ .fault flt) ∧
      ∀ e, Refused fmt f e → fmt.conclude (readFrame fmt (fresh fmt) f) = .entity (.error e) := by
  obtain ⟨ls, t⟩ := f
  -- one case for each way the block can go
  cases headKind hfmt ls with
  | empty hls =>
    subst hls
    cases t with
    | body rest => exact absurd (.noLine rest) hlacks
    | unfinished u =>
      refine ⟨by simp [readFrame, readLines, Format.conclude], fun e he => ?_⟩
      cases he with
      | firstLine hls hline => cases hls
      | malformed hls hline hcolon =>
        obtain ⟨line, h, -⟩ := hls
        cases h
      | lacksLength h => exact absurd h hlacks
  | @refused line e first hs hls hline =>
    subst hls
    obtain ⟨p, hread, herr⟩ := readLines_fresh_of_refused hs hline
    have hconclude : fmt.conclude (readFrame fmt (fresh fmt) (line :: hs, t)) =
        .entity (.error e) := by
      simp [readFrame, hread, Format.conclude, hfmt.createEntity_err p e herr]
    refine ⟨by simp [hconclude], fun e' he => ?_⟩
    cases he with
    | firstLine hls' hline' =>
      obtain ⟨rfl, rfl⟩ := List.cons.inj hls'
      rw [hline] at hline'
      cases hline'
      exact hconclude
    | malformed hls' hline' hcolon => exact (hls'.not_refused rfl hline).elim
    | lacksLength h => exact absurd h hlacks
  | @fields first hs hls hfields =>
    -- a block of fields is not refused
    have hnot : ∀ e, ¬ Refused fmt (ls, t) e := fun e he => hlacks (he.of_fields hls hfields)
    refine ⟨fun flt => ?_, fun e he => absurd he (hnot e)⟩
    simp only [readFrame, readLines_fresh_of_fields hls hfields]
    cases t with
    | unfinished u => simp [Format.conclude]
    | body rest =>
      apply conclude_readBody_started hfmt rest hls
      intro hbodied
      by_contra hnone
      push Not at hnone
      exact hlacks (.noLength rest hls (fun l hl => (hfields l hl).mem_colon) hbodied hnone)
  -- this one faults, and is excluded
  | endsAtColon hls hgood hbad =>
    exact absurd hbare (not_noBareField_iff.mpr ⟨_, _, _, _, hls, hgood, hbad⟩)
  | @malformed first good more bad hls hgood hbad =>
    obtain ⟨p, hread, herr⟩ := readLines_fresh_of_malformed hls hgood hbad
    have hconclude : fmt.conclude (readFrame fmt (fresh fmt) (ls, t)) =
        .entity (.error fmt.parseError) := by
      simp [readFrame, hread, Format.conclude, hfmt.createEntity_err p _ herr]
    refine ⟨by simp [hconclude], fun e he => ?_⟩
    cases he with
    | firstLine hls' hline' => exact (hls.not_refused hls' hline').elim
    | malformed hls' hline' hcolon => exact hconclude
    | lacksLength h => exact absurd h hlacks

/-! ## Runs -/

/-- The header block of `s` is complete, and its first line does not start `s`
    with a line feed. -/
def BlockOver (fmt : Format F E) (s : Bytes) : Prop :=
  s.head? ≠ some Byte.lf ∧ ∃ ls rest first hs val n, frame [] s = (ls, .body rest) ∧
    FirstLine fmt ls first hs ∧ (∀ line ∈ hs, IsField line) ∧
    (fieldsOf hs).find? (ascii "Content-Length") = some val ∧ stoul val = .ok n

/-- Bytes behind a complete header block change nothing about it. -/
theorem BlockOver.append {s : Bytes} (h : BlockOver fmt s) (t : Bytes) : BlockOver fmt (s ++ t) := by
  obtain ⟨hhead, ls, rest, first, hs, val, n, hframe, hls⟩ := h
  have hne : s ≠ [] := by
    rintro rfl
    rw [frame_of_none (splitLine_eq_none_iff.mpr List.not_mem_nil)] at hframe
    cases hframe
  obtain ⟨rest', hframe', -, -⟩ := frame_append_body [] t (Or.inl hhead) hframe
  refine ⟨?_, ls, rest', first, hs, val, n, hframe', hls⟩
  rwa [List.head?_append_of_ne_nil s hne]

/-- A complete header block is one of fields that tell the length. -/
theorem BlockOver.frame_good {s : Bytes} (h : BlockOver fmt s) :
    NoBareField fmt (frame [] s).1 ∧ ¬ LacksLength fmt (frame [] s) ∧
      ∀ e, ¬ Refused fmt (frame [] s) e := by
  obtain ⟨-, ls, rest, first, hs, val, n, hframe, hls, hfields, hfind, hval⟩ := h
  rw [hframe]
  -- the length is there
  have hlacks : ¬ LacksLength fmt (ls, .body rest) := by
    intro hlacks
    cases hlacks with
    | noLine =>
      obtain ⟨line, h, -⟩ := hls
      cases h
    | noLength _ hls' hcolon hbodied hlength =>
      obtain ⟨rfl, rfl⟩ := hls.unique hls'
      exact hlength val n hfind hval
  refine ⟨fun first' hs' hls' line hline => ?_, hlacks, fun e he => hlacks (he.of_fields hls hfields)⟩
  obtain ⟨rfl, rfl⟩ := hls.unique hls'
  exact (hfields line (List.takeWhile_subset _ hline)).not_endsAtColon

/-- As long as no chunk has started the body, the chunks are line-aligned. -/
theorem lineAligned_of_headersRead {chunks : List Bytes} (h : WellCut fmt chunks)
    (hstate : ∀ pre k post p, chunks = pre ++ k :: post →
      feedChunks fmt (fresh fmt) pre = .ok (.pending, p) → p.state = .headersRead) :
    LineAligned fmt chunks := by
  intro pre k post p hsplit hpre
  refine ⟨fun hp hk => h pre k post p hsplit hpre hp hk, fun hp => ?_⟩
  rw [hstate pre k post p hsplit hpre] at hp
  cases hp

/-- The chunks in front are well cut, too. -/
theorem wellCut_of_append {pre post : List Bytes} (h : WellCut fmt (pre ++ post)) :
    WellCut fmt pre :=
  fun pre' k post' p hsplit => h pre' k (post' ++ post) p (by simp [hsplit])

/-- The header block is not entered again. -/
theorem headersRead_of_append {pre post : List Bytes} {p q : Parser F}
    (hpre : feedChunks fmt (fresh fmt) pre = .ok (.pending, q))
    (h : feedChunks fmt (fresh fmt) (pre ++ post) = .ok (.pending, p))
    (hp : p.state = .headersRead) : q.state = .headersRead := by
  cases hq : q.state with
  | headersRead => rfl
  | bodyRead =>
    rw [feedChunks, Incremental.feed_append_of_pending _ hpre] at h
    rw [feedChunks_bodyRead hq h] at hp
    cases hp

/-- A call that asks for more of the body has found the length. -/
theorem blockOver_of_pending (hfmt : fmt.Lawful) {s rest : Bytes} {ls : List Bytes}
    {p₁ p : Parser F} (hhead : s.head? ≠ some Byte.lf) (hframe : frame [] s = (ls, .body rest))
    (hlines : readLines fmt (fresh fmt) ls = .ok (.pending, p₁))
    (hread : readBody fmt { p₁ with state := .bodyRead } rest 0 = .ok (.pending, p)) :
    AwaitsBody fmt p ∧ BlockOver fmt s := by
  rcases readLines_fresh_pending hfmt hlines with ⟨-, rfl⟩ | ⟨first, hs, hls, hfields, rfl⟩
  · -- a block without a first line does not come to its body
    rw [readBody_fresh hfmt] at hread
    cases hread
  · cases hbodied : fmt.bodiless first with
    | true => simp [readBody, started, hbodied] at hread
    | false =>
      by_cases hlength : ∃ val n, (fieldsOf hs).find? (ascii "Content-Length") = some val ∧
          stoul val = .ok n
      · obtain ⟨val, n, hfind, hval⟩ := hlength
        refine ⟨?_, hhead, ls, rest, first, hs, val, n, hframe, hls, hfields, hfind, hval⟩
        rcases (awaitsBody_started hls hbodied hfind hval).readBody hfmt rest with
          ⟨p', hread', hp'⟩ | ⟨p', entity, hread', -⟩
        · rw [hread'] at hread
          cases hread
          exact hp'
        · simp [hread'] at hread
      · -- without a length the call throws
        push Not at hlength
        simp [readBody_started_of_none rest hbodied hlength] at hread

/-- What stands before an element stands before the last one. -/
private theorem prefix_of_concat_eq {α : Type} {as bs cs : List α} {a b : α}
    (h : as ++ [a] = bs ++ b :: cs) : bs <+: as := by
  have hbs : bs <+: as ++ [a] := h ▸ List.prefix_append _ _
  have hlen := congrArg List.length h
  simp only [List.length_append, List.length_cons, List.length_nil] at hlen
  exact List.prefix_of_prefix_length_le hbs (List.prefix_append _ _) (by omega)

/-- The states a pending run can reach: in the header block, or in a body that
    goes well. -/
theorem wellCut_pending (hfmt : fmt.Lawful) {chunks : List Bytes} (h : WellCut fmt chunks)
    {p : Parser F} (hrun : feedChunks fmt (fresh fmt) chunks = .ok (.pending, p)) :
    p.state = .headersRead ∨ AwaitsBody fmt p ∧ BlockOver fmt chunks.flatten := by
  induction chunks using List.reverseRecOn generalizing p with
  | nil =>
    cases hrun
    exact Or.inl rfl
  | append_singleton pre k ih =>
    obtain ⟨p', hpre, hcall⟩ := Incremental.feed_append_singleton_pending hrun
    rcases ih (wellCut_of_append h) hpre with hp' | ⟨hbody, hover⟩
    · -- every call up to this one was made in the header block
      have haligned : LineAligned fmt (pre ++ [k]) := by
        apply lineAligned_of_headersRead h
        intro pre' k' post' q hsplit hq
        obtain ⟨mid, rfl⟩ : pre' <+: pre := prefix_of_concat_eq hsplit
        exact headersRead_of_append hq hpre hp'
      rw [feedChunks_eq_operatorCall haligned] at hrun
      -- so they are one call, and it left a line or a body unfinished
      obtain ⟨hhead, ls, p₁, hlines, htail⟩ := operatorCall_fresh_pending hrun
      rcases htail with ⟨u, hframe, rfl⟩ | ⟨rest, hframe, hread⟩
      · exact Or.inl (readLines_fresh hlines).2.2.1
      · exact Or.inr (blockOver_of_pending hfmt hhead hframe hlines hread)
    · -- the body was started before
      rw [operatorCall_bodyRead hbody.state] at hcall
      rcases hbody.readBody hfmt k with ⟨p'', hread, hbody''⟩ | ⟨p'', entity, hread, -⟩
      · rw [hread] at hcall
        cases hcall
        rw [List.flatten_append]
        exact Or.inr ⟨hbody'', hover.append _⟩
      · simp [hread] at hcall

/-- A fresh parser is not in front of a line feed. -/
theorem head?_flatten_of_wellCut {chunks : List Bytes} (h : WellCut fmt chunks) :
    chunks.flatten.head? ≠ some Byte.lf := by
  induction chunks with
  | nil => simp
  | cons k ks ih =>
    by_cases hk : k = []
    · -- an empty chunk is passed over
      subst hk
      apply ih
      intro pre k' post p hsplit hpre
      apply h ([] :: pre) k' post p (by simp [hsplit])
      simpa only [feedChunks, Incremental.feed, operatorCall_fresh_nil] using hpre
    · rw [List.flatten_cons, List.head?_append_of_ne_nil k hk]
      intro hhead
      exact (h [] k ks _ rfl rfl rfl (List.mem_of_mem_head? hhead)).1 hhead

/-- Once the first chunk has the header block, the rest may be cut anywhere. -/
theorem wellCut_of_bodyRead {k : Bytes} {ks : List Bytes} (hhead : k.head? ≠ some Byte.lf)
    (hk : ∀ p, operatorCall fmt (fresh fmt) k = .ok (.pending, p) → p.state = .bodyRead) :
    WellCut fmt (k :: ks) := by
  intro pre k' post p hsplit hpre hp _
  cases pre with
  | nil =>
    obtain ⟨rfl, rfl⟩ := List.cons.inj hsplit
    cases hpre
    exact ⟨hhead, rfl⟩
  | cons k₁ pre =>
    obtain ⟨rfl, rfl⟩ := List.cons.inj hsplit
    rw [feedChunks, Incremental.feed] at hpre
    cases hcall : operatorCall fmt (fresh fmt) k with
    | error e => simp [hcall] at hpre
    | ok r =>
      obtain ⟨st, q⟩ := r
      cases st with
      | ready => simp [hcall] at hpre
      | pending =>
        -- the first call started the body, and the body is not left
        rw [hcall] at hpre
        rw [feedChunks_bodyRead (hk q hcall) hpre] at hp
        cases hp

/-- A run of well-cut chunks goes as one call on all of them would, or the block
    is complete and what follows goes well. -/
theorem wellCut_cases (hfmt : fmt.Lawful) {chunks : List Bytes} (h : WellCut fmt chunks) :
    feedChunks fmt (fresh fmt) chunks = readFrame fmt (fresh fmt) (frame [] chunks.flatten) ∨
      BlockOver fmt chunks.flatten ∧
        ∀ f, fmt.conclude (feedChunks fmt (fresh fmt) chunks) ≠ .fault f := by
  by_cases hbody : ∃ pre k post p, chunks = pre ++ k :: post ∧
      feedChunks fmt (fresh fmt) pre = .ok (.pending, p) ∧ p.state ≠ .headersRead
  · -- from the first call in the body on, no call throws
    obtain ⟨pre, k, post, p, rfl, hpre, hp⟩ := hbody
    rcases wellCut_pending hfmt (wellCut_of_append h) hpre with hp' | ⟨hawaits, hover⟩
    · exact absurd hp' hp
    · refine Or.inr ⟨?_, fun f => ?_⟩
      · rw [List.flatten_append]
        exact hover.append _
      · rw [feedChunks, Incremental.feed_append_of_pending _ hpre]
        rcases hawaits.feedChunks hfmt (k :: post) with ⟨p', hrun⟩ | ⟨p', entity, hrun, hentity⟩
        · rw [feedChunks] at hrun
          simp [hrun, Format.conclude]
        · rw [feedChunks] at hrun
          simp [hrun, Format.conclude, hentity]
  · -- no call was made in the body
    push Not at hbody
    left
    rw [feedChunks_eq_operatorCall (lineAligned_of_headersRead h hbody), operatorCall_fresh,
      if_neg (head?_flatten_of_wellCut h)]

/-- Reading the body does not touch `not_handled_data`. -/
theorem readBody_notHandledData {p p' : Parser F} {data : Bytes} {i : Nat} {st : IoState}
    (h : readBody fmt p data i = .ok (st, p')) : p'.notHandledData = p.notHandledData := by
  have hset : (setContentLength fmt p).2.notHandledData = p.notHandledData :=
    setContentLength_notHandledData p
  simp only [readBody] at h
  repeat' split at h
  all_goals cases h
  · rfl
  · exact hset
  · exact hset

/-- The lines leave what was kept. -/
theorem readLines_notHandledData {p p' : Parser F} {ls : List Bytes}
    (h : readLines fmt p ls = .ok (.pending, p')) : p'.notHandledData = p.notHandledData :=
  Incremental.feed_pending_induction (P := fun q => q.notHandledData = p.notHandledData) rfl
    (fun _ _ _ _ hq hline => (handleLine_unchanged hline).1.trans hq) h

/-- What a call keeps are bytes kept before, or bytes of the chunk. -/
theorem operatorCall_notHandledData {p p' : Parser F} {k : Bytes} {b : UInt8}
    (h : operatorCall fmt p k = .ok (.pending, p')) (hb : b ∈ p'.notHandledData) :
    b ∈ p.notHandledData ∨ b ∈ k := by
  cases hp : p.state with
  -- the body is kept elsewhere
  | bodyRead =>
    rw [operatorCall_bodyRead hp] at h
    exact Or.inl (readBody_notHandledData h ▸ hb)
  | headersRead =>
    rw [operatorCall_headersRead hp] at h
    split at h
    · -- no line feed: the chunk is kept behind what there was
      cases h
      exact List.mem_append.mp hb
    · split at h
      · cases h
      · cases htake : takeNotHandled p with
        | error f => simp [htake] at h
        | ok r =>
          obtain ⟨kept, p₁⟩ := r
          simp only [htake, readFrame] at h
          cases hlines : readLines fmt p₁ (frame kept k).1 with
          | error f => simp [hlines] at h
          | ok r =>
            obtain ⟨st, p₂⟩ := r
            cases st with
            | ready => simp [hlines] at h
            | pending =>
              have hnil : p₂.notHandledData = [] :=
                (readLines_notHandledData hlines).trans (takeNotHandled_clears htake)
              cases htail : (frame kept k).2 with
              | unfinished u =>
                simp only [hlines, htail, hnil, List.nil_append] at h
                cases h
                exact Or.inr ((frame_unfinished_suffix (Prod.ext rfl htail)).subset hb)
              | body rest =>
                simp only [hlines, htail] at h
                rw [readBody_notHandledData h] at hb
                simp [hnil] at hb

/-- What a run keeps are bytes of the chunks. -/
theorem notHandledData_not_mem {chunks : List Bytes} {p : Parser F} {b : UInt8}
    (h : feedChunks fmt (fresh fmt) chunks = .ok (.pending, p)) (hb : ∀ k ∈ chunks, b ∉ k) :
    b ∉ p.notHandledData := by
  refine Incremental.feed_pending_induction (P := fun p => b ∉ p.notHandledData)
    List.not_mem_nil ?_ h
  intro q k q' hk hq hcall hmem
  exact (operatorCall_notHandledData hcall hmem).elim hq (hb k hk)

/-- A badly placed cut is a read outside the chunk or outside `not_handled_data`. -/
theorem operatorCall_outOfBounds {p : Parser F} {k : Bytes} (hp : p.state = .headersRead)
    (hnul : Byte.nul ∉ p.notHandledData) (hlf : Byte.lf ∈ k)
    (hbad : k.head? = some Byte.lf ∨ p.notHandledData ≠ []) :
    operatorCall fmt p k = .error .outOfBounds := by
  rw [operatorCall_headersRead hp, if_neg (not_not.mpr hlf)]
  split
  · rfl
  · rename_i hhead
    have hkept := hbad.resolve_left hhead
    simp [takeNotHandled, hkept, stringFromData, hnul]

end Parser

/-- Without a badly placed cut, a bare field or a missing length a parser is
    robust. -/
theorem robust_of_wellCut (hfmt : fmt.Lawful) {chunks : List Bytes} (hcut : WellCut fmt chunks)
    (hbare : NoBareField fmt (frame [] chunks.flatten).1)
    (hlacks : ¬ LacksLength fmt (frame [] chunks.flatten)) : Robust fmt chunks := by
  rcases Parser.wellCut_cases hfmt hcut with hrun | ⟨hover, hrun⟩
  · simp only [Robust, Format.outcome, hrun]
    exact Parser.conclude_readFrame hfmt hbare hlacks
  · exact ⟨hrun, fun e he => absurd he (hover.frame_good.2.2 e)⟩

/-- For bytes other than NUL, which ends a C string, nothing else is robust. -/
theorem robust_iff (hfmt : fmt.Lawful) {chunks : List Bytes} (hnul : ∀ k ∈ chunks, Byte.nul ∉ k) :
    Robust fmt chunks ↔ WellCut fmt chunks ∧ NoBareField fmt (frame [] chunks.flatten).1 ∧
      ¬ LacksLength fmt (frame [] chunks.flatten) := by
  refine ⟨fun h => ?_, fun ⟨hcut, hbare, hlacks⟩ => robust_of_wellCut hfmt hcut hbare hlacks⟩
  -- a badly placed cut is a fault of its own
  have hcut : WellCut fmt chunks := by
    intro pre k post p hsplit hpre hp hlf
    have hkept : Byte.nul ∉ p.notHandledData :=
      Parser.notHandledData_not_mem hpre fun k' hk' => hnul k' (by simp [hsplit, hk'])
    by_contra hbad
    have hcall : Parser.operatorCall fmt p k = .error .outOfBounds :=
      Parser.operatorCall_outOfBounds hp hkept hlf (by tauto)
    apply h.1 .outOfBounds
    rw [Format.outcome, hsplit, Parser.feedChunks, Incremental.feed_append_of_pending _ hpre,
      Incremental.feed, hcall]
    rfl
  -- and then a run that is one call shows the other two
  rcases Parser.wellCut_cases hfmt hcut with hrun | ⟨hover, -⟩
  · by_contra hbad
    obtain ⟨f, hf⟩ := Parser.readFrame_fault hfmt (f := frame [] chunks.flatten) (by tauto)
    apply h.1 f
    rw [Format.outcome, hrun, hf]
    rfl
  · exact ⟨hcut, hover.frame_good.1, hover.frame_good.2.1⟩

/-! ## The two parsers -/

/-- The runs of `RequestParser` and of `ResponseParser` that are robust. -/
theorem parsers_robust (chunks : List Bytes) :
    (WellCut requestFormat chunks → NoBareField requestFormat (frame [] chunks.flatten).1 →
      ¬ LacksLength requestFormat (frame [] chunks.flatten) → Robust requestFormat chunks) ∧
    (WellCut responseFormat chunks → NoBareField responseFormat (frame [] chunks.flatten).1 →
      ¬ LacksLength responseFormat (frame [] chunks.flatten) → Robust responseFormat chunks) ∧
    ((∀ k ∈ chunks, Byte.nul ∉ k) →
      (Robust requestFormat chunks ↔ WellCut requestFormat chunks ∧
        NoBareField requestFormat (frame [] chunks.flatten).1 ∧
        ¬ LacksLength requestFormat (frame [] chunks.flatten)) ∧
      (Robust responseFormat chunks ↔ WellCut responseFormat chunks ∧
        NoBareField responseFormat (frame [] chunks.flatten).1 ∧
        ¬ LacksLength responseFormat (frame [] chunks.flatten))) :=
  ⟨robust_of_wellCut requestFormat_lawful, robust_of_wellCut responseFormat_lawful,
    fun hnul => ⟨robust_iff requestFormat_lawful hnul, robust_iff responseFormat_lawful hnul⟩⟩

/-- A header name without a value makes `parse_header` throw. -/
theorem request_bare_field_not_robust :
    ¬ Robust requestFormat [ascii "GET / HTTP/1.1\r\nHost:\r\n\r\n"] :=
  fun h => h.1 .outOfRange (by decide +kernel)

/-- A body that comes in two chunks. -/
theorem parsers_robust_split_body :
    Robust requestFormat
      [ascii "POST / HTTP/1.1\r\nContent-Length: 3\r\n\r\na", ascii "bc"] := by
  have hframe : frame []
      [ascii "POST / HTTP/1.1\r\nContent-Length: 3\r\n\r\na", ascii "bc"].flatten =
        ([ascii "POST / HTTP/1.1", ascii "Content-Length: 3"], .body (ascii "abc")) := by
    decide +kernel
  have hfirst : FirstLine requestFormat [ascii "POST / HTTP/1.1", ascii "Content-Length: 3"]
      ⟨ascii "POST", ascii "/", ascii "HTTP/1.1"⟩ [ascii "Content-Length: 3"] :=
    ⟨_, rfl, by decide +kernel⟩
  have hfield : IsField (ascii "Content-Length: 3") :=
    ⟨ascii "Content-Length", Byte.space, ascii "3", by decide, by decide⟩
  apply (parsers_robust _).1
  · -- the first chunk ends inside the body
    apply Parser.wellCut_of_bodyRead (by decide)
    intro p hp
    have hstate : (Parser.operatorCall requestFormat (.fresh requestFormat)
        (ascii "POST / HTTP/1.1\r\nContent-Length: 3\r\n\r\na")).toOption.map (·.2.state) =
        some .bodyRead := by decide +kernel
    rw [hp] at hstate
    exact Option.some.inj hstate
  · rw [hframe]
    intro first hs hls line hline
    obtain ⟨-, rfl⟩ := hfirst.unique hls
    rw [List.mem_singleton.mp (List.takeWhile_subset _ hline)]
    exact hfield.not_endsAtColon
  · rw [hframe]
    intro hlacks
    cases hlacks with
    | noLength _ hls _ _ hlength =>
      obtain ⟨-, rfl⟩ := hfirst.unique hls
      exact hlength (ascii "3") 3 (by decide +kernel) (by decide +kernel)

end Webserv.Http
