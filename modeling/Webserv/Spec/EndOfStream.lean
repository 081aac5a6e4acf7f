import Webserv.Spec.FutReadCorrect
import Webserv.Spec.ParserComplete

/-!
# Reading behind the end of the stream

When the peer has shut the connection down, `read` returns 0, and so does
`Socket::read_part`, which returns 0 for `EAGAIN` as well.  The parser gets an
empty part.  An incomplete message stays as it is over an empty part, the
parser answers PENDING, and `read_entity` calls itself once more.

## Key results

- `Parser.operatorCall_nil`: an empty part changes nothing
- `readLoop_untilEnd`: the loop does not return, however often it reads
- `endOfStream_never_ends`: neither does `read_entity`, in any run
-/

namespace Webserv.Http

open Futures Fut

variable {F E : Type} {fmt : Format F E}

/-! ## An empty part -/

/-- An empty part changes nothing. -/
theorem Parser.operatorCall_nil {p : Parser F} (h : Incomplete fmt p) :
    operatorCall fmt p [] = .ok (.pending, p) := by
  rw [Incomplete] at h
  cases hstate : p.state with
  -- no line feed, so nothing is read
  | headersRead => simp [operatorCall_headersRead hstate]
  | bodyRead =>
    rw [hstate] at h
    obtain ⟨_, n, -, -, hlength, hlt⟩ := h.length
    -- the body was too short before, and it still is
    have hmore : ¬ n ≤ ([] : Bytes).length + p.body.length := by
      rw [List.length_nil]
      omega
    rw [operatorCall_bodyRead hstate, readBody_zero, h.bodied, setContentLength_of_some hlength,
      hlength]
    simp only [Bool.false_eq_true, ↓reduceIte, hmore, List.append_nil]

/-! ## The loop -/

/-- What a socket yields whose peer sends `parts` and shuts the connection down, over
    `reads` more reads. -/
def untilEnd (parts : List Bytes) (reads : ℕ) : List ReadEvent :=
  (parts.map ReadCall.bytes ++ List.replicate reads (ReadCall.bytes [])).map fun call =>
    .toRead (Socket.readPart call)

/-- Notes of a loop that goes on. -/
def Unresolved (trace : Trace (readSignature (Parser F) E Error)) : Prop :=
  ∀ res, .performed (.resolved res) ∉ trace

variable {impl : EntityCreator (Parser F) E Error}

/-- One read that leaves the message incomplete. -/
theorem readLoop_of_pending (himpl : fmt.IsCreator impl) {p q : Parser F} {part : Bytes}
    {evs : List ReadEvent} (hcall : Parser.operatorCall fmt p part = .ok (.pending, q)) :
    readLoop impl p (.toRead (.ok part) :: evs) =
      (.answered () (.toRead (.ok part)) :: .performed (.fed p part) :: (readLoop impl q evs).1,
        (readLoop impl q evs).2) := by
  have hresult : (ReadEvent.toRead (.ok part)).result = .ok part := rfl
  rw [readLoop, hresult]
  dsimp only
  rw [himpl.call hcall]

/-- Every prefix of the outcomes leaves the loop waiting for the next one. -/
theorem readLoop_untilEnd (hfmt : fmt.Lawful) (himpl : fmt.IsCreator impl) {p q : Parser F}
    {parts : List Bytes} (hp : Parser.Incomplete fmt p)
    (hparts : Parser.feedChunks fmt p parts = .ok (.pending, q)) (reads : ℕ)
    {evs : List ReadEvent} (hevs : evs <+: untilEnd parts reads) :
    (readLoop impl p evs).2 = none ∧ Unresolved (readLoop impl p evs).1 := by
  -- induction on the outcomes; the parser stays incomplete
  induction evs generalizing p parts reads with
  | nil => exact ⟨rfl, fun res hmem => nomatch hmem⟩
  | cons ev evs ih =>
    -- each read gives a part, or nothing
    have hturn : ∃ part parts' reads' p', ev = .toRead (.ok part) ∧
        Parser.operatorCall fmt p part = .ok (.pending, p') ∧
        Parser.feedChunks fmt p' parts' = .ok (.pending, q) ∧ evs <+: untilEnd parts' reads' := by
      cases parts with
      | cons part parts =>
        obtain ⟨rfl, hrest⟩ := List.cons_prefix_cons.mp hevs
        rw [Parser.feedChunks, Incremental.feed] at hparts
        split at hparts
        · cases hparts
        · cases hparts
        · rename_i p' hcall
          exact ⟨part, parts, reads, p', rfl, hcall, hparts, hrest⟩
      | nil =>
        cases reads with
        | zero => exact absurd hevs (by simp [untilEnd])
        | succ reads =>
          -- behind the last part every read is the same
          obtain ⟨rfl, hrest⟩ := List.cons_prefix_cons.mp hevs
          exact ⟨[], [], reads, p, rfl, Parser.operatorCall_nil hp, hparts, hrest⟩
    obtain ⟨part, parts', reads', p', rfl, hcall, hparts', hrest⟩ := hturn
    have hp' : Parser.Incomplete fmt p' := by
      rcases Parser.operatorCall_cases hfmt hp hcall with ⟨-, h⟩ | ⟨h, -⟩
      · exact h
      · cases h
    -- the turn adds a read and its outcome
    obtain ⟨hnone, hunresolved⟩ := ih hp' hparts' reads' hrest
    rw [readLoop_of_pending himpl hcall]
    refine ⟨hnone, fun res hmem => ?_⟩
    rcases List.mem_cons.mp hmem with hnote | hmem
    · cases hnote
    rcases List.mem_cons.mp hmem with hnote | hmem
    · cases hnote
    · exact hunresolved res hmem

/-! ## Runs -/

/-- In some run the future resolves with an error after finitely many reads. -/
def ReadingEnds (impl : EntityCreator (Parser F) E Error) (p : Parser F) (parts : List Bytes) :
    Prop :=
  ∃ reads err es c, ProgRun (readBodies impl) (readProg impl p) es c ∧
    readEvents (notes es) <+: untilEnd parts reads ∧
    .performed (.resolved (.error err)) ∈ notes es

/-- The loop reads as often as it is let, and then waits to read again. -/
def KeepsReading (impl : EntityCreator (Parser F) E Error) (p : Parser F) (parts : List Bytes) :
    Prop :=
  ∀ reads, ∃ es c, ProgRun (readBodies impl) (readProg impl p) es c ∧ c.Idle ∧
    readEvents (notes es) = untilEnd parts reads ∧ c.pending.card = 1

/-- A message that is cut off keeps `read_entity` reading for ever. -/
theorem Format.never_ends (hfmt : fmt.Lawful) (himpl : fmt.IsCreator impl) {p q : Parser F}
    {parts : List Bytes} (hp : Parser.Incomplete fmt p)
    (hparts : Parser.feedChunks fmt p parts = .ok (.pending, q)) :
    ¬ ReadingEnds impl p parts ∧ KeepsReading impl p parts := by
  have hloop := readLoop_untilEnd hfmt himpl hp hparts
  constructor
  · -- a run that resolves would have made the loop return
    rintro ⟨reads, err, es, c, hrun, hevents, hresolved⟩
    obtain ⟨hbegins, -, -, -⟩ := readEntity_refines_loop impl p hrun
    obtain ⟨hnone, hunresolved⟩ := hloop reads hevents
    rw [(readLoop_of_none hnone).1] at hbegins
    exact hunresolved _ (hbegins.subset hresolved)
  · -- the loop still waits behind any number of empty reads
    intro reads
    obtain ⟨hnone, -⟩ := hloop reads (List.prefix_refl _)
    obtain ⟨es, c, hrun, hidle, hnotes⟩ := readEntity_exists_run impl p (untilEnd parts reads)
    have hevents : readEvents (notes es) = untilEnd parts reads := by
      rw [hnotes, (readLoop_of_none hnone).1, (readLoop_of_none hnone).2]
    obtain ⟨-, -, -, hend⟩ := readEntity_refines_loop impl p hrun
    obtain ⟨-, hpending⟩ := hend hidle
    rw [hevents, hnone] at hpending
    exact ⟨es, c, hrun, hidle, hevents, hpending⟩

/-- `pre` are the parts the parser was fed before, `parts` those that are left. -/
theorem endOfStream_never_ends (pre parts : List Bytes) :
    (∀ impl p q, requestFormat.IsCreator impl →
      Parser.feedChunks requestFormat (.fresh requestFormat) pre = .ok (.pending, p) →
      Parser.feedChunks requestFormat p parts = .ok (.pending, q) →
      ¬ ReadingEnds impl p parts ∧ KeepsReading impl p parts) ∧
    ∀ impl p q, responseFormat.IsCreator impl →
      Parser.feedChunks responseFormat (.fresh responseFormat) pre = .ok (.pending, p) →
      Parser.feedChunks responseFormat p parts = .ok (.pending, q) →
      ¬ ReadingEnds impl p parts ∧ KeepsReading impl p parts := by
  constructor
  · intro impl p q himpl hpre hparts
    -- what is pending was never complete, and an empty part completes nothing
    have hp := Parser.feedChunks_incomplete requestFormat_lawful
      (Parser.incomplete_fresh requestFormat) hpre
    exact requestFormat.never_ends requestFormat_lawful himpl hp hparts
  · intro impl p q himpl hpre hparts
    have hp := Parser.feedChunks_incomplete responseFormat_lawful
      (Parser.incomplete_fresh responseFormat) hpre
    exact responseFormat.never_ends responseFormat_lawful himpl hp hparts

/-! ## A cut-off request -/

/-- A request that is cut off in a header line, and a response cut off in its body. -/
theorem endOfStream_never_ends_cut :
    (∃ p : RequestParser, p.contentLength = none ∧
      ¬ ReadingEnds requestFormat.creator p [ascii "Ho"]) ∧
    ∃ p : ResponseParser, p.contentLength = some 3 ∧
      ¬ ReadingEnds responseFormat.creator p [ascii "b"] := by
  constructor
  · have hpre : (Parser.feedChunks requestFormat (.fresh requestFormat)
        [ascii "GET / HTTP/1.1\r\n"]).toOption.map
          (fun r => (r.1, r.2.contentLength, r.2.body)) = some (.pending, none, []) := by
      decide +kernel
    have hall : (Parser.feedChunks requestFormat (.fresh requestFormat)
        ([ascii "GET / HTTP/1.1\r\n"] ++ [ascii "Ho"])).toOption.map
          (fun r => (r.1, r.2.contentLength, r.2.body)) = some (.pending, none, []) := by
      decide +kernel
    obtain ⟨p, hp, hlength, -⟩ := Parser.exists_of_view hpre
    obtain ⟨q, hq, -, -⟩ := Parser.exists_of_view hall
    have hparts : Parser.feedChunks requestFormat p [ascii "Ho"] = .ok (.pending, q) :=
      (Incremental.feed_append_of_pending _ hp).symm.trans hq
    exact ⟨p, hlength,
      ((endOfStream_never_ends _ _).1 _ p q requestFormat.isCreator_creator hp hparts).1⟩
  · -- the body is cut off, too
    have hpre : (Parser.feedChunks responseFormat (.fresh responseFormat)
        [ascii "HTTP/1.1 200 OK\r\nContent-Length: 3\r\n\r\na"]).toOption.map
          (fun r => (r.1, r.2.contentLength, r.2.body)) =
        some (.pending, some 3, ascii "a") := by decide +kernel
    have hall : (Parser.feedChunks responseFormat (.fresh responseFormat)
        ([ascii "HTTP/1.1 200 OK\r\nContent-Length: 3\r\n\r\na"] ++ [ascii "b"])).toOption.map
          (fun r => (r.1, r.2.contentLength, r.2.body)) =
        some (.pending, some 3, ascii "ab") := by decide +kernel
    obtain ⟨p, hp, hlength, -⟩ := Parser.exists_of_view hpre
    obtain ⟨q, hq, -, -⟩ := Parser.exists_of_view hall
    have hparts : Parser.feedChunks responseFormat p [ascii "b"] = .ok (.pending, q) :=
      (Incremental.feed_append_of_pending _ hp).symm.trans hq
    exact ⟨p, hlength,
      ((endOfStream_never_ends _ _).2 _ p q responseFormat.isCreator_creator hp hparts).1⟩

/-- A fresh parser that gets the first line only. -/
theorem endOfStream_false :
    ¬ ∀ (impl : EntityCreator RequestParser Request Error) (pre parts : List Bytes)
        (p q : RequestParser), requestFormat.IsCreator impl →
        Parser.feedChunks requestFormat (.fresh requestFormat) pre = .ok (.pending, p) →
        Parser.feedChunks requestFormat p parts = .ok (.pending, q) →
        ReadingEnds impl p parts := by
  intro h
  have hall : (Parser.feedChunks requestFormat (.fresh requestFormat)
      [ascii "GET / HTTP/1.1\r\n"]).toOption.map
        (fun r => (r.1, r.2.contentLength, r.2.body)) = some (.pending, none, []) := by
    decide +kernel
  obtain ⟨q, hq, -, -⟩ := Parser.exists_of_view hall
  exact (requestFormat.never_ends requestFormat_lawful requestFormat.isCreator_creator
    (Parser.incomplete_fresh requestFormat) hq).1
    (h _ [] _ _ q requestFormat.isCreator_creator rfl hq)

end Webserv.Http
