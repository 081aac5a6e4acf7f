import Webserv.Native.ServerPipeline
import Webserv.Spec.EndOfStream
import Webserv.Spec.ReencodeCorrect
import Webserv.Spec.ServerResponses

/-!
# Messages over a stream

A message is written to a stream and read from it in parts.  What has arrived is
a beginning of the message, and `read_entity` makes nothing else of it than the
message, as soon as all of it is there, or an error of the stream.

## Key results

- `readLoop_message`: what `read_entity` makes of a beginning of a message
- `Codec.survives_addForwarder`: a request that is passed on can be read again
-/

namespace Webserv.Http

open Futures Fut

variable {F E : Type} {fmt : Format F E}

/-! ## The reading side -/

/-- The parts that were read. -/
def partsOf (evs : List ReadEvent) : List Bytes := evs.filterMap fun ev => ev.result.toOption

/-- A read failed. -/
def ReadFailed (evs : List ReadEvent) : Prop := ∃ ev ∈ evs, ∃ err, ev.result = .error err

/-- A read that failed gave no part. -/
theorem readFailed_iff {evs : List ReadEvent} :
    (∃ ev ∈ evs, ev.result.toOption = none) ↔ ReadFailed evs := by
  constructor
  · rintro ⟨ev, hmem, hnone⟩
    cases hresult : ev.result with
    | error err => exact ⟨ev, hmem, err, hresult⟩
    | ok part =>
      rw [hresult] at hnone
      cases hnone
  · rintro ⟨ev, hmem, err, herr⟩
    exact ⟨ev, hmem, by rw [herr]; rfl⟩

instance : DecidablePred ReadFailed := fun _ => decidable_of_iff _ readFailed_iff

/-- Nothing was read. -/
@[simp] theorem partsOf_nil : partsOf [] = [] := rfl

/-- A part was read. -/
theorem partsOf_cons_ok {ev : ReadEvent} {part : Bytes} (h : ev.result = .ok part)
    (evs : List ReadEvent) : partsOf (ev :: evs) = part :: partsOf evs := by
  rw [partsOf, List.filterMap_cons, h]
  rfl

/-- A read more. -/
theorem ReadFailed.cons {evs : List ReadEvent} (h : ReadFailed evs) (ev : ReadEvent) :
    ReadFailed (ev :: evs) := by
  obtain ⟨ev', hmem, herr⟩ := h
  exact ⟨ev', List.mem_cons_of_mem ev hmem, herr⟩

/-- The result of a call of the parser, as `read_entity` goes on with it. -/
def resultOf (impl : EntityCreator (Parser F) E Error) : IoState × Parser F → Option (Result E)
  | (.pending, _) => none
  | (.ready, p) => some (impl.createEntity p)

/-- An error of the stream. -/
def StreamError (impl : EntityCreator (Parser F) E Error) (evs : List ReadEvent)
    (res : Option (Result E)) : Prop :=
  ReadFailed evs ∧ ∃ err, res = some (.error (impl.errorOf err))

variable {impl : EntityCreator (Parser F) E Error}

/-- The loop feeds the parts, up to the first error of a read. -/
theorem readLoop_parts (himpl : fmt.IsCreator impl) {p : Parser F} {r : IoState × Parser F}
    {evs : List ReadEvent} (h : Parser.feedChunks fmt p (partsOf evs) = .ok r) :
    (readLoop impl p evs).2 = resultOf impl r ∨
      StreamError impl evs (readLoop impl p evs).2 := by
  -- induction on the outcomes of the reads
  induction evs generalizing p with
  | nil =>
    rw [partsOf_nil, Parser.feedChunks, Incremental.feed_nil] at h
    cases h
    exact .inl rfl
  | cons ev evs ih =>
    rw [readLoop]
    cases hev : ev.result with
    -- the stream ends with the error of the read
    | error err => exact .inr ⟨⟨ev, List.mem_cons_self, err, hev⟩, err, rfl⟩
    | ok part =>
      rw [partsOf_cons_ok hev, Parser.feedChunks, Incremental.feed] at h
      dsimp only
      split at h
      · cases h
      · rename_i p' hcall
        cases h
        rw [himpl.call hcall]
        exact .inl rfl
      · rename_i p' hcall
        rw [himpl.call hcall]
        obtain hres | ⟨hfailed, herr⟩ := ih h
        · exact .inl hres
        · exact .inr ⟨hfailed.cons ev, herr⟩

/-! ## A message on its way -/

/-- The parser on a beginning of a message that it accepts. -/
theorem Format.feedChunks_message {s : Bytes} {e : E} (h : fmt.outcome [s] = .entity (.ok e))
    {chunks : List Bytes} (hcut : Parser.LineAligned fmt chunks) (hbegins : chunks.flatten <+: s) :
    (chunks.flatten ≠ s ∧ ∃ p, Parser.feedChunks fmt (.fresh fmt) chunks = .ok (.pending, p)) ∨
      ∃ p, Parser.feedChunks fmt (.fresh fmt) chunks = .ok (.ready, p) ∧
        fmt.createEntity p = .ok (.ok e) := by
  rw [Parser.feedChunks_eq_operatorCall hcut]
  rw [Format.outcome, Parser.feedChunks, Incremental.feed_singleton] at h
  by_cases hpending : ∃ p, Parser.operatorCall fmt (.fresh fmt) chunks.flatten = .ok (.pending, p)
  · -- all of the bytes would have made the parser ready
    refine .inl ⟨fun hall => ?_, hpending⟩
    obtain ⟨p, hp⟩ := hpending
    rw [← hall, hp] at h
    cases h
  · -- a parser that is through does not look at the rest
    obtain ⟨rest, hrest⟩ := hbegins
    have hsettled : Parser.operatorCall fmt (.fresh fmt) (chunks.flatten ++ rest) =
        Parser.operatorCall fmt (.fresh fmt) chunks.flatten :=
      Parser.operatorCall_fresh_append_of_settled _ _ fun p hp => hpending ⟨p, hp⟩
    rw [hrest] at hsettled
    rw [hsettled] at h
    cases hcall : Parser.operatorCall fmt (.fresh fmt) chunks.flatten with
    | error f =>
      rw [hcall] at h
      cases h
    | ok r =>
      obtain ⟨st, p⟩ := r
      cases st with
      | pending => exact absurd ⟨p, hcall⟩ hpending
      | ready =>
        rw [hcall, Format.conclude] at h
        cases hentity : fmt.createEntity p with
        | error f =>
          rw [hentity] at h
          cases h
        | ok res =>
          rw [hentity] at h
          cases h
          exact .inr ⟨p, rfl, hentity⟩

/-- What `read_entity` makes of a beginning of a message. -/
theorem readLoop_message (himpl : fmt.IsCreator impl) {s : Bytes} {e : E}
    (h : fmt.outcome [s] = .entity (.ok e)) {evs : List ReadEvent}
    (hcut : Parser.LineAligned fmt (partsOf evs)) (hbegins : (partsOf evs).flatten <+: s) :
    ((partsOf evs).flatten ≠ s ∧ (readLoop impl (.fresh fmt) evs).2 = none) ∨
      (readLoop impl (.fresh fmt) evs).2 = some (.ok e) ∨
        StreamError impl evs (readLoop impl (.fresh fmt) evs).2 := by
  obtain ⟨hmore, p, hfeed⟩ | ⟨p, hfeed, hentity⟩ := Format.feedChunks_message h hcut hbegins
  · obtain hres | herr := readLoop_parts himpl hfeed
    · exact .inl ⟨hmore, hres⟩
    · exact .inr (.inr herr)
  · obtain hres | herr := readLoop_parts himpl hfeed
    · rw [resultOf, himpl.createEntity hentity] at hres
      exact .inr (.inl hres)
    · exact .inr (.inr herr)

/-- And of nothing. -/
theorem readLoop_silence (himpl : fmt.IsCreator impl) {evs : List ReadEvent}
    (hcut : Parser.LineAligned fmt (partsOf evs)) (hnone : (partsOf evs).flatten = []) :
    (readLoop impl (.fresh fmt) evs).2 = none ∨
      StreamError impl evs (readLoop impl (.fresh fmt) evs).2 := by
  have hfeed := Parser.feedChunks_eq_operatorCall hcut
  rw [hnone, Parser.operatorCall_fresh_nil] at hfeed
  exact readLoop_parts himpl hfeed

/-! ## Messages that survive -/

namespace Codec

variable (c : Codec fmt)

/-- The message is read as it was written. -/
def Survives (e : E) : Prop := fmt.outcome [(c.new e).bytes] = .entity (.ok e)

/-- A message whose members can be told apart in its text. -/
structure Plain (e : E) : Prop where
  line : fmt.parseFirstHeader fmt.initial (c.cLine (c.members e).1) = .ok (.ok (), (c.members e).1)
  line_good : c.cLine (c.members e).1 ≠ [] ∧ Byte.lf ∉ c.cLine (c.members e).1
  headers : ∀ header ∈ (c.members e).2.1.entries,
    Byte.colon ∉ header.1 ∧ Byte.lf ∉ header.1 ∧ Byte.lf ∉ header.2
  nulFree : Headers.NulFree (c.members e).2.1
  body : (fmt.bodiless (c.members e).1 = true ∧ (c.members e).2.2 = []) ∨
    (fmt.bodiless (c.members e).1 = false ∧ ∃ val,
      (c.members e).2.1.find? (ascii "Content-Length") = some val ∧
      stoul val = .ok (c.members e).2.2.length)

variable {c}

/-- A plain entity is read back from its bytes. -/
theorem Plain.survives {e : E} (h : c.Plain e) : c.Survives e := by
  -- without a NUL the lines are written in full
  have hmap : (c.members e).2.1.entries.map cField = (c.members e).2.1.entries.map fieldLine := by
    refine List.map_congr_left fun header hheader => ?_
    obtain ⟨hname, hvalue⟩ := h.nulFree header hheader
    exact cField_of_not_mem hname hvalue
  have hfields : fieldsOf ((c.members e).2.1.entries.map fieldLine) = (c.members e).2.1 :=
    fieldsOf_map_fieldLine fun header hheader => (h.headers header hheader).1
  have hgood : ∀ l ∈ c.cLine (c.members e).1 :: (c.members e).2.1.entries.map fieldLine,
      l ≠ [] ∧ Byte.lf ∉ l := by
    rw [← hmap]
    refine List.forall_mem_cons.mpr ⟨h.line_good, fun l hl => ?_⟩
    obtain ⟨header, hheader, rfl⟩ := List.mem_map.mp hl
    obtain ⟨-, hname, hvalue⟩ := h.headers header hheader
    exact cField_good hname hvalue
  have hisField : ∀ l ∈ (c.members e).2.1.entries.map fieldLine, IsField l := by
    intro l hl
    obtain ⟨header, hheader, rfl⟩ := List.mem_map.mp hl
    exact isField_fieldLine (h.headers header hheader).1
  -- the block of these lines is read back line by line
  have hdecodes : DecodesTo fmt (c.new e) e := by
    refine decodesTo_of_block (c.state_new e) (by rw [c.headers_new, hmap]) hgood h.line hisField
      ?_ ?_
    · rw [hfields, c.body_new]
      exact h.body
    · intro p hfirst hheaders hbody herr
      rw [c.createEntity_iff, hfirst, hheaders, hbody, hfields, c.body_new]
      exact ⟨herr, rfl⟩
  apply hdecodes.outcome
  rw [Serializer.bytes_eq (c.state_new e)]
  exact List.prefix_append _ _

/-- A message that was read from a text without a NUL. -/
theorem plain_of_outcome {s : Bytes} {e : E} (h : fmt.outcome [s] = .entity (.ok e))
    (hfree : c.NulFree s) : c.Plain e := by
  obtain ⟨line, hs, rest, p, hframe, hline, hfields, hheaders, hbody, -, hentity⟩ :=
    Format.outcome_ok c.lawful h
  obtain ⟨-, hmembers⟩ := (c.createEntity_iff p e).mp hentity
  obtain ⟨hplain, hnul⟩ := hfree line hs (by rw [hframe])
  have hgood := frame_lines hframe
  -- the lines come from one text, so none has a line feed
  have hlf : ∀ l ∈ hs, Byte.lf ∉ l := fun l hl => (hgood l (List.mem_cons_of_mem line hl)).2
  constructor
  · rw [hmembers]
    exact c.parse_cLine line p.first hline hplain
  · rw [hmembers]
    exact c.cLine_good line p.first hline (hgood line List.mem_cons_self).2
  · rw [hmembers, hheaders]
    exact entries_fieldsOf hfields hlf
  · rw [hmembers, hheaders]
    exact (nulFreeFields_iff hfields).mp hnul
  · rw [hmembers]
    exact hbody

end Codec

/-! ## The request that is passed on -/

/-- The line for the client keeps the request readable. -/
theorem Codec.Plain.addForwarder {r : Request} (h : requestCodec.Plain r) {clientIp : Bytes}
    (hnul : Byte.nul ∉ clientIp) (hlf : Byte.lf ∉ clientIp) :
    requestCodec.Plain (addForwarder clientIp r) := by
  have hold : ∀ val, r.headers.find? (ascii "X-Forwarder-For") = some val →
      Byte.nul ∉ val ∧ Byte.lf ∉ val := by
    intro val hval
    -- the other headers are as they were
    have hmem := OrderedMap.find?_eq_some_iff.mp hval
    exact ⟨(h.nulFree _ hmem).2, (h.headers _ hmem).2.2⟩
  -- the value of the line
  obtain ⟨forwarded, hheaders, hforwarded⟩ : ∃ forwarded,
      (Webserv.addForwarder clientIp r).headers =
        r.headers.insert (ascii "X-Forwarder-For") forwarded ∧
      Byte.nul ∉ forwarded ∧ Byte.lf ∉ forwarded := by
    refine ⟨_, rfl, ?_⟩
    cases hfind : r.headers.find? (ascii "X-Forwarder-For") with
    | none => exact ⟨hnul, hlf⟩
    | some val =>
      obtain ⟨hvalNul, hvalLf⟩ := hold val hfind
      have hcomma : Byte.nul ∉ ascii ", " ∧ Byte.lf ∉ ascii ", " := by decide
      rw [Option.getD_some]
      split_ifs
      · exact ⟨hnul, hlf⟩
      · simp [hnul, hlf, hvalNul, hvalLf, hcomma.1, hcomma.2]
  have hmem : ∀ header ∈ (Webserv.addForwarder clientIp r).headers.entries,
      header = (ascii "X-Forwarder-For", forwarded) ∨ header ∈ r.headers.entries := by
    rintro ⟨key, val⟩ hheader
    rw [hheaders, ← OrderedMap.find?_eq_some_iff, OrderedMap.find?_insert] at hheader
    split_ifs at hheader with hkey
    · cases hheader
      exact .inl (by rw [hkey])
    · exact .inr (OrderedMap.find?_eq_some_iff.mp hheader)
  have hkey : Byte.colon ∉ ascii "X-Forwarder-For" ∧ Byte.lf ∉ ascii "X-Forwarder-For" ∧
      Byte.nul ∉ ascii "X-Forwarder-For" := by decide
  refine ⟨h.line, h.line_good, fun header hheader => ?_, fun header hheader => ?_, ?_⟩
  · obtain rfl | hheader := hmem header hheader
    · exact ⟨hkey.1, hkey.2.1, hforwarded.2⟩
    · exact h.headers header hheader
  · obtain rfl | hheader := hmem header hheader
    · exact ⟨hkey.2.2, hforwarded.1⟩
    · exact h.nulFree header hheader
  · obtain ⟨hbodiless, hnil⟩ | ⟨hbodied, val, hfind, hval⟩ := h.body
    · exact .inl ⟨hbodiless, hnil⟩
    · refine .inr ⟨hbodied, val, ?_, hval⟩
      -- the length is under another name
      show (Webserv.addForwarder clientIp r).headers.find? (ascii "Content-Length") = some val
      rw [hheaders, OrderedMap.find?_insert, if_neg (by decide)]
      exact hfind

/-- A request without a NUL can be read again where it is passed on to. -/
theorem Codec.survives_addForwarder {s : Bytes} {r : Request}
    (h : requestFormat.outcome [s] = .entity (.ok r)) (hfree : requestCodec.NulFree s)
    {clientIp : Bytes} (hnul : Byte.nul ∉ clientIp) (hlf : Byte.lf ∉ clientIp) :
    requestCodec.Survives (addForwarder clientIp r) :=
  ((plain_of_outcome h hfree).addForwarder hnul hlf).survives

end Webserv.Http
