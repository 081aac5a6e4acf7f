import Webserv.Spec.BodyLength

/-!
# Blanks behind the colon of a header

`parse_header` takes the value from the second byte behind the colon on.  With
one blank there that is the value; with more the others belong to the value,
and with none the value loses its first byte, or `substr` throws.

## Key results

- `find?_fieldsOf_fields`: what the header map holds under a name
- `call_of_fields`: what a call on a message with a complete block comes to
- `mapsNames_iff`: the spacings with which every name has its value
- `spacing_iff`: for `RequestParser` and for `ResponseParser`
-/

namespace Webserv.Http

variable {F E : Type} {fmt : Format F E}

/-! ## Headers with blanks -/

/-- A space or a tab. -/
def isBlank (c : UInt8) : Bool := c = Byte.space || c = Byte.tab

/-- A header and the blanks between its colon and its value. -/
structure SpacedField where
  name : Bytes
  spacing : Bytes
  value : Bytes
  name_plain : Byte.colon ∉ name ∧ Byte.lf ∉ name
  spacing_blank : ∀ c ∈ spacing, isBlank c = true
  value_plain : Byte.lf ∉ value
  value_trimmed : value.head?.any isBlank = false ∧ value.getLast?.any isBlank = false

namespace SpacedField

/-- The line of a header. -/
def line (f : SpacedField) : Bytes := f.name ++ Byte.colon :: (f.spacing ++ f.value)

/-- What `parse_header` makes the value. -/
def stored (f : SpacedField) : Bytes := (f.spacing ++ f.value).tail

/-- A header is one line. -/
theorem lf_not_mem_line (f : SpacedField) : Byte.lf ∉ f.line := by
  have hspacing : Byte.lf ∉ f.spacing := fun hmem =>
    absurd (f.spacing_blank _ hmem) (by decide)
  have hcolon : Byte.lf ≠ Byte.colon := by decide
  simp [line, f.name_plain.2, hcolon, hspacing, f.value_plain]

/-- Something is behind the colon, so the header is stored. -/
theorem fieldOf_line {f : SpacedField} (h : f.spacing ++ f.value ≠ []) :
    FieldOf f.line f.name f.stored := by
  obtain ⟨b, rest, hrest⟩ := List.exists_cons_of_ne_nil h
  exact ⟨b, by rw [line, stored, hrest, List.tail_cons], f.name_plain.1⟩

/-- Nothing is behind the colon. -/
theorem endsAtColon_line {f : SpacedField} (h : f.spacing ++ f.value = []) :
    EndsAtColon f.line :=
  ⟨f.name, by rw [line, h], f.name_plain.1⟩

/-- One byte is skipped, whatever it is. -/
theorem stored_eq_iff {f : SpacedField} (h : f.spacing ++ f.value ≠ []) :
    f.stored = f.value ↔ f.spacing.length = 1 := by
  constructor
  · intro heq
    -- one character is cut off, which has to be all of the blanks
    have hlen := congrArg List.length heq
    have hpos := List.length_pos_iff.mpr h
    rw [stored, List.length_tail] at hlen
    rw [List.length_append] at hlen hpos
    omega
  · intro hone
    obtain ⟨c, hc⟩ := List.length_eq_one_iff.mp hone
    rw [stored, hc, List.singleton_append, List.tail_cons]

end SpacedField

/-- The last header with a name. -/
def lastField (name : Bytes) (fields : List SpacedField) : Option SpacedField :=
  fields.reverse.find? fun f => f.name = name

/-- Each name is mapped to the value of the last header that has it. -/
def MapsNames (headers : Headers) (fields : List SpacedField) : Prop :=
  ∀ name, headers.find? name = (lastField name fields).map SpacedField.value

/-- What the header map holds under a name. -/
theorem find?_fieldsOf_fields {fields : List SpacedField}
    (h : ∀ f ∈ fields, f.spacing ++ f.value ≠ []) (name : Bytes) :
    (fieldsOf (fields.map SpacedField.line)).find? name =
      (lastField name fields).map SpacedField.stored := by
  -- from the end, where the header that counts stands
  induction fields using List.reverseRecOn with
  | nil => rfl
  | append_singleton fields f ih =>
    have hfield := SpacedField.fieldOf_line (h f (by simp))
    rw [List.map_append, List.map_singleton, find?_fieldsOf_concat _ hfield, lastField,
      List.reverse_append, List.reverse_singleton, List.singleton_append, List.find?_cons]
    -- the last header counts if it has the name
    by_cases hname : name = f.name
    · rw [if_pos hname, decide_eq_true hname.symm]
      rfl
    · rw [if_neg hname, decide_eq_false (Ne.symm hname)]
      exact ih fun g hg => h g (by simp [hg])

/-- It is one of the fields, and has the name. -/
theorem mem_of_lastField {name : Bytes} {fields : List SpacedField} {f : SpacedField}
    (h : lastField name fields = some f) : f ∈ fields ∧ f.name = name :=
  ⟨List.mem_reverse.mp (List.mem_of_find?_eq_some h), by simpa using List.find?_some h⟩

/-- The map is right exactly when every header that counts has one blank. -/
theorem mapsNames_fieldsOf {fields : List SpacedField}
    (h : ∀ f ∈ fields, f.spacing ++ f.value ≠ []) :
    MapsNames (fieldsOf (fields.map SpacedField.line)) fields ↔
      ∀ f, lastField f.name fields = some f → f.spacing.length = 1 := by
  constructor
  · intro hmaps f hlast
    have hstored := hmaps f.name
    rw [find?_fieldsOf_fields h, hlast] at hstored
    exact (SpacedField.stored_eq_iff (h f (mem_of_lastField hlast).1)).mp
      (Option.some.inj hstored)
  · intro hone name
    rw [find?_fieldsOf_fields h]
    cases hlast : lastField name fields with
    -- no header has the name
    | none => rfl
    | some f =>
      obtain ⟨hmem, rfl⟩ := mem_of_lastField hlast
      exact congrArg some ((SpacedField.stored_eq_iff (h f hmem)).mpr (hone f hlast))

/-! ## A call on the whole message -/

/-- There is no body to wait for, or its length can be read from the map. -/
def BodyKnown (fmt : Format F E) (first : F) (headers : Headers) : Prop :=
  fmt.bodiless first = true ∨ ∃ val n,
    headers.find? (ascii "Content-Length") = some val ∧ stoul val = .ok n

/-- A message in one chunk is one read of its body. -/
theorem operatorCall_blockText {first : F} {ls hs : List Bytes} (hls : FirstLine fmt ls first hs)
    (hlines : ∀ l ∈ ls, l ≠ [] ∧ Byte.lf ∉ l) (hfields : ∀ l ∈ hs, IsField l) (body : Bytes) :
    Parser.operatorCall fmt (.fresh fmt) (blockText ls ++ body) =
      Parser.readBody fmt { Parser.started fmt first (fieldsOf hs) with state := .bodyRead }
        body 0 := by
  have hread := Parser.readLines_fresh_of_fields hls hfields
  obtain ⟨line, rfl, -⟩ := hls
  have hhead := head?_blockText hs body (hlines line List.mem_cons_self)
  rw [Parser.operatorCall_fresh, if_neg hhead, frame_blockText hlines, Parser.readFrame, hread]

/-- What that comes to: the map is the one the lines build. -/
theorem readBody_started_iff {first : F} {hs : List Bytes} (body : Bytes) {P : Headers → Prop} :
    (∃ st p, Parser.readBody fmt
        { Parser.started fmt first (fieldsOf hs) with state := .bodyRead } body 0 = .ok (st, p) ∧
      P p.headers) ↔ BodyKnown fmt first (fieldsOf hs) ∧ P (fieldsOf hs) := by
  rw [BodyKnown]
  cases hbodied : fmt.bodiless first with
  | true =>
    -- the body is not looked at
    have hread := Parser.readBody_of_bodiless
      (p := { Parser.started fmt first (fieldsOf hs) with state := .bodyRead }) hbodied body
    rw [hread]
    simp [Parser.started]
  | false =>
    cases hfind : (fieldsOf hs).find? (ascii "Content-Length") with
    | none =>
      -- without a length the call throws
      rw [Parser.readBody_started_of_none body hbodied (by simp [hfind])]
      simp
    | some val =>
      have hread := Parser.readBody_of_value
        (p := { Parser.started fmt first (fieldsOf hs) with state := .bodyRead }) rfl rfl hbodied
        hfind body
      rw [hread]
      cases hval : stoul val with
      | error e => simp [hval]
      | ok n =>
        dsimp only
        split
        · simp [Parser.started, hval]
        · simp [Parser.started, hval]

/-! ## Messages with blanks -/

/-- The message with these headers, the first line and the body. -/
def spacedMessage (line : Bytes) (fields : List SpacedField) (body : Bytes) : Bytes :=
  blockText (line :: fields.map SpacedField.line) ++ body

/-- A call on the message in one chunk returns, and each name has its value. -/
def ReadsSpaced (fmt : Format F E) (line : Bytes) (fields : List SpacedField) (body : Bytes) :
    Prop :=
  ∃ st p, Parser.operatorCall fmt (.fresh fmt) (spacedMessage line fields body) = .ok (st, p) ∧
    MapsNames p.headers fields

/-- Something stands behind every colon, one blank behind those of the headers that
    count, and the length of the body is known. -/
structure WellSpaced (fmt : Format F E) (first : F) (fields : List SpacedField) : Prop where
  behind : ∀ f ∈ fields, f.spacing ++ f.value ≠ []
  one : ∀ f, lastField f.name fields = some f → f.spacing.length = 1
  body : fmt.bodiless first = true ∨ ∃ f n,
    lastField (ascii "Content-Length") fields = some f ∧ stoul f.value = .ok n

/-- If every name has its value, so has the length. -/
theorem MapsNames.bodyKnown_iff {headers : Headers} {fields : List SpacedField} {first : F}
    (h : MapsNames headers fields) : BodyKnown fmt first headers ↔
      fmt.bodiless first = true ∨ ∃ f n,
        lastField (ascii "Content-Length") fields = some f ∧ stoul f.value = .ok n := by
  rw [BodyKnown, h (ascii "Content-Length")]
  cases lastField (ascii "Content-Length") fields with
  | none => simp
  | some f => simp

/-- The spacings with which every name has its value. -/
theorem mapsNames_iff (hfmt : fmt.Lawful) {line : Bytes} {first : F} (fields : List SpacedField)
    (body : Bytes) (hline : fmt.parseFirstHeader fmt.initial line = .ok (.ok (), first))
    (hplain : line ≠ [] ∧ Byte.lf ∉ line) :
    ReadsSpaced fmt line fields body ↔ WellSpaced fmt first fields := by
  have hls : FirstLine fmt (line :: fields.map SpacedField.line) first
      (fields.map SpacedField.line) := ⟨line, rfl, hline⟩
  have hlines : ∀ l ∈ line :: fields.map SpacedField.line, l ≠ [] ∧ Byte.lf ∉ l := by
    refine List.forall_mem_cons.mpr ⟨hplain, List.forall_mem_map.mpr fun f _ => ⟨?_, ?_⟩⟩
    · simp [SpacedField.line]
    · exact f.lf_not_mem_line
  by_cases hsome : ∀ f ∈ fields, f.spacing ++ f.value ≠ []
  · -- all lines are header fields, and the map is the one they build
    have hfields : ∀ l ∈ fields.map SpacedField.line, IsField l :=
      List.forall_mem_map.mpr fun f hf =>
        isField_iff.mpr ⟨f.name, f.stored, SpacedField.fieldOf_line (hsome f hf)⟩
    rw [ReadsSpaced, spacedMessage, operatorCall_blockText hls hlines hfields]
    refine (readBody_started_iff body (P := fun headers => MapsNames headers fields)).trans ?_
    constructor
    · rintro ⟨hbody, hmaps⟩
      exact ⟨hsome, (mapsNames_fieldsOf hsome).mp hmaps, hmaps.bodyKnown_iff.mp hbody⟩
    · intro h
      have hmaps := (mapsNames_fieldsOf hsome).mpr h.one
      exact ⟨hmaps.bodyKnown_iff.mpr h.body, hmaps⟩
  · -- a colon at the end of a line
    refine ⟨fun hreads => ?_, fun h => absurd h.behind hsome⟩
    exfalso
    simp only [not_forall, not_not] at hsome
    obtain ⟨f, hf, hbare⟩ := hsome
    -- the lines in front of it have a colon, too
    have hbareField : ¬ NoBareField fmt (line :: fields.map SpacedField.line) := by
      intro hno
      have hcolon : ∀ l ∈ fields.map SpacedField.line, l.contains Byte.colon = true :=
        List.forall_mem_map.mpr fun g _ => by simp [SpacedField.line]
      refine hno first _ hls f.line ?_ (SpacedField.endsAtColon_line hbare)
      rw [List.takeWhile_eq_self_iff.mpr hcolon]
      exact List.mem_map_of_mem hf
    obtain ⟨st, p, hcall, -⟩ := hreads
    -- `substr` is asked for more than there is, and the call throws
    have hhead := head?_blockText (fields.map SpacedField.line) body hplain
    rw [spacedMessage, Parser.operatorCall_fresh, if_neg hhead, frame_blockText hlines] at hcall
    obtain ⟨flt, hfault⟩ := Parser.readFrame_fault hfmt (f :=
      (line :: fields.map SpacedField.line, .body body)) (.inl hbareField)
    rw [hfault] at hcall
    cases hcall

/-! ## The two parsers -/

/-- The spacing does not matter exactly when it is the one blank that is skipped. -/
theorem spacing_iff (line : Bytes) (hlf : Byte.lf ∉ line) (fields : List SpacedField)
    (body : Bytes) :
    (∀ first, RequestParser.parseFirstHeader {} line = .ok (.ok (), first) →
      (ReadsSpaced requestFormat line fields body ↔ WellSpaced requestFormat first fields)) ∧
    ∀ first, ResponseParser.parseFirstHeader {} line = .ok (.ok (), first) →
      (ReadsSpaced responseFormat line fields body ↔ WellSpaced responseFormat first fields) := by
  constructor
  · intro first hline
    refine mapsNames_iff requestFormat_lawful fields body hline ⟨?_, hlf⟩
    rintro rfl
    cases hline
  · intro first hline
    refine mapsNames_iff responseFormat_lawful fields body hline ⟨?_, hlf⟩
    rintro rfl
    cases hline

/-- A header without a blank behind its colon. -/
def unspacedHost : SpacedField where
  name := ascii "Host"
  spacing := []
  value := ascii "a"
  name_plain := by decide
  spacing_blank := by decide +kernel
  value_plain := by decide
  value_trimmed := by decide

/-- A header with one tab behind its colon. -/
def tabbedLength : SpacedField where
  name := ascii "Content-Length"
  spacing := [Byte.tab]
  value := ascii "0"
  name_plain := by decide
  spacing_blank := by decide +kernel
  value_plain := by decide
  value_trimmed := by decide

/-- A name without a blank in front of its value, and one with a tab. -/
theorem spacing_iff_messages :
    ¬ ReadsSpaced requestFormat (ascii "GET / HTTP/1.1") [unspacedHost] [] ∧
      ReadsSpaced responseFormat (ascii "HTTP/1.1 200 OK") [tabbedLength] [] := by
  constructor
  · rw [(spacing_iff (ascii "GET / HTTP/1.1") (by decide) [unspacedHost] []).1
      ⟨ascii "GET", ascii "/", ascii "HTTP/1.1"⟩ (by decide +kernel)]
    -- the first value has no blank in front
    intro h
    exact absurd (h.one unspacedHost rfl) (by decide)
  · rw [(spacing_iff (ascii "HTTP/1.1 200 OK") (by decide) [tabbedLength] []).2
      ⟨ascii "HTTP/1.1", some ⟨200, by decide, by decide⟩, ascii "OK"⟩ (by decide +kernel)]
    -- a tab is skipped as one character, like a blank
    refine ⟨?_, ?_, .inr ⟨tabbedLength, 0, rfl, by decide⟩⟩
    · intro f hf
      rw [List.mem_singleton.mp hf]
      decide
    · intro f hlast
      rw [List.mem_singleton.mp (mem_of_lastField hlast).1]
      rfl

/-- The value `a` is stored as the empty string, so a server of that name is not found. -/
theorem spacing_false :
    ¬ ∀ (line : Bytes) (first : RequestLine) (fields : List SpacedField) (body : Bytes),
        Byte.lf ∉ line → RequestParser.parseFirstHeader {} line = .ok (.ok (), first) →
        first.method = ascii "GET" → ReadsSpaced requestFormat line fields body := by
  intro h
  have hline : RequestParser.parseFirstHeader {} (ascii "GET / HTTP/1.1") =
      .ok (.ok (), ⟨ascii "GET", ascii "/", ascii "HTTP/1.1"⟩) := by decide +kernel
  have hreads := h _ _ [unspacedHost] [] (by decide) hline rfl
  have hiff : ReadsSpaced requestFormat (ascii "GET / HTTP/1.1") [unspacedHost] [] ↔
      WellSpaced requestFormat ⟨ascii "GET", ascii "/", ascii "HTTP/1.1"⟩ [unspacedHost] :=
    mapsNames_iff requestFormat_lawful _ _ hline (by decide)
  exact absurd ((hiff.mp hreads).one unspacedHost rfl) (by decide)

end Webserv.Http
