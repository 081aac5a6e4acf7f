import Webserv.Spec.FieldParsing
import Webserv.Spec.LineFraming

/-!
# What the lines of a header block come to

The lines of a block are read one after another: the first one by
`parse_first_header`, the others by `parse_header`.  There are five ways a
block can go, `HeadKind`, and one lemma for each says where it leaves a fresh
parser.

## Key results

- `headKind`: the five cases are all there are
- `readLines_of_fields`: well-formed header lines end up in the map
- `readLines_fresh_*`: the outcome in each of the cases
-/

namespace Webserv.Http

/-! ## Header lines -/

/-- A header line that is accepted: there is a byte behind its first colon. -/
def IsField (line : Bytes) : Prop :=
  ∃ key b val, line = key ++ Byte.colon :: b :: val ∧ Byte.colon ∉ key

/-- A header line whose first colon is its last byte. -/
def EndsAtColon (line : Bytes) : Prop :=
  ∃ key, line = key ++ [Byte.colon] ∧ Byte.colon ∉ key

/-- A line without a colon, a line that ends at its first colon, or a field. -/
theorem line_cases (line : Bytes) :
    IsField line ∨ EndsAtColon line ∨ Byte.colon ∉ line := by
  cases hcut : line.cutAt Byte.colon with
  | none => exact Or.inr (Or.inr (List.cutAt_eq_none_iff.mp hcut))
  | some kv =>
    obtain ⟨key, rest⟩ := kv
    obtain ⟨rfl, hkey⟩ := List.cutAt_eq_some_iff.mp hcut
    cases rest with
    -- nothing is behind the colon
    | nil => exact Or.inr (Or.inl ⟨key, rfl, hkey⟩)
    | cons b val => exact Or.inl ⟨key, b, val, rfl, hkey⟩

/-- A field has a colon. -/
theorem IsField.mem_colon {line : Bytes} (h : IsField line) : Byte.colon ∈ line := by
  obtain ⟨key, b, val, rfl, -⟩ := h
  simp

/-- Such a line has a colon. -/
theorem EndsAtColon.mem_colon {line : Bytes} (h : EndsAtColon line) : Byte.colon ∈ line := by
  obtain ⟨key, rfl, -⟩ := h
  simp

/-- A line is not of both kinds. -/
theorem IsField.not_endsAtColon {line : Bytes} (h : IsField line) : ¬ EndsAtColon line := by
  rintro ⟨key', heq, hkey'⟩
  obtain ⟨key, b, val, rfl, hkey⟩ := h
  have hcut := List.cutAt_append_cons (b :: val) hkey
  rw [heq, List.cutAt_append_cons [] hkey'] at hcut
  simp at hcut

/-- A header line entered into the map. -/
def addField (headers : Headers) (line : Bytes) : Headers :=
  match line.cutAt Byte.colon with
  | none => headers
  | some (key, rest) => headers.insert key rest.tail

/-- The map the header lines `hs` build. -/
def fieldsOf (hs : List Bytes) : Headers := hs.foldl addField ∅

namespace Parser

variable {F E : Type} {fmt : Format F E}

/-- A field is stored. -/
theorem handleLine_of_field {p : Parser F} {line : Bytes} (hp : p.firstLineHandled = true)
    (h : IsField line) :
    handleLine fmt p line = .ok (.pending, { p with headers := addField p.headers line }) := by
  obtain ⟨key, b, val, rfl, hkey⟩ := h
  simp [handleLine, hp, parseHeader_eq, addField, List.cutAt_append_cons _ hkey]

/-- A line that ends at its colon makes `substr` throw. -/
theorem handleLine_of_endsAtColon {p : Parser F} {line : Bytes} (hp : p.firstLineHandled = true)
    (h : EndsAtColon line) : handleLine fmt p line = .error .outOfRange := by
  obtain ⟨key, rfl, hkey⟩ := h
  simp [handleLine, hp, parseHeader_eq, List.cutAt_append_cons _ hkey]

/-- A line without a colon ends the reading with an error. -/
theorem handleLine_of_malformed {p : Parser F} {line : Bytes} (hp : p.firstLineHandled = true)
    (h : Byte.colon ∉ line) :
    handleLine fmt p line = .ok (.ready, { p with err := .error fmt.parseError }) := by
  simp [handleLine, hp, parseHeader_eq, List.cutAt_eq_none_iff.mpr h]

/-- Well-formed header lines end up in the map. -/
theorem readLines_of_fields {p : Parser F} {hs : List Bytes} (hp : p.firstLineHandled = true)
    (h : ∀ line ∈ hs, IsField line) :
    readLines fmt p hs = .ok (.pending, { p with headers := hs.foldl addField p.headers }) := by
  induction hs generalizing p with
  | nil => rfl
  | cons line hs ih =>
    have hline : handleLine fmt p line = _ :=
      handleLine_of_field hp (h line List.mem_cons_self)
    -- the later fields are added to this one
    have hrest := ih (p := { p with headers := addField p.headers line }) hp
      fun l hl => h l (List.mem_cons_of_mem _ hl)
    rw [readLines] at hrest ⊢
    simp only [Incremental.feed, hline, hrest, List.foldl_cons]

/-- Lines up to one that is not a field. -/
theorem readLines_of_bad {p : Parser F} {good more : List Bytes} {bad : Bytes}
    (hp : p.firstLineHandled = true) (hgood : ∀ line ∈ good, IsField line) :
    readLines fmt p (good ++ bad :: more) =
      readLines fmt { p with headers := good.foldl addField p.headers } (bad :: more) :=
  Incremental.feed_append_of_pending _ (readLines_of_fields hp hgood)

end Parser

/-! ## The ways a header block can go -/

variable {F E : Type}

/-- The first of the lines is accepted and leaves `first`; `hs` are the others. -/
def FirstLine (fmt : Format F E) (ls : List Bytes) (first : F) (hs : List Bytes) : Prop :=
  ∃ line, ls = line :: hs ∧ fmt.parseFirstHeader fmt.initial line = .ok (.ok (), first)

/-- The ways a header block can go, up to the first line that is not accepted. -/
inductive HeadKind (fmt : Format F E) (ls : List Bytes) : Prop where
  | empty (h : ls = [])
  | refused {line : Bytes} {e : Error} {first : F} (hs : List Bytes) (hls : ls = line :: hs)
      (hline : fmt.parseFirstHeader fmt.initial line = .ok (.error e, first))
  | fields {first : F} {hs : List Bytes} (hls : FirstLine fmt ls first hs)
      (hfields : ∀ line ∈ hs, IsField line)
  | endsAtColon {first : F} {good more : List Bytes} {bad : Bytes}
      (hls : FirstLine fmt ls first (good ++ bad :: more))
      (hgood : ∀ line ∈ good, IsField line) (hbad : EndsAtColon bad)
  | malformed {first : F} {good more : List Bytes} {bad : Bytes}
      (hls : FirstLine fmt ls first (good ++ bad :: more))
      (hgood : ∀ line ∈ good, IsField line) (hbad : Byte.colon ∉ bad)

/-- Fields up to the first line that is none. -/
theorem fields_or_split (hs : List Bytes) :
    (∀ line ∈ hs, IsField line) ∨ ∃ good bad more, hs = good ++ bad :: more ∧
      (∀ line ∈ good, IsField line) ∧ ¬ IsField bad := by
  induction hs with
  | nil => simp
  | cons line hs ih =>
    by_cases hline : IsField line
    · rcases ih with h | ⟨good, bad, more, rfl, hgood, hbad⟩
      · exact Or.inl (List.forall_mem_cons.mpr ⟨hline, h⟩)
      · exact Or.inr ⟨line :: good, bad, more, rfl, List.forall_mem_cons.mpr ⟨hline, hgood⟩, hbad⟩
    · exact Or.inr ⟨[], line, hs, rfl, by simp, hline⟩

/-- The five cases are all there are. -/
theorem headKind {fmt : Format F E} (hfmt : fmt.Lawful) (ls : List Bytes) : HeadKind fmt ls := by
  cases ls with
  | nil => exact .empty rfl
  | cons line hs =>
    obtain ⟨⟨r, first⟩, hline⟩ := hfmt.parseFirstHeader_total fmt.initial line
    cases r with
    | error e => exact .refused hs rfl hline
    | ok u =>
      have hfirst : FirstLine fmt (line :: hs) first hs := ⟨line, rfl, hline⟩
      -- the first line that is not a field decides
      rcases fields_or_split hs with hfields | ⟨good, bad, more, rfl, hgood, hbad⟩
      · exact .fields hfirst hfields
      · rcases line_cases bad with h | h | h
        · exact absurd h hbad
        · exact .endsAtColon hfirst hgood h
        · exact .malformed hfirst hgood h

/-! ## Where each of them leaves a fresh parser -/

namespace Parser

variable {fmt : Format F E}

/-- The parser once its first line is accepted. -/
def started (fmt : Format F E) (first : F) (headers : Headers) : Parser F :=
  { fresh fmt with firstLineHandled := true, first := first, headers := headers }

/-- Behind the first line the fields are read. -/
theorem readLines_fresh_of_firstLine {ls hs : List Bytes} {first : F}
    (h : FirstLine fmt ls first hs) :
    readLines fmt (fresh fmt) ls = readLines fmt (started fmt first ∅) hs := by
  obtain ⟨line, rfl, hline⟩ := h
  simp [readLines, Incremental.feed, handleLine, fresh, hline, started]

/-- A first line that is refused ends the reading. -/
theorem readLines_fresh_of_refused {line : Bytes} {e : Error} {first : F} (hs : List Bytes)
    (h : fmt.parseFirstHeader fmt.initial line = .ok (.error e, first)) :
    ∃ p, readLines fmt (fresh fmt) (line :: hs) = .ok (.ready, p) ∧ p.err = .error e := by
  refine ⟨{ fresh fmt with firstLineHandled := true, first := first, err := .error e }, ?_, rfl⟩
  simp [readLines, Incremental.feed, handleLine, fresh, h]

/-- A block of fields is read to its end. -/
theorem readLines_fresh_of_fields {ls hs : List Bytes} {first : F} (h : FirstLine fmt ls first hs)
    (hfields : ∀ line ∈ hs, IsField line) :
    readLines fmt (fresh fmt) ls = .ok (.pending, started fmt first (fieldsOf hs)) := by
  rw [readLines_fresh_of_firstLine h, readLines_of_fields rfl hfields]
  rfl

/-- Lines up to one that is not a field. -/
theorem readLines_fresh_of_bad {ls good more : List Bytes} {bad : Bytes} {first : F}
    (h : FirstLine fmt ls first (good ++ bad :: more)) (hgood : ∀ line ∈ good, IsField line) :
    readLines fmt (fresh fmt) ls =
      readLines fmt (started fmt first (fieldsOf good)) (bad :: more) := by
  rw [readLines_fresh_of_firstLine h, readLines_of_bad rfl hgood]
  rfl

/-- The fields in front of the line do not matter. -/
theorem readLines_fresh_of_endsAtColon {ls good more : List Bytes} {bad : Bytes} {first : F}
    (h : FirstLine fmt ls first (good ++ bad :: more)) (hgood : ∀ line ∈ good, IsField line)
    (hbad : EndsAtColon bad) : readLines fmt (fresh fmt) ls = .error .outOfRange := by
  rw [readLines_fresh_of_bad h hgood, readLines, Incremental.feed,
    handleLine_of_endsAtColon rfl hbad]

/-- Nor do they here. -/
theorem readLines_fresh_of_malformed {ls good more : List Bytes} {bad : Bytes} {first : F}
    (h : FirstLine fmt ls first (good ++ bad :: more)) (hgood : ∀ line ∈ good, IsField line)
    (hbad : Byte.colon ∉ bad) :
    ∃ p, readLines fmt (fresh fmt) ls = .ok (.ready, p) ∧ p.err = .error fmt.parseError := by
  rw [readLines_fresh_of_bad h hgood, readLines, Incremental.feed, handleLine_of_malformed rfl hbad]
  exact ⟨_, rfl, rfl⟩

/-- The lines are all accepted, or there are none. -/
theorem readLines_fresh_pending (hfmt : fmt.Lawful) {ls : List Bytes} {p : Parser F}
    (h : readLines fmt (fresh fmt) ls = .ok (.pending, p)) :
    (ls = [] ∧ p = fresh fmt) ∨
      ∃ first hs, FirstLine fmt ls first hs ∧ (∀ line ∈ hs, IsField line) ∧
        p = started fmt first (fieldsOf hs) := by
  cases headKind hfmt ls with
  | empty hls =>
    subst hls
    exact Or.inl ⟨rfl, by simpa [readLines] using h.symm⟩
  -- the other kinds of blocks do not leave the parser waiting
  | refused hs hls hline =>
    obtain ⟨q, hq, -⟩ := readLines_fresh_of_refused hs hline
    simp [hls, hq] at h
  | fields hls hfields =>
    rw [readLines_fresh_of_fields hls hfields] at h
    cases h
    exact Or.inr ⟨_, _, hls, hfields, rfl⟩
  | endsAtColon hls hgood hbad =>
    simp [readLines_fresh_of_endsAtColon hls hgood hbad] at h
  | malformed hls hgood hbad =>
    obtain ⟨q, hq, -⟩ := readLines_fresh_of_malformed hls hgood hbad
    simp [hq] at h

end Parser

end Webserv.Http
