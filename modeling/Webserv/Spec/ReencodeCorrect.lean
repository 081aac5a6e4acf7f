import Webserv.Spec.ParserFaults
import Webserv.Spec.SerializerCorrect

/-!
# What the parser accepted, serialized and parsed again

A proxied message is parsed, printed and parsed by someone else.  The
serializers print through C strings, so everything behind a NUL is lost; the
parsers accept NULs.  `Codec` joins a parser and its serializer, and
`Codec.outcome_new_iff` says when an accepted message comes out of the second
parser unchanged: when no NUL got into a member that is printed.

## Key results

- `headers_eq_blockText`: the text of the serializers, NULs or not
- `nulFreeFields_iff`: which header lines put no NUL into the map
- `Codec.outcome_new_iff`: decoding again, for any codec
- `reencode_iff`: for `RequestParser` and for `ResponseParser`
-/

namespace Webserv.Http

/-! ## The lines of a block -/

/-- No line of a block is empty, and none holds a line feed. -/
theorem frame_lines {s : Bytes} {ls : List Bytes} {t : Tail} (h : frame [] s = (ls, t)) :
    ∀ line ∈ ls, line ≠ [] ∧ Byte.lf ∉ line := by
  induction hn : s.length using Nat.strong_induction_on generalizing s ls with
  | _ n ih =>
  cases hsplit : splitLine s with
  | none =>
    rw [frame_of_none hsplit] at h
    cases h
    simp
  | some lr =>
    obtain ⟨line, rest⟩ := lr
    by_cases hline : ([] : Bytes) ++ line = []
    · rw [frame_of_empty hsplit hline] at h
      cases h
      simp
    · rw [frame_of_line hsplit hline] at h
      cases h
      have hlt := length_lt_of_splitLine hsplit
      refine List.forall_mem_cons.mpr ⟨⟨hline, ?_⟩, ih _ (by omega) (s := rest) rfl rfl⟩
      -- what stands before the first line feed, but for a CR
      simp only [splitLine, Option.map_eq_some_iff] at hsplit
      obtain ⟨⟨l, r⟩, hcut, heq⟩ := hsplit
      obtain ⟨-, hlf⟩ := List.cutAt_eq_some_iff.mp hcut
      rw [List.nil_append]
      dsimp only at heq
      split at heq
      · cases heq
        exact fun hmem => hlf (List.dropLast_subset l hmem)
      · cases heq
        exact hlf

/-! ## Printing through C strings -/

/-- A C string has no NUL. -/
theorem nul_not_mem_cStr (s : Bytes) : Byte.nul ∉ cStr s := by
  intro h
  simpa using List.mem_takeWhile_imp h

/-- A C string is the start of the string. -/
theorem cStr_subset (s : Bytes) : cStr s ⊆ s := List.takeWhile_subset _

/-- A printed header is a line. -/
theorem cField_good {header : Bytes × Bytes} (hname : Byte.lf ∉ header.1)
    (hvalue : Byte.lf ∉ header.2) : cField header ≠ [] ∧ Byte.lf ∉ cField header := by
  have hcolon : Byte.lf ≠ Byte.colon := by decide
  have hspace : Byte.lf ≠ Byte.space := by decide
  refine ⟨by simp [cField, fieldLine], ?_⟩
  simp [cField, fieldLine, hcolon, hspace, mt (@cStr_subset header.1 _) hname,
    mt (@cStr_subset header.2 _) hvalue]

/-- A line is printed up to its NULs. -/
theorem nul_not_mem_cField (header : Bytes × Bytes) : Byte.nul ∉ cField header := by
  have hcolon : Byte.nul ≠ Byte.colon := by decide
  have hspace : Byte.nul ≠ Byte.space := by decide
  simp [cField, fieldLine, nul_not_mem_cStr, hcolon, hspace]

/-- The text of both serializers: a first line, the headers and the empty line. -/
theorem headers_eq_blockText (line : Bytes) (headers : Headers) :
    backInserter (headers.entries.foldl insertHeader (backInserter line (ascii "\r\n")))
      (ascii "\r\n") = blockText (line :: headers.entries.map cField) := by
  rw [backInserter_crlf, backInserter_crlf, foldl_insertHeader_cField]
  simp [blockText]

/-! ## The map of a header block -/

/-- A header line with this key and this value, and a byte between them. -/
def FieldOf (line key val : Bytes) : Prop :=
  ∃ b, line = key ++ Byte.colon :: b :: val ∧ Byte.colon ∉ key

/-- A field has a name and a value. -/
theorem isField_iff {line : Bytes} : IsField line ↔ ∃ key val, FieldOf line key val := by
  constructor
  · rintro ⟨key, b, val, h⟩
    exact ⟨key, val, b, h⟩
  · rintro ⟨key, val, b, h⟩
    exact ⟨key, b, val, h⟩

/-- A field is stored under its name. -/
theorem FieldOf.addField {line key val : Bytes} (h : FieldOf line key val) (headers : Headers) :
    addField headers line = headers.insert key val := by
  obtain ⟨b, rfl, hkey⟩ := h
  rw [Http.addField, List.cutAt_append_cons _ hkey]
  rfl

/-- A line has one key and one value. -/
theorem FieldOf.unique {line key val key' val' : Bytes} (h : FieldOf line key val)
    (h' : FieldOf line key' val') : key = key' ∧ val = val' := by
  obtain ⟨b, rfl, hkey⟩ := h
  obtain ⟨b', heq, hkey'⟩ := h'
  have hcut := List.cutAt_append_cons (b :: val) hkey
  rw [heq, List.cutAt_append_cons (b' :: val') hkey'] at hcut
  simp only [Option.some.injEq, Prod.mk.injEq, List.cons.injEq] at hcut
  exact ⟨hcut.1.symm, hcut.2.2.symm⟩

/-- The last line is stored last. -/
theorem find?_fieldsOf_concat (hs : List Bytes) {line key val : Bytes} (h : FieldOf line key val)
    (k : Bytes) : (fieldsOf (hs ++ [line])).find? k =
      if k = key then some val else (fieldsOf hs).find? k := by
  rw [fieldsOf, List.foldl_append, List.foldl_cons, List.foldl_nil, h.addField,
    OrderedMap.find?_insert]
  by_cases hk : k = key
  · rw [if_pos hk, if_pos hk]
  · rw [if_neg hk, if_neg hk]
    rfl

/-- The map holds the value of the last line with a key. -/
theorem find?_fieldsOf {hs : List Bytes} (h : ∀ line ∈ hs, IsField line) {key val : Bytes} :
    (fieldsOf hs).find? key = some val ↔
      ∃ pre line post, hs = pre ++ line :: post ∧ FieldOf line key val ∧
        ∀ line' ∈ post, ∀ val', ¬ FieldOf line' key val' := by
  induction hs using List.reverseRecOn with
  | nil => simp [fieldsOf]
  | append_singleton hs last ih =>
    obtain ⟨key', val', hlast⟩ := isField_iff.mp (h last (by simp))
    rw [find?_fieldsOf_concat hs hlast, List.exists_split_concat]
    by_cases hkey : key = key'
    · -- the last line is the one
      subst hkey
      rw [if_pos rfl, Option.some.injEq]
      constructor
      · rintro rfl
        exact Or.inr ⟨hlast, by simp⟩
      · rintro (⟨pre, line, post, -, -, hpost⟩ | ⟨hline, -⟩)
        · exact absurd hlast (hpost last (by simp) val')
        · exact (hlast.unique hline).2
    · rw [if_neg hkey, ih fun line hline => h line (by simp [hline])]
      constructor
      · rintro ⟨pre, line, post, rfl, hline, hpost⟩
        -- the last line has another name
        refine Or.inl ⟨pre, line, post, rfl, hline, fun line' hline' val'' hfield => ?_⟩
        rcases List.mem_append.mp hline' with hmem | hmem
        · exact hpost line' hmem val'' hfield
        · rw [List.mem_singleton.mp hmem] at hfield
          exact hkey (hfield.unique hlast).1
      · rintro (⟨pre, line, post, hsplit, hline, hpost⟩ | ⟨hline, -⟩)
        · exact ⟨pre, line, post, hsplit, hline, fun line' hmem => hpost line' (by simp [hmem])⟩
        · exact absurd (hline.unique hlast).1 hkey

/-- A key that some line has is in the map. -/
theorem exists_find?_fieldsOf {hs : List Bytes} (h : ∀ line ∈ hs, IsField line)
    {line key val : Bytes} (hline : line ∈ hs) (hfield : FieldOf line key val) :
    ∃ val', (fieldsOf hs).find? key = some val' := by
  induction hs using List.reverseRecOn with
  | nil => simp at hline
  | append_singleton hs last ih =>
    obtain ⟨key', val', hlast⟩ := isField_iff.mp (h last (by simp))
    rw [find?_fieldsOf_concat hs hlast]
    by_cases hkey : key = key'
    · exact ⟨val', if_pos hkey⟩
    · rw [if_neg hkey]
      rcases List.mem_append.mp hline with hmem | hmem
      · exact ih (fun l hl => h l (by simp [hl])) hmem
      · rw [List.mem_singleton.mp hmem] at hfield
        -- the last line has this name
        exact absurd (hfield.unique hlast).1 hkey

/-- No NUL gets into the map: none stands in a key, and none in a value unless a
    later line has the same key.  The byte behind the colon may be any. -/
def NulFreeFields (hs : List Bytes) : Prop :=
  ∀ pre line post key val, hs = pre ++ line :: post → FieldOf line key val →
    Byte.nul ∉ key ∧ (Byte.nul ∈ val → ∃ line' ∈ post, ∃ val', FieldOf line' key val')

/-- No NUL in the names and values of a map. -/
def Headers.NulFree (headers : Headers) : Prop :=
  ∀ header ∈ headers.entries, Byte.nul ∉ header.1 ∧ Byte.nul ∉ header.2

/-- It is the map that has to be free of NULs, not the lines that are overwritten. -/
theorem nulFreeFields_iff {hs : List Bytes} (h : ∀ line ∈ hs, IsField line) :
    NulFreeFields hs ↔ Headers.NulFree (fieldsOf hs) := by
  constructor
  · rintro hfree ⟨key, val⟩ hmem
    -- what the map holds comes from the last line of the name
    obtain ⟨pre, line, post, hsplit, hfield, hpost⟩ :=
      (find?_fieldsOf h).mp (OrderedMap.find?_eq_some_iff.mpr hmem)
    obtain ⟨hkey, hval⟩ := hfree pre line post key val hsplit hfield
    refine ⟨hkey, fun hnul => ?_⟩
    obtain ⟨line', hline', val', hfield'⟩ := hval hnul
    exact hpost line' hline' val' hfield'
  · intro hfree pre line post key val hsplit hfield
    have hline : line ∈ hs := by simp [hsplit]
    obtain ⟨val', hfind⟩ := exists_find?_fieldsOf h hline hfield
    refine ⟨(hfree _ (OrderedMap.find?_eq_some_iff.mp hfind)).1, fun hnul => ?_⟩
    -- without a later line the value would be in the map
    by_contra hnone
    have hlast : (fieldsOf hs).find? key = some val :=
      (find?_fieldsOf h).mpr ⟨pre, line, post, hsplit, hfield, fun line' hline' val' hfield' =>
        hnone ⟨line', hline', val', hfield'⟩⟩
    exact (hfree _ (OrderedMap.find?_eq_some_iff.mp hlast)).2 hnul

/-- Lines without a NUL build a map without a NUL. -/
theorem nulFree_fieldsOf {hs : List Bytes} (h : ∀ line ∈ hs, IsField line)
    (hnul : ∀ line ∈ hs, Byte.nul ∉ line) : Headers.NulFree (fieldsOf hs) := by
  rw [← nulFreeFields_iff h]
  rintro pre line post key val rfl ⟨b, rfl, -⟩
  have hline := hnul _ (List.mem_append_right pre List.mem_cons_self)
  simp only [List.mem_append, List.mem_cons, not_or] at hline
  exact ⟨hline.1, fun hval => absurd hval hline.2.2.2⟩

/-- The names in a map of header lines have no colon, and nothing in it has a
    line feed. -/
theorem entries_fieldsOf {hs : List Bytes} (h : ∀ line ∈ hs, IsField line)
    (hlf : ∀ line ∈ hs, Byte.lf ∉ line) :
    ∀ header ∈ (fieldsOf hs).entries,
      Byte.colon ∉ header.1 ∧ Byte.lf ∉ header.1 ∧ Byte.lf ∉ header.2 := by
  rintro ⟨key, val⟩ hmem
  obtain ⟨pre, line, post, hsplit, ⟨b, rfl, hkey⟩, -⟩ :=
    (find?_fieldsOf h).mp (OrderedMap.find?_eq_some_iff.mpr hmem)
  have hline := hlf (key ++ Byte.colon :: b :: val) (by simp [hsplit])
  simp only [List.mem_append, List.mem_cons, not_or] at hline
  exact ⟨hkey, hline.1, hline.2.2.2⟩

/-! ## A parser with its serializer -/

variable {F E : Type} {fmt : Format F E}

/-- An accepted message: its lines are a first line and header fields, and its
    members are read from them. -/
theorem Format.outcome_ok (hfmt : fmt.Lawful) {s : Bytes} {e : E}
    (h : fmt.outcome [s] = .entity (.ok e)) :
    ∃ line hs rest, ∃ p : Parser F, frame [] s = (line :: hs, .body rest) ∧
      fmt.parseFirstHeader fmt.initial line = .ok (.ok (), p.first) ∧
      (∀ l ∈ hs, IsField l) ∧ p.headers = fieldsOf hs ∧
      ((fmt.bodiless p.first = true ∧ p.body = []) ∨
        (fmt.bodiless p.first = false ∧ ∃ val,
          p.headers.find? (ascii "Content-Length") = some val ∧ stoul val = .ok p.body.length)) ∧
      p.err = .ok () ∧ fmt.createEntity p = .ok (.ok e) := by
  rw [Format.outcome, Parser.feedChunks, Incremental.feed_singleton,
    Parser.operatorCall_fresh] at h
  split at h
  · simp [Format.conclude] at h
  · generalize hframe : frame [] s = f at h
    obtain ⟨ls, t⟩ := f
    -- an error that is recorded is the outcome
    have herror : ∀ {p : Parser F} {e' : Error}, p.err = .error e' →
        fmt.conclude (.ok (.ready, p)) ≠ .entity (.ok e) := by
      intro p e' herr
      simp [Format.conclude, hfmt.createEntity_err p e' herr]
    -- every other way the block can go ends without an entity
    cases headKind hfmt ls with
    | empty hls =>
      subst hls
      cases t with
      | unfinished u => simp [Parser.readFrame, Parser.readLines, Format.conclude] at h
      | body rest =>
        simp only [Parser.readFrame, Parser.readLines, Incremental.feed_nil,
          Parser.readBody_fresh hfmt] at h
        simp [Format.conclude] at h
    | refused hs hls hline =>
      obtain ⟨p, hread, herr⟩ := Parser.readLines_fresh_of_refused hs hline
      simp only [Parser.readFrame, hls, hread] at h
      exact absurd h (herror herr)
    -- an exception is no entity
    | endsAtColon hls hgood hbad =>
      simp [Parser.readFrame, Parser.readLines_fresh_of_endsAtColon hls hgood hbad,
        Format.conclude] at h
    | malformed hls hgood hbad =>
      obtain ⟨p, hread, herr⟩ := Parser.readLines_fresh_of_malformed hls hgood hbad
      simp only [Parser.readFrame, hread] at h
      exact absurd h (herror herr)
    | @fields first hs hls hfields =>
      simp only [Parser.readFrame, Parser.readLines_fresh_of_fields hls hfields] at h
      obtain ⟨line, rfl, hline⟩ := hls
      cases t with
      | unfinished u => simp [Format.conclude] at h
      | body rest =>
        dsimp only at h
        -- READY comes to what `create_entity` returns
        have hconclude : ∀ p : Parser F, fmt.conclude (.ok (.ready, p)) = .entity (.ok e) →
            fmt.createEntity p = .ok (.ok e) := by
          intro p hp
          simp only [Format.conclude] at hp
          cases hentity : fmt.createEntity p with
          | error f => simp [hentity] at hp
          | ok result =>
            simp only [hentity, Outcome.entity.injEq] at hp
            rw [hp]
        cases hbodied : fmt.bodiless first with
        | true =>
          have hread := Parser.readBody_of_bodiless
            (p := { Parser.started fmt first (fieldsOf hs) with state := .bodyRead }) hbodied rest
          rw [hread] at h
          exact ⟨line, hs, rest, _, rfl, hline, hfields, rfl, Or.inl ⟨hbodied, rfl⟩, rfl,
            hconclude _ h⟩
        | false =>
          by_cases hlength : ∃ val n, (fieldsOf hs).find? (ascii "Content-Length") = some val ∧
              stoul val = .ok n
          · obtain ⟨val, n, hfind, hval⟩ := hlength
            rw [Parser.readBody_started rest hbodied hfind hval] at h
            split at h
            · rename_i hle
              refine ⟨line, hs, rest, _, rfl, hline, hfields, rfl,
                Or.inr ⟨hbodied, val, hfind, ?_⟩, rfl, hconclude _ h⟩
              rw [hval, List.length_take_of_le hle]
            · simp [Format.conclude] at h
          · rw [Parser.readBody_started_of_none rest hbodied fun val n hfind hval =>
              hlength ⟨val, n, hfind, hval⟩] at h
            simp [Format.conclude] at h

/-- A parser and the serializer of its entities. -/
structure Codec (fmt : Format F E) where
  lawful : fmt.Lawful
  new : E → Serializer
  /-- The members of a parser that make up an entity. -/
  members : E → F × Headers × Bytes
  /-- The first line as the serializer prints it. -/
  cLine : F → Bytes
  /-- A first line none of whose printed parts has a NUL. -/
  PlainLine : Bytes → Prop
  createEntity_iff : ∀ p e, fmt.createEntity p = .ok (.ok e) ↔
    p.err = .ok () ∧ members e = (p.first, p.headers, p.body)
  state_new : ∀ e, (new e).state = .headers
  headers_new : ∀ e, (new e).headers =
    blockText (cLine (members e).1 :: (members e).2.1.entries.map cField)
  body_new : ∀ e, (new e).body = (members e).2.2
  nul_not_mem_cLine : ∀ first, Byte.nul ∉ cLine first
  cLine_good : ∀ line first, fmt.parseFirstHeader fmt.initial line = .ok (.ok (), first) →
    Byte.lf ∉ line → cLine first ≠ [] ∧ Byte.lf ∉ cLine first
  /-- A plain first line is read back. -/
  parse_cLine : ∀ line first, fmt.parseFirstHeader fmt.initial line = .ok (.ok (), first) →
    PlainLine line → fmt.parseFirstHeader fmt.initial (cLine first) = .ok (.ok (), first)
  /-- Two lines that are read alike are both plain or both not. -/
  plainLine_congr : ∀ line line' first,
    fmt.parseFirstHeader fmt.initial line = .ok (.ok (), first) →
    fmt.parseFirstHeader fmt.initial line' = .ok (.ok (), first) → PlainLine line' → PlainLine line
  plainLine_of_not_mem : ∀ line, Byte.nul ∉ line → PlainLine line

namespace Codec

variable (c : Codec fmt)

/-- No NUL of `s` gets into a member that is printed. -/
def NulFree (s : Bytes) : Prop :=
  ∀ line hs, (frame [] s).1 = line :: hs → c.PlainLine line ∧ NulFreeFields hs

/-- The bytes are the block, printed through C strings, and the body. -/
theorem bytes_new (e : E) : (c.new e).bytes =
    blockText (c.cLine (c.members e).1 :: (c.members e).2.1.entries.map cField) ++
      (c.members e).2.2 := by
  rw [Serializer.bytes_eq (c.state_new e), c.headers_new, c.body_new]

/-- Decoding again gives the accepted message exactly when no NUL got into it. -/
theorem outcome_new_iff {s : Bytes} {e : E} (h : fmt.outcome [s] = .entity (.ok e)) :
    fmt.outcome [(c.new e).bytes] = .entity (.ok e) ↔ c.NulFree s := by
  obtain ⟨line, hs, rest, p, hframe, hline, hfields, hheaders, hbody, -, hentity⟩ :=
    Format.outcome_ok c.lawful h
  obtain ⟨-, hmembers⟩ := (c.createEntity_iff p e).mp hentity
  have hgood := frame_lines hframe
  have hlf : ∀ l ∈ hs, Byte.lf ∉ l := fun l hl => (hgood l (List.mem_cons_of_mem line hl)).2
  have hcLine := c.cLine_good line p.first hline (hgood line List.mem_cons_self).2
  have hnulFree : c.NulFree s ↔ c.PlainLine line ∧ NulFreeFields hs := by
    simp only [NulFree, hframe]
    constructor
    · exact fun hall => hall line hs rfl
    · rintro hand line' hs' hcons
      obtain ⟨rfl, rfl⟩ := List.cons.inj hcons
      exact hand
  -- the lines of the printed block
  have hentries := entries_fieldsOf hfields hlf
  have hprinted : ∀ l ∈ c.cLine p.first :: p.headers.entries.map cField,
      l ≠ [] ∧ Byte.lf ∉ l := by
    refine List.forall_mem_cons.mpr ⟨hcLine, fun l hl => ?_⟩
    obtain ⟨header, hheader, rfl⟩ := List.mem_map.mp hl
    rw [hheaders] at hheader
    obtain ⟨-, hname, hvalue⟩ := hentries header hheader
    exact cField_good hname hvalue
  rw [hnulFree, nulFreeFields_iff hfields]
  constructor
  · -- the printed text has no NUL, so what is read from it has none
    intro hagain
    obtain ⟨line', hs', rest', p', hframe', hline', hfields', hheaders', -, -, hentity'⟩ :=
      Format.outcome_ok c.lawful hagain
    obtain ⟨-, hmembers'⟩ := (c.createEntity_iff p' e).mp hentity'
    rw [hmembers, Prod.mk.injEq, Prod.mk.injEq] at hmembers'
    obtain ⟨hfirst, hmap, -⟩ := hmembers'
    rw [c.bytes_new, hmembers, frame_blockText hprinted] at hframe'
    simp only [Prod.mk.injEq, List.cons.injEq] at hframe'
    obtain ⟨⟨rfl, rfl⟩, -⟩ := hframe'
    constructor
    · rw [← hfirst] at hline'
      exact c.plainLine_congr _ _ _ hline hline'
        (c.plainLine_of_not_mem _ (c.nul_not_mem_cLine p.first))
    · rw [← hheaders, hmap, hheaders']
      refine nulFree_fieldsOf hfields' fun l hl => ?_
      obtain ⟨header, -, rfl⟩ := List.mem_map.mp hl
      exact nul_not_mem_cField header
  · -- without a NUL the block is printed as it is
    rintro ⟨hplain, hfree⟩
    have hmap : p.headers.entries.map cField = p.headers.entries.map fieldLine := by
      refine List.map_congr_left fun header hheader => ?_
      rw [hheaders] at hheader
      obtain ⟨hname, hvalue⟩ := hfree header hheader
      exact cField_of_not_mem hname hvalue
    have hisField : ∀ l ∈ p.headers.entries.map fieldLine, IsField l := by
      intro l hl
      obtain ⟨header, hheader, rfl⟩ := List.mem_map.mp hl
      rw [hheaders] at hheader
      exact isField_fieldLine (hentries header hheader).1
    -- what is printed in full is read back
    have hback : fieldsOf (p.headers.entries.map fieldLine) = p.headers :=
      fieldsOf_map_fieldLine fun header hheader => by
        rw [hheaders] at hheader
        exact (hentries header hheader).1
    rw [hmap] at hprinted
    have hdecodes : DecodesTo fmt (c.new e) e := by
      refine decodesTo_of_block (c.state_new e) (by rw [c.headers_new, hmembers, hmap]) hprinted
        (c.parse_cLine line p.first hline hplain) hisField ?_ ?_
      · rw [hback, c.body_new, hmembers]
        rcases hbody with ⟨hbodiless, hnil⟩ | ⟨hbodied, val, hfind, hval⟩
        · exact Or.inl ⟨hbodiless, hnil⟩
        · exact Or.inr ⟨hbodied, val, hfind, hval⟩
      · intro q hfirst hqheaders hqbody herr
        rw [c.createEntity_iff]
        refine ⟨herr, ?_⟩
        rw [hmembers, hfirst, hqheaders, hqbody, hback, c.body_new, hmembers]
    apply hdecodes.outcome
    rw [Serializer.bytes_eq (c.state_new e)]
    exact List.prefix_append _ _

end Codec

/-! ## The two codecs -/

/-- A NUL is no space. -/
theorem nul_ne_space : Byte.nul ≠ Byte.space := by decide

/-- Nor is a line feed. -/
theorem lf_ne_space : Byte.lf ≠ Byte.space := by decide

/-- The request lines that are accepted. -/
theorem RequestParser.parseFirstHeader_ok_iff {line : Bytes} {f first : RequestLine} :
    RequestParser.parseFirstHeader f line = .ok (.ok (), first) ↔
      line = first.method ++ Byte.space :: (first.path ++ Byte.space :: first.httpVersion) ∧
        (Byte.space ∉ first.method ∧ first.method ≠ []) ∧
        (Byte.space ∉ first.path ∧ first.path ≠ []) ∧ first.httpVersion ≠ [] := by
  rw [RequestParser.parseFirstHeader_eq, Except.ok.injEq]
  constructor
  · -- the one way through the tests
    intro h
    split at h
    · simp at h
    · rename_i method rest hcut
      split at h
      · simp at h
      · rename_i hmethod
        split at h
        · simp at h
        · rename_i path version hcut'
          split at h
          · simp at h
          · rename_i hpath
            split at h
            · simp at h
            · rename_i hversion
              cases h
              obtain ⟨rfl, hspace⟩ := List.cutAt_eq_some_iff.mp hcut
              obtain ⟨rfl, hspace'⟩ := List.cutAt_eq_some_iff.mp hcut'
              exact ⟨rfl, ⟨hspace, hmethod⟩, ⟨hspace', hpath⟩, hversion⟩
  · rintro ⟨rfl, ⟨hspace, hmethod⟩, ⟨hspace', hpath⟩, hversion⟩
    simp only [List.cutAt_append_cons _ hspace, if_neg hmethod, List.cutAt_append_cons _ hspace',
      if_neg hpath, if_neg hversion]

/-- The request line as `RequestSerializer` prints it. -/
def RequestLine.cLine (first : RequestLine) : Bytes :=
  cStr first.method ++ Byte.space :: (cStr first.path ++ Byte.space :: cStr first.httpVersion)

/-- The request has the members of the parser. -/
theorem RequestParser.createEntity_iff (p : RequestParser) (r : Request) :
    RequestParser.createEntity p = .ok (.ok r) ↔ p.err = .ok () ∧
      ((⟨r.method, r.path, r.httpVersion⟩ : RequestLine), r.headers, r.body) =
        (p.first, p.headers, p.body) := by
  obtain ⟨⟨_, _, _⟩, _, _, _, _, _, err, _⟩ := p
  obtain ⟨method, path, httpVersion, headers, body⟩ := r
  simp only [RequestParser.createEntity]
  -- a parser with an error gives that error, another one its fields
  cases err with
  | error e => simp [pure, Except.pure]
  | ok u =>
    simp only [pure, Except.pure, Except.ok.injEq, Request.mk.injEq, Prod.mk.injEq,
      RequestLine.mk.injEq, true_and]
    tauto

/-- The block as it is printed. -/
theorem RequestSerializer.headers_eq (r : Request) :
    (RequestSerializer.new r).headers =
      blockText (RequestLine.cLine ⟨r.method, r.path, r.httpVersion⟩ ::
        r.headers.entries.map cField) := by
  rw [← headers_eq_blockText]
  simp only [RequestLine.cLine, RequestSerializer.new, backInserter_space]
  simp [backInserter]

/-- The printed line has no NUL. -/
theorem RequestLine.nul_not_mem_cLine (first : RequestLine) : Byte.nul ∉ first.cLine := by
  simp [RequestLine.cLine, nul_not_mem_cStr, nul_ne_space]

/-- The printed line is one line. -/
theorem RequestLine.cLine_good (line : Bytes) (first : RequestLine)
    (h : RequestParser.parseFirstHeader {} line = .ok (.ok (), first)) (hlf : Byte.lf ∉ line) :
    first.cLine ≠ [] ∧ Byte.lf ∉ first.cLine := by
  obtain ⟨rfl, -, -, -⟩ := RequestParser.parseFirstHeader_ok_iff.mp h
  simp only [List.mem_append, List.mem_cons, not_or] at hlf
  refine ⟨by simp [RequestLine.cLine], ?_⟩
  simp [RequestLine.cLine, lf_ne_space, mt (@cStr_subset first.method _) hlf.1,
    mt (@cStr_subset first.path _) hlf.2.2.1, mt (@cStr_subset first.httpVersion _) hlf.2.2.2.2]

/-- A request line without a NUL is printed as it is. -/
theorem RequestLine.parse_cLine (line : Bytes) (first : RequestLine)
    (h : RequestParser.parseFirstHeader {} line = .ok (.ok (), first)) (hplain : Byte.nul ∉ line) :
    RequestParser.parseFirstHeader {} first.cLine = .ok (.ok (), first) := by
  obtain ⟨rfl, -⟩ := RequestParser.parseFirstHeader_ok_iff.mp h
  -- no word of the line holds a NUL, so c_str() cuts nothing
  have hsame : first.cLine =
      first.method ++ Byte.space :: (first.path ++ Byte.space :: first.httpVersion) := by
    simp only [List.mem_append, List.mem_cons, not_or] at hplain
    rw [RequestLine.cLine, cStr_of_not_mem hplain.1, cStr_of_not_mem hplain.2.2.1,
      cStr_of_not_mem hplain.2.2.2.2]
  rw [hsame]
  exact h

/-- Two lines that are read alike are plain or not alike. -/
theorem RequestLine.plain_congr (line line' : Bytes) (first : RequestLine)
    (h : RequestParser.parseFirstHeader {} line = .ok (.ok (), first))
    (h' : RequestParser.parseFirstHeader {} line' = .ok (.ok (), first))
    (hplain : Byte.nul ∉ line') : Byte.nul ∉ line := by
  obtain ⟨rfl, -⟩ := RequestParser.parseFirstHeader_ok_iff.mp h
  obtain ⟨rfl, -⟩ := RequestParser.parseFirstHeader_ok_iff.mp h'
  exact hplain

/-- `RequestParser` with `RequestSerializer`. -/
def requestCodec : Codec requestFormat where
  lawful := requestFormat_lawful
  new := RequestSerializer.new
  members r := (⟨r.method, r.path, r.httpVersion⟩, r.headers, r.body)
  cLine := RequestLine.cLine
  PlainLine line := Byte.nul ∉ line
  createEntity_iff := RequestParser.createEntity_iff
  state_new _ := rfl
  headers_new := RequestSerializer.headers_eq
  body_new _ := rfl
  nul_not_mem_cLine := RequestLine.nul_not_mem_cLine
  cLine_good := RequestLine.cLine_good
  parse_cLine := RequestLine.parse_cLine
  plainLine_congr := RequestLine.plain_congr
  plainLine_of_not_mem _ h := h

/-- The status lines that are accepted. -/
theorem ResponseParser.parseFirstHeader_ok_iff {line : Bytes} {f first : StatusLine} :
    ResponseParser.parseFirstHeader f line = .ok (.ok (), first) ↔
      ∃ text code, line = first.httpVersion ++ Byte.space :: (text ++ Byte.space :: first.status) ∧
        (Byte.space ∉ first.httpVersion ∧ first.httpVersion ≠ []) ∧
        (Byte.space ∉ text ∧ text ≠ []) ∧ Status.fromString text = .ok code ∧
        first.code = some code ∧ first.status ≠ [] := by
  rw [ResponseParser.parseFirstHeader_eq, Except.ok.injEq]
  constructor
  · -- the one way through the tests
    intro h
    split at h
    · simp at h
    · rename_i version rest hcut
      split at h
      · simp at h
      · rename_i hversion
        split at h
        · simp at h
        · rename_i text status hcut'
          split at h
          · simp at h
          · rename_i htext
            split at h
            · simp at h
            · rename_i code hcode
              split at h
              · simp at h
              · rename_i hstatus
                cases h
                obtain ⟨rfl, hspace⟩ := List.cutAt_eq_some_iff.mp hcut
                obtain ⟨rfl, hspace'⟩ := List.cutAt_eq_some_iff.mp hcut'
                exact ⟨text, code, rfl, ⟨hspace, hversion⟩, ⟨hspace', htext⟩, hcode, rfl, hstatus⟩
  · -- the line is cut at its first two blanks again
    obtain ⟨version, code', status⟩ := first
    rintro ⟨text, code, rfl, ⟨hspace, hversion⟩, ⟨hspace', htext⟩, hcode, rfl, hstatus⟩
    simp only [List.cutAt_append_cons _ hspace, if_neg hversion, List.cutAt_append_cons _ hspace',
      if_neg htext, hcode, if_neg hstatus]

/-- The text of a code as `ResponseSerializer` prints it. -/
def StatusLine.codeText (first : StatusLine) : Bytes :=
  match first.code with
  | none => []
  | some code => toDecimalInt code.get

/-- The status line as `ResponseSerializer` prints it. -/
def StatusLine.cLine (first : StatusLine) : Bytes :=
  cStr first.httpVersion ++ Byte.space :: (first.codeText ++ Byte.space :: cStr first.status)

/-- The code is printed in digits. -/
theorem StatusLine.codeText_digits (first : StatusLine) :
    ∀ c ∈ first.codeText, isDigit c = true := by
  intro c hc
  obtain ⟨version, _ | code, status⟩ := first
  · simp [codeText] at hc
  · exact code.toDecimalInt_get.2 c hc

/-- No NUL stands in the version or in the status text; the code may have one. -/
def PlainStatusLine (line : Bytes) : Prop :=
  ∀ version text status, line = version ++ Byte.space :: (text ++ Byte.space :: status) →
    Byte.space ∉ version → Byte.space ∉ text → Byte.nul ∉ version ∧ Byte.nul ∉ status

/-- The two texts of the line have no NUL; the code is printed anew. -/
theorem plainStatusLine_iff {version text status : Bytes} (hversion : Byte.space ∉ version)
    (htext : Byte.space ∉ text) :
    PlainStatusLine (version ++ Byte.space :: (text ++ Byte.space :: status)) ↔
      Byte.nul ∉ version ∧ Byte.nul ∉ status := by
  constructor
  · exact fun h => h version text status rfl hversion htext
  · intro h version' text' status' heq hversion' htext'
    -- the first two spaces cut the line in one way
    have hcut := List.cutAt_append_cons (text ++ Byte.space :: status) hversion
    rw [heq, List.cutAt_append_cons _ hversion', Option.some.injEq, Prod.mk.injEq] at hcut
    obtain ⟨rfl, hrest⟩ := hcut
    have hcut := List.cutAt_append_cons status htext
    rw [← hrest, List.cutAt_append_cons _ htext', Option.some.injEq, Prod.mk.injEq] at hcut
    obtain ⟨rfl, rfl⟩ := hcut
    exact h

/-- The response has the members of the parser. -/
theorem ResponseParser.createEntity_iff (p : ResponseParser) (r : Response) :
    ResponseParser.createEntity p = .ok (.ok r) ↔ p.err = .ok () ∧
      ((⟨r.httpVersion, some r.code, r.status⟩ : StatusLine), r.headers, r.body) =
        (p.first, p.headers, p.body) := by
  obtain ⟨⟨_, code, _⟩, _, _, _, _, _, err, _⟩ := p
  obtain ⟨httpVersion, code', status', headers, body⟩ := r
  simp only [ResponseParser.createEntity]
  cases err with
  | error e => simp [pure, Except.pure]
  | ok u =>
    -- a response without a code throws
    cases code with
    | none => simp
    | some code =>
      simp only [pure, Except.pure, Except.ok.injEq, Response.mk.injEq, Prod.mk.injEq,
        StatusLine.mk.injEq, Option.some.injEq, true_and]
      tauto

/-- The block as it is printed. -/
theorem ResponseSerializer.headers_eq (r : Response) :
    (ResponseSerializer.new r).headers =
      blockText (StatusLine.cLine ⟨r.httpVersion, some r.code, r.status⟩ ::
        r.headers.entries.map cField) := by
  rw [← headers_eq_blockText]
  have hcode := cStr_of_not_mem (plainText_of_digits r.code.toDecimalInt_get.2).2.1
  simp only [StatusLine.cLine, StatusLine.codeText, ResponseSerializer.new, backInserter_space]
  simp [backInserter, hcode]

/-- The printed line has no NUL. -/
theorem StatusLine.nul_not_mem_cLine (first : StatusLine) : Byte.nul ∉ first.cLine := by
  have hcode := (plainText_of_digits first.codeText_digits).2.1
  simp [StatusLine.cLine, nul_not_mem_cStr, nul_ne_space, hcode]

/-- The printed line is one line. -/
theorem StatusLine.cLine_good (line : Bytes) (first : StatusLine)
    (h : ResponseParser.parseFirstHeader {} line = .ok (.ok (), first)) (hlf : Byte.lf ∉ line) :
    first.cLine ≠ [] ∧ Byte.lf ∉ first.cLine := by
  obtain ⟨text, code, rfl, -⟩ := ResponseParser.parseFirstHeader_ok_iff.mp h
  have hcode := (plainText_of_digits first.codeText_digits).2.2.2
  simp only [List.mem_append, List.mem_cons, not_or] at hlf
  refine ⟨by simp [StatusLine.cLine], ?_⟩
  simp [StatusLine.cLine, lf_ne_space, hcode, mt (@cStr_subset first.httpVersion _) hlf.1,
    mt (@cStr_subset first.status _) hlf.2.2.2.2]

/-- A plain status line is read back, its code printed anew. -/
theorem StatusLine.parse_cLine (line : Bytes) (first : StatusLine)
    (h : ResponseParser.parseFirstHeader {} line = .ok (.ok (), first))
    (hplain : PlainStatusLine line) :
    ResponseParser.parseFirstHeader {} first.cLine = .ok (.ok (), first) := by
  obtain ⟨text, code, rfl, hversion, htext, -, hfirst, hstatus⟩ :=
    ResponseParser.parseFirstHeader_ok_iff.mp h
  -- without a NUL the C strings are the whole words
  obtain ⟨hnul, hnul'⟩ := (plainStatusLine_iff hversion.1 htext.1).mp hplain
  have hcode : first.codeText = toDecimalInt code.get := by
    simp [StatusLine.codeText, hfirst]
  refine ResponseParser.parseFirstHeader_ok_iff.mpr ⟨first.codeText, code, ?_, hversion, ?_, ?_,
    hfirst, hstatus⟩
  · rw [StatusLine.cLine, cStr_of_not_mem hnul, cStr_of_not_mem hnul']
  · -- the code is written with its digits, and read back
    rw [hcode]
    exact ⟨(plainText_of_digits code.toDecimalInt_get.2).1, code.toDecimalInt_get.1⟩
  · rw [hcode]
    exact code.fromString_toDecimalInt

/-- Two lines that are read alike are plain or not alike. -/
theorem StatusLine.plain_congr (line line' : Bytes) (first : StatusLine)
    (h : ResponseParser.parseFirstHeader {} line = .ok (.ok (), first))
    (h' : ResponseParser.parseFirstHeader {} line' = .ok (.ok (), first))
    (hplain : PlainStatusLine line') : PlainStatusLine line := by
  obtain ⟨text, -, rfl, hversion, htext, -⟩ := ResponseParser.parseFirstHeader_ok_iff.mp h
  obtain ⟨text', -, rfl, -, htext', -⟩ := ResponseParser.parseFirstHeader_ok_iff.mp h'
  exact (plainStatusLine_iff hversion.1 htext.1).mpr
    ((plainStatusLine_iff hversion.1 htext'.1).mp hplain)

/-- A line without a NUL is plain. -/
theorem plainStatusLine_of_not_mem (line : Bytes) (h : Byte.nul ∉ line) : PlainStatusLine line := by
  rintro version text status rfl - -
  simp only [List.mem_append, List.mem_cons, not_or] at h
  exact ⟨h.1, h.2.2.2.2⟩

/-- `ResponseParser` with `ResponseSerializer`. -/
def responseCodec : Codec responseFormat where
  lawful := responseFormat_lawful
  new := ResponseSerializer.new
  members r := (⟨r.httpVersion, some r.code, r.status⟩, r.headers, r.body)
  cLine := StatusLine.cLine
  PlainLine := PlainStatusLine
  createEntity_iff := ResponseParser.createEntity_iff
  state_new _ := rfl
  headers_new := ResponseSerializer.headers_eq
  body_new _ := rfl
  nul_not_mem_cLine := StatusLine.nul_not_mem_cLine
  cLine_good := StatusLine.cLine_good
  parse_cLine := StatusLine.parse_cLine
  plainLine_congr := StatusLine.plain_congr
  plainLine_of_not_mem := plainStatusLine_of_not_mem

/-- Encode after decode gives back what was decoded exactly when no NUL of the
    text stands in a member that is printed. -/
theorem reencode_iff (s : Bytes) :
    (∀ r, requestFormat.outcome [s] = .entity (.ok r) →
      (requestFormat.outcome [(RequestSerializer.new r).bytes] = .entity (.ok r) ↔
        requestCodec.NulFree s)) ∧
    ∀ r, responseFormat.outcome [s] = .entity (.ok r) →
      (responseFormat.outcome [(ResponseSerializer.new r).bytes] = .entity (.ok r) ↔
        responseCodec.NulFree s) :=
  ⟨fun _ h => requestCodec.outcome_new_iff h, fun _ h => responseCodec.outcome_new_iff h⟩

/-- A request that is forwarded as it is, and a response with a NUL in front of
    a later field of the same name. -/
theorem reencode_iff_plain :
    requestCodec.NulFree (ascii "GET / HTTP/1.1\r\nA: b\r\n\r\n") ∧
      responseCodec.NulFree
        (ascii "HTTP/1.1 200 OK\r\nA: \x00\r\nA: b\nContent-Length: 0\r\n\r\n") := by
  constructor
  · exact ((reencode_iff _).1
      { method := ascii "GET", path := ascii "/", httpVersion := ascii "HTTP/1.1",
        headers := (∅ : Headers).insert (ascii "A") (ascii "b"), body := [] }
      (by decide +kernel)).mp (by decide +kernel)
  · exact ((reencode_iff _).2
      { httpVersion := ascii "HTTP/1.1", code := ⟨200, by decide, by decide⟩, status := ascii "OK",
        headers := ((∅ : Headers).insert (ascii "A") (ascii "b")).insert
          (ascii "Content-Length") (ascii "0"), body := [] }
      (by decide +kernel)).mp (by decide +kernel)

/-- A NUL in a header value cuts the value off. -/
theorem reencode_false :
    ¬ ((∀ s r, requestFormat.outcome [s] = .entity (.ok r) →
        requestFormat.outcome [(RequestSerializer.new r).bytes] = .entity (.ok r)) ∧
      ∀ s r, responseFormat.outcome [s] = .entity (.ok r) →
        responseFormat.outcome [(ResponseSerializer.new r).bytes] = .entity (.ok r)) := by
  rintro ⟨h, -⟩
  have hagain := h (ascii "GET / HTTP/1.1\r\nA: x\x00y\r\n\r\n")
    { method := ascii "GET", path := ascii "/", httpVersion := ascii "HTTP/1.1",
      headers := (∅ : Headers).insert (ascii "A") (ascii "x\x00y"), body := [] } (by decide +kernel)
  exact absurd hagain (by decide +kernel)

end Webserv.Http
