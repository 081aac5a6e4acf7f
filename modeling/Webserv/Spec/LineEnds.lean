import Webserv.Spec.HeaderSpacing

/-!
# Lines that end with a bare LF

Behind the end of a line the header loop skips one more LF, if there is one.
Behind CR LF there is none; behind a bare LF it is the blank line.  A message
whose lines end with LF alone therefore has no blank line where it should be,
and its body is read as more header lines, up to a blank line in the body.

## Key results

- `frame_lfText`: the lines of such a message go on in its body
- `sameReading_iff`: the messages that are read the same with both line ends
- `lineEnds_iff`: for `RequestParser` and for `ResponseParser`
-/

namespace Webserv.Http

variable {F E : Type} {fmt : Format F E}

/-! ## The two texts of a header block -/

/-- The lines of a block and the blank line, each ended by LF alone. -/
def lfText (ls : List Bytes) : Bytes := ls.flatMap (· ++ [Byte.lf]) ++ [Byte.lf]

/-- A header line of a message. -/
def PlainLine (line : Bytes) : Prop := line ≠ [] ∧ Byte.cr ∉ line ∧ Byte.lf ∉ line

/-- A line that ends with a bare LF; a second one is skipped. -/
theorem splitLine_lf {line : Bytes} (h : PlainLine line) (rest : Bytes) :
    splitLine (line ++ Byte.lf :: rest) =
      some (line, if rest.head? = some Byte.lf then rest.tail else rest) := by
  have hcr : line.getLast? ≠ some Byte.cr := fun hlast => h.2.1 (List.mem_of_getLast? hlast)
  rw [splitLine, List.cutAt_append_cons rest h.2.2, Option.map_some]
  dsimp only
  rw [if_neg hcr]

/-- The blank line is skipped with the last line, and the lines go on in the body. -/
theorem frame_lfText {ls : List Bytes} (hne : ls ≠ []) (h : ∀ line ∈ ls, PlainLine line)
    (body : Bytes) :
    frame [] (lfText ls ++ body) = (ls ++ (frame [] body).1, (frame [] body).2) := by
  induction ls with
  | nil => exact absurd rfl hne
  | cons line ls ih =>
    obtain ⟨hline, hrest⟩ := List.forall_mem_cons.mp h
    have happ : lfText (line :: ls) ++ body = line ++ Byte.lf :: (lfText ls ++ body) := by
      simp [lfText]
    rw [happ]
    cases ls with
    | nil =>
      -- the line feed of the last line skips the one of the blank line
      have hsplit := splitLine_lf hline (lfText [] ++ body)
      have hhead : (lfText [] ++ body).head? = some Byte.lf := rfl
      rw [if_pos hhead] at hsplit
      rw [frame_of_line hsplit (by simpa using hline.1)]
      rfl
    | cons next ls =>
      -- the next line does not start with a line feed
      obtain ⟨c, cs, rfl⟩ := List.exists_cons_of_ne_nil (hrest next List.mem_cons_self).1
      have hc : c ≠ Byte.lf := fun heq =>
        (hrest _ List.mem_cons_self).2.2 (heq ▸ List.mem_cons_self)
      have hsplit := splitLine_lf hline (lfText ((c :: cs) :: ls) ++ body)
      rw [if_neg (by simpa [lfText] using hc)] at hsplit
      rw [frame_of_line hsplit (by simpa using hline.1), ih (List.cons_ne_nil _ _) hrest]
      rfl

/-- The text starts with its first line. -/
theorem head?_lfText {line : Bytes} (ls : List Bytes) (body : Bytes) (h : PlainLine line) :
    (lfText (line :: ls) ++ body).head? ≠ some Byte.lf := by
  obtain ⟨c, cs, rfl⟩ := List.exists_cons_of_ne_nil h.1
  have hc : c ≠ Byte.lf := fun heq => h.2.2 (heq ▸ List.mem_cons_self)
  simpa [lfText] using hc

/-- What follows the blank line is shorter than the text. -/
theorem length_lt_of_frame_body {kept s rest : Bytes} {ls : List Bytes}
    (h : frame kept s = (ls, .body rest)) : rest.length < s.length := by
  -- on the length of the text: a line that is not blank leaves a shorter one
  induction hn : s.length using Nat.strong_induction_on generalizing kept s ls with
  | _ n ih =>
  cases hsplit : splitLine s with
  | none =>
    rw [frame_of_none hsplit] at h
    cases h
  | some lr =>
    obtain ⟨line, rest'⟩ := lr
    have hlt := length_lt_of_splitLine hsplit
    by_cases hline : kept ++ line = []
    · rw [frame_of_empty hsplit hline] at h
      cases h
      omega
    · rw [frame_of_line hsplit hline] at h
      obtain ⟨-, htail⟩ := Prod.mk.inj h
      have hrest := ih _ (by omega) (s := rest') (Prod.ext rfl htail) rfl
      omega

/-! ## Reading the same message -/

/-- What two messages come to as one chunk each is the same. -/
def SameReading (fmt : Format F E) (s s' : Bytes) : Prop :=
  ∃ st p p', Parser.operatorCall fmt (.fresh fmt) s = .ok (st, p) ∧
    Parser.operatorCall fmt (.fresh fmt) s' = .ok (st, p') ∧ p.headers = p'.headers ∧
    p.body = p'.body ∧ fmt.createEntity p = fmt.createEntity p'

/-- The messages for which the line ends do not matter. -/
inductive LineEndsAgree (fmt : Format F E) (ls : List Bytes) (body : Bytes) : Prop where
  /-- The first line is refused. -/
  | refused {line : Bytes} {e : Error} {first : F} (hs : List Bytes) (hls : ls = line :: hs)
      (hline : fmt.parseFirstHeader fmt.initial line = .ok (.error e, first))
  /-- Behind header fields there is a line without a colon. -/
  | malformed {first : F} {good more : List Bytes} {bad : Bytes}
      (hls : FirstLine fmt ls first (good ++ bad :: more)) (hgood : ∀ line ∈ good, IsField line)
      (hbad : Byte.colon ∉ bad)
  /-- There should be a body, and nothing of it is there. -/
  | waits {first : F} {hs : List Bytes} {val : Bytes} {n : ℕ} (hls : FirstLine fmt ls first hs)
      (hfields : ∀ line ∈ hs, IsField line) (hbodied : fmt.bodiless first = false)
      (hfind : (fieldsOf hs).find? (ascii "Content-Length") = some val) (hval : stoul val = .ok n)
      (hpos : 0 < n) (hbody : body = [])
  /-- The body starts with fields that change nothing in the map and a blank line, and
      what is taken from behind that is what is taken from the start of the body. -/
  | again {first : F} {hs more : List Bytes} {rest : Bytes} (hls : FirstLine fmt ls first hs)
      (hfields : ∀ line ∈ hs, IsField line) (hframe : frame [] body = (more, .body rest))
      (hmore : ∀ line ∈ more, IsField line)
      (hsame : more.foldl addField (fieldsOf hs) = fieldsOf hs)
      (htake : fmt.bodiless first = true ∨ ∃ val n,
        (fieldsOf hs).find? (ascii "Content-Length") = some val ∧ stoul val = .ok n ∧
          n ≤ rest.length ∧ rest.take n = body.take n)

/-- `create_entity` looks at nothing but these members. -/
def Format.ReadsMembers (fmt : Format F E) : Prop :=
  ∀ p p' : Parser F, p.first = p'.first → p.headers = p'.headers → p.body = p'.body →
    p.err = p'.err → fmt.createEntity p = fmt.createEntity p'

/-- A request is made of these members. -/
theorem requestFormat_readsMembers : requestFormat.ReadsMembers := by
  intro p p' hfirst hheaders hbody herr
  simp only [requestFormat, RequestParser.createEntity, hfirst, hheaders, hbody, herr]

/-- So is a response. -/
theorem responseFormat_readsMembers : responseFormat.ReadsMembers := by
  intro p p' hfirst hheaders hbody herr
  simp only [responseFormat, ResponseParser.createEntity, hfirst, hheaders, hbody, herr]

section
variable {ls : List Bytes} {body : Bytes}

/-- With LF the blank line is skipped, and the body is read for lines. -/
theorem operatorCall_lfText (hne : ls ≠ []) (h : ∀ line ∈ ls, PlainLine line) :
    Parser.operatorCall fmt (.fresh fmt) (lfText ls ++ body) =
      Parser.readFrame fmt (.fresh fmt) (ls ++ (frame [] body).1, (frame [] body).2) := by
  obtain ⟨line, hs, rfl⟩ := List.exists_cons_of_ne_nil hne
  rw [Parser.operatorCall_fresh, if_neg (head?_lfText hs body (h line List.mem_cons_self)),
    frame_lfText hne h]

/-- With CR LF the lines are handled and the body begins. -/
theorem operatorCall_crlfText (hne : ls ≠ []) (h : ∀ line ∈ ls, PlainLine line) :
    Parser.operatorCall fmt (.fresh fmt) (blockText ls ++ body) =
      Parser.readFrame fmt (.fresh fmt) (ls, .body body) := by
  have hplain : ∀ line ∈ ls, line ≠ [] ∧ Byte.lf ∉ line := fun line hline =>
    ⟨(h line hline).1, (h line hline).2.2⟩
  rw [← frame_blockText hplain]
  obtain ⟨line, hs, rfl⟩ := List.exists_cons_of_ne_nil hne
  rw [Parser.operatorCall_fresh,
    if_neg (head?_blockText hs body (hplain line List.mem_cons_self))]

/-- A line that is refused settles the call before the line ends matter. -/
theorem sameReading_of_ready {p : Parser F} (hne : ls ≠ []) (h : ∀ line ∈ ls, PlainLine line)
    (hread : Parser.readLines fmt (.fresh fmt) ls = .ok (.ready, p)) :
    SameReading fmt (lfText ls ++ body) (blockText ls ++ body) := by
  -- the lines that LF makes of the body come behind READY
  have hsettled : ∀ q, Parser.readLines fmt (.fresh fmt) ls ≠ .ok (.pending, q) := by
    simp [hread]
  have hmore : Parser.readLines fmt (.fresh fmt) (ls ++ (frame [] body).1) = .ok (.ready, p) :=
    (Incremental.feed_append_of_settled _ hsettled).trans hread
  refine ⟨.ready, p, p, ?_, ?_, rfl, rfl, rfl⟩
  · rw [operatorCall_lfText hne h, Parser.readFrame, hmore]
  · rw [operatorCall_crlfText hne h, Parser.readFrame, hread]

/-- `read_body` leaves everything but the length and the body alone. -/
theorem Parser.readBody_unchanged {p p' : Parser F} {data : Bytes} {st : IoState}
    (h : readBody fmt p data 0 = .ok (st, p')) :
    p'.first = p.first ∧ p'.headers = p.headers ∧ p'.err = p.err := by
  rw [readBody_zero] at h
  repeat' split at h
  all_goals cases h
  all_goals simp

/-- Behind accepted header lines, the body is read on the one hand as lines and on the
    other as the body. -/
theorem sameReading_iff_started {first : F} {hs : List Bytes} (h : ∀ line ∈ ls, PlainLine line)
    (hls : FirstLine fmt ls first hs) (hfields : ∀ line ∈ hs, IsField line) :
    SameReading fmt (lfText ls ++ body) (blockText ls ++ body) ↔ ∃ st p p',
      Parser.readFrame fmt (.started fmt first (fieldsOf hs)) (frame [] body) = .ok (st, p) ∧
      Parser.readBody fmt { Parser.started fmt first (fieldsOf hs) with state := .bodyRead } body 0 =
        .ok (st, p') ∧
      p.headers = p'.headers ∧ p.body = p'.body ∧ fmt.createEntity p = fmt.createEntity p' := by
  have hread := Parser.readLines_fresh_of_fields hls hfields
  -- the first line is there
  have hne : ls ≠ [] := by
    obtain ⟨line, rfl, -⟩ := hls
    exact List.cons_ne_nil _ _
  rw [SameReading, operatorCall_lfText hne h, operatorCall_crlfText hne h,
    Parser.readFrame_append _ hread, Parser.readFrame.eq_def _ _ (ls, .body body), hread]

/-- How a read of the body behind a header block can end. -/
theorem Parser.readBody_started_cases {first : F} {headers : Headers} {data : Bytes} {st : IoState}
    {p : Parser F}
    (h : readBody fmt { started fmt first headers with state := .bodyRead } data 0 = .ok (st, p)) :
    (fmt.bodiless first = true ∧ st = .ready ∧ p.body = []) ∨
      ∃ val n, fmt.bodiless first = false ∧
        headers.find? (ascii "Content-Length") = some val ∧ stoul val = .ok n ∧
        ((st = .ready ∧ n ≤ data.length ∧ p.body = data.take n) ∨
          (st = .pending ∧ data.length < n ∧ p.body = data)) := by
  cases hbodied : fmt.bodiless first with
  | true =>
    -- no body is asked for
    have hread := readBody_of_bodiless (p := { started fmt first headers with state := .bodyRead })
      hbodied data
    rw [hread] at h
    cases h
    exact .inl ⟨rfl, rfl, rfl⟩
  | false =>
    right
    cases hfind : headers.find? (ascii "Content-Length") with
    | none =>
      -- without a length `value()` throws
      have hnone : ∀ val n, headers.find? (ascii "Content-Length") = some val →
          stoul val ≠ .ok n := by simp [hfind]
      have hread := readBody_of_noLength (p := { started fmt first headers with state := .bodyRead })
        rfl hbodied hnone data
      rw [hread] at h
      cases h
    | some val =>
      have hread := readBody_of_value (p := { started fmt first headers with state := .bodyRead })
        rfl rfl hbodied hfind data
      rw [hread] at h
      cases hval : stoul val with
      | error e => simp [hval] at h
      | ok n =>
        rw [hval] at h
        dsimp only at h
        refine ⟨val, n, rfl, rfl, hval, ?_⟩
        split at h
        · rename_i henough
          cases h
          exact .inl ⟨rfl, henough, rfl⟩
        · rename_i hshort
          cases h
          exact .inr ⟨rfl, Nat.not_le.mp hshort, rfl⟩

/-- If the message is read the same, the body is read twice the same or is not there. -/
theorem lineEndsAgree_of_started (hfmt : fmt.Lawful) {first : F} {hs : List Bytes}
    (h : ∀ line ∈ ls, PlainLine line) (hls : FirstLine fmt ls first hs)
    (hfields : ∀ line ∈ hs, IsField line)
    (hsame : SameReading fmt (lfText ls ++ body) (blockText ls ++ body)) :
    LineEndsAgree fmt ls body := by
  obtain ⟨st, p, p', hlf, hcrlf, hheaders, hbody, hentity⟩ :=
    (sameReading_iff_started h hls hfields).mp hsame
  obtain ⟨hfirst', hheaders', herr'⟩ := Parser.readBody_unchanged hcrlf
  -- with CR LF the message comes to an entity
  obtain ⟨line, -, hline⟩ := id hls
  have haccepts : fmt.parseFirstHeader fmt.initial line = .ok (.ok (), p'.first) := by
    rw [hfirst']
    exact hline
  obtain ⟨entity, hok⟩ := hfmt.createEntity_ok p' _ line haccepts herr'
  rw [hok] at hentity
  generalize hframe : frame [] body = f at hlf
  obtain ⟨more, tail⟩ := f
  rw [Parser.readFrame] at hlf
  dsimp only at hlf
  -- the lines of the body are header fields, or one of them is not
  rcases fields_or_split more with hmore | ⟨good, bad, post, rfl, hgood, hbad⟩
  · rw [Parser.readLines_of_fields rfl hmore] at hlf
    cases tail with
    | unfinished u =>
      -- with LF the parser waits for more lines
      cases hlf
      obtain ⟨-, hst, -⟩ | ⟨val, n, hbodied, hfind, hval, ⟨hst, -, -⟩ | ⟨-, hshort, hall⟩⟩ :=
        Parser.readBody_started_cases hcrlf
      · cases hst
      · cases hst
      · -- the two bodies are the same, and the one of LF is empty
        have hnil : body = [] := hall.symm.trans hbody.symm
        exact .waits hls hfields hbodied hfind hval (Nat.zero_lt_of_lt hshort) hnil
    | body rest =>
      -- with LF a body begins as well, further on
      obtain ⟨-, hheaders'', -⟩ := Parser.readBody_unchanged hlf
      have hmap : more.foldl addField (fieldsOf hs) = fieldsOf hs :=
        hheaders''.symm.trans (hheaders.trans hheaders')
      refine .again hls hfields hframe hmore hmap ?_
      have hlf' : Parser.readBody fmt
          { Parser.started fmt first (more.foldl addField (fieldsOf hs)) with state := .bodyRead }
          rest 0 = .ok (st, p) := hlf
      rw [hmap] at hlf'
      obtain ⟨hbodiless, -, -⟩ | ⟨val, n, -, hfind, hval, hlf⟩ :=
        Parser.readBody_started_cases hlf'
      · exact .inl hbodiless
      obtain ⟨hbodiless, -, -⟩ | ⟨val', n', -, hfind', hval', hcrlf⟩ :=
        Parser.readBody_started_cases hcrlf
      · exact .inl hbodiless
      right
      -- both look up the same length
      cases hfind.symm.trans hfind'
      cases hval.symm.trans hval'
      refine ⟨val, n, hfind, hval, ?_⟩
      obtain ⟨rfl, henough, htake⟩ | ⟨rfl, -, hrest⟩ := hlf
      · obtain ⟨-, -, htake'⟩ | ⟨hst, -, -⟩ := hcrlf
        · exact ⟨henough, htake.symm.trans (hbody.trans htake')⟩
        · cases hst
      · obtain ⟨hst, -, -⟩ | ⟨-, -, hall⟩ := hcrlf
        · cases hst
        · -- the body is longer than what follows a blank line in it
          have hlt := length_lt_of_frame_body hframe
          rw [← hrest, hbody, hall] at hlt
          exact absurd hlt (Nat.lt_irrefl _)
  · rw [Parser.readLines_of_bad rfl hgood, Parser.readLines, Incremental.feed] at hlf
    rcases line_cases bad with hfield | hcolon | hmissing
    · exact absurd hfield hbad
    · rw [Parser.handleLine_of_endsAtColon rfl hcolon] at hlf
      cases hlf
    · -- an error is recorded for LF only
      rw [Parser.handleLine_of_malformed rfl hmissing] at hlf
      cases hlf
      rw [hfmt.createEntity_err _ _ rfl] at hentity
      cases hentity

/-- Without a body both readings wait with the same members. -/
theorem sameReading_of_waits (hreads : fmt.ReadsMembers) {first : F} {hs : List Bytes} {val : Bytes}
    {n : ℕ} (h : ∀ line ∈ ls, PlainLine line) (hls : FirstLine fmt ls first hs)
    (hfields : ∀ line ∈ hs, IsField line) (hbodied : fmt.bodiless first = false)
    (hfind : (fieldsOf hs).find? (ascii "Content-Length") = some val) (hval : stoul val = .ok n)
    (hpos : 0 < n) : SameReading fmt (lfText ls ++ []) (blockText ls ++ []) := by
  have hframe : frame [] [] = ([], .unfinished []) := frame_of_none rfl
  have hshort : ¬ n ≤ ([] : Bytes).length := by
    rw [List.length_nil]
    omega
  rw [sameReading_iff_started h hls hfields, hframe]
  -- with CR LF the length is looked up, and nothing is there to take
  have hread := Parser.readBody_started [] hbodied hfind hval
  rw [if_neg hshort] at hread
  exact ⟨.pending, _, _, rfl, hread, rfl, rfl, hreads _ _ rfl rfl rfl rfl⟩

/-- Fields that change nothing and a blank line lead to the same body. -/
theorem sameReading_of_again {first : F} {hs more : List Bytes} {rest : Bytes}
    (h : ∀ line ∈ ls, PlainLine line) (hls : FirstLine fmt ls first hs)
    (hfields : ∀ line ∈ hs, IsField line) (hframe : frame [] body = (more, .body rest))
    (hmore : ∀ line ∈ more, IsField line)
    (hsame : more.foldl addField (fieldsOf hs) = fieldsOf hs)
    (htake : fmt.bodiless first = true ∨ ∃ val n,
      (fieldsOf hs).find? (ascii "Content-Length") = some val ∧ stoul val = .ok n ∧
        n ≤ rest.length ∧ rest.take n = body.take n) :
    SameReading fmt (lfText ls ++ body) (blockText ls ++ body) := by
  rw [sameReading_iff_started h hls hfields, hframe]
  -- the lines of the body leave the parser at the body of the message
  have hlf : Parser.readFrame fmt (.started fmt first (fieldsOf hs)) (more, .body rest) =
      Parser.readBody fmt { Parser.started fmt first (fieldsOf hs) with state := .bodyRead }
        rest 0 := by
    have hlines : Parser.readLines fmt (.started fmt first (fieldsOf hs)) more =
        .ok (.pending, .started fmt first (more.foldl addField (fieldsOf hs))) :=
      Parser.readLines_of_fields rfl hmore
    rw [hsame] at hlines
    rw [Parser.readFrame, hlines]
  rw [hlf]
  cases hbodied : fmt.bodiless first with
  | true =>
    exact ⟨.ready, _, _, Parser.readBody_of_bodiless hbodied rest,
      Parser.readBody_of_bodiless hbodied body, rfl, rfl, rfl⟩
  | false =>
    obtain hbodiless | ⟨val, n, hfind, hval, henough, hprefix⟩ := htake
    · rw [hbodied] at hbodiless
      cases hbodiless
    -- both readings have enough bytes, and the same ones
    have hlonger := length_lt_of_frame_body hframe
    have henough' : n ≤ body.length := by omega
    rw [Parser.readBody_started rest hbodied hfind hval,
      Parser.readBody_started body hbodied hfind hval, if_pos henough, if_pos henough', hprefix]
    exact ⟨.ready, _, _, rfl, rfl, rfl, rfl, rfl⟩

/-- The messages that are read the same with both line ends. -/
theorem sameReading_iff (hfmt : fmt.Lawful) (hreads : fmt.ReadsMembers)
    (h : ∀ line ∈ ls, PlainLine line) :
    SameReading fmt (lfText ls ++ body) (blockText ls ++ body) ↔ LineEndsAgree fmt ls body := by
  constructor
  · -- by the kind of the header block
    intro hsame
    cases headKind hfmt ls with
    | empty hls =>
      -- the first byte of one of the texts is a line feed
      subst hls
      have hhead : (lfText [] ++ body).head? = some Byte.lf := rfl
      obtain ⟨_, _, _, hlf, -⟩ := hsame
      rw [Parser.operatorCall_fresh, if_pos hhead] at hlf
      cases hlf
    | refused hs hls hline => exact .refused hs hls hline
    | fields hls hfields => exact lineEndsAgree_of_started hfmt h hls hfields hsame
    | @endsAtColon first good more bad hls hgood hbad =>
      -- neither of the two calls returns
      have hne : ls ≠ [] := by
        obtain ⟨line, rfl, -⟩ := hls
        exact List.cons_ne_nil _ _
      obtain ⟨_, _, _, -, hcrlf, -⟩ := hsame
      rw [operatorCall_crlfText hne h, Parser.readFrame,
        Parser.readLines_fresh_of_endsAtColon hls hgood hbad] at hcrlf
      cases hcrlf
    | malformed hls hgood hbad => exact .malformed hls hgood hbad
  · intro hagree
    cases hagree with
    | refused hs hls hline =>
      subst hls
      obtain ⟨p, hread, -⟩ := Parser.readLines_fresh_of_refused hs hline
      exact sameReading_of_ready (List.cons_ne_nil _ _) h hread
    | malformed hls hgood hbad =>
      obtain ⟨p, hread, -⟩ := Parser.readLines_fresh_of_malformed hls hgood hbad
      obtain ⟨line, rfl, -⟩ := hls
      exact sameReading_of_ready (List.cons_ne_nil _ _) h hread
    | waits hls hfields hbodied hfind hval hpos hbody =>
      subst hbody
      exact sameReading_of_waits hreads h hls hfields hbodied hfind hval hpos
    | again hls hfields hframe hmore hsame htake =>
      exact sameReading_of_again h hls hfields hframe hmore hsame htake

end

/-! ## The two parsers -/

/-- A message is read the same with both line ends exactly when its body is read twice
    the same, or it does not come to its body. -/
theorem lineEnds_iff (ls : List Bytes) (body : Bytes) (h : ∀ line ∈ ls, PlainLine line) :
    (SameReading requestFormat (lfText ls ++ body) (blockText ls ++ body) ↔
      LineEndsAgree requestFormat ls body) ∧
    (SameReading responseFormat (lfText ls ++ body) (blockText ls ++ body) ↔
      LineEndsAgree responseFormat ls body) :=
  ⟨sameReading_iff requestFormat_lawful requestFormat_readsMembers h,
    sameReading_iff responseFormat_lawful responseFormat_readsMembers h⟩

instance (line : Bytes) : Decidable (PlainLine line) := inferInstanceAs (Decidable (_ ∧ _ ∧ _))

/-- A refused first line, and a response whose body is still to come. -/
theorem lineEnds_iff_lines :
    SameReading requestFormat (lfText [ascii "GET"] ++ []) (blockText [ascii "GET"] ++ []) ∧
      SameReading responseFormat
        (lfText [ascii "HTTP/1.1 200 OK", ascii "Content-Length: 1"] ++ [])
        (blockText [ascii "HTTP/1.1 200 OK", ascii "Content-Length: 1"] ++ []) := by
  constructor
  · rw [(lineEnds_iff [ascii "GET"] [] (by decide)).1]
    have hline : requestFormat.parseFirstHeader requestFormat.initial (ascii "GET") =
        .ok (.error .httpRequestParse, {}) := by decide +kernel
    -- both texts are refused at their first line
    exact .refused [] rfl hline
  · rw [(lineEnds_iff [ascii "HTTP/1.1 200 OK", ascii "Content-Length: 1"] [] (by decide)).2]
    have hfirst : FirstLine responseFormat [ascii "HTTP/1.1 200 OK", ascii "Content-Length: 1"]
        ⟨ascii "HTTP/1.1", some ⟨200, by decide, by decide⟩, ascii "OK"⟩
        [ascii "Content-Length: 1"] := ⟨_, rfl, by decide +kernel⟩
    have hfield : IsField (ascii "Content-Length: 1") :=
      ⟨ascii "Content-Length", Byte.space, ascii "1", by decide, by decide⟩
    have hfind : (fieldsOf [ascii "Content-Length: 1"]).find? (ascii "Content-Length") =
        some (ascii "1") := by decide +kernel
    have hval : stoul (ascii "1") = .ok 1 := by decide
    -- a body is promised, so both texts wait for it
    exact .waits hfirst (by simpa using hfield) rfl hfind hval Nat.one_pos rfl

/-- With LF alone, a request without a body is never complete. -/
theorem lineEnds_false :
    ¬ ∀ (ls : List Bytes) (body : Bytes), (∀ line ∈ ls, PlainLine line) →
        SameReading requestFormat (lfText ls ++ body) (blockText ls ++ body) := by
  intro h
  obtain ⟨st, p, p', hlf, hcrlf, -⟩ := h [ascii "GET / HTTP/1.1"] [] (by decide)
  -- with LF the parser waits for more
  have hlf' : (Parser.operatorCall requestFormat (.fresh requestFormat)
      (lfText [ascii "GET / HTTP/1.1"] ++ [])).toOption.map (·.1) = some .pending := by
    decide +kernel
  -- with CR LF it is done
  have hcrlf' : (Parser.operatorCall requestFormat (.fresh requestFormat)
      (blockText [ascii "GET / HTTP/1.1"] ++ [])).toOption.map (·.1) = some .ready := by
    decide +kernel
  rw [hlf] at hlf'
  rw [hcrlf] at hcrlf'
  cases (Option.some.inj hlf').symm.trans (Option.some.inj hcrlf')

end Webserv.Http
