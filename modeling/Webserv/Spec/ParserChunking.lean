import Webserv.Spec.FieldParsing
import Webserv.Spec.LineFraming

/-!
# Cutting a message into chunks

When does it matter how a message is cut?  `feedChunks_eq_operatorCall` gives
the cuttings for which it does not: those that cut the header block only at
the start of a line.  Any cut inside a line that is completed later makes the
parser read behind `not_handled_data`, and a chunk that starts with a line feed
makes it read in front of the chunk, so that over all cuttings only messages
without a line feed are safe.

## Key results

- `readBody_append_of_pending`: the body may be cut anywhere
- `feedChunks_eq_operatorCall`: line-aligned chunks are as good as one chunk
- `chunking_sameOutcome_iff`: the messages that may be cut anywhere
-/

namespace Webserv.Http

variable {F E : Type} {fmt : Format F E}

namespace Parser

/-! ## The body -/

/-- `set_content_length` sets nothing but the length. -/
theorem setContentLength_frame (fmt : Format F E) (p : Parser F) :
    ∃ length, (setContentLength fmt p).2 = { p with contentLength := length } := by
  unfold setContentLength
  split
  · exact ⟨p.contentLength, rfl⟩
  · split
    · exact ⟨p.contentLength, rfl⟩
    · split
      · exact ⟨p.contentLength, rfl⟩
      · exact ⟨_, rfl⟩

/-- `set_content_length` leaves the body. -/
@[simp] theorem setContentLength_body (p : Parser F) : (setContentLength fmt p).2.body = p.body := by
  obtain ⟨length, h⟩ := setContentLength_frame fmt p
  rw [h]

/-- It leaves the first line. -/
@[simp] theorem setContentLength_first (p : Parser F) :
    (setContentLength fmt p).2.first = p.first := by
  obtain ⟨length, h⟩ := setContentLength_frame fmt p
  rw [h]

/-- It leaves the state. -/
@[simp] theorem setContentLength_state (p : Parser F) :
    (setContentLength fmt p).2.state = p.state := by
  obtain ⟨length, h⟩ := setContentLength_frame fmt p
  rw [h]

/-- It leaves the error. -/
@[simp] theorem setContentLength_err (p : Parser F) : (setContentLength fmt p).2.err = p.err := by
  obtain ⟨length, h⟩ := setContentLength_frame fmt p
  rw [h]

/-- It leaves what was kept. -/
@[simp] theorem setContentLength_notHandledData (p : Parser F) :
    (setContentLength fmt p).2.notHandledData = p.notHandledData := by
  obtain ⟨length, h⟩ := setContentLength_frame fmt p
  rw [h]

/-- A length once set is not looked up again. -/
theorem setContentLength_of_some {p : Parser F} {n : Nat} (h : p.contentLength = some n) :
    (setContentLength fmt p).2 = p := by
  simp [setContentLength, h]

/-- `read_body` on the data from the start of the chunk. -/
theorem readBody_zero (p : Parser F) (data : Bytes) :
    readBody fmt p data 0 =
      if fmt.bodiless p.first then .ok (.ready, p)
      else
        match (setContentLength fmt p).2.contentLength with
        | none => .error .badOptionalAccess
        | some length =>
          if length ≤ data.length + p.body.length then
            if length < p.body.length then .error .outOfBounds
            else .ok (.ready, { (setContentLength fmt p).2 with
              body := p.body ++ data.take (length - p.body.length) })
          else .ok (.pending, { (setContentLength fmt p).2 with body := p.body ++ data }) := by
  simp only [readBody]
  split
  · rfl
  · cases (setContentLength fmt p).2.contentLength with
    | none => rfl
    | some length =>
      -- the header pass leaves the body as it is
      simp only [setContentLength_body, Nat.sub_zero, Nat.zero_add, slice, List.drop_zero]

/-- A message without a body is complete. -/
theorem readBody_of_bodiless {p : Parser F} (hbodied : fmt.bodiless p.first = true) (data : Bytes) :
    readBody fmt p data 0 = .ok (.ready, p) := by
  rw [readBody_zero, if_pos hbodied]

/-- A body of which nothing is there yet. -/
theorem readBody_of_value {p : Parser F} {val : Bytes} (hlength : p.contentLength = none)
    (hbody : p.body = []) (hbodied : fmt.bodiless p.first = false)
    (hfind : p.headers.find? (ascii "Content-Length") = some val) (data : Bytes) :
    readBody fmt p data 0 =
      match stoul val with
      | .error _ => .error .badOptionalAccess
      | .ok n =>
        if n ≤ data.length then
          .ok (.ready, { p with contentLength := some n, body := data.take n })
        else .ok (.pending, { p with contentLength := some n, body := data }) := by
  rw [readBody_zero, hbodied, setContentLength, hlength, hfind]
  cases hval : stoul val with
  -- the error of `set_content_length` is not looked at, and there is no length
  | error e => simp [hval, hlength]
  | ok n => simp [hval, hbody]

/-- A body whose length nothing tells. -/
theorem readBody_of_noLength {p : Parser F} (hlength : p.contentLength = none)
    (hbodied : fmt.bodiless p.first = false)
    (hnone : ∀ val n, p.headers.find? (ascii "Content-Length") = some val → stoul val ≠ .ok n)
    (data : Bytes) : readBody fmt p data 0 = .error .badOptionalAccess := by
  rw [readBody_zero, hbodied, setContentLength, hlength]
  cases hfind : p.headers.find? (ascii "Content-Length") with
  | none => simp [hlength]
  | some val =>
    cases hval : stoul val with
    | error e => simp [hval, hlength]
    | ok n => exact absurd hval (hnone val n hfind)

/-- The body may be cut anywhere before it is complete. -/
theorem readBody_append_of_pending {p p' : Parser F} {a : Bytes} (b : Bytes)
    (h : readBody fmt p a 0 = .ok (.pending, p')) :
    readBody fmt p' b 0 = readBody fmt p (a ++ b) 0 := by
  rw [readBody_zero] at h
  split at h
  · simp at h
  · rename_i hbodied
    split at h
    · simp at h
    · rename_i length hlength
      split at h
      · split at h <;> simp at h
      · rename_i hmore
        simp only [Except.ok.injEq, Prod.mk.injEq, true_and] at h
        subst h
        -- the second call finds the length set
        have hset : ∀ q : Parser F, q = { (setContentLength fmt p).2 with body := p.body ++ a } →
            (setContentLength fmt q).2 = q := fun q hq =>
          setContentLength_of_some (n := length) (by rw [hq]; exact hlength)
        rw [readBody_zero, readBody_zero, hset _ rfl]
        simp only [setContentLength_first, hbodied, hlength, List.length_append,
          Bool.false_eq_true, ↓reduceIte]
        by_cases hle : length ≤ b.length + (p.body.length + a.length)
        · -- `b` completes the body
          have hle' : length ≤ a.length + b.length + p.body.length := by omega
          have hlt : ¬ length < p.body.length + a.length := by omega
          have hlt' : ¬ length < p.body.length := by omega
          have htake : (a ++ b).take (length - p.body.length) =
              a ++ b.take (length - (p.body.length + a.length)) := by
            rw [List.take_append, List.take_of_length_le (by omega), Nat.sub_sub]
          simp only [hle, hle', hlt, hlt', ↓reduceIte, htake, List.append_assoc]
        · -- `b` does not complete it, either
          have hle' : ¬ length ≤ a.length + b.length + p.body.length := by omega
          simp only [hle, hle', ↓reduceIte, List.append_assoc]

/-- A settled body does not change with more data. -/
theorem readBody_append_of_settled {p : Parser F} {a : Bytes} (b : Bytes)
    (h : ∀ p', readBody fmt p a 0 ≠ .ok (.pending, p')) :
    readBody fmt p (a ++ b) 0 = readBody fmt p a 0 := by
  rw [readBody_zero, readBody_zero]
  rw [readBody_zero] at h
  split
  · rfl
  · rename_i hbodied
    cases hlength : (setContentLength fmt p).2.contentLength with
    | none => rfl
    | some length =>
      simp only [hbodied, Bool.false_eq_true, ↓reduceIte, hlength] at h
      by_cases hle : length ≤ a.length + p.body.length
      · -- the body was complete without `b`
        have hle' : length ≤ (a ++ b).length + p.body.length := by
          rw [List.length_append]; omega
        have htake : (a ++ b).take (length - p.body.length) = a.take (length - p.body.length) :=
          List.take_append_of_le_length (by omega)
        simp only [hle, hle', ↓reduceIte, htake]
      · rw [if_neg hle] at h
        exact absurd rfl (h _)

/-! ## The header lines -/

/-- What handling the header lines of a fresh parser leaves as it was. -/
theorem readLines_fresh {p : Parser F} {ls : List Bytes}
    (h : readLines fmt (fresh fmt) ls = .ok (.pending, p)) :
    p.notHandledData = [] ∧ p.body = [] ∧ p.state = .headersRead ∧ p.contentLength = none := by
  refine Incremental.feed_pending_induction
    (P := fun p => p.notHandledData = [] ∧ p.body = [] ∧ p.state = .headersRead ∧
      p.contentLength = none) ⟨rfl, rfl, rfl, rfl⟩ ?_ h
  rintro q line q' - ⟨hnhd, hbody, hstate, hlength⟩ hline
  obtain ⟨h₁, h₂, h₃, h₄⟩ := handleLine_unchanged hline
  exact ⟨h₁.trans hnhd, h₂.trans hbody, h₃.trans hstate, h₄.trans hlength⟩

/-- A settled frame does not change with more bytes. -/
theorem readFrame_append_of_settled {s : Bytes} (k : Bytes) (hhead : s.head? ≠ some Byte.lf)
    (h : ∀ p', readFrame fmt (fresh fmt) (frame [] s) ≠ .ok (.pending, p')) :
    readFrame fmt (fresh fmt) (frame [] (s ++ k)) = readFrame fmt (fresh fmt) (frame [] s) := by
  by_cases hlines : ∃ p, readLines fmt (fresh fmt) (frame [] s).1 = .ok (.pending, p)
  · obtain ⟨p, hp⟩ := hlines
    cases htail : (frame [] s).2 with
    | unfinished u =>
      simp only [readFrame, hp, htail] at h
      exact absurd rfl (h _)
    | body rest =>
      -- the body may lose an LF of `k`, but it is complete without `k`
      obtain ⟨rest', hframe, ⟨t, rfl⟩, -⟩ :=
        frame_append_body [] k (Or.inl hhead) (Prod.ext rfl htail)
      simp only [readFrame, hp, htail, hframe] at h ⊢
      exact readBody_append_of_settled t h
  · -- a line settles the call, and the lines of `s` come first
    simp only [not_exists] at hlines
    obtain ⟨ls, hls⟩ := frame_append_lines_prefix s k
    have hsame : readLines fmt (fresh fmt) (frame [] (s ++ k)).1 =
        readLines fmt (fresh fmt) (frame [] s).1 := by
      rw [← hls]
      exact Incremental.feed_append_of_settled ls hlines
    simp only [readFrame, hsame]
    cases hread : readLines fmt (fresh fmt) (frame [] s).1 with
    | error e => rfl
    | ok r =>
      obtain ⟨st, p⟩ := r
      cases st with
      | ready => rfl
      | pending => exact absurd hread (hlines p)

/-! ## Calls on a fresh parser -/

/-- One call on a fresh parser. -/
theorem operatorCall_fresh (s : Bytes) :
    operatorCall fmt (fresh fmt) s =
      if s.head? = some Byte.lf then .error .outOfBounds
      else readFrame fmt (fresh fmt) (frame [] s) := by
  rw [operatorCall_headersRead rfl]
  by_cases hmem : Byte.lf ∈ s
  · rw [if_neg (not_not.mpr hmem)]
    rfl
  · have hhead : s.head? ≠ some Byte.lf := fun h => hmem (List.mem_of_mem_head? h)
    rw [if_pos hmem, if_neg hhead, frame_of_none (splitLine_eq_none_iff.mpr hmem)]
    rfl

/-- What a pending call on a fresh parser leaves: a line to be continued, or a
    body to be continued. -/
theorem operatorCall_fresh_pending {s : Bytes} {p : Parser F}
    (h : operatorCall fmt (fresh fmt) s = .ok (.pending, p)) :
    s.head? ≠ some Byte.lf ∧ ∃ ls p₁, readLines fmt (fresh fmt) ls = .ok (.pending, p₁) ∧
      ((∃ u, frame [] s = (ls, .unfinished u) ∧ p = { p₁ with notHandledData := u }) ∨
        ∃ rest, frame [] s = (ls, .body rest) ∧
          readBody fmt { p₁ with state := .bodyRead } rest 0 = .ok (.pending, p)) := by
  rw [operatorCall_fresh] at h
  split at h
  · simp at h
  · rename_i hhead
    refine ⟨hhead, (frame [] s).1, ?_⟩
    simp only [readFrame] at h
    cases hlines : readLines fmt (fresh fmt) (frame [] s).1 with
    | error e => simp [hlines] at h
    | ok r =>
      obtain ⟨st, p₁⟩ := r
      cases st with
      -- a line that ends the parsing would be READY
      | ready => simp [hlines] at h
      | pending =>
        refine ⟨p₁, rfl, ?_⟩
        cases htail : (frame [] s).2 with
        -- the block is not complete: its last line is kept
        | unfinished u =>
          simp only [hlines, htail, (readLines_fresh hlines).1, List.nil_append, Except.ok.injEq,
            Prod.mk.injEq, true_and] at h
          exact Or.inl ⟨u, Prod.ext rfl htail, h.symm⟩
        -- the block is complete: the body waits
        | body rest =>
          simp only [hlines, htail] at h
          exact Or.inr ⟨rest, Prod.ext rfl htail, h⟩

/-- An empty chunk does nothing. -/
theorem operatorCall_fresh_nil :
    operatorCall fmt (fresh fmt) [] = .ok (.pending, fresh fmt) := by
  rw [operatorCall_headersRead rfl]
  rfl

/-- A settled call on a fresh parser does not change with more bytes. -/
theorem operatorCall_fresh_append_of_settled (s k : Bytes)
    (h : ∀ p', operatorCall fmt (fresh fmt) s ≠ .ok (.pending, p')) :
    operatorCall fmt (fresh fmt) (s ++ k) = operatorCall fmt (fresh fmt) s := by
  have hs : s ≠ [] := by
    rintro rfl
    exact h _ operatorCall_fresh_nil
  rw [operatorCall_fresh, operatorCall_fresh, List.head?_append_of_ne_nil s hs]
  rw [operatorCall_fresh] at h
  -- the first byte decides, and it stays
  by_cases hhead : s.head? = some Byte.lf
  · rw [if_pos hhead, if_pos hhead]
  · rw [if_neg hhead] at h
    rw [if_neg hhead, if_neg hhead]
    exact readFrame_append_of_settled k hhead h

/-- What a pending body keeps of the parser, and what it adds to it. -/
theorem readBody_pending {p p' : Parser F} {data : Bytes}
    (h : readBody fmt p data 0 = .ok (.pending, p')) :
    p'.state = p.state ∧ p'.body = p.body ++ data := by
  rw [readBody_zero] at h
  repeat' split at h
  all_goals cases h
  exact ⟨setContentLength_state p, rfl⟩

/-- Lines already handled need not be handled again. -/
theorem readFrame_append {p p₁ : Parser F} {ls : List Bytes} (f : List Bytes × Tail)
    (h : readLines fmt p ls = .ok (.pending, p₁)) :
    readFrame fmt p (ls ++ f.1, f.2) = readFrame fmt p₁ f := by
  have hsplit : readLines fmt p (ls ++ f.1) = readLines fmt p₁ f.1 :=
    Incremental.feed_append_of_pending _ h
  simp only [readFrame, hsplit]

/-! ## Line-aligned chunks -/

/-- The chunks cut the header block only at the start of a line: whenever a chunk
    with a line feed comes in the state `HEADERS_READ`, nothing is kept from
    earlier chunks and the chunk does not start with the line feed.  Nor does a
    body chunk start with an LF that follows an empty line ended by a bare LF. -/
def LineAligned (fmt : Format F E) (chunks : List Bytes) : Prop :=
  ∀ pre k post p, chunks = pre ++ k :: post →
    feedChunks fmt (fresh fmt) pre = .ok (.pending, p) →
      (p.state = .headersRead → Byte.lf ∈ k →
        k.head? ≠ some Byte.lf ∧ p.notHandledData = []) ∧
      (p.state = .bodyRead → p.body = [] → k.head? = some Byte.lf →
        [Byte.cr, Byte.lf] <:+ pre.flatten)

/-- A chunk handed to the state that `s` leaves, or together with `s`. -/
theorem operatorCall_join {s k : Bytes} {p : Parser F}
    (h : operatorCall fmt (fresh fmt) s = .ok (.pending, p))
    (hheader : p.state = .headersRead → Byte.lf ∈ k →
      k.head? ≠ some Byte.lf ∧ p.notHandledData = [])
    (hbody : p.state = .bodyRead → p.body = [] → k.head? = some Byte.lf →
      [Byte.cr, Byte.lf] <:+ s) :
    operatorCall fmt p k = operatorCall fmt (fresh fmt) (s ++ k) := by
  by_cases hs : s = []
  · subst hs
    -- nothing has been read yet
    rw [operatorCall_fresh_nil] at h
    cases h
    rfl
  obtain ⟨hhead, ls, p₁, hlines, hp⟩ := operatorCall_fresh_pending h
  obtain ⟨hnhd, hempty, hstate, -⟩ := readLines_fresh hlines
  rw [operatorCall_fresh, List.head?_append_of_ne_nil s hs, if_neg hhead]
  rcases hp with ⟨u, hframe, rfl⟩ | ⟨rest, hframe, hread⟩
  · rw [operatorCall_headersRead (p := { p₁ with notHandledData := u }) hstate]
    by_cases hk : Byte.lf ∈ k
    · -- the chunk starts a line
      obtain ⟨hkhead, rfl⟩ := hheader hstate hk
      rw [if_neg (not_not.mpr hk), if_neg hkhead, takeNotHandled_nil rfl,
        frame_append_lines hkhead hframe, readFrame_append _ hlines, ← hnhd]
    · -- the chunk continues a line
      rw [if_pos hk, frame_append_unfinished hk hframe]
      simp only [readFrame, hlines, hnhd, List.nil_append]
  · -- the chunk continues the body
    obtain ⟨hstate', hbody'⟩ := readBody_pending hread
    obtain ⟨rest', hframe', -, hgrow⟩ := frame_append_body [] k (Or.inl hhead) hframe
    have hrest : rest' = rest ++ k := hgrow fun hkhead hnil =>
      hbody hstate' (by rw [hbody', hempty, hnil]; rfl) hkhead
    rw [operatorCall_bodyRead hstate', readBody_append_of_pending k hread, hframe', hrest]
    simp only [readFrame, hlines]

/-- Line-aligned chunks are as good as the whole message in one chunk. -/
theorem feedChunks_eq_operatorCall {chunks : List Bytes} (h : LineAligned fmt chunks) :
    feedChunks fmt (fresh fmt) chunks = operatorCall fmt (fresh fmt) chunks.flatten := by
  refine Incremental.feed_eq_step_flatten operatorCall_fresh_nil
    operatorCall_fresh_append_of_settled chunks ?_
  intro pre k post p hsplit hpre hone
  obtain ⟨hheader, hbody⟩ := h pre k post p hsplit hpre
  exact operatorCall_join hone hheader hbody

/-! ## Reads outside the chunk -/

/-- Handling a line reads nothing outside it. -/
theorem handleLine_ne_outOfBounds (hfmt : fmt.Lawful) (p : Parser F) (line : Bytes) :
    handleLine fmt p line ≠ .error .outOfBounds := by
  intro h
  simp only [handleLine] at h
  split at h
  · -- the first line: its parser returns
    obtain ⟨r, hr⟩ := hfmt.parseFirstHeader_total p.first line
    rw [hr] at h
    split at h <;> simp_all
  · -- a header line: `substr` may throw, but reads nothing outside
    rw [parseHeader_eq] at h
    cases hcut : line.cutAt Byte.colon with
    | none => simp [hcut] at h
    | some kv =>
      obtain ⟨key, rest⟩ := kv
      by_cases hrest : rest = [] <;> simp [hcut, hrest] at h

/-- A fresh parser given one chunk reads outside it only if the chunk starts with
    a line feed. -/
theorem operatorCall_fresh_ne_outOfBounds (hfmt : fmt.Lawful) {s : Bytes}
    (hhead : s.head? ≠ some Byte.lf) :
    operatorCall fmt (fresh fmt) s ≠ .error .outOfBounds := by
  intro h
  rw [operatorCall_fresh, if_neg hhead] at h
  simp only [readFrame] at h
  cases hlines : readLines fmt (fresh fmt) (frame [] s).1 with
  | error e =>
    -- a line that reads out of bounds, in some state
    simp only [hlines, Except.error.injEq] at h
    subst h
    obtain ⟨pre, line, post, p', -, -, hline⟩ :=
      Incremental.exists_last_call hlines (by simp)
    exact handleLine_ne_outOfBounds hfmt p' line hline
  | ok r =>
    obtain ⟨st, p₁⟩ := r
    cases st with
    | ready => simp [hlines] at h
    | pending =>
      have hempty := (readLines_fresh hlines).2.1
      cases htail : (frame [] s).2 with
      | unfinished u => simp [hlines, htail] at h
      | body rest =>
        simp only [hlines, htail] at h
        rw [readBody_zero] at h
        repeat' split at h
        all_goals first | (simp at h; done) | skip
        -- nothing of the body is there that could exceed the length
        rename_i hlt
        simp [hempty] at hlt

end Parser

/-! ## Messages that may be cut anywhere -/

/-- `chunks` are `s` cut into non-empty parts. -/
def Cutting (s : Bytes) (chunks : List Bytes) : Prop :=
  chunks.flatten = s ∧ ∀ k ∈ chunks, k ≠ []

/-- Two runs come to the same, without a read outside a chunk or outside
    `not_handled_data`. -/
def SameOutcome (fmt : Format F E) (c₁ c₂ : List Bytes) : Prop :=
  fmt.outcome c₁ = fmt.outcome c₂ ∧ fmt.outcome c₁ ≠ .fault .outOfBounds

/-- Any two ways of cutting `s` come to the same. -/
def ChunkingIrrelevant (fmt : Format F E) (s : Bytes) : Prop :=
  ∀ c₁ c₂, Cutting s c₁ → Cutting s c₂ → SameOutcome fmt c₁ c₂

/-- A run of line-aligned, non-empty chunks reads nothing outside them. -/
theorem outcome_ne_outOfBounds (hfmt : fmt.Lawful) {chunks : List Bytes}
    (hne : ∀ k ∈ chunks, k ≠ []) (h : Parser.LineAligned fmt chunks) :
    fmt.outcome chunks ≠ .fault .outOfBounds := by
  -- an aligned chunk does not start with a line feed
  have hhead : chunks.flatten.head? ≠ some Byte.lf := by
    cases chunks with
    | nil => simp
    | cons k ks =>
      rw [List.flatten_cons, List.head?_append_of_ne_nil k (hne k List.mem_cons_self)]
      intro hk
      exact ((h [] k ks _ rfl rfl).1 rfl (List.mem_of_mem_head? hk)).1 hk
  intro hout
  simp only [Format.outcome, Format.conclude, Parser.feedChunks_eq_operatorCall h] at hout
  have hcall := Parser.operatorCall_fresh_ne_outOfBounds hfmt hhead
  repeat' split at hout
  all_goals first | (simp at hout; done) | skip
  · rename_i f hf
    rw [Outcome.fault.injEq] at hout
    exact hcall (hout ▸ hf)
  · rename_i f hf
    rw [Outcome.fault.injEq] at hout
    -- the only fault of `create_entity` is another one
    exact absurd (hfmt.createEntity_fault _ f hf) (by rw [hout]; decide)

/-- Two line-aligned cuttings of one message come to the same. -/
theorem sameOutcome_of_lineAligned (hfmt : fmt.Lawful) {s : Bytes} {c₁ c₂ : List Bytes}
    (h₁ : Cutting s c₁) (h₂ : Cutting s c₂) (ha₁ : Parser.LineAligned fmt c₁)
    (ha₂ : Parser.LineAligned fmt c₂) : SameOutcome fmt c₁ c₂ := by
  refine ⟨?_, outcome_ne_outOfBounds hfmt h₁.2 ha₁⟩
  simp only [Format.outcome, Parser.feedChunks_eq_operatorCall ha₁,
    Parser.feedChunks_eq_operatorCall ha₂, h₁.1, h₂.1]

/-- Every cutting of a message without a line feed is line-aligned. -/
theorem lineAligned_of_not_mem {s : Bytes} {c : List Bytes} (hs : Byte.lf ∉ s) (h : Cutting s c) :
    Parser.LineAligned fmt c := by
  intro pre k post p hsplit _
  have hk : Byte.lf ∉ k := fun hmem => hs (by
    rw [← h.1, hsplit]
    simp [hmem])
  exact ⟨fun _ hmem => absurd hmem hk, fun _ _ hhead => absurd (List.mem_of_mem_head? hhead) hk⟩

/-- Cut in front of the first line feed, the parser reads in front of the second
    chunk. -/
theorem exists_cutting_outOfBounds {s : Bytes} (hs : Byte.lf ∈ s) :
    ∃ c, Cutting s c ∧ fmt.outcome c = .fault .outOfBounds := by
  obtain ⟨⟨l, r⟩, hcut⟩ : ∃ lr, s.cutAt Byte.lf = some lr := by
    rw [← Option.isSome_iff_exists, Option.isSome_iff_ne_none]
    simpa using hs
  obtain ⟨rfl, hl⟩ := List.cutAt_eq_some_iff.mp hcut
  -- a chunk that starts with its line feed is read at -1
  have hfault : ∀ p : Parser F, p.state = .headersRead →
      Parser.operatorCall fmt p (Byte.lf :: r) = .error .outOfBounds := fun p hp => by
    rw [Parser.operatorCall_headersRead hp]
    simp
  by_cases hnil : l = []
  · -- the message starts with the line feed
    subst hnil
    refine ⟨[Byte.lf :: r], ⟨by simp, by simp⟩, ?_⟩
    simp [Format.outcome, Format.conclude, Parser.feedChunks, hfault (.fresh fmt) rfl]
  · -- the first chunk has no line feed and is kept
    refine ⟨[l, Byte.lf :: r], ⟨by simp, by simp [hnil]⟩, ?_⟩
    have hfirst : Parser.operatorCall fmt (.fresh fmt) l =
        .ok (.pending, { Parser.fresh fmt with notHandledData := [] ++ l }) := by
      rw [Parser.operatorCall_headersRead rfl, if_pos hl]
      rfl
    simp [Format.outcome, Format.conclude, Parser.feedChunks, Incremental.feed, hfirst,
      hfault { Parser.fresh fmt with notHandledData := _ } rfl]

/-- A message may be cut anywhere only if no line of it ends. -/
theorem chunkingIrrelevant_iff_not_mem (hfmt : fmt.Lawful) (s : Bytes) :
    ChunkingIrrelevant fmt s ↔ Byte.lf ∉ s := by
  constructor
  · intro h hs
    obtain ⟨c, hc, hout⟩ : ∃ c, Cutting s c ∧ fmt.outcome c = .fault .outOfBounds :=
      exists_cutting_outOfBounds hs
    exact (h c c hc hc).2 hout
  · intro hs c₁ c₂ h₁ h₂
    exact sameOutcome_of_lineAligned hfmt h₁ h₂ (lineAligned_of_not_mem hs h₁)
      (lineAligned_of_not_mem hs h₂)

/-- For either parser the cutting of a message is irrelevant exactly if the
    message has no line feed; line-aligned cuttings of any message agree. -/
theorem chunking_sameOutcome_iff (s : Bytes) :
    (ChunkingIrrelevant requestFormat s ↔ Byte.lf ∉ s) ∧
    (ChunkingIrrelevant responseFormat s ↔ Byte.lf ∉ s) ∧
    (∀ c₁ c₂, Cutting s c₁ → Cutting s c₂ → Parser.LineAligned requestFormat c₁ →
      Parser.LineAligned requestFormat c₂ → SameOutcome requestFormat c₁ c₂) ∧
    (∀ c₁ c₂, Cutting s c₁ → Cutting s c₂ → Parser.LineAligned responseFormat c₁ →
      Parser.LineAligned responseFormat c₂ → SameOutcome responseFormat c₁ c₂) :=
  ⟨chunkingIrrelevant_iff_not_mem requestFormat_lawful s,
    chunkingIrrelevant_iff_not_mem responseFormat_lawful s,
    fun _ _ h₁ h₂ ha₁ ha₂ => sameOutcome_of_lineAligned requestFormat_lawful h₁ h₂ ha₁ ha₂,
    fun _ _ h₁ h₂ ha₁ ha₂ => sameOutcome_of_lineAligned responseFormat_lawful h₁ h₂ ha₁ ha₂⟩

/-- The message in one chunk is accepted; cut between CR and LF it is read out of
    bounds. -/
theorem chunking_cut_between_cr_lf :
    ¬ ChunkingIrrelevant requestFormat (ascii "GET / HTTP/1.1\r\n\r\n") := by
  intro h
  have hsame := h [ascii "GET / HTTP/1.1\r\n\r\n"] [ascii "GET / HTTP/1.1\r", ascii "\n\r\n"]
    ⟨by decide, by decide⟩ ⟨by decide, by decide⟩
  exact absurd hsame.1 (by decide +kernel)

end Webserv.Http
