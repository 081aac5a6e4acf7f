import Webserv.Native.HttpParser

/-!
# The first line and the header fields, without indices

`parse_header` and the two `parse_first_header` split their line with `find`
and `substr`.  Here each is restated as cuts at a delimiter, which also shows
which of them can throw.

## Key results

- `parseHeader_eq`: the only throwing line is one whose first `:` is its last byte
- `RequestParser.parseFirstHeader_eq`, `ResponseParser.parseFirstHeader_eq`:
  neither first-line parser throws
-/

namespace Webserv

/-! ## `find` and `substr` at a cut -/

/-- A search from the start is a cut. -/
theorem find_zero (s : Bytes) (c : UInt8) :
    find s c 0 = (s.cutAt c).map fun p => p.1.length := by
  simp [find, List.idxOf?_eq_map_cutAt, Function.comp_def]

/-- A search that starts behind the delimiter just found. -/
theorem find_behind (l r : Bytes) (b c : UInt8) :
    find (l ++ b :: r) c (l.length + 1) = (r.cutAt c).map fun p => l.length + 1 + p.1.length := by
  have hdrop : (l ++ b :: r).drop (l.length + 1) = r := by simp
  simp [find, hdrop, List.idxOf?_eq_map_cutAt, Function.comp_def]

/-- What stands before the delimiter. -/
theorem substr_zero_cut (l r : Bytes) (b : UInt8) :
    substr (l ++ b :: r) 0 l.length = .ok l := by
  simp [substr]

/-- What stands behind the delimiter. -/
theorem substrFrom_cut (l r : Bytes) (b : UInt8) :
    substrFrom (l ++ b :: r) (l.length + 1) = .ok r := by
  simp [substrFrom]

/-- What stands between two delimiters. -/
theorem substr_between (l m r : Bytes) (b c : UInt8) :
    substr (l ++ b :: (m ++ c :: r)) (l.length + 1)
      (l.length + 1 + m.length - l.length - 1) = .ok m := by
  have hdrop : (l ++ b :: (m ++ c :: r)).drop (l.length + 1) = m ++ c :: r := by simp
  have hlen : l.length + 1 + m.length - l.length - 1 = m.length := by omega
  rw [substr, if_neg (by simp), hdrop, hlen, List.take_left]

/-- What stands behind the second delimiter. -/
theorem substrFrom_behind (l m r : Bytes) (b c : UInt8) :
    substrFrom (l ++ b :: (m ++ c :: r)) (l.length + 1 + m.length + 1) = .ok r := by
  have hdrop : (l ++ b :: (m ++ c :: r)).drop (l.length + 1 + m.length + 1) = r := by
    -- both delimiters and what is before them are dropped at once
    have hlen : l.length + 1 + m.length + 1 = (l ++ b :: m).length + 1 := by
      simp only [List.length_append, List.length_cons]
      omega
    have happ : l ++ b :: (m ++ c :: r) = (l ++ b :: m) ++ c :: r := by simp
    rw [hlen, happ, ← List.drop_drop, List.drop_left, List.drop_one, List.tail_cons]
  rw [substrFrom, if_neg (by simp; omega), hdrop]

namespace Http

/-! ## Header fields -/

/-- `parse_header` skips one byte behind the colon without looking at it, and
    throws if there is none. -/
theorem Parser.parseHeader_eq (e : Error) (line : Bytes) :
    Parser.parseHeader e line =
      match line.cutAt Byte.colon with
      | none => .ok (.error e)
      | some (key, rest) =>
        if rest = [] then .error .outOfRange else .ok (.ok (key, rest.tail)) := by
  simp only [Parser.parseHeader, find_zero]
  cases hcut : line.cutAt Byte.colon with
  | none => rfl
  | some lr =>
    obtain ⟨key, rest⟩ := lr
    obtain ⟨rfl, -⟩ := List.cutAt_eq_some_iff.mp hcut
    have hdrop : (key ++ Byte.colon :: rest).drop (key.length + 2) = rest.tail := by
      rw [← List.drop_drop, List.drop_left, List.drop_succ_cons, List.drop_one]
    simp only [Option.map_some, substr_zero_cut, bind, Except.bind, substrFrom, List.length_append,
      List.length_cons, hdrop]
    cases rest with
    | nil => simp
    | cons b bs =>
      -- the byte behind the colon makes `substr(idx + 2)` legal
      have hlen : ¬ bs.length + 1 + 1 < 2 := by omega
      simp [hlen, pure, Except.pure]

/-! ## First lines -/

/-- The request line is cut at its first two spaces; each part has to be there. -/
theorem RequestParser.parseFirstHeader_eq (line : RequestLine) (s : Bytes) :
    RequestParser.parseFirstHeader line s = .ok
      (match s.cutAt Byte.space with
      | none => (.error .httpRequestParse, line)
      | some (method, rest) =>
        if method = [] then (.error .httpRequestParse, line)
        else
          match rest.cutAt Byte.space with
          | none => (.error .httpRequestParse, { line with method := method })
          | some (path, version) =>
            if path = [] then (.error .httpRequestParse, { line with method := method })
            else if version = [] then (.error .httpRequestParse, ⟨method, path, version⟩)
            else (.ok (), ⟨method, path, version⟩)) := by
  simp only [RequestParser.parseFirstHeader, find_zero]
  cases hcut : s.cutAt Byte.space with
  | none => rfl
  | some lr =>
    obtain ⟨method, rest⟩ := lr
    obtain ⟨rfl, -⟩ := List.cutAt_eq_some_iff.mp hcut
    simp only [Option.map_some, List.length_eq_zero_iff]
    -- no method
    split
    · rfl
    · simp only [substr_zero_cut, bind, Except.bind, find_behind]
      cases hcut' : rest.cutAt Byte.space with
      | none => rfl
      | some lr' =>
        obtain ⟨path, version⟩ := lr'
        obtain ⟨rfl, -⟩ := List.cutAt_eq_some_iff.mp hcut'
        simp only [Option.map_some, Nat.add_eq_left, List.length_eq_zero_iff]
        -- no path
        split
        · rfl
        · simp only [substr_between, substrFrom_behind]
          -- no version
          split <;> rfl

/-- The status line is cut at its first two spaces, and the code is read. -/
theorem ResponseParser.parseFirstHeader_eq (line : StatusLine) (s : Bytes) :
    ResponseParser.parseFirstHeader line s = .ok
      (match s.cutAt Byte.space with
      | none => (.error .httpResponseParse, line)
      | some (version, rest) =>
        if version = [] then (.error .httpResponseParse, line)
        else
          match rest.cutAt Byte.space with
          | none => (.error .httpResponseParse, { line with httpVersion := version })
          | some (codeText, status) =>
            if codeText = [] then (.error .httpResponseParse, { line with httpVersion := version })
            else
              match Status.fromString codeText with
              | .error e => (.error e, { line with httpVersion := version })
              | .ok code =>
                if status = [] then (.error .httpResponseParse, ⟨version, some code, status⟩)
                else (.ok (), ⟨version, some code, status⟩)) := by
  simp only [ResponseParser.parseFirstHeader, find_zero]
  cases hcut : s.cutAt Byte.space with
  | none => rfl
  | some lr =>
    obtain ⟨version, rest⟩ := lr
    obtain ⟨rfl, -⟩ := List.cutAt_eq_some_iff.mp hcut
    simp only [Option.map_some, List.length_eq_zero_iff]
    -- no version
    split
    · rfl
    · simp only [substr_zero_cut, bind, Except.bind, find_behind]
      cases hcut' : rest.cutAt Byte.space with
      | none => rfl
      | some lr' =>
        obtain ⟨codeText, status⟩ := lr'
        obtain ⟨rfl, -⟩ := List.cutAt_eq_some_iff.mp hcut'
        simp only [Option.map_some, Nat.add_eq_left, List.length_eq_zero_iff]
        -- no code
        split
        · rfl
        · simp only [substr_between, substrFrom_behind]
          cases Status.fromString codeText with
          -- the code is read before the status text is looked at
          | error e => rfl
          | ok code =>
            dsimp only
            split <;> rfl

/-! ## What the two formats have in common -/

/-- What the shared part of the parsers relies on. -/
structure Format.Lawful {F E : Type} (fmt : Format F E) : Prop where
  /-- The first-line parser does not throw. -/
  parseFirstHeader_total : ∀ first line, ∃ r, fmt.parseFirstHeader first line = .ok r
  /-- A parser without a first line has a body. -/
  initial_bodied : fmt.bodiless fmt.initial = false
  /-- A recorded error is what `create_entity` returns. -/
  createEntity_err : ∀ p e, p.err = .error e → fmt.createEntity p = .ok (.error e)
  /-- Without a recorded error `create_entity` needs an accepted first line. -/
  createEntity_ok : ∀ p first line, fmt.parseFirstHeader first line = .ok (.ok (), p.first) →
    p.err = .ok () → ∃ entity, fmt.createEntity p = .ok (.ok entity)
  createEntity_fault : ∀ p f, fmt.createEntity p = .error f → f = .badOptionalAccess

/-- Requests are such a format. -/
theorem requestFormat_lawful : requestFormat.Lawful where
  parseFirstHeader_total first line := ⟨_, RequestParser.parseFirstHeader_eq first line⟩
  initial_bodied := by decide
  createEntity_err p e h := by simp [requestFormat, RequestParser.createEntity, h, pure, Except.pure]
  createEntity_ok p first line _ h := by
    simp [requestFormat, RequestParser.createEntity, h, pure, Except.pure]
  createEntity_fault p f h := by
    simp only [requestFormat, RequestParser.createEntity] at h
    split at h <;> simp [pure, Except.pure] at h

/-- An accepted status line has a code. -/
theorem ResponseParser.code_of_parseFirstHeader {first first' : StatusLine} {line : Bytes}
    (h : ResponseParser.parseFirstHeader first line = .ok (.ok (), first')) :
    first'.code.isSome := by
  rw [ResponseParser.parseFirstHeader_eq, Except.ok.injEq] at h
  repeat' split at h
  all_goals cases h
  rfl

/-- Responses are such a format. -/
theorem responseFormat_lawful : responseFormat.Lawful where
  parseFirstHeader_total first line := ⟨_, ResponseParser.parseFirstHeader_eq first line⟩
  initial_bodied := rfl
  createEntity_err p e h := by
    simp [responseFormat, ResponseParser.createEntity, h, pure, Except.pure]
  createEntity_ok p first line hfirst h := by
    obtain ⟨code, hcode⟩ := Option.isSome_iff_exists.mp
      (ResponseParser.code_of_parseFirstHeader hfirst)
    simp [responseFormat, ResponseParser.createEntity, h, hcode, pure, Except.pure]
  -- a code that is missing is the only fault
  createEntity_fault p f h := by
    simp only [responseFormat, ResponseParser.createEntity] at h
    split at h
    · simp [pure, Except.pure] at h
    · split at h
      · exact (Except.error.inj h).symm
      · simp [pure, Except.pure] at h

end Http

end Webserv
