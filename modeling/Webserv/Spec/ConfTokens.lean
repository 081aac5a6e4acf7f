import Mathlib.Data.List.TakeWhile
import Webserv.Spec.ConfLayout

/-!
# The tokenizer loses nothing

Every text is taken apart into words, marks and comments.  What is between them
is dropped, and a newline cuts the text in two.

## Key results

- `text_induction`: texts by what stands in front
- `fits_iff_classify`: a token is of the one kind the parser takes it for
- `tokenize_lossless`: every token, all tokens together, and texts of lines
-/

namespace Webserv.Conf

open ServConf

/-! ## Texts -/

/-- A character that ends words is a blank, a mark or the start of a comment. -/
theorem keychars_cases {c : UInt8} (h : keychars.contains c = true) :
    (c = Byte.space ∨ c = Byte.lf ∨ c = Byte.tab) ∨ c = Byte.hash ∨ ∃ t, (t, c) ∈ marks := by
  -- the special characters are few
  have hall : ∀ c ∈ keychars, (c = Byte.space ∨ c = Byte.lf ∨ c = Byte.tab) ∨ c = Byte.hash ∨
      c ∈ marks.map Prod.snd := by decide +kernel
  obtain hblank | hhash | hmark := hall c (List.contains_iff_mem.mp h)
  · exact .inl hblank
  · exact .inr (.inl hhash)
  · obtain ⟨⟨t, _⟩, hmem, rfl⟩ := List.mem_map.mp hmark
    exact .inr (.inr ⟨t, hmem⟩)

/-- A text is empty, or behind a character, or behind a comment. -/
theorem text_induction {P : Bytes → Prop} (nil : P [])
    (word : ∀ c rest, keychars.contains c = false → P rest → P (c :: rest))
    (blank : ∀ c rest, (c = Byte.space ∨ c = Byte.lf ∨ c = Byte.tab) → P rest → P (c :: rest))
    (mark : ∀ t c rest, (t, c) ∈ marks → P rest → P (c :: rest))
    (comment : ∀ body rest, Byte.lf ∉ body → P rest →
      P (Byte.hash :: (body ++ Byte.lf :: rest)))
    (lastComment : ∀ body, Byte.lf ∉ body → P (Byte.hash :: body)) (s : Bytes) : P s := by
  match s with
  | [] => exact nil
  | c :: rest =>
    have hrest := text_induction nil word blank mark comment lastComment rest
    cases hkey : keychars.contains c with
    | false => exact word c rest hkey hrest
    | true =>
      obtain hblank | rfl | ⟨t, ht⟩ := keychars_cases hkey
      · exact blank c rest hblank hrest
      · -- the loop over a comment stops behind its newline or at the end of the text
        by_cases hlf : Byte.lf ∈ rest
        · obtain ⟨body, rest', hsplit, hbody⟩ := List.eq_append_cons_of_mem hlf
          have hrest' := text_induction nil word blank mark comment lastComment rest'
          exact hsplit ▸ comment body rest' hbody hrest'
        · exact lastComment rest hlf
      · exact mark t c rest ht hrest
termination_by s.length
decreasing_by
  · simp
  · rw [hsplit]
    simp only [List.length_cons, List.length_append]
    omega

/-- The characters of the tokens: the blanks outside the comments, and the newlines that end
    comments, are not among them. -/
def stripped : (inComment : Bool) → Bytes → Bytes
  | _, [] => []
  | true, c :: rest => if c = Byte.lf then stripped false rest else c :: stripped true rest
  | false, c :: rest =>
    if c = Byte.space ∨ c = Byte.lf ∨ c = Byte.tab then stripped false rest
    else c :: stripped (c = Byte.hash) rest

/-- A character of a word is kept. -/
theorem stripped_word {c : UInt8} (rest : Bytes) (h : keychars.contains c = false) :
    stripped false (c :: rest) = c :: stripped false rest := by
  have hne : ∀ b ∈ keychars, c ≠ b := by
    rintro b hb rfl
    simp [hb] at h
  simp [stripped, hne Byte.space (by decide), hne Byte.lf (by decide), hne Byte.tab (by decide),
    hne Byte.hash (by decide)]

/-- A mark is kept. -/
theorem stripped_mark {t : Tok} {c : UInt8} (rest : Bytes) (h : (t, c) ∈ marks) :
    stripped false (c :: rest) = c :: stripped false rest := by
  have hall : ∀ m ∈ marks, ¬(m.2 = Byte.space ∨ m.2 = Byte.lf ∨ m.2 = Byte.tab) ∧
      m.2 ≠ Byte.hash := by decide
  obtain ⟨hblank, hhash⟩ := hall (t, c) h
  rw [stripped, if_neg hblank, decide_eq_false hhash]

/-- What a comment says is kept. -/
theorem stripped_inComment {body : Bytes} (rest : Bytes) (h : Byte.lf ∉ body) :
    stripped true (body ++ rest) = body ++ stripped true rest := by
  induction body with
  | nil => rfl
  | cons c body ih =>
    rw [List.mem_cons, not_or] at h
    rw [List.cons_append, stripped, if_neg (Ne.symm h.1), ih h.2, List.cons_append]

/-- A comment starts. -/
theorem stripped_hash (rest : Bytes) :
    stripped false (Byte.hash :: rest) = Byte.hash :: stripped true rest := rfl

/-! ## The loop -/

/-- A comment at the end of the text. -/
theorem tokenizeLoop_lastComment (body str : Bytes) (tokens : List Bytes)
    (hbody : Byte.lf ∉ body) :
    tokenizeLoop (Byte.hash :: body) str tokens =
      tokens ++ pendingToken str ++ [Byte.hash :: body] := by
  have hall := ne_lf_of_mem_comment hbody
  -- nothing is left behind the comment
  have hkey : keychars.contains Byte.hash = true := by decide
  have hblank : ¬ (Byte.hash = Byte.space ∨ Byte.hash = Byte.lf ∨ Byte.hash = Byte.tab) := by decide
  rw [tokenizeLoop, List.takeWhile_eq_self_iff.mpr hall, List.dropWhile_eq_nil_iff.mpr hall]
  simp only [hkey, hblank, not_true, ↓reduceIte, addToken_eq, List.nil_append, List.tail_nil]
  rw [tokenizeLoop, addToken_eq]
  simp [pendingToken]

/-- The word at the end of the text is a token. -/
theorem tokenizeLoop_nil (str : Bytes) (tokens : List Bytes) :
    tokenizeLoop [] str tokens = tokens ++ pendingToken str := by
  rw [tokenizeLoop, addToken_eq]

/-- A character is added to the word. -/
theorem tokenizeLoop_wordChar {c : UInt8} (rest str : Bytes) (tokens : List Bytes)
    (h : keychars.contains c = false) :
    tokenizeLoop (c :: rest) str tokens = tokenizeLoop rest (str ++ [c]) tokens :=
  tokenizeLoop_word [c] rest str tokens (by simpa using h)

/-- The token of a word says what the word says. -/
@[simp] theorem flatten_pendingToken (str : Bytes) : (pendingToken str).flatten = str := by
  by_cases h : str = []
  · simp [pendingToken, h]
  · simp [pendingToken, h]

/-- The tokens together are what is collected and the rest of the text. -/
theorem flatten_tokenizeLoop (s str : Bytes) (tokens : List Bytes) :
    (tokenizeLoop s str tokens).flatten = tokens.flatten ++ str ++ stripped false s := by
  induction s using text_induction generalizing str tokens with
  | nil => simp [tokenizeLoop_nil, stripped]
  | word c rest hc ih =>
    rw [tokenizeLoop_wordChar _ _ _ hc, ih, stripped_word _ hc]
    simp
  | blank c rest hc ih =>
    rw [tokenizeLoop_blank _ _ _ hc, ih, stripped, if_pos hc]
    simp
  | mark t c rest ht ih =>
    rw [(tokenizeLoop_mark _ _ _ ht).1, ih, stripped_mark _ ht]
    simp
  | comment body rest hbody ih =>
    rw [tokenizeLoop_comment _ _ _ _ hbody, ih, stripped_hash, stripped_inComment _ hbody, stripped,
      if_pos rfl]
    simp
  | lastComment body hbody =>
    -- no newline to remove
    have hstripped : stripped true body = body := by
      simpa [stripped] using stripped_inComment [] hbody
    rw [tokenizeLoop_lastComment _ _ _ hbody, stripped_hash, hstripped]
    simp

/-- The tokens that are there stay in front. -/
theorem tokenizeLoop_append_tokens (s str : Bytes) (tokens tokens' : List Bytes) :
    tokenizeLoop s str (tokens ++ tokens') = tokens ++ tokenizeLoop s str tokens' := by
  -- the tokens that are done are only ever appended to
  induction s using text_induction generalizing str tokens' with
  | nil => rw [tokenizeLoop_nil, tokenizeLoop_nil, List.append_assoc]
  | word c rest hc ih => rw [tokenizeLoop_wordChar _ _ _ hc, tokenizeLoop_wordChar _ _ _ hc, ih]
  | blank c rest hc ih =>
    rw [tokenizeLoop_blank _ _ _ hc, tokenizeLoop_blank _ _ _ hc, List.append_assoc, ih]
  | mark t c rest ht ih =>
    rw [(tokenizeLoop_mark _ _ _ ht).1, (tokenizeLoop_mark _ _ _ ht).1, List.append_assoc,
      List.append_assoc, ih, List.append_assoc]
  | comment body rest hbody ih =>
    rw [tokenizeLoop_comment _ _ _ _ hbody, tokenizeLoop_comment _ _ _ _ hbody, List.append_assoc,
      List.append_assoc, ih, List.append_assoc]
  | lastComment body hbody =>
    rw [tokenizeLoop_lastComment _ _ _ hbody, tokenizeLoop_lastComment _ _ _ hbody,
      List.append_assoc, List.append_assoc, List.append_assoc]

/-- The tokens of the rest come behind those that are there. -/
theorem tokenizeLoop_tokenize (s : Bytes) (tokens : List Bytes) :
    tokenizeLoop s [] tokens = tokens ++ tokenize s := by
  rw [tokenize, ← tokenizeLoop_append_tokens, List.append_nil]

/-- Behind a newline the tokenizer starts anew. -/
theorem tokenizeLoop_lf (s t str : Bytes) (tokens : List Bytes) :
    tokenizeLoop (s ++ Byte.lf :: t) str tokens = tokenizeLoop s str tokens ++ tokenize t := by
  induction s using text_induction generalizing str tokens with
  | nil =>
    rw [List.nil_append, tokenizeLoop_blank _ _ _ (.inr (.inl rfl)), tokenizeLoop_tokenize,
      tokenizeLoop_nil]
  | word c rest hc ih =>
    rw [List.cons_append, tokenizeLoop_wordChar _ _ _ hc, ih, tokenizeLoop_wordChar _ _ _ hc]
  | blank c rest hc ih =>
    rw [List.cons_append, tokenizeLoop_blank _ _ _ hc, ih, tokenizeLoop_blank _ _ _ hc]
  | mark t c rest ht ih =>
    rw [List.cons_append, (tokenizeLoop_mark _ _ _ ht).1, ih, (tokenizeLoop_mark _ _ _ ht).1]
  | comment body rest hbody ih =>
    rw [List.cons_append, List.append_assoc, List.cons_append, tokenizeLoop_comment _ _ _ _ hbody,
      ih, tokenizeLoop_comment _ _ _ _ hbody]
  | lastComment body hbody =>
    -- the newline ends the comment
    rw [List.cons_append, tokenizeLoop_comment _ _ _ _ hbody, tokenizeLoop_tokenize,
      tokenizeLoop_lastComment _ _ _ hbody]

/-! ## The kinds of tokens -/

/-- What a token of a kind looks like; `none` is a comment. -/
def Fits (token : Bytes) : Option Tok → Prop
  | none => token.head? = some Byte.hash ∧ Byte.lf ∉ token
  | some (.word w) => w = token ∧ IsWord token
  | some .openBrace => token = [Byte.leftBrace]
  | some .closeBrace => token = [Byte.rightBrace]
  | some .semicolon => token = [Byte.semicolon]

/-- No token is empty. -/
theorem Fits.ne_nil {token : Bytes} {kind : Option Tok} (h : Fits token kind) : token ≠ [] := by
  rintro rfl
  match kind, h with
  | none, h => simp [Fits] at h
  | some (.word w), h => exact h.2.1 rfl
  | some .openBrace, h => simp [Fits] at h
  | some .closeBrace, h => simp [Fits] at h
  | some .semicolon, h => simp [Fits] at h

/-- The parser looks at the first character only. -/
theorem Fits.classify_eq {token : Bytes} {kind : Option Tok} (h : Fits token kind) :
    classify token = kind := by
  match kind, h with
  | none, h =>
    have hhead : token.headD Byte.nul = Byte.hash := by
      rw [List.headD_eq_head?_getD, h.1]
      rfl
    -- a comment is told by its first character
    rw [classify, if_pos hhead]
  | some (.word w), h => rw [h.1, classify_word h.2]
  | some .openBrace, h => rw [show token = [Byte.leftBrace] from h]; rfl
  | some .closeBrace, h => rw [show token = [Byte.rightBrace] from h]; rfl
  | some .semicolon, h => rw [show token = [Byte.semicolon] from h]; rfl

/-- A token of some kind is of the one kind the parser takes it for. -/
theorem fits_iff_classify {token : Bytes} (h : ∃ kind, Fits token kind) (kind : Option Tok) :
    Fits token kind ↔ kind = classify token := by
  constructor
  · exact fun hkind => hkind.classify_eq.symm
  · rintro rfl
    obtain ⟨kind, hkind⟩ := h
    exact hkind.classify_eq ▸ hkind

/-- A mark is a token of its kind. -/
theorem fits_mark {t : Tok} {c : UInt8} (h : (t, c) ∈ marks) : Fits [c] (some t) := by
  simp only [marks, List.mem_cons, Prod.mk.injEq, List.not_mem_nil, or_false] at h
  rcases h with ⟨rfl, rfl⟩ | ⟨rfl, rfl⟩ | ⟨rfl, rfl⟩ <;> rfl

/-- A comment is a token of no kind. -/
theorem fits_comment {body : Bytes} (h : Byte.lf ∉ body) : Fits (Byte.hash :: body) none :=
  ⟨rfl, List.not_mem_cons_of_ne_of_not_mem (by decide) h⟩

/-- What is collected is a word. -/
theorem fits_append_pendingToken {str : Bytes} {tokens : List Bytes}
    (hstr : ∀ c ∈ str, keychars.contains c = false)
    (htokens : ∀ token ∈ tokens, ∃ kind, Fits token kind) :
    ∀ token ∈ tokens ++ pendingToken str, ∃ kind, Fits token kind := by
  intro token hmem
  rcases List.mem_append.mp hmem with hmem | hmem
  · exact htokens token hmem
  · unfold pendingToken at hmem
    split at hmem
    · -- the word was not empty
      rename_i hne
      obtain rfl := List.mem_singleton.mp hmem
      exact ⟨some (.word token), rfl, hne, hstr⟩
    · simp at hmem

/-- One token more. -/
theorem fits_append {tokens : List Bytes} {added : Bytes} {kind : Option Tok}
    (htokens : ∀ token ∈ tokens, ∃ kind, Fits token kind) (h : Fits added kind) :
    ∀ token ∈ tokens ++ [added], ∃ kind, Fits token kind :=
  List.forall_mem_append.mpr ⟨htokens, List.forall_mem_singleton.mpr ⟨kind, h⟩⟩

/-- The loop adds tokens of a kind only. -/
theorem fits_tokenizeLoop (s str : Bytes) (tokens : List Bytes)
    (hstr : ∀ c ∈ str, keychars.contains c = false)
    (htokens : ∀ token ∈ tokens, ∃ kind, Fits token kind) :
    ∀ token ∈ tokenizeLoop s str tokens, ∃ kind, Fits token kind := by
  induction s using text_induction generalizing str tokens with
  | nil =>
    rw [tokenizeLoop_nil]
    exact fits_append_pendingToken hstr htokens
  | word c rest hc ih =>
    rw [tokenizeLoop_wordChar _ _ _ hc]
    -- the word grows by a character that is not special
    exact ih _ _ (List.forall_mem_append.mpr ⟨hstr, List.forall_mem_singleton.mpr hc⟩) htokens
  | blank c rest hc ih =>
    rw [tokenizeLoop_blank _ _ _ hc]
    exact ih _ _ (by simp) (fits_append_pendingToken hstr htokens)
  | mark t c rest ht ih =>
    have hpending := fits_append_pendingToken hstr htokens
    rw [(tokenizeLoop_mark _ _ _ ht).1]
    exact ih _ _ (by simp) (fits_append hpending (fits_mark ht))
  | comment body rest hbody ih =>
    have hpending := fits_append_pendingToken hstr htokens
    rw [tokenizeLoop_comment _ _ _ _ hbody]
    exact ih _ _ (by simp) (fits_append hpending (fits_comment hbody))
  | lastComment body hbody =>
    have hpending := fits_append_pendingToken hstr htokens
    rw [tokenizeLoop_lastComment _ _ _ hbody]
    exact fits_append hpending (fits_comment hbody)

/-! ## The tokenizer -/

/-- Every token is of one kind, the one the parser takes it for; the tokens together are the
    text without the blanks outside the comments and the newlines that end comments; a newline
    cuts the text in two. -/
theorem tokenize_lossless :
    (∀ s, ∀ token ∈ tokenize s, token ≠ [] ∧
      ∀ kind, Fits token kind ↔ kind = classify token) ∧
    (∀ s, (tokenize s).flatten = stripped false s) ∧
    (∀ s t, tokenize (s ++ Byte.lf :: t) = tokenize s ++ tokenize t) := by
  refine ⟨fun s token htoken => ?_, fun s => ?_, fun s t => tokenizeLoop_lf s t [] []⟩
  · obtain ⟨kind, hkind⟩ := fits_tokenizeLoop s [] [] (by simp) (by simp) token htoken
    exact ⟨hkind.ne_nil, fits_iff_classify ⟨kind, hkind⟩⟩
  · exact flatten_tokenizeLoop s [] []

example : tokenize [Byte.hash, Byte.space, Byte.lf, Byte.semicolon] =
    [[Byte.hash, Byte.space], [Byte.semicolon]] := by decide +kernel

end Webserv.Conf
