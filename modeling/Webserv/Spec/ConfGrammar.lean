import Webserv.ForStd.List
import Webserv.Native.Bytes

/-!
# The grammar of configuration files

`file := item*` and `item := word+ ';' | word+ '{' item+ '}'`, as trees
(`Item`) and their token lists.  Whether a token list is a sentence can be told
by looking at each token and what stands in front of it: `scan` does that in
one pass.

## Key results

- `scan_iff`: the pass finds exactly the misplaced tokens
- `sentence_iff_scan`: the strict pass accepts the sentences of the grammar
- `sentence_iff`: a sentence is a list without misplaced tokens that closes
  every run of words and every block
-/

namespace Webserv.Conf

/-! ## Trees and token lists -/

inductive Tok where
  | word (w : Bytes)
  | openBrace
  | closeBrace
  | semicolon
deriving DecidableEq, Repr

/-- An item of a configuration: a word list that is not empty, and for a block an
    item list that is not empty. -/
inductive Item where
  | operator (key : Bytes) (args : List Bytes)
  | block (key : Bytes) (args : List Bytes) (first : Item) (rest : List Item)

/-- The tokens of a run of words. -/
def wordToks (ws : List Bytes) : List Tok := ws.map .word

mutual

/-- `item := word+ ';' | word+ '{' item+ '}'` -/
def Item.toks : Item → List Tok
  | .operator key args => wordToks (key :: args) ++ [.semicolon]
  | .block key args first rest =>
    wordToks (key :: args) ++ .openBrace :: (first.toks ++ toksOf rest ++ [.closeBrace])

/-- `file := item*` -/
def toksOf : List Item → List Tok
  | [] => []
  | item :: rest => item.toks ++ toksOf rest

end

/-- The token list of a file. -/
def Sentence (ts : List Tok) : Prop := ∃ file, toksOf file = ts

/-- The tokens of a file, item by item. -/
theorem toksOf_cons (item : Item) (rest : List Item) :
    toksOf (item :: rest) = item.toks ++ toksOf rest := by
  rw [toksOf]

/-- The tokens of a block. -/
theorem toks_block (key : Bytes) (args : List Bytes) (first : Item) (rest : List Item) :
    (Item.block key args first rest).toks =
      wordToks (key :: args) ++ .openBrace :: (toksOf (first :: rest) ++ [.closeBrace]) := by
  rw [Item.toks, toksOf_cons]

/-! ## What a token needs in front of it -/

def Tok.isWord : Tok → Bool
  | .word _ => true
  | _ => false

/-- The last token is a word. -/
def endsInWord (ts : List Tok) : Bool := ts.getLast?.any Tok.isWord

/-- Only words stand behind the last other token, and that one is a `{`. -/
def endsInOpening (ts : List Tok) : Bool :=
  (ts.reverse.dropWhile Tok.isWord).head? == some .openBrace

/-- What has to stand in front of a token: `pre` is all of it. -/
def Expected (pre : List Tok) : Tok → Prop
  | .word _ => True
  | .openBrace => endsInWord pre = true
  | .semicolon => endsInWord pre = true
  | .closeBrace => pre.count .closeBrace < pre.count .openBrace ∧ endsInOpening pre = false

/-- No key is missing in front of a `{` or a `;`, every `}` closes a block that is
    not empty, and neither words nor a `{` end the list. -/
structure WellPlaced (ts : List Tok) : Prop where
  expected : ∀ pre t post, ts = pre ++ t :: post → Expected pre t
  endWord : endsInWord ts = false
  endOpening : endsInOpening ts = false

/-- No run of words is ended by a `}`, and every `{` is matched. -/
structure Closed (ts : List Tok) : Prop where
  words : ∀ pre post, ts = pre ++ .closeBrace :: post → endsInWord pre = false
  braces : ts.count .openBrace = ts.count .closeBrace

/-- The last token decides. -/
@[simp] theorem endsInWord_concat (ts : List Tok) (t : Tok) : endsInWord (ts ++ [t]) = t.isWord := by
  simp [endsInWord]

/-- Words behind an opening brace do not fill the block. -/
@[simp] theorem endsInOpening_concat (ts : List Tok) (t : Tok) :
    endsInOpening (ts ++ [t]) =
      match t with
      | .word _ => endsInOpening ts
      | .openBrace => true
      | _ => false := by
  cases t <;> simp [endsInOpening, Tok.isWord, List.dropWhile_cons]

/-! ## One pass over the tokens -/

/-- Look for misplaced tokens: `depth` blocks are open, `words` stand in front,
    and the block is `empty` so far.  If `strict`, words in front of a `}` and
    blocks open at the end count as misplaced, too. -/
def scan (strict : Bool) : Nat → Bool → Bool → List Tok → Bool
  | depth, words, empty, [] => !words && !empty && (!strict || depth == 0)
  | depth, _, empty, .word _ :: ts => scan strict depth true empty ts
  | depth, words, _, .openBrace :: ts => words && scan strict (depth + 1) false true ts
  | depth, words, _, .semicolon :: ts => words && scan strict depth false false ts
  | depth, words, empty, .closeBrace :: ts =>
    decide (0 < depth) && !empty && (!strict || !words) && scan strict (depth - 1) false false ts

/-- A property of all ways to split a list behind `seen`, at its first element and
    behind that. -/
theorem forall_split_cons {α : Type} {seen as : List α} {a : α} {P : List α → α → Prop} :
    (∀ pre t post, a :: as = pre ++ t :: post → P (seen ++ pre) t) ↔
      P seen a ∧ ∀ pre t post, as = pre ++ t :: post → P (seen ++ [a] ++ pre) t := by
  constructor
  · intro h
    refine ⟨by simpa using h [] a as rfl, fun pre t post hsplit => ?_⟩
    simpa using h (a :: pre) t post (by rw [hsplit]; rfl)
  · rintro ⟨hfirst, hrest⟩ pre t post hsplit
    cases pre with
    -- the token is the first one, or it is in the rest
    | nil =>
      obtain ⟨rfl, rfl⟩ := List.cons.inj hsplit
      simpa using hfirst
    | cons b pre =>
      obtain ⟨rfl, rfl⟩ := List.cons.inj hsplit
      simpa using hrest pre t post rfl

/-- What a pass wants in front of a token. -/
def Placed (strict : Bool) (pre : List Tok) (t : Tok) : Prop :=
  Expected pre t ∧ (strict = true → t = .closeBrace → endsInWord pre = false)

/-- A word may stand everywhere. -/
@[simp] theorem placed_word (strict : Bool) (pre : List Tok) (w : Bytes) :
    Placed strict pre (.word w) := by simp [Placed, Expected]

/-- A block has a name. -/
@[simp] theorem placed_openBrace {strict : Bool} {pre : List Tok} :
    Placed strict pre .openBrace ↔ endsInWord pre = true := by simp [Placed, Expected]

/-- An operator has a name. -/
@[simp] theorem placed_semicolon {strict : Bool} {pre : List Tok} :
    Placed strict pre .semicolon ↔ endsInWord pre = true := by simp [Placed, Expected]

/-- A closing brace ends a block that is open and not empty. -/
@[simp] theorem placed_closeBrace {strict : Bool} {pre : List Tok} :
    Placed strict pre .closeBrace ↔ pre.count .closeBrace < pre.count .openBrace ∧
      endsInOpening pre = false ∧ (strict = true → endsInWord pre = false) := by
  simp [Placed, Expected, and_assoc]

/-- The pass, behind the tokens `seen`, finds exactly the misplaced tokens. -/
theorem scan_iff (strict : Bool) (seen ts : List Tok)
    (hseen : seen.count .closeBrace ≤ seen.count .openBrace) :
    scan strict (seen.count .openBrace - seen.count .closeBrace) (endsInWord seen)
        (endsInOpening seen) ts = true ↔
      (∀ pre t post, ts = pre ++ t :: post → Placed strict (seen ++ pre) t) ∧
        endsInWord (seen ++ ts) = false ∧ endsInOpening (seen ++ ts) = false ∧
        (strict = true → (seen ++ ts).count .openBrace = (seen ++ ts).count .closeBrace) := by
  induction ts generalizing seen with
  | nil =>
    have hdepth : seen.count Tok.openBrace - seen.count Tok.closeBrace = 0 ↔
        seen.count Tok.openBrace = seen.count Tok.closeBrace := by omega
    cases strict <;> simp [scan, hdepth, and_assoc]
  | cons t ts ih =>
    -- what is seen grows by one token
    have happ : seen ++ t :: ts = seen ++ [t] ++ ts := by simp
    rw [forall_split_cons, happ]
    have hstep := ih (seen ++ [t])
    rw [endsInWord_concat, endsInOpening_concat, List.count_append, List.count_append] at hstep
    cases t with
    | word w =>
      simp only [List.count_singleton, Tok.isWord] at hstep
      -- a word is never misplaced
      have hstep := hstep hseen
      simpa [scan] using hstep
    | openBrace =>
      -- the depth grows with the brace
      have hopen : (seen.count Tok.openBrace + 1) - seen.count Tok.closeBrace =
          seen.count Tok.openBrace - seen.count Tok.closeBrace + 1 := by omega
      simp only [List.count_singleton, Tok.isWord] at hstep
      simp only [beq_self_eq_true, ↓reduceIte, beq_iff_eq, reduceCtorEq, Nat.add_zero, hopen] at hstep
      have hstep := hstep (by omega)
      rw [scan, Bool.and_eq_true, placed_openBrace, hstep, and_assoc]
    | closeBrace =>
      simp only [List.count_singleton, Tok.isWord] at hstep
      simp only [beq_self_eq_true, ↓reduceIte, beq_iff_eq, reduceCtorEq, Nat.add_zero] at hstep
      have hstrict : (!strict || !endsInWord seen) = true ↔
          (strict = true → endsInWord seen = false) := by cases strict <;> simp
      by_cases hlt : seen.count Tok.closeBrace < seen.count Tok.openBrace
      · -- the brace closes a block
        have hclose : seen.count Tok.openBrace - (seen.count Tok.closeBrace + 1) =
            seen.count Tok.openBrace - seen.count Tok.closeBrace - 1 := by omega
        have hstep := hstep (by omega)
        rw [hclose] at hstep
        have hdepth : 0 < seen.count Tok.openBrace - seen.count Tok.closeBrace := by omega
        rw [scan, Bool.and_eq_true, Bool.and_eq_true, Bool.and_eq_true, hstep, hstrict,
          placed_closeBrace]
        simp only [decide_eq_true hdepth, hlt, Bool.not_eq_true', true_and, and_assoc]
      · -- the brace closes nothing
        have hdepth : ¬ 0 < seen.count Tok.openBrace - seen.count Tok.closeBrace := by omega
        simp [scan, hdepth, hlt]
    | semicolon =>
      simp only [List.count_singleton, Tok.isWord] at hstep
      simp only [beq_iff_eq, reduceCtorEq, ↓reduceIte, Nat.add_zero] at hstep
      have hstep := hstep hseen
      rw [scan, Bool.and_eq_true, placed_semicolon, hstep, and_assoc]

/-! ## Sentences -/

/-- The words of an item are read one by one. -/
theorem scan_wordToks (strict : Bool) (depth : Nat) (words empty : Bool) (ws : List Bytes)
    (ts : List Tok) :
    scan strict depth words empty (wordToks ws ++ ts) =
      scan strict depth (words || !ws.isEmpty) empty ts := by
  induction ws generalizing words with
  | nil => simp [wordToks]
  | cons w ws ih =>
    show scan strict depth true empty (wordToks ws ++ ts) = _
    rw [ih]
    simp

mutual

/-- The pass goes over an item. -/
theorem scan_toks (depth : Nat) (empty : Bool) (item : Item) (ts : List Tok) :
    scan true depth false empty (item.toks ++ ts) = scan true depth false false ts := by
  cases item with
  | operator key args =>
    rw [Item.toks, List.append_assoc, scan_wordToks]
    simp [scan]
  | block key args first rest =>
    rw [Item.toks, List.append_assoc, scan_wordToks]
    simp only [List.cons_append, List.append_assoc, scan, List.isEmpty_cons]
    -- the first item makes the block non-empty
    rw [scan_toks, scan_toksOf]
    simp [scan]

/-- The pass goes over the rest of an item list. -/
theorem scan_toksOf (depth : Nat) (items : List Item) (ts : List Tok) :
    scan true depth false false (toksOf items ++ ts) = scan true depth false false ts := by
  cases items with
  | nil => rw [toksOf, List.nil_append]
  | cons item rest =>
    rw [toksOf, List.append_assoc, scan_toks, scan_toksOf]

end

/-- Every sentence passes. -/
theorem scan_of_sentence {ts : List Tok} (h : Sentence ts) : scan true 0 false false ts = true := by
  obtain ⟨file, rfl⟩ := h
  rw [← List.append_nil (toksOf file), scan_toksOf]
  rfl

/-- Items up to the end of the tokens, or in a block up to the `}` that ends it and
    tokens that pass. -/
def ReadsItems (depth : Nat) (empty : Bool) (ts : List Tok) (items : List Item) : Prop :=
  match depth with
  | 0 => ts = toksOf items
  | depth + 1 => ∃ post, ts = toksOf items ++ .closeBrace :: post ∧
      (empty = true → items ≠ []) ∧ scan true depth false false post = true

/-- One item more in front. -/
theorem ReadsItems.cons {depth : Nat} {ts : List Tok} {items : List Item} (empty : Bool)
    (item : Item) (h : ReadsItems depth false ts items) :
    ReadsItems depth empty (item.toks ++ ts) (item :: items) := by
  cases depth with
  | zero =>
    show item.toks ++ ts = toksOf (item :: items)
    rw [toksOf_cons, show ts = toksOf items from h]
  | succ depth =>
    -- the item is inside the open block
    obtain ⟨post, rfl, -, hpost⟩ := h
    exact ⟨post, by rw [toksOf_cons, List.append_assoc], by simp, hpost⟩

/-- What passes is made of items; `ws` are words already seen. -/
theorem items_of_scan (depth : Nat) (ws : List Bytes) (empty : Bool) (ts : List Tok)
    (h : scan true depth (!ws.isEmpty) empty ts = true) :
    ∃ items, ReadsItems depth empty (wordToks ws ++ ts) items := by
  -- a block is read first, and then what its reading leaves
  induction hn : ts.length using Nat.strong_induction_on generalizing depth ws empty ts with
  | _ n ih =>
  cases ts with
  | nil =>
    simp only [scan, Bool.and_eq_true, Bool.not_eq_true', Bool.not_eq_false', Bool.not_true,
      Bool.false_or, beq_iff_eq, List.isEmpty_iff] at h
    -- the end of the text is outside all blocks
    obtain ⟨⟨rfl, -⟩, rfl⟩ := h
    exact ⟨[], rfl⟩
  | cons t ts =>
    simp only [List.length_cons] at hn
    cases t with
    | word w =>
      -- the word is one of the item that is being read
      have happ : wordToks ws ++ Tok.word w :: ts = wordToks (ws ++ [w]) ++ ts := by
        simp [wordToks]
      have hwords : (!(ws ++ [w]).isEmpty) = true := by simp
      rw [happ]
      exact ih _ (by omega) depth (ws ++ [w]) empty ts (by rw [hwords]; exact h) rfl
    | semicolon =>
      simp only [scan, Bool.and_eq_true] at h
      -- the words up to the semicolon are an operator
      obtain ⟨key, args, rfl⟩ := List.exists_cons_of_ne_nil (by simpa using h.1 : ws ≠ [])
      obtain ⟨items, hitems⟩ := ih _ (by omega) depth [] false ts h.2 rfl
      refine ⟨.operator key args :: items, ?_⟩
      have hitem := hitems.cons empty (.operator key args)
      simpa [Item.toks, wordToks] using hitem
    | openBrace =>
      simp only [scan, Bool.and_eq_true] at h
      obtain ⟨key, args, rfl⟩ := List.exists_cons_of_ne_nil (by simpa using h.1 : ws ≠ [])
      -- the items of the block, and those behind it
      obtain ⟨inner, post, hinner, hne, hpost⟩ := ih _ (by omega) (depth + 1) [] true ts h.2 rfl
      obtain ⟨first, rest, rfl⟩ := List.exists_cons_of_ne_nil (hne rfl)
      simp only [wordToks, List.map_nil, List.nil_append] at hinner
      have hlen := congrArg List.length hinner
      simp only [List.length_append, List.length_cons] at hlen
      obtain ⟨items, hitems⟩ := ih _ (by omega) depth [] false post hpost rfl
      refine ⟨.block key args first rest :: items, ?_⟩
      have hitem := hitems.cons empty (.block key args first rest)
      rw [toks_block] at hitem
      simpa [hinner, wordToks] using hitem
    | closeBrace =>
      simp only [scan, Bool.and_eq_true, decide_eq_true_eq, Bool.not_eq_true', Bool.not_true,
        Bool.false_or, Bool.not_eq_false', List.isEmpty_iff] at h
      obtain ⟨⟨⟨hdepth, hempty⟩, rfl⟩, hts⟩ := h
      -- the block ends here; what follows passes one level up
      obtain ⟨depth, rfl⟩ := Nat.exists_eq_succ_of_ne_zero (Nat.pos_iff_ne_zero.mp hdepth)
      exact ⟨[], ts, rfl, by simp [hempty], hts⟩

/-- The strict pass accepts the sentences of the grammar. -/
theorem sentence_iff_scan (ts : List Tok) : Sentence ts ↔ scan true 0 false false ts = true := by
  refine ⟨scan_of_sentence, fun h => ?_⟩
  obtain ⟨items, hitems⟩ := items_of_scan 0 [] false ts h
  exact ⟨items, hitems.symm⟩

/-- A pass over a whole file. -/
theorem scan_file_iff (strict : Bool) (ts : List Tok) :
    scan strict 0 false false ts = true ↔
      WellPlaced ts ∧ (strict = true → Closed ts) := by
  have h := scan_iff strict [] ts (Nat.le_refl _)
  simp only [List.nil_append] at h
  refine h.trans ⟨?_, ?_⟩
  · -- the words in front of a closing brace are what only the strict scan forbids
    rintro ⟨hplaced, hword, hopening, hbraces⟩
    refine ⟨⟨fun pre t post hsplit => (hplaced pre t post hsplit).1, hword, hopening⟩,
      fun hstrict => ⟨fun pre post hsplit => ?_, hbraces hstrict⟩⟩
    exact (hplaced pre _ post hsplit).2 hstrict rfl
  · rintro ⟨hwell, hclosed⟩
    refine ⟨fun pre t post hsplit => ⟨hwell.expected pre t post hsplit, fun hstrict ht => ?_⟩,
      hwell.endWord, hwell.endOpening, fun hstrict => (hclosed hstrict).braces⟩
    subst ht
    exact (hclosed hstrict).words pre post hsplit

/-- A sentence is a list without misplaced tokens that closes every run of words
    and every block. -/
theorem sentence_iff (ts : List Tok) : Sentence ts ↔ WellPlaced ts ∧ Closed ts := by
  rw [sentence_iff_scan, scan_file_iff]
  simp

end Webserv.Conf
