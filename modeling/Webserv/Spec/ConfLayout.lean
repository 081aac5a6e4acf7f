import Webserv.Spec.ConfParser

/-!
# Parsing undoes rendering

Every way of laying out the tokens of a configuration as text is tokenized
into these tokens again, and the parser rebuilds the items they came from,
grouped by their first word.

## Key results

- `tokenize_laysOut`: the tokens of a layout
- `run_toks`, `run_toksOf`: the parser reads an item, and a list of items
- `from_laysOut`: what `ServConf::from` returns for a layout
-/

namespace Webserv.Conf

open ServConf

/-! ## Layouts -/

/-- A word: not empty, and without a character that ends words. -/
def IsWord (w : Bytes) : Prop := w ≠ [] ∧ ∀ c ∈ w, keychars.contains c = false

/-- The tokens that are one character. -/
def marks : List (Tok × UInt8) :=
  [(.openBrace, Byte.leftBrace), (.closeBrace, Byte.rightBrace), (.semicolon, Byte.semicolon)]

/-- `LaysOut afterWord ts text`: `text` lays out the tokens `ts`, with blanks and
    comments between them.  Directly behind a word (`afterWord`) no word can stand. -/
inductive LaysOut : Bool → List Tok → Bytes → Prop where
  | nil (afterWord : Bool) : LaysOut afterWord [] []
  | blank {ts : List Tok} {text : Bytes} (afterWord : Bool) (c : UInt8)
      (hc : c = Byte.space ∨ c = Byte.lf ∨ c = Byte.tab) (h : LaysOut false ts text) :
      LaysOut afterWord ts (c :: text)
  | comment {ts : List Tok} {text : Bytes} (afterWord : Bool) (body : Bytes)
      (hbody : Byte.lf ∉ body) (h : LaysOut false ts text) :
      LaysOut afterWord ts (Byte.hash :: (body ++ Byte.lf :: text))
  | word {ts : List Tok} {text : Bytes} (w : Bytes) (hw : IsWord w) (h : LaysOut true ts text) :
      LaysOut false (.word w :: ts) (w ++ text)
  | mark {ts : List Tok} {text : Bytes} (afterWord : Bool) (t : Tok) (c : UInt8)
      (ht : (t, c) ∈ marks) (h : LaysOut false ts text) : LaysOut afterWord (t :: ts) (c :: text)

/-! ## The tokenizer on a layout -/

/-- The token `str` holds, if there is one. -/
def pendingToken (str : Bytes) : List Bytes := if str ≠ [] then [str] else []

/-- `add_token` flushes the word. -/
theorem addToken_eq (str : Bytes) (tokens : List Bytes) :
    addToken str tokens = ([], tokens ++ pendingToken str) := by
  by_cases h : str = []
  · simp [addToken, pendingToken, h]
  · simp [addToken, pendingToken, h]

/-- A blank ends the word. -/
theorem tokenizeLoop_blank {c : UInt8} (rest str : Bytes) (tokens : List Bytes)
    (hc : c = Byte.space ∨ c = Byte.lf ∨ c = Byte.tab) :
    tokenizeLoop (c :: rest) str tokens = tokenizeLoop rest [] (tokens ++ pendingToken str) := by
  have hkey : keychars.contains c = true := by
    rcases hc with rfl | rfl | rfl <;> decide
  rw [tokenizeLoop]
  simp only [hkey, hc, not_true, ↓reduceIte, addToken_eq]

/-- The comment has no newline in it. -/
theorem ne_lf_of_mem_comment {body : Bytes} (hbody : Byte.lf ∉ body) :
    ∀ c ∈ Byte.hash :: body, decide (c ≠ Byte.lf) = true := by
  intro c hc
  rcases List.mem_cons.mp hc with rfl | hc
  · decide
  · exact decide_eq_true fun heq => hbody (heq ▸ hc)

/-- A comment ends the word and is one token. -/
theorem tokenizeLoop_comment (body rest str : Bytes) (tokens : List Bytes)
    (hbody : Byte.lf ∉ body) :
    tokenizeLoop (Byte.hash :: (body ++ Byte.lf :: rest)) str tokens =
      tokenizeLoop rest [] (tokens ++ pendingToken str ++ [Byte.hash :: body]) := by
  have hall := ne_lf_of_mem_comment hbody
  have hsplit : Byte.hash :: (body ++ Byte.lf :: rest) = (Byte.hash :: body) ++ Byte.lf :: rest := rfl
  -- the loop over the comment takes all of it
  have htake : (Byte.hash :: (body ++ Byte.lf :: rest)).takeWhile (· ≠ Byte.lf) =
      Byte.hash :: body := by
    rw [hsplit, List.takeWhile_append_of_pos hall]
    simp
  -- and leaves the newline
  have hdrop : (Byte.hash :: (body ++ Byte.lf :: rest)).dropWhile (· ≠ Byte.lf) =
      Byte.lf :: rest := by
    rw [hsplit, List.dropWhile_append_of_pos hall]
    simp
  rw [tokenizeLoop, htake, hdrop]
  have hkey : keychars.contains Byte.hash = true := by decide
  have hblank : ¬ (Byte.hash = Byte.space ∨ Byte.hash = Byte.lf ∨ Byte.hash = Byte.tab) := by decide
  simp only [hkey, hblank, not_true, ↓reduceIte, addToken_eq, List.nil_append, List.tail_cons]
  rfl

/-- A mark ends the word and is one token. -/
theorem tokenizeLoop_mark {t : Tok} {c : UInt8} (rest str : Bytes) (tokens : List Bytes)
    (ht : (t, c) ∈ marks) :
    tokenizeLoop (c :: rest) str tokens =
        tokenizeLoop rest [] (tokens ++ pendingToken str ++ [[c]]) ∧ classify [c] = some t := by
  -- there are three marks
  have hall : ∀ m ∈ marks, keychars.contains m.2 = true ∧
      ¬ (m.2 = Byte.space ∨ m.2 = Byte.lf ∨ m.2 = Byte.tab) ∧ m.2 ≠ Byte.hash ∧
      classify [m.2] = some m.1 := by decide
  obtain ⟨hkey, hblank, hhash, hclass⟩ := hall (t, c) ht
  refine ⟨?_, hclass⟩
  rw [tokenizeLoop]
  simp only [hkey, hblank, hhash, not_true, ↓reduceIte, addToken_eq]

/-- The characters of a word are collected. -/
theorem tokenizeLoop_word (w rest str : Bytes) (tokens : List Bytes)
    (hw : ∀ c ∈ w, keychars.contains c = false) :
    tokenizeLoop (w ++ rest) str tokens = tokenizeLoop rest (str ++ w) tokens := by
  induction w generalizing str with
  | nil => simp
  | cons c w ih =>
    have hc := hw c List.mem_cons_self
    rw [List.cons_append, tokenizeLoop]
    simp only [hc, Bool.false_eq_true, not_false_eq_true, ↓reduceIte]
    rw [ih _ fun b hb => hw b (List.mem_cons_of_mem c hb)]
    simp

/-- A word is a word. -/
theorem classify_word {w : Bytes} (hw : IsWord w) : classify w = some (.word w) := by
  obtain ⟨c, cs, rfl⟩ := List.exists_cons_of_ne_nil hw.1
  have hkey := hw.2 c List.mem_cons_self
  -- no character of a word is special
  have hne : ∀ b ∈ keychars, c ≠ b := by
    rintro b hb rfl
    simp [hb] at hkey
  have hhash := hne Byte.hash (by decide)
  have hopen := hne Byte.leftBrace (by decide)
  have hclose := hne Byte.rightBrace (by decide)
  have hsemicolon := hne Byte.semicolon (by decide)
  simp [classify, hhash, hopen, hclose, hsemicolon]

/-- The tokenizer, behind the tokens `tokens` and with `str` as the word it stands
    behind, adds the tokens of a layout and its comments. -/
theorem tokenizeLoop_laysOut {afterWord : Bool} {ts : List Tok} {text : Bytes}
    (h : LaysOut afterWord ts text) (str : Bytes) (tokens : List Bytes)
    (hstr : afterWord = false → str = []) :
    ∃ added, tokenizeLoop text str tokens = tokens ++ pendingToken str ++ added ∧
      dropComments added = ts := by
  induction h generalizing str tokens with
  | nil => exact ⟨[], by rw [tokenizeLoop, addToken_eq, List.append_nil], rfl⟩
  | blank afterWord c hc h ih =>
    obtain ⟨added, hadded, hdrop⟩ := ih [] (tokens ++ pendingToken str) fun _ => rfl
    refine ⟨added, ?_, hdrop⟩
    rw [tokenizeLoop_blank _ _ _ hc, hadded]
    simp [pendingToken]
  | comment afterWord body hbody h ih =>
    -- a token of the tokenizer, but none of the text
    obtain ⟨added, hadded, hdrop⟩ :=
      ih [] (tokens ++ pendingToken str ++ [Byte.hash :: body]) fun _ => rfl
    refine ⟨(Byte.hash :: body) :: added, ?_, ?_⟩
    · rw [tokenizeLoop_comment _ _ _ _ hbody, hadded]
      simp [pendingToken]
    · rw [dropComments_comment added rfl, hdrop]
  | word w hw h ih =>
    -- the word is not a token yet: it stays in `str`
    obtain ⟨added, hadded, hdrop⟩ := ih w tokens (by simp)
    refine ⟨w :: added, ?_, ?_⟩
    · rw [hstr rfl, tokenizeLoop_word _ _ _ _ hw.2, List.nil_append, hadded]
      simp [pendingToken, hw.1]
    · rw [dropComments_cons added (classify_word hw), hdrop]
  | mark afterWord t c ht h ih =>
    obtain ⟨hloop, hclass⟩ := tokenizeLoop_mark (t := t) (c := c) _ str tokens ht
    obtain ⟨added, hadded, hdrop⟩ := ih [] (tokens ++ pendingToken str ++ [[c]]) fun _ => rfl
    refine ⟨[c] :: added, ?_, ?_⟩
    · rw [hloop, hadded]
      simp [pendingToken]
    · rw [dropComments_cons added hclass, hdrop]

/-- A layout is tokenized into its tokens. -/
theorem toks_laysOut {ts : List Tok} {text : Bytes} (h : LaysOut false ts text) :
    toks text = ts := by
  obtain ⟨added, hadded, hdrop⟩ := tokenizeLoop_laysOut h [] [] fun _ => rfl
  rw [toks, tokenize, hadded]
  exact hdrop

/-! ## The nodes of items -/

/-- The first word of an item. -/
def Item.key : Item → Bytes
  | .operator key _ => key
  | .block key _ _ _ => key

mutual

/-- The node of an item: its other words, and for a block its items grouped by
    their first words. -/
def Item.node : Item → Node
  | .operator _ args => .mk args none
  | .block _ args first rest =>
    .mk args (some (SortedEntries.groupByKey ((first.key, first.node) :: entriesOf rest)))

/-- The nodes of a list of items, each with its first word. -/
def entriesOf : List Item → List (Bytes × Node)
  | [] => []
  | item :: rest => (item.key, item.node) :: entriesOf rest

end

/-- The node map of a file. -/
def nodesOf (file : List Item) : NodeMap := SortedEntries.groupByKey (entriesOf file)

/-- The words of an item behind its first one. -/
def Item.args : Item → List Bytes
  | .operator _ args => args
  | .block _ args _ _ => args

/-- The items of a block; an operator has none. -/
def Item.children : Item → Option (List Item)
  | .operator _ _ => none
  | .block _ _ first rest => some (first :: rest)

/-- What a program sees of the node of an item. -/
theorem node_accessors (item : Item) :
    item.node.getArgs = item.args ∧ item.node.isOperator = item.children.isNone ∧
      ∀ key, item.node.getByKey key =
        item.children.bind fun items => SortedEntries.find? key (nodesOf items) := by
  cases item with
  | operator key args =>
    rw [Item.node]
    exact ⟨rfl, rfl, fun _ => rfl⟩
  | block key args first rest =>
    rw [Item.node, ← entriesOf]
    exact ⟨rfl, rfl, fun _ => rfl⟩

/-- The vector of a key holds the nodes of its items in document order. -/
theorem find?_nodesOf (file : List Item) (key : Bytes) :
    SortedEntries.find? key (nodesOf file) =
      if key ∈ file.map Item.key then some ((file.filter (·.key = key)).map Item.node) else none := by
  -- an entry for each item
  have hentries : entriesOf file = file.map fun item => (item.key, item.node) := by
    induction file with
    | nil => rw [entriesOf, List.map_nil]
    | cons item rest ih => rw [entriesOf, ih, List.map_cons]
  rw [nodesOf, SortedEntries.find?_groupByKey, hentries]
  by_cases hkey : key ∈ file.map Item.key
  · rw [if_pos hkey, if_pos (by simpa using hkey), List.filter_map, List.map_map]
    congr 2
    exact List.filter_congr fun item _ => by simp
  · rw [if_neg hkey, if_neg (by simpa using hkey)]

/-- Pushing the nodes of a file one by one makes its node map. -/
theorem foldl_push_entriesOf (file : List Item) :
    (entriesOf file).foldl (fun nodes e => SortedEntries.push nodes e.1 e.2) [] = nodesOf file :=
  SortedEntries.foldl_push_eq_groupByKey _

/-- The node of a block. -/
theorem node_block (key : Bytes) (args : List Bytes) (first : Item) (rest : List Item) :
    (Item.block key args first rest).node = .mk args (some (nodesOf (first :: rest))) := by
  rw [Item.node, nodesOf, entriesOf]

/-- Items have nodes. -/
theorem nodesOf_cons_ne_nil (first : Item) (rest : List Item) : nodesOf (first :: rest) ≠ [] := by
  -- the key of the first item is found
  have hfind := SortedEntries.find?_groupByKey (entriesOf (first :: rest)) first.key
  intro hnil
  rw [nodesOf] at hnil
  rw [hnil, if_pos (by simp [entriesOf])] at hfind
  cases hfind

/-! ## The parser on the tokens of items -/

/-- Comments in front of a token are passed over. -/
theorem run_skip {tokens : List Bytes} {t : Tok} {ts : List Tok}
    (h : dropComments tokens = t :: ts) :
    ∃ token rest, classify token = some t ∧ dropComments rest = ts ∧
      ∀ depth currTokens nodes, run tokens depth currTokens nodes =
        run (token :: rest) depth currTokens nodes := by
  induction tokens with
  | nil => cases h
  | cons token rest ih =>
    cases hclass : classify token with
    -- a comment in front is passed over
    | none =>
      rw [dropComments_comment rest hclass] at h
      obtain ⟨token', rest', hclass', hdrop', hrun⟩ := ih h
      refine ⟨token', rest', hclass', hdrop', fun depth currTokens nodes => ?_⟩
      rw [run_cons, hclass]
      exact hrun depth currTokens nodes
    | some t' =>
      rw [dropComments_cons rest hclass] at h
      obtain ⟨rfl, rfl⟩ := List.cons.inj h
      exact ⟨token, rest, hclass, rfl, fun _ _ _ => rfl⟩

/-- Words are collected up to the token behind them. -/
theorem run_words {tokens : List Bytes} {t : Tok} {ts : List Tok} (ws : List Bytes)
    (h : dropComments tokens = wordToks ws ++ t :: ts) :
    ∃ token rest, classify token = some t ∧ dropComments rest = ts ∧
      ∀ depth currTokens nodes, run tokens depth currTokens nodes =
        run (token :: rest) depth (currTokens ++ ws) nodes := by
  induction ws generalizing tokens with
  | nil =>
    obtain ⟨token, rest, hclass, hdrop, hrun⟩ := run_skip h
    refine ⟨token, rest, hclass, hdrop, fun depth currTokens nodes => ?_⟩
    rw [hrun, List.append_nil]
  | cons w ws ih =>
    obtain ⟨token, rest, hclass, hdrop, hrun⟩ := run_skip h
    -- the word is added to those that wait
    obtain ⟨token', rest', hclass', hdrop', hrun'⟩ := ih hdrop
    refine ⟨token', rest', hclass', hdrop', fun depth currTokens nodes => ?_⟩
    rw [hrun, run_cons, hclass]
    show run rest depth (currTokens ++ [w]) nodes = _
    rw [hrun', List.append_assoc]
    rfl

mutual

/-- The parser reads an item and pushes its node. -/
theorem run_toks (item : Item) {tokens : List Bytes} {ts : List Tok}
    (h : dropComments tokens = item.toks ++ ts) :
    ∃ rest, dropComments rest = ts ∧ ∀ depth nodes, run tokens depth [] nodes =
      run rest depth [] (SortedEntries.push nodes item.key item.node) := by
  cases item with
  | operator key args =>
    rw [Item.toks, List.append_assoc] at h
    obtain ⟨token, rest, hclass, hdrop, hrun⟩ := run_words _ h
    refine ⟨rest, hdrop, fun depth nodes => ?_⟩
    rw [hrun, run_cons, hclass]
    rfl
  | block key args first items =>
    rw [Item.toks, List.append_assoc, List.cons_append, List.append_assoc, List.append_assoc] at h
    obtain ⟨token, rest, hclass, hdrop, hrun⟩ := run_words _ h
    -- the items of the block, and the brace behind them
    obtain ⟨rest₁, hdrop₁, hrun₁⟩ := run_toks first hdrop
    obtain ⟨rest₂, hdrop₂, hrun₂⟩ := run_toksOf items hdrop₁
    obtain ⟨brace, rest₃, hclass₃, hdrop₃, hrun₃⟩ := run_skip hdrop₂
    have hblock : ∀ depth, run rest (depth + 1) [] [] = .ok (nodesOf (first :: items), rest₃) := by
      intro depth
      rw [hrun₁, hrun₂, hrun₃, run_cons, hclass₃, ← foldl_push_entriesOf, entriesOf]
      simp
    refine ⟨rest₃, hdrop₃, fun depth nodes => ?_⟩
    rw [hrun, run_cons, hclass, node_block]
    simp [hblock, nodesOf_cons_ne_nil, Item.key]

/-- The parser reads a list of items. -/
theorem run_toksOf (items : List Item) {tokens : List Bytes} {ts : List Tok}
    (h : dropComments tokens = toksOf items ++ ts) :
    ∃ rest, dropComments rest = ts ∧ ∀ depth nodes, run tokens depth [] nodes =
      run rest depth [] ((entriesOf items).foldl
        (fun nodes e => SortedEntries.push nodes e.1 e.2) nodes) := by
  cases items with
  | nil =>
    rw [toksOf, List.nil_append] at h
    exact ⟨tokens, h, fun depth nodes => by rw [entriesOf, List.foldl_nil]⟩
  | cons item items =>
    rw [toksOf, List.append_assoc] at h
    -- the first item is read, then the others
    obtain ⟨rest, hdrop, hrun⟩ := run_toks item h
    obtain ⟨rest', hdrop', hrun'⟩ := run_toksOf items hdrop
    refine ⟨rest', hdrop', fun depth nodes => ?_⟩
    rw [hrun, hrun', entriesOf, List.foldl_cons]

end

/-! ## Whole files -/

/-- Trailing comments are passed over. -/
theorem run_comments {tokens : List Bytes} (h : dropComments tokens = []) (depth : Nat)
    (nodes : NodeMap) : run tokens depth [] nodes = .ok (nodes, []) := by
  induction tokens with
  | nil => simp [run_nil]
  | cons token rest ih =>
    cases hclass : classify token with
    -- a comment is read over
    | none =>
      rw [dropComments_comment rest hclass] at h
      rw [run_cons, hclass]
      exact ih h
    | some t =>
      rw [dropComments_cons rest hclass] at h
      cases h

/-- What `ServConf::from` returns for a layout of a file: the nodes of its items,
    grouped by first word at every level.  Under a key stand the nodes of its items
    in document order, and a node shows what its item has. -/
theorem from_laysOut {file : List Item} {text : Bytes} (h : LaysOut false (toksOf file) text) :
    ServConf.from text = .ok ⟨nodesOf file⟩ ∧
    (∀ items key, SortedEntries.find? key (nodesOf items) =
      if key ∈ items.map Item.key then some ((items.filter (·.key = key)).map Item.node)
      else none) ∧
    ∀ item : Item, item.node.getArgs = item.args ∧
      item.node.isOperator = item.children.isNone ∧
      ∀ key, item.node.getByKey key =
        item.children.bind fun items => SortedEntries.find? key (nodesOf items) := by
  refine ⟨?_, find?_nodesOf, node_accessors⟩
  have htoks := toks_laysOut h
  rw [← List.append_nil (toksOf file), toks] at htoks
  -- behind the items there can only be comments
  obtain ⟨rest, hdrop, hrun⟩ := run_toksOf file htoks
  have hparse : parse (tokenize text) 0 = .ok (nodesOf file, []) := by
    show run (tokenize text) 0 [] [] = _
    rw [hrun, run_comments hdrop, foldl_push_entriesOf]
  simp [ServConf.from, hparse]

/-- A block with a comment in it. -/
theorem from_laysOut_block :
    ServConf.from (ascii "h x\x7b#c\ny;\x7d\n") =
      .ok ⟨nodesOf [.block (ascii "h") [ascii "x"] (.operator (ascii "y") []) []]⟩ := by
  have hword : ∀ w ∈ [ascii "h", ascii "x", ascii "y"], IsWord w := by
    unfold IsWord
    decide +kernel
  -- token by token, with the blanks and the comment between them
  have h : LaysOut false [.word (ascii "h"), .word (ascii "x"), .openBrace, .word (ascii "y"),
      .semicolon, .closeBrace]
      (ascii "h" ++ Byte.space :: (ascii "x" ++ Byte.leftBrace :: Byte.hash :: (ascii "c" ++
        Byte.lf :: (ascii "y" ++ [Byte.semicolon, Byte.rightBrace, Byte.lf])))) :=
    .word _ (hword _ (by decide)) <| .blank _ _ (by decide) <|
      .word _ (hword _ (by decide)) <| .mark _ _ _ (by decide) <|
      .comment _ _ (by decide) <| .word _ (hword _ (by decide)) <|
      .mark _ _ _ (by decide) <| .mark _ _ _ (by decide) <| .blank _ _ (by decide) <| .nil _
  have hlaid : LaysOut false (toksOf [.block (ascii "h") [ascii "x"] (.operator (ascii "y") []) []])
      (ascii "h x\x7b#c\ny;\x7d\n") := h
  exact (from_laysOut hlaid).1

end Webserv.Conf
