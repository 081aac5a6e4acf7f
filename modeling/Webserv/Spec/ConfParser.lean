import Webserv.Native.ServConf
import Webserv.Spec.ConfGrammar

/-!
# What `ServConf::from` accepts

The parser checks what stands in front of every `{`, `}` and `;`, and that the
text ends neither in words nor in an opened block; that is `scan` without its
strict part.  It drops words in front of a `}` and takes the end of the text
for the end of every open block.

## Key results

- `run_cons`: one turn of the parser's loop, by the kind of token
- `scan_iff_run`: the parser returns on exactly what the lax pass accepts
- `from_isOk_iff`: the texts `ServConf::from` accepts
- `from_isOk_iff_sentence`: the texts on which that agrees with the grammar
-/

namespace Webserv.Conf

open ServConf

/-! ## Tokens of a text -/

/-- The kind of a token; `none` is a comment. -/
def classify (token : Bytes) : Option Tok :=
  if token.headD Byte.nul = Byte.hash then none
  else if token.headD Byte.nul = Byte.leftBrace then some .openBrace
  else if token.headD Byte.nul = Byte.rightBrace then some .closeBrace
  else if token.headD Byte.nul = Byte.semicolon then some .semicolon
  else some (.word token)

/-- The tokens without the comments. -/
def dropComments (tokens : List Bytes) : List Tok := tokens.filterMap classify

/-- A comment is dropped. -/
theorem dropComments_comment {token : Bytes} (rest : List Bytes) (h : classify token = none) :
    dropComments (token :: rest) = dropComments rest := by
  rw [dropComments, List.filterMap_cons, h]
  rfl

/-- Another token is kept. -/
theorem dropComments_cons {token : Bytes} {t : Tok} (rest : List Bytes)
    (h : classify token = some t) : dropComments (token :: rest) = t :: dropComments rest := by
  rw [dropComments, List.filterMap_cons, h]
  rfl

/-- The tokens of a text with the comments dropped. -/
def toks (s : Bytes) : List Tok := dropComments (tokenize s)

/-! ## One turn of the loop -/

/-- `parse` in the middle of its loop. -/
def run (tokens : List Bytes) (depth : Nat) (currTokens : List Bytes) (nodes : NodeMap) :
    Except ParseErr (NodeMap × List Bytes) :=
  (parseLoop tokens depth currTokens nodes).map Subtype.val

/-- A longer bound on what is left changes nothing. -/
theorem map_weaken {tokens tokens' : List Bytes} (h : tokens.length ≤ tokens'.length)
    (r : Parsed tokens) : (r.weaken h).map Subtype.val = r.map Subtype.val := by
  cases r <;> rfl

/-- The end of the text; words that are left are reported. -/
theorem run_nil (depth : Nat) (currTokens : List Bytes) (nodes : NodeMap) :
    run [] depth currTokens nodes =
      if currTokens = [] then .ok (nodes, []) else .error .operatorNotClosed := by
  rw [run, parseLoop]
  by_cases h : currTokens = []
  · simp [h, Except.map]
  · simp [h, Except.map]

/-- One turn of the loop, by the kind of token. -/
theorem run_cons (token : Bytes) (rest : List Bytes) (depth : Nat) (currTokens : List Bytes)
    (nodes : NodeMap) :
    run (token :: rest) depth currTokens nodes =
      match classify token with
      | none => run rest depth currTokens nodes
      | some .openBrace =>
        match currTokens with
        | [] => .error .blockHasNoKey
        | key :: args =>
          match run rest (depth + 1) [] [] with
          | .error e => .error e
          | .ok (res, rest') =>
            if res = [] then .error .blockIsEmpty
            else run rest' depth [] (SortedEntries.push nodes key (.mk args (some res)))
      | some .closeBrace => if depth = 0 then .error .extraBracket else .ok (nodes, rest)
      | some .semicolon =>
        match currTokens with
        | [] => .error .operatorIsEmpty
        | key :: args => run rest depth [] (SortedEntries.push nodes key (.mk args none))
      | some (.word w) => run rest depth (currTokens ++ [w]) nodes := by
  rw [run, parseLoop.eq_def]
  simp only [run, classify]
  -- the tests of the first character, in the order of the source
  by_cases hhash : token.headD Byte.nul = Byte.hash
  · simp only [hhash, ↓reduceIte, map_weaken]
  simp only [hhash, ↓reduceIte]
  -- an opening brace: the block is read by a call of its own
  by_cases hopen : token.headD Byte.nul = Byte.leftBrace
  · simp only [hopen, ↓reduceIte]
    cases currTokens with
    | nil => rfl
    | cons key args =>
      cases parseLoop rest (depth + 1) [] [] with
      | error e => rfl
      | ok r =>
        obtain ⟨⟨res, rest'⟩, hle⟩ := r
        cases res with
        | nil => rfl
        | cons e es =>
          simp only [List.isEmpty_cons, Bool.false_eq_true, ↓reduceIte, map_weaken]
          rfl
  simp only [hopen, ↓reduceIte]
  -- a closing brace ends this call
  by_cases hclose : token.headD Byte.nul = Byte.rightBrace
  · simp only [hclose, ↓reduceIte]
    split <;> rfl
  simp only [hclose, ↓reduceIte]
  by_cases hsemicolon : token.headD Byte.nul = Byte.semicolon
  · simp only [hsemicolon, ↓reduceIte]
    cases currTokens with
    | nil => rfl
    | cons key args => simp only [map_weaken]
  simp only [hsemicolon, ↓reduceIte, map_weaken]

/-- A call leaves no more tokens than it was given. -/
theorem length_le_of_run {tokens rest currTokens : List Bytes} {depth : Nat} {nodes res : NodeMap}
    (h : run tokens depth currTokens nodes = .ok (res, rest)) : rest.length ≤ tokens.length := by
  unfold run at h
  cases hloop : parseLoop tokens depth currTokens nodes with
  | error e => simp [hloop, Except.map] at h
  | ok r =>
    -- the loop carries the bound with its result
    have hle := r.2
    simp only [hloop, Except.map, Except.ok.injEq] at h
    rwa [h] at hle

/-! ## The parser and the lax pass -/

/-- There is something after a push. -/
theorem isEmpty_push (nodes : NodeMap) (key : Bytes) (node : Node) :
    (SortedEntries.push nodes key node).isEmpty = false :=
  List.isEmpty_eq_false_iff.mpr (SortedEntries.push_ne_nil nodes key node)

/-- The parser returns on exactly what the lax pass accepts.  Inside a block it
    returns nodes, and leaves tokens the pass accepts one level up. -/
theorem scan_iff_run (tokens : List Bytes) (depth : Nat) (currTokens : List Bytes)
    (nodes : NodeMap) :
    scan false depth (!currTokens.isEmpty) (decide (0 < depth) && nodes.isEmpty)
        (dropComments tokens) = true ↔
      ∃ res rest, run tokens depth currTokens nodes = .ok (res, rest) ∧
        (0 < depth → res ≠ [] ∧ scan false (depth - 1) false false (dropComments rest) = true) := by
  -- induction on the tokens that are left
  induction hn : tokens.length using Nat.strong_induction_on
    generalizing tokens depth currTokens nodes with
  | _ n ih =>
  cases tokens with
  | nil =>
    rw [run_nil, dropComments, List.filterMap_nil]
    cases currTokens with
    | nil =>
      cases nodes <;> simp [scan, dropComments]
    | cons w ws => simp [scan]
  | cons token rest =>
    simp only [List.length_cons] at hn
    rw [run_cons]
    cases hclass : classify token with
    | none =>
      rw [dropComments_comment rest hclass]
      exact ih _ (by omega) rest depth currTokens nodes rfl
    | some t =>
      rw [dropComments_cons rest hclass]
      cases t with
      | word w =>
        have hwords : (!(currTokens ++ [w]).isEmpty) = true := by simp
        have hrest := ih _ (by omega) rest depth (currTokens ++ [w]) nodes rfl
        rw [hwords] at hrest
        exact hrest
      | closeBrace =>
        -- what is in `currTokens` plays no part
        cases nodes <;> cases depth <;> simp [scan]
      | semicolon =>
        cases currTokens with
        | nil => simp [scan]
        | cons key args =>
          have hrest := ih _ (by omega) rest depth []
            (SortedEntries.push nodes key (.mk args none)) rfl
          rw [isEmpty_push, Bool.and_false] at hrest
          simpa [scan] using hrest
      | openBrace =>
        cases currTokens with
        | nil => simp [scan]
        | cons key args =>
          -- first the block, then what follows it
          have hblock := ih _ (by omega) rest (depth + 1) [] [] rfl
          simp only [List.isEmpty_nil, Bool.not_true, Nat.zero_lt_succ, decide_true, Bool.and_true,
            Nat.add_sub_cancel, forall_const] at hblock
          simp only [scan, List.isEmpty_cons, Bool.not_false, Bool.true_and, hblock]
          cases hrun : run rest (depth + 1) [] [] with
          | error e => simp
          | ok r =>
            obtain ⟨res, rest'⟩ := r
            have hlen := length_le_of_run hrun
            -- an empty block is refused behind its brace
            by_cases hres : res = []
            · simp [hres]
            · have hrest := ih _ (by omega) rest' depth []
                (SortedEntries.push nodes key (.mk args (some res))) rfl
              rw [isEmpty_push, Bool.and_false] at hrest
              simpa [hres] using hrest

/-! ## What is accepted -/

/-- `ServConf::from` accepts the texts the lax pass accepts. -/
theorem from_isOk_iff (s : Bytes) : (ServConf.from s).isOk = true ↔ WellPlaced (toks s) := by
  have hscan := scan_iff_run (tokenize s) 0 [] []
  have hfile := scan_file_iff false (toks s)
  simp only [List.isEmpty_nil, Bool.not_true, Nat.lt_irrefl, decide_false, Bool.false_and,
    false_implies, and_true] at hscan
  simp only [Bool.false_eq_true, false_implies, and_true] at hfile
  rw [← hfile, toks, hscan]
  unfold ServConf.from
  rw [show parse (tokenize s) 0 = run (tokenize s) 0 [] [] from rfl]
  -- at depth zero nothing is left to be read
  cases run (tokenize s) 0 [] [] with
  | error e => simp [Except.isOk, Except.toBool]
  | ok r =>
    obtain ⟨nodes, rest⟩ := r
    simp [Except.isOk, Except.toBool]

/-- The texts on which the parser agrees with the grammar: those with a token out of
    place, and those that close all they open. -/
theorem from_isOk_iff_sentence (s : Bytes) :
    ((ServConf.from s).isOk = true ↔ Sentence (toks s)) ↔
      (WellPlaced (toks s) → Closed (toks s)) := by
  rw [from_isOk_iff, sentence_iff]
  tauto

/-- A block that the text leaves open, and one that drops the words in front of its
    `}`. -/
theorem from_accepts_unclosed :
    ¬ ((ServConf.from (ascii "a \x7b b;")).isOk = true ↔ Sentence (toks (ascii "a \x7b b;"))) ∧
      ¬ ((ServConf.from (ascii "a \x7b b; c \x7d")).isOk = true ↔
        Sentence (toks (ascii "a \x7b b; c \x7d"))) := by
  constructor
  · rw [sentence_iff_scan]
    decide +kernel
  · rw [sentence_iff_scan]
    decide +kernel

end Webserv.Conf
