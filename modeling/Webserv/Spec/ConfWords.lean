import Webserv.ForStd.Except
import Webserv.Spec.ConfParser

/-!
# The words of a configuration

The parser collects words in `curr_tokens` and hands them over as the key and
the arguments of a node.  Only a `}` leaves words behind: they are neither
reported, as those at the end of the text are, nor part of a node.

## Key results

- `reads_of_run`: the runs of the parser as derivations
- `Reads.count_words`: where the words go
- `words_kept_iff`: when no word is dropped
-/

namespace Webserv.Conf

open ServConf

/-! ## Runs as derivations -/

/-- `parse` in the middle of its loop leaves these nodes and these tokens. -/
inductive Reads : List Bytes → ℕ → List Bytes → NodeMap → NodeMap → List Bytes → Prop where
  | done {depth : ℕ} {nodes : NodeMap} : Reads [] depth [] nodes nodes []
  | comment {token : Bytes} {rest left currTokens : List Bytes} {depth : ℕ} {nodes res : NodeMap}
      (hclass : classify token = none) (hrest : Reads rest depth currTokens nodes res left) :
      Reads (token :: rest) depth currTokens nodes res left
  | block {token key : Bytes} {rest rest' left args : List Bytes} {depth : ℕ}
      {nodes inner res : NodeMap} (hclass : classify token = some .openBrace)
      (hblock : Reads rest (depth + 1) [] [] inner rest') (hne : inner ≠ [])
      (hrest : Reads rest' depth [] (SortedEntries.push nodes key (.mk args (some inner)))
        res left) :
      Reads (token :: rest) depth (key :: args) nodes res left
  | close {token : Bytes} {rest currTokens : List Bytes} {depth : ℕ} {nodes : NodeMap}
      (hclass : classify token = some .closeBrace) (hdepth : depth ≠ 0) :
      Reads (token :: rest) depth currTokens nodes nodes rest
  | operator {token key : Bytes} {rest left args : List Bytes} {depth : ℕ} {nodes res : NodeMap}
      (hclass : classify token = some .semicolon)
      (hrest : Reads rest depth [] (SortedEntries.push nodes key (.mk args none)) res left) :
      Reads (token :: rest) depth (key :: args) nodes res left
  | word {token w : Bytes} {rest left currTokens : List Bytes} {depth : ℕ} {nodes res : NodeMap}
      (hclass : classify token = some (.word w))
      (hrest : Reads rest depth (currTokens ++ [w]) nodes res left) :
      Reads (token :: rest) depth currTokens nodes res left

/-- A call that returns has a derivation. -/
theorem reads_of_run {tokens left currTokens : List Bytes} {depth : ℕ} {nodes res : NodeMap}
    (h : run tokens depth currTokens nodes = .ok (res, left)) :
    Reads tokens depth currTokens nodes res left := by
  -- induction on the tokens that are left
  induction hn : tokens.length using Nat.strong_induction_on
    generalizing tokens depth currTokens nodes res left with
  | _ n ih =>
  cases tokens with
  | nil =>
    -- words at the end of the text are the one thing that is reported
    rw [run_nil] at h
    split at h
    · rename_i hnil
      subst hnil
      cases h
      exact .done
    · cases h
  | cons token rest =>
    simp only [List.length_cons] at hn
    rw [run_cons] at h
    cases hclass : classify token with
    | none =>
      rw [hclass] at h
      exact .comment hclass (ih _ (by omega) h rfl)
    | some t =>
      rw [hclass] at h
      cases t with
      -- each kind of token is a rule of `Reads`
      | word w => exact .word hclass (ih _ (by omega) h rfl)
      | closeBrace =>
        dsimp only at h
        split at h
        · cases h
        · rename_i hdepth
          cases h
          exact .close hclass hdepth
      | semicolon =>
        cases currTokens with
        | nil => cases h
        | cons key args => exact .operator hclass (ih _ (by omega) h rfl)
      | openBrace =>
        cases currTokens with
        | nil => cases h
        | cons key args =>
          dsimp only at h
          cases hblock : run rest (depth + 1) [] [] with
          | error e =>
            rw [hblock] at h
            cases h
          | ok r =>
            -- the call below took the block, and this one goes on behind it
            obtain ⟨inner, rest'⟩ := r
            rw [hblock] at h
            dsimp only at h
            split at h
            · cases h
            · rename_i hne
              have hle := length_le_of_run hblock
              exact .block hclass (ih _ (by omega) hblock rfl) hne (ih _ (by omega) h rfl)

/-- The call from outside uses up its tokens. -/
theorem Reads.left_eq_nil {tokens left currTokens : List Bytes} {depth : ℕ} {nodes res : NodeMap}
    (h : Reads tokens depth currTokens nodes res left) (hdepth : depth = 0) : left = [] := by
  induction h with
  | done => rfl
  | comment _ _ ih => exact ih hdepth
  | block _ _ _ _ _ ih => exact ih hdepth
  -- outside all blocks there is no brace to stop at
  | close _ hne => exact absurd hdepth hne
  | operator _ _ ih => exact ih hdepth
  | word _ _ ih => exact ih hdepth

/-- An accepted text has a derivation. -/
theorem reads_of_from {s : Bytes} {conf : ServConf} (h : ServConf.from s = .ok conf) :
    Reads (tokenize s) 0 [] [] conf.nodes [] := by
  unfold ServConf.from parse at h
  cases hrun : run (tokenize s) 0 [] [] with
  | error e =>
    rw [run] at hrun
    rw [hrun] at h
    cases h
  | ok r =>
    obtain ⟨nodes, left⟩ := r
    have hreads := reads_of_run hrun
    rw [run] at hrun
    rw [hrun] at h
    cases h
    -- outside of all blocks the loop ends with its tokens
    cases hreads.left_eq_nil rfl
    exact hreads

/-! ## The words of a text and of its nodes -/

mutual

/-- The words in a node: its arguments and the words below it. -/
def nodeWords : Node → List Bytes
  | .mk args none => args
  | .mk args (some nodes) => args ++ wordsOf nodes

/-- The words in a map of nodes. -/
def wordsOf : NodeMap → List Bytes
  | [] => []
  | (key, nodes) :: es => wordsUnder key nodes ++ wordsOf es

/-- The words in the nodes with a key: each has the key itself. -/
def wordsUnder (key : Bytes) : List Node → List Bytes
  | [] => []
  | node :: nodes => key :: (nodeWords node ++ wordsUnder key nodes)

end

/-- The words of a token list. -/
def wordsIn (ts : List Tok) : List Bytes :=
  ts.filterMap fun
    | .word w => some w
    | _ => none

/-- The words in front of every `}`; `ws` are those seen since the last token that was
    no word. -/
def droppedWords : (ws : List Bytes) → List Tok → List Bytes
  | _, [] => []
  | ws, .word w :: ts => droppedWords (ws ++ [w]) ts
  | ws, .closeBrace :: ts => ws ++ droppedWords [] ts
  | _, .openBrace :: ts => droppedWords [] ts
  | _, .semicolon :: ts => droppedWords [] ts

/-- The words under a key, node by node. -/
theorem wordsUnder_eq (key : Bytes) (nodes : List Node) :
    wordsUnder key nodes = nodes.flatMap fun node => key :: nodeWords node := by
  induction nodes with
  | nil => rw [wordsUnder, List.flatMap_nil]
  | cons node nodes ih => rw [wordsUnder, ih, List.flatMap_cons, List.cons_append]

/-- The words of a map, pair by pair. -/
theorem wordsOf_eq (nodes : NodeMap) :
    wordsOf nodes = (SortedEntries.pairs nodes).flatMap fun p => p.1 :: nodeWords p.2 := by
  induction nodes with
  | nil => rw [wordsOf, SortedEntries.pairs, List.flatMap_nil, List.flatMap_nil]
  | cons e es ih =>
    rw [wordsOf, wordsUnder_eq, ih, SortedEntries.pairs, SortedEntries.pairs, List.flatMap_cons,
      List.flatMap_append, List.flatMap_map]

/-- A pushed node adds its key and its own words. -/
theorem count_wordsOf_push (w : Bytes) (nodes : NodeMap) (key : Bytes) (node : Node) :
    (wordsOf (SortedEntries.push nodes key node)).count w =
      (wordsOf nodes).count w + (key :: nodeWords node).count w := by
  -- a push reorders the nodes, which no count sees
  have hperm := (SortedEntries.pairs_push nodes key node).flatMap_right
    fun p => p.1 :: nodeWords p.2
  rw [wordsOf_eq, wordsOf_eq, hperm.count_eq, List.flatMap_cons, List.count_append, Nat.add_comm]

/-- Where the words go: into the nodes, or in front of a `}`. -/
theorem Reads.count_words (w : Bytes) {tokens left currTokens : List Bytes} {depth : ℕ}
    {nodes res : NodeMap} (h : Reads tokens depth currTokens nodes res left) :
    (wordsOf res).count w + (droppedWords currTokens (dropComments tokens)).count w +
        (wordsIn (dropComments left)).count w =
      (wordsOf nodes).count w + currTokens.count w + (wordsIn (dropComments tokens)).count w +
        (droppedWords [] (dropComments left)).count w := by
  induction h with
  | done => rfl
  | @comment token rest left currTokens depth nodes res hclass _ ih =>
    rw [dropComments_comment rest hclass]
    exact ih
  | @block token key rest rest' left args depth nodes inner res hclass _ _ _ ihblock ihrest =>
    -- the words of the block are in its node
    have hnode : nodeWords (.mk args (some inner)) = args ++ wordsOf inner := by rw [nodeWords]
    have hempty : wordsOf [] = [] := by rw [wordsOf]
    rw [count_wordsOf_push, hnode, List.count_cons, List.count_append] at ihrest
    rw [hempty] at ihblock
    rw [dropComments_cons rest hclass, droppedWords, List.count_cons]
    simp only [wordsIn, List.filterMap_cons, List.count_nil] at ihblock ihrest ⊢
    omega
  | @close token rest currTokens depth nodes hclass _ =>
    -- the words in `currTokens` are in no node
    rw [dropComments_cons rest hclass, droppedWords, List.count_append]
    simp only [wordsIn, List.filterMap_cons]
    omega
  | @operator token key rest left args depth nodes res hclass _ ih =>
    -- the words are the key and the args of the new node
    have hnode : nodeWords (.mk args none) = args := by rw [nodeWords]
    rw [count_wordsOf_push, hnode, List.count_cons] at ih
    rw [dropComments_cons rest hclass, droppedWords, List.count_cons]
    simp only [wordsIn, List.filterMap_cons, List.count_nil] at ih ⊢
    omega
  | @word token v rest left currTokens depth nodes res hclass _ ih =>
    -- the word goes from the text to the words that are held
    rw [List.count_append, List.count_singleton] at ih
    rw [dropComments_cons rest hclass, droppedWords]
    simp only [wordsIn, List.filterMap_cons, List.count_cons] at ih ⊢
    omega

/-! ## When no word is dropped -/

/-- Nothing is dropped exactly when no `}` has a word in front of it. -/
theorem droppedWords_eq_nil_iff {ws : List Bytes} {seen : List Tok} (ts : List Tok)
    (hseen : endsInWord seen = !ws.isEmpty) :
    droppedWords ws ts = [] ↔ ∀ pre t post, ts = pre ++ t :: post →
      t = .closeBrace → endsInWord (seen ++ pre) = false := by
  induction ts generalizing ws seen with
  | nil => simp [droppedWords]
  | cons t ts ih =>
    rw [forall_split_cons (P := fun pre t => t = .closeBrace → endsInWord pre = false)]
    -- behind any token but a word no words have been seen
    have hnone : ∀ {t : Tok}, t.isWord = false →
        endsInWord (seen ++ [t]) = !([] : List Bytes).isEmpty := by
      intro t ht
      rw [endsInWord_concat, ht]
      rfl
    cases t with
    | word w =>
      have hword : endsInWord (seen ++ [.word w]) = !(ws ++ [w]).isEmpty := by simp [Tok.isWord]
      rw [droppedWords, ih hword]
      simp
    | openBrace =>
      rw [droppedWords, ih (hnone (t := .openBrace) rfl)]
      simp
    -- the words that are held are dropped here
    | closeBrace =>
      rw [droppedWords, List.append_eq_nil_iff, ih (hnone (t := .closeBrace) rfl), hseen]
      simp
    | semicolon =>
      rw [droppedWords, ih (hnone (t := .semicolon) rfl)]
      simp

/-- Nothing of a whole text is dropped. -/
theorem droppedWords_nil_iff (ts : List Tok) :
    droppedWords [] ts = [] ↔
      ∀ pre post, ts = pre ++ .closeBrace :: post → endsInWord pre = false := by
  have hseen : endsInWord [] = !([] : List Bytes).isEmpty := rfl
  -- of all tokens it is the closing brace that drops a word
  rw [droppedWords_eq_nil_iff ts hseen]
  constructor
  · intro h pre post hsplit
    exact h pre .closeBrace post hsplit rfl
  · intro h pre t post hsplit ht
    subst ht
    exact h pre post hsplit

/-- Each word of an accepted text is in its nodes, or one of those dropped. -/
theorem count_words_of_from {s : Bytes} {conf : ServConf} (h : ServConf.from s = .ok conf)
    (w : Bytes) :
    (wordsOf conf.nodes).count w + (droppedWords [] (toks s)).count w =
      (wordsIn (toks s)).count w := by
  have hreads := (reads_of_from h).count_words w
  have hempty : wordsOf [] = [] := by rw [wordsOf]
  rw [hempty] at hreads
  simpa [dropComments, wordsIn, droppedWords, toks] using hreads

/-- Every word of an accepted text is in its nodes as often as in the text exactly when
    none stands in front of a `}`. -/
theorem words_kept_iff {s : Bytes} {conf : ServConf} (h : ServConf.from s = .ok conf) :
    (∀ w, (wordsOf conf.nodes).count w = (wordsIn (toks s)).count w) ↔
      ∀ pre post, toks s = pre ++ .closeBrace :: post → endsInWord pre = false := by
  have hcount := count_words_of_from h
  rw [← droppedWords_nil_iff, List.eq_nil_iff_forall_not_mem]
  constructor
  · intro hkept w hw
    -- a word dropped would be counted
    have hpos := List.count_pos_iff.mpr hw
    have hsum := hcount w
    have heq := hkept w
    omega
  · intro hnone w
    have hsum := hcount w
    rwa [List.count_eq_zero_of_not_mem (hnone w), Nat.add_zero] at hsum

/-- In two blocks and two operators no word is lost. -/
theorem words_kept_nested :
    ∃ conf, ServConf.from (ascii "a \x7b b c; d \x7b e; \x7d \x7d") = .ok conf ∧
      ∀ w, (wordsOf conf.nodes).count w =
        (wordsIn (toks (ascii "a \x7b b c; d \x7b e; \x7d \x7d"))).count w := by
  obtain ⟨conf, hconf⟩ := Except.exists_ok_of_isOk
    (by decide +kernel : (ServConf.from (ascii "a \x7b b c; d \x7b e; \x7d \x7d")).isOk = true)
  have hdropped :
      droppedWords [] (toks (ascii "a \x7b b c; d \x7b e; \x7d \x7d")) = [] := by
    decide +kernel
  exact ⟨conf, hconf, (words_kept_iff hconf).mpr ((droppedWords_nil_iff _).mp hdropped)⟩

/-- The word in front of the `}` is in no node. -/
theorem words_dropped :
    ¬ ∀ (s : Bytes) (conf : ServConf), ServConf.from s = .ok conf →
      ∀ w, (wordsOf conf.nodes).count w = (wordsIn (toks s)).count w := by
  intro hall
  obtain ⟨conf, hconf⟩ := Except.exists_ok_of_isOk
    (by decide +kernel : (ServConf.from (ascii "a \x7b b; c \x7d")).isOk = true)
  have hkept := hall _ conf hconf (ascii "c")
  have hcount := count_words_of_from hconf (ascii "c")
  -- the `c` in front of the brace
  have hdropped :
      (droppedWords [] (toks (ascii "a \x7b b; c \x7d"))).count (ascii "c") = 1 := by
    decide +kernel
  omega

end Webserv.Conf
