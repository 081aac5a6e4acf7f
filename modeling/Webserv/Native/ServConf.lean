import Webserv.ForStd.OrderedMap
import Webserv.Native.Bytes

/-!
# `ServConf`

The tokenizer and the parser of configuration files.  The token list the
parser takes apart is its first argument; every call takes tokens from the
front and returns those it left.
-/

namespace Webserv

/-- `ServConf::ParseErr` -/
inductive ServConf.ParseErr where
  | extraBracket
  | operatorNotClosed
  | blockIsEmpty
  | operatorIsEmpty
  | blockHasNoKey
deriving DecidableEq, Repr

/-- `ServConf::Node`.  The map `_nodes` is its entries in key order; `none` makes
    the node an operator. -/
inductive ServConf.Node where
  | mk (args : List Bytes) (nodes : Option (List (Bytes × List Node)))

/-- `std::map<std::string, std::vector<ServConf::Node>>` -/
abbrev ServConf.NodeMap := List (Bytes × List ServConf.Node)

namespace ServConf.Node

def getArgs : Node → List Bytes
  | .mk args _ => args

def isOperator : Node → Bool
  | .mk _ nodes => nodes.isNone

def getByKey (node : Node) (str : Bytes) : Option (List Node) :=
  match node with
  | .mk _ none => none
  | .mk _ (some nodes) => SortedEntries.find? str nodes

end ServConf.Node

structure ServConf where
  nodes : ServConf.NodeMap

namespace ServConf

def getByKey (servConf : ServConf) (str : Bytes) : Option (List Node) :=
  SortedEntries.find? str servConf.nodes

/-! ## The tokenizer -/

/-- `keychars` -/
def keychars : List UInt8 :=
  [Byte.space, Byte.lf, Byte.tab, Byte.hash, Byte.leftBrace, Byte.rightBrace, Byte.semicolon]

/-- `add_token`: `str` is moved out, which leaves it empty. -/
def addToken (str : Bytes) (tokens : List Bytes) : Bytes × List Bytes :=
  if str ≠ [] then ([], tokens ++ [str]) else (str, tokens)

/-- The loop of `tokenize`; `s` is what `i` has not passed yet. -/
def tokenizeLoop (s str : Bytes) (tokens : List Bytes) : List Bytes :=
  match s with
  | [] => (addToken str tokens).2
  | c :: rest =>
    -- a character of a word
    if ¬ keychars.contains c then tokenizeLoop rest (str ++ [c]) tokens
    else if c = Byte.space ∨ c = Byte.lf ∨ c = Byte.tab then
      let (str, tokens) := addToken str tokens
      tokenizeLoop rest str tokens
    else if c = Byte.hash then
      let (str, tokens) := addToken str tokens
      let comment := (c :: rest).takeWhile (· ≠ Byte.lf)
      let (str, tokens) := addToken (str ++ comment) tokens
      -- the `++i` of the for loop passes the newline
      tokenizeLoop ((c :: rest).dropWhile (· ≠ Byte.lf)).tail str tokens
    else
      -- one of `{`, `}` and `;`
      let (str, tokens) := addToken str tokens
      tokenizeLoop rest str (tokens ++ [[c]])
termination_by s.length
decreasing_by
  all_goals simp only [List.length_cons]
  · omega
  · omega
  · have hle := (List.dropWhile_suffix (l := c :: rest) (· ≠ Byte.lf)).length_le
    simp only [List.length_cons] at hle
    rw [List.length_tail]
    omega
  · omega

/-- `ServConf::tokenize` -/
def tokenize (s : Bytes) : List Bytes := tokenizeLoop s [] []

/-! ## The parser -/

/-- What a call returns: the nodes, and the tokens it left. -/
abbrev Parsed (tokens : List Bytes) :=
  Except ParseErr { r : NodeMap × List Bytes // r.2.length ≤ tokens.length }

/-- A call that leaves few enough tokens leaves few enough of a longer list. -/
def Parsed.weaken {tokens tokens' : List Bytes} (h : tokens.length ≤ tokens'.length) :
    Parsed tokens → Parsed tokens' :=
  Except.map fun r => ⟨r.1, r.2.trans h⟩

/-- `ServConf::parse`, from `it = tokens.begin()` on. -/
def parseLoop (tokens : List Bytes) (depth : Nat) (currTokens : List Bytes) (nodes : NodeMap) :
    Parsed tokens :=
  match tokens with
  | [] => if currTokens ≠ [] then .error .operatorNotClosed else .ok ⟨(nodes, []), Nat.le_refl _⟩
  | token :: rest =>
    let first := token.headD Byte.nul
    if first = Byte.hash then
      -- skip comment
      .weaken (Nat.le_succ _) (parseLoop rest depth currTokens nodes)
    else if first = Byte.leftBrace then
      match currTokens with
      | [] => .error .blockHasNoKey
      | key :: args =>
        -- the nested call takes its tokens from the same list
        match parseLoop rest (depth + 1) [] [] with
        | .error e => .error e
        | .ok ⟨(res, rest'), _h⟩ =>
          if res.isEmpty then .error .blockIsEmpty
          else
            .weaken (Nat.le_succ_of_le _h)
              (parseLoop rest' depth [] (SortedEntries.push nodes key (.mk args (some res))))
    else if first = Byte.rightBrace then
      -- what is in `curr_tokens` is dropped
      if depth = 0 then .error .extraBracket else .ok ⟨(nodes, rest), Nat.le_succ _⟩
    else if first = Byte.semicolon then
      match currTokens with
      | [] => .error .operatorIsEmpty
      | key :: args =>
        .weaken (Nat.le_succ _) (parseLoop rest depth [] (SortedEntries.push nodes key (.mk args none)))
    else
      -- is word
      .weaken (Nat.le_succ _) (parseLoop rest depth (currTokens ++ [token]) nodes)
termination_by tokens.length
decreasing_by
  all_goals simp only [List.length_cons] at *
  all_goals omega

/-- `ServConf::parse` -/
def parse (tokens : List Bytes) (depth : Nat) : Except ParseErr (NodeMap × List Bytes) :=
  (parseLoop tokens depth [] []).map Subtype.val

/-- `ServConf::from` -/
def «from» (str : Bytes) : Except ParseErr ServConf :=
  match parse (tokenize str) 0 with
  | .error e => .error e
  | .ok (nodes, _) => .ok ⟨nodes⟩

end ServConf

end Webserv
