/-
Grammar as data.

A `Phrase` describes what may be read next: tokens, sequences, choices by looking ahead, loops, and
nodes of the syntax tree.  Nothing is ever taken back: each choice is settled by the tokens ahead.
Phrases refer to one another by `Name`, so the whole grammar is a function `Name → Phrase`, and one
reader, `Phrase.read`, serves it all.

Design notes:

* A phrase reads a row of trees, not a tree, so loose runs of children need no marker.
* `extend` and `climb` wrap what was read before into a new node; with `climb` a chain of operators
  leans to the left.
* The reader spends one unit of fuel per step down.  A step that reads no token leads to a phrase
  that is smaller or to a name further down the ladder, so fuel in proportion to the number of
  tokens is never spent.
-/
import SqlBridge.Error
import SqlBridge.Tree

namespace SqlBridge.Grammar

/-- A question about the tokens ahead. -/
abbrev Lookahead := List Token → Bool

namespace Lookahead

/-- Whether the token `n` places ahead passes a test. -/
def nth (n : Nat) (test : Token → Bool) : Lookahead := fun tokens => tokens[n]?.any test

def keyword (keyword : Keyword) : Lookahead := nth 0 (·.isKeyword keyword)

def keywordAt (n : Nat) (keyword : Keyword) : Lookahead := nth n (·.isKeyword keyword)

/-- Whether a token is one of some keywords. -/
def oneOf (keywords : List Keyword) (token : Token) : Bool := token.keyword?.any keywords.contains

def anyKeyword (keywords : List Keyword) : Lookahead := nth 0 (oneOf keywords)

def symbol (symbol : Symbol) : Lookahead := nth 0 (·.isSymbol symbol)

def symbolAt (n : Nat) (symbol : Symbol) : Lookahead := nth n (·.isSymbol symbol)

def name : Lookahead := nth 0 (·.kind.isName)

def string : Lookahead := nth 0 (·.kind.isText)

def number : Lookahead := nth 0 (·.kind.isNumber)

def both (a b : Lookahead) : Lookahead := fun tokens => a tokens && b tokens

def either (a b : Lookahead) : Lookahead := fun tokens => a tokens || b tokens

def opposite (a : Lookahead) : Lookahead := fun tokens => !a tokens

end Lookahead

/-- The names phrases use to refer to one another. -/
inductive Name where
  | expression
  | negation
  | predicate
  | operand
  | simpleExpression
  | queryExpression
  | tableReferences
deriving DecidableEq, Repr

/-- Why a phrase refuses whatever comes next. -/
inductive Refusal where
  | expected (what : String)
  | unsupported (what : String)
deriving DecidableEq, Repr

/-- Where the comma that replaces a keyword is said to stand. -/
inductive CommaPlace where
  /-- At the keyword. -/
  | here
  /-- At the token after the keyword. -/
  | next
deriving DecidableEq, Repr

inductive Phrase where
  | nothing
  /-- One token that passes a test. -/
  | token (accepts : Token → Bool) (expected : String)
  /-- One token that passes a test, kept as a comma. -/
  | asComma (accepts : Token → Bool) (expected : String) (place : CommaPlace)
  | ref (name : Name)
  | seq (first second : Phrase)
  | choose (test : Lookahead) (yes no : Phrase)
  /-- The body again and again while the test holds. -/
  | loop (test : Lookahead) (body : Phrase)
  /-- A node over what the body reads; its rule may depend on that. -/
  | node (rule : List Tree → Rule) (body : Phrase)
  /-- The base; if the test then holds, a node over the base and the tail. -/
  | extend (test : Lookahead) (rule : Rule) (base tail : Phrase)
  /-- The base; while the test holds, a node over all so far and the tail. -/
  | climb (test : Lookahead) (rule : Rule) (base tail : Phrase)
  | refuse (refusal : Refusal)

/-- What a phrase reads, and the tokens left. -/
abbrev Reading := Except Error (List Tree × List Token)

/-- The byte offset of the next token. -/
def position (tokens : List Token) : Nat := (tokens.head?.map Token.position).getD 0

/-- Another token was needed at the next one. -/
def unexpected (what : String) (tokens : List Token) : Error :=
  let found := match tokens with
    | token :: _ => if token.isEnding then none else some token.value
    | [] => none
  .parse (position tokens) (.expected what found)

def Refusal.error (tokens : List Token) : Refusal → Error
  | .expected what => unexpected what tokens
  | .unsupported what => .unsupported (.atPosition what (position tokens))

/-- The comma that replaces the keyword `token` before `rest`. -/
def CommaPlace.comma (token : Token) (rest : List Token) : CommaPlace → Token
  | .here => ⟨.symbol .comma, Symbol.comma.spelling, token.position⟩
  | .next => ⟨.symbol .comma, Symbol.comma.spelling, position rest⟩

namespace Phrase

/-- The next token if it passes the test. -/
def take (accepts : Token → Bool) (expected : String) (keep : Token → List Token → Token)
    (tokens : List Token) : Reading :=
  match tokens with
  | head :: rest =>
    if accepts head then .ok ([.leaf (keep head rest)], rest)
    else .error (unexpected expected tokens)
  | [] => .error (unexpected expected tokens)

/-- A chain that leans to the left: each row is joined to all before it. -/
def chain (rule : Rule) (base : List Tree) (rows : List (List Tree)) : List Tree :=
  rows.foldl (fun trees row => [.node rule (trees ++ row)]) base

mutual

/-- Reads a phrase at the head of some tokens. -/
def read (grammar : Name → Phrase) : (fuel : Nat) → Phrase → List Token → Reading
  | 0, _, tokens => .error (.parse (position tokens) .tooDeep)
  | fuel + 1, phrase, tokens =>
    match phrase with
    | .nothing => .ok ([], tokens)
    | .token accepts expected => take accepts expected (fun token _ => token) tokens
    | .asComma accepts expected place =>
      take accepts expected (fun token rest => place.comma token rest) tokens
    | .ref name => read grammar fuel (grammar name) tokens
    | .seq first second => do
      let (trees, tokens) ← read grammar fuel first tokens
      let (others, tokens) ← read grammar fuel second tokens
      return (trees ++ others, tokens)
    | .choose test yes no => read grammar fuel (if test tokens then yes else no) tokens
    | .loop test body => do
      let (rows, tokens) ← readWhile grammar fuel test body tokens
      return (rows.flatten, tokens)
    | .node rule body => do
      let (trees, tokens) ← read grammar fuel body tokens
      return ([.node (rule trees) trees], tokens)
    | .extend test rule base tail => do
      let (trees, tokens) ← read grammar fuel base tokens
      if test tokens then
        let (others, tokens) ← read grammar fuel tail tokens
        return ([.node rule (trees ++ others)], tokens)
      else return (trees, tokens)
    | .climb test rule base tail => do
      let (trees, tokens) ← read grammar fuel base tokens
      let (rows, tokens) ← readWhile grammar fuel test tail tokens
      return (chain rule trees rows, tokens)
    | .refuse refusal => .error (refusal.error tokens)

/-- Reads a phrase again and again while a test holds, one row of trees each time. -/
def readWhile (grammar : Name → Phrase) : (fuel : Nat) → Lookahead → Phrase → List Token →
    Except Error (List (List Tree) × List Token)
  | 0, _, _, tokens => .error (.parse (position tokens) .tooDeep)
  | fuel + 1, test, body, tokens =>
    if test tokens then do
      let (row, tokens) ← read grammar fuel body tokens
      let (rows, tokens) ← readWhile grammar fuel test body tokens
      return (row :: rows, tokens)
    else .ok ([], tokens)

end

/-! ### Building phrases -/

/-- Several phrases in a row. -/
def row : List Phrase → Phrase
  | [] => .nothing
  | [phrase] => phrase
  | phrase :: rest => .seq phrase (row rest)

/-- A node over several phrases in a row. -/
def make (rule : Rule) (parts : List Phrase) : Phrase := .node (fun _ => rule) (row parts)

def keyword (keyword : Keyword) : Phrase := .token (·.isKeyword keyword) keyword.spelling

def anyKeyword (keywords : List Keyword) : Phrase :=
  .token (Lookahead.oneOf keywords) (" or ".intercalate (keywords.map Keyword.spelling))

def symbol (symbol : Symbol) : Phrase := .token (·.isSymbol symbol) ("'" ++ symbol.spelling ++ "'")

/-- Whatever token comes next, short of the ending. -/
def anyToken : Phrase := .token (!·.isEnding) "a token"

def optional (test : Lookahead) (phrase : Phrase) : Phrase := .choose test phrase .nothing

def optionalKeyword (k : Keyword) : Phrase := optional (.keyword k) (keyword k)

def optionalKeywordOf (ks : List Keyword) : Phrase := optional (.anyKeyword ks) (anyKeyword ks)

def optionalSymbol (s : Symbol) : Phrase := optional (.symbol s) (symbol s)

/-- The first phrase whose test holds, else the last one. -/
def firstOf (otherwise : Phrase) : List (Lookahead × Phrase) → Phrase
  | [] => otherwise
  | (test, phrase) :: rest => .choose test phrase (firstOf otherwise rest)

/-- One or more of a phrase, with commas between. -/
def commaList (item : Phrase) : Phrase :=
  .seq item (.loop (.symbol .comma) (.seq (symbol .comma) item))

/-- Any number of a phrase up to a closing parenthesis, with commas between and maybe one after. -/
def commaListUntilClose (item : Phrase) : Phrase :=
  let another := optional (.opposite (.symbol .closeParen)) item
  optional (.opposite (.symbol .closeParen))
    (.seq item (.loop (.symbol .comma) (.seq (symbol .comma) another)))

def expected (what : String) : Phrase := .refuse (.expected what)

def unsupported (what : String) : Phrase := .refuse (.unsupported what)

/-- A phrase in parentheses. -/
def parenthesized (phrase : Phrase) : Phrase := row [symbol .openParen, phrase, symbol .closeParen]

end Phrase

end SqlBridge.Grammar
