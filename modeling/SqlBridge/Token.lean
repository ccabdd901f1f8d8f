/-
Tokens: the words, names, numbers, quoted texts and symbols of a statement.

A token keeps its spelling and the byte offset where it starts.  `Token.text` is what it stands for:
names without backticks, string literals without quotes and with their escapes resolved.
-/
import SqlBridge.Keyword
import SqlBridge.Symbol
import SqlBridge.Text.Basic

namespace SqlBridge

/-- The lexical class of a token. -/
inductive Token.Kind where
  | ending
  | identifier
  | backtickName
  | singleQuoted
  | doubleQuoted
  | integer
  | decimal
  | float
  | hexadecimal
  | parameter
  | userVariable
  | symbol (symbol : Symbol)
  | keyword (keyword : Keyword)
deriving DecidableEq, Repr, Inhabited

namespace Token.Kind

/-- A number for each kind; symbols count from 100 and keywords from 1000. -/
def id : Kind → Nat
  | .ending => 0
  | .identifier => 1
  | .backtickName => 2
  | .singleQuoted => 3
  | .doubleQuoted => 4
  | .integer => 5
  | .decimal => 6
  | .float => 7
  | .hexadecimal => 8
  | .parameter => 9
  | .userVariable => 10
  | .symbol s => 100 + s.index
  | .keyword k => 1000 + k.index

def isNumber : Kind → Bool
  | .integer | .decimal | .float | .hexadecimal => true
  | _ => false

def isText : Kind → Bool
  | .singleQuoted | .doubleQuoted => true
  | _ => false

/-- Whether a token of this kind can stand for a name. -/
def isName : Kind → Bool
  | .identifier | .backtickName => true
  | .keyword k => !k.isReserved
  | _ => false

end Token.Kind

structure Token where
  kind : Token.Kind
  /-- The spelling in the statement. -/
  value : String
  /-- The byte offset in the statement. -/
  position : Nat
deriving DecidableEq, Repr, Inhabited

namespace Token

def keyword? (token : Token) : Option Keyword :=
  match token.kind with
  | .keyword keyword => some keyword
  | _ => none

def symbol? (token : Token) : Option Symbol :=
  match token.kind with
  | .symbol symbol => some symbol
  | _ => none

def isKeyword (token : Token) (keyword : Keyword) : Bool := token.kind == .keyword keyword

def isSymbol (token : Token) (symbol : Symbol) : Bool := token.kind == .symbol symbol

def isEnding (token : Token) : Bool := token.kind == .ending

/-- What the token stands for. -/
def text (token : Token) : String :=
  match token.kind with
  | .backtickName => Text.unquoted '`' false token.value
  | .singleQuoted => Text.unquoted '\'' true token.value
  | .doubleQuoted => Text.unquoted '"' true token.value
  | _ => token.value

end Token

end SqlBridge
