/-
Punctuation and operator symbols.
-/

namespace SqlBridge

inductive Symbol where
  | openParen | closeParen | comma | dot | semicolon | star | plus | minus | slash | percent
  | equal | nullSafeEqual | notEqual | bangEqual | less | lessEqual | greater | greaterEqual
  | bang | tilde | caret | pipe | ampersand | logicalOr | logicalAnd | shiftLeft | shiftRight
  | assign | atAt
deriving DecidableEq, Repr, Inhabited

namespace Symbol

def spelling : Symbol → String
  | .openParen => "("
  | .closeParen => ")"
  | .comma => ","
  | .dot => "."
  | .semicolon => ";"
  | .star => "*"
  | .plus => "+"
  | .minus => "-"
  | .slash => "/"
  | .percent => "%"
  | .equal => "="
  | .nullSafeEqual => "<=>"
  | .notEqual => "<>"
  | .bangEqual => "!="
  | .less => "<"
  | .lessEqual => "<="
  | .greater => ">"
  | .greaterEqual => ">="
  | .bang => "!"
  | .tilde => "~"
  | .caret => "^"
  | .pipe => "|"
  | .ampersand => "&"
  | .logicalOr => "||"
  | .logicalAnd => "&&"
  | .shiftLeft => "<<"
  | .shiftRight => ">>"
  | .assign => ":="
  | .atAt => "@@"

/-- Every symbol, those of several characters first, so that the first one that starts a text is
the longest. -/
def all : List Symbol :=
  [.nullSafeEqual, .notEqual, .bangEqual, .lessEqual, .greaterEqual, .shiftLeft, .shiftRight,
   .logicalOr, .logicalAnd, .assign, .atAt, .openParen, .closeParen, .comma, .dot, .semicolon,
   .star, .plus, .minus, .slash, .percent, .equal, .less, .greater, .bang, .tilde, .caret, .pipe,
   .ampersand]

/-- The place of a symbol in declaration order. -/
def index (symbol : Symbol) : Nat := symbol.ctorIdx

def isComparison : Symbol → Bool
  | .equal | .nullSafeEqual | .notEqual | .bangEqual | .less | .lessEqual | .greater
  | .greaterEqual => true
  | _ => false

/-- The symbol spelled so. -/
def ofSpelling? (text : String) : Option Symbol := all.find? (·.spelling == text)

/-- The symbol a text starts with. -/
def startOf? (text : List Char) : Option Symbol := all.find? (·.spelling.toList.isPrefixOf text)

end Symbol

end SqlBridge
