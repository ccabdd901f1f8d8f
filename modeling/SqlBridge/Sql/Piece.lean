/-
SQLite text under construction.

A stretch of SQL is a list of pieces: fixed words, names, literals, operators and groups in
parentheses.  Text that comes from a statement enters as a name or a literal, and these are quoted
when they are written.

`render` puts one space between two pieces, but none after an opening parenthesis or a dot, none
before a closing parenthesis, a comma or a dot, and none between a function's name and its
arguments.
-/
import SqlBridge.Error
import SqlBridge.Text.Basic

namespace SqlBridge

/-- A constant of SQLite. -/
inductive Literal where
  | text (value : String)
  /-- A number as it was spelled. -/
  | number (spelling : String)
  | integer (value : Int)
  | boolean (value : Bool)
  | null
deriving DecidableEq, Repr, Inhabited

namespace Literal

/-- The body of a string literal: quotes and backslashes doubled, NUL left out. -/
def textBody : List Char → List Char
  | [] => []
  | '\'' :: rest => '\'' :: '\'' :: textBody rest
  | '\\' :: rest => '\\' :: '\\' :: textBody rest
  | '\x00' :: rest => textBody rest
  | c :: rest => c :: textBody rest

def render : Literal → String
  | .text value => String.ofList ('\'' :: textBody value.toList ++ ['\''])
  | .number spelling => spelling
  | .integer value => toString value
  | .boolean value => if value then "1" else "0"
  | .null => "NULL"

end Literal

/-- A function of SQLite and how many arguments it takes. -/
def sqliteFunctions : List (String × Arity) :=
  [("ABS", .exactly 1), ("ACOS", .exactly 1), ("ASIN", .exactly 1), ("ATAN", .exactly 1),
   ("ATAN2", .exactly 2), ("AVG", .exactly 1), ("CAST", .exactly 1), ("CEIL", .exactly 1),
   ("CHANGES", .exactly 0), ("CHAR", .atLeast 1), ("COALESCE", .atLeast 2), ("COS", .exactly 1),
   ("COUNT", .exactly 1), ("DATE", .atLeast 1), ("DATETIME", .atLeast 1), ("DEGREES", .exactly 1),
   ("EXP", .exactly 1), ("FLOOR", .exactly 1), ("GROUP_CONCAT", .between 1 2),
   ("HEX", .exactly 1), ("IFNULL", .exactly 2), ("IIF", .exactly 3), ("INSTR", .exactly 2),
   ("JULIANDAY", .atLeast 1), ("LAST_INSERT_ROWID", .exactly 0), ("LENGTH", .exactly 1),
   ("LN", .exactly 1), ("LOG", .between 1 2), ("LOG10", .exactly 1), ("LOG2", .exactly 1),
   ("LOWER", .exactly 1), ("LTRIM", .between 1 2), ("MAX", .atLeast 1), ("MIN", .atLeast 1),
   ("NULLIF", .exactly 2), ("PI", .exactly 0), ("POWER", .exactly 2), ("QUOTE", .exactly 1),
   ("RADIANS", .exactly 1), ("RANDOM", .exactly 0), ("REPLACE", .exactly 3),
   ("ROUND", .between 1 2), ("RTRIM", .between 1 2), ("SIGN", .exactly 1), ("SIN", .exactly 1),
   ("SQRT", .exactly 1), ("STRFTIME", .atLeast 2), ("SUBSTR", .between 2 3), ("SUM", .exactly 1),
   ("TAN", .exactly 1), ("TIME", .atLeast 1), ("TOTAL", .exactly 1), ("TRIM", .between 1 2),
   ("UNICODE", .exactly 1), ("UPPER", .exactly 1), ("ZEROBLOB", .exactly 1)]

def isSqliteFunction (name : String) : Bool := sqliteFunctions.any (·.1 == name)

inductive Piece where
  /-- A fixed word. -/
  | raw (text : String)
  /-- The name of a table, column or index. -/
  | name (text : String)
  | literal (constant : Literal)
  | operator (text : String)
  /-- A stretch in parentheses. -/
  | group (inside : List Piece)
deriving Repr, Inhabited

/-- A stretch of SQLite text. -/
abbrev Sql := List Piece

/-- How a piece attaches to its neighbours. -/
inductive Glue where
  | open | close | comma | dot | function | group | word
deriving DecidableEq, Repr

/-- Whether two neighbours have a space between them. -/
def Glue.spaced : Glue → Glue → Bool
  | .open, _ | .dot, _ => false
  | _, .close | _, .comma | _, .dot => false
  | .function, .open | .function, .group => false
  | _, _ => true

/-- The glue of punctuation; other text is a word. -/
def Glue.ofText : String → Glue
  | "(" => .open
  | ")" => .close
  | "," => .comma
  | "." => .dot
  | _ => .word

namespace Piece

def glue : Piece → Glue
  | .raw text => if isSqliteFunction text then .function else Glue.ofText text
  | .operator text => Glue.ofText text
  | .name _ | .literal _ => .word
  | .group _ => .group

/-- Whether a piece needs a space after what stands before it. -/
def spacedAfter (piece : Piece) : Option Glue → Bool
  | some previous => previous.spaced piece.glue
  | none => false

mutual

def render : Piece → String
  | .raw text | .operator text => text
  | .name text => Text.quoted '"' text
  | .literal constant => constant.render
  | .group inside => "(" ++ renderAfter none inside ++ ")"

/-- The text of some pieces after one with the given glue. -/
def renderAfter (previous : Option Glue) : List Piece → String
  | [] => ""
  | piece :: rest =>
    (if piece.spacedAfter previous then " " else "") ++ piece.render ++
      renderAfter (some piece.glue) rest

end

def integer (value : Int) : Piece := .literal (.integer value)

def string (value : String) : Piece := .literal (.text value)

end Piece

namespace Sql

/-- The text of a stretch of SQL. -/
def render (sql : Sql) : String := Piece.renderAfter none sql

/-- Fixed words in a row. -/
def words (texts : List String) : Sql := texts.map Piece.raw

def word (text : String) : Sql := [.raw text]

/-- A stretch in parentheses. -/
def group (sql : Sql) : Sql := [.group sql]

/-- Stretches with a separator between them. -/
def separated (separator : Piece) (parts : List Sql) : Sql := List.intercalate [separator] parts

def commaSeparated (parts : List Sql) : Sql := separated (.raw ",") parts

end Sql

end SqlBridge
