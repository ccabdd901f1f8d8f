/-
Definitions of tables and indexes, read back from their text.

* `TableText.ofText?`: the name of a table, and what its definition lists between parentheses.
* `TableText.columns`: an item that begins with a name defines the column of that name.
* `TableText.primaryKeys`: the columns of every primary key that is declared, with a column or on
  its own.
* `IndexText.ofText?`: an index with its table and its columns.
* `Sql.subject?`: the table that a statement creates, changes or drops, or makes an index of.
-/
import SqlBridge.Proofs.Sql.Items
import SqlBridge.Proofs.Sql.Term

namespace SqlBridge

namespace Lexeme

/-- Whether a token is a word outside quotes. -/
def isBareWord : Lexeme → Bool
  | .word _ => true
  | _ => false

/-- The name that a token stands for. -/
def name? : Lexeme → Option String
  | .quoted .double name => some name
  | _ => none

/-- What stands between the first parentheses of some tokens, cut at its commas. -/
def listed (tokens : List Lexeme) : List (List Lexeme) :=
  cut (.symbol ",") 0 (enclosed 0 ((tokens.dropWhile (· != .symbol "(")).drop 1))

/-- The name that comes after some words, with the names of what it belongs to before it, and the
tokens after it. -/
def nameAhead? (tokens : List Lexeme) : Option (List String × List Lexeme) :=
  match tokens.dropWhile isBareWord with
  | .quoted .double first :: rest =>
    some (first :: (SqlTerm.readPath rest).1, (SqlTerm.readPath rest).2)
  | _ => none

end Lexeme

open Lexeme

/-- The definition of a table, as it is written. -/
structure TableText where
  /-- The name of the table, with the names of what it belongs to before it. -/
  name : List String
  items : List (List Lexeme)
deriving DecidableEq, Repr

namespace TableText

def ofTokens? (tokens : List Lexeme) : Option TableText :=
  match tokens, nameAhead? tokens with
  | .word "CREATE" :: _, some (name, .symbol "(" :: rest) =>
    some ⟨name, cut (.symbol ",") 0 (enclosed 0 rest)⟩
  | _, _ => none

def ofText? (text : String) : Option TableText := (Lexer.lexemes? text).bind ofTokens?

/-- The names of the columns that are defined. -/
def columns (table : TableText) : List String := table.items.filterMap (·.head?.bind name?)

/-- The primary keys that an item declares, each with its columns.  A column that is declared to be
one is its only column; otherwise the columns stand in parentheses. -/
def keysOf (item : List Lexeme) : List (List String) :=
  let columns := match item.head?.bind name? with
    | some column => [column]
    | none => (listed item).filterMap (·.head?.bind name?)
  List.replicate ((outer 0 item).count (.word "PRIMARY")) columns

def primaryKeys (table : TableText) : List (List String) := table.items.flatMap keysOf

end TableText

/-- The definition of an index, as it is written. -/
structure IndexText where
  unique : Bool
  name : String
  table : String
  /-- The columns, and whether they descend. -/
  parts : List (String × Bool)
deriving DecidableEq, Repr

namespace IndexText

def partOf? : List Lexeme → Option (String × Bool)
  | [.quoted .double column] => some (column, false)
  | [.quoted .double column, .word direction] =>
    if direction = "DESC" then some (column, true)
    else if direction = "ASC" then some (column, false) else none
  | _ => none

def ofTokens? : List Lexeme → Option IndexText
  | .word "CREATE" :: .word "UNIQUE" :: .word "INDEX" :: .quoted .double name :: .word "ON" ::
      .quoted .double table :: rest => do return ⟨true, name, table, ← (listed rest).mapM partOf?⟩
  | .word "CREATE" :: .word "INDEX" :: .quoted .double name :: .word "ON" ::
      .quoted .double table :: rest => do return ⟨false, name, table, ← (listed rest).mapM partOf?⟩
  | _ => none

def ofText? (text : String) : Option IndexText := (Lexer.lexemes? text).bind ofTokens?

end IndexText

/-- The table that a statement is about, with its qualifier.  Where the statement is about an index,
the name of the index comes first. -/
def Lexeme.addressed? (tokens : List Lexeme) : Option (List String) :=
  if .word "INDEX" ∈ tokens.takeWhile isBareWord then
    (nameAhead? tokens).bind fun index => (nameAhead? index.2).map Prod.fst
  else (nameAhead? tokens).map Prod.fst

def Sql.subject? (text : String) : Option (List String) := (Lexer.lexemes? text).bind addressed?

end SqlBridge
