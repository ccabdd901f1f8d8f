/-
Values and rows as callers see them, and the texts of values and statements.

* `Value.datum` turns octets into text and numbers that are not finite into null.
* A row is fetched by column names or by positions.
-/
import SqlBridge.Number.Shortest
import SqlBridge.Text.Basic
import SqlBridge.Text.Utf8
import SqlBridge.Value

namespace SqlBridge

namespace Value

/-- A natural number, kept within 64 bits. -/
def ofNat (n : Nat) : Value :=
  .integer (if n ≤ Int64.maxValue.toInt then Int64.ofNat n else Int64.maxValue)

/-- A value as an integer, if it is one or its text writes one; fractions are cut off. -/
def toInt64? : Value → Option Int64
  | .integer value => some value
  | .real bits => some (Binary64.ofBits bits).toInt64
  | .text value => Text.toInt64? value
  | _ => none

def display : Value → String
  | .null => "NULL"
  | .integer value => toString value.toInt
  | .real bits => (Binary64.ofBits bits).display
  | .text value => Text.quoted '\'' value
  | .blob octets => s!"<{octets.length} bytes>"

end Value

/-- A statement with the values of its parameters behind it. -/
def Statement.display (statement : Statement) : String :=
  if statement.params.isEmpty then statement.sql
  else statement.sql ++ " [" ++
    String.intercalate ", " (statement.params.map Value.display) ++ "]"

/-- A value in a fetched row. -/
inductive Datum where
  | null
  | integer (value : Int64)
  /-- A finite number, by its bits. -/
  | real (bits : UInt64)
  | text (value : String)
deriving DecidableEq, Repr

def Value.datum : Value → Datum
  | .null => .null
  | .integer value => .integer value
  | .real bits => if (Binary64.ofBits bits).isFinite then .real bits else .null
  | .text value => .text value
  | .blob octets => .text (Text.ofOctets octets)

/-- How rows are fetched. -/
inductive FetchMode where
  | byName | byPosition
deriving DecidableEq, Repr

inductive FetchedRow where
  /-- Columns in order, each name once. -/
  | named (columns : List (String × Datum))
  | listed (values : List Datum)
deriving DecidableEq, Repr

/-- Sets a column of a row; a name that is there keeps its place. -/
def setColumn (name : String) (value : Datum) : List (String × Datum) → List (String × Datum)
  | [] => [(name, value)]
  | column :: rest =>
    if column.1 = name then (name, value) :: rest else column :: setColumn name value rest

def Row.fetched (row : Row) : FetchMode → FetchedRow
  | .byName => .named <| (row.columns.zip row.values).foldl
      (fun columns column => setColumn column.1 column.2.datum columns) []
  | .byPosition => .listed (row.values.map Value.datum)

end SqlBridge
