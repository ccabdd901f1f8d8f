/-
Values that are bound to statements and fetched from them, rows of values, and statements.
-/
import SqlBridge.Text.Basic

namespace SqlBridge

inductive Value where
  | null
  | integer (value : Int64)
  /-- A number in IEEE 754 binary64, given by its bits. -/
  | real (bits : UInt64)
  | text (value : String)
  | blob (octets : List UInt8)
deriving DecidableEq, Repr, Inhabited

namespace Value

def isNull : Value → Bool
  | .null => true
  | _ => false

/-- The text of a text value. -/
def text? : Value → Option String
  | .text value => some value
  | _ => none

def ofBool (value : Bool) : Value := .integer (if value then 1 else 0)

/-- A value that may be absent. -/
def ofOption {α : Type} (encode : α → Value) : Option α → Value
  | some value => encode value
  | none => .null

end Value

/-- A fetched row.  Columns and values are paired in order; either may be longer. -/
structure Row where
  columns : List String
  values : List Value
deriving DecidableEq, Repr, Inhabited

namespace Row

/-- The value in the first column with a name. -/
def get? (row : Row) (column : String) : Option Value := do
  let position ← row.columns.idxOf? column
  row.values[position]?

end Row

/-- An SQLite statement and the values of its parameters. -/
structure Statement where
  sql : String
  params : List Value := []
deriving DecidableEq, Repr, Inhabited

end SqlBridge
