/-
Statements on the tables of the catalog, as syntax.

A value that comes from a statement or a table is always the value of a parameter: `Term.bound` is
written as a mark, and the values stand in the order of the marks.  `Query.statement` writes a
query.
-/
import SqlBridge.Catalog.Register
import SqlBridge.Text.Basic
import SqlBridge.Value

namespace SqlBridge

/-! ### Statements piece by piece -/

namespace Statement

instance : Append Statement where
  append first second := ⟨first.sql ++ second.sql, first.params ++ second.params⟩

/-- A piece without parameters. -/
def plain (sql : String) : Statement := ⟨sql, []⟩

/-- Pieces with a separator between them. -/
def joined (separator : String) (pieces : List Statement) : Statement where
  sql := String.intercalate separator (pieces.map sql)
  params := pieces.flatMap params

end Statement

open Statement (plain)

/-! ### Terms -/

inductive Operator where
  | or | and | equal | unequal | greater | plus | minus
deriving DecidableEq, Repr

namespace Operator

def sign : Operator → String
  | .or => "OR"
  | .and => "AND"
  | .equal => "="
  | .unequal => "<>"
  | .greater => ">"
  | .plus => "+"
  | .minus => "-"

/-- How strongly an operator binds its operands. -/
def strength : Operator → Nat
  | .or => 1
  | .and => 2
  | .equal | .unequal => 3
  | .greater => 4
  | .plus | .minus => 5

end Operator

/-- A table that a query reads, maybe under another name. -/
structure Source where
  table : String
  label : Option String := none
deriving DecidableEq, Repr

mutual

inductive Term where
  | bound (value : Value)
  | null
  | number (value : Nat)
  | text (value : String)
  /-- A column, maybe with the name under which its table is read. -/
  | column (source : Option String) (name : String)
  | operation (operator : Operator) (left right : Term)
  | isNotNull (operand : Term)
  | isOneOf (operand : Term) (texts : List String)
  | isAmong (operand : Term) (selection : Selection)
  | cases (branches : Branches)
  | coalesce (first second : Term)
  /-- The lesser of two values, null if one of them is. -/
  | least (first second : Term)
  | count
  | minimum (operand : Term)
  | maximum (operand : Term)
  | scalar (selection : Selection)

/-- The branches of a case distinction; without a last one the result is null. -/
inductive Branches where
  | branch (condition result : Term) (rest : Branches)
  | otherwise (result : Term)
  | ending

/-- The values of a term over the rows of a table that meet a condition. -/
inductive Selection where
  | mk (value : Term) (source : Source) (condition : Term)

end

def Source.text (source : Source) : String :=
  source.table ++ (source.label.map fun label => " AS " ++ label).getD ""

namespace Term

/-- A name; the only word of SQL among the catalog's names is quoted. -/
def nameText (name : String) : String := if name == "table" then Text.quoted '"' name else name

def literal (text : String) : String := Text.quoted '\'' text

end Term

mutual

/-- A term as an operand of something that binds with a strength. -/
def Term.write (strength : Nat) : Term → Statement
  | .bound value => ⟨"?", [value]⟩
  | .null => plain "NULL"
  | .number value => plain (toString value)
  | .text value => plain (Term.literal value)
  | .column source name => plain ((source.map (· ++ ".")).getD "" ++ Term.nameText name)
  | .operation operator left right =>
    let inner := left.write operator.strength ++ plain (" " ++ operator.sign ++ " ") ++
      right.write (operator.strength + 1)
    if operator.strength < strength then plain "(" ++ inner ++ plain ")" else inner
  | .isNotNull operand => operand.write 6 ++ plain " IS NOT NULL"
  | .isOneOf operand texts =>
    operand.write 6 ++ plain (" IN (" ++ String.intercalate ", " (texts.map Term.literal) ++ ")")
  | .isAmong operand selection => operand.write 6 ++ plain " IN (" ++ selection.write ++ plain ")"
  | .cases branches => plain "CASE" ++ branches.write ++ plain " END"
  | .coalesce first second =>
    plain "COALESCE(" ++ first.write 0 ++ plain ", " ++ second.write 0 ++ plain ")"
  | .least first second =>
    plain "MIN(" ++ first.write 0 ++ plain ", " ++ second.write 0 ++ plain ")"
  | .count => plain "COUNT(*)"
  | .minimum operand => plain "MIN(" ++ operand.write 0 ++ plain ")"
  | .maximum operand => plain "MAX(" ++ operand.write 0 ++ plain ")"
  | .scalar selection => plain "(" ++ selection.write ++ plain ")"

def Branches.write : Branches → Statement
  | .branch condition result rest =>
    plain " WHEN " ++ condition.write 0 ++ plain " THEN " ++ result.write 0 ++ rest.write
  | .otherwise result => plain " ELSE " ++ result.write 0
  | .ending => plain ""

def Selection.write : Selection → Statement
  | .mk value source condition =>
    plain "SELECT " ++ value.write 0 ++ plain (" FROM " ++ source.text ++ " WHERE ") ++
      condition.write 0

end

namespace Term

def equals (left right : Term) : Term := .operation .equal left right

def isText (term : Term) (text : String) : Term := term.equals (.text text)

def and (left right : Term) : Term := .operation .and left right

def or (left right : Term) : Term := .operation .or left right

end Term

/-! ### Queries -/

/-- What a query reads: a table, or one row of one value. -/
inductive Origin where
  | table (source : Source)
  | single (value : Term) (column name : String)

def Origin.write : Origin → Statement
  | .table source => plain source.text
  | .single value column name =>
    plain "(SELECT " ++ value.write 0 ++ plain (" AS " ++ column ++ ") AS " ++ name)

inductive Query where
  | createTable (name : String) (layout : List String)
  /-- A row; if `replacing`, it takes the place of the row with its key. -/
  | insert (replacing : Bool) (table : String) (row : List (String × Term))
  /-- A row for each combination of rows that meets a condition. -/
  | insertSelected (table : String) (row : List (String × Term)) (origins : List Origin)
      (condition : Term)
  | update (table column : String) (value condition : Term)
  | delete (table : String) (condition : Term)

namespace Query

def insertion (replacing : Bool) (table : String) (row : List (String × Term)) : String :=
  (if replacing then "INSERT OR REPLACE INTO " else "INSERT INTO ") ++ table ++ " (" ++
    String.intercalate ", " (row.map fun entry => Term.nameText entry.1) ++ ")"

def values (row : List (String × Term)) : Statement :=
  .joined ", " (row.map fun entry => entry.2.write 0)

/-- A query with the values of its parameters. -/
def statement : Query → Statement
  | .createTable name layout => plain (catalogTableSql name layout)
  | .insert replacing table row =>
    plain (insertion replacing table row) ++ plain " VALUES (" ++ values row ++ plain ")"
  | .insertSelected table row origins condition =>
    plain (insertion false table row) ++ plain " SELECT " ++ values row ++ plain " FROM " ++
      .joined ", " (origins.map Origin.write) ++ plain " WHERE " ++ condition.write 0
  | .update table column value condition =>
    plain ("UPDATE " ++ table ++ " SET " ++ Term.nameText column ++ " = ") ++ value.write 0 ++
      plain " WHERE " ++ condition.write 0
  | .delete table condition =>
    plain ("DELETE FROM " ++ table ++ " WHERE ") ++ condition.write 0

end Query

end SqlBridge
