/-
How queries, insertions and updates are written.
-/
import SqlBridge.Scribe.Basic

namespace SqlBridge.Branch

/-! ### Queries -/

/-- A query in parentheses.  A member of a compound select cannot keep them; only a query with an
order or a limit of its own stays nested. -/
def nestedQuery (node : Branch) : Scribe Sql := do
  let inner ← node.need .queryExpression
  let query ← inner.required
  if inner.tree.hasChild .orderClause || inner.tree.hasChild .limitClause then
    return Sql.words ["SELECT", "*", "FROM"] ++ Sql.group query
  else return query

def selectOption (node : Branch) : Scribe (Option Sql) :=
  match node.tree.firstKeyword? with
  | some .SQL_CALC_FOUND_ROWS => do
    modify ({ · with calcFoundRows := true })
    return none
  | some .DISTINCT | some .DISTINCTROW => return Sql.word "DISTINCT"
  | some .ALL => return Sql.word "ALL"
  | _ => return none

def fromClause (node : Branch) : Scribe (Option Sql) :=
  if node.tree.hasKeyword .DUAL then return none else node.sequence

def groupByClause (node : Branch) : Scribe (Option Sql) :=
  if node.tree.hasChild .olapOption then Scribe.unsupported .withRollup else node.sequence

/-- A term of an order, ascending unless it says otherwise. -/
def orderTerm (node : Branch) : Scribe Sql := do
  let sql := (← node.sequence).getD []
  return if node.tree.hasChild .direction then sql else sql ++ Sql.word "ASC"

/-! ### Assignments -/

def assignedColumn (element : Branch) : Scribe String :=
  Scribe.part "assignment" "a column" ((element.tree.child? .columnRef).bind Tree.lastName?)

def assignedValue (element : Branch) : Scribe Sql :=
  if element.tree.hasKeyword .DEFAULT then Scribe.unsupported .defaultAssigned else do
    let value ← Scribe.part "assignment" "a value" element.nodes[1]?
    value.required

/-- The columns and the values of some assignments. -/
def assignedPairs : List Draft → Scribe (List (String × Sql))
  | [] => return []
  | element :: rest => do
    let column ← element.branch.assignedColumn
    let value ← element.branch.assignedValue
    return (column, value) :: (← assignedPairs rest)

/-- `SET a = 1, b = 2` of an insertion is `("a", "b") VALUES (1, 2)`. -/
def assignedRow (assignments : Draft) : Scribe Sql := do
  let pairs ← assignedPairs (assignments.branch.childrenBy .updateElement)
  let columns := Sql.commaSeparated (pairs.map fun pair => [.name pair.1])
  return [.group columns, .raw "VALUES", .group (Sql.commaSeparated (pairs.map Prod.snd))]

/-- One assignment of an update. -/
def assignment (node : Branch) : Scribe Sql := do
  let column ← node.assignedColumn
  return [Piece.name column, .raw "="] ++ (← node.assignedValue)

/-! ### Insertions -/

/-- The rows an insertion brings, by assignments, by lists of values or by a query. -/
def insertedRows (node : Branch) : Scribe Sql :=
  match node.child? .updateList, node.child? .insertFromConstructor,
    node.child? .insertQueryExpression with
  | some assignments, _, _ => assignedRow assignments
  | none, some constructor, _ => constructor.required
  | none, none, some query =>
    if node.tree.hasChild .insertUpdateList then Scribe.unsupported .conflictClauseOnSelect
    else query.required
  | none, none, none => return []

def insertion (node : Branch) : Scribe Sql := do
  let verb := if node.tree.hasRule .replaceStatement then "REPLACE" else "INSERT"
  let mode := if node.tree.hasKeyword .IGNORE then ["OR", "IGNORE"] else []
  let table ← node.needed .tableRef
  let rows ← node.insertedRows
  let update ← match node.child? .insertUpdateList with
    | some update => update.required
    | none => pure []
  return Sql.words (verb :: mode ++ ["INTO"]) ++ table ++ rows ++ update

/-- Lists of values; one empty list without columns stands for the defaults. -/
def insertedValues (node : Branch) : Scribe Sql := do
  let noValues := match node.tree.descendantsBy .values with
    | [row] => row.children.isEmpty
    | _ => false
  if noValues && !node.tree.hasChild .fields then return Sql.words ["DEFAULT", "VALUES"]
  else return (← node.sequence).getD []

def columnNames : List Draft → Scribe (List Sql)
  | [] => return []
  | column :: rest =>
    match column.tree.lastName? with
    | some name => return [.name name] :: (← columnNames rest)
    | none => throw (.malformed (.empty "column reference"))

/-- The columns of an insertion, without the names of their tables. -/
def insertedColumns (node : Branch) : Scribe Sql :=
  return Sql.commaSeparated (← columnNames (node.childrenBy .columnRef))

def valuesRow (node : Branch) : Scribe (Option Sql) :=
  if node.tree.hasKeyword .DEFAULT then Scribe.unsupported .defaultInRow else node.sequence

/-- What happens to a row that is there already. -/
def conflictClause (node : Branch) : Scribe Sql :=
  return Sql.words ["ON", "CONFLICT", "DO", "UPDATE", "SET"] ++ (← node.needed .updateList)

/-! ### Updates -/

/-- Whether a part is one of the words in front of the table of an update. -/
def isUpdateWord (part : Draft) : Bool :=
  match part.tree.token?.bind Token.keyword? with
  | some .UPDATE | some .LOW_PRIORITY | some .IGNORE => true
  | _ => false

def update (node : Branch) : Scribe Sql := do
  let tables ← node.need .tableReferenceList
  match tables.tree.childrenBy .tableReference with
  | [table] =>
    if table.hasChild .joinedTable then Scribe.unsupported .multiTableUpdate
    let mode := if node.tree.hasKeyword .IGNORE then ["OR", "IGNORE"] else []
    let rest ← Draft.writeEach Draft.sql (node.parts.filter (!isUpdateWord ·))
    return Sql.words ("UPDATE" :: mode) ++ rest
  | _ => Scribe.unsupported .multiTableUpdate

end SqlBridge.Branch
