/-
How definitions of tables, columns, constraints and indexes are written.

* In a table the columns come first and then the constraints.  A primary key of one column that is
  declared on its own moves into the column.
* Indexes are statements of their own.  SQLite has one space of names for all indexes, so
  `indexName` puts the table in front.
-/
import SqlBridge.Declaration
import SqlBridge.Scribe.Basic

namespace SqlBridge

/-- The storage class of a MySQL type other than `SERIAL`. -/
def storageClass? : Keyword → Option String
  | .TINYINT | .SMALLINT | .MEDIUMINT | .INT | .INTEGER | .BIGINT
  | .BOOL | .BOOLEAN | .BIT | .BINARY => some "INTEGER"
  | .FLOAT | .DOUBLE | .REAL | .DECIMAL | .NUMERIC | .FIXED | .DEC => some "REAL"
  | .VARBINARY | .TINYBLOB | .BLOB | .MEDIUMBLOB | .LONGBLOB => some "BLOB"
  | .CHAR | .CHARACTER | .VARCHAR | .NVARCHAR | .VARYING | .LONG | .NCHAR
  | .TINYTEXT | .TEXT | .MEDIUMTEXT | .LONGTEXT | .ENUM
  | .DATE | .TIME | .DATETIME | .TIMESTAMP | .YEAR
  | .GEOMETRY | .POINT | .LINESTRING | .POLYGON | .MULTIPOINT | .MULTILINESTRING
  | .MULTIPOLYGON | .GEOMETRYCOLLECTION | .GEOMCOLLECTION => some "TEXT"
  | _ => none

/-- The type of a column; `SERIAL` brings the key with it. -/
def columnTypeSql (dataType : Tree) : Except Error Sql :=
  match dataType.typeKeyword? with
  | none => .error (.malformed (.lacks "data type" "a name"))
  | some .SERIAL =>
    .ok (Sql.words ["INTEGER", "NOT", "NULL", "PRIMARY", "KEY", "AUTOINCREMENT", "UNIQUE"])
  | some keyword =>
    match storageClass? keyword with
    | some name => .ok (Sql.word name)
    | none => .error (.unsupported (.dataType keyword))

/-- The name of an index of a table in SQLite. -/
def indexName (table index : String) : String := s!"{table}__{index}"

namespace Branch

/-! ### Columns -/

/-- The type of a column.  The key `INTEGER` stands for the row id, so other integer keys are
`INT`. -/
def keyedType (dataType : Tree) (primary autoIncrement : Bool) : Scribe Sql :=
  if primary && autoIncrement then return Sql.word "INTEGER"
  else if primary && dataType.isIntegerType then return Sql.word "INT"
  else columnTypeSql dataType

/-- Whether an attribute of a column is written at the end of the column. -/
def isKeyAttribute (entry : Draft) : Bool :=
  entry.tree.isPrimaryKeyAttribute || entry.tree.hasKeyword .AUTO_INCREMENT

/-- The definition of a column; `keyed` if it is the primary key by a constraint of the table. -/
def columnDefinition (keyed : Bool) (node : Branch) : Scribe Sql := do
  let name ← node.need .identifier
  let field ← node.need .fieldDefinition
  let dataType ← field.branch.need .dataType
  let attributes := field.branch.childrenBy .columnAttribute
  let primary := keyed || attributes.any (·.tree.isPrimaryKeyAttribute)
  let autoIncrement := attributes.any (·.tree.hasKeyword .AUTO_INCREMENT)
  if autoIncrement && !primary then
    Scribe.unsupported .autoIncrementOutsideKey
  let name ← name.required
  let type ← keyedType dataType.tree primary autoIncrement
  let generated ← match field.branch.child? .generatedColumn with
    | some generated => generated.required
    | none => pure []
  let others ← Draft.writeEach Draft.sql (attributes.filter (!isKeyAttribute ·))
  let key := (if primary then ["PRIMARY", "KEY"] else []) ++
    (if autoIncrement then ["AUTOINCREMENT"] else [])
  return name ++ type ++ generated ++ others ++ Sql.words key

def columnAttribute (node : Branch) : Scribe (Option Sql) :=
  match node.tree.firstKeyword? with
  | some .PRIMARY | some .KEY => return Sql.words ["PRIMARY", "KEY"]
  | some .UNIQUE => return Sql.word "UNIQUE"
  | some .COMMENT | some .COLLATE | some .ON | some .COLUMN_FORMAT | some .STORAGE
  | some .VISIBLE | some .INVISIBLE | some .SERIAL => return none
  | _ => node.sequence

/-! ### Constraints -/

/-- The parts of a reference without `MATCH` and the word after it. -/
def withoutMatch : List Draft → List Draft
  | [] => []
  | [part] => if part.tree.hasKind (.keyword .MATCH) then [] else [part]
  | part :: next :: rest =>
    if part.tree.hasKind (.keyword .MATCH) then withoutMatch rest
    else part :: withoutMatch (next :: rest)

def references (node : Branch) : Scribe Sql := Draft.writeEach Draft.sql (withoutMatch node.parts)

/-- A constraint of a table, `none` for an index. -/
def constraint (node : Branch) : Scribe (Option Sql) := do
  let name ← match node.child? .constraintName with
    | some name => name.sql
    | none => pure []
  match node.tree.childKeywords.head? with
  | some .PRIMARY =>
    return some (name ++ Sql.words ["PRIMARY", "KEY"] ++ (← node.needed .keyList))
  | some .FOREIGN =>
    let keys ← node.needed .keyList
    return some (name ++ Sql.words ["FOREIGN", "KEY"] ++ keys ++ (← node.needed .references))
  | some .CHECK => return some (name ++ .raw "CHECK" :: (← node.needed .exprWithParentheses))
  | _ => return none

def constraintName (node : Branch) : Scribe (Option Sql) :=
  if node.tree.hasChild .identifier then node.sequence else return none

/-! ### Tables -/

/-- The column that a constraint of its own makes the primary key, if it is the only one. -/
def inlineKey? (elements : Tree) : Option String :=
  match elements.primaryKeyColumns? with
  | some [column] => some column
  | _ => none

def elementColumns (key? : Option String) : List Draft → Scribe (List Sql)
  | [] => return []
  | element :: rest =>
    match element.branch.child? .columnDefinition with
    | some column => do
      let name := ((column.tree.child? .identifier).map Tree.nameText).getD ""
      let first ← column.branch.columnDefinition (key?.any (Text.equalsIgnoringCase · name))
      return first :: (← elementColumns key? rest)
    | none => elementColumns key? rest

def elementConstraints (key? : Option String) : List Draft → Scribe (List Sql)
  | [] => return []
  | element :: rest =>
    match element.branch.child? .tableConstraintDef with
    | some constraint =>
      if key?.isSome && constraint.tree.hasKeyword .PRIMARY then elementConstraints key? rest
      else do
        let first ← constraint.write
        return first.toList ++ (← elementConstraints key? rest)
    | none => elementConstraints key? rest

def tableElements (node : Branch) : Scribe Sql := do
  let key? := inlineKey? node.tree
  let elements := node.childrenBy .tableElement
  let columns ← elementColumns key? elements
  return Sql.commaSeparated (columns ++ (← elementConstraints key? elements))

def createTable (node : Branch) : Scribe (Option Sql) :=
  if node.tree.hasKeyword .LIKE then Scribe.unsupported .createTableLike
  else if node.tree.hasChild .tableElementList &&
      node.tree.hasChild .duplicateAsQueryExpression then
    Scribe.unsupported .columnsAndQuery
  else node.sequence

def tableQuery (node : Branch) : Scribe Sql := return .raw "AS" :: (← node.needed .queryExpression)

def dropTable (node : Branch) : Scribe Sql := do
  let tables ← node.need .tableRefList
  match tables.branch.childrenBy .tableRef with
  | [table] =>
    let mode := if node.tree.hasChild .ifExists then ["IF", "EXISTS"] else []
    return Sql.words ("TABLE" :: mode) ++ (← table.required)
  | _ => Scribe.unsupported .dropSeveralTables

/-! ### Indexes -/

/-- The definition of an index, without `CREATE`. -/
def indexDefinition (table index : String) (unique : Bool) (keys : Draft) : Scribe Sql := do
  let keys ← keys.required
  return Sql.words (if unique then ["UNIQUE", "INDEX"] else ["INDEX"]) ++
    [Piece.name (indexName table index), .raw "ON", .name table] ++ keys

def createIndex (node : Branch) : Scribe Sql := do
  let table ← node.need .tableRef
  let index ← node.need .indexName
  let keys ← node.need .keyList
  indexDefinition (table.tree.lastName?.getD "") (index.tree.lastName?.getD "")
    (node.tree.hasKeyword .UNIQUE) keys

def dropIndex (node : Branch) : Scribe Sql := do
  let table ← node.need .tableRef
  let index ← node.need .indexName
  return [.raw "INDEX",
    .name (indexName (table.tree.lastName?.getD "") (index.tree.lastName?.getD ""))]

end Branch

end SqlBridge
