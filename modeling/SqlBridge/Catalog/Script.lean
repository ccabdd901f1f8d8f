/-
What the catalog does for each change of a table.

A `Script` is the commands to run in order, and the error that ends it when a part of the change
cannot be described; the commands before that part are run all the same.
-/
import SqlBridge.Catalog.Command

namespace SqlBridge

structure Script where
  commands : List Command := []
  failure : Option Error := none

namespace Script

/-- Carry out the commands one after the other until one fails. -/
def perform {m : Type → Type} [Monad m] [MonadExceptOf Error m] (execute : Command → m Unit)
    (script : Script) : m Unit := do
  script.commands.forM execute
  match script.failure with
  | some error => throw error
  | none => pure ()

/-- Carry out the commands by their statements. -/
def run {m : Type → Type} [Monad m] [MonadExceptOf Error m] (execute : Statement → m Unit)
    (script : Script) : m Unit :=
  script.perform fun command => execute command.statement

/-- Create the tables of the catalog where they are missing. -/
def setup : Script where
  commands := [.createRegister .tables, .createRegister .columns, .createRegister .statistics,
    .createCache]

/-! ### Creating a table -/

/-- The engine of a table; the usual ones have one spelling. -/
def engineOf (createTable : Tree) : String :=
  match (TableFacts.tableOptions createTable).findSome? (·.child? .engineRef) with
  | none => "InnoDB"
  | some engine =>
    if Text.equalsIgnoringCase engine.text "innodb" then "InnoDB"
    else if Text.equalsIgnoringCase engine.text "myisam" then "MyISAM"
    else engine.text

/-- The value of an option of a table, given with or without `=`. -/
def tableOption? (createTable : Tree) (keyword : Keyword) : Option String := do
  let option ← (TableFacts.tableOptions createTable).find? (·.hasKeyword keyword)
  match option.child? .textStringLiteral with
  | some literal => some literal.text
  | none => (option.childTokens.find? (·.kind.isNumber)).map Token.value

def tableRow (place : Place) (createTable : Tree) (facts : TableFacts) : TableRow where
  place := place
  engine := engineOf createTable
  collation := facts.tableCollation
  autoIncrement := (tableOption? createTable .AUTO_INCREMENT).map Text.toInt64?
  comment := tableOption? createTable .COMMENT

/-- The descriptions of some columns, up to the first that has none. -/
def describeAll (facts : TableFacts) : List Tree → List Column × Option Error
  | [] => ([], none)
  | definition :: rest =>
    match Column.ofDefinition definition facts with
    | .ok column =>
      let (columns, failure) := describeAll facts rest
      (column :: columns, failure)
    | .error error => ([], some error)

/-- The row of a column of an index; `info?` is the description of that column. -/
def indexRow (index : Index) (method : IndexMethod) (info? : Option Column) (position : Nat)
    (part : KeyPart) : IndexRow where
  unique := index.isUnique
  index := index.name
  position := Int64.ofNat position
  column := part.column
  collation := if method = .fulltext then none else some (if part.descending then "D" else "A")
  length := match part.length with
    | some length =>
      match (info?.bind Column.extent).map Extent.characters with
      | some most => some (if length ≤ most then length else most)
      | none => some length
    | none => if method = .spatial then some 32 else none
  nullable := info?.any Column.nullable
  method := method
  comment := index.comment

/-- The column that a name in a key means. -/
def columnNamed? (columns : List Column) (name : String) : Option Column :=
  columns.find? fun column => Text.equalsIgnoringCase column.name name

/-- The rows of an index over described columns. -/
def indexRows (columns : List Column) (index : Index) : List IndexRow :=
  let leading? := index.parts.head?.bind fun part => columnNamed? columns part.column
  let method := index.method (leading?.any (·.dataType.isSpatial))
  index.parts.mapIdx fun i part =>
    indexRow index method (columnNamed? columns part.column) (i + 1) part

/-- Record a table with its columns and indexes.  Temporary tables and tables without a list of
elements are not recorded. -/
def createTable (schema : String) (tree : Tree) : Script :=
  if tree.hasKeyword .TEMPORARY then {} else
    match tree.child? .tableElementList, (tree.child? .tableName).bind Tree.lastName? with
    | none, _ => {}
    | some _, none => { failure := some (.malformed (.lacks "CREATE TABLE" "a name")) }
    | some elements, some table =>
      let place : Place := ⟨schema, table⟩
      let facts := TableFacts.ofCreateTable tree
      let (columns, failure) := describeAll facts elements.columnDefinitions
      let described := .recordTable (tableRow place tree facts) ::
        columns.mapIdx fun i column => .recordColumn place (Int64.ofNat (i + 1)) column
      match failure with
      | some error => { commands := described, failure := some error }
      | none =>
        let rows := (Index.ofElements elements).flatMap (indexRows columns)
        { commands := described ++ rows.map (.recordIndexPart place) ++
            columns.map fun column => .cacheType table column.name column.columnType }

/-! ### Changing a table -/

/-- Record a column after the others; the facts are those of the table. -/
def addColumn (place : Place) (definition : Tree) (facts : TableFacts) : Script :=
  match Column.ofDefinition definition facts with
  | .ok column =>
    { commands :=
        [.appendColumn place column, .cacheType place.table column.name column.columnType] }
  | .error error => { failure := some error }

/-- Forget a column and its part in indexes, and close the gaps it leaves. -/
def dropColumn (place : Place) (column : String) : Script where
  commands := [.closeOrdinalGap place column, .closeIndexGaps place column,
    .forgetColumn .columns place column, .forgetColumn .statistics place column,
    .uncacheColumn place.table column]

/-- The key that an index gives to its columns. -/
def keyOfIndex (index : Index) : ColumnKey :=
  match index.kind with
  | .primary => .primary
  | .unique => .unique
  | _ => .multiple

/-- The columns to which an index gives its key. -/
def keyedParts (index : Index) : List KeyPart :=
  if index.kind = .primary then index.parts else index.parts.take 1

/-- Record an index of a table that is recorded already. -/
def addIndex (place : Place) (index : Index) : Script :=
  match index.parts with
  | [] => { failure := some (.malformed (.lacks "index" "key parts")) }
  | leading :: _ =>
    { commands :=
        (index.parts.mapIdx fun i part =>
          .addIndexPart place index leading.column (Int64.ofNat (i + 1)) part) ++
        (keyedParts index).map fun part => .promoteKey place part.column (keyOfIndex index) }

def dropIndex (place : Place) (index : String) : Script where
  commands := [.recomputeKeys place index, .forgetIndex place index]

def renameTable (place : Place) (newName : String) : Script where
  commands := [.renameTable .tables place newName, .renameTable .columns place newName,
    .renameTable .statistics place newName, .renameCachedTable place.table newName]

def renameColumn (place : Place) (column newName : String) : Script where
  commands := [.renameColumn .columns place column newName,
    .renameColumn .statistics place column newName,
    .renameCachedColumn place.table column newName]

def dropTable (place : Place) : Script where
  commands := [.forgetTable .tables place, .forgetTable .columns place,
    .forgetTable .statistics place, .uncacheTable place.table]

end Script

end SqlBridge
