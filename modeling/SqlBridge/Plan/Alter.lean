/-
The plan of `ALTER TABLE`: a step for every column or index that is added, dropped or renamed.

The actions are planned in order.  After `RENAME TO` the later ones name the table by its new name.
-/
import SqlBridge.Plan.Basic
import SqlBridge.Scribe.Statement

namespace SqlBridge.Plan

def alterTable (table : String) : Sql := [.raw "ALTER", .raw "TABLE", .name table]

/-- A statement and the change of the catalog after it. -/
def changing (sql : Sql) (change : CatalogChange) : Step :=
  { statements := [sql.render], change := some change }

/-! ### Adding -/

def addIndex (table : String) (constraint : Draft) : Scribe Step := do
  match Index.ofConstraint? constraint.tree, constraint.branch.child? .keyList with
  | some index, some keys =>
    if index.kind = .primary then
      Scribe.unsupported .addPrimaryKey
    let definition ← Branch.indexDefinition table index.name index.isUnique keys
    return changing (.raw "CREATE" :: definition) (.addIndex table index)
  | _, _ => Scribe.unsupported .addForeignKeyOrCheck

/-- The definitions in a list of table elements that holds nothing else. -/
def onlyColumns : List Draft → Scribe (List Draft)
  | [] => return []
  | element :: rest =>
    match element.branch.child? .columnDefinition with
    | some column => return column :: (← onlyColumns rest)
    | none => Scribe.unsupported .addConstraintsInList

/-- Whether a definition of a column has a key or counts up. -/
def isKeyed (column : Tree) : Bool :=
  (column.descendantsBy .columnAttribute).any fun entry =>
    entry.hasKeyword .PRIMARY || entry.hasKeyword .KEY || entry.hasKeyword .UNIQUE ||
      entry.hasKeyword .AUTO_INCREMENT

def addColumns (table : String) : List Draft → Scribe (List Step)
  | [] => return []
  | column :: rest => do
    if isKeyed column.tree then
      Scribe.unsupported .addKeyedColumn
    let definition ← column.branch.columnDefinition false
    let sql := alterTable table ++ Sql.words ["ADD", "COLUMN"] ++ definition
    return changing sql (.addColumn table column.tree) :: (← addColumns table rest)

def alterAdd (table : String) (item : Branch) : Scribe (List Step) := do
  match item.child? .tableConstraintDef with
  | some constraint => return [← addIndex table constraint]
  | none =>
    let columns ← match item.child? .tableElementList with
      | some elements => onlyColumns (elements.branch.childrenBy .tableElement)
      | none => pure (item.child? .columnDefinition).toList
    if columns.isEmpty then
      throw (.malformed (.lacks "ALTER TABLE ... ADD" "a column"))
    addColumns table columns

/-! ### Dropping -/

def alterDrop (table : String) (item : Tree) : Except Error Step :=
  match (item.child? .indexName).bind Tree.lastName? with
  | some index =>
    .ok (changing [.raw "DROP", .raw "INDEX", .name (indexName table index)]
      (.dropIndex table index))
  | none =>
    if item.hasKeyword .PRIMARY then .error (.unsupported .dropPrimaryKey)
    else if item.hasKeyword .FOREIGN then .error (.unsupported .dropForeignKey)
    else match (item.child? .identifier).map Tree.nameText with
      | some column =>
        .ok (changing (alterTable table ++ [Piece.raw "DROP", .raw "COLUMN", .name column])
          (.dropColumn table column))
      | none => .error (.malformed (.lacks "ALTER TABLE ... DROP" "a column"))

/-! ### Renaming -/

/-- The step of a renaming, and the name that the table has after it. -/
def alterRename (table : String) (item : Tree) : Except Error (Step × String) :=
  match (item.child? .tableName).bind Tree.lastName? with
  | some newName =>
    .ok (changing (alterTable table ++ [Piece.raw "RENAME", .raw "TO", .name newName])
      (.renameTable table newName), newName)
  | none =>
    if item.hasKeyword .INDEX || item.hasKeyword .KEY then .error (.unsupported .renameIndex)
    else match (item.childrenBy .identifier).map Tree.nameText with
      | [column, newName] =>
        .ok (changing (alterTable table ++
            [Piece.raw "RENAME", .raw "COLUMN", .name column, .raw "TO", .name newName])
          (.renameColumn table column newName), table)
      | _ => .error (.unsupported .renameColumn)

/-! ### All actions -/

/-- The steps of some actions, for a table by the name that it has before them. -/
def alterActions (table : String) : List Draft → Scribe (List Step)
  | [] => return []
  | item :: rest => do
    match item.tree.firstKeyword? with
    | some .ADD =>
      let steps ← alterAdd table item.branch
      return steps ++ (← alterActions table rest)
    | some .DROP =>
      let step ← alterDrop table item.tree
      return step :: (← alterActions table rest)
    | some .RENAME =>
      let (step, name) ← alterRename table item.tree
      return step :: (← alterActions name rest)
    | some keyword => Scribe.unsupported (.alterKeyword keyword)
    | none => Scribe.unsupported .alterAction

/-- The plan of an `ALTER` statement.  Options of the table give no step. -/
def alter (statement : Branch) : Scribe Plan := do
  let alter ← Scribe.part "ALTER statement" "a table" (statement.child? .alterTable)
  let table ← Scribe.part "ALTER TABLE" "a name"
    ((alter.tree.child? .tableRef).bind Tree.lastName?)
  let items := match alter.branch.child? .alterList with
    | some list => list.branch.childrenBy .alterListItem
    | none => []
  return { verb := .alter, table := some table, steps := ← alterActions table items }

end SqlBridge.Plan
