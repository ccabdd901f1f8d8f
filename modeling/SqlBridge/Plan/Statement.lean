/-
The plan of a statement.

* Queries, insertions, updates and deletions are one statement.  SQLite has no order and no limit on
  updates and deletions: the rows to touch are then selected by row id.
* A table and its indexes are created by statements of their own.
* `Plan.ofTree` plans a whole syntax tree.
-/
import SqlBridge.Plan.Alter

namespace SqlBridge.Plan

/-- The first table that a statement names. -/
def firstTable? (statement : Tree) : Option String :=
  (statement.nearestNode? .tableRef).bind Tree.lastName?

/-- A plan of one statement that leaves the catalog alone. -/
def single (verb : Verb) (statement : Tree) (sql : Sql) : Plan :=
  { verb, table := firstTable? statement, steps := [{ statements := [sql.render] }] }

/-! ### Limited updates and deletions -/

/-- Whether a part of a statement says which rows it touches. -/
def isFilter (part : Tree) : Bool :=
  part.hasRule .whereClause || part.hasRule .orderClause || part.hasRule .limitClause

/-- A statement without the clauses that say which rows it touches. -/
def withoutFilters (statement : Tree) : Tree :=
  .assemble (statement.rule?.getD .fragment) (statement.children.filter (!isFilter ·))

/-- What the row ids of a limited statement are selected from. -/
def limitedTarget (statement : Branch) : Scribe Sql := do
  if statement.tree.hasRule .updateStatement then
    let tables ← Scribe.part "UPDATE" "a table" (statement.child? .tableReferenceList)
    tables.required
  else
    let table ← Scribe.part "DELETE" "a table" (statement.child? .tableRef)
    let table ← table.required
    match statement.child? .tableAlias with
    | some name => return table ++ (← name.required)
    | none => return table

/-- The clauses of a limited statement, in the order in which a query has them. -/
def limitedFilters (statement : Branch) : Scribe Sql :=
  Draft.writeEach Draft.required <|
    (statement.child? .whereClause).toList ++ (statement.child? .orderClause).toList ++
      (statement.child? .limitClause).toList

/-- The text of an update or a deletion. -/
def limited (database : String) (statement : Draft) : Scribe Sql := do
  let node := statement.branch
  if node.tree.hasChild .orderClause || node.tree.hasChild .limitClause then
    let head ← (Draft.ofTree database (withoutFilters node.tree)).required
    let target ← limitedTarget node
    let filters ← limitedFilters node
    return head ++ [Piece.raw "WHERE", .raw "rowid", .raw "IN",
      .group (Sql.words ["SELECT", "rowid", "FROM"] ++ target ++ filters)]
  else statement.required

/-! ### Creating -/

def createIndex (statement create : Draft) : Scribe Plan := do
  let table ← Scribe.part "CREATE INDEX" "a table"
    ((create.tree.child? .tableRef).bind Tree.lastName?)
  let index ← Index.ofCreateIndex create.tree
  let sql ← statement.required
  return { verb := .create, table := some table, steps := [changing sql (.addIndex table index)] }

/-- The statements that create the indexes of a table, other than its primary key. -/
def indexStatements (database table : String) : List Index → Scribe (List String)
  | [] => return []
  | index :: rest =>
    if index.kind = .primary then indexStatements database table rest else do
      let definition ← Branch.indexDefinition table index.name index.isUnique
        (Draft.ofTree database index.keys)
      return Sql.render (.raw "CREATE" :: definition) :: (← indexStatements database table rest)

def createTable (database : String) (statement create : Draft) : Scribe Plan := do
  let table ← Scribe.part "CREATE TABLE" "a name"
    ((create.tree.child? .tableName).bind Tree.lastName?)
  let sql ← statement.required
  let indexes := match create.tree.child? .tableElementList with
    | some elements => Index.ofElements elements
    | none => []
  let others ← indexStatements database table indexes
  return {
    verb := .create
    table := some table
    steps := [{ statements := sql.render :: others, change := some (.createTable create.tree) }]
    unlessExists := if create.tree.hasChild .ifNotExists then some table else none }

def create (database : String) (statement : Draft) : Scribe Plan :=
  match statement.branch.child? .createIndex with
  | some create => createIndex statement create
  | none => do
    let create ← Scribe.part "CREATE statement" "a table or index"
      (statement.branch.child? .createTable)
    createTable database statement create

/-! ### Dropping -/

def dropIndex (statement drop : Draft) : Scribe Plan := do
  let table ← Scribe.part "DROP INDEX" "a table"
    ((drop.tree.child? .tableRef).bind Tree.lastName?)
  let index ← Scribe.part "DROP INDEX" "a name"
    ((drop.tree.child? .indexName).bind Tree.lastName?)
  let sql ← statement.required
  return { verb := .drop, table := some table, steps := [changing sql (.dropIndex table index)] }

/-- The tables that are dropped, each with its step. -/
def dropSteps (ifExists : Bool) : List Draft → Scribe (List (String × Step))
  | [] => return []
  | reference :: rest => do
    let table ← Scribe.part "DROP TABLE" "a name" reference.tree.lastName?
    let mode := if ifExists then ["IF", "EXISTS"] else []
    let sql := Sql.words (["DROP", "TABLE"] ++ mode) ++ (← reference.required)
    return (table, changing sql (.dropTable table)) :: (← dropSteps ifExists rest)

def dropTables (drop : Draft) : Scribe Plan := do
  let references := match drop.branch.child? .tableRefList with
    | some tables => tables.branch.childrenBy .tableRef
    | none => []
  let steps ← dropSteps (drop.tree.hasChild .ifExists) references
  return { verb := .drop, table := steps.head?.map Prod.fst, steps := steps.map Prod.snd }

def drop (statement : Draft) : Scribe Plan :=
  match statement.branch.child? .dropIndex with
  | some drop => dropIndex statement drop
  | none => do
    let drop ← Scribe.part "DROP statement" "a table or index"
      (statement.branch.child? .dropTable)
    dropTables drop

/-! ### All statements -/

def ofStatement (database : String) (statement : Draft) : Scribe Plan :=
  match statement.rule with
  | .selectStatement => return single .select statement.tree (← statement.required)
  | .insertStatement => return single .insert statement.tree (← statement.required)
  | .replaceStatement => return single .replace statement.tree (← statement.required)
  | .updateStatement => return single .update statement.tree (← limited database statement)
  | .deleteStatement => return single .delete statement.tree (← limited database statement)
  | .createStatement => create database statement
  | .alterStatement => alter statement.branch
  | .dropStatement => drop statement
  | .setStatement => return { verb := .set }
  | rule => Scribe.unsupported (.statements rule)

/-- The plan of a statement that was read; `database` is the name of the one database. -/
def ofTree (database : String) (query : Tree) : Scribe Plan :=
  let root := (Draft.ofTree database query).branch
  match (root.child? .simpleStatement).bind (·.branch.firstNode?) with
  | some statement => ofStatement database statement
  | none => throw (.malformed (.empty "query"))

end SqlBridge.Plan
