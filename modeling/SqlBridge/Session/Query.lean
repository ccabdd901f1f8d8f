/-
Queries in a session.

A query is read, planned and executed inside a transaction of its own, which is taken back if
anything fails.  The catalog follows every change of a table.

* `Session.open` prepares a storage and makes the tables of the catalog.
* `Session.query` runs a statement.
-/
import SqlBridge.Config
import SqlBridge.Grammar.Statement
import SqlBridge.Plan.Statement
import SqlBridge.Session.Basic
import SqlBridge.Session.Report
import SqlBridge.Text.Basic

namespace SqlBridge

/-- A computation in the course of a query; what is reported so far outlives a failure. -/
abbrev Call (σ : Type) := ExceptT Error (StateT Report (StateM (Session σ)))

namespace Call

variable {σ : Type} (storage : Storage σ)

/-- Sends a statement and reports that it was sent. -/
def send (statement : Statement) : Call σ (List Row) := do
  modifyThe Report fun report => { report with executed := report.executed ++ [statement] }
  match ← (Session.perform storage statement : StateM (Session σ) Answer) with
  | .ok rows => return rows
  | .error error => throw (.storage error)

/-- The first value of the first row, as an integer. -/
def scalar (sql : String) : Call σ (Option Int64) := do
  let rows ← send storage ⟨sql, []⟩
  return (rows.head?.bind fun row => row.values[0]?).bind Value.toInt64?

/-- How many rows the last statement changed. -/
def changes : Call σ Nat := do
  return ((← scalar storage "SELECT changes()").getD 0).toInt.toNat

/-! ### The catalog -/

/-- What the catalog knows about a table. -/
def tableFacts (database table : String) : Call σ TableFacts := do
  let rows ← send storage
    ⟨"SELECT table_collation FROM _mysql_information_schema_tables " ++
      "WHERE table_schema = ? AND table_name = ?", [.text database, .text table]⟩
  return TableFacts.ofCollation
    ((rows.head?.bind fun row => row.values[0]?).bind Value.text?)

/-- The old and the new name of an index of a renamed table and the statement that creates it anew,
for a row with its name and its definition. -/
def renamedIndex? (table newName : String) (row : Row) : Option (String × String) := do
  let name ← row.values[0]?.bind Value.text?
  let definition ← row.values[1]?.bind Value.text?
  let index ← Text.after? (indexName table "").toList name.toList
  let old := Text.quoted '"' name
  let new := Text.quoted '"' (indexName newName (String.ofList index))
  return ("DROP INDEX " ++ old,
    String.ofList (Text.replaceFirst old.toList new.toList definition.toList))

def recreateIndexes (table newName : String) : List Row → Call σ Unit
  | [] => return
  | row :: rest => do
    match renamedIndex? table newName row with
    | some (drop, create) =>
      let _ ← send storage ⟨drop, []⟩
      let _ ← send storage ⟨create, []⟩
    | none => pure ()
    recreateIndexes table newName rest

/-- Indexes keep their names when their table is renamed, so they are made again. -/
def renameIndexes (table newName : String) : Call σ Unit := do
  let rows ← send storage
    ⟨"SELECT name, sql FROM sqlite_master " ++
      "WHERE type = 'index' AND tbl_name = ? AND sql IS NOT NULL ORDER BY name", [.text newName]⟩
  recreateIndexes storage table newName rows

/-- Lets the catalog follow a change of a table. -/
def follow (database : String) (change : CatalogChange) : Call σ Unit := do
  let facts ← match change with
    | .addColumn table _ => tableFacts storage database table
    | _ => pure {}
  (change.script database facts).run fun statement => do
    let _ ← send storage statement
  match change with
  | .renameTable table newName => renameIndexes storage table newName
  | _ => pure ()

/-! ### Plans -/

/-- Sends statements one after the other; the rows are those of the last. -/
def sendAll (rows : List Row) : List String → Call σ (List Row)
  | [] => return rows
  | sql :: rest => do sendAll (← send storage ⟨sql, []⟩) rest

/-- Carries out the steps of a plan; the rows are those of the last statement. -/
def runSteps (database : String) (rows : List Row) : List Step → Call σ (List Row)
  | [] => return rows
  | step :: rest => do
    let rows ← sendAll storage rows step.statements
    match step.change with
    | some change => follow storage database change
    | none => pure ()
    runSteps database rows rest

/-- Whether the table is there that a plan is not to create twice. -/
def isThere : Option String → Call σ Bool
  | none => return false
  | some table => do
    let rows ← send storage
      ⟨"SELECT 1 FROM sqlite_master WHERE type = 'table' AND name = ?", [.text table]⟩
    return !rows.isEmpty

/-- What a query returns, given the rows of its last statement. -/
def returned (config : Config) (verb : Verb) (rows : List Row) : Call σ Returned := do
  match verb with
  | .select => return .rows (rows.map (·.fetched config.fetchMode))
  | .insert | .replace =>
    let count ← changes storage
    let id ← scalar storage "SELECT last_insert_rowid()"
    modifyThe Report fun report => { report with lastInsertId := id }
    return .affected count
  | .update | .delete => return .affected (← changes storage)
  | _ => return .affected 0

/-- Carries out a plan. -/
def runPlan (config : Config) (plan : Plan) : Call σ Unit := do
  if !(← isThere storage plan.unlessExists) then
    let rows ← runSteps storage config.database [] plan.steps
    let value ← returned storage config plan.verb rows
    modifyThe Report fun report => { report with returned := value }

/-- Reads, plans and carries out a statement. -/
def body (config : Config) (sql : String) : Call σ Unit := do
  let tree ← Grammar.parse sql
  let (plan, sightings) := (Plan.ofTree config.database tree).outcome
  let plan ← plan
  modifyThe Report fun report =>
    { report with verb := some plan.verb, table := plan.table, sightings }
  runPlan storage config plan

end Call

namespace Session

variable {σ : Type} (storage : Storage σ)

/-- The statements that prepare a storage. -/
def preparations (config : Config) : List String :=
  ["PRAGMA foreign_keys = ON", "PRAGMA encoding = 'UTF-8'"] ++
  ((config.journalMode.bind journalMode?).map fun mode => "PRAGMA journal_mode = " ++ mode).toList

def prepare (config : Config) : Action σ Unit := do
  (preparations config).forM fun sql => command storage ⟨sql, []⟩
  Script.setup.run (command storage)

/-- A session on a storage, once it is prepared. -/
def «open» (config : Config) (s : σ) : Except Error Unit × Session σ :=
  (ExceptT.run (prepare storage config)).run { storage := s }

/-- What a failure ends in: an error under `debug`, else a report. -/
def failed (config : Config) (report : Report) (error : Error) : Except Error Report :=
  if config.debug then .error error else .ok (report.failed error)

/-- A transaction command given as a statement. -/
def runCommand (config : Config) (sql : String) (command : TransactionCommand) :
    StateM (Session σ) (Except Error Report) := do
  let report : Report := { query := sql, verb := some .transaction }
  match ← (run storage command).run with
  | .ok success => return .ok { report with returned := .success success }
  | .error error => return failed config report error

/-- A statement in a transaction of its own. -/
def runStatement (config : Config) (sql : String) : StateM (Session σ) (Except Error Report) := do
  match ← (begin storage).run with
  | .error error => return failed config { query := sql } error
  | .ok _ =>
    let (outcome, report) ← (Call.body storage config sql).run { query := sql }
    let outcome ← match outcome with
      | .ok () => (discard (commit storage) : Action σ Unit).run
      | .error error => pure (.error error)
    match outcome with
    | .ok () =>
      modify (noted (.query sql))
      return .ok report
    | .error error =>
      let _ ← (rollback storage).run
      return failed config report error

/-- Runs a statement. -/
def query (config : Config) (sql : String) : Action σ Report :=
  match TransactionCommand.ofText? sql with
  | some command => ExceptT.mk (runCommand storage config sql command)
  | none => ExceptT.mk (runStatement storage config sql)

end Session

end SqlBridge
