/-
What is known about a query when it is over.
-/
import SqlBridge.Plan.Basic
import SqlBridge.Scribe.Basic
import SqlBridge.Value.Fetched

namespace SqlBridge

/-- What a query returns. -/
inductive Returned where
  | rows (rows : List FetchedRow)
  | affected (count : Nat)
  | success (value : Bool)
deriving DecidableEq, Repr

structure Report where
  query : String
  verb : Option Verb := none
  table : Option String := none
  /-- The statements that were sent to the storage, in order. -/
  executed : List Statement := []
  returned : Returned := .affected 0
  lastInsertId : Option Int64 := none
  sightings : Sightings := {}
  /-- What went wrong. -/
  failure : Option String := none
deriving DecidableEq, Repr

namespace Report

def isSuccess (report : Report) : Bool := report.failure.isNone

def rows (report : Report) : List FetchedRow :=
  match report.returned with
  | .rows rows => rows
  | _ => []

def affectedRows? (report : Report) : Option Nat :=
  match report.returned with
  | .affected count => some count
  | _ => none

/-- What is reported of a failure: the error, the query, and the statements sent for it. -/
def diagnostic (report : Report) (error : Error) : String :=
  error.message ++ "\n\nMySQL query:\n" ++ report.query ++ "\n\nSQLite queries:" ++
    String.join (report.executed.map fun statement => "\n" ++ statement.display)

/-- The report of a query that failed. -/
def failed (report : Report) (error : Error) : Report :=
  { report with failure := some (report.diagnostic error), returned := .success false }

end Report

end SqlBridge
