/-
Sessions on a storage, and their transactions.

Transactions nest.  The outermost is a transaction of the storage, the inner ones are savepoints
named for their depth.
-/
import SqlBridge.Session.TransactionCommand
import SqlBridge.Storage.Basic

namespace SqlBridge

/-- Something that observers of a session are told. -/
inductive Event where
  /-- A transaction command at a depth; 0 is the outermost transaction. -/
  | transaction (command : TransactionCommand) (depth : Nat) (success : Bool)
  /-- A query that succeeded. -/
  | query (sql : String)
deriving DecidableEq, Repr

structure Session (σ : Type) where
  storage : σ
  /-- How many transactions are open. -/
  level : Nat := 0
  /-- What happened, in order. -/
  events : List Event := []

/-- An action on a session that may fail; the session goes on from where the failure left it. -/
abbrev Action (σ : Type) := ExceptT Error (StateM (Session σ))

namespace TransactionCommand

/-- The statement of a command at a depth. -/
def sql : TransactionCommand → (depth : Nat) → String
  | .begin, 0 => "BEGIN"
  | .begin, depth => s!"SAVEPOINT LEVEL{depth}"
  | .commit, 0 => "COMMIT"
  | .commit, depth => s!"RELEASE SAVEPOINT LEVEL{depth}"
  | .rollback, 0 => "ROLLBACK"
  | .rollback, depth => s!"ROLLBACK TO SAVEPOINT LEVEL{depth}"

end TransactionCommand

namespace Session

variable {σ : Type} (storage : Storage σ)

/-- Sends a statement to the storage of a session. -/
def perform (statement : Statement) : StateM (Session σ) Answer := fun session =>
  let (answer, s) := storage.perform statement session.storage
  (answer, { session with storage := s })

/-- A session after an event. -/
def noted (event : Event) (session : Session σ) : Session σ :=
  { session with events := session.events ++ [event] }

/-- A session with a number of open transactions. -/
def atLevel (level : Nat) (session : Session σ) : Session σ := { session with level }

/-- Sends a statement whose rows do not matter. -/
def command (statement : Statement) : Action σ Unit := do
  match ← (perform storage statement : StateM (Session σ) Answer) with
  | .ok _ => return
  | .error error => throw (.storage error)

/-- Sends the statement of a transaction command and tells the observers how it went. -/
def transact (command : TransactionCommand) (depth : Nat) : Action σ Unit := do
  match ← (perform storage ⟨command.sql depth, []⟩ : StateM (Session σ) Answer) with
  | .ok _ => modify (noted (.transaction command depth true))
  | .error error =>
    modify (noted (.transaction command depth false))
    throw (.storage error)

/-- Opens a transaction inside the open ones. -/
def begin : Action σ Bool := do
  let depth := (← get).level
  transact storage .begin depth
  modify (atLevel (depth + 1))
  return true

/-- Commits the innermost transaction; `false` if none is open. -/
def commit : Action σ Bool := do
  match (← get).level with
  | 0 => return false
  | depth + 1 =>
    transact storage .commit depth
    modify (atLevel depth)
    return true

/-- Takes the innermost transaction back; `false` if none is open.  It is closed also when the
storage refuses. -/
def rollback : Action σ Bool := do
  match (← get).level with
  | 0 => return false
  | depth + 1 =>
    modify (atLevel depth)
    transact storage .rollback depth
    return true

/-- Carries out a transaction command. -/
def run : TransactionCommand → Action σ Bool
  | .begin => begin storage
  | .commit => commit storage
  | .rollback => rollback storage

end Session

end SqlBridge
