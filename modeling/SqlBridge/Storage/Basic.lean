/-
Storages: what statements are executed on.

A storage may answer that it is busy; the statement is then sent again.  `patience` bounds how often
that happens in a row, and `perform` sends a statement until it gets another answer.
-/
import SqlBridge.Error
import SqlBridge.Value

namespace SqlBridge

/-- An answer of a storage: rows, or a refusal. -/
abbrev Answer := Except StorageError (List Row)

/-- Whether an answer says that the storage is busy. -/
def Answer.isBusy : Answer → Bool
  | .error error => error.isBusy
  | .ok _ => false

/-- A storage with states in `σ`. -/
structure Storage (σ : Type) where
  execute : Statement → σ → Answer × σ
  /-- How many busy answers to a statement can come in a row. -/
  patience : Statement → σ → Nat

namespace Storage

variable {σ : Type} (storage : Storage σ)

/-- Sends a statement, and again for every busy answer, at most `tries` times again. -/
def retry (statement : Statement) : (tries : Nat) → σ → Answer × σ
  | 0, s => storage.execute statement s
  | tries + 1, s =>
    let (answer, s) := storage.execute statement s
    if answer.isBusy then retry statement tries s else (answer, s)

/-- Sends a statement until the answer is other than busy. -/
def perform (statement : Statement) (s : σ) : Answer × σ :=
  storage.retry statement (storage.patience statement s) s

/-- Whether the patience of the storage is enough for every statement. -/
def Settles : Prop := ∀ statement s, (storage.perform statement s).1.isBusy = false

/-- A storage that also keeps the statements that reach it, retries included. -/
def logged : Storage (σ × List Statement) where
  execute statement state :=
    let (answer, s) := storage.execute statement state.1
    (answer, s, state.2 ++ [statement])
  patience statement state := storage.patience statement state.1

/-- The storage that takes every statement and has no rows. -/
def accepting : Storage Unit where
  execute _ s := (.ok [], s)
  patience _ _ := 0

end Storage

end SqlBridge
