/-
What each action of a session does, in one equation each.

Every equation is in terms of the settled answer of the storage to one statement, so that later
proofs split on that answer and never open the actions themselves:

* `transact_runFrom`, `begin_runFrom`, `commit_runFrom`, `rollback_runFrom`;
* `query_runFrom_command` and `query_runFrom_statement`: a query that is a transaction command, and
  one that is read and carried out inside a transaction of its own.
-/
import SqlBridge.Proofs.Session.Parallel

namespace SqlBridge

variable {σ α : Type}

/-- Runs an action from a session. -/
def Action.runFrom (action : Action σ α) (session : Session σ) : Except Error α × Session σ :=
  (ExceptT.run action).run session

/-- Sequencing in a session: the second part goes on from where the first ended. -/
theorem run_bind_session {β : Type} (first : StateM (Session σ) α)
    (second : α → StateM (Session σ) β) (ses : Session σ) :
    (first >>= second).run ses = (second (first.run ses).1).run (first.run ses).2 := rfl

theorem Action.runFrom_bind {β : Type} (action : Action σ α) (next : α → Action σ β)
    (ses : Session σ) :
    (action >>= next : Action σ β).runFrom ses =
      match action.runFrom ses with
      | (.ok a, ses) => (next a).runFrom ses
      | (.error error, ses) => (.error error, ses) := by
  unfold Action.runFrom
  simp only [ExceptT.run_bind, StateT.run_bind]
  rcases StateT.run (ExceptT.run action) ses with ⟨_ | _, _⟩ <;> rfl

/-- What every action on a list keeps, carrying them out one after the other keeps. -/
theorem Action.forM_keeps {invariant : Session σ → Prop} {action : α → Action σ PUnit}
    {items : List α}
    (h : ∀ item ∈ items, ∀ ses, invariant ses → invariant ((action item).runFrom ses).2)
    {ses : Session σ} (hs : invariant ses) :
    invariant ((items.forM action).runFrom ses).2 := by
  induction items generalizing ses with
  | nil => exact hs
  | cons item rest ih =>
    have hf := h item (by simp) ses hs
    rw [List.forM, Action.runFrom_bind]
    generalize (action item).runFrom ses = ended at hf ⊢
    obtain ⟨_ | _, later⟩ := ended
    · exact hf
    · exact ih (fun other ho => h other (by simp [ho])) hf

namespace Session

variable (store : Storage σ)

theorem command_runFrom (stmt : Statement) (ses : Session σ) :
    ((command store stmt).runFrom ses).2 =
      { ses with storage := (store.perform stmt ses.storage).2 } := by
  have sent : (liftM (perform store stmt) : Action σ Answer).runFrom ses =
      (.ok (store.perform stmt ses.storage).1,
        { ses with storage := (store.perform stmt ses.storage).2 }) := rfl
  rw [command, Action.runFrom_bind, sent]
  cases (store.perform stmt ses.storage).1 <;> rfl

/-- The settled answer to a transaction command at a depth. -/
def answerTo (command : TransactionCommand) (depth : Nat) (session : Session σ) : Answer :=
  (store.perform ⟨command.sql depth, []⟩ session.storage).1

/-- The session after a transaction command at a depth, at the level that it had. -/
def told (command : TransactionCommand) (depth : Nat) (session : Session σ) : Session σ :=
  noted (.transaction command depth (answerTo store command depth session).isOk)
    { session with storage := (store.perform ⟨command.sql depth, []⟩ session.storage).2 }

@[simp] theorem atLevel_level (level : Nat) (ses : Session σ) :
    (atLevel level ses).level = level := rfl

/-- The level does not matter to the storage. -/
@[simp] theorem answerTo_atLevel (cmd : TransactionCommand) (depth level : Nat) (ses : Session σ) :
    answerTo store cmd depth (atLevel level ses) = answerTo store cmd depth ses :=
  rfl

theorem transact_runFrom (cmd : TransactionCommand) (depth : Nat) (ses : Session σ) :
    (transact store cmd depth).runFrom ses =
      match answerTo store cmd depth ses with
      | .ok _ => (.ok (), told store cmd depth ses)
      | .error error => (.error (.storage error), told store cmd depth ses) := by
  have sent : (transact store cmd depth).runFrom ses =
      Action.runFrom (match answerTo store cmd depth ses with
        | .ok _ => modify (noted (.transaction cmd depth true))
        | .error error => do
          modify (noted (.transaction cmd depth false))
          throw (.storage error))
        { ses with
          storage := (store.perform ⟨cmd.sql depth, []⟩ ses.storage).2 } := rfl
  rw [sent]
  unfold told
  cases answerTo store cmd depth ses <;> rfl

theorem begin_runFrom (ses : Session σ) :
    (begin store).runFrom ses =
      match answerTo store .begin ses.level ses with
      | .ok _ =>
        (.ok true, atLevel (ses.level + 1) (told store .begin ses.level ses))
      | .error error => (.error (.storage error), told store .begin ses.level ses) := by
  have opened : (begin store).runFrom ses =
      (do transact store .begin ses.level
          modify (atLevel (ses.level + 1))
          return true : Action σ Bool).runFrom ses := rfl
  rw [opened, Action.runFrom_bind, transact_runFrom]
  cases answerTo store .begin ses.level ses <;> rfl

theorem commit_runFrom (ses : Session σ) :
    (commit store).runFrom ses =
      match ses.level with
      | 0 => (.ok false, ses)
      | depth + 1 =>
        match answerTo store .commit depth ses with
        | .ok _ => (.ok true, atLevel depth (told store .commit depth ses))
        | .error error => (.error (.storage error), told store .commit depth ses) := by
  have asked : (commit store).runFrom ses =
      (match ses.level with
        | 0 => return false
        | depth + 1 => do
          transact store .commit depth
          modify (atLevel depth)
          return true : Action σ Bool).runFrom ses := rfl
  rw [asked]
  cases ses.level with
  | zero => rfl
  | succ depth =>
    dsimp only
    rw [Action.runFrom_bind, transact_runFrom]
    cases answerTo store .commit depth ses <;> rfl

theorem rollback_runFrom (ses : Session σ) :
    (rollback store).runFrom ses =
      match ses.level with
      | 0 => (.ok false, ses)
      | depth + 1 =>
        ((answerTo store .rollback depth ses).map (fun _ => true) |>.mapError .storage,
          atLevel depth (told store .rollback depth ses)) := by
  have asked : (rollback store).runFrom ses =
      (match ses.level with
        | 0 => return false
        | depth + 1 => do
          modify (atLevel depth)
          transact store .rollback depth
          return true : Action σ Bool).runFrom ses := rfl
  rw [asked]
  cases ses.level with
  | zero => rfl
  | succ depth =>
    dsimp only
    have closed : (do
        modify (atLevel depth)
        transact store .rollback depth
        return true : Action σ Bool).runFrom ses =
        (do transact store .rollback depth
            return true : Action σ Bool).runFrom (atLevel depth ses) := rfl
    rw [closed, Action.runFrom_bind, transact_runFrom, answerTo_atLevel]
    cases answerTo store .rollback depth ses <;> rfl

/-- A query that is a transaction command carries it out, and only a failure is told otherwise. -/
theorem query_runFrom_command (config : Config) {sql : String} {cmd : TransactionCommand}
    (hs : TransactionCommand.ofText? sql = some cmd) (ses : Session σ) :
    (query store config sql).runFrom ses =
      match (run store cmd).runFrom ses with
      | (.ok success, ses) =>
        (.ok { query := sql, verb := some .transaction, returned := .success success }, ses)
      | (.error error, ses) =>
        (failed config { query := sql, verb := some .transaction } error, ses) := by
  have asked : (query store config sql).runFrom ses =
      (runCommand store config sql cmd).run ses := by
    unfold query
    rw [hs]
    rfl
  rw [asked]
  unfold runCommand Action.runFrom
  simp only [StateT.run_bind]
  rcases StateT.run (ExceptT.run (run store cmd)) ses with ⟨_ | _, _⟩ <;> rfl

/-- A query that is read and carried out inside a transaction of its own. -/
theorem query_runFrom_statement (config : Config) {sql : String}
    (hs : TransactionCommand.ofText? sql = none) (ses : Session σ) :
    (query store config sql).runFrom ses =
      match (begin store).runFrom ses with
      | (.error error, ses) => (failed config { query := sql } error, ses)
      | (.ok _, ses) =>
        match (Call.body store config sql).runFrom { query := sql } ses with
        | ((.error error, report), ses) =>
          (failed config report error, ((rollback store).runFrom ses).2)
        | ((.ok _, report), ses) =>
          match (commit store).runFrom ses with
          | (.error error, ses) =>
            (failed config report error, ((rollback store).runFrom ses).2)
          | (.ok _, ses) => (.ok report, noted (.query sql) ses) := by
  have asked : (query store config sql).runFrom ses =
      (runStatement store config sql).run ses := by
    unfold query
    rw [hs]
    rfl
  have discarded : ∀ s : Session σ, (ExceptT.run (discard (commit store) : Action σ Unit)).run s =
      (((commit store).runFrom s).1.map fun _ => (), ((commit store).runFrom s).2) := by
    intro s
    have mapped : (discard (commit store) : Action σ Unit) = (fun _ => ()) <$> commit store := rfl
    rw [mapped, ExceptT.run_map]
    rfl
  have opened : (ExceptT.run (begin store)).run ses = (begin store).runFrom ses := rfl
  have worked : ∀ s : Session σ,
      StateT.run (ExceptT.run (Call.body store config sql) { query := sql }) s =
        (Call.body store config sql).runFrom { query := sql } s := fun _ => rfl
  rw [asked]
  unfold runStatement
  rw [run_bind_session, opened]
  rcases (begin store).runFrom ses with ⟨_ | _, s⟩
  · rfl
  dsimp only
  rw [run_bind_session, worked]
  rcases (Call.body store config sql).runFrom { query := sql } s with ⟨⟨_ | _, report⟩, s⟩
  · rfl
  dsimp only
  rw [run_bind_session, discarded]
  rcases (commit store).runFrom s with ⟨_ | _, s⟩ <;> rfl

end Session

end SqlBridge
