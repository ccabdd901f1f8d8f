/-
What only shapes results.

The setting `debug` decides how a failure is told, and the fetch mode in what form rows come.  Two
sessions that differ in nothing else are run side by side: `Call.SameWork` is what the bodies of
their queries keep, and `settings_only_shape` says that along any requests they send the same, tell
their observers the same, and differ in their replies only as the settings say.
-/
import SqlBridge.Proofs.Session.Interrupted

namespace SqlBridge

variable {σ : Type}

namespace Call

/-- Two runs of a query that have done the same and report it in the same way, up to what is
returned. -/
structure SameWork (sql : String) (left right : Report × Session σ) : Prop where
  session : right.2 = left.2
  report : right.1 = { left.1 with returned := right.1.returned }
  query : left.1.query = sql
  unfailed : left.1.failure = none

variable {sql : String}

theorem SameWork.start (ses : Session σ) :
    SameWork sql ({ query := sql }, ses) ({ query := sql }, ses) :=
  ⟨rfl, rfl, rfl, rfl⟩

/-- Whatever is edited but what is returned, it is edited in the same way. -/
theorem SameWork.edit {r r' : Report} {s s' : Session σ} (h : SameWork sql (r, s) (r', s'))
    (edit : Report → Report) (annotates : Annotates edit)
    (blind : ∀ report value, edit { report with returned := value } =
      { edit report with returned := value }) :
    SameWork sql (edit r, s) (edit r', s') where
  session := h.session
  report := by
    have hr : r' = { r with returned := r'.returned } := h.report
    have he := blind r r'.returned
    rw [← hr] at he
    dsimp only
    rw [he]
  query := (annotates r).1.trans h.query
  unfailed := (annotates r).2.2.trans h.unfailed

theorem sameWork_edit {edit : Report → Report} (annotates : Annotates edit)
    (blind : ∀ report value, edit { report with returned := value } =
      { edit report with returned := value }) :
    Alike (SameWork sql) (fun _ => True) (fun _ => True)
      (modifyThe Report edit : Call σ PUnit) (modifyThe Report edit : Call σ PUnit) :=
  fun _ _ _ _ h => ⟨rfl, h.edit edit annotates blind, trivial⟩

theorem sameWork_send (store : Storage σ) (stmt : Statement) :
    Alike (SameWork sql) (fun _ => True) (fun _ => True) (send store stmt) (send store stmt) := by
  rintro r s r' s' ⟨hs, hr, hq, hf⟩
  dsimp only at hs hr hq hf
  subst hs
  rw [hr, runFrom_send, runFrom_send]
  refine ⟨rfl, ⟨rfl, rfl, hq, hf⟩, ?_⟩
  cases (store.perform stmt s'.storage).1 <;> trivial

/-- The body of a query does the same under settings for the same database. -/
theorem sameWork_body (store : Storage σ) {config config' : Config}
    (hd : config'.database = config.database) (sql : String) :
    Alike (SameWork sql) (fun _ => True) (fun _ => True) (body store config sql)
      (body store config' sql) := by
  unfold body
  rw [hd]
  refine alike_bind (alike_except (Grammar.parse sql) fun _ _ => trivial) fun tree _ => ?_
  refine alike_bind (alike_except _ fun _ _ => trivial) fun plan _ => ?_
  refine alike_bind (sameWork_edit (fun _ => ⟨rfl, rfl, rfl⟩) fun _ _ => rfl) fun _ _ => ?_
  refine alike_runPlan (fun stmt _ => sameWork_send store stmt) (permits_all _ sql) plan rfl hd
    (fun _ _ _ _ => trivial) ?_ ?_
  · intro id r s r' s' h
    exact h.edit (fun report => { report with lastInsertId := id }) (fun _ => ⟨rfl, rfl, rfl⟩)
      fun _ _ => rfl
  · rintro value value' - r s r' s' ⟨hs, hr, hq, hf⟩
    refine ⟨hs, ?_, hq, hf⟩
    dsimp only at hr ⊢
    rw [hr]

end Call

namespace Session

/-- How a failure is told: under `debug` as an error, else by a report with a diagnostic. -/
def ToldAs (sql : String) (error : Error) : (debug : Bool) → Except Error Report → Prop
  | true, outcome => outcome = .error error
  | false, outcome => ∃ report, outcome = .ok report ∧ report.query = sql ∧
      report.failure = some (error.message ++ "\n\nMySQL query:\n" ++ sql ++
        "\n\nSQLite queries:" ++
        String.join (report.executed.map fun statement => "\n" ++ statement.display))

theorem toldAs_failed {sql : String} (config : Config) {report : Report} (hq : report.query = sql)
    (error : Error) : ToldAs sql error config.debug (failed config report error) := by
  unfold failed
  cases config.debug with
  | true => exact rfl
  | false =>
    subst hq
    exact ⟨report.failed error, rfl, rfl, rfl⟩

/-- The replies to a request under two settings of `debug`. -/
inductive Reshaped (debug debug' : Bool) : Request → Reply → Reply → Prop
  | command (command : TransactionCommand) (outcome : Except Error Bool) :
    Reshaped debug debug' (.command command) (.command outcome) (.command outcome)
  /-- What succeeds is reported in the same way, up to what is returned. -/
  | success (sql : String) (report : Report) (returned : Returned)
    (unfailed : report.failure = none) :
    Reshaped debug debug' (.query sql) (.query (.ok report)) (.query (.ok { report with returned }))
  | failure (sql : String) (error : Error) {outcome outcome' : Except Error Report}
    (told : ToldAs sql error debug outcome) (told' : ToldAs sql error debug' outcome') :
    Reshaped debug debug' (.query sql) (.query outcome) (.query outcome')

variable (store : Storage σ) {config config' : Config}

/-- A query leaves the same session behind, and is answered as the settings say. -/
theorem query_reshaped (hd : config'.database = config.database) (sql : String) (ses : Session σ) :
    let left := (query store config sql).runFrom ses
    let right := (query store config' sql).runFrom ses
    left.2 = right.2 ∧
    Reshaped config.debug config'.debug (.query sql) (.query left.1) (.query right.1) := by
  dsimp only
  cases hs : TransactionCommand.ofText? sql with
  | some cmd =>
    rw [query_runFrom_command _ config hs, query_runFrom_command _ config' hs]
    rcases (run store cmd).runFrom ses with ⟨error | success, later⟩
    · exact ⟨rfl, .failure sql error (toldAs_failed config rfl error)
        (toldAs_failed config' rfl error)⟩
    · exact ⟨rfl, .success sql _ _ rfl⟩
  | none =>
    rw [query_runFrom_statement _ config hs, query_runFrom_statement _ config' hs]
    rcases (begin store).runFrom ses with ⟨error | _, inside⟩
    · exact ⟨rfl, .failure sql error (toldAs_failed config rfl error)
        (toldAs_failed config' rfl error)⟩
    obtain ⟨ho, hw, -⟩ := Call.sameWork_body store hd sql _ inside _ inside (.start inside)
    dsimp only
    generalize (Call.body store config sql).runFrom { query := sql } inside = left at ho hw ⊢
    generalize (Call.body store config' sql).runFrom { query := sql } inside = right at ho hw ⊢
    obtain ⟨⟨outcome, report⟩, worked⟩ := left
    obtain ⟨⟨outcome', report'⟩, worked'⟩ := right
    obtain ⟨rfl, hr, hq, hf⟩ := hw
    dsimp only at ho hr hq hf ⊢
    subst ho
    have hq' : report'.query = sql := by
      rw [hr]
      exact hq
    cases outcome with
    | error error =>
      exact ⟨rfl, .failure sql error (toldAs_failed config hq error)
        (toldAs_failed config' hq' error)⟩
    | ok =>
      dsimp only
      rcases (commit store).runFrom worked' with ⟨error | _, later⟩
      · exact ⟨rfl, .failure sql error (toldAs_failed config hq error)
          (toldAs_failed config' hq' error)⟩
      · dsimp only
        rw [hr]
        exact ⟨rfl, .success sql report _ hf⟩

theorem serveAll_reshaped (hd : config'.database = config.database) (requests : List Request)
    (ses : Session σ) :
    List.Forall₂ (fun asked right => asked.2.2 = right.2 ∧
        Reshaped config.debug config'.debug asked.1 asked.2.1 right.1)
      (requests.zip (serveAll store config requests ses))
      (serveAll store config' requests ses) := by
  induction requests generalizing ses with
  | nil => exact .nil
  | cons request rest ih =>
    have served : (serve store config ses request).2 = (serve store config' ses request).2 ∧
        Reshaped config.debug config'.debug request (serve store config ses request).1
          (serve store config' ses request).1 := by
      cases request with
      | command cmd => exact ⟨rfl, .command cmd _⟩
      | query sql => exact query_reshaped store hd sql ses
    refine .cons served ?_
    rw [served.1]
    exact ih _

/-- Settings that only shape results do not change what is executed.  Sessions whose settings differ
only in `debug` and the fetch mode are prepared in the same way; after every request of any sequence
the storage is in the same state and has received the same statements, the level is the same, and
the observers have been told the same.  A query is an error under `debug` exactly where it is else a
report of the failure with the text of the error, the query and the statements sent for it. -/
theorem settings_only_shape (storage : Storage σ) (config : Config) (debug debug' : Bool)
    (mode mode' : FetchMode) (s : σ) (requests : List Request) :
    let left := { config with debug := debug, fetchMode := mode }
    let right := { config with debug := debug', fetchMode := mode' }
    let ready := «open» storage.logged left (s, [])
    ready = «open» storage.logged right (s, []) ∧
    List.Forall₂ (fun asked other => asked.2.2 = other.2 ∧
        Reshaped debug debug' asked.1 asked.2.1 other.1)
      (requests.zip (serveAll storage.logged left requests ready.2))
      (serveAll storage.logged right requests ready.2) := by
  intro left right ready
  have hd : right.database = left.database := rfl
  exact ⟨rfl, serveAll_reshaped storage.logged hd requests ready.2⟩

end Session

end SqlBridge
