/-
The sightings that a query reports.

The features for counting found rows are met while a statement is planned.  A plan hands them to the
report of its query, and what is sent afterwards keeps them there; where planning fails they are
lost.

* `Call.sightings_body`: what the body of a query leaves in its report;
* `query_sightings`: what the report of a query that can be read says, if its transaction is opened;
* `query_sightings_lost`: a query that meets `FOUND_ROWS()` and does not report it.
-/
import SqlBridge.Proofs.Session.Step

namespace SqlBridge

variable {σ : Type}

namespace Call

/-- Carrying out a plan leaves the sightings of a report as they are. -/
theorem sightings_runPlan (store : Storage σ) (config : Config) (plan : Plan) (report : Report)
    (ses : Session σ) :
    ((runPlan store config plan).runFrom report ses).1.2.sightings = report.sightings := by
  have keeps : Alike
      (fun left right : Report × Session σ => left = right ∧ left.1.sightings = report.sightings)
      (fun _ => True) (fun _ => True) (runPlan store config plan) (runPlan store config plan) := by
    refine alike_runPlan ?_ (permits_all config.database report.query) plan rfl rfl
      (fun _ _ _ _ => trivial) ?_ ?_
    · rintro stmt - r s r' s' ⟨hs, hr⟩
      cases hs
      rw [runFrom_send]
      refine ⟨rfl, ⟨rfl, hr⟩, ?_⟩
      cases (store.perform stmt s.storage).1 <;> trivial
    · rintro id r s r' s' ⟨hs, hr⟩
      cases hs
      exact ⟨rfl, hr⟩
    · rintro value value' hv r s r' s' ⟨hs, hr⟩
      cases hs
      rw [hv rfl]
      exact ⟨rfl, hr⟩
  exact (keeps report ses report ses ⟨rfl, rfl⟩).2.1.2

/-- The body of a statement that can be read reports the sightings of its plan, if there is one. -/
theorem sightings_body (store : Storage σ) (config : Config) {sql : String} {tree : Tree}
    (hparse : Grammar.parse sql = .ok tree) (ses : Session σ) :
    ((body store config sql).runFrom { query := sql } ses).1.2.sightings =
      if (Plan.ofTree config.database tree).outcome.1.isOk then
        (Plan.ofTree config.database tree).outcome.2
      else {} := by
  unfold body
  rw [runFrom_bind, hparse, runFrom_except]
  dsimp only
  rw [runFrom_bind, runFrom_except]
  cases (Plan.ofTree config.database tree).outcome.1 with
  | error error => rfl
  | ok plan =>
    dsimp only
    rw [runFrom_bind, runFrom_edit]
    exact sightings_runPlan store config plan _ ses

end Call

namespace Session

theorem failed_ok {config : Config} (hdebug : config.debug = false) (report : Report)
    (error : Error) : failed config report error = .ok (report.failed error) := by
  rw [failed, hdebug]
  rfl

/-- Without `debug`, a query that can be read and whose transaction is opened ends with a report.
It tells the sightings of planning if planning succeeds, and none if planning fails or the query is
a transaction command. -/
theorem query_sightings (store : Storage σ) {config : Config} (hdebug : config.debug = false)
    {sql : String} {tree : Tree} (hparse : Grammar.parse sql = .ok tree) (session : Session σ)
    (hopen : (answerTo store .begin session.level session).isOk) :
    let planning := (Plan.ofTree config.database tree).outcome
    ∃ report, ((query store config sql).runFrom session).1 = .ok report ∧
      report.sightings =
        if TransactionCommand.ofText? sql = none ∧ planning.1.isOk then planning.2 else {} := by
  dsimp only
  cases hs : TransactionCommand.ofText? sql with
  | some cmd =>
    rw [query_runFrom_command _ config hs]
    rcases (run store cmd).runFrom session with ⟨error | success, later⟩
    · exact ⟨_, failed_ok hdebug _ error, by simp [Report.failed]⟩
    · exact ⟨_, rfl, by simp⟩
  | none =>
    rw [query_runFrom_statement _ config hs, begin_runFrom]
    cases ha : answerTo store .begin session.level session with
    | error error =>
      rw [ha] at hopen
      cases hopen
    | ok rows =>
      dsimp only
      generalize atLevel (session.level + 1) (told store .begin session.level session) = inside
      have hbody := Call.sightings_body store config hparse inside
      generalize (Call.body store config sql).runFrom { query := sql } inside = ended at hbody ⊢
      simp only [true_and]
      -- the report of the body is also that of a failure, be it of the body or of the commit
      obtain ⟨⟨error | _, report⟩, worked⟩ := ended
      · exact ⟨_, failed_ok hdebug report error, hbody⟩
      · dsimp only
        rcases (commit store).runFrom worked with ⟨error | _, later⟩
        · exact ⟨_, failed_ok hdebug report error, hbody⟩
        · exact ⟨report, rfl, hbody⟩

/-- Options of a query are reported, here on a storage that takes everything. -/
theorem query_sightings_calcFoundRows :
    ∃ tree report, Grammar.parse "SELECT SQL_CALC_FOUND_ROWS 1" = .ok tree ∧
      ((query Storage.accepting {} "SELECT SQL_CALC_FOUND_ROWS 1").runFrom { storage := () }).1 =
        .ok report ∧
      report.sightings = if TransactionCommand.ofText? "SELECT SQL_CALC_FOUND_ROWS 1" = none ∧
        (Plan.ofTree "wp" tree).outcome.1.isOk then (Plan.ofTree "wp" tree).outcome.2 else {} := by
  have hok : (Grammar.parse "SELECT SQL_CALC_FOUND_ROWS 1").isOk := by decide +kernel
  cases hparse : Grammar.parse "SELECT SQL_CALC_FOUND_ROWS 1" with
  | error error =>
    rw [hparse] at hok
    cases hok
  | ok tree =>
    have hdebug : ({} : Config).debug = false := rfl
    obtain ⟨report, hr, hs⟩ := query_sightings Storage.accepting hdebug hparse { storage := () } rfl
    exact ⟨tree, report, rfl, hr, hs⟩

/-- Planning meets `FOUND_ROWS()` and fails, and the report does not tell it. -/
theorem query_sightings_lost :
    let sql := "SELECT FOUND_ROWS()"
    ((Grammar.parse sql).toOption.map fun tree => (Plan.ofTree "wp" tree).outcome.2.foundRows) =
      some true ∧
    (((query Storage.accepting {} sql).runFrom { storage := () }).1.toOption.map
      (·.sightings.foundRows)) = some false := by
  decide +kernel

end Session

end SqlBridge
