/-
Two runs of a query side by side.

`Call.Alike` relates a computation on one storage to a computation on another: from related states
they end in the same way, and in related states.  The computations that make up the body of a query
are built from few operations, so whatever is known about sending one statement extends to the
whole body:

* `alike_bind`, `alike_edit` and the like: how the relation passes through each operation;
* `Permits`: the statements that a body can send, as closure conditions on a set of statements;
* `alike_body`: if sending any permitted statement keeps two runs alike, so does the whole body.

With the same storage on both sides the relation is an invariant of one run (`Keeps`).
-/
import SqlBridge.Proofs.Outcome
import SqlBridge.Session.Query

namespace SqlBridge.Call

variable {σ τ α β : Type} {want : α → Prop} (ses : Session σ) (report : Report)

/-! ### Running a computation -/

/-- Runs a computation from a report and a session. -/
def runFrom (call : Call σ α) (report : Report) (session : Session σ) :
    (Except Error α × Report) × Session σ := ((ExceptT.run call).run report).run session

theorem runFrom_bind (call : Call σ α) (next : α → Call σ β) : (call >>= next).runFrom report ses =
      match call.runFrom report ses with
      | ((.ok a, report), ses) => (next a).runFrom report ses
      | ((.error error, report), ses) => ((.error error, report), ses) := by
  unfold runFrom
  simp only [ExceptT.run_bind, StateT.run_bind]
  rcases StateT.run (StateT.run (ExceptT.run call) report) ses with ⟨⟨_ | _, _⟩, _⟩ <;> rfl

@[simp] theorem runFrom_edit (edit : Report → Report) :
    (modifyThe Report edit : Call σ PUnit).runFrom report ses =
      ((.ok ⟨⟩, edit report), ses) := rfl

@[simp] theorem runFrom_except (outcome : Except Error α) :
    (liftM outcome : Call σ α).runFrom report ses = ((outcome, report), ses) := by
  cases outcome <;> rfl

theorem runFrom_send (store : Storage σ) (stmt : Statement) : (send store stmt).runFrom report ses =
      (((store.perform stmt ses.storage).1.mapError .storage,
          { report with executed := report.executed ++ [stmt] }),
        { ses with storage := (store.perform stmt ses.storage).2 }) := by
  have sent : (liftM (Session.perform store stmt : StateM (Session σ) Answer) :
      Call σ Answer).runFrom { report with executed := report.executed ++ [stmt] } ses =
      ((.ok (store.perform stmt ses.storage).1,
          { report with executed := report.executed ++ [stmt] }),
        { ses with storage := (store.perform stmt ses.storage).2 }) := rfl
  unfold send
  rw [runFrom_bind, runFrom_edit]
  dsimp only
  rw [runFrom_bind, sent]
  cases (store.perform stmt ses.storage).1 <;> rfl

/-! ### Runs that go alike -/

/-- From related states both computations end in the same way, as expected, and in related states
again. -/
def Alike (related : Report × Session σ → Report × Session τ → Prop) (bad : Error → Prop)
    (expected : α → Prop) (left : Call σ α) (right : Call τ α) : Prop :=
  ∀ r s r' s', related (r, s) (r', s') →
    (left.runFrom r s).1.1 = (right.runFrom r' s').1.1 ∧
    related ((left.runFrom r s).1.2, (left.runFrom r s).2)
      ((right.runFrom r' s').1.2, (right.runFrom r' s').2) ∧
    Ends bad expected (left.runFrom r s).1.1

section Rules

variable {related : Report × Session σ → Report × Session τ → Prop} {bad : Error → Prop}

theorem alike_pure {a : α} (h : want a) : Alike related bad want (pure a) (pure a) := by
  intro r s r' s' hr
  exact ⟨rfl, hr, h⟩

theorem alike_throw {error : Error} (h : bad error) :
    Alike related bad want (throw error) (throw error) := by
  intro r s r' s' hr
  exact ⟨rfl, hr, h⟩

theorem alike_except (outcome : Except Error α) (h : ∀ error, outcome = .error error → bad error) :
    Alike related bad (fun a => outcome = .ok a) (liftM outcome) (liftM outcome) := by
  intro r s r' s' hr
  simp only [runFrom_except]
  refine ⟨trivial, hr, ?_⟩
  cases outcome with
  | ok a => exact rfl
  | error error => exact h error rfl

theorem alike_bind {expectedNext : β → Prop} {left : Call σ α}
    {right : Call τ α} {next : α → Call σ β} {next' : α → Call τ β}
    (first : Alike related bad want left right)
    (second : ∀ a, want a → Alike related bad expectedNext (next a) (next' a)) :
    Alike related bad expectedNext (left >>= next) (right >>= next') := by
  intro r s r' s' hre
  obtain ⟨ho, ha, he⟩ := first r s r' s' hre
  rw [runFrom_bind, runFrom_bind]
  rcases hl : left.runFrom r s with ⟨⟨_ | a, r₁⟩, s₁⟩ <;>
    rcases hr : right.runFrom r' s' with ⟨⟨_ | b, r₂⟩, s₂⟩ <;>
    simp only [hl, hr] at ho ha he
  · cases ho
    exact ⟨rfl, ha, he⟩
  · cases ho
  · cases ho
  · cases ho
    exact second a he r₁ s₁ r₂ s₂ ha

/-- Running a script sends the statements of its commands. -/
theorem alike_script {left : Statement → Call σ Unit} {right : Statement → Call τ Unit}
    (script : Script)
    (h : ∀ cmd ∈ script.commands,
      Alike related bad (fun _ => True) (left cmd.statement) (right cmd.statement))
    (hf : ∀ error, script.failure = some error → bad error) :
    Alike related bad (fun _ => True) (script.run left) (script.run right) := by
  have commands : ∀ commands : List Command,
      (∀ cmd ∈ commands,
        Alike related bad (fun _ => True) (left cmd.statement) (right cmd.statement)) →
      Alike related bad (fun _ => True) (commands.forM fun cmd => left cmd.statement)
        (commands.forM fun cmd => right cmd.statement) := by
    intro commands
    induction commands with
    | nil =>
      intro _
      exact alike_pure trivial
    | cons cmd rest ih =>
      intro ha
      refine alike_bind (ha cmd (by simp)) fun _ _ => ?_
      exact ih fun other ho => ha other (by simp [ho])
  refine alike_bind (commands script.commands h) fun _ _ => ?_
  cases hs : script.failure with
  | none => exact alike_pure trivial
  | some error => exact alike_throw (hf error hs)

end Rules

/-! ### The body of a query -/

/-- The question for the indexes of a renamed table, with their definitions. -/
def indexListing (newName : String) : Statement :=
  ⟨"SELECT name, sql FROM sqlite_master " ++
    "WHERE type = 'index' AND tbl_name = ? AND sql IS NOT NULL ORDER BY name", [.text newName]⟩

/-- An edit of a report that tells more about a query, and nothing else about how it went. -/
def Annotates (edit : Report → Report) : Prop :=
  ∀ report, (edit report).query = report.query ∧ (edit report).executed = report.executed ∧
    (edit report).failure = report.failure

/-- The plan of a statement that can be read. -/
def Planned (db sql : String) (plan : Plan) : Prop :=
  ∃ tree, Grammar.parse sql = .ok tree ∧ (Plan.ofTree db tree).outcome.1 = .ok plan

/-- Why a statement cannot be read or planned. -/
def Unplanned (db sql : String) (error : Error) : Prop :=
  Grammar.parse sql = .error error ∨
    ∃ tree, Grammar.parse sql = .ok tree ∧ (Plan.ofTree db tree).outcome.1 = .error error

/-- What the body of a query `sql` can send: lookups, the writes of the catalog, the planned
statements, and what recreates the indexes of a renamed table from `fetched` rows.  The last two
fields are about the errors it can fail with before it sends anything. -/
structure Permits (permitted : Statement → Prop) (fetched : Statement → List Row → Prop)
    (faulty : Error → Prop) (database sql : String) : Prop where
  lookup : ∀ question params, permitted ⟨"SELECT " ++ question, params⟩
  catalog : ∀ command : Command, permitted command.statement
  planned : ∀ plan, Planned database sql plan → ∀ step ∈ plan.steps, ∀ text ∈ step.statements,
    permitted ⟨text, []⟩
  recreation : ∀ table newName rows, fetched (indexListing newName) rows → ∀ row ∈ rows,
    ∀ drop create, renamedIndex? table newName row = some (drop, create) →
      permitted ⟨drop, []⟩ ∧ permitted ⟨create, []⟩
  unplanned : ∀ error, Unplanned database sql error → faulty error
  undescribed : ∀ (change : CatalogChange) facts error,
    (change.script database facts).failure = some error → faulty error

/-- Anything may be sent, and any error may come. -/
theorem permits_all (db sql : String) :
    Permits (fun _ => True) (fun _ _ => True) (fun _ => True) db sql where
  lookup _ _ := trivial
  catalog _ := trivial
  planned _ _ _ _ _ _ := trivial
  recreation _ _ _ _ _ _ _ _ _ := ⟨trivial, trivial⟩
  unplanned _ _ := trivial
  undescribed _ _ _ _ := trivial

section Body

variable {store : Storage σ} {store' : Storage τ}
  {related : Report × Session σ → Report × Session τ → Prop}
  {permitted : Statement → Prop} {fetched : Statement → List Row → Prop}
  {bad : Error → Prop} {db sql : String}
  (sends : ∀ statement, permitted statement →
    Alike related bad (fetched statement) (send store statement) (send store' statement))
  (edits : ∀ edit, Annotates edit →
    ∀ r s r' s', related (r, s) (r', s') → related (edit r, s) (edit r', s'))
  (permits : Permits permitted fetched bad db sql)

include edits in
theorem alike_edit (edit : Report → Report) (annotates : Annotates edit) :
    Alike related bad (fun _ => True) (modifyThe Report edit : Call σ PUnit)
      (modifyThe Report edit : Call τ PUnit) := by
  intro r s r' s' hr
  exact ⟨rfl, edits edit annotates r s r' s' hr, trivial⟩

include sends in
/-- A statement that is sent for its effect. -/
theorem alike_effect {stmt : Statement} (h : permitted stmt) :
    Alike related bad (fun _ => True) (do let _ ← send store stmt)
      (do let _ ← send store' stmt) :=
  alike_bind (sends stmt h) fun _ _ => alike_pure trivial

include sends permits in
theorem alike_scalar (question : String) :
    Alike related bad (fun _ => True) (scalar store ("SELECT " ++ question))
      (scalar store' ("SELECT " ++ question)) :=
  alike_bind (sends _ (permits.lookup question [])) fun _ _ => alike_pure trivial

include sends permits in
theorem alike_changes : Alike related bad (fun _ => True) (changes store) (changes store') :=
  alike_bind (alike_scalar sends permits "changes()") fun _ _ => alike_pure trivial

include sends permits in
theorem alike_tableFacts (schema table : String) :
    Alike related bad (fun _ => True) (tableFacts store schema table)
      (tableFacts store' schema table) :=
  alike_bind (sends _ (permits.lookup ("table_collation FROM _mysql_information_schema_tables " ++
    "WHERE table_schema = ? AND table_name = ?") _)) fun _ _ => alike_pure trivial

include sends in
theorem alike_recreateIndexes (table newName : String) (rows : List Row)
    (hr : ∀ row ∈ rows, ∀ drop create, renamedIndex? table newName row = some (drop, create) →
      permitted ⟨drop, []⟩ ∧ permitted ⟨create, []⟩) :
    Alike related bad (fun _ => True) (recreateIndexes store table newName rows)
      (recreateIndexes store' table newName rows) := by
  induction rows with
  | nil => exact alike_pure trivial
  | cons row rest ih =>
    have others := ih fun other ho => hr other (by simp [ho])
    unfold recreateIndexes
    rcases hn : renamedIndex? table newName row with _ | ⟨drop, create⟩
    · exact others
    · obtain ⟨hd, hc⟩ := hr row (by simp) drop create hn
      exact alike_bind (sends _ hd) fun _ _ =>
        alike_bind (sends _ hc) fun _ _ => others

include sends permits in
theorem alike_renameIndexes (table newName : String) :
    Alike related bad (fun _ => True) (renameIndexes store table newName)
      (renameIndexes store' table newName) := by
  refine alike_bind
    (sends (indexListing newName) (permits.lookup ("name, sql FROM sqlite_master " ++
    "WHERE type = 'index' AND tbl_name = ? AND sql IS NOT NULL ORDER BY name") _)) ?_
  intro rows hr
  exact alike_recreateIndexes sends table newName rows
    (permits.recreation table newName rows hr)

include sends permits in
theorem alike_follow (change : CatalogChange) :
    Alike related bad (fun _ => True) (follow store db change)
      (follow store' db change) := by
  have scripted (facts : TableFacts) : Alike related bad (fun _ => True)
      ((change.script db facts).run fun stmt => do
        let _ ← send store stmt)
      ((change.script db facts).run fun stmt => do
        let _ ← send store' stmt) :=
    alike_script _ (fun cmd _ => alike_effect sends (permits.catalog cmd))
      (permits.undescribed change facts)
  have unknown : Alike related bad (fun _ => True) (pure {} : Call σ TableFacts)
      (pure {} : Call τ TableFacts) := alike_pure trivial
  -- only a new column needs facts, and only a new name for a table needs more than the script
  cases change with
  | addColumn table col =>
    refine alike_bind (alike_tableFacts sends permits db table) fun facts _ => ?_
    exact alike_bind (scripted facts) fun _ _ => alike_pure trivial
  | renameTable table newName =>
    refine alike_bind unknown fun facts _ => alike_bind (scripted facts) fun _ _ => ?_
    exact alike_renameIndexes sends permits table newName
  | _ =>
    exact alike_bind unknown fun facts _ =>
      alike_bind (scripted facts) fun _ _ => alike_pure trivial

include sends in
theorem alike_sendAll (rows : List Row) (texts : List String)
    (ht : ∀ text ∈ texts, permitted ⟨text, []⟩) :
    Alike related bad (fun _ => True) (sendAll store rows texts) (sendAll store' rows texts) := by
  induction texts generalizing rows with
  | nil => exact alike_pure trivial
  | cons text rest ih =>
    refine alike_bind (sends _ (ht text (by simp))) fun rows _ => ?_
    exact ih rows fun other ho => ht other (by simp [ho])

include sends permits in
theorem alike_runSteps (rows : List Row) (steps : List Step)
    (hs : ∀ step ∈ steps, ∀ text ∈ step.statements, permitted ⟨text, []⟩) :
    Alike related bad (fun _ => True) (runSteps store db rows steps)
      (runSteps store' db rows steps) := by
  induction steps generalizing rows with
  | nil => exact alike_pure trivial
  | cons step rest ih =>
    have others := fun rows => ih rows fun other ho => hs other (by simp [ho])
    refine alike_bind (alike_sendAll sends rows _ (hs step (by simp))) fun rows _ => ?_
    cases step.change with
    | none => exact others rows
    | some change => exact alike_bind (alike_follow sends permits change) fun _ _ => others rows

include sends permits in
theorem alike_isThere (table? : Option String) :
    Alike related bad (fun _ => True) (isThere store table?) (isThere store' table?) := by
  cases table? with
  | none => exact alike_pure trivial
  | some table =>
    exact alike_bind (sends _ (permits.lookup
      "1 FROM sqlite_master WHERE type = 'table' AND name = ?" _)) fun _ _ => alike_pure trivial

include sends permits in
/-- Plans go alike under settings that differ in the form of fetched rows, if the relation does not
depend on what is returned. -/
theorem alike_runPlan (plan : Plan) {config config' : Config} (hd : config.database = db)
    (hd' : config'.database = db)
    (hs : ∀ step ∈ plan.steps, ∀ text ∈ step.statements, permitted ⟨text, []⟩)
    (identified : ∀ id r s r' s', related (r, s) (r', s') →
      related ({ r with lastInsertId := id }, s) ({ r' with lastInsertId := id }, s'))
    (answered : ∀ value value', (config.fetchMode = config'.fetchMode → value = value') →
      ∀ r s r' s', related (r, s) (r', s') →
        related ({ r with returned := value }, s) ({ r' with returned := value' }, s')) :
    Alike related bad (fun _ => True) (runPlan store config plan)
      (runPlan store' config' plan) := by
  have valued (value value' : Returned)
      (hv : config.fetchMode = config'.fetchMode → value = value') :
      Alike related bad (fun _ => True)
        (modifyThe Report fun report => { report with returned := value } : Call σ PUnit)
        (modifyThe Report fun report => { report with returned := value' } : Call τ PUnit) :=
    fun r s r' s' h => ⟨rfl, answered value value' hv r s r' s' h, trivial⟩
  have numbered (id : Option Int64) : Alike related bad (fun _ => True)
      (modifyThe Report fun report => { report with lastInsertId := id } : Call σ PUnit)
      (modifyThe Report fun report => { report with lastInsertId := id } : Call τ PUnit) :=
    fun r s r' s' h => ⟨rfl, identified id r s r' s' h, trivial⟩
  unfold runPlan
  refine alike_bind (alike_isThere sends permits plan.unlessExists) fun there _ => ?_
  cases there with
  | true => exact alike_pure trivial
  | false =>
    rw [hd, hd']
    refine alike_bind (alike_runSteps sends permits [] plan.steps hs) fun rows _ => ?_
    unfold returned
    -- only a query returns rows, and only an insertion has an id
    cases plan.verb with
    | select =>
      simp only [pure_bind]
      exact valued _ _ fun hm => by rw [hm]
    | insert | replace =>
      simp only [bind_assoc, pure_bind]
      exact alike_bind (alike_changes sends permits) fun _ _ =>
        alike_bind (alike_scalar sends permits "last_insert_rowid()") fun id _ =>
          alike_bind (numbered id) fun _ _ => valued _ _ fun _ => rfl
    | update | delete =>
      simp only [bind_assoc, pure_bind]
      exact alike_bind (alike_changes sends permits) fun _ _ => valued _ _ fun _ => rfl
    | _ =>
      simp only [pure_bind]
      exact valued _ _ fun _ => rfl

include sends edits permits in
/-- Whatever sending one permitted statement keeps, the body of a query keeps. -/
theorem alike_body (config : Config) (hd : config.database = db) :
    Alike related bad (fun _ => True) (body store config sql) (body store' config sql) := by
  subst hd
  unfold body
  refine alike_bind (alike_except (Grammar.parse sql) fun error he =>
    permits.unplanned error (.inl he)) fun tree ht => ?_
  refine alike_bind (alike_except _ fun error he =>
    permits.unplanned error (.inr ⟨tree, ht, he⟩)) fun plan hp => ?_
  refine alike_bind (alike_edit edits _ fun _ => ⟨rfl, rfl, rfl⟩) fun _ _ => ?_
  refine alike_runPlan sends permits plan rfl rfl (permits.planned plan ⟨tree, ht, hp⟩)
    (fun id => edits _ fun _ => ⟨rfl, rfl, rfl⟩) fun value value' hv => ?_
  obtain rfl := hv rfl
  exact edits _ fun _ => ⟨rfl, rfl, rfl⟩

end Body

/-! ### One run -/

/-- An invariant that a computation keeps, also when it fails, and how it ends. -/
def Keeps (invariant : Report × Session σ → Prop) (bad : Error → Prop) (expected : α → Prop)
    (call : Call σ α) : Prop :=
  ∀ r s, invariant (r, s) →
    invariant ((call.runFrom r s).1.2, (call.runFrom r s).2) ∧
    Ends bad expected (call.runFrom r s).1.1

/-- Keeping an invariant is going alike with oneself. -/
theorem keeps_iff_alike {invariant : Report × Session σ → Prop} {bad : Error → Prop}
    {call : Call σ α} : Keeps invariant bad want call ↔
      Alike (fun x y => x = y ∧ invariant x) bad want call call := by
  constructor
  · rintro h r s r' s' ⟨hs, hi⟩
    cases hs
    exact ⟨rfl, ⟨rfl, (h r s hi).1⟩, (h r s hi).2⟩
  · intro h r s hi
    obtain ⟨-, ⟨-, ha⟩, he⟩ := h r s r s ⟨rfl, hi⟩
    exact ⟨ha, he⟩

/-- An invariant of sending any permitted statement is one of the whole body. -/
theorem keeps_body {store : Storage σ} {invariant : Report × Session σ → Prop}
    {permitted : Statement → Prop} {fetched : Statement → List Row → Prop}
    {bad : Error → Prop} {sql : String} (config : Config)
    (sends : ∀ stmt, permitted stmt →
      Keeps invariant bad (fetched stmt) (send store stmt))
    (edits : ∀ edit, Annotates edit → ∀ r s, invariant (r, s) → invariant (edit r, s))
    (permits : Permits permitted fetched bad config.database sql) :
    Keeps invariant bad (fun _ => True) (body store config sql) := by
  rw [keeps_iff_alike]
  refine alike_body (fun stmt h => keeps_iff_alike.mp (sends stmt h)) ?_ permits config rfl
  rintro edit he r s r' s' ⟨hs, hi⟩
  cases hs
  exact ⟨rfl, edits edit he r s hi⟩

end SqlBridge.Call
