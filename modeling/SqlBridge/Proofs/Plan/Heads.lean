/-
Every statement that a plan sends works on the contents of the database.

* `Plan.IsData`: all statements of a plan begin with a data word.
* `Plan.isData_of_parse`: so do those of the plan of any text that can be read.
* `Command.isData_statement` and `isData_renamedIndex`: so do the writes of the catalog, and the
  statements that make an index anew for a definition that says `CREATE`.
-/
import SqlBridge.Plan.Statement
import SqlBridge.Proofs.Scribe.Heads
import SqlBridge.Session.Query

namespace SqlBridge

open Scribe List

/-- All statements of a step begin with a data word. -/
def Step.IsData (step : Step) : Prop := ∀ text ∈ step.statements, SqlBridge.IsData text

/-- Whether the catalog records a table: not if it is temporary, and not without a list of
elements. -/
def Tree.isRecorded (create : Tree) : Bool :=
  !create.hasKeyword .TEMPORARY && create.hasChild .tableElementList

/-- The table of the catalog that a change is for. -/
def CatalogChange.table? : CatalogChange → Option String
  | .createTable definition =>
    if definition.isRecorded then (definition.child? .tableName).bind Tree.lastName? else none
  | .addColumn table _ | .dropColumn table _ | .addIndex table _ | .dropIndex table _
  | .renameTable table _ | .renameColumn table _ _ | .dropTable table => some table

/-- A step with a change of the catalog for a table. -/
def Step.ChangesTable (table : String) (step : Step) : Prop :=
  ∃ change ∈ step.change, change.table? = some table

/-- A step of an `ALTER TABLE`. -/
def Step.Alters (table : String) (step : Step) : Prop := step.IsData ∧ step.ChangesTable table

/-- All statements of a plan begin with a data word. -/
def Plan.IsData (plan : Plan) : Prop := ∀ step ∈ plan.steps, step.IsData

namespace Plan

variable {stmt : Tree} {db : String}

theorem isData_changing {sql : Sql} (h : sql.Headed) (change : CatalogChange) :
    (changing sql change).IsData := by
  intro text ht
  rw [mem_singleton.1 ht]
  exact h.isData_render

/-! ### `ALTER TABLE` -/

section Alter

variable {table : String}

theorem headed_alterTable (rest : Sql) : (alterTable table ++ rest).Headed :=
  ⟨"ALTER", by decide, _, rfl⟩

theorem alters_changing {sql : Sql} {change : CatalogChange} (h : sql.Headed)
    (hc : change.table? = some table) : (changing sql change).Alters table :=
  ⟨isData_changing h change, change, rfl, hc⟩

theorem yields_addIndex (constraint : Draft) :
    (addIndex table constraint).Yields (Step.Alters table) := by
  have ending (defn : Sql) (index : Index) :
      (changing (.raw "CREATE" :: defn) (.addIndex table index)).Alters table :=
    alters_changing ⟨"CREATE", by decide, defn, rfl⟩ rfl
  unfold addIndex
  split
  · dsimp only
    split
    · exact yields_then fun _ => yields_then fun defn => results_pure (ending defn _)
    · exact yields_then fun defn => results_pure (ending defn _)
  · exact results_throw trivial

theorem yields_addColumns (cols : List Draft) : (addColumns table cols).Yields fun steps =>
    (cols ≠ [] → steps ≠ []) ∧ ∀ step ∈ steps, step.Alters table := by
  induction cols with
  | nil => exact results_pure (by simp)
  | cons col rest ih =>
    have ending (defn : Sql) :
        (do
          let sql := alterTable table ++ Sql.words ["ADD", "COLUMN"] ++ defn
          return changing sql (.addColumn table col.tree) :: (← addColumns table rest) :
          Scribe (List Step)).Yields
          fun steps => (col :: rest ≠ [] → steps ≠ []) ∧ ∀ step ∈ steps, step.Alters table := by
      refine results_bind ih fun steps hs => results_pure ⟨by simp, ?_⟩
      refine forall_mem_cons.2 ⟨alters_changing ?_ rfl, hs.2⟩
      rw [append_assoc]
      exact headed_alterTable _
    unfold addColumns
    dsimp only
    split
    · exact yields_then fun _ => yields_then ending
    · exact yields_then ending

theorem yields_alterAdd (item : Branch) : (alterAdd table item).Yields fun steps =>
    steps ≠ [] ∧ ∀ step ∈ steps, step.Alters table := by
  have added (cols : List Draft) :
      (do
        if cols.isEmpty then
          throw (.malformed (.lacks "ALTER TABLE ... ADD" "a column"))
        addColumns table cols : Scribe (List Step)).Yields
        fun steps => steps ≠ [] ∧ ∀ step ∈ steps, step.Alters table := by
    dsimp only
    split
    · exact results_bind (results_throw trivial) fun _ (hf : False) => hf.elim
    · rename_i hc
      exact (yields_addColumns cols).mono fun steps hs => ⟨hs.1 (by simpa using hc), hs.2⟩
  unfold alterAdd
  split
  · exact results_bind (yields_addIndex _) fun step hs => results_pure (by simpa using hs)
  · dsimp only
    split
    · exact yields_then added
    · exact yields_then added

theorem alters_alterDrop {item : Tree} {step : Step} (h : alterDrop table item = .ok step) :
    step.Alters table := by
  unfold alterDrop at h
  split at h
  · cases h
    exact alters_changing ⟨"DROP", by decide, _, rfl⟩ rfl
  · split at h
    · cases h
    · split at h
      · cases h
      · split at h
        · cases h
          exact alters_changing (headed_alterTable _) rfl
        · cases h

theorem alters_alterRename {item : Tree} {renamed : Step × String}
    (h : alterRename table item = .ok renamed) : renamed.1.Alters table := by
  unfold alterRename at h
  split at h
  · cases h
    exact alters_changing (headed_alterTable _) rfl
  · split at h
    · cases h
    · split at h
      · cases h
        exact alters_changing (headed_alterTable _) rfl
      · cases h

/-- The first action of an `ALTER TABLE` changes the table by the name that it has before it. -/
theorem yields_alterActions (items : List Draft) : (alterActions table items).Yields fun steps =>
    (∀ step ∈ steps, step.IsData) ∧ (items ≠ [] → ∃ step ∈ steps, step.Alters table) := by
  induction items generalizing table with
  | nil => exact results_pure (by simp)
  | cons item rest ih =>
    -- one action, whose steps change the table, before the others
    have hcons {steps others : List Step} (hne : steps ≠ [])
        (hs : ∀ step ∈ steps, step.Alters table)
        (ho : ∀ step ∈ others, step.IsData) : (∀ step ∈ steps ++ others, step.IsData) ∧
          (item :: rest ≠ [] → ∃ step ∈ steps ++ others, step.Alters table) := by
      obtain ⟨step, hm⟩ := exists_mem_of_ne_nil steps hne
      exact ⟨forall_mem_append.2 ⟨fun step hm => (hs step hm).1, ho⟩,
        fun _ => ⟨step, mem_append_left _ hm, hs step hm⟩⟩
    unfold alterActions
    split
    · refine results_bind (yields_alterAdd _) fun steps hs => ?_
      exact results_bind ih fun others ho => results_pure (hcons hs.1 hs.2 ho.1)
    · refine results_bind (yields_lift fun _ => alters_alterDrop) fun step hst => ?_
      exact results_bind ih fun others ho =>
        results_pure (hcons (cons_ne_nil step []) (by simpa using hst) ho.1)
    · refine results_bind (yields_lift fun _ => alters_alterRename) fun renamed hr => ?_
      exact results_bind ih fun others ho =>
        results_pure (hcons (cons_ne_nil renamed.1 []) (by simpa using hr) ho.1)
    · exact results_throw trivial
    · exact results_throw trivial

theorem yields_alter (stmt : Branch) : (alter stmt).Yields IsData :=
  yields_then fun _ => yields_then fun _ =>
    results_bind (yields_alterActions _) fun _ hs => results_pure hs.1

end Alter

/-! ### Other statements -/

theorem isData_single {verb : Verb} {sql : Sql} (h : sql.Headed) :
    (single verb stmt sql).IsData := by
  intro step hs text ht
  rw [mem_singleton.1 hs] at ht
  rw [mem_singleton.1 ht]
  exact h.isData_render

/-- A limited statement begins as it does without its limits. -/
theorem yields_limited (h : (Draft.ofTree db stmt).Heads)
    (hhe : (Draft.ofTree db (withoutFilters stmt)).Heads) :
    (limited db (Draft.ofTree db stmt)).Yields Sql.Headed := by
  unfold limited
  dsimp only
  split
  · have ht : (Draft.ofTree db stmt).branch.tree = stmt := by
      simp [Draft.branch]
    rw [ht]
    refine results_bind hhe.required fun he hh => ?_
    exact yields_then fun _ => yields_then fun _ => results_pure (hh.append _)
  · exact h.required

theorem isStatement_withoutFilters (h : stmt.IsStatement)
    (hr : stmt.hasRule .updateStatement ∨ stmt.hasRule .deleteStatement) :
    (withoutFilters stmt).IsStatement := by
  cases h with
  | select _ => simp [Tree.hasRule, Tree.rule?] at hr
  | keyword hk ht => exact .keyword hk ht
  | worded hw => exact .worded hw

theorem yields_createIndex {stmt create : Draft} (h : stmt.Heads) :
    (createIndex stmt create).Yields IsData := by
  refine yields_then fun table => yields_then fun index => ?_
  refine results_bind h.required fun sql hsq => results_pure ?_
  intro step hs
  rw [mem_singleton.1 hs]
  exact isData_changing hsq _

theorem yields_indexStatements (db table : String) (indexes : List Index) :
    (indexStatements db table indexes).Yields
      fun texts => ∀ text ∈ texts, SqlBridge.IsData text := by
  induction indexes with
  | nil => exact results_pure (by simp)
  | cons index rest ih =>
    unfold indexStatements
    split
    · exact ih
    · refine yields_then fun defn => results_bind ih fun texts ht => results_pure ?_
      have hc : Sql.Headed (.raw "CREATE" :: defn) :=
        ⟨"CREATE", by decide, defn, rfl⟩
      exact forall_mem_cons.2 ⟨hc.isData_render, ht⟩

theorem yields_createTable {stmt create : Draft} (h : stmt.Heads) :
    (createTable db stmt create).Yields IsData := by
  refine yields_then fun table => results_bind h.required fun sql hsq => ?_
  refine results_bind (yields_indexStatements db table _) fun texts ht => results_pure ?_
  intro step hs
  rw [mem_singleton.1 hs]
  exact forall_mem_cons.2 ⟨hsq.isData_render, ht⟩

theorem yields_create {stmt : Draft} (h : stmt.Heads) :
    (create db stmt).Yields IsData := by
  unfold create
  split
  · exact yields_createIndex h
  · exact yields_then fun _ => yields_createTable h

theorem yields_dropIndex {stmt drop : Draft} (h : stmt.Heads) :
    (dropIndex stmt drop).Yields IsData := by
  refine yields_then fun table => yields_then fun index => ?_
  refine results_bind h.required fun sql hsq => results_pure ?_
  intro step hs
  rw [mem_singleton.1 hs]
  exact isData_changing hsq _

theorem yields_dropSteps (ifExists : Bool) (references : List Draft) :
    (dropSteps ifExists references).Yields fun steps => ∀ entry ∈ steps, entry.2.IsData := by
  induction references with
  | nil => exact results_pure (by simp)
  | cons reference rest ih =>
    refine yields_then fun table => yields_then fun sql => results_bind ih fun steps hs => ?_
    refine results_pure (forall_mem_cons.2 ⟨isData_changing ?_ _, hs⟩)
    exact ⟨"DROP", by decide, _, rfl⟩

theorem yields_dropTables (drop : Draft) : (dropTables drop).Yields IsData := by
  refine results_bind (yields_dropSteps _ _) fun steps hs => results_pure ?_
  intro step hst
  obtain ⟨entry, he, rfl⟩ := mem_map.1 hst
  exact hs entry he

theorem yields_drop {stmt : Draft} (h : stmt.Heads) : (drop stmt).Yields IsData := by
  unfold drop
  split
  · exact yields_dropIndex h
  · exact yields_then fun _ => yields_dropTables _

/-- One statement that begins with a data word is planned. -/
theorem yields_single {scribe : Scribe Sql} (h : scribe.Yields Sql.Headed) (verb : Verb)
    (stmt : Tree) :
    (do return single verb stmt (← scribe) : Scribe Plan).Yields IsData :=
  results_bind h fun _ hs => results_pure (isData_single hs)

theorem yields_ofStatement (db : String) (h : stmt.IsStatement) :
    (ofStatement db (Draft.ofTree db stmt)).Yields IsData := by
  have he := Draft.heads_statement db h
  have limits (hr : stmt.hasRule .updateStatement ∨ stmt.hasRule .deleteStatement) :=
    Draft.heads_statement db (isStatement_withoutFilters h hr)
  cases h with
  | select _ => exact yields_single (he .selectStatement rfl (by decide)).required _ _
  | keyword hr _ =>
    simp only [Tree.keywordRules, mem_cons, Prod.mk.injEq, not_mem_nil, or_false] at hr
    rcases hr with ⟨rfl, rfl⟩ | ⟨rfl, rfl⟩ | ⟨rfl, rfl⟩
    · exact yields_single (yields_limited (he .deleteStatement rfl (by decide))
        (limits (.inr rfl) .deleteStatement rfl (by decide))) _ _
    · exact yields_create (he .createStatement rfl (by decide))
    · exact yields_drop (he .dropStatement rfl (by decide))
  | worded hr =>
    simp only [Tree.wordedRules, mem_cons, not_mem_nil, or_false] at hr
    rcases hr with rfl | rfl | rfl | rfl | rfl
    · exact yields_single (he .insertStatement rfl (by decide)).required _ _
    · exact yields_single (he .replaceStatement rfl (by decide)).required _ _
    · exact yields_single (yields_limited (he .updateStatement rfl (by decide))
        (limits (.inl rfl) .updateStatement rfl (by decide))) _ _
    · exact yields_alter _
    · exact results_pure fun step hs => by cases hs

/-- What is planned for a query is what is planned for its statement. -/
theorem ofTree_query (db : String) (h : stmt.isNode)
    (others : List Tree) : ofTree db (.node .query (.node .simpleStatement [stmt] :: others)) =
      ofStatement db (Draft.ofTree db stmt) := by
  have hf : (Draft.ofTree db (.node .simpleStatement [stmt])).branch.firstNode? =
      some (Draft.ofTree db stmt) := by
    simp [Branch.firstNode?, Draft.branch, Draft.ofTree, Draft.ofTrees, Draft.parts, h]
  have hs : (Draft.ofTree db
      (.node .query (.node .simpleStatement [stmt] :: others))).branch.child? .simpleStatement =
      some (Draft.ofTree db (.node .simpleStatement [stmt])) := rfl
  unfold ofTree
  dsimp only
  rw [hs, Option.bind_some, hf]

/-- The plan of a text that can be read sends data statements only. -/
theorem isData_of_parse {sql : String} {tree : Tree} {plan : Plan}
    (ht : Grammar.parse sql = .ok tree) (hp : (ofTree db tree).outcome.1 = .ok plan) :
    plan.IsData := by
  obtain ⟨stmt, others, hs, rfl⟩ := Grammar.isStatement_of_parse ht
  rw [ofTree_query db (by cases hs <;> rfl) others] at hp
  exact (yields_ofStatement db hs).of_ok hp

end Plan

end SqlBridge
