/-
The catalog describes its tables in every state it reaches.

* `Tables.Allows`: which changes may be made of the catalog as it stands, by the spelling of names.
* `Reaches`: the tables of the catalog after any allowed changes that succeed, from empty ones.
* `sound_of_reaches`: what is reached are the written rows of a sound catalog, and there an
  allowed change succeeds.
-/
import SqlBridge.Plan.Basic
import SqlBridge.Proofs.Catalog.Sound

namespace SqlBridge

variable {facts : TableFacts}

/-! ### What the tables of the catalog record -/

/-- Whether a record is about a table. -/
def Record.IsAt (place : Place) (record : Record) : Prop :=
  record.value? "table_schema" = some (.text place.schema) ∧
    record.value? "table_name" = some (.text place.table)

namespace Tables

def IsRecorded (tables : Tables) (place : Place) : Prop :=
  ∃ record ∈ tables.tables, record.IsAt place

def HasColumn (tables : Tables) (place : Place) (column : String) : Prop :=
  ∃ record ∈ tables.columns, record.IsAt place ∧
    record.value? "column_name" = some (.text column)

def HasIndex (tables : Tables) (place : Place) (index : String) : Prop :=
  ∃ record ∈ tables.statistics, record.IsAt place ∧
    record.value? "index_name" = some (.text index)

instance (record : Record) (place : Place) : Decidable (record.IsAt place) :=
  inferInstanceAs (Decidable (_ ∧ _))

instance (tables : Tables) (place : Place) : Decidable (tables.IsRecorded place) :=
  inferInstanceAs (Decidable (∃ record ∈ tables.tables, record.IsAt place))

instance (tables : Tables) (place : Place) (col : String) :
    Decidable (tables.HasColumn place col) :=
  inferInstanceAs (Decidable (∃ record ∈ tables.columns, record.IsAt place ∧ _))

instance (tables : Tables) (place : Place) (index : String) :
    Decidable (tables.HasIndex place index) :=
  inferInstanceAs (Decidable (∃ record ∈ tables.statistics, record.IsAt place ∧ _))

/-- A table that can be recorded: it is new, its columns have different names, and its keys are
over different columns of its own. -/
structure AllowsTable (tables : Tables) (place : Place) (columns : List Column)
    (indexes : List Index) : Prop where
  unrecorded : ¬tables.IsRecorded place
  names : (columns.map Column.name).Nodup
  /-- The columns can be numbered. -/
  few : columns.length ≤ Int64.maxValue.toInt
  distinct : ∀ index ∈ indexes, (index.parts.map KeyPart.column).Nodup
  parts : ∀ index ∈ indexes, ∀ part ∈ index.parts, part.column ∈ columns.map Column.name

/-- The changes that may be made of the catalog.  A table that is temporary is not recorded, and
what is dropped need not be there. -/
def Allows (tables : Tables) (schema : String) (facts : TableFacts) : CatalogChange → Prop
  | .createTable tree =>
    tree.hasKeyword .TEMPORARY = false → ∀ elements table,
      tree.child? .tableElementList = some elements →
      (tree.child? .tableName).bind Tree.lastName? = some table →
      tables.AllowsTable ⟨schema, table⟩
        (Script.describeAll (TableFacts.ofCreateTable tree) elements.columnDefinitions).1
        (Index.ofElements elements)
  | .addColumn table definition =>
    tables.IsRecorded ⟨schema, table⟩ ∧ ∀ column, Column.ofDefinition definition facts =
      .ok column → ¬tables.HasColumn ⟨schema, table⟩ column.name
  | .addIndex table index =>
    ¬tables.HasIndex ⟨schema, table⟩ index.name ∧ (index.parts.map KeyPart.column).Nodup ∧
      ∀ part ∈ index.parts, tables.HasColumn ⟨schema, table⟩ part.column
  | .renameTable _ newName => ¬tables.IsRecorded ⟨schema, newName⟩
  | .renameColumn table _ newName => ¬tables.HasColumn ⟨schema, table⟩ newName
  | .dropColumn _ _ | .dropIndex _ _ | .dropTable _ => True

end Tables

/-! ### A step -/

namespace Catalog

variable {schema : String} {cat : Catalog} {place : Place}

theorem isAt_iff {record : Record} {p : Place}
    (hs : record.value? "table_schema" = some (.text p.schema))
    (ht : record.value? "table_name" = some (.text p.table)) :
    record.IsAt place ↔ p = place := by
  rw [Record.IsAt, hs, ht, Place.mk.injEq]
  simp

theorem isRecorded_stored : cat.stored.IsRecorded place ↔ cat.IsRecorded place := by
  show (∃ record ∈ cat.tables.map TableRow.values, _) ↔ _
  rw [IsRecorded]
  simp only [List.mem_map, exists_exists_and_eq_and]
  exact exists_congr fun row => and_congr_right fun _ => isAt_iff rfl rfl

theorem hasColumn_stored {col : String} :
    cat.stored.HasColumn place col ↔ cat.HasColumn place col := by
  show (∃ record ∈ cat.columns.map ColumnRow.record, _) ↔ _
  rw [HasColumn]
  simp only [List.mem_map, exists_exists_and_eq_and]
  refine exists_congr fun row => and_congr_right fun _ => ?_
  have hn : row.record.value? "column_name" = some (.text row.column.name) := rfl
  rw [isAt_iff (p := row.place) rfl rfl, hn, ColumnRow.key, Prod.mk.injEq]
  simp

theorem hasIndex_stored {index : String} :
    cat.stored.HasIndex place index ↔ cat.HasIndex place index := by
  show (∃ record ∈ cat.parts.map PartRow.record, _) ↔ _
  rw [HasIndex]
  simp only [List.mem_map, exists_exists_and_eq_and]
  refine exists_congr fun row => and_congr_right fun _ => ?_
  have hn : row.record.value? "index_name" = some (.text row.part.index) := rfl
  rw [isAt_iff (p := row.place) rfl rfl, hn, PartRow.home, Prod.mk.injEq]
  simp

theorem Sound.createTable_script (h : cat.Sound schema) {tree : Tree}
    (ha : cat.stored.Allows schema facts (.createTable tree))
    (hf : (Script.createTable schema tree).failure = none) :
    Carries schema cat (Script.createTable schema tree).commands := by
  unfold Script.createTable at hf ⊢
  by_cases ht : tree.hasKeyword .TEMPORARY
  · rw [if_pos ht]
    exact .of_eq_some rfl h
  · rw [if_neg ht] at hf ⊢
    split at hf
    · exact .of_eq_some rfl h
    · cases hf
    · rename_i elems table he hta
      have hn := ha (Bool.eq_false_iff.2 ht) elems table he hta
      dsimp only at hf ⊢
      split at hf
      · cases hf
      · refine h.createTable ?_ ?_ hn.names hn.few (Index.nodup_named _ _) hn.distinct
          hn.parts
        · rfl
        · exact fun hr => hn.unrecorded (isRecorded_stored.2 hr)

/-- An allowed change that can be described keeps the catalog sound. -/
theorem Sound.carries (h : cat.Sound schema) {change : CatalogChange}
    (ha : cat.stored.Allows schema facts change)
    (hf : (change.script schema facts).failure = none) :
    Carries schema cat (change.script schema facts).commands := by
  cases change with
  | createTable tree => exact h.createTable_script ha hf
  | addColumn table defn =>
    obtain ⟨hr, hfr⟩ := ha
    simp only [CatalogChange.script, Script.addColumn] at hf ⊢
    split
    · rename_i col hco
      exact h.addColumn (isRecorded_stored.1 hr)
        fun hh => hfr col hco (hasColumn_stored.2 hh)
    · rename_i error he
      rw [he] at hf
      cases hf
  | dropColumn table col => exact h.dropColumn table col
  | addIndex table index =>
    obtain ⟨hfr, hd, hc⟩ := ha
    exact h.addIndex (fun hh => hfr (hasIndex_stored.2 hh)) hd
      fun part hp => hasColumn_stored.1 (hc part hp)
  | dropIndex table index => exact h.dropIndex _ index
  | renameTable table newName =>
    exact h.renameTable fun hr => ha (isRecorded_stored.2 hr)
  | renameColumn table col newName =>
    exact h.renameColumn fun hh => ha (hasColumn_stored.2 hh)
  | dropTable table => exact h.dropTable table

end Catalog

/-! ### Runs -/

/-- The tables of the catalog of a database after changes of its tables. -/
inductive Reaches (schema : String) : Tables → Prop where
  | empty : Reaches schema {}
  | step {tables after : Tables} {facts : TableFacts} {change : CatalogChange}
      (before : Reaches schema tables) (allowed : tables.Allows schema facts change)
      (done : (change.script schema facts).perform Command.perform tables = .ok ((), after)) :
      Reaches schema after

/-- Whether there are so few records that one more can be counted. -/
def Tables.IsSmall (tables : Tables) : Prop :=
  tables.columns.length < Int64.maxValue.toInt ∧ tables.statistics.length ≤ Int64.maxValue.toInt

namespace Reaches

variable {schema : String} {tables : Tables}

/-- The tables that are reached are those of a sound catalog. -/
theorem exists_sound (h : Reaches schema tables) :
    ∃ cat : Catalog, tables = cat.stored ∧ cat.Sound schema := by
  induction h with
  | empty => exact ⟨{}, rfl, Catalog.sound_empty⟩
  | @step tables after facts change _ allowed done ih =>
    obtain ⟨cat, rfl, hs⟩ := ih
    rw [Script.perform_stored] at done
    split at done
    · cases done
    · cases done
    · rename_i next ha hf
      cases done
      exact ⟨next, rfl, (hs.carries allowed hf).sound next ha⟩

/-- An allowed change of few tables succeeds if it can be described. -/
theorem exists_done (h : Reaches schema tables) (hs : tables.IsSmall)
    {change : CatalogChange} (ha : tables.Allows schema facts change)
    (hf : (change.script schema facts).failure = none) :
    ∃ after, (change.script schema facts).perform Command.perform tables = .ok ((), after) := by
  obtain ⟨cat, rfl, hso⟩ := h.exists_sound
  have hfe : cat.IsSmall := by
    simpa [Tables.IsSmall, Catalog.stored, Catalog.IsSmall] using hs
  obtain ⟨next, hn⟩ := (hso.carries ha hf).succeeds hfe
  refine ⟨next.stored, ?_⟩
  rw [Script.perform_stored, hn, hf]

end Reaches

/-- In every state it reaches, the catalog is sound, and it goes on: an allowed change that can be
described succeeds while there are few records. -/
theorem sound_of_reaches {schema : String} {tables : Tables} (h : Reaches schema tables) :
    (∃ catalog : Catalog, tables = catalog.stored ∧ catalog.Sound schema) ∧
      (tables.IsSmall → ∀ facts change, tables.Allows schema facts change →
        (change.script schema facts).failure = none →
        ∃ after, (change.script schema facts).perform Command.perform tables =
          .ok ((), after)) :=
  ⟨h.exists_sound, fun hsmall _ _ hallowed hfailure => h.exists_done hsmall hallowed hfailure⟩

/-- A table `t` with columns `a` and `b` and an index over both. -/
def twoColumns : Tree := .ofTable "t" ["a", "b"] [.ofKey "k" ["b", "a"]]

theorem allows_twoColumns : ({} : Tables).Allows "d" {} (.createTable twoColumns) := by
  intro _ elems table he ht
  cases he
  cases ht
  exact
    { unrecorded := by decide
      names := by decide
      few := by decide
      distinct := by decide
      parts := by decide }

/-- When `b` is dropped, `a` is the first column and the first in the index. -/
theorem sound_of_reaches_dropColumn : ∃ tables, Reaches "d" tables ∧
    tables.columns.map (·.value? "ordinal_position") = [some (.integer 1)] ∧
    tables.statistics.map (·.value? "seq_in_index") = [some (.integer 1)] ∧
    ∃ catalog : Catalog, tables = catalog.stored ∧ catalog.Sound "d" := by
  have hcreated := Reaches.step .empty allows_twoColumns (Script.perform_stored _ {})
  have hdropped := @Reaches.step "d" _ _ {} (.dropColumn "t" "b") hcreated trivial
    (Script.perform_stored _ _)
  exact ⟨_, hdropped, by decide, by decide, (sound_of_reaches hdropped).1⟩

end SqlBridge
