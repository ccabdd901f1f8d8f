/-
Every row of the catalog belongs to a recorded table, as long as columns are added to recorded
tables only.

* `Tables.IsOwned`: the rows of columns, of index parts and of the cache are about tables that have
  a row.
* `Catalog.Within`: the rows are about known tables.  A command keeps them so if what it adds is
  about a known table (`Within.effect`), and so does a list of such commands (`Within.after?`).
* `isOwned_of_driven`: the rows stay owned while columns are added to recorded tables only, and from
  there a change leads to owned rows unless it adds a column to a table that is not recorded.
  Nothing checks that it is: a temporary table has no row, and gets rows when a column is added to
  it.
-/
import SqlBridge.Proofs.Catalog.Driven

namespace SqlBridge

open List

/-- Whether every row is about a table of the database that has a row. -/
structure Tables.IsOwned (database : String) (tables : Tables) : Prop where
  columns : ∀ record ∈ tables.columns, ∃ place, record.IsAt place ∧ tables.IsRecorded place
  statistics : ∀ record ∈ tables.statistics, ∃ place, record.IsAt place ∧ tables.IsRecorded place
  cache : ∀ record ∈ tables.cache, ∃ table, record.value? "table" = some (.text table) ∧
    tables.IsRecorded ⟨database, table⟩

namespace Catalog

/-- Whether the rows of columns, of index parts and of the cache are about known tables. -/
structure Within (database : String) (known : Place → Prop) (catalog : Catalog) : Prop where
  columns : ∀ row ∈ catalog.columns, known row.place
  parts : ∀ row ∈ catalog.parts, known row.place
  types : ∀ row ∈ catalog.types, known ⟨database, row.table⟩

variable {db : String} {known : Place → Prop} {cat next : Catalog}

theorem isOwned_stored :
    cat.stored.IsOwned db ↔ cat.Within db cat.IsRecorded := by
  have hat {r : Record} {place : Place} (hi : ∀ other, r.IsAt other ↔ place = other) :
      (∃ place, r.IsAt place ∧ cat.stored.IsRecorded place) ↔ cat.IsRecorded place := by
    simp only [hi, isRecorded_stored, exists_eq_left']
  have hc (row : ColumnRow) := hat (r := row.record) fun _ => isAt_iff rfl rfl
  have hp (row : PartRow) := hat (r := row.record) fun _ => isAt_iff rfl rfl
  have ht (row : TypeRow) : (∃ table, row.record.value? "table" = some (.text table) ∧
      cat.stored.IsRecorded ⟨db, table⟩) ↔ cat.IsRecorded ⟨db, row.table⟩ := by
    show (∃ table, some (Value.text row.table) = some (.text table) ∧ _) ↔ _
    simp only [Option.some.injEq, Value.text.injEq, isRecorded_stored, exists_eq_left']
  constructor
  · intro h
    refine ⟨fun row hr => ?_, fun row hr => ?_, fun row hr => ?_⟩
    · exact (hc row).1 (h.columns _ (mem_map_of_mem hr))
    · exact (hp row).1 (h.statistics _ (mem_map_of_mem hr))
    · exact (ht row).1 (h.cache _ (mem_map_of_mem hr))
  · intro h
    refine ⟨forall_mem_map.2 fun row hr => ?_, forall_mem_map.2 fun row hr => ?_,
      forall_mem_map.2 fun row hr => ?_⟩
    · exact (hc row).2 (h.columns row hr)
    · exact (hp row).2 (h.parts row hr)
    · exact (ht row).2 (h.types row hr)

end Catalog

/-! ### Commands -/

namespace Command

/-- Whether a command leaves the row of every table as it is, and what it adds is about a known
table. -/
def AddsTo (database : String) (known : Place → Prop) : Command → Prop
  | .recordColumn place _ _ | .appendColumn place _ | .recordIndexPart place _ => known place
  | .cacheType table _ _ => known ⟨database, table⟩
  | .recordTable _ | .forgetTable _ _ | .renameTable _ _ _ | .renameCachedTable _ _ => False
  | _ => True

theorem AddsTo.mono {db : String} {known other : Place → Prop} {cmd : Command}
    (h : cmd.AddsTo db known) (hi : ∀ place, known place → other place) :
    cmd.AddsTo db other := by
  cases cmd <;> first | exact hi _ h | exact h

end Command

namespace CatalogChange

/-- Whether a change does not add a column to a table that is not recorded. -/
def AddsToRecorded (database : String) (tables : Tables) : CatalogChange → Prop
  | .addColumn table _ => tables.IsRecorded ⟨database, table⟩
  | _ => True

instance (database : String) (tables : Tables) :
    (change : CatalogChange) → Decidable (change.AddsToRecorded database tables)
  | .addColumn table _ => inferInstanceAs (Decidable (tables.IsRecorded ⟨database, table⟩))
  | .createTable _ | .dropColumn _ _ | .addIndex _ _ | .dropIndex _ _ | .renameTable _ _
  | .renameColumn _ _ _ | .dropTable _ => .isTrue trivial

end CatalogChange

namespace Catalog

variable {db : String} {known : Place → Prop} {cat next : Catalog}

namespace Within

section Known

variable (h : cat.Within db known)

include h

theorem mono {other : Place → Prop}
    (hi : ∀ place, known place → other place) : cat.Within db other where
  columns row hr := hi _ (h.columns row hr)
  parts row hr := hi _ (h.parts row hr)
  types row hr := hi _ (h.types row hr)

/-- The parts of an index are about the table of their columns. -/
theorem addedParts {place : Place} {index : Index}
    {leading : String} {pos : Int64} {part : KeyPart} {row : PartRow}
    (hr : row ∈ cat.addedParts place index leading pos part) : known row.place := by
  obtain ⟨col, hc, rfl⟩ := mem_map.1 hr
  obtain ⟨hm, hi⟩ := mem_filter.1 hc
  rw [ColumnRow.isOf_eq, decide_eq_true_eq] at hi
  have hp : col.place = place := congrArg Prod.fst hi
  show known place
  rw [← hp]
  exact h.columns col hm

/-- A command that adds to known tables keeps the rows about them. -/
theorem effect {cmd : Command} (hadd : cmd.AddsTo db known) (hn : cmd.effect cat = some next) :
    next.Within db known ∧ next.tables = cat.tables := by
  have had {α : Type} {P : α → Prop} {a : α} (ha : P a) : ∀ b ∈ [a], P b :=
    forall_mem_singleton.2 ha
  -- most commands change rows and keep what they are about
  have hc {cond : ColumnRow → Bool} {change : ColumnRow → ColumnRow}
      (hp : ∀ row, (change row).place = row.place) :
      ∀ row ∈ changed cat.columns cond change, known row.place := fun row hr =>
    of_mem_changed (P := fun row => known row.place) hr h.columns fun row =>
      (congrArg known (hp row)).mpr
  have hpa {cond : PartRow → Bool} {change : PartRow → PartRow}
      (hp : ∀ row, (change row).place = row.place) :
      ∀ row ∈ changed cat.parts cond change, known row.place := fun row hr =>
    of_mem_changed (P := fun row => known row.place) hr h.parts fun row =>
      (congrArg known (hp row)).mpr
  have ht {cond : TypeRow → Bool} {newName : String} :
      ∀ row ∈ changed cat.types cond ({ · with column := newName }),
        known ⟨db, row.table⟩ := fun row hr =>
    of_mem_changed (P := fun row => known ⟨db, row.table⟩) hr h.types fun _ => id
  cases cmd with
  | createRegister _ | createCache =>
    cases hn
    exact ⟨h, rfl⟩
  | recordTable _ | forgetTable _ _ | renameTable _ _ _ | renameCachedTable _ _ => cases hadd
  | recordColumn _ _ _ =>
    cases hn
    exact ⟨{ h with columns := forall_mem_append.2 ⟨h.columns, had hadd⟩ }, rfl⟩
  | appendColumn _ _ =>
    obtain ⟨ordinal, -, hn⟩ := Option.bind_eq_some_iff.1 hn
    cases hn
    exact ⟨{ h with columns := forall_mem_append.2 ⟨h.columns, had hadd⟩ }, rfl⟩
  | recordIndexPart _ _ =>
    cases hn
    exact ⟨{ h with parts := forall_mem_append.2 ⟨h.parts, had hadd⟩ }, rfl⟩
  | addIndexPart _ _ _ _ _ =>
    cases hn
    exact ⟨{ h with parts := forall_mem_append.2 ⟨h.parts, fun row => h.addedParts⟩ }, rfl⟩
  | promoteKey _ _ _ | closeOrdinalGap _ _ =>
    cases hn
    exact ⟨{ h with columns := hc fun _ => rfl }, rfl⟩
  | recomputeKeys _ _ =>
    rw [Command.effect] at hn
    split at hn
    · cases hn
      exact ⟨{ h with columns := hc fun _ => rfl }, rfl⟩
    · cases hn
  | closeIndexGaps _ _ =>
    cases hn
    exact ⟨{ h with parts := hpa fun _ => rfl }, rfl⟩
  | forgetColumn reg _ _ =>
    cases reg with
    | tables =>
      rw [Command.effect] at hn
      split at hn
      · cases hn
        exact ⟨h, rfl⟩
      · cases hn
    | columns =>
      cases hn
      exact ⟨{ h with columns := fun row hr => h.columns row (mem_of_mem_filter hr) }, rfl⟩
    | statistics =>
      cases hn
      exact ⟨{ h with parts := fun row hr => h.parts row (mem_of_mem_filter hr) }, rfl⟩
  | forgetIndex _ _ =>
    cases hn
    exact ⟨{ h with parts := fun row hr => h.parts row (mem_of_mem_filter hr) }, rfl⟩
  | renameColumn reg _ _ _ =>
    cases reg with
    | tables =>
      rw [Command.effect] at hn
      split at hn
      · cases hn
        exact ⟨h, rfl⟩
      · cases hn
    | columns =>
      cases hn
      exact ⟨{ h with columns := hc fun _ => rfl }, rfl⟩
    | statistics =>
      cases hn
      exact ⟨{ h with parts := hpa fun _ => rfl }, rfl⟩
  | cacheType _ _ _ =>
    cases hn
    refine ⟨{ h with types := forall_mem_append.2 ⟨?_, had hadd⟩ }, rfl⟩
    exact fun row hr => h.types row (mem_of_mem_filter hr)
  | uncacheTable _ | uncacheColumn _ _ =>
    cases hn
    exact ⟨{ h with types := fun row hr => h.types row (mem_of_mem_filter hr) }, rfl⟩
  | renameCachedColumn _ _ _ =>
    obtain ⟨-, rfl⟩ := withTypes?_eq_some.1 hn
    exact ⟨{ h with types := ht }, rfl⟩

theorem after? {commands : List Command} (ha : ∀ cmd ∈ commands, cmd.AddsTo db known)
    (hn : cat.after? commands = some next) :
    next.Within db known ∧ next.tables = cat.tables := by
  induction commands generalizing cat with
  | nil =>
    cases hn
    exact ⟨h, rfl⟩
  | cons cmd rest ih =>
    rw [forall_mem_cons] at ha
    rw [after?, foldlM_cons] at hn
    obtain ⟨middle, hm, hn⟩ := Option.bind_eq_some_iff.1 hn
    obtain ⟨hw, ht⟩ := h.effect ha.1 hm
    obtain ⟨hd, hs⟩ := ih hw ha.2 hn
    exact ⟨hd, hs.trans ht⟩

end Known

variable (h : cat.Within db cat.IsRecorded)

include h

/-- Commands that add to recorded tables. -/
theorem recorded {commands : List Command} (ha : ∀ cmd ∈ commands, cmd.AddsTo db cat.IsRecorded)
    (hn : cat.after? commands = some next) : next.Within db next.IsRecorded := by
  obtain ⟨hw, ht⟩ := h.after? ha hn
  refine hw.mono fun place hp => ?_
  rw [IsRecorded, ht]
  exact hp

/-! ### Changes -/

theorem dropTable {table : String}
    (hn : cat.after? (Script.dropTable ⟨db, table⟩).commands = some next) :
    next.Within db next.IsRecorded := by
  have hk {place : Place} (hne : place ≠ ⟨db, table⟩) (hp : cat.IsRecorded place) :
      place ∈ (cat.tables.filter (·.place ≠ ⟨db, table⟩)).map TableRow.place := by
    obtain ⟨row, hr, rfl⟩ := mem_map.1 hp
    exact mem_map_of_mem (mem_filter.2 ⟨hr, by simpa using hne⟩)
  cases hn
  refine ⟨fun row hr => ?_, fun row hr => ?_, fun row hr => ?_⟩
  · obtain ⟨hm, hne⟩ := mem_filter.1 hr
    exact hk (by simpa using hne) (h.columns row hm)
  · obtain ⟨hm, hne⟩ := mem_filter.1 hr
    exact hk (by simpa using hne) (h.parts row hm)
  · obtain ⟨hm, hne⟩ := mem_filter.1 hr
    exact hk (by simpa using hne) (h.types row hm)

/-- The rows of a table move together with it. -/
theorem renameTable {table newName : String}
    (hn : cat.after? (Script.renameTable ⟨db, table⟩ newName).commands = some next) :
    next.Within db next.IsRecorded := by
  -- a recorded table is recorded under the name that it has afterwards
  have hm (hp : cat.IsRecorded ⟨db, table⟩) :
      (cat.tableRenamed ⟨db, table⟩ newName).IsRecorded ⟨db, newName⟩ := by
    obtain ⟨row, hr, hp⟩ := mem_map.1 hp
    refine mem_map.2 ⟨{ row with place.table := newName }, mem_changed.2 ⟨row, hr, ?_⟩, ?_⟩
    · exact .inl ⟨decide_eq_true hp, rfl⟩
    · rw [hp]
  have hs {place : Place} (hne : place ≠ ⟨db, table⟩) (hp : cat.IsRecorded place) :
      (cat.tableRenamed ⟨db, table⟩ newName).IsRecorded place := by
    obtain ⟨row, hr, rfl⟩ := mem_map.1 hp
    exact mem_map_of_mem (mem_changed.2 ⟨row, hr, .inr ⟨decide_eq_false hne, rfl⟩⟩)
  obtain ⟨-, rfl⟩ := after?_renameTable.1 hn
  refine ⟨fun row hr => ?_, fun row hr => ?_, fun row hr => ?_⟩
  · obtain ⟨old, ho, ⟨hp, rfl⟩ | ⟨hp, rfl⟩⟩ := mem_changed.1 hr
    · have hat := of_decide_eq_true hp
      simp only [hat]
      exact hm (hat ▸ h.columns old ho)
    · exact hs (of_decide_eq_false hp) (h.columns _ ho)
  · obtain ⟨old, ho, ⟨hp, rfl⟩ | ⟨hp, rfl⟩⟩ := mem_changed.1 hr
    · have hat := of_decide_eq_true hp
      simp only [hat]
      exact hm (hat ▸ h.parts old ho)
    · exact hs (of_decide_eq_false hp) (h.parts _ ho)
  · obtain ⟨old, ho, ⟨ht, rfl⟩ | ⟨ht, rfl⟩⟩ := mem_changed.1 hr
    · have hat : old.table = table := of_decide_eq_true ht
      exact hm (hat ▸ h.types old ho)
    · refine hs (fun heq => of_decide_eq_false ht ?_) (h.types _ ho)
      exact congrArg Place.table heq

/-- What a new table brings is about that table. -/
theorem createTable {tree : Tree}
    (hn : cat.after? (Script.createTable db tree).commands = some next) :
    next.Within db next.IsRecorded := by
  -- the row of the table comes first
  have hne {row : TableRow} {rest : List Command}
      (hre : ∀ cmd ∈ rest, cmd.AddsTo db (· = row.place))
      (hn : cat.after? (.recordTable row :: rest) = some next) :
      next.Within db next.IsRecorded := by
    have hs (place : Place) (hp : cat.IsRecorded place) :
        IsRecorded { cat with tables := cat.tables ++ [row] } place := by
      rw [IsRecorded, map_append]
      exact mem_append_left _ hp
    have hr : Within db
        (IsRecorded { cat with tables := cat.tables ++ [row] })
        { cat with tables := cat.tables ++ [row] } :=
      { h.mono hs with }
    refine hr.recorded (fun cmd hc => ?_) hn
    refine (hre cmd hc).mono fun place hp => ?_
    rw [hp, IsRecorded, map_append]
    exact mem_append_right _ (mem_singleton_self _)
  unfold Script.createTable at hn
  split at hn
  · cases hn
    exact h
  split at hn
  · cases hn
    exact h
  · cases hn
    exact h
  · rename_i elems table he ht
    dsimp only at hn
    have hco (cols : List Column) : ∀ cmd ∈ cols.mapIdx fun i col =>
        Command.recordColumn ⟨db, table⟩ (Int64.ofNat (i + 1)) col,
        cmd.AddsTo db (· = ⟨db, table⟩) := by
      intro cmd hc
      obtain ⟨i, hi, rfl⟩ := mem_mapIdx.1 hc
      exact rfl
    split at hn
    · exact hne (hco _) hn
    · refine hne (forall_mem_append.2 ⟨forall_mem_append.2 ⟨hco _, ?_⟩, ?_⟩) hn
      · exact forall_mem_map.2 fun _ _ => rfl
      · exact forall_mem_map.2 fun _ _ => rfl

/-- The commands that add an index add to its table only what is about recorded columns. -/
theorem addIndex {place : Place}
    {index : Index} (hn : cat.after? (Script.addIndex place index).commands = some next) :
    next.Within db next.IsRecorded := by
  refine h.recorded ?_ hn
  unfold Script.addIndex
  split
  · simp
  · refine forall_mem_append.2 ⟨fun cmd hc => ?_, forall_mem_map.2 ?_⟩
    · obtain ⟨i, hi, rfl⟩ := mem_mapIdx.1 hc
      trivial
    · exact fun _ _ => trivial

theorem step {facts : TableFacts}
    {change : CatalogChange} (ha : change.AddsToRecorded db cat.stored)
    (hn : cat.after? (change.script db facts).commands = some next) :
    next.Within db next.IsRecorded := by
  cases change with
  | createTable tree => exact h.createTable hn
  | addColumn table defn =>
    have hr : cat.IsRecorded ⟨db, table⟩ := isRecorded_stored.1 ha
    refine h.recorded ?_ hn
    simp only [CatalogChange.script, Script.addColumn]
    split
    · exact forall_mem_cons.2 ⟨hr, forall_mem_singleton.2 hr⟩
    · simp
  | dropColumn table col =>
    refine h.recorded ?_ hn
    simp [CatalogChange.script, Script.dropColumn, Command.AddsTo]
  | addIndex table index => exact h.addIndex hn
  | dropIndex table index =>
    refine h.recorded ?_ hn
    simp [CatalogChange.script, Script.dropIndex, Command.AddsTo]
  | renameTable table newName => exact h.renameTable hn
  | renameColumn table col newName =>
    refine h.recorded ?_ hn
    simp [CatalogChange.script, Script.renameColumn, Command.AddsTo]
  | dropTable table => exact h.dropTable hn

end Within

/-- A column that is added has a row about its table. -/
theorem isRecorded_of_addColumn {table : String} {defn : Tree} {facts : TableFacts}
    (hf : (Script.addColumn ⟨db, table⟩ defn facts).failure = none)
    (hn : cat.after? (Script.addColumn ⟨db, table⟩ defn facts).commands =
      some next) (hw : next.Within db next.IsRecorded) :
    cat.IsRecorded ⟨db, table⟩ := by
  unfold Script.addColumn at hf hn
  split at hn
  · rename_i col hc
    obtain ⟨ordinal, -, rfl⟩ := after?_appendColumn.1 hn
    exact hw.columns _ (mem_append_right _ (mem_singleton_self _))
  · rename_i error he
    rw [he] at hf
    cases hf

end Catalog

/-- After statements that add columns to recorded tables only, every row of the catalog belongs to a
recorded table; and the next change keeps it so exactly if it does not add a column to a table that
is not recorded. -/
theorem isOwned_of_driven {database : String} {tables : Tables}
    (h : Driven database (fun tables change => change.AddsToRecorded database tables) tables) :
    tables.IsOwned database ∧ ∀ (change : CatalogChange) (after : Tables),
      change.follow database tables = .ok ((), after) →
      (after.IsOwned database ↔ change.AddsToRecorded database tables) := by
  obtain ⟨catalog, rfl, hwithin⟩ := h.of_step (P := fun catalog =>
      catalog.Within database catalog.IsRecorded) ⟨by simp, by simp, by simp⟩
    fun _ _ _ _ hcatalog hadds hnext => hcatalog.step hadds hnext
  refine ⟨Catalog.isOwned_stored.2 hwithin, fun change after hafter => ?_⟩
  obtain ⟨hfailure, next, hnext, rfl⟩ := Script.perform_stored_eq_ok.1 hafter
  rw [Catalog.isOwned_stored]
  constructor
  · intro howned
    cases change with
    | addColumn table definition =>
      exact Catalog.isRecorded_stored.2 (Catalog.isRecorded_of_addColumn hfailure hnext howned)
    | _ => trivial
  · exact fun hadds => hwithin.step hadds hnext

/-- A table gets a column and an index over it, and another name. -/
theorem isOwned_of_driven_renamed :
    ∃ tables, tables.columns.map (·.value? "table_name") = [some (.text "u"), some (.text "u")] ∧
      Driven "wp" (fun tables change => change.AddsToRecorded "wp" tables) tables ∧
      tables.IsOwned "wp" := by
  have hnames : (afterStatements? "wp" (fun tables change => change.AddsToRecorded "wp" tables)
      ["CREATE TABLE t (a INT)", "ALTER TABLE t ADD b INT, ADD KEY k (b), RENAME TO u"] {}).map
      (fun tables => tables.columns.map (·.value? "table_name")) =
      some [some (.text "u"), some (.text "u")] := by decide +kernel
  obtain ⟨tables, hrun, hnames⟩ := Option.map_eq_some_iff.1 hnames
  have hdriven := Driven.of_afterStatements? .start hrun
  exact ⟨tables, hnames, hdriven, (isOwned_of_driven hdriven).1⟩

/-- A column that is added to a temporary table has a row, and the table has none. -/
theorem not_isOwned_temporary :
    ∃ tables, Driven "wp" (fun _ _ => True) tables ∧ ¬tables.IsOwned "wp" := by
  have hcounts : (afterStatements? "wp" (fun _ _ => True)
      ["CREATE TEMPORARY TABLE t (a INT)", "ALTER TABLE t ADD b INT"] {}).map
      (fun tables => (tables.tables.length, tables.columns.length)) = some (0, 1) := by
    decide +kernel
  obtain ⟨tables, hrun, hcounts⟩ := Option.map_eq_some_iff.1 hcounts
  obtain ⟨htables, hcolumns⟩ := Prod.mk.inj hcounts
  refine ⟨tables, .of_afterStatements? .start hrun, fun howned => ?_⟩
  obtain ⟨record, hrecord⟩ := List.length_eq_one_iff.1 hcolumns
  obtain ⟨place, -, row, hrow, -⟩ := howned.columns record (by simp [hrecord])
  rw [List.length_eq_zero_iff.1 htables] at hrow
  cases hrow

end SqlBridge
