/-
The cache of types has a row for no other columns than those that are recorded, and no two rows for
one of them, whatever changes were made (`Follows.exists_cached`).
-/
import SqlBridge.Proofs.Catalog.DeclaredIndex
import SqlBridge.Proofs.Catalog.Followed

namespace SqlBridge

open List

namespace Catalog

/-- What holds of the cached types in a catalog of a database. -/
structure Cached (schema : String) (catalog : Catalog) : Prop where
  existing : ∀ row ∈ catalog.types, catalog.HasColumn ⟨schema, row.table⟩ row.column
  distinct : DifferentTypes catalog.types

variable {schema table : String} {cat next : Catalog} {types : List TypeRow}

/-! ### The rows of the cache -/

theorem pairwise_cacheType (h : DifferentTypes types) (table col type : String) :
    DifferentTypes (types.filter (!·.isOf table col) ++ [⟨table, col, type⟩]) := by
  refine pairwise_append.2
    ⟨h.filter _, pairwise_singleton _ _, fun row hr other ho => ?_⟩
  obtain rfl := mem_singleton.1 ho
  simpa using (mem_filter.1 hr).2

theorem pairwise_cachedTypes (h : DifferentTypes types) (table : String) (cols : List Column) :
    DifferentTypes (cachedTypes table types cols) := by
  induction cols generalizing types with
  | nil => exact h
  | cons col rest ih => exact ih (pairwise_cacheType h _ _ _)

theorem mem_cachedTypes {cols : List Column} {row : TypeRow}
    (h : row ∈ cachedTypes table types cols) :
    row ∈ types ∨ row.table = table ∧ row.column ∈ cols.map Column.name := by
  induction cols generalizing types with
  | nil => exact .inl h
  | cons col rest ih =>
    rcases ih h with ho | ⟨ht, hc⟩
    · rcases mem_append.1 ho with hk | hn
      · exact .inl (mem_of_mem_filter hk)
      · obtain rfl := mem_singleton.1 hn
        exact .inr ⟨rfl, mem_cons_self⟩
    · exact .inr ⟨ht, mem_cons_of_mem _ hc⟩

/-! ### Changes -/

theorem key_columnRows (place : Place) (cols : List Column) :
    (columnRows place cols).map ColumnRow.key = cols.map fun col => (place, col.name) := by
  rw [columnRows, map_mapIdx]
  exact mapIdx_const cols fun col => (place, col.name)

/-- A table that is created is not recorded at all, or with its columns and the parts of its
indexes. -/
theorem createTable_cases {tree : Tree} (hf : (Script.createTable schema tree).failure = none)
    (hn : cat.after? (Script.createTable schema tree).commands = some next) :
    next = cat ∨ ∃ (row : TableRow) (cols : List Column) (rows : List IndexRow),
      row.place.schema = schema ∧ next = cat.created row cols rows := by
  cases ht : tree.hasKeyword .TEMPORARY with
  | true =>
    rw [Script.createTable, if_pos ht] at hn
    cases hn
    exact .inl rfl
  | false =>
    cases he : tree.child? .tableElementList with
    | none =>
      rw [Script.createTable, ht, he] at hn
      cases hn
      exact .inl rfl
    | some elems =>
      cases hta : (tree.child? .tableName).bind Tree.lastName? with
      | none =>
        rw [Script.createTable, ht, he, hta] at hf
        cases hf
      | some table =>
        rw [Script.createTable_eq ht he hta] at hf hn
        rcases hd : Script.describeAll (.ofCreateTable tree) elems.columnDefinitions with
          ⟨cols, _ | error⟩
        · rw [hd] at hn
          have hc := cat.after?_createTable
            (Script.tableRow ⟨schema, table⟩ tree (.ofCreateTable tree)) cols
            ((Index.ofElements elems).flatMap (Script.indexRows cols))
          exact .inr ⟨_, cols, _, rfl, Option.some.inj (hn.symm.trans hc)⟩
        · rw [hd] at hf
          cases hf

/-- Keys that are promoted leave all else as it is. -/
theorem promoteKeys_keeps {place : Place} {parts : List KeyPart} {key : ColumnKey}
    (hn : cat.after? (parts.map fun part => .promoteKey place part.column key) =
      some next) :
    next.columns.map ColumnRow.key = cat.columns.map ColumnRow.key ∧
      next.parts = cat.parts ∧ next.types = cat.types := by
  induction parts generalizing cat with
  | nil =>
    cases hn
    exact ⟨rfl, rfl, rfl⟩
  | cons part rest ih =>
    obtain ⟨middle, hm, hr⟩ : ∃ middle,
        Command.effect cat (.promoteKey place part.column key) = some middle ∧
        middle.after? (rest.map fun part => .promoteKey place part.column key) = some next :=
      Option.bind_eq_some_iff.1 hn
    obtain ⟨hc, hp, ht⟩ := ih hr
    cases hm
    exact ⟨hc.trans (map_changed fun _ _ _ => rfl), hp, ht⟩

namespace Cached

variable (h : cat.Cached schema)

include h

/-- A change that keeps the names of columns and the cache. -/
theorem of_eq (ht : next.types = cat.types)
    (hc : next.columns.map ColumnRow.key = cat.columns.map ColumnRow.key) :
    next.Cached schema where
  existing := by
    rw [ht]
    intro row hr
    rw [HasColumn, hc]
    exact h.existing row hr
  distinct := ht ▸ h.distinct

theorem createTable {tree : Tree} (hf : (Script.createTable schema tree).failure = none)
    (hn : cat.after? (Script.createTable schema tree).commands = some next) :
    next.Cached schema := by
  obtain rfl | ⟨row, cols, rows, rfl, rfl⟩ := createTable_cases hf hn
  · exact h
  · refine ⟨fun type hty => ?_, pairwise_cachedTypes h.distinct _ _⟩
    rw [HasColumn, created, map_append]
    rcases mem_cachedTypes hty with ho | ⟨ht, hc⟩
    · exact mem_append_left _ (h.existing type ho)
    · refine mem_append_right _ ?_
      rw [ht, key_columnRows]
      exact mem_map.2 (by simpa [eq_comm] using hc)

theorem addColumn {defn : Tree} {facts : TableFacts}
    (hn : cat.after? (Script.addColumn ⟨schema, table⟩ defn facts).commands =
      some next) : next.Cached schema := by
  unfold Script.addColumn at hn
  split at hn
  · rename_i col _
    obtain ⟨ordinal, -, rfl⟩ := after?_appendColumn.1 hn
    refine ⟨fun type ht => ?_, pairwise_cacheType h.distinct _ _ _⟩
    rw [HasColumn, columnAdded, map_append]
    rcases mem_append.1 ht with ho | hne
    · exact mem_append_left _ (h.existing type (mem_of_mem_filter ho))
    · obtain rfl := mem_singleton.1 hne
      exact mem_append_right _ (mem_singleton_self _)
  · cases hn
    exact h

theorem dropColumn {col : String}
    (hn : cat.after? (Script.dropColumn ⟨schema, table⟩ col).commands = some next) :
    next.Cached schema := by
  cases hn
  refine ⟨fun type ht => ?_, h.distinct.filter _⟩
  obtain ⟨hol, ho⟩ := mem_filter.1 ht
  obtain ⟨row, hr, hk⟩ := mem_map.1 (h.existing type hol)
  -- the row of the column stays, maybe with another ordinal
  have hm : ∃ moved ∈ changed cat.columns (cat.isAfterColumn ⟨schema, table⟩ col)
      (fun row => { row with ordinal := row.ordinal - 1 }), moved.key = row.key := by
    refine exists_changed (P := fun moved => moved.key = row.key) ⟨row, hr, rfl⟩ ?_
    exact fun _ => id
  obtain ⟨moved, hm, hs⟩ := hm
  refine mem_map.2 ⟨moved, mem_filter.2 ⟨hm, ?_⟩, hs.trans hk⟩
  rw [ColumnRow.isOf_eq, hs, hk, Bool.not_eq_true', decide_eq_false_iff_not]
  rintro ⟨⟩
  simp [TypeRow.isOf] at ho

theorem addIndex {place : Place} {index : Index}
    (hn : cat.after? (Script.addIndex place index).commands = some next) :
    next.Cached schema := by
  unfold Script.addIndex at hn
  split at hn
  · cases hn
    exact h
  · dsimp only at hn
    rw [after?_append, after?_addIndexParts, Option.bind_some] at hn
    obtain ⟨hc, -, ht⟩ := promoteKeys_keeps hn
    exact h.of_eq ht hc

theorem dropIndex {place : Place} {index : String}
    (hn : cat.after? (Script.dropIndex place index).commands = some next) :
    next.Cached schema := by
  rw [Script.dropIndex, after?, foldlM_cons] at hn
  obtain ⟨recomputed, hr, hn⟩ := Option.bind_eq_some_iff.1 hn
  rw [Command.effect] at hr
  split at hr
  · cases hr
    cases hn
    exact h.of_eq rfl (map_changed fun _ _ _ => rfl)
  · cases hr

theorem dropTable (hn : cat.after? (Script.dropTable ⟨schema, table⟩).commands = some next) :
    next.Cached schema := by
  cases hn
  refine ⟨fun type ht => ?_, h.distinct.filter _⟩
  obtain ⟨hol, ho⟩ := mem_filter.1 ht
  obtain ⟨row, hr, hk⟩ := mem_map.1 (h.existing type hol)
  have hp : row.place = ⟨schema, type.table⟩ := congrArg Prod.fst hk
  refine mem_map.2 ⟨row, mem_filter.2 ⟨hr, ?_⟩, hk⟩
  rw [hp]
  simpa using ho

/-- The rows of a table in the cache move with those of its columns. -/
theorem renameTable {newName : String}
    (hn : cat.after? (Script.renameTable ⟨schema, table⟩ newName).commands = some next) :
    next.Cached schema := by
  obtain ⟨hd, rfl⟩ := after?_renameTable.1 hn
  refine ⟨fun type hty => ?_, hd⟩
  obtain ⟨old, ho, ⟨ht, rfl⟩ | ⟨ht, rfl⟩⟩ := mem_changed.1 hty
  all_goals
    obtain ⟨row, hr, hk⟩ := mem_map.1 (h.existing _ ho)
    have hp : row.place = ⟨schema, _⟩ := congrArg Prod.fst hk
    have hna : row.column.name = _ := congrArg Prod.snd hk
  · have hat : row.place = ⟨schema, table⟩ := by rw [hp, of_decide_eq_true ht]
    refine mem_map.2 ⟨{ row with place.table := newName },
      mem_changed.2 ⟨row, hr, .inl ⟨decide_eq_true hat, rfl⟩⟩, ?_⟩
    rw [ColumnRow.key, hat, hna]
  · refine mem_map.2 ⟨row, mem_changed.2 ⟨row, hr, .inr ⟨decide_eq_false ?_, rfl⟩⟩, hk⟩
    rw [hp]
    exact fun heq => of_decide_eq_false ht (congrArg Place.table heq)

/-- The row of a column in the cache is renamed with the column. -/
theorem renameColumn {col newName : String}
    (hn : cat.after? (Script.renameColumn ⟨schema, table⟩ col newName).commands =
      some next) : next.Cached schema := by
  obtain ⟨hd, rfl⟩ := after?_renameColumn.1 hn
  refine ⟨fun type ht => ?_, hd⟩
  obtain ⟨old, ho, ⟨hi, rfl⟩ | ⟨hi, rfl⟩⟩ := mem_changed.1 ht
  all_goals
    obtain ⟨row, hr, hk⟩ := mem_map.1 (h.existing _ ho)
  · obtain ⟨rfl, rfl⟩ : old.table = table ∧ old.column = col := by
      simpa [TypeRow.isOf] using hi
    have hp : row.place = ⟨schema, old.table⟩ := congrArg Prod.fst hk
    refine mem_map.2 ⟨{ row with column.name := newName },
      mem_changed.2 ⟨row, hr, .inl ⟨?_, rfl⟩⟩, ?_⟩
    · rw [ColumnRow.isOf_eq, hk, decide_eq_true_eq]
    · rw [ColumnRow.key, hp]
  · refine mem_map.2 ⟨row, mem_changed.2 ⟨row, hr, .inr ⟨?_, rfl⟩⟩, hk⟩
    rw [ColumnRow.isOf_eq, hk, decide_eq_false_iff_not]
    rintro ⟨⟩
    simp [TypeRow.isOf] at hi

theorem step {facts : TableFacts} {change : CatalogChange}
    (hf : (change.script schema facts).failure = none)
    (hn : cat.after? (change.script schema facts).commands = some next) :
    next.Cached schema := by
  cases change with
  | createTable tree => exact h.createTable hf hn
  | addColumn table defn => exact h.addColumn hn
  | dropColumn table col => exact h.dropColumn hn
  | addIndex table index => exact h.addIndex hn
  | dropIndex table index => exact h.dropIndex hn
  | renameTable table newName => exact h.renameTable hn
  | renameColumn table col newName => exact h.renameColumn hn
  | dropTable table => exact h.dropTable hn

end Cached

end Catalog

/-- Whatever changes were made, the cache is about recorded columns, and about none twice. -/
theorem Follows.exists_cached {schema : String} {tables : Tables} (h : Follows schema tables) :
    ∃ cat : Catalog, tables = cat.stored ∧ cat.Cached schema :=
  h.of_step ⟨by simp, .nil⟩ fun _ _ _ _ hc hf hn => hc.step hf hn

end SqlBridge
