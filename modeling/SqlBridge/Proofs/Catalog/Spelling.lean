/-
The spelling of names in changes of tables.

The catalog compares names as they are spelled.  A database resolves them up to the case of ASCII
letters, and so do the keys of a table that is created.

* `CatalogChange.resolved`: a change with the names of columns and indexes as they are recorded.
* `Tables.folded`: the tables of the catalog up to the case of names.
* `follow_folded_iff`: a change leads to the catalog that it leads to with the recorded names, up to
  the case of names, only if it has those names.  The exception is a column that is renamed to what
  it is called already, up to case.
-/
import Mathlib.Algebra.Order.BigOperators.Group.List
import Mathlib.Algebra.Order.Ring.Nat
import SqlBridge.Proofs.Catalog.Cached
import SqlBridge.Proofs.Catalog.Driven

namespace SqlBridge

open List

open Text (asciiUpper equalsIgnoringCase)

/-! ### Recorded names -/

/-- A name as one of some names is spelled. -/
def spelling (names : List String) (name : String) : String :=
  if name ∈ names then name else (names.find? (equalsIgnoringCase name)).getD name

/-- A name has its spelling, or it is not there and another is, which differs in case. -/
theorem spelling_cases (names : List String) (name : String) :
    spelling names name = name ∨ name ∉ names ∧ spelling names name ∈ names ∧
      asciiUpper (spelling names name) = asciiUpper name := by
  unfold spelling
  split
  · exact .inl rfl
  · rename_i hn
    cases hf : names.find? (equalsIgnoringCase name) with
    | none => exact .inl rfl
    | some found =>
      have he : equalsIgnoringCase name found := find?_some hf
      have hs : asciiUpper name = asciiUpper found := eq_of_beq he
      exact .inr ⟨hn, mem_of_find?_eq_some hf, hs.symm⟩

namespace Tables

/-- The names of the columns of a table. -/
def columnNames (tables : Tables) (place : Place) : List String :=
  (tables.columns.filter (·.IsAt place)).filterMap fun record =>
    (record.value? "column_name").bind Value.text?

/-- The names of the indexes of a table, one for each part. -/
def indexNames (tables : Tables) (place : Place) : List String :=
  (tables.statistics.filter (·.IsAt place)).filterMap fun record =>
    (record.value? "index_name").bind Value.text?

end Tables

/-- A change with the names of columns and indexes as they are recorded. -/
def CatalogChange.resolved (schema : String) (tables : Tables) : CatalogChange → CatalogChange
  | .dropColumn table column =>
    .dropColumn table (spelling (tables.columnNames ⟨schema, table⟩) column)
  | .renameColumn table column newName =>
    .renameColumn table (spelling (tables.columnNames ⟨schema, table⟩) column) newName
  | .dropIndex table index =>
    .dropIndex table (spelling (tables.indexNames ⟨schema, table⟩) index)
  | .addIndex table index =>
    .addIndex table { index with
      parts := index.parts.map fun part =>
        { part with column := spelling (tables.columnNames ⟨schema, table⟩) part.column } }
  | change => change

/-! ### Up to case -/

/-- The columns of the catalog's tables that hold names. -/
def nameColumns : List String :=
  ["table_name", "column_name", "index_name", "table", "column_or_index"]

def Value.folded : Value → Value
  | .text name => .text (asciiUpper name)
  | value => value

/-- A record up to the case of its names. -/
def Record.folded (record : Record) : Record :=
  record.map fun entry =>
    (entry.1, if nameColumns.contains entry.1 then entry.2.folded else entry.2)

/-- The tables of the catalog up to the case of names. -/
def Tables.folded (tables : Tables) : Tables where
  tables := tables.tables.map Record.folded
  columns := tables.columns.map Record.folded
  statistics := tables.statistics.map Record.folded
  cache := tables.cache.map Record.folded

namespace CatalogChange

/-- Whether a column is renamed to what it is called already, up to case. -/
def KeepsName : CatalogChange → Prop
  | .renameColumn _ col newName => equalsIgnoringCase newName col
  | _ => False

end CatalogChange

namespace Catalog

variable {schema : String} {cat next : Catalog} {place : Place}
variable {index newName : String}

/-- The names that some rows about a table show. -/
theorem mem_names {ρ : Type} {rows : List ρ} {record : ρ → Record} {key : ρ → Place × String}
    {field name : String} (hat : ∀ row, (record row).IsAt place ↔ (key row).1 = place)
    (hn : ∀ row, (record row).value? field = some (.text (key row).2)) :
    name ∈ ((rows.map record).filter (·.IsAt place)).filterMap
        (fun record => (record.value? field).bind Value.text?) ↔ (place, name) ∈ rows.map key := by
  simp [hat, hn, Value.text?, Prod.ext_iff, and_assoc]

theorem mem_columnNames {col : String} :
    col ∈ cat.stored.columnNames place ↔ cat.HasColumn place col :=
  mem_names (fun _ => isAt_iff rfl rfl) fun _ => rfl

theorem mem_indexNames : index ∈ cat.stored.indexNames place ↔ cat.HasIndex place index :=
  mem_names (fun _ => isAt_iff rfl rfl) fun _ => rfl

/-! ### Counting rows -/

theorem length_columns_of_folded {other : Catalog} (h : cat.stored.folded = other.stored.folded) :
    cat.columns.length = other.columns.length := by
  simpa [Tables.folded, stored] using congrArg (length ∘ Tables.columns) h

theorem length_parts_of_folded {other : Catalog} (h : cat.stored.folded = other.stored.folded) :
    cat.parts.length = other.parts.length := by
  simpa [Tables.folded, stored] using congrArg (length ∘ Tables.statistics) h

theorem length_columns_dropColumn {col : String}
    (hn : cat.after? (Script.dropColumn place col).commands = some next) :
    next.columns.length = (cat.columns.filter (!·.isOf place col)).length := by
  cases hn
  have hm : (changed cat.columns (cat.isAfterColumn place col) fun row =>
      { row with ordinal := row.ordinal - 1 }).filter (!·.isOf place col) =
      changed (cat.columns.filter (!·.isOf place col)) (cat.isAfterColumn place col)
        fun row => { row with ordinal := row.ordinal - 1 } :=
    filter_changed fun _ _ _ => rfl
  exact (congrArg length hm).trans (length_map _)

theorem length_parts_dropIndex
    (hn : cat.after? (Script.dropIndex place index).commands = some next) :
    next.parts.length = (cat.parts.filter (!·.isIn place index)).length := by
  rw [Script.dropIndex, after?, foldlM_cons] at hn
  obtain ⟨recomputed, hr, hn⟩ := Option.bind_eq_some_iff.1 hn
  rw [Command.effect] at hr
  split at hr
  · cases hr
    cases hn
    rfl
  · cases hr

/-- An index that is added has a row for each recorded column that a part names. -/
theorem length_parts_addIndex {index : Index}
    (hn : cat.after? (Script.addIndex place index).commands = some next) :
    next.parts.length = cat.parts.length +
      (index.parts.map fun part =>
        (cat.columns.filter (·.isOf place part.column)).length).sum := by
  unfold Script.addIndex at hn
  split at hn
  · rename_i hp
    cases hn
    rw [hp]
    rfl
  · dsimp only at hn
    rw [after?_append, after?_addIndexParts, Option.bind_some] at hn
    obtain ⟨-, hp, -⟩ := promoteKeys_keeps hn
    rw [hp, length_append, length_flatten, map_mapIdx]
    simp only [addedParts, length_map, mapIdx_const]

/-! ### Names that are not spelled as they are recorded -/

theorem isOf_eq_false {col : String} (h : ¬cat.HasColumn place col) {row : ColumnRow}
    (hr : row ∈ cat.columns) : row.isOf place col = false := by
  rw [ColumnRow.isOf_eq, decide_eq_false_iff_not]
  exact fun hk => h (mem_map.2 ⟨row, hr, hk⟩)

theorem exists_isOf {col : String} (h : cat.HasColumn place col) :
    ∃ row ∈ cat.columns, row.isOf place col := by
  obtain ⟨row, hr, hk⟩ := mem_map.1 h
  exact ⟨row, hr, by rw [ColumnRow.isOf_eq, hk, decide_eq_true_eq]⟩

section Spelled

variable {other after : Catalog} {col recorded : String}

/-- A column that is not there is not dropped. -/
theorem folded_dropColumn_ne (hn : ¬cat.HasColumn place col) (hs : cat.HasColumn place recorded)
    (ho : cat.after? (Script.dropColumn place col).commands = some other)
    (ha : cat.after? (Script.dropColumn place recorded).commands = some after) :
    other.stored.folded ≠ after.stored.folded := by
  intro heq
  have hl := length_columns_of_folded heq
  have hal : cat.columns.filter (!·.isOf place col) = cat.columns :=
    filter_eq_self.2 fun row hr => by rw [isOf_eq_false hn hr, Bool.not_false]
  obtain ⟨row, hr, hi⟩ := exists_isOf hs
  have hf : (cat.columns.filter (!·.isOf place recorded)).length < cat.columns.length :=
    length_filter_lt_length_iff_exists.2 ⟨row, hr, by simp [hi]⟩
  rw [length_columns_dropColumn ho, length_columns_dropColumn ha, hal] at hl
  omega

/-- An index that is not there is not dropped. -/
theorem folded_dropIndex_ne {recorded : String} (hn : ¬cat.HasIndex place index)
    (hs : cat.HasIndex place recorded)
    (ho : cat.after? (Script.dropIndex place index).commands = some other)
    (ha : cat.after? (Script.dropIndex place recorded).commands = some after) :
    other.stored.folded ≠ after.stored.folded := by
  intro heq
  have hl := length_parts_of_folded heq
  have hal : cat.parts.filter (!·.isIn place index) = cat.parts := by
    refine filter_eq_self.2 fun row hr => ?_
    rw [PartRow.isIn_eq, Bool.not_eq_true', decide_eq_false_iff_not]
    exact fun hh => hn (mem_map.2 ⟨row, hr, hh⟩)
  obtain ⟨row, hr, hh⟩ := mem_map.1 hs
  have hf : (cat.parts.filter (!·.isIn place recorded)).length < cat.parts.length :=
    length_filter_lt_length_iff_exists.2 ⟨row, hr, by simp [PartRow.isIn_eq, hh]⟩
  rw [length_parts_dropIndex ho, length_parts_dropIndex ha, hal] at hl
  omega

/-- A part of an index that names no column has no row. -/
theorem folded_addIndex_ne {index : Index} {respelled : KeyPart → KeyPart}
    (hs : ∀ part ∈ index.parts, respelled part = part ∨
      ¬cat.HasColumn place part.column ∧ cat.HasColumn place (respelled part).column)
    (hne : index.parts.map respelled ≠ index.parts)
    (ho : cat.after? (Script.addIndex place index).commands = some other)
    (ha : cat.after? (Script.addIndex place
      { index with parts := index.parts.map respelled }).commands = some after) :
    other.stored.folded ≠ after.stored.folded := by
  intro heq
  have hl := length_parts_of_folded heq
  rw [length_parts_addIndex ho, length_parts_addIndex ha, map_map] at hl
  have hco : ∀ part ∈ index.parts, respelled part ≠ part →
      (cat.columns.filter (·.isOf place part.column)).length <
        (cat.columns.filter (·.isOf place (respelled part).column)).length := by
    intro part hp hc
    obtain ⟨hn, hso⟩ := (hs part hp).resolve_left hc
    obtain ⟨row, hr, hi⟩ := exists_isOf hso
    rw [filter_eq_nil_iff.2 fun row hr => by simp [isOf_eq_false hn hr]]
    exact length_pos_of_mem (mem_filter.2 ⟨hr, hi⟩)
  obtain ⟨part, hp, hc⟩ : ∃ part ∈ index.parts, respelled part ≠ part := by
    by_contra! hal
    exact hne ((map_congr_left hal).trans (map_id _))
  have hle := sum_lt_sum
    (fun part : KeyPart => (cat.columns.filter (·.isOf place part.column)).length)
    (fun part => (cat.columns.filter (·.isOf place (respelled part).column)).length)
    (fun part hp => by
      by_cases hsa : respelled part = part
      · rw [hsa]
      · exact (hco part hp hsa).le)
    ⟨part, hp, hco part hp hc⟩
  have hsu := Nat.add_left_cancel hl
  exact hle.ne hsu

/-! ### Columns that are renamed -/

theorem folded_renamed_column (row : ColumnRow) (newName : String) :
    (ColumnRow.record { row with column.name := newName }).folded = row.record.folded ↔
      asciiUpper newName = asciiUpper row.column.name := by
  constructor
  · intro heq
    have hn : some (Value.text (asciiUpper newName)) =
        some (.text (asciiUpper row.column.name)) :=
      congrArg (Record.value? · "column_name") heq
    exact Value.text.inj (Option.some.inj hn)
  · intro hs
    simp [ColumnRow.record, Column.values, Record.folded, nameColumns, Value.folded, hs]

theorem folded_renamed_part {row : PartRow} (h : asciiUpper newName = asciiUpper row.part.column) :
    (PartRow.record { row with part.column := newName }).folded = row.record.folded := by
  simp [PartRow.record, IndexRow.values, Record.folded, nameColumns, Value.folded, h]

theorem folded_renamed_type {row : TypeRow} (h : asciiUpper newName = asciiUpper row.column) :
    (TypeRow.record { row with column := newName }).folded = row.record.folded := by
  simp [TypeRow.record, Record.folded, nameColumns, Value.folded, h]

/-- A column that is renamed to the same name up to case leaves the catalog the same up to case. -/
theorem folded_renameColumn (hs : asciiUpper newName = asciiUpper col)
    (ha : cat.after? (Script.renameColumn place col newName).commands = some after) :
    after.stored.folded = cat.stored.folded := by
  obtain ⟨-, rfl⟩ := after?_renameColumn.1 ha
  simp only [columnRenamed, Tables.folded, stored, map_map, Tables.mk.injEq, true_and]
  refine ⟨map_changed fun row _ hr => ?_, map_changed fun row _ hr => ?_,
    map_changed fun row _ hr => ?_⟩
  · have hn : row.column.name = col := (by simpa [ColumnRow.isOf] using hr : _ ∧ _).2
    exact (folded_renamed_column row newName).2 (hn ▸ hs)
  · have hn : row.part.column = col := (by simpa [PartRow.isOf] using hr : _ ∧ _).2
    exact folded_renamed_part (hn ▸ hs)
  · have hn : row.column = col := (by simpa [TypeRow.isOf] using hr : _ ∧ _).2
    exact folded_renamed_type (hn ▸ hs)

/-- A column that is not there is renamed without failure. -/
theorem exists_renameColumn (hc : cat.Cached schema) {table : String} (newName : String)
    (hn : ¬cat.HasColumn ⟨schema, table⟩ col) :
    ∃ other, cat.after? (Script.renameColumn ⟨schema, table⟩ col newName).commands =
      some other := by
  have ht : changed cat.types (·.isOf table col)
      ({ · with column := newName }) = cat.types := by
    refine changed_of_forall_false fun row hr => Bool.eq_false_iff.2 fun hi => ?_
    obtain ⟨rfl, rfl⟩ : row.table = table ∧ row.column = col := by
      simpa [TypeRow.isOf] using hi
    exact hn (hc.existing row hr)
  refine ⟨_, after?_renameColumn.2 ⟨?_, rfl⟩⟩
  rw [columnRenamed, ht]
  exact hc.distinct

/-- Where a column that is not there is renamed, its row shows the old name. -/
theorem newName_of_folded_eq (hno : ¬cat.HasColumn place col) (hs : cat.HasColumn place recorded)
    (ho : cat.after? (Script.renameColumn place col newName).commands = some other)
    (ha : cat.after? (Script.renameColumn place recorded newName).commands = some after)
    (heq : other.stored.folded = after.stored.folded) :
    asciiUpper newName = asciiUpper recorded := by
  obtain ⟨-, rfl⟩ := after?_renameColumn.1 ho
  obtain ⟨-, rfl⟩ := after?_renameColumn.1 ha
  obtain ⟨row, hro, hi⟩ := exists_isOf hs
  have hn : row.column.name = recorded := (by simpa [ColumnRow.isOf] using hi : _ ∧ _).2
  have hc := congrArg Tables.columns heq
  simp only [columnRenamed, Tables.folded, stored, map_map,
    changed_of_forall_false fun row hro => isOf_eq_false hno hro] at hc
  rw [changed, map_map] at hc
  have hr := map_inj_left.1 hc row hro
  simp only [Function.comp_apply, hi, if_true] at hr
  rw [← hn]
  exact (folded_renamed_column row newName).1 hr.symm

end Spelled

end Catalog

/-- A change leads to the catalog that it leads to with the recorded names of columns and indexes,
up to the case of names, exactly if it has those names, or renames a column to what it is called
already, up to case. -/
theorem follow_folded_iff {schema : String} {tables after : Tables} {change : CatalogChange}
    (h : Follows schema tables)
    (hafter : (change.resolved schema tables).follow schema tables = .ok ((), after)) :
    (∃ other, change.follow schema tables = .ok ((), other) ∧ other.folded = after.folded) ↔
      change.resolved schema tables = change ∨ change.KeepsName := by
  by_cases hsame : change.resolved schema tables = change
  · rw [hsame] at hafter
    exact iff_of_true ⟨after, hafter, rfl⟩ (.inl hsame)
  obtain ⟨catalog, rfl, hcached⟩ := h.exists_cached
  obtain ⟨-, next, hnext, rfl⟩ := Script.perform_stored_eq_ok.1 hafter
  rw [or_iff_right hsame]
  cases change with
  | createTable _ | addColumn _ _ | renameTable _ _ | dropTable _ => exact absurd rfl hsame
  | dropColumn table column =>
    obtain hspelled | ⟨hnone, hsome, -⟩ :=
      spelling_cases (catalog.stored.columnNames ⟨schema, table⟩) column
    · exact absurd (congrArg (CatalogChange.dropColumn table) hspelled) hsame
    · refine iff_of_false ?_ id
      rintro ⟨_, hdone, heq⟩
      obtain ⟨-, other, hother, rfl⟩ := Script.perform_stored_eq_ok.1 hdone
      exact Catalog.folded_dropColumn_ne (mt Catalog.mem_columnNames.2 hnone)
        (Catalog.mem_columnNames.1 hsome) hother hnext heq
  | dropIndex table index =>
    obtain hspelled | ⟨hnone, hsome, -⟩ :=
      spelling_cases (catalog.stored.indexNames ⟨schema, table⟩) index
    · exact absurd (congrArg (CatalogChange.dropIndex table) hspelled) hsame
    · refine iff_of_false ?_ id
      rintro ⟨_, hdone, heq⟩
      obtain ⟨-, other, hother, rfl⟩ := Script.perform_stored_eq_ok.1 hdone
      exact Catalog.folded_dropIndex_ne (mt Catalog.mem_indexNames.2 hnone)
        (Catalog.mem_indexNames.1 hsome) hother hnext heq
  | addIndex table index =>
    refine iff_of_false ?_ id
    rintro ⟨_, hdone, heq⟩
    obtain ⟨-, other, hother, rfl⟩ := Script.perform_stored_eq_ok.1 hdone
    refine Catalog.folded_addIndex_ne (fun part _ => ?_) (fun hparts => hsame ?_) hother hnext heq
    · obtain hspelled | ⟨hnone, hsome, -⟩ :=
        spelling_cases (catalog.stored.columnNames ⟨schema, table⟩) part.column
      · exact .inl (by rw [hspelled])
      · exact .inr ⟨mt Catalog.mem_columnNames.2 hnone, Catalog.mem_columnNames.1 hsome⟩
    · rw [CatalogChange.resolved, hparts]
  | renameColumn table column newName =>
    obtain hspelled | ⟨hnone, hsome, hupper⟩ :=
      spelling_cases (catalog.stored.columnNames ⟨schema, table⟩) column
    · exact absurd (congrArg (CatalogChange.renameColumn table · newName) hspelled) hsame
    replace hnone := mt Catalog.mem_columnNames.2 hnone
    constructor
    · rintro ⟨_, hdone, heq⟩
      obtain ⟨-, other, hother, rfl⟩ := Script.perform_stored_eq_ok.1 hdone
      have hnew := Catalog.newName_of_folded_eq hnone (Catalog.mem_columnNames.1 hsome) hother hnext
        heq
      exact beq_iff_eq.2 (hnew.trans hupper)
    · intro hequal
      replace hequal : asciiUpper newName = asciiUpper column := eq_of_beq hequal
      obtain ⟨other, hother⟩ := Catalog.exists_renameColumn hcached newName hnone
      refine ⟨other.stored, Script.perform_stored_eq_ok.2 ⟨rfl, other, hother, rfl⟩, ?_⟩
      rw [Catalog.folded_renameColumn hequal hother,
        Catalog.folded_renameColumn (hequal.trans hupper.symm) hnext]

/-- A column keeps its name where another spelling of it is renamed to a third. -/
theorem follow_folded_iff_renamed : ∃ tables after, Follows "d" tables ∧
    (CatalogChange.renameColumn "t" "Foo" "FOO").follow "d" tables = .ok ((), after) ∧
    after.columns.map (·.value? "column_name") = [some (.text "FOO"), some (.text "b")] ∧
    ∃ other, (CatalogChange.renameColumn "t" "foo" "FOO").follow "d" tables = .ok ((), other) ∧
      other.folded = after.folded := by
  have hfollows := @Follows.ofCreateTable "d" _ (.ofTable "t" ["Foo", "b"] [])
    (Script.perform_stored _ {})
  refine ⟨_, _, hfollows, Script.perform_stored _ _, by decide, ?_⟩
  exact (@follow_folded_iff "d" _ _ (.renameColumn "t" "foo" "FOO") hfollows
    (Script.perform_stored _ _)).2 (.inr rfl)

/-- A column that is dropped by another spelling stays in the catalog. -/
theorem dropColumn_other_case : ∃ tables after other, Follows "d" tables ∧
    tables.HasColumn ⟨"d", "t"⟩ "Foo" ∧ equalsIgnoringCase "foo" "Foo" = true ∧
    (CatalogChange.dropColumn "t" "Foo").follow "d" tables = .ok ((), after) ∧
    (CatalogChange.dropColumn "t" "foo").follow "d" tables = .ok ((), other) ∧
    other = tables ∧ other.folded ≠ after.folded := by
  refine ⟨_, _, _, @Follows.ofCreateTable "d" _ (.ofTable "t" ["Foo", "b"] [])
    (Script.perform_stored _ {}), by decide, by decide, Script.perform_stored _ _,
      Script.perform_stored _ _, rfl, fun heq => ?_⟩
  have hlength := congrArg (List.length ∘ Tables.columns) heq
  revert hlength
  decide

end SqlBridge
