/-
What scripts do to the catalog.

* `Catalog.after?` carries out commands on the typed rows; `Script.perform_stored` says that a
  script on the written rows does the same.
* The rows that a new table and a new index bring (`after?_createTable`, `after?_addIndexParts`).
-/
import SqlBridge.Proofs.Catalog.Agreement

namespace SqlBridge

open List

/-- The catalog after some commands, unless one of them fails. -/
def Catalog.after? (catalog : Catalog) (commands : List Command) : Option Catalog :=
  commands.foldlM Command.effect catalog

theorem Catalog.after?_append (cat : Catalog) (commands more : List Command) :
    cat.after? (commands ++ more) = (cat.after? commands).bind (·.after? more) :=
  foldlM_append

theorem Command.forM_perform (commands : List Command) (cat : Catalog) :
    commands.forM (m := StateT Tables (Except Error)) Command.perform cat.stored =
      match cat.after? commands with
      | some after => .ok ((), after.stored)
      | none => .error (.storage ⟨none, "query failed"⟩) := by
  induction commands generalizing cat with
  | nil => rfl
  | cons cmd rest ih =>
    rw [Catalog.after?, foldlM_cons]
    show (Command.perform cmd cat.stored >>= fun done => rest.forM Command.perform done.2) = _
    rw [Command.perform, Command.run_query]
    cases cmd.effect cat with
    | none => rfl
    | some next => exact ih next

/-- A script on the tables of the catalog does what its commands do to the typed rows. -/
theorem Script.perform_stored (script : Script) (cat : Catalog) :
    script.perform Command.perform cat.stored =
      match cat.after? script.commands, script.failure with
      | none, _ => .error (.storage ⟨none, "query failed"⟩)
      | some _, some error => .error error
      | some after, none => .ok ((), after.stored) := by
  have hb (next : StateT Tables (Except Error) Unit) :
      (script.commands.forM Command.perform >>= fun _ => next) cat.stored =
        script.commands.forM Command.perform cat.stored >>= fun done => next done.2 := rfl
  rw [perform, hb, Command.forM_perform]
  cases cat.after? script.commands with
  | none => rfl
  | some after => cases script.failure <;> rfl

/-- The commands that add an index other than the primary key. -/
theorem Script.commands_addIndex {place : Place} {index : Index} {leading : KeyPart}
    {rest : List KeyPart} (hp : index.parts = leading :: rest)
    (hs : index.kind ≠ .primary) :
    (addIndex place index).commands =
      (index.parts.mapIdx fun i part =>
        .addIndexPart place index leading.column (Int64.ofNat (i + 1)) part) ++
      [.promoteKey place leading.column (keyOfIndex index)] := by
  have hk : keyedParts index = [leading] := by
    rw [keyedParts, if_neg hs, hp]
    rfl
  rw [addIndex, hk]
  split
  · rename_i hn
    rw [hn] at hp
    cases hp
  · rename_i first others hc
    rw [hc] at hp
    cases hp
    rfl

namespace Catalog

variable (cat : Catalog)

/-- The rows of the columns of a new table. -/
def columnRows (place : Place) (columns : List Column) : List ColumnRow :=
  columns.mapIdx fun i column => ⟨place, Int64.ofNat (i + 1), column⟩

/-- The cache with the types of some columns of a table. -/
def cachedTypes (table : String) (types : List TypeRow) : List Column → List TypeRow
  | [] => types
  | column :: rest =>
    cachedTypes table (types.filter (!·.isOf table column.name) ++
      [⟨table, column.name, column.columnType⟩]) rest

theorem after?_recordColumns (place : Place) (cols : List Column) (ordinal : Nat → Int64) :
    cat.after? (cols.mapIdx fun i col => .recordColumn place (ordinal i) col) = some
      { cat with
        columns := cat.columns ++ cols.mapIdx fun i col => ⟨place, ordinal i, col⟩ } := by
  induction cols generalizing cat ordinal with
  | nil => simp [after?]
  | cons col rest ih =>
    rw [mapIdx_cons, after?, foldlM_cons]
    refine (ih _ fun i => ordinal (i + 1)).trans ?_
    simp [mapIdx_cons]

theorem after?_recordIndexParts (place : Place) (rows : List IndexRow) :
    cat.after? (rows.map (.recordIndexPart place)) = some
      { cat with parts := cat.parts ++ rows.map fun row => ⟨place, row⟩ } := by
  induction rows generalizing cat with
  | nil => simp [after?]
  | cons row rest ih =>
    rw [map_cons, after?, foldlM_cons]
    refine (ih _).trans ?_
    simp

theorem after?_cacheTypes (table : String) (cols : List Column) : cat.after? (cols.map fun col =>
      .cacheType table col.name col.columnType) = some
      { cat with types := cachedTypes table cat.types cols } := by
  induction cols generalizing cat with
  | nil => rfl
  | cons col rest ih =>
    rw [map_cons, after?, foldlM_cons]
    exact ih _

/-- The catalog after a table and its columns are recorded. -/
theorem after?_recordTable (row : TableRow) (cols : List Column) : cat.after? (.recordTable row ::
      cols.mapIdx fun i col => .recordColumn row.place (Int64.ofNat (i + 1)) col) = some
      { cat with
        tables := cat.tables ++ [row]
        columns := cat.columns ++ columnRows row.place cols } :=
  after?_recordColumns { cat with tables := cat.tables ++ [row] } row.place cols _

/-- The catalog with a new table. -/
def created (catalog : Catalog) (row : TableRow) (columns : List Column) (rows : List IndexRow) :
    Catalog where
  tables := catalog.tables ++ [row]
  columns := catalog.columns ++ columnRows row.place columns
  parts := catalog.parts ++ rows.map fun part => ⟨row.place, part⟩
  types := cachedTypes row.place.table catalog.types columns

theorem after?_createTable (row : TableRow) (cols : List Column) (rows : List IndexRow) :
    cat.after? (.recordTable row ::
      (cols.mapIdx fun i col => .recordColumn row.place (Int64.ofNat (i + 1)) col) ++
      rows.map (.recordIndexPart row.place) ++
      cols.map fun col => .cacheType row.place.table col.name col.columnType) =
      some (cat.created row cols rows) := by
  rw [after?_append, after?_append, after?_recordTable, Option.bind_some,
    after?_recordIndexParts, Option.bind_some]
  exact after?_cacheTypes _ _ cols

theorem after?_addIndexParts (place : Place) (index : Index) (leading : String)
    (parts : List KeyPart) (pos : Nat → Int64) :
    cat.after? (parts.mapIdx fun i part =>
      .addIndexPart place index leading (pos i) part) = some
      { cat with
        parts := cat.parts ++ (parts.mapIdx fun i part =>
          cat.addedParts place index leading (pos i) part).flatten } := by
  induction parts generalizing cat pos with
  | nil => simp [after?]
  | cons part rest ih =>
    rw [mapIdx_cons, after?, foldlM_cons]
    refine (ih _ fun i => pos (i + 1)).trans ?_
    rw [mapIdx_cons, flatten_cons, ← append_assoc]
    rfl

/-- The catalog with one more column of a table. -/
def columnAdded (catalog : Catalog) (place : Place) (ordinal : Int64) (col : Column) : Catalog :=
  { catalog with
    columns := catalog.columns ++ [⟨place, ordinal, col⟩]
    types := catalog.types.filter (!·.isOf place.table col.name) ++
      [⟨place.table, col.name, col.columnType⟩] }

section Changes

variable {cat} {next : Catalog} {place : Place} {col newName : String}

theorem after?_appendColumn {col : Column} :
    cat.after? [.appendColumn place col, .cacheType place.table col.name col.columnType] =
      some next ↔ ∃ ordinal, cat.nextOrdinal? place = some ordinal ∧
        cat.columnAdded place ordinal col = next := by
  rw [after?, foldlM_cons, Command.effect]
  cases cat.nextOrdinal? place with
  | none => simp
  | some ordinal => simp [columnAdded, Command.effect]

theorem withTypes?_eq_some {types : List TypeRow} :
    cat.withTypes? types = some next ↔ DifferentTypes types ∧ { cat with types } = next := by
  rw [withTypes?]
  split <;> simp [*]

/-- The catalog with the rows of a table under a new name. -/
def tableRenamed (catalog : Catalog) (place : Place) (newName : String) : Catalog where
  tables := changed catalog.tables (·.place = place) ({ · with place.table := newName })
  columns := changed catalog.columns (·.place = place) ({ · with place.table := newName })
  parts := changed catalog.parts (·.place = place) ({ · with place.table := newName })
  types := changed catalog.types (·.table = place.table) ({ · with table := newName })

/-- The catalog with the rows of a column under a new name. -/
def columnRenamed (catalog : Catalog) (place : Place) (col newName : String) : Catalog where
  tables := catalog.tables
  columns := changed catalog.columns (·.isOf place col) ({ · with column.name := newName })
  parts := changed catalog.parts (·.isOf place col) ({ · with part.column := newName })
  types := changed catalog.types (·.isOf place.table col) ({ · with column := newName })

theorem after?_renameTable : cat.after? (Script.renameTable place newName).commands = some next ↔
    DifferentTypes (cat.tableRenamed place newName).types ∧
      cat.tableRenamed place newName = next := by
  have ha : cat.after? (Script.renameTable place newName).commands = withTypes?
      { cat.tableRenamed place newName with types := cat.types } _ := Option.bind_fun_some _
  rw [ha]
  exact withTypes?_eq_some

theorem after?_renameColumn :
    cat.after? (Script.renameColumn place col newName).commands = some next ↔
      DifferentTypes (cat.columnRenamed place col newName).types ∧
        cat.columnRenamed place col newName = next := by
  have ha : cat.after? (Script.renameColumn place col newName).commands = withTypes?
      { cat.columnRenamed place col newName with types := cat.types } _ := Option.bind_fun_some _
  rw [ha]
  exact withTypes?_eq_some

end Changes

end Catalog

/-! ### Declarations of tables -/

namespace Tree

/-- A name in a declaration. -/
def ofName (name : String) : Tree := .node .identifier [.leaf ⟨.identifier, name, 0⟩]

/-- An index over columns. -/
def ofKey (index : String) (columns : List String) : Tree :=
  .node .tableConstraintDef [.leaf ⟨.keyword .KEY, "KEY", 0⟩, .node .indexName [ofName index],
    .node .keyList (columns.map fun column => .node .keyPart [ofName column])]

/-- A table of columns that are integers, with constraints. -/
def ofTable (table : String) (columns : List String) (constraints : List Tree) : Tree :=
  .node .createTable [.node .tableName [ofName table], .node .tableElementList
    ((columns.map fun column =>
      .node .tableElement [.node .columnDefinition [ofName column,
        .node .fieldDefinition [.node .dataType [.leaf ⟨.keyword .INT, "INT", 0⟩]]]]) ++
    constraints.map fun constraint => .node .tableElement [constraint])]

end Tree

end SqlBridge
