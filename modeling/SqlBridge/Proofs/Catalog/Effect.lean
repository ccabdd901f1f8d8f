/-
The catalog by what its rows are about, and what each command does to it.

* `Catalog` has a typed row for each row of the four tables; `Catalog.stored` writes them out.
* `Command.effect` says what a command does to the typed rows.
* `Command.run_query`: the query of a command does just that to the written rows.
-/
import SqlBridge.Proofs.Catalog.Meaning

namespace SqlBridge

open List

/-! ### Rows -/

structure ColumnRow where
  place : Place
  ordinal : Int64
  column : Column

structure PartRow where
  place : Place
  part : IndexRow

structure TypeRow where
  table : String
  column : String
  type : String
deriving DecidableEq

def ColumnRow.record (row : ColumnRow) : Record := row.column.values row.place row.ordinal

def PartRow.record (row : PartRow) : Record := row.part.values row.place

def TypeRow.record (row : TypeRow) : Record :=
  [("table", .text row.table), ("column_or_index", .text row.column),
    ("mysql_type", .text row.type)]

structure Catalog where
  tables : List TableRow := []
  columns : List ColumnRow := []
  parts : List PartRow := []
  types : List TypeRow := []

/-- The tables of the catalog as they are written. -/
def Catalog.stored (catalog : Catalog) : Tables where
  tables := catalog.tables.map TableRow.values
  columns := catalog.columns.map ColumnRow.record
  statistics := catalog.parts.map PartRow.record
  cache := catalog.types.map TypeRow.record

/-- Whether a row is about a column of a table. -/
def ColumnRow.isOf (place : Place) (col : String) (row : ColumnRow) : Bool :=
  row.place = place && row.column.name = col

def PartRow.isOf (place : Place) (col : String) (row : PartRow) : Bool :=
  row.place = place && row.part.column = col

/-- Whether a row is about a column of an index. -/
def PartRow.isIn (place : Place) (index : String) (row : PartRow) : Bool :=
  row.place = place && row.part.index = index

def TypeRow.isOf (table col : String) (row : TypeRow) : Bool :=
  row.table = table && row.column = col

/-! ### Effects -/

namespace Catalog

/-- The greatest of some positions. -/
def greatest? : List Int64 → Option Int64
  | [] => none
  | position :: rest =>
    match greatest? rest with
    | none => some position
    | some found => some (if found > position then found else position)

/-- The position after those of a table's columns, if it is a 64-bit integer. -/
def nextOrdinal? (catalog : Catalog) (place : Place) : Option Int64 :=
  match greatest? ((catalog.columns.filter (·.place = place)).map (·.ordinal)) with
  | none => some 1
  | some ordinal => if ordinal < Int64.maxValue then some (ordinal + 1) else none

/-- The method of an index that is added to a table. -/
def methodOf (catalog : Catalog) (place : Place) (index : Index) (leading : String) :
    IndexMethod :=
  index.method ((catalog.columns.find? (·.isOf place leading)).any (·.column.dataType.isSpatial))

/-- The rows of an index part that is added, one for each column of its name. -/
def addedParts (catalog : Catalog) (place : Place) (index : Index) (leading : String)
    (position : Int64) (part : KeyPart) : List PartRow :=
  (catalog.columns.filter (·.isOf place part.column)).map fun row =>
    ⟨place, { Script.indexRow index (catalog.methodOf place index leading) (some row.column) 0 part
      with position }⟩

/-- The key of a column that is given another. -/
def promoted (old new : ColumnKey) : ColumnKey :=
  if old = .primary || new = .primary then .primary
  else if old = .unique || new = .unique then .unique
  else .multiple

/-- The index parts that a column leads, those of one index apart. -/
def otherLeads (catalog : Catalog) (index : String) (row : ColumnRow) : List PartRow :=
  catalog.parts.filter fun part =>
    part.isOf row.place row.column.name && part.part.position = 1 && part.part.index != index

/-- The key of a column by the indexes it leads. -/
def keyOfParts (parts : List PartRow) : ColumnKey :=
  if parts.isEmpty then .none
  else if parts.any (·.part.index = "PRIMARY") then .primary
  else if parts.any (·.part.unique) then .unique
  else .multiple

/-- Whether an index leads with a column. -/
def isLed (catalog : Catalog) (place : Place) (index : String) (row : ColumnRow) : Bool :=
  catalog.parts.any fun part =>
    part.isIn place index && part.part.position = 1 && part.part.column = row.column.name

/-- Whether the key of a column is computed again without an index. -/
def isRecomputed (catalog : Catalog) (place : Place) (index : String) (row : ColumnRow) : Bool :=
  row.place = place && row.column.key != .primary && catalog.isLed place index row

/-- Whether a row stands after a column of its table. -/
def isAfterColumn (catalog : Catalog) (place : Place) (col : String) (row : ColumnRow) : Bool :=
  row.place = place &&
    (catalog.columns.find? (·.isOf place col)).any (·.ordinal < row.ordinal)

/-- Whether an index part stands after a column of its index. -/
def isAfterPart (catalog : Catalog) (place : Place) (col : String) (row : PartRow) : Bool :=
  row.place = place &&
    (catalog.parts.find? fun other =>
      other.isIn row.place row.part.index && other.part.column = col).any
      (·.part.position < row.part.position)

/-- No two cached types are about one column. -/
abbrev DifferentTypes (types : List TypeRow) : Prop :=
  types.Pairwise fun row other => row.isOf other.table other.column = false

/-- The catalog with other rows in its cache, if no two are about one column. -/
def withTypes? (catalog : Catalog) (types : List TypeRow) : Option Catalog :=
  if DifferentTypes types then some { catalog with types } else none

end Catalog

/-- Some rows with a change to those that meet a condition. -/
def changed {ρ : Type} (rows : List ρ) (cond : ρ → Bool) (change : ρ → ρ) : List ρ :=
  rows.map fun row => if cond row then change row else row

/-- What a command does to the catalog. -/
@[simp]
def Command.effect (catalog : Catalog) : Command → Option Catalog
  | .createRegister _ | .createCache => some catalog
  | .recordTable row => some { catalog with tables := catalog.tables ++ [row] }
  | .recordColumn place ordinal col =>
    some { catalog with columns := catalog.columns ++ [⟨place, ordinal, col⟩] }
  | .appendColumn place col => do
    let ordinal ← catalog.nextOrdinal? place
    return { catalog with columns := catalog.columns ++ [⟨place, ordinal, col⟩] }
  | .recordIndexPart place row =>
    some { catalog with parts := catalog.parts ++ [⟨place, row⟩] }
  | .addIndexPart place index leading position part =>
    some { catalog with
      parts := catalog.parts ++ catalog.addedParts place index leading position part }
  | .promoteKey place col key =>
    some { catalog with
      columns := changed catalog.columns (·.isOf place col) fun row =>
        { row with column.key := Catalog.promoted row.column.key key } }
  | .recomputeKeys place index =>
    -- the indexes that a column leads are counted
    if ∀ row ∈ catalog.columns, catalog.isRecomputed place index row →
        (catalog.otherLeads index row).length ≤ Int64.maxValue.toInt then
      some { catalog with
        columns := changed catalog.columns (catalog.isRecomputed place index) fun row =>
          { row with column.key := Catalog.keyOfParts (catalog.otherLeads index row) } }
    else none
  | .closeOrdinalGap place col =>
    some { catalog with
      columns := changed catalog.columns (catalog.isAfterColumn place col) fun row =>
        { row with ordinal := row.ordinal - 1 } }
  | .closeIndexGaps place col =>
    some { catalog with
      parts := changed catalog.parts (catalog.isAfterPart place col) fun row =>
        { row with part.position := row.part.position - 1 } }
  | .forgetTable .tables place =>
    some { catalog with tables := catalog.tables.filter (·.place ≠ place) }
  | .forgetTable .columns place =>
    some { catalog with columns := catalog.columns.filter (·.place ≠ place) }
  | .forgetTable .statistics place =>
    some { catalog with parts := catalog.parts.filter (·.place ≠ place) }
  -- a row of a table says nothing about a column
  | .forgetColumn .tables _ _ | .renameColumn .tables _ _ _ =>
    if catalog.tables.isEmpty then some catalog else none
  | .forgetColumn .columns place col =>
    some { catalog with columns := catalog.columns.filter (!·.isOf place col) }
  | .forgetColumn .statistics place col =>
    some { catalog with parts := catalog.parts.filter (!·.isOf place col) }
  | .forgetIndex place index =>
    some { catalog with parts := catalog.parts.filter (!·.isIn place index) }
  | .renameTable .tables place newName =>
    some { catalog with
      tables := changed catalog.tables (·.place = place) ({ · with place.table := newName }) }
  | .renameTable .columns place newName =>
    some { catalog with
      columns := changed catalog.columns (·.place = place) ({ · with place.table := newName }) }
  | .renameTable .statistics place newName =>
    some { catalog with
      parts := changed catalog.parts (·.place = place) ({ · with place.table := newName }) }
  | .renameColumn .columns place col newName =>
    some { catalog with
      columns := changed catalog.columns (·.isOf place col) ({ · with column.name := newName }) }
  | .renameColumn .statistics place col newName =>
    some { catalog with
      parts := changed catalog.parts (·.isOf place col) ({ · with part.column := newName }) }
  | .cacheType table col type =>
    some { catalog with
      types := catalog.types.filter (!·.isOf table col) ++ [⟨table, col, type⟩] }
  | .uncacheTable table =>
    some { catalog with types := catalog.types.filter (·.table ≠ table) }
  | .uncacheColumn table col =>
    some { catalog with types := catalog.types.filter (!·.isOf table col) }
  | .renameCachedTable table newName =>
    catalog.withTypes? (changed catalog.types (·.table = table) ({ · with table := newName }))
  | .renameCachedColumn table col newName =>
    catalog.withTypes?
      (changed catalog.types (·.isOf table col) ({ · with column := newName }))

/-! ### Lists -/

section Lists

variable {α β γ : Type} {f : α → β} {members : List α}

theorem keep_map {test : β → Option Bool} {p : α → Bool}
    (h : ∀ a ∈ members, test (f a) = some (p a)) :
    keep test (members.map f) = some ((members.filter p).map f) := by
  induction members with
  | nil => rfl
  | cons a rest ih =>
    rw [forall_mem_cons] at h
    rw [map_cons, keep, ih h.2, h.1, filter_cons]
    cases p a <;> rfl

theorem mapM_map {g : β → Option γ} {h : α → γ} (hm : ∀ a ∈ members, g (f a) = some (h a)) :
    (members.map f).mapM g = some (members.map h) := by
  induction members with
  | nil => rfl
  | cons a rest ih =>
    rw [forall_mem_cons] at hm
    rw [map_cons, mapM_cons, hm.1, ih hm.2]
    rfl

theorem keep_map_eq_none {test : β → Option Bool} {a : α} (ha : a ∈ members)
    (hn : test (f a) = none) : keep test (members.map f) = none := by
  induction members with
  | nil => cases ha
  | cons b rest ih =>
    rw [map_cons, keep]
    rcases mem_cons.1 ha with rfl | hr
    · rw [hn]
      cases keep test (rest.map f) <;> rfl
    · rw [ih hr]
      rfl

theorem mapM_map_eq_none {g : β → Option γ} {a : α} (ha : a ∈ members) (hn : g (f a) = none) :
    (members.map f).mapM g = none := by
  induction members with
  | nil => cases ha
  | cons b rest ih =>
    rw [map_cons, mapM_cons]
    rcases mem_cons.1 ha with rfl | hr
    · rw [hn]
      rfl
    · rw [ih hr]
      cases g (f b) <;> rfl

end Lists

/-! ### Conditions -/

section Conditions

variable {tables : Tables} {scope group : List Bindings}

@[simp] theorem Value.holds?_ofBool (truth : Bool) : (Value.ofBool truth).holds? = some truth := by
  cases truth <;> rfl

namespace Term

variable {left right : Term} {a b : String}

theorem eval_operation {op : Operator} {a b : Value}
    (hl : left.eval tables scope group = some a) (hr : right.eval tables scope group = some b) :
    (operation op left right).eval tables scope group = op.apply a b := by
  rw [eval, hl, hr]
  rfl

theorem eval_equals_text (hl : left.eval tables scope group = some (.text a))
    (hr : right.eval tables scope group = some (.text b)) :
    (left.equals right).eval tables scope group = some (.ofBool (a = b)) :=
  eval_operation hl hr

theorem eval_equals_integer {a b : Int64} (hl : left.eval tables scope group = some (.integer a))
    (hr : right.eval tables scope group = some (.integer b)) :
    (left.equals right).eval tables scope group = some (.ofBool (a = b)) :=
  eval_operation hl hr

theorem eval_unequal_text (hl : left.eval tables scope group = some (.text a))
    (hr : right.eval tables scope group = some (.text b)) :
    (operation .unequal left right).eval tables scope group = some (.ofBool (a != b)) :=
  eval_operation hl hr

theorem eval_and {a b : Bool} (hl : left.eval tables scope group = some (.ofBool a))
    (hr : right.eval tables scope group = some (.ofBool b)) :
    (left.and right).eval tables scope group = some (.ofBool (a && b)) := by
  refine (eval_operation hl hr).trans ?_
  cases a <;> cases b <;> rfl

/-- Whether a condition holds. -/
def holds? (tables : Tables) (scope : List Bindings) (cond : Term) : Option Bool :=
  (cond.eval tables scope []).bind Value.holds?

theorem holds?_of_eval {cond : Term} {truth : Bool}
    (h : cond.eval tables scope [] = some (.ofBool truth)) :
    cond.holds? tables scope = some truth := by
  rw [holds?, h, Option.bind_some, Value.holds?_ofBool]

/-- A conjunction with a null does not hold. -/
theorem holds?_and {a : Bool} {truth : Option Bool}
    (hl : left.eval tables scope [] = some (.ofBool a))
    (hr : right.eval tables scope [] = some (.ofTruth truth)) :
    (left.and right).holds? tables scope = some (a && truth == some true) := by
  rw [holds?, and, eval_operation hl hr]
  rcases truth with _ | _ | _ <;> cases a <;> rfl

theorem eval_or {a b : Bool} (hl : left.eval tables scope group = some (.ofBool a))
    (hr : right.eval tables scope group = some (.ofBool b)) :
    (left.or right).eval tables scope group = some (.ofBool (a || b)) := by
  refine (eval_operation hl hr).trans ?_
  cases a <;> cases b <;> rfl

theorem eval_isText {term : Term} (text : String)
    (h : term.eval tables scope group = some (.text a)) :
    (term.isText text).eval tables scope group = some (.ofBool (a = text)) :=
  eval_equals_text h rfl

theorem eval_has {source : Option String} {col : String} (value : String)
    (h : column? scope source col = some (.text a)) :
    (has source col value).eval tables scope group = some (.ofBool (a = value)) :=
  eval_equals_text (by rw [eval_column, h]) rfl

theorem eval_agrees {source other col : String}
    (hs : column? scope (some source) col = some (.text a))
    (ho : column? scope (some other) col = some (.text b)) :
    (agrees source other col).eval tables scope group = some (.ofBool (a = b)) :=
  eval_equals_text (by rw [eval_column, hs]) (by rw [eval_column, ho])

end Term

theorem Branches.eval_branch {cond result : Term} {rest : Branches} {truth : Bool}
    (h : cond.eval tables scope group = some (.ofBool truth)) :
    (Branches.branch cond result rest).eval tables scope group =
      if truth then result.eval tables scope group else rest.eval tables scope group := by
  simp [Branches.eval_cons, h]

namespace Place

variable {source : Option String} {p : Place}

theorem decide_eq_and (p place : Place) :
    (decide (p.schema = place.schema) && decide (p.table = place.table)) =
      decide (p = place) := by
  rw [← Bool.decide_and]
  refine decide_eq_decide.2 ?_
  rw [mk.injEq]

/-- A row of a table meets the condition of a place if it is about that place. -/
theorem eval_condition (place : Place)
    (hs : column? scope source "table_schema" = some (.text p.schema))
    (ht : column? scope source "table_name" = some (.text p.table)) :
    (place.condition source).eval tables scope group = some (.ofBool (p = place)) := by
  rw [← decide_eq_and]
  exact Term.eval_and (Term.eval_has _ hs) (Term.eval_has _ ht)

theorem eval_columnCondition {name : String} (place : Place) (col : String)
    (hs : column? scope source "table_schema" = some (.text p.schema))
    (ht : column? scope source "table_name" = some (.text p.table))
    (hn : column? scope source "column_name" = some (.text name)) :
    (place.columnCondition source col).eval tables scope group =
      some (.ofBool (p = place && name = col)) :=
  Term.eval_and (eval_condition place hs ht) (Term.eval_has _ hn)

/-- Two rows agree on their places if they are about the same one. -/
theorem eval_agrees {first second : String} {q : Place}
    (hs : column? scope (some first) "table_schema" = some (.text p.schema))
    (hs' : column? scope (some second) "table_schema" = some (.text q.schema))
    (ht : column? scope (some first) "table_name" = some (.text p.table))
    (ht' : column? scope (some second) "table_name" = some (.text q.table)) :
    ((Term.agrees first second "table_schema").and (.agrees first second "table_name")).eval
      tables scope group = some (.ofBool (p = q)) := by
  rw [← decide_eq_and]
  exact Term.eval_and (Term.eval_agrees hs hs') (Term.eval_agrees ht ht')

end Place

end Conditions

/-! ### Queries on typed rows -/

namespace Query

variable {tables : Tables} {ρ : Type} {record : ρ → Record} {rows : List ρ} {p : ρ → Bool}
  {table col : String} {value cond : Term}

section

variable (hg : tables.get? table = some (rows.map record))
include hg

theorem run_delete
    (h : ∀ row ∈ rows, cond.eval tables [[(table, record row)]] [] = some (.ofBool (p row))) :
    (delete table cond).run tables =
      some (tables.set table ((rows.filter (!p ·)).map record)) := by
  rw [run, hg]
  simp only [Option.bind_eq_bind, Option.bind_some]
  rw [keep_map (p := (!p ·)) fun row hr => by simp [h row hr]]
  rfl

/-- An update changes the rows that meet its condition, if the keys allow it. -/
theorem run_update {change : ρ → ρ}
    (h : ∀ row ∈ rows, cond.holds? tables [[(table, record row)]] = some (p row))
    (hv : ∀ row ∈ rows, p row →
      (value.eval tables [[(table, record row)]] []).map (Record.replaced col · (record row)) =
        some (record (change row))) :
    (update table col value cond).run tables =
      store? tables table ((changed rows p change).map record) := by
  rw [run, hg, changed, map_map]
  simp only [Option.bind_eq_bind, Option.bind_some]
  rw [mapM_map (h := record ∘ fun row => if p row then change row else row), Option.bind_some]
  intro row hr
  obtain ⟨truth, ht, hh⟩ := Option.bind_eq_some_iff.1 (h row hr)
  rw [ht, Option.bind_some, hh]
  cases hp : p row with
  | false => simp [hp]
  | true =>
    have hn := hv row hr hp
    cases hv : value.eval tables [[(table, record row)]] [] with
    | none =>
      rw [hv] at hn
      cases hn
    | some new =>
      rw [hv] at hn
      simpa [hp] using hn

/-- An update fails if it has no value for a row that meets its condition. -/
theorem run_update_eq_none {row : ρ}
    (hr : row ∈ rows) (h : cond.holds? tables [[(table, record row)]] = some true)
    (hv : value.eval tables [[(table, record row)]] [] = none) :
    (update table col value cond).run tables = none := by
  obtain ⟨truth, ht, hh⟩ := Option.bind_eq_some_iff.1 h
  rw [run, hg]
  simp only [Option.bind_eq_bind, Option.bind_some]
  rw [mapM_map_eq_none hr, Option.bind_none]
  rw [ht, Option.bind_some, hh, Option.bind_some, if_pos rfl, hv, Option.bind_none]

end

/-- A table without a key takes any rows. -/
theorem store?_keyless (hk : Tables.keyColumns table = []) (records : List Record) :
    store? tables table records = some (tables.set table records) := by
  rw [store?, if_pos]
  rw [hk]
  exact pairwise_of_forall fun _ _ => rfl

theorem record?_bound {scope : List Bindings} (row : Record) :
    record? tables scope (row.map fun entry => (entry.1, .bound entry.2)) = some row := by
  rw [record?, mapM_map (h := id) fun entry _ => by simp [Term.eval_bound], map_id]

end Query

end SqlBridge
