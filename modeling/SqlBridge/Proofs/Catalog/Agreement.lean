/-
The query of a command does to the written rows what the command does to the typed ones.

There is a lemma for each term that reads a table (`eval_nextOrdinal`, `eval_indexMethod`,
`eval_remainingKey`, `eval_ordinalOf`, `eval_positionInIndex`); `Command.run_query` puts them
together.
-/
import SqlBridge.Proofs.Catalog.Effect

namespace SqlBridge

open List

/-! ### Tables -/

/-- One of the tables of the catalog: its typed rows, and how they are written. -/
structure Drawer (ρ : Type) where
  name : String
  record : ρ → Record
  rows : Catalog → List ρ
  put : Catalog → List ρ → Catalog
  get? : ∀ cat, cat.stored.get? name = some ((rows cat).map record)
  set : ∀ cat new, cat.stored.set name (new.map record) = (put cat new).stored

namespace Drawer

abbrev tables : Drawer TableRow where
  name := Register.tables.name
  record := TableRow.values
  rows := Catalog.tables
  put cat rows := { cat with tables := rows }
  get? _ := rfl
  set _ _ := rfl

abbrev columns : Drawer ColumnRow where
  name := Register.columns.name
  record := ColumnRow.record
  rows := Catalog.columns
  put cat rows := { cat with columns := rows }
  get? _ := rfl
  set _ _ := rfl

abbrev statistics : Drawer PartRow where
  name := Register.statistics.name
  record := PartRow.record
  rows := Catalog.parts
  put cat rows := { cat with parts := rows }
  get? _ := rfl
  set _ _ := rfl

abbrev cache : Drawer TypeRow where
  name := typeCache
  record := TypeRow.record
  rows := Catalog.types
  put cat rows := { cat with types := rows }
  get? _ := rfl
  set _ _ := rfl

variable {ρ : Type} (drawer : Drawer ρ) {cat : Catalog} {p : ρ → Bool} {cond : Term}

theorem run_insert (hk : Tables.keyColumns drawer.name = []) {terms : List (String × Term)}
    (row : ρ) (hr : Query.record? cat.stored [] terms = some (drawer.record row)) :
    (Query.insert false drawer.name terms).run cat.stored =
      some (drawer.put cat (drawer.rows cat ++ [row])).stored := by
  rw [← drawer.set, map_append, Query.run, drawer.get?, hr]
  simp [hk, Record.conflicts]

theorem run_delete (h : ∀ row : ρ, cond.eval cat.stored [[(drawer.name, drawer.record row)]] [] =
      some (.ofBool (p row))) :
    (Query.delete drawer.name cond).run cat.stored =
      some (drawer.put cat ((drawer.rows cat).filter (!p ·))).stored := by
  rw [Query.run_delete (drawer.get? cat) fun row _ => h row, drawer.set]

theorem run_update {change : ρ → ρ} {col : String} {value : Term}
    (hk : Tables.keyColumns drawer.name = [])
    (h : ∀ row : ρ, cond.holds? cat.stored [[(drawer.name, drawer.record row)]] = some (p row))
    (hv : ∀ row ∈ drawer.rows cat, p row →
      (value.eval cat.stored [[(drawer.name, drawer.record row)]] []).map
        (Record.replaced col · (drawer.record row)) = some (drawer.record (change row))) :
    (Query.update drawer.name col value cond).run cat.stored =
      some (drawer.put cat (changed (drawer.rows cat) p change)).stored := by
  rw [Query.run_update (drawer.get? cat) (fun row _ => h row) hv, Query.store?_keyless hk,
    drawer.set]

end Drawer

/-! ### Selections -/

section Selections

variable {tables : Tables} {scope : List Bindings} {ρ : Type} {record : ρ → Record} {rows : List ρ}
  {p : ρ → Bool} {source : Source} {value cond : Term} {group : List Bindings}
  (hg : tables.get? source.table = some (rows.map record))
  (hc : ∀ row ∈ rows,
    cond.eval tables ([(source.name, record row)] :: scope) [] = some (.ofBool (p row)))

include hc

/-- The rows that meet the condition of a selection. -/
theorem keep_rows :
    keep (fun bindings => (cond.eval tables (bindings :: scope) []).bind Value.holds?)
      ((rows.map record).map fun row => [(source.name, row)]) =
      some ((rows.filter p).map fun row => [(source.name, record row)]) := by
  rw [map_map]
  exact keep_map fun row hr => by simp [hc row hr]

include hg

/-- A selection has a value for each row that meets its condition. -/
theorem Selection.eval_of_rows {f : ρ → Value} (ha : value.isAggregate = false) (hv : ∀ row ∈ rows,
      value.eval tables ([(source.name, record row)] :: scope) [] = some (f row)) :
    (Selection.mk value source cond).eval tables scope = some ((rows.filter p).map f) := by
  rw [Selection.eval, hg]
  simp only [Option.bind_eq_bind, Option.bind_some, ha]
  rw [keep_rows hc, Option.bind_some]
  exact mapM_map fun row hr => hv row (mem_filter.1 hr).1

/-- The value of a scalar selection is that of the first row, if there is one. -/
theorem Term.eval_scalar_of_rows {f : ρ → Value} (ha : value.isAggregate = false)
    (hv : ∀ row ∈ rows,
      value.eval tables ([(source.name, record row)] :: scope) [] = some (f row)) :
    (Term.scalar (.mk value source cond)).eval tables scope group =
      some (((rows.find? p).map f).getD .null) := by
  rw [Term.eval, Selection.eval_of_rows hg hc ha hv, ← head?_filter,
    ← head?_map]
  simp [headD_eq_head?_getD]

/-- An aggregate is taken over the rows that meet the condition. -/
theorem Term.eval_scalar_of_aggregate (ha : value.isAggregate) :
    (Term.scalar (.mk value source cond)).eval tables scope group =
      value.eval tables scope ((rows.filter p).map fun row => [(source.name, record row)]) := by
  rw [Term.eval, Selection.eval, hg]
  simp only [Option.bind_eq_bind, Option.bind_some, ha]
  rw [keep_rows hc, Option.bind_some]
  cases value.eval tables scope ((rows.filter p).map fun row => [(source.name, record row)]) <;> rfl

end Selections

section Terms

variable {tables : Tables} {scope group : List Bindings} {first second opd : Term} {a b : Value}

theorem Term.eval_coalesce (hf : first.eval tables scope group = some a)
    (hs : second.eval tables scope group = some b) :
    (Term.coalesce first second).eval tables scope group = some (if a.isNull then b else a) := by
  rw [Term.eval, hf, hs]
  cases a <;> rfl

variable {ρ : Type} {rows : List ρ} {bindings : ρ → Bindings} {f : ρ → Value}

theorem Term.eval_maximum
    (h : ∀ row ∈ rows, opd.eval tables (bindings row :: scope) [] = some (f row)) :
    (Term.maximum opd).eval tables scope (rows.map bindings) =
      Value.foremost? (· > ·) (rows.map f) := by
  rw [Term.eval, mapM_map h]
  rfl

theorem Term.eval_minimum
    (h : ∀ row ∈ rows, opd.eval tables (bindings row :: scope) [] = some (f row)) :
    (Term.minimum opd).eval tables scope (rows.map bindings) =
      Value.foremost? (· < ·) (rows.map f) := by
  rw [Term.eval, mapM_map h]
  rfl

end Terms

/-! ### Arithmetic -/

namespace Value

theorem ofInt?_add_one (pos : Int64) :
    ofInt? (pos.toInt + 1) =
      if pos < Int64.maxValue then some (.integer (pos + 1)) else none := by
  have hs : Int64.ofInt (pos.toInt + 1) = pos + 1 := by
    rw [Int64.ofInt_add, Int64.ofInt_toInt]
    rfl
  have hle := pos.le_toInt
  have hl := Int64.lt_iff_toInt_lt (x := pos) (y := Int64.maxValue)
  rw [ofInt?, hs, Int64.toInt_minValue]
  by_cases h : pos < Int64.maxValue
  · have := hl.1 h
    rw [if_pos (by omega), if_pos h]
  · have := mt hl.2 h
    rw [if_neg (by omega), if_neg h]

/-- A position after another can be moved up. -/
theorem ofInt?_sub_one {pos before : Int64} (h : before < pos) :
    ofInt? (pos.toInt - 1) = some (.integer (pos - 1)) := by
  have hd : Int64.ofInt (pos.toInt - 1) = pos - 1 := by
    rw [Int64.ofInt_sub, Int64.ofInt_toInt]
    rfl
  have hle := Int64.lt_iff_toInt_lt.1 h
  have hl := before.le_toInt
  have hm := pos.toInt_lt
  rw [ofInt?, hd, if_pos]
  rw [Int64.toInt_minValue, Int64.toInt_maxValue]
  omega

/-- The greatest of some integers. -/
theorem foremost?_greater (positions : List Int64) :
    foremost? (· > ·) (positions.map .integer) =
      some (.ofOption .integer (Catalog.greatest? positions)) := by
  induction positions with
  | nil => rfl
  | cons pos rest ih =>
    rw [map_cons, foremost?, ih, Catalog.greatest?]
    cases Catalog.greatest? rest with
    | none => rfl
    | some found => simp [ofOption]

/-- The greatest of some truth values tells whether one of them is true. -/
theorem foremost?_greater_ofBool (truths : List Bool) (h : truths ≠ []) :
    foremost? (· > ·) (truths.map .ofBool) = some (.ofBool (truths.any id)) := by
  induction truths with
  | nil => exact absurd rfl h
  | cons truth rest ih =>
    rw [map_cons, foremost?]
    by_cases hr : rest = []
    · subst hr
      cases truth <;> rfl
    · rw [ih hr, any_cons]
      cases truth <;> cases rest.any id <;> rfl

/-- The least of some truth values tells whether all of them are true. -/
theorem foremost?_less_ofBool (truths : List Bool) (h : truths ≠ []) :
    foremost? (· < ·) (truths.map .ofBool) = some (.ofBool (truths.all id)) := by
  induction truths with
  | nil => exact absurd rfl h
  | cons truth rest ih =>
    rw [map_cons, foremost?]
    by_cases hr : rest = []
    · subst hr
      cases truth <;> rfl
    · rw [ih hr, all_cons]
      cases truth <;> cases rest.all id <;> rfl

theorem among?_text (text : String) (texts : List String) :
    (Value.text text).among? (texts.map .text) = some (some (texts.contains text)) := by
  induction texts with
  | nil => rfl
  | cons other rest ih =>
    rw [map_cons, among?, ih, contains_cons]
    have hs : (Value.text text).same? (.text other) = some (some (text == other)) := rfl
    rw [hs]
    cases text == other <;> rfl

end Value

/-! ### Terms that read a table -/

namespace Command

variable {cat : Catalog} {scope group : List Bindings}

theorem eval_nextOrdinal (place : Place) :
    (nextOrdinal place).eval cat.stored scope group =
      (cat.nextOrdinal? place).map .integer := by
  -- the rows about the table
  rw [nextOrdinal, Term.eval_scalar_of_aggregate (Drawer.columns.get? cat)
    (fun row _ => Place.eval_condition place rfl rfl) rfl]
  have hm : (Term.maximum (.column none "ordinal_position")).eval cat.stored scope
      ((cat.columns.filter (·.place = place)).map fun row =>
        [(Register.columns.name, row.record)]) =
      some (.ofOption .integer
        (Catalog.greatest? ((cat.columns.filter (·.place = place)).map (·.ordinal)))) := by
    rw [Term.eval_maximum (f := fun row => .integer row.ordinal) fun row _ => rfl,
      ← Value.foremost?_greater, map_map]
    rfl
  refine (Term.eval_operation (Term.eval_coalesce hm rfl) rfl).trans ?_
  rw [Catalog.nextOrdinal?]
  cases Catalog.greatest? ((cat.columns.filter (·.place = place)).map (·.ordinal)) with
  | none => rfl
  | some ordinal =>
    show Value.ofInt? (ordinal.toInt + 1) = Option.map Value.integer
      (if ordinal < Int64.maxValue then some (ordinal + 1) else none)
    rw [Value.ofInt?_add_one]
    split <;> rfl

theorem contains_spatialTypes (type : TypeName) :
    spatialTypes.contains type.name = type.isSpatial := by
  cases type <;> decide

theorem eval_indexMethod (place : Place) (index : Index) (leading : String) :
    (indexMethod place index leading).eval cat.stored scope group =
      some (.text (cat.methodOf place index leading).name) := by
  -- the type of the first column, if there is one
  have ht : (Term.scalar (.mk (.column none "data_type") ⟨Register.columns.name, none⟩
      (place.columnCondition none leading))).eval cat.stored scope group =
      some (((cat.columns.find? (·.isOf place leading)).map fun row =>
        .text row.column.dataType.name).getD .null) :=
    Term.eval_scalar_of_rows (Drawer.columns.get? cat)
      (fun row _ => Place.eval_columnCondition place leading rfl rfl rfl) rfl fun row _ => rfl
  have hs : (Term.isOneOf (.scalar (.mk (.column none "data_type")
      ⟨Register.columns.name, none⟩ (place.columnCondition none leading))) spatialTypes).eval
      cat.stored scope group = some (.ofTruth
        ((cat.columns.find? (·.isOf place leading)).map (·.column.dataType.isSpatial))) := by
    rw [Term.eval, ht]
    cases cat.columns.find? (·.isOf place leading) with
    | none => rfl
    | some row =>
      simp only [Option.map_some, Option.getD_some, Option.bind_eq_bind, Option.bind_some]
      rw [Value.among?_text, contains_spatialTypes]
      rfl
  have hc : (Term.cases (.branch (.isOneOf (.scalar (.mk (.column none "data_type")
      ⟨Register.columns.name, none⟩ (place.columnCondition none leading))) spatialTypes)
      (.text "SPATIAL") (.otherwise (.text "BTREE")))).eval cat.stored scope group =
      some (.text (if (cat.columns.find? (·.isOf place leading)).any
        (·.column.dataType.isSpatial) then "SPATIAL" else "BTREE")) := by
    rw [Term.eval, Branches.eval, hs]
    cases cat.columns.find? (·.isOf place leading) with
    | none => rfl
    | some row =>
      simp only [Option.map_some, Option.any_some]
      by_cases hr : row.column.dataType.isSpatial
      · rw [if_pos hr, hr]
        rfl
      · rw [if_neg hr, Bool.eq_false_iff.2 hr]
        rfl
  refine (Term.eval_coalesce rfl hc).trans ?_
  rw [Catalog.methodOf, Index.method]
  cases index.explicitMethod? with
  | none =>
    simp only [Option.getD_none]
    cases (cat.columns.find? (·.isOf place leading)).any (·.column.dataType.isSpatial) <;> rfl
  | some method => rfl

/-! ### Rows of index parts -/

section IndexParts

variable {tables : Tables} (index : Index) (method : IndexMethod) (row : ColumnRow)
  (pos : Int64) (part : KeyPart)

/-- The row of a column and the method of an index, as the row of an index part is made from. -/
def partBindings : Bindings := [("c", row.record), ("t", [("index_type", .text method.name)])]

theorem eval_method (text : String) :
    ((Term.column (some "t") "index_type").isText text).eval tables [partBindings method row] [] =
      some (.ofBool (method.name = text)) :=
  Term.eval_isText text rfl

theorem eval_collation :
    (Term.cases (.branch ((Term.column (some "t") "index_type").isText "FULLTEXT") .null
      (.branch (.bound (.ofBool part.descending)) (.text "D") (.otherwise (.text "A"))))).eval
      tables [partBindings method row] [] =
      some (.ofOption .text (if method = .fulltext then none
        else some (if part.descending then "D" else "A"))) := by
  rw [Term.eval, Branches.eval_branch (eval_method method row _), Branches.eval_branch rfl]
  cases method <;> cases part.descending <;> rfl

theorem eval_subPart :
    (Term.cases (.branch (.isNotNull (.bound (.ofOption .integer part.length)))
      (.least (.bound (.ofOption .integer part.length))
        (.coalesce (.column (some "c") "character_maximum_length")
          (.bound (.ofOption .integer part.length))))
      (.branch ((Term.column (some "t") "index_type").isText "SPATIAL") (.number 32)
        .ending))).eval tables [partBindings method row] [] =
      some (.ofOption .integer (Script.indexRow index method (some row.column) 0 part).length) := by
  have hg : (Term.isNotNull (.bound (.ofOption .integer part.length))).eval tables
      [partBindings method row] [] = some (.ofBool part.length.isSome) := by
    cases part.length <;> rfl
  have hm : (Term.column (some "c") "character_maximum_length").eval tables
      [partBindings method row] [] =
      some (.ofOption .integer (row.column.extent.map Extent.characters)) := rfl
  rw [Term.eval, Branches.eval_branch hg, Branches.eval_branch (eval_method method row _),
    Script.indexRow]
  dsimp only
  cases part.length with
  | none => cases method <;> rfl
  | some length =>
    rw [Option.isSome_some, if_pos rfl, Term.eval, Term.eval_coalesce hm rfl]
    cases he : row.column.extent with
    | none =>
      show some (Value.integer (if length ≤ length then length else length)) = _
      rw [ite_self]
      simp [he, Value.ofOption]
    | some extent => simp [he, Value.ofOption, Value.lesser?, Value.isNull, Term.eval]

theorem eval_nullable :
    (Term.cases (.branch ((Term.column (some "c") "is_nullable").isText "YES") (.text "YES")
      (.otherwise (.text "")))).eval tables [partBindings method row] [] =
      some (.text (if row.column.nullable then "YES" else "")) := by
  have hc : (Term.column (some "c") "is_nullable").eval tables [partBindings method row] [] =
      some (.text (if row.column.nullable then "YES" else "NO")) := rfl
  rw [Term.eval, Branches.eval_branch (Term.eval_isText _ hc)]
  cases row.column.nullable <;> rfl

theorem record?_indexPartRow (h : row.column.name = part.column) :
    Query.record? tables [partBindings method row] (indexPartRow index pos part) =
      some (PartRow.record ⟨row.place,
        { Script.indexRow index method (some row.column) 0 part with position := pos }⟩) := by
  simp only [Query.record?, indexPartRow, mapM_cons, mapM_nil, eval_collation,
    eval_subPart index, eval_nullable]
  rw [PartRow.record, IndexRow.values]
  dsimp only
  simp only [Script.indexRow, ← h]
  rfl

end IndexParts

/-! ### Keys -/

theorem eval_promotedKey {tables : Tables} (row : ColumnRow) (key : ColumnKey) :
    (promotedKey key).eval tables [[(Register.columns.name, row.record)]] [] =
      some (.text (Catalog.promoted row.column.key key).name) := by
  have ho (name : String) : ((Term.column none "column_key").isText name).eval tables
      [[(Register.columns.name, row.record)]] [] =
      some (.ofBool (row.column.key.name = name)) := Term.eval_isText name rfl
  have hn (name : String) : ((Term.bound (.text key.name)).isText name).eval tables
      [[(Register.columns.name, row.record)]] [] = some (.ofBool (key.name = name)) :=
    Term.eval_isText name rfl
  rw [promotedKey, Term.eval, Branches.eval_branch (Term.eval_or (ho _) (hn _)),
    Branches.eval_branch (Term.eval_or (ho _) (hn _))]
  cases row.column.key <;> cases key <;> rfl

/-- The rows of the index parts that a column leads. -/
theorem eval_leads (index : String) (row : ColumnRow) (part : PartRow) :
    (((((Term.agrees "s" Register.columns.name "table_schema").and
      (.agrees "s" Register.columns.name "table_name")).and
      (.agrees "s" Register.columns.name "column_name")).and
      ((Term.column (some "s") "seq_in_index").equals (.number 1))).and
      (.operation .unequal (.column (some "s") "index_name") (.bound (.text index)))).eval
      cat.stored ([("s", part.record)] :: [[(Register.columns.name, row.record)]]) group =
      some (.ofBool (part.isOf row.place row.column.name && part.part.position = 1 &&
        part.part.index != index)) :=
  Term.eval_and (Term.eval_and (Term.eval_and
    (Place.eval_agrees (p := part.place) rfl rfl rfl rfl) (Term.eval_agrees rfl rfl))
    (Term.eval_equals_integer rfl rfl)) (Term.eval_unequal_text rfl rfl)

section Leads

variable {tables : Tables} {leads : List PartRow}

/-- An index part, as keys are computed from. -/
def leadBindings (part : PartRow) : Bindings := [("s", part.record)]

theorem eval_noLead (h : leads.length ≤ Int64.maxValue.toInt) :
    (Term.equals .count (.number 0)).eval tables scope (leads.map leadBindings) =
      some (.ofBool leads.isEmpty) := by
  have hc : Term.count.eval tables scope (leads.map leadBindings) =
      some (.integer (Int64.ofInt leads.length)) := by
    rw [Term.eval, length_map, Value.ofInt?, if_pos]
    rw [Int64.toInt_minValue]
    omega
  have hz : Int64.ofInt leads.length = Int64.ofNat 0 ↔ leads = [] := by
    rw [Int64.toInt_maxValue] at h
    rw [← Int64.toInt_inj, Int64.toInt_ofInt_of_le (by omega) (by omega), ← length_eq_zero_iff]
    show (leads.length : Int) = 0 ↔ _
    omega
  rw [Term.eval_equals_integer hc rfl]
  congr 2
  rw [Bool.eq_iff_iff, decide_eq_true_iff, List.isEmpty_iff, hz]

theorem eval_primaryLead (h : leads ≠ []) :
    (Term.equals (.maximum ((Term.column (some "s") "index_name").isText "PRIMARY"))
      (.number 1)).eval tables scope (leads.map leadBindings) =
      some (.ofBool (leads.any (·.part.index = "PRIMARY"))) := by
  have hm : (Term.maximum ((Term.column (some "s") "index_name").isText "PRIMARY")).eval
      tables scope (leads.map leadBindings) =
      some (.ofBool (leads.any (·.part.index = "PRIMARY"))) := by
    rw [Term.eval_maximum (f := fun part => .ofBool (part.part.index = "PRIMARY"))
      fun part _ => Term.eval_isText _ rfl]
    have ha := Value.foremost?_greater_ofBool
      (leads.map fun part => decide (part.part.index = "PRIMARY")) (by simpa using h)
    simpa [map_map, Function.comp_def] using ha
  rw [Term.eval_equals_integer hm rfl]
  cases leads.any (·.part.index = "PRIMARY") <;> rfl

theorem eval_uniqueLead (h : leads ≠ []) :
    (Term.equals (.minimum (.column (some "s") "non_unique")) (.number 0)).eval tables scope
      (leads.map leadBindings) = some (.ofBool (leads.any (·.part.unique))) := by
  have hm : (Term.minimum (.column (some "s") "non_unique")).eval tables scope
      (leads.map leadBindings) = some (.ofBool (leads.all (!·.part.unique))) := by
    rw [Term.eval_minimum (f := fun part => .ofBool (!part.part.unique)) fun part _ => rfl]
    have ha := Value.foremost?_less_ofBool (leads.map fun part => !part.part.unique)
      (by simpa using h)
    simpa [map_map, Function.comp_def] using ha
  rw [Term.eval_equals_integer hm rfl, ← not_any_eq_all_not]
  cases leads.any (·.part.unique) <;> rfl

end Leads

/-- The key of a column is computed from the other indexes it leads, if they can be counted. -/
theorem eval_remainingKey (index : String) (row : ColumnRow) :
    (remainingKey index).eval cat.stored [[(Register.columns.name, row.record)]] [] =
      if (cat.otherLeads index row).length ≤ Int64.maxValue.toInt then
        some (.text (Catalog.keyOfParts (cat.otherLeads index row)).name)
      else none := by
  rw [remainingKey, Term.eval_scalar_of_aggregate (Drawer.statistics.get? cat)
    (fun part _ => eval_leads index row part) rfl]
  show Term.eval _ _ _ ((cat.otherLeads index row).map leadBindings) = _
  generalize cat.otherLeads index row = leads
  split
  · rename_i hc
    rw [Term.eval, Branches.eval_branch (eval_noLead hc)]
    by_cases hl : leads = []
    · subst hl
      rfl
    · rw [Branches.eval_branch (eval_primaryLead hl),
        Branches.eval_branch (eval_uniqueLead hl), Catalog.keyOfParts]
      simp only [List.isEmpty_iff, hl, if_false]
      cases leads.any (·.part.index = "PRIMARY") <;> cases leads.any (·.part.unique) <;> rfl
  · rename_i hm
    have hco : Term.count.eval cat.stored [[(Register.columns.name, row.record)]]
        (leads.map leadBindings) = none := by
      rw [Term.eval, length_map, Value.ofInt?, if_neg]
      omega
    have hn : (Term.equals .count (.number 0)).eval cat.stored
        [[(Register.columns.name, row.record)]] (leads.map leadBindings) = none := by
      rw [Term.equals, Term.eval, hco]
      rfl
    rw [Term.eval, Branches.eval, hn]
    rfl

/-- A column is recomputed if the index leads with it and it is in no primary key. -/
theorem eval_recomputed (place : Place) (index : String) (row : ColumnRow) :
    (((place.condition none).and
      (.operation .unequal (.column none "column_key") (.text "PRI"))).and
      (.isAmong (.column none "column_name") (ledColumns place index))).eval cat.stored
      [[(Register.columns.name, row.record)]] [] =
      some (.ofBool (cat.isRecomputed place index row)) := by
  have hl : (ledColumns place index).eval cat.stored
      [[(Register.columns.name, row.record)]] =
      some (((cat.parts.filter fun part => part.isIn place index && part.part.position = 1).map
        (·.part.column)).map .text) := by
    rw [map_map]
    exact Selection.eval_of_rows (Drawer.statistics.get? cat)
      (fun part _ => Term.eval_and (Term.eval_and (Place.eval_condition place rfl rfl)
        (Term.eval_has index rfl)) (Term.eval_equals_integer rfl rfl)) rfl fun part _ => rfl
  have ha : (Term.isAmong (.column none "column_name") (ledColumns place index)).eval
      cat.stored [[(Register.columns.name, row.record)]] [] =
      some (.ofBool (cat.isLed place index row)) := by
    have hn : (Term.column none "column_name").eval cat.stored
        [[(Register.columns.name, row.record)]] [] = some (.text row.column.name) := rfl
    rw [Term.eval, hn, hl]
    simp only [Option.bind_eq_bind, Option.bind_some]
    rw [Value.among?_text]
    refine congrArg (fun truth => some (Value.ofBool truth)) ?_
    rw [Catalog.isLed, Bool.eq_iff_iff]
    simp [and_assoc]
  have hk : (Term.operation .unequal (.column none "column_key") (.text "PRI")).eval
      cat.stored [[(Register.columns.name, row.record)]] [] =
      some (.ofBool (row.column.key != .primary)) := by
    rw [Term.eval_unequal_text (a := row.column.key.name) rfl rfl]
    cases row.column.key <;> rfl
  exact Term.eval_and (Term.eval_and (Place.eval_condition place rfl rfl) hk) ha

/-! ### Positions -/

theorem eval_ordinalOf (place : Place) (col : String) :
    (ordinalOf place col).eval cat.stored scope group =
      some (((cat.columns.find? (·.isOf place col)).map fun row =>
        .integer row.ordinal).getD .null) :=
  Term.eval_scalar_of_rows (Drawer.columns.get? cat)
    (fun _ _ => Place.eval_columnCondition place col rfl rfl rfl) rfl fun _ _ => rfl

theorem eval_positionInIndex (col : String) (row : PartRow) :
    (positionInIndex col).eval cat.stored [[(Register.statistics.name, row.record)]] [] =
      some (((cat.parts.find? fun other =>
        other.isIn row.place row.part.index && other.part.column = col).map fun other =>
          .integer other.part.position).getD .null) :=
  Term.eval_scalar_of_rows (Drawer.statistics.get? cat)
    (fun other _ => Term.eval_and (Term.eval_and
      (Place.eval_agrees (p := other.place) rfl rfl rfl rfl) (Term.eval_agrees rfl rfl))
      (Term.eval_has col rfl)) rfl fun _ _ => rfl

/-- Rows move up that stand after a position, if there is one. -/
theorem holds?_movingUp {tables : Tables} {first second : Term} {ρ : Type} {found : Option ρ}
    {f : ρ → Int64} {pos : Int64} {p : Place} (place : Place)
    (hp : (place.condition none).eval tables scope [] = some (.ofBool (p = place)))
    (hf : first.eval tables scope [] = some (.integer pos))
    (hs : second.eval tables scope [] =
      some ((found.map fun row => .integer (f row)).getD .null)) :
    ((place.condition none).and (.operation .greater first second)).holds? tables scope =
      some (p = place && found.any fun row => f row < pos) := by
  have hg : (Term.operation .greater first second).eval tables scope [] =
      some (.ofTruth (found.map fun row => decide (f row < pos))) := by
    rw [Term.eval_operation hf hs]
    cases found <;> rfl
  rw [Term.holds?_and hp hg]
  cases found <;> simp

/-! ### The cache -/

theorem conflicts_record (row other : TypeRow) :
    row.record.conflicts (Tables.keyColumns typeCache) other.record =
      row.isOf other.table other.column := by
  show (([some (Value.text row.table), some (.text row.column)] ==
    [some (Value.text other.table), some (.text other.column)]) : Bool) = _
  rw [TypeRow.isOf, Bool.eq_iff_iff]
  simp

theorem store?_cache (types : List TypeRow) :
    Query.store? cat.stored typeCache (types.map TypeRow.record) =
      (cat.withTypes? types).map Catalog.stored := by
  rw [Query.store?, Catalog.withTypes?, Drawer.cache.set]
  simp only [pairwise_map, conflicts_record]
  split <;> rfl

/-! ### Commands -/

/-- The query of a command does to the written rows what the command does to the typed ones. -/
abbrev RunsOn (cmd : Command) (cat : Catalog) : Prop :=
  cmd.query.run cat.stored = (cmd.effect cat).map Catalog.stored

variable (cat) (place : Place) (col newName : String) (reg : Register)

theorem run_appendColumn (col : Column) : (appendColumn place col).RunsOn cat := by
  have hn : (nextOrdinal place).eval cat.stored [] [] =
      (cat.nextOrdinal? place).map .integer := eval_nextOrdinal place
  rw [RunsOn, effect, query, appending]
  cases ho : cat.nextOrdinal? place with
  | none =>
    rw [ho] at hn
    rw [Query.run, Drawer.columns.get? cat]
    simp [Query.record?, Column.values, mapM_cons, Term.eval, hn]
  | some ordinal =>
    rw [ho] at hn
    have hr : Query.record? cat.stored [] ((col.values place 0).map fun entry =>
        (entry.1, if entry.1 == "ordinal_position" then nextOrdinal place
          else .bound entry.2)) = some (col.values place ordinal) := by
      simp [Query.record?, Column.values, mapM_cons, Term.eval, hn]
    exact Drawer.columns.run_insert rfl ⟨place, ordinal, col⟩ hr

theorem run_addIndexPart (index : Index) (leading : String) (pos : Int64) (part : KeyPart) :
    (addIndexPart place index leading pos part).RunsOn cat := by
  have hc : combinations cat.stored [.table ⟨Register.columns.name, some "c"⟩,
      .single (indexMethod place index leading) "index_type" "t"] =
      some (cat.columns.map (partBindings (cat.methodOf place index leading))) := by
    rw [combinations, combinations, combinations, eval_indexMethod, Drawer.columns.get? cat]
    refine congrArg some ?_
    rw [flatMap_map]
    exact (map_eq_flatMap (f := partBindings (cat.methodOf place index leading))).symm
  have hs : keep (fun bindings => ((place.columnCondition (some "c") part.column).eval
      cat.stored [bindings] []).bind Value.holds?)
      (cat.columns.map (partBindings (cat.methodOf place index leading))) =
      some ((cat.columns.filter (·.isOf place part.column)).map
        (partBindings (cat.methodOf place index leading))) := by
    refine keep_map fun row _ => ?_
    have hco : (place.columnCondition (some "c") part.column).eval cat.stored
        [partBindings (cat.methodOf place index leading) row] [] =
        some (.ofBool (row.isOf place part.column)) :=
      Place.eval_columnCondition place part.column rfl rfl rfl
    rw [hco, Option.bind_some, Value.holds?_ofBool]
  have ha : ((cat.columns.filter (·.isOf place part.column)).map
      (partBindings (cat.methodOf place index leading))).mapM (fun bindings =>
        Query.record? cat.stored [bindings] (indexPartRow index pos part)) =
      some ((cat.addedParts place index leading pos part).map PartRow.record) := by
    rw [Catalog.addedParts, map_map]
    refine mapM_map fun row hr => ?_
    obtain ⟨hp, hn⟩ : row.place = place ∧ row.column.name = part.column := by
      simpa [ColumnRow.isOf] using (mem_filter.1 hr).2
    rw [record?_indexPartRow _ _ _ _ _ hn, hp]
    rfl
  rw [RunsOn, query, Query.run, Drawer.statistics.get? cat, hc]
  simp only [Option.bind_eq_bind, Option.bind_some]
  rw [hs, Option.bind_some, ha, Option.bind_some, Query.store?_keyless rfl, ← map_append,
    Drawer.statistics.set]
  rfl

theorem run_promoteKey (key : ColumnKey) : (promoteKey place col key).RunsOn cat :=
  Drawer.columns.run_update rfl
    (fun _ => Term.holds?_of_eval (Place.eval_columnCondition place col rfl rfl rfl))
    fun row _ _ => by
      rw [eval_promotedKey]
      rfl

theorem run_recomputeKeys (index : String) : (recomputeKeys place index).RunsOn cat := by
  rw [RunsOn, effect]
  split
  · rename_i hc
    exact Drawer.columns.run_update rfl
      (fun row => Term.holds?_of_eval (eval_recomputed place index row))
      fun row hro hr => by
        rw [eval_remainingKey, if_pos (hc row hro hr)]
        rfl
  · rename_i hm
    obtain ⟨row, hm⟩ := Classical.not_forall.1 hm
    obtain ⟨hro, hm⟩ := Classical.not_imp.1 hm
    obtain ⟨hr, hm⟩ := Classical.not_imp.1 hm
    refine Query.run_update_eq_none (Drawer.columns.get? cat) hro ?_ ?_
    · rw [Term.holds?_of_eval (eval_recomputed place index row), hr]
    · rw [eval_remainingKey, if_neg hm]

theorem exists_before {ρ : Type} {found : Option ρ} {f : ρ → Int64} {pos : Int64}
    (h : found.any fun row => f row < pos) : ∃ before, before < pos := by
  cases found with
  | none => cases h
  | some row => exact ⟨f row, of_decide_eq_true h⟩

theorem run_closeOrdinalGap : (closeOrdinalGap place col).RunsOn cat := by
  refine Drawer.columns.run_update rfl (fun row => holds?_movingUp place
    (Place.eval_condition place rfl rfl) rfl (eval_ordinalOf place col)) fun row _ ha => ?_
  obtain ⟨before, hl⟩ := exists_before (Bool.and_eq_true_iff.1 ha).2
  show (Value.ofInt? (row.ordinal.toInt - 1)).map _ = _
  rw [Value.ofInt?_sub_one hl]
  rfl

theorem run_closeIndexGaps : (closeIndexGaps place col).RunsOn cat := by
  refine Drawer.statistics.run_update rfl (fun row => holds?_movingUp place
    (Place.eval_condition place rfl rfl) rfl (eval_positionInIndex col row)) fun row _ ha => ?_
  obtain ⟨before, hl⟩ := exists_before (Bool.and_eq_true_iff.1 ha).2
  show (Value.ofInt? (row.part.position.toInt - 1)).map _ = _
  rw [Value.ofInt?_sub_one hl]
  rfl

/-- A row of a table says nothing about a column. -/
theorem eval_columnCondition_table (row : TableRow) :
    (place.columnCondition none col).eval cat.stored
      [[(Register.tables.name, row.values)]] [] = none := by
  have hna : (Term.column none "column_name").eval cat.stored
      [[(Register.tables.name, row.values)]] [] = none := by
    cases hn : row.autoIncrement <;> cases hco : row.comment <;>
      simp [Term.eval, column?, Record.value?, TableRow.values, hn, hco, lookup_cons]
  have hc : (place.condition none).eval cat.stored
      [[(Register.tables.name, row.values)]] [] = some (.ofBool (row.place = place)) :=
    Place.eval_condition place rfl rfl
  rw [Place.columnCondition, Term.and, Term.eval, hc, Term.has, Term.equals, Term.eval,
    hna]
  rfl

theorem run_forgetTable : (forgetTable reg place).RunsOn cat := by
  cases reg with
  | tables =>
    refine (Drawer.tables.run_delete fun row =>
      Place.eval_condition (p := row.place) place rfl rfl).trans ?_
    simp [effect]
  | columns =>
    refine (Drawer.columns.run_delete fun row =>
      Place.eval_condition (p := row.place) place rfl rfl).trans ?_
    simp [effect]
  | statistics =>
    refine (Drawer.statistics.run_delete fun row =>
      Place.eval_condition (p := row.place) place rfl rfl).trans ?_
    simp [effect]

theorem run_renameTable : (renameTable reg place newName).RunsOn cat := by
  cases reg with
  | tables =>
    have hr : ∀ row ∈ cat.tables, decide (row.place = place) →
        ((Term.bound (.text newName)).eval cat.stored
          [[(Register.tables.name, row.values)]] []).map
          (Record.replaced "table_name" · row.values) =
        some (TableRow.values { row with place.table := newName }) := by
      intro row _ _
      rw [Term.eval]
      cases hn : row.autoIncrement <;> cases hc : row.comment <;>
        simp [TableRow.values, TableRow.rowFormat, Record.replaced, hn, hc]
    exact Drawer.tables.run_update rfl (fun row => Term.holds?_of_eval
      (Place.eval_condition (p := row.place) place rfl rfl)) hr
  | columns =>
    exact Drawer.columns.run_update rfl
      (fun row => Term.holds?_of_eval (Place.eval_condition (p := row.place) place rfl rfl))
      fun row _ _ => rfl
  | statistics =>
    exact Drawer.statistics.run_update rfl
      (fun row => Term.holds?_of_eval (Place.eval_condition (p := row.place) place rfl rfl))
      fun row _ _ => rfl

theorem run_forgetColumn : (forgetColumn reg place col).RunsOn cat := by
  cases reg with
  | tables =>
    rw [RunsOn, effect, query, Query.run, Drawer.tables.get? cat]
    cases ht : cat.tables with
    | nil =>
      obtain ⟨tables, cols, parts, types⟩ := cat
      cases ht
      rfl
    | cons row rest =>
      simp only [Option.bind_eq_bind, Option.bind_some]
      rw [keep_map_eq_none (a := row) (ht ▸ mem_cons_self), Option.bind_none]
      · rfl
      · rw [eval_columnCondition_table, Option.bind_none]
  | columns =>
    exact Drawer.columns.run_delete fun _ => Place.eval_columnCondition place col rfl rfl rfl
  | statistics =>
    exact Drawer.statistics.run_delete fun _ => Place.eval_columnCondition place col rfl rfl rfl

theorem run_renameColumn : (renameColumn reg place col newName).RunsOn cat := by
  cases reg with
  | tables =>
    rw [RunsOn, effect, query, Query.run, Drawer.tables.get? cat]
    cases ht : cat.tables with
    | nil =>
      obtain ⟨tables, cols, parts, types⟩ := cat
      cases ht
      rfl
    | cons row rest =>
      simp only [Option.bind_eq_bind, Option.bind_some]
      rw [mapM_map_eq_none (a := row) (ht ▸ mem_cons_self), Option.bind_none]
      · rfl
      · rw [eval_columnCondition_table, Option.bind_none]
  | columns =>
    exact Drawer.columns.run_update rfl
      (fun _ => Term.holds?_of_eval (Place.eval_columnCondition place col rfl rfl rfl))
      fun row _ _ => rfl
  | statistics =>
    exact Drawer.statistics.run_update rfl
      (fun _ => Term.holds?_of_eval (Place.eval_columnCondition place col rfl rfl rfl))
      fun row _ _ => rfl

theorem run_cacheType (table type : String) : (cacheType table col type).RunsOn cat := by
  have hr : Query.record? cat.stored [] [("table", .bound (.text table)),
      ("column_or_index", .bound (.text col)), ("mysql_type", .bound (.text type))] =
      some (TypeRow.record ⟨table, col, type⟩) :=
    Query.record?_bound (TypeRow.record ⟨table, col, type⟩)
  rw [RunsOn, query, Query.run, Drawer.cache.get? cat, hr, effect]
  simp only [Option.bind_eq_bind, Option.bind_some, if_true, Option.map_some, Option.pure_def]
  have ho : (cat.types.map TypeRow.record).filter
      (!(TypeRow.record ⟨table, col, type⟩).conflicts (Tables.keyColumns typeCache) ·) =
      (cat.types.filter (!·.isOf table col)).map TypeRow.record := by
    rw [filter_map]
    refine congrArg (map TypeRow.record) (filter_congr fun row _ => ?_)
    rw [Function.comp_apply, conflicts_record, TypeRow.isOf, TypeRow.isOf]
    simp only [eq_comm]
  rw [ho, ← map_singleton, ← map_append, Drawer.cache.set]

/-- Every query does to the tables of the catalog what its command does. -/
theorem run_query (cmd : Command) (cat : Catalog) :
    cmd.query.run cat.stored = (cmd.effect cat).map Catalog.stored := by
  cases cmd with
  | createRegister reg => rfl
  | createCache => rfl
  | recordTable row =>
    exact Drawer.tables.run_insert rfl row (Query.record?_bound _)
  | recordColumn place ordinal col =>
    exact Drawer.columns.run_insert rfl ⟨place, ordinal, col⟩ (Query.record?_bound _)
  | appendColumn place col => exact run_appendColumn cat place col
  | recordIndexPart place row =>
    exact Drawer.statistics.run_insert rfl ⟨place, row⟩ (Query.record?_bound _)
  | addIndexPart place index leading pos part =>
    exact run_addIndexPart cat place index leading pos part
  | promoteKey place col key => exact run_promoteKey cat place col key
  | recomputeKeys place index => exact run_recomputeKeys cat place index
  | closeOrdinalGap place col => exact run_closeOrdinalGap cat place col
  | closeIndexGaps place col => exact run_closeIndexGaps cat place col
  | forgetTable reg place => exact run_forgetTable cat place reg
  | forgetColumn reg place col => exact run_forgetColumn cat place col reg
  | forgetIndex place index =>
    exact Drawer.statistics.run_delete fun _ => Term.eval_and (Place.eval_condition place rfl rfl)
      (Term.eval_has index rfl)
  | renameTable reg place newName => exact run_renameTable cat place newName reg
  | renameColumn reg place col newName => exact run_renameColumn cat place col newName reg
  | cacheType table col type => exact run_cacheType cat col table type
  | uncacheTable table =>
    refine (Drawer.cache.run_delete fun row =>
      Term.eval_has (a := row.table) table rfl).trans ?_
    simp [effect]
  | uncacheColumn table col =>
    exact Drawer.cache.run_delete fun row =>
      Term.eval_and (Term.eval_has (a := row.table) table rfl)
        (Term.eval_has (a := row.column) col rfl)
  | renameCachedTable table newName =>
    refine (Query.run_update (Drawer.cache.get? cat) (fun row _ => Term.holds?_of_eval
      (Term.eval_has (a := row.table) table rfl)) fun row _ _ => ?_).trans (store?_cache _)
    rfl
  | renameCachedColumn table col newName =>
    refine (Query.run_update (Drawer.cache.get? cat) (fun row _ => Term.holds?_of_eval
      (Term.eval_and (Term.eval_has (a := row.table) table rfl)
        (Term.eval_has (a := row.column) col rfl))) fun row _ _ => ?_).trans (store?_cache _)
    rfl

end Command

end SqlBridge
