/-
The catalog mirrors the statements that create a table.

A table and its indexes are created by statements of their own, and the catalog records them by rows
of its own: two walks of one tree.  Here the statements are read back and compared with the rows.

* `Plan.results_createTable`: the statements that create a table, read back.
* `Index.forall₂_ofElements`: every constraint that declares an index gives one, in order.
* `Plan.createTable_mirrored`: the rows that the catalog gains say what the statements do.
-/
import SqlBridge.Proofs.Catalog.AddedColumn
import SqlBridge.Proofs.Plan.Agreement
import SqlBridge.Proofs.Plan.Heads
import SqlBridge.Proofs.Scribe.TableText

namespace SqlBridge

open Scribe List Draft

variable {bad : Error → Prop} {db : String}
variable {create con elems : Tree} {constraints : List Tree} {indexes : List Index} {index : Index}
  {table : String}

/-! ### Statements that create a table -/

/-- The draft of a statement that was read is proper. -/
theorem Draft.proper_statement {sql : String} {stmt : Tree} {others : List Tree}
    (h : Grammar.parse sql = .ok (.node .query (.node .simpleStatement [stmt] :: others))) :
    (ofTree db stmt).Proper fun _ => True := by
  refine proper_ofTree db stmt fun below hb => ?_
  refine Grammar.proper_of_parse (fun _ _ => trivial) h (fun _ _ _ _ _ => trivial) below ?_
  rcases mem_cons.1 hb with rfl | hl
  · simp [Tree.descendants, Tree.descendantsOfAll]
  · simp [Tree.descendants, Tree.descendantsOfAll, hl]

/-- The definition of the table that a query creates, if it creates one. -/
def Tree.createdTable? (query : Tree) : Option Tree :=
  ((query.child? .simpleStatement).bind (·.child? .createStatement)).bind (·.child? .createTable)

/-- A statement that is a verb and what it is about. -/
theorem Draft.Proper.eq_of_child? {rule part : Rule} {row : List Tree} {child : Tree} {kw : Keyword}
    {rules : List Rule} (h : (ofTree db (.node rule row)).Proper bad)
    (hd : rule.demand? = some (Rule.admitsVerb kw rules))
    (hc : (Tree.node rule row).child? part = some child) :
    ∃ verb, row = [verb, child] ∧ verb.hasKind (.keyword kw) := by
  have ha : Rule.admitsVerb kw rules row := h.branch.demand rfl hd
  obtain ⟨verb, other, rfl, hv, -⟩ := Rule.eq_of_admitsVerb ha
  have hw : verb.hasRule part = false := by
    cases verb with
    | leaf tok => rfl
    | node rule kids => cases hv
  rw [Tree.child?, Tree.children, find?_cons_of_neg (by simp [hw]), find?_singleton] at hc
  split at hc
  · obtain rfl := Option.some.inj hc
    exact ⟨verb, rfl, hv⟩
  · cases hc

theorem Tree.eq_of_createdTable? {sql : String} {query : Tree}
    (hp : Grammar.parse sql = .ok query) (hcr : query.createdTable? = some create) :
    ∃ verb others, query =
        .node .query (.node .simpleStatement [.node .createStatement [verb, create]] :: others) ∧
      verb.hasKind (.keyword .CREATE) ∧ create.hasRule .createTable := by
  obtain ⟨stmt, others, -, rfl⟩ := Grammar.isStatement_of_parse hp
  obtain ⟨found, hf, hc⟩ := Option.bind_eq_some_iff.1 hcr
  have hs : find? (hasRule .createStatement) [stmt] = some found := hf
  obtain rfl : stmt = found := (mem_singleton.1 (mem_of_find?_eq_some hs)).symm
  obtain ⟨row, rfl⟩ := exists_of_hasRule (find?_some hs)
  have hpr : (ofTree "" (.node .createStatement row)).Proper fun _ => True := proper_statement hp
  obtain ⟨verb, rfl, hv⟩ := hpr.eq_of_child? rfl hc
  exact ⟨verb, others, rfl, hv, find?_some hc⟩

/-- A table that is created has a name. -/
theorem Draft.Proper.exists_tableName (h : (ofTree db create).Proper bad)
    (hr : create.hasRule .createTable) :
    ∃ table, (create.child? .tableName).bind Tree.lastName? = some table := by
  have ht : (ofTree db create).tree = create := tree_ofTree db create
  have hd : Rule.admitsTable create.children := by
    have ha := h.demand (by rwa [ht]) (rfl : Rule.demand? .createTable = some Rule.admitsTable)
    rwa [ht] at ha
  rw [Rule.admitsTable, Bool.and_eq_true, Bool.and_eq_true, ← ht] at hd
  have hn := h.exists_name hd.1.1 rfl fun _ => Rule.isIn_of_admitsQualified
  rwa [ht] at hn

/-! ### Indexes and the constraints that declare them -/

namespace Index

/-- The definition of an index of a table, as it is written. -/
def text (table : String) (index : Index) : IndexText :=
  ⟨index.isUnique, indexName table index.name, table,
    index.parts.map fun part => (part.column, part.descending)⟩

/-- An index that a constraint declares, whatever its name. -/
structure DeclaredBy (constraint : Tree) (index : Index) : Prop where
  kind : constraint.indexKind? = some index.kind
  keys : constraint.child? .keyList = some index.keys
  parts : index.parts = (index.keys.childrenBy .keyPart).map KeyPart.ofTree
  ne_nil : index.parts ≠ []

/-- A name that an index gets leaves the rest of it as it is declared. -/
theorem forall₂_named (h : List.Forall₂ DeclaredBy constraints indexes) (used : List String) :
    List.Forall₂ DeclaredBy constraints (named used indexes) := by
  induction h generalizing used with
  | nil => exact .nil
  | cons hf _ ih => exact .cons ⟨hf.kind, hf.keys, hf.parts, hf.ne_nil⟩ (ih _)

theorem declaredBy_of_ofNode {kind : IndexKind}
    (hki : con.indexKind? = some kind) (h : ofNode con kind = .ok index) :
    index.DeclaredBy con := by
  unfold ofNode at h
  split at h
  · cases h
  · rename_i keys hk
    split at h
    · cases h
    · rename_i first rest hp
      cases h
      exact ⟨hki, hk, hp.symm, by simp⟩

/-- A constraint that declares an index has the columns of it. -/
theorem exists_declaredBy (hr : con.hasRule .tableConstraintDef)
    (hp : (ofTree db con).Proper bad) {kind : IndexKind}
    (hk : con.indexKind? = some kind) :
    ∃ index, ofConstraint? con = some index ∧ index.DeclaredBy con := by
  have hd {kw : Keyword} (hf : con.childKeywords.head? = some kw) :
      Rule.admitsDeclared con.children kw := by
    obtain ⟨row, rfl⟩ := Tree.exists_of_hasRule hr
    exact Rule.admitsDeclared_of_head (hp.branch.demand rfl rfl) hf
  have hkeys : Rule.isIn .keyList con.children := by
    unfold Tree.indexKind? at hk
    split at hk
    case h_7 => cases hk
    all_goals
      rename_i hf
      exact hd hf
  obtain ⟨keys, hl, hkey, hke, -⟩ := hp.needed_keyList hkeys
  obtain ⟨first, rest, hpa⟩ := exists_cons_of_ne_nil (Draft.Proper.keyParts_ne_nil hkey hke)
  obtain ⟨index, hi⟩ : ∃ index, ofNode con kind = .ok index := by
    unfold ofNode
    rw [hl]
    dsimp only
    rw [hpa]
    exact ⟨_, rfl⟩
  refine ⟨index, ?_, declaredBy_of_ofNode hk hi⟩
  rw [ofConstraint?, hk, Option.bind_some, hi]
  rfl

theorem forall₂_ofConstraint (h : ∀ con ∈ constraints, con.hasRule .tableConstraintDef ∧
      (ofTree db con).Proper bad) :
    List.Forall₂ DeclaredBy (constraints.filter (·.indexKind?.isSome))
      (constraints.filterMap ofConstraint?) := by
  induction constraints with
  | nil => exact .nil
  | cons con rest ih =>
    rw [forall_mem_cons] at h
    cases hk : con.indexKind? with
    | none =>
      have hn : ofConstraint? con = none := by rw [ofConstraint?, hk]; rfl
      rw [filter_cons_of_neg (by simp [hk]), filterMap_cons, hn]
      exact ih h.2
    | some kind =>
      obtain ⟨index, hi, hby⟩ := exists_declaredBy h.1.1 h.1.2 hk
      rw [filter_cons_of_pos (by simp [hk]), filterMap_cons, hi]
      exact .cons hby (ih h.2)

/-- **Every constraint that declares an index gives one, in order.** -/
theorem forall₂_ofElements (h : (ofTree db elems).Proper bad) :
    List.Forall₂ DeclaredBy (elems.constraints.filter (·.indexKind?.isSome))
      (ofElements elems) := by
  have hc : ∀ con ∈ elems.constraints,
      con.hasRule .tableConstraintDef ∧
        (ofTree db con).Proper bad := by
    intro con hm
    obtain ⟨element, he, hch⟩ := mem_filterMap.1 hm
    have hb := h.child (mem_filter.1 he).1
    exact ⟨find?_some hch, hb.child (mem_of_find?_eq_some hch)⟩
  exact forall₂_named (forall₂_ofConstraint hc) []

theorem exists_constraint (h : List.Forall₂ DeclaredBy constraints indexes) :
    ∀ index ∈ indexes, ∃ con, index.DeclaredBy con := by
  induction h with
  | nil => simp
  | cons hf _ ih => exact forall_mem_cons.2 ⟨⟨_, hf⟩, ih⟩

end Index

/-! ### The statements of a plan -/

namespace Plan

/-- Every index but the primary key gets a statement, in order. -/
theorem results_indexTexts {want : Index → String → Prop} (h : ∀ index ∈ indexes,
      (Branch.indexDefinition table index.name index.isUnique (Draft.ofTree db index.keys)).Results
        bad fun sql => want index (Sql.render (.raw "CREATE" :: sql))) :
    (indexStatements db table indexes).Results bad
      (List.Forall₂ want (indexes.filter (·.kind != .primary))) := by
  induction indexes with
  | nil => exact results_pure .nil
  | cons index rest ih =>
    rw [forall_mem_cons] at h
    unfold indexStatements
    by_cases hk : index.kind = .primary
    · rw [if_pos hk, filter_cons_of_neg (by simp [hk])]
      exact ih h.2
    · rw [if_neg hk, filter_cons_of_pos (by simp [hk])]
      exact results_bind h.1 fun sql hs => results_bind (ih h.2) fun texts ht =>
        results_pure (.cons hs ht)

/-- The columns of the indexes of a table are proper. -/
theorem proper_keys (h : (Draft.ofTree db elems).Proper bad) :
    ∀ index ∈ Index.ofElements elems, (Draft.ofTree db index.keys).Proper bad := by
  intro index hi
  have hb := h.tree_below
  rw [tree_ofTree] at hb
  have hm := (Tree.mem_descendants_of_ofElements hi).1
  refine proper_ofTree db _ (forall_mem_cons.2 ⟨?_, fun below hl => ?_⟩)
  · exact hb _ (mem_cons_of_mem _ hm)
  · exact hb _ (mem_cons_of_mem _ (Tree.mem_descendants_trans _ hm hl))

/-- What is planned for a table that is created. -/
theorem ofStatement_createTable {verb : Tree} (hv : verb.hasKind (.keyword .CREATE))
    (hc : create.hasRule .createTable) :
    ofStatement db (Draft.ofTree db (.node .createStatement [verb, create])) =
      createTable db (Draft.ofTree db (.node .createStatement [verb, create]))
        (Draft.ofTree db create) := by
  have ho : verb.hasRule .createIndex = false ∧ verb.hasRule .createTable = false := by
    cases verb with
    | leaf tok => exact ⟨rfl, rfl⟩
    | node rule kids => cases hv
  obtain ⟨row, rfl⟩ := Tree.exists_of_hasRule hc
  have hn : (Draft.ofTree db (.node .createStatement [verb, .node .createTable row])).branch.child?
      .createIndex = none := by
    simp [child?_ofTree, Tree.child?, Tree.children, ho.1]
  have hs : (Draft.ofTree db (.node .createStatement [verb, .node .createTable row])).branch.child?
      .createTable = some (Draft.ofTree db (.node .createTable row)) := by
    simp [child?_ofTree, Tree.child?, Tree.children, ho.2]
  show Plan.create db _ = _
  unfold Plan.create
  rw [hn]
  dsimp only
  rw [hs]
  rfl

/-- **The statements that create a table and its indexes, read back.** -/
theorem results_createTable {verb : Tree}
    (hp : (Draft.ofTree db (.node .createStatement [verb, create])).Proper bad)
    (hv : verb.hasKind (.keyword .CREATE)) (hcre : create.hasRule .createTable)
    (hel : create.child? .tableElementList = some elems)
    (ht : (create.child? .tableName).bind Tree.lastName? = some table) :
    ∃ named, create.child? .tableName = some named ∧
      (ofStatement db (Draft.ofTree db (.node .createStatement [verb, create]))).Results
        bad fun plan => ∃ text others defn,
          plan.steps = [⟨text :: others, some (.createTable create)⟩] ∧
          TableText.ofText? text = some defn ∧ defn.Mirrors db named elems ∧
          List.Forall₂ (fun index text => IndexText.ofText? text = some (index.text table))
            ((Index.ofElements elems).filter (·.kind != .primary)) others := by
  obtain ⟨named, hn, hs⟩ := results_createStatement hp hv hcre hel
  refine ⟨named, hn, ?_⟩
  have hcr : (Draft.ofTree db create).Proper bad := hp.child (by simp [Tree.children])
  have he := hcr.child (mem_of_find?_eq_some hel)
  have hin : ∀ index ∈ Index.ofElements elems,
      (Branch.indexDefinition table index.name index.isUnique (Draft.ofTree db index.keys)).Results
        bad fun sql =>
          IndexText.ofText? (Sql.render (.raw "CREATE" :: sql)) = some (index.text table) := by
    intro index hi
    obtain ⟨con, hc⟩ := Index.exists_constraint (Index.forall₂_ofElements he) index hi
    have hk : index.keys.keyOrder = index.parts.map fun part => (part.column, part.descending) := by
      rw [hc.parts, map_map]
      rfl
    have hs := Branch.results_indexText (find?_some hc.keys)
      (proper_keys he index hi) table index.name index.isUnique
    rwa [hk] at hs
  have hte : (indexStatements db table (Index.ofElements elems)).Results bad
      (List.Forall₂ (fun index text => IndexText.ofText? text = some (index.text table))
        ((Index.ofElements elems).filter (·.kind != .primary))) := results_indexTexts hin
  rw [ofStatement_createTable hv hcre]
  unfold createTable
  rw [tree_ofTree]
  refine results_bind (results_part ht) ?_
  rintro _ rfl
  refine results_bind hs ?_
  rintro sql ⟨defn, hd, hm⟩
  rw [hel]
  refine results_bind hte fun others ho => ?_
  exact results_pure ⟨_, _, defn, rfl, hd, hm, ho⟩

end Plan

/-! ### The rows of the catalog -/

/-- An index as the catalog records it: the constraint that declares it, and its rows. -/
structure RecordedIndex where
  constraint : Tree
  rows : List IndexRow

namespace RecordedIndex

def isPrimary (index : RecordedIndex) : Bool := index.constraint.indexKind? == some .primary

/-- The rows of an index are numbered, and have one name. -/
structure Numbered (index : RecordedIndex) : Prop where
  ne_nil : index.rows ≠ []
  named : ∀ row ∈ index.rows, ∀ other ∈ index.rows, row.index = other.index
  positions : index.rows.map IndexRow.position =
    (range index.rows.length).map fun i => Int64.ofNat (i + 1)

/-- The rows of an index say what its definition does, and both say what is declared. -/
structure Mirrors (table : String) (index : RecordedIndex) (definition : IndexText) : Prop where
  place : definition.table = table
  name : ∀ row ∈ index.rows, definition.name = indexName table row.index
  unique : ∀ row ∈ index.rows, definition.unique = row.unique
  declared : (index.constraint.child? .keyList).map Tree.keyOrder = some definition.parts
  parts : List.Forall₂ (fun row part => row.column = part.1 ∧ row.collation =
    if row.method = .fulltext then none else some (if part.2 then "D" else "A"))
    index.rows definition.parts

end RecordedIndex

/-- The rows that the catalog gains by a table. -/
structure TableRecord where
  table : TableRow
  columns : List ColumnRow
  indexes : List RecordedIndex

namespace TableRecord

/-- The rows of a table say what the statements do that create it and its indexes. -/
structure Mirrors (place : Place) (elements : Tree) (record : TableRecord) (definition : TableText)
    (others : List String) : Prop where
  table : record.table.place = place
  places : ∀ row ∈ record.columns, row.place = place
  columns : record.columns.map (·.column.name) = definition.columns
  ordinals : record.columns.map ColumnRow.ordinal =
    (range record.columns.length).map fun i => Int64.ofNat (i + 1)
  declared : record.indexes.map RecordedIndex.constraint =
    elements.constraints.filter (·.indexKind?.isSome)
  numbered : ∀ index ∈ record.indexes, index.Numbered
  distinct : record.indexes.Pairwise fun index other => ∀ row ∈ index.rows, ∀ next ∈ other.rows,
    Text.lowercase row.index ≠ Text.lowercase next.index
  indexes : List.Forall₂ (fun index text => ∃ definition, IndexText.ofText? text = some definition ∧
    index.Mirrors place.table definition) (record.indexes.filter (!·.isPrimary)) others

end TableRecord

/-- The catalog with the rows of a table after the others. -/
def Catalog.withTable (catalog : Catalog) (place : Place) (record : TableRecord)
    (types : List TypeRow) : Catalog where
  tables := catalog.tables ++ [record.table]
  columns := catalog.columns ++ record.columns
  parts := catalog.parts ++ (record.indexes.flatMap RecordedIndex.rows).map fun row => ⟨place, row⟩
  types := types

/-- The rows of an index, declared by a constraint. -/
theorem Index.DeclaredBy.numbered (h : index.DeclaredBy con)
    (cols : List Column) : RecordedIndex.Numbered ⟨con, Script.indexRows cols index⟩ where
  ne_nil := by simpa [Script.indexRows] using h.ne_nil
  named := by
    simp only [Script.indexRows, mem_mapIdx]
    rintro row ⟨i, hi, rfl⟩ other ⟨j, hj, rfl⟩
    dsimp only [Script.indexRow]
  positions := by
    refine ext_getElem (by simp) fun i hr hp => ?_
    simp [Script.indexRows, Script.indexRow]

theorem Index.DeclaredBy.mirrors (h : index.DeclaredBy con) (table : String) (cols : List Column) :
    RecordedIndex.Mirrors table ⟨con, Script.indexRows cols index⟩ (index.text table) where
  place := rfl
  name := by
    simp only [Script.indexRows, mem_mapIdx]
    rintro row ⟨i, hi, rfl⟩
    exact rfl
  unique := by
    simp only [Script.indexRows, mem_mapIdx]
    rintro row ⟨i, hi, rfl⟩
    exact rfl
  declared := by
    rw [h.keys]
    simp [Index.text, Tree.keyOrder, h.parts]
  parts := by
    refine forall₂_iff_get.2 ⟨by simp [Script.indexRows, Index.text], fun i hr hp => ?_⟩
    simp [Script.indexRows, Script.indexRow, Index.text]

/-- An index that a constraint declares, with its rows. -/
def RecordedIndex.ofIndex (columns : List Column) (declared : Tree × Index) : RecordedIndex :=
  ⟨declared.1, Script.indexRows columns declared.2⟩

/-- The rows of the indexes of a table. -/
theorem RecordedIndex.exists_recorded {others : List String} (cols : List Column)
    (h : List.Forall₂ Index.DeclaredBy constraints indexes)
    (hn : (indexes.map fun index => Text.lowercase index.name).Nodup)
    (ho : List.Forall₂ (fun index text => IndexText.ofText? text = some (index.text table))
      (indexes.filter (·.kind != .primary)) others) :
    ∃ records : List RecordedIndex, records.map RecordedIndex.constraint = constraints ∧
      records.flatMap RecordedIndex.rows = indexes.flatMap (Script.indexRows cols) ∧
      (∀ record ∈ records, record.Numbered) ∧
      (records.Pairwise fun index other => ∀ row ∈ index.rows, ∀ next ∈ other.rows,
        Text.lowercase row.index ≠ Text.lowercase next.index) ∧
      List.Forall₂ (fun index text => ∃ defn, IndexText.ofText? text = some defn ∧
        index.Mirrors table defn) (records.filter (!·.isPrimary)) others := by
  obtain ⟨hl, hd⟩ := forall₂_iff_zip.1 h
  -- an index stands beside the constraint that declares it
  have hin : (constraints.zip indexes).map Prod.snd = indexes := map_snd_zip (by omega)
  have hna (index : Index) : ∀ row ∈ Script.indexRows cols index, row.index = index.name := by
    simp only [Script.indexRows, mem_mapIdx]
    rintro row ⟨i, hi, rfl⟩
    exact rfl
  refine ⟨(constraints.zip indexes).map (ofIndex cols), ?_, ?_, ?_, ?_, ?_⟩
  · rw [map_map]
    exact map_fst_zip (by omega)
  · conv_rhs => rw [← hin, flatMap_map]
    rw [flatMap_map]
    rfl
  · rintro _ hm
    obtain ⟨pair, hp, rfl⟩ := mem_map.1 hm
    exact (hd hp).numbered cols
  · rw [← hin, map_map, List.Nodup, pairwise_map] at hn
    rw [pairwise_map]
    refine hn.imp fun hne row hro next hnex => ?_
    rw [hna _ row hro, hna _ next hnex]
    exact hne
  · rw [← hin, filter_map, forall₂_map_left_iff] at ho
    have hs : (constraints.zip indexes).filter ((!·.isPrimary) ∘ ofIndex cols) =
        (constraints.zip indexes).filter ((·.kind != .primary) ∘ Prod.snd) := by
      refine filter_congr fun pair hp => ?_
      simp [ofIndex, isPrimary, (hd hp).kind, bne]
    rw [filter_map, hs, forall₂_map_left_iff]
    obtain ⟨hc, hr⟩ := forall₂_iff_zip.1 ho
    refine forall₂_iff_zip.2 ⟨hc, fun hm => ⟨_, hr hm, ?_⟩⟩
    exact (hd (mem_filter.1 (of_mem_zip hm).1).1).mirrors table cols

/-! ### Tables -/

namespace Catalog

theorem place_of_mem_columnRows {place : Place} {cols : List Column} :
    ∀ row ∈ columnRows place cols, row.place = place := by
  simp only [columnRows, mem_mapIdx]
  rintro row ⟨i, hi, rfl⟩
  rfl

theorem names_columnRows (place : Place) (cols : List Column) :
    (columnRows place cols).map (·.column.name) = cols.map Column.name := by
  rw [columnRows, map_mapIdx, mapIdx_const]

theorem ordinals_columnRows (place : Place) (cols : List Column) :
    (columnRows place cols).map ColumnRow.ordinal =
      (range (columnRows place cols).length).map fun i => Int64.ofNat (i + 1) := by
  refine ext_getElem (by simp) fun i hr ho => ?_
  simp [columnRows]

end Catalog

namespace Script

variable {facts : TableFacts} {defns : List Tree} {cols : List Column}

/-- Columns are described one by one. -/
theorem forall₂_describeAll (h : describeAll facts defns = (cols, none)) :
    List.Forall₂ (fun defn col => Column.ofDefinition defn facts = .ok col)
      defns cols := by
  induction defns generalizing cols with
  | nil =>
    cases h
    exact .nil
  | cons defn rest ih =>
    rw [describeAll] at h
    cases hc : Column.ofDefinition defn facts with
    | error error =>
      rw [hc] at h
      cases h
    | ok col =>
      rw [hc] at h
      rcases hr : describeAll facts rest with ⟨others, failure⟩
      rw [hr] at h
      cases h
      exact .cons hc (ih hr)

/-- Columns that are described have the names they are written with. -/
theorem names_of_described (h : List.Forall₂ (fun defn col =>
      Column.ofDefinition defn facts = .ok col) defns cols) :
    cols.map Column.name = defns.map Tree.columnName := by
  induction h with
  | nil => rfl
  | cons hf _ ih =>
    obtain ⟨name, field, dataType, type, extent, hn, -, -, -, -, rfl⟩ :=
      Column.ofDefinition_eq_ok hf
    rw [map_cons, map_cons, Tree.columnName, hn, ih]
    rfl

end Script

/-- The catalog mirrors what is created.  Where a statement creates a table that is not temporary,
and lists its elements, the catalog gains one row for the table, a row for every column of the
statement, and the rows of its indexes.  Every index but the primary key is created by a statement
of its own, in order, that has the name, the columns and the directions of its rows. -/
theorem Plan.createTable_mirrored {sql : String} {query create elements : Tree} {plan : Plan}
    {catalog : Catalog} {after : Tables} (hparse : Grammar.parse sql = .ok query)
    (hcreate : query.createdTable? = some create)
    (htemporary : create.hasKeyword .TEMPORARY = false)
    (helements : create.child? .tableElementList = some elements)
    (hplan : (Plan.ofTree database query).outcome.1 = .ok plan)
    (hafter : (plan.steps.filterMap Step.change).forM (CatalogChange.follow database)
      catalog.stored = .ok ((), after)) :
    ∃ table text others definition record types,
      (create.child? .tableName).bind Tree.lastName? = some table ∧
      plan.steps.flatMap Step.statements = text :: others ∧
      TableText.ofText? text = some definition ∧
      after = (catalog.withTable ⟨database, table⟩ record types).stored ∧
      record.Mirrors ⟨database, table⟩ elements definition others := by
  obtain ⟨verb, rest, rfl, hverb, hrule⟩ := Tree.eq_of_createdTable? hparse hcreate
  have hproper :
      (Draft.ofTree database (.node .createStatement [verb, create])).Proper fun _ => True :=
    Draft.proper_statement hparse
  have hcreateProper : (Draft.ofTree database create).Proper fun _ => True :=
    hproper.child (by simp [Tree.children])
  obtain ⟨table, htable⟩ := hcreateProper.exists_tableName hrule
  obtain ⟨named, hnamed, hresults⟩ := Plan.results_createTable hproper hverb hrule helements htable
  rw [ofTree_query database rfl] at hplan
  obtain ⟨text, others, definition, hsteps, htext, hmirrors, hothers⟩ := hresults.of_ok hplan
  rw [hsteps] at hafter ⊢
  have hfollow : (Script.createTable database create).perform Command.perform catalog.stored =
      .ok ((), after) := by
    have hchange : ((CatalogChange.createTable create).follow database >>= fun _ => pure ())
        catalog.stored = .ok ((), after) := hafter
    rwa [bind_pure] at hchange
  obtain ⟨columns, hdescribed⟩ :=
    Script.exists_described catalog htemporary helements htable hfollow
  rw [Script.perform_createTable catalog htemporary helements htable hdescribed] at hfollow
  obtain rfl := congrArg Prod.snd (Except.ok.inj hfollow)
  have helementsProper := hcreateProper.child (List.mem_of_find?_eq_some helements)
  obtain ⟨records, hconstraints, hrows, hnumbered, hdistinct, hmirrored⟩ :=
    RecordedIndex.exists_recorded columns (Index.forall₂_ofElements helementsProper)
      (Index.nodup_lowercase_named _ _) hothers
  have hnames : columns.map Column.name = elements.columnDefinitions.map Tree.columnName :=
    Script.names_of_described (Script.forall₂_describeAll hdescribed)
  refine ⟨table, text, others, definition,
    ⟨Script.tableRow ⟨database, table⟩ create (.ofCreateTable create),
      Catalog.columnRows ⟨database, table⟩ columns, records⟩,
    Catalog.cachedTypes table catalog.types columns, htable, by simp, htext, ?_, ?_⟩
  · rw [Catalog.withTable, ← hrows]
    rfl
  · exact
      { table := rfl
        places := Catalog.place_of_mem_columnRows
        columns := by rw [Catalog.names_columnRows, hnames, hmirrors.columns]
        ordinals := Catalog.ordinals_columnRows _ _
        declared := hconstraints
        numbered := hnumbered
        distinct := hdistinct
        indexes := hmirrored }

/-- A table with a primary key and two indexes whose names differ in case. -/
theorem Plan.createTable_mirrored_suffixed :
    let sql :=
  "CREATE TABLE t (a INT, b VARCHAR(9), PRIMARY KEY (a), UNIQUE KEY k (b DESC), KEY K (b, a))"
    ∃ query create elements plan after, Grammar.parse sql = .ok query ∧
      query.createdTable? = some create ∧ create.hasKeyword .TEMPORARY = false ∧
      create.child? .tableElementList = some elements ∧
      (Plan.ofTree "db" query).outcome.1 = .ok plan ∧
      (plan.steps.filterMap Step.change).forM (CatalogChange.follow "db") (Catalog.stored {}) =
        .ok ((), after) ∧
      ∃ table text others definition record types,
        (create.child? .tableName).bind Tree.lastName? = some table ∧
        plan.steps.flatMap Step.statements = text :: others ∧
        TableText.ofText? text = some definition ∧
        after = (Catalog.withTable {} ⟨"db", table⟩ record types).stored ∧
        record.Mirrors ⟨"db", table⟩ elements definition others := by
  intro sql
  have hread : (do
      let query ← (Grammar.parse sql).toOption
      let create ← query.createdTable?.filter (!·.hasKeyword .TEMPORARY)
      let elements ← create.child? .tableElementList
      let plan ← (Plan.ofTree "db" query).outcome.1.toOption
      let after ← ((plan.steps.filterMap Step.change).forM (CatalogChange.follow "db")
        (Catalog.stored {})).toOption
      return (elements, after) : Option _).isSome = true := by decide +kernel
  obtain ⟨_, hfound⟩ := Option.isSome_iff_exists.1 hread
  simp only [Option.bind_eq_bind, Option.bind_eq_some_iff, toOption_eq_some,
    Option.filter_eq_some_iff] at hfound
  obtain ⟨query, hparse, create, ⟨hcreate, htemporary⟩, elements, helements, plan, hplan,
    ⟨⟨⟩, after⟩, hafter, -⟩ := hfound
  have htemporary : create.hasKeyword .TEMPORARY = false := by simpa using htemporary
  exact ⟨query, create, elements, plan, after, hparse, hcreate, htemporary, helements, hplan,
    hafter, Plan.createTable_mirrored hparse hcreate htemporary helements hplan hafter⟩

end SqlBridge
