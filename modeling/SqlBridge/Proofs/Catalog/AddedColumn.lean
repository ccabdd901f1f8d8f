/-
A column that is declared with its table and one that is added to it afterwards.

The description of a declared column takes the character set and the collation that the options of
the table name; that of an added one has only the collation which the catalog recorded for the
table, and takes the character set from its name.

* `Column.takesBinary`: a column that asks for the binary collation of the character set of its
  table.  The table keeps the general collation of that set, so the wish is lost on a column that is
  added (`Column.ofDefinition_recorded`).
* `follow_addColumn_iff`: the two ways give the same catalog exactly if the column is no such column
  and the table is not temporary.
-/
import SqlBridge.Proofs.Catalog.DeclaredIndex
import SqlBridge.Proofs.Catalog.Driven

namespace SqlBridge

open List SqlBridge.Tree

variable {col : Column}

open Text (lowercase)

/-! ### The description of a column -/

/-- Whether a character set that the options of a table name has no underscore, and a collation next
to it belongs to that set. -/
def TableFacts.IsConsistent (facts : TableFacts) : Prop :=
  ∀ charset ∈ facts.charset, '_' ∉ charset.toList ∧
    ∀ collation ∈ facts.collation, ∃ suffix, collation = charset ++ "_" ++ suffix

namespace Column

/-- Whether a character set and a collation are left to the table, whose options name a set alone,
and the binary collation of the set is asked for. -/
def inheritsBinary (dataType field : Tree) (facts : TableFacts) : Bool :=
  facts.charset.isSome && facts.collation.isNone && (namedCharset? dataType).isNone &&
    (namedCollation? field).isNone && !isNational dataType && isBinaryCharset dataType

/-- Whether a column has the binary collation of the character set of its table. -/
def takesBinary (definition : Tree) (facts : TableFacts) : Bool :=
  (definition.child? .fieldDefinition).any fun field =>
    (field.child? .dataType).any fun dataType =>
      (TypeName.ofDataType dataType).toOption.any TypeName.isCharacter &&
        inheritsBinary dataType field facts

variable {facts : TableFacts} {dataType field defn : Tree}

theorem charsetOfCollation_append {charset : String} (h : '_' ∉ charset.toList)
    (suffix : String) : charsetOfCollation (charset ++ "_" ++ suffix) = charset := by
  have ha : ∀ c ∈ charset.toList, (c != '_') := fun c hc => by
    rw [bne_iff_ne]
    rintro rfl
    exact h hc
  rw [charsetOfCollation, String.toList_append, String.toList_append, append_assoc,
    takeWhile_append_of_pos ha]
  simp

/-- The recorded collation of a table gives the character set that its options give, and the
collation too but for a binary one. -/
theorem encodingOf_recorded (dataType field : Tree) (hc : facts.IsConsistent) :
    let recorded := encodingOf dataType field (.ofCollation (some facts.tableCollation))
    recorded.charset = (encodingOf dataType field facts).charset ∧
      (inheritsBinary dataType field facts = false →
        recorded = encodingOf dataType field facts) := by
  obtain ⟨charset, collation, keys⟩ := facts
  unfold encodingOf
  cases hch : namedCharset? dataType with
  | some own => exact ⟨rfl, fun _ => rfl⟩
  | none =>
    cases hco : namedCollation? field with
    | some own => exact ⟨rfl, fun _ => rfl⟩
    | none =>
      cases hn : isNational dataType with
      | true => exact ⟨rfl, fun _ => rfl⟩
      | false =>
        -- the options of the table decide
        cases collation with
        | some collation =>
          cases charset with
          | none => exact ⟨rfl, fun _ => rfl⟩
          | some charset =>
            obtain ⟨hp, hs⟩ := hc charset rfl
            obtain ⟨suffix, rfl⟩ := hs collation rfl
            have hset := charsetOfCollation_append hp suffix
            exact ⟨hset, fun _ => congrArg (Encoding.mk · _) hset⟩
        | none =>
          cases charset with
          | none =>
            have hset : charsetOfCollation defaultCollation = defaultCharset := by decide
            exact ⟨hset, fun _ => congrArg (Encoding.mk · _) hset⟩
          | some charset =>
            have hset : charsetOfCollation (charset ++ "_general_ci") = charset := by
              have hna : charset ++ "_general_ci" = charset ++ "_" ++ "general_ci" := by
                rw [String.append_assoc]
                rfl
              rw [hna]
              exact charsetOfCollation_append (hc charset rfl).1 _
            refine ⟨hset, fun h => ?_⟩
            have hg : isBinaryCharset dataType = false := by
              simpa [inheritsBinary, hch, hco, hn] using h
            rw [hg]
            exact congrArg (Encoding.mk · _) hset

theorem collation_inheritsBinary (h : inheritsBinary dataType field facts) :
    (encodingOf dataType field (.ofCollation (some facts.tableCollation))).collation ≠
      (encodingOf dataType field facts).collation := by
  obtain ⟨charset, collation, keys⟩ := facts
  simp only [inheritsBinary, Bool.and_eq_true, Option.isSome_iff_exists, Option.isNone_iff_eq_none,
    Bool.not_eq_true'] at h
  obtain ⟨⟨⟨⟨⟨⟨charset, rfl⟩, rfl⟩, hch⟩, hc⟩, hn⟩, hb⟩ := h
  simp only [encodingOf, hch, hc, hn, hb]
  show charset ++ "_general_ci" ≠ charset ++ "_bin"
  intro heq
  have hl := congrArg String.toList heq
  rw [String.toList_append, String.toList_append] at hl
  exact absurd (append_cancel_left hl) (by decide)

/-- A column that no key of the table names is described by the recorded collation as by the options
of the table, but for its binary collation. -/
theorem ofDefinition_recorded (hc : facts.IsConsistent) (h : ofDefinition defn facts = .ok col)
    (hk : ∀ entry ∈ facts.keys, entry.1 ≠ lowercase col.name) :
    ∃ added, ofDefinition defn (.ofCollation (some facts.tableCollation)) = .ok added ∧
      (takesBinary defn facts = false → added = col) ∧
      (takesBinary defn facts →
        added.encoding.map Encoding.collation ≠ col.encoding.map Encoding.collation) := by
  obtain ⟨name, field, dataType, type, extent, hn, hf, hd, hty, hx, rfl⟩ := ofDefinition_eq_ok h
  obtain ⟨hset, hsame⟩ := encodingOf_recorded dataType field hc
  have ht : takesBinary defn facts =
      (type.isCharacter && inheritsBinary dataType field facts) := by
    rw [takesBinary, hf, Option.any_some, hd, Option.any_some, hty]
    rfl
  replace hk : ∀ entry ∈ facts.keys, entry.1 ≠ lowercase name.nameText := hk
  -- the lengths are those of the same character set
  have ha : ofDefinition defn (.ofCollation (some facts.tableCollation)) =
      .ok (describe name.nameText field dataType type extent
        (.ofCollation (some facts.tableCollation))) := by
    have hco : (encodingOf? dataType field type (.ofCollation (some facts.tableCollation))).map
        Encoding.charset = (encodingOf? dataType field type facts).map Encoding.charset := by
      unfold encodingOf?
      split
      · exact congrArg some hset
      · rfl
    rw [ofDefinition_of_parts hn hf hd hty, hco, hx]
    rfl
  refine ⟨_, ha, fun ho => ?_, fun hb => ?_⟩
  · have hke : facts.key name.nameText = .none := by
      rw [TableFacts.key, filter_eq_nil_iff.2 fun entry hen => by
        simpa using hk entry hen]
      rfl
    have hp : facts.isPrimaryKey name.nameText = false := by
      rw [TableFacts.isPrimaryKey, contains_eq_mem, decide_eq_false_iff_not]
      exact fun hm => hk _ hm rfl
    have he : encodingOf? dataType field type (.ofCollation (some facts.tableCollation)) =
        encodingOf? dataType field type facts := by
      unfold encodingOf?
      cases hch : type.isCharacter with
      | false => rfl
      | true =>
        rw [ht, hch, Bool.true_and] at ho
        rw [hsame ho]
    unfold describe
    rw [he, hke, hp]
    rfl
  · rw [ht, Bool.and_eq_true] at hb
    show (encodingOf? dataType field type _).map Encoding.collation ≠
      (encodingOf? dataType field type _).map Encoding.collation
    rw [encodingOf?, encodingOf?, hb.1]
    exact fun heq => collation_inheritsBinary hb.2 (Option.some.inj heq)

end Column

/-! ### One more column -/

namespace Tree

variable {elems defn : Tree} {separator : Token}

/-- Whether no key of a list of table elements names a column. -/
def NoKeyNames (elements : Tree) (name : String) : Prop :=
  ∀ constraint ∈ elements.constraints, ∀ part ∈ Index.keyParts constraint,
    lowercase (KeyPart.ofTree part).column ≠ lowercase name

instance (name : String) : Decidable (elems.NoKeyNames name) :=
  inferInstanceAs (Decidable (∀ con ∈ elems.constraints,
    ∀ part ∈ Index.keyParts con, lowercase (KeyPart.ofTree part).column ≠ lowercase name))

theorem constraints_followedBy_column (h : defn.hasRule .columnDefinition) :
    (elems.followedBy separator defn).constraints = elems.constraints := by
  have ho : defn.hasRule .tableConstraintDef = false := by
    obtain ⟨kids, rfl⟩ := exists_of_hasRule h
    rfl
  have hn : (node .tableElement [defn]).child? .tableConstraintDef = none := by
    rw [child?, children, find?_cons, ho]
    rfl
  rw [constraints, childrenBy_followedBy, filterMap_append, filterMap_cons, hn]
  exact append_nil _

theorem columnDefinitions_followedBy_column (h : defn.hasRule .columnDefinition) :
    (elems.followedBy separator defn).columnDefinitions =
      elems.columnDefinitions ++ [defn] := by
  have hs : (node .tableElement [defn]).child? .columnDefinition =
      some defn := by
    rw [child?, children, find?_cons, h]
  rw [columnDefinitions, childrenBy_followedBy, filterMap_append, filterMap_cons, hs]
  rfl

/-- A key that a constraint gives is given to a column it names. -/
theorem NoKeyNames.keys {name : String} (h : elems.NoKeyNames name) :
    ∀ entry ∈ elems.constraints.flatMap TableFacts.keysOf, entry.1 ≠ lowercase name := by
  have hcol (con : Tree) (hco : con ∈ elems.constraints) :
      ∀ col ∈ (TableFacts.keyColumns con).map lowercase, col ≠ lowercase name := by
    intro col hc
    obtain ⟨text, ht, rfl⟩ := mem_map.1 hc
    have hp := h con hco
    rw [TableFacts.keyColumns] at ht
    rw [Index.keyParts] at hp
    cases hk : con.child? .keyList with
    | none =>
      rw [hk] at ht
      cases ht
    | some keys =>
      rw [hk] at ht hp
      obtain ⟨identifier, hi, rfl⟩ := mem_map.1 ht
      obtain ⟨part, hpa, hch⟩ := mem_filterMap.1 hi
      have hn := hp part hpa
      rw [KeyPart.ofTree, hch] at hn
      exact hn
  intro entry he
  obtain ⟨con, hco, he⟩ := mem_flatMap.1 he
  have hc := hcol con hco
  rw [TableFacts.keysOf] at he
  split at he
  · obtain ⟨col, hm, rfl⟩ := mem_map.1 he
    exact hc col hm
  · obtain ⟨col, hm, rfl⟩ := mem_map.1 he
    exact hc col (mem_of_mem_take hm)
  · obtain ⟨col, hm, rfl⟩ := mem_map.1 he
    exact hc col (mem_of_mem_take hm)
  · split at he
    · obtain ⟨col, hm, rfl⟩ := mem_map.1 he
      exact hc col (mem_of_mem_take hm)
    · cases he

end Tree

namespace Script

/-- Columns are described one after the other. -/
theorem describeAll_concat {facts : TableFacts} {defns : List Tree} {defn : Tree}
    {all : List Column} (h : describeAll facts (defns ++ [defn]) = (all, none)) :
    ∃ cols col, describeAll facts defns = (cols, none) ∧
      Column.ofDefinition defn facts = .ok col ∧ all = cols ++ [col] := by
  induction defns generalizing all with
  | nil =>
    rw [nil_append, describeAll] at h
    cases hc : Column.ofDefinition defn facts with
    | error error =>
      rw [hc] at h
      cases h
    | ok col =>
      rw [hc] at h
      cases h
      exact ⟨[], col, rfl, rfl, rfl⟩
  | cons first rest ih =>
    rw [cons_append, describeAll] at h
    rw [describeAll]
    cases hf : Column.ofDefinition first facts with
    | error error =>
      rw [hf] at h
      cases h
    | ok col =>
      rw [hf] at h
      rcases ho : describeAll facts (rest ++ [defn]) with ⟨others, _ | error⟩
      · rw [ho] at h
        cases h
        obtain ⟨cols, last, hr, hl, rfl⟩ := ih ho
        exact ⟨col :: cols, last, by rw [hr], hl, rfl⟩
      · rw [ho] at h
        cases h

theorem length_describeAll_le (facts : TableFacts) (defns : List Tree) :
    (describeAll facts defns).1.length ≤ defns.length := by
  induction defns with
  | nil => exact Nat.le_refl 0
  | cons defn rest ih =>
    rw [describeAll]
    cases Column.ofDefinition defn facts with
    | error error => exact Nat.zero_le _
    | ok col => exact Nat.succ_le_succ ih

/-- A column that no part of an index names leaves the rows of the index as they are. -/
theorem indexRows_concat {cols : List Column} {index : Index}
    (h : ∀ part ∈ index.parts, lowercase part.column ≠ lowercase col.name) :
    indexRows (cols ++ [col]) index = indexRows cols index := by
  have hn : ∀ part ∈ index.parts,
      columnNamed? (cols ++ [col]) part.column = columnNamed? cols part.column := by
    intro part hp
    have ho : Text.equalsIgnoringCase col.name part.column = false :=
      Bool.eq_false_iff.2 fun hs =>
        h part hp (Text.lowercase_eq_of_equalsIgnoringCase hs).symm
    rw [columnNamed?, find?_append, find?_cons, ho]
    exact Option.or_none
  have hl : (index.parts.head?.bind fun part =>
      columnNamed? (cols ++ [col]) part.column) =
      index.parts.head?.bind fun part => columnNamed? cols part.column :=
    Option.bind_congr fun part hp => hn part (mem_of_mem_head? hp)
  rw [indexRows, indexRows, hl]
  refine mapIdx_eq_mapIdx_iff.2 fun i hi => ?_
  rw [hn _ (getElem_mem hi)]

end Script

namespace Index

/-- The parts of the indexes of a table are those of its constraints. -/
theorem mem_parts_ofElements {elems : Tree} {index : Index} {part : KeyPart}
    (h : index ∈ ofElements elems) (hpa : part ∈ index.parts) :
    ∃ con ∈ elems.constraints, ∃ tree ∈ keyParts con,
      part = KeyPart.ofTree tree := by
  obtain ⟨other, ho, name, rfl⟩ := exists_of_mem_named h
  obtain ⟨con, hc, hd⟩ := mem_filterMap.1 ho
  obtain ⟨-, hk, -⟩ := ofConstraint?_eq_some hd
  obtain ⟨tree, ht, rfl⟩ := mem_map.1 (hk ▸ hpa)
  exact ⟨con, hc, tree, ht, rfl⟩

end Index

/-! ### Adding the column to the table -/

namespace Catalog

variable {cat : Catalog} {place : Place} {before : List ColumnRow} {cols : List Column}

theorem collation?_stored :
    cat.stored.collation? place =
      (cat.tables.find? (·.place = place)).map TableRow.collation := by
  have hat : (fun record : Record => decide (record.IsAt place)) ∘ TableRow.values =
      fun row => decide (row.place = place) :=
    funext fun row => decide_eq_decide.2 (isAt_iff rfl rfl)
  rw [Tables.collation?]
  show (((cat.tables.map TableRow.values).find? _).bind _).bind _ = _
  rw [find?_map, hat]
  cases cat.tables.find? (·.place = place) <;> rfl

theorem columnRows_concat (col : Column) : columnRows place (cols ++ [col]) =
    columnRows place cols ++ [⟨place, Int64.ofNat (cols.length + 1), col⟩] := by
  rw [columnRows, mapIdx_concat]
  rfl

theorem cachedTypes_concat (table : String) (types : List TypeRow) (col : Column) :
    cachedTypes table types (cols ++ [col]) =
      (cachedTypes table types cols).filter (!·.isOf table col.name) ++
        [⟨table, col.name, col.columnType⟩] := by
  induction cols generalizing types with
  | nil => rfl
  | cons first rest ih => exact ih _

theorem nextOrdinal?_columnRows (hb : ∀ row ∈ before, row.place ≠ place)
    (hc : cat.columns = before ++ columnRows place cols)
    (hf : cols.length < Int64.maxValue.toInt) :
    cat.nextOrdinal? place = some (Int64.ofNat (cols.length + 1)) := by
  have hro : (cat.columns.filter (·.place = place)).map ColumnRow.ordinal =
      cols.mapIdx fun i _ => Int64.ofNat (i + 1) := by
    have hn : before.filter (·.place = place) = [] :=
      filter_eq_nil_iff.2 fun row hr => by simpa using hb row hr
    have ha : (columnRows place cols).filter (·.place = place) = columnRows place cols :=
      filter_eq_self.2 fun row hr => by
        obtain ⟨i, hi, rfl⟩ := mem_mapIdx.1 hr
        simp
    rw [hc, filter_append, hn, nil_append, ha, columnRows, map_mapIdx]
  have hl : (cat.columns.filter (·.place = place)).length = cols.length := by
    simpa using congrArg length hro
  rw [nextOrdinal?_of_numbered (hro ▸ Numbered.mapIdx cols (by omega)), hl, if_pos hf]

/-- The catalog after a column is added to a table whose columns are recorded. -/
theorem after?_addColumn (hb : ∀ row ∈ before, row.place ≠ place)
    (hc : cat.columns = before ++ columnRows place cols)
    (hf : cols.length < Int64.maxValue.toInt) {defn : Tree} {facts : TableFacts}
    (hco : Column.ofDefinition defn facts = .ok col) :
    cat.after? (Script.addColumn place defn facts).commands = some
      { cat with
        columns := before ++ columnRows place (cols ++ [col])
        types := cat.types.filter (!·.isOf place.table col.name) ++
          [⟨place.table, col.name, col.columnType⟩] } := by
  rw [Script.addColumn, hco, after?, foldlM_cons, Command.effect,
    nextOrdinal?_columnRows hb hc hf, columnRows_concat, ← append_assoc,
    ← hc]
  rfl

/-- A column that is added makes one more row. -/
theorem length_columns_addColumn {defn : Tree} {facts : TableFacts} {next : Catalog}
    (hf : (Script.addColumn place defn facts).failure = none)
    (hn : cat.after? (Script.addColumn place defn facts).commands = some next) :
    next.columns.length = cat.columns.length + 1 := by
  unfold Script.addColumn at hf hn
  split at hn
  · obtain ⟨ordinal, -, rfl⟩ := after?_appendColumn.1 hn
    exact length_append
  · rename_i error he
    rw [he] at hf
    cases hf

/-- The rows of two columns that differ in their last column tell the collations of the two. -/
theorem collation_of_stored_eq {col other : Column} {first second : Catalog}
    (hf : first.columns = before ++ columnRows place (cols ++ [col]))
    (hs : second.columns = before ++ columnRows place (cols ++ [other]))
    (h : first.stored = second.stored) :
    col.encoding.map Encoding.collation = other.encoding.map Encoding.collation := by
  have hr : first.columns.map ColumnRow.record = second.columns.map ColumnRow.record :=
    congrArg Tables.columns h
  simp only [hf, hs, columnRows_concat, map_append] at hr
  have hl := congrArg (Record.value? · "collation_name")
    (cons.inj (append_cancel_left (append_cancel_left hr))).1
  have ht : Value.ofOption .text (col.encoding.map Encoding.collation) =
      .ofOption .text (other.encoding.map Encoding.collation) := Option.some.inj hl
  revert ht
  cases col.encoding.map Encoding.collation <;> cases other.encoding.map Encoding.collation <;>
    simp [Value.ofOption]

end Catalog

section Declaring

variable {tree elems defn : Tree} {separator : Token}

theorem ofCreateTable_withElement_column (h : defn.hasRule .columnDefinition)
    (he : tree.child? .tableElementList = some elems) :
    TableFacts.ofCreateTable (tree.withElement separator defn) = .ofCreateTable tree := by
  rw [TableFacts.ofCreateTable, TableFacts.ofCreateTable, child?_withElement_self he,
    he]
  simp only [TableFacts.lastNamed?, tableOptions_withElement, constraints_followedBy_column h]

variable {schema table : String} {cols : List Column} (cat : Catalog)
  (ht : tree.hasKeyword .TEMPORARY = false) (he : tree.child? .tableElementList = some elems)
  (hta : (tree.child? .tableName).bind lastName? = some table)

include ht he hta

/-- What is recorded for a table whose columns are described. -/
theorem Script.perform_createTable
    (hd : describeAll (.ofCreateTable tree) elems.columnDefinitions = (cols, none)) :
    (Script.createTable schema tree).perform Command.perform cat.stored =
      .ok ((), (cat.created (tableRow ⟨schema, table⟩ tree (.ofCreateTable tree)) cols
        ((Index.ofElements elems).flatMap (indexRows cols))).stored) := by
  have hc := cat.after?_createTable
    (tableRow ⟨schema, table⟩ tree (.ofCreateTable tree)) cols
    ((Index.ofElements elems).flatMap (indexRows cols))
  rw [Script.createTable_eq ht he hta, hd]
  exact Script.perform_stored_eq_ok.2 ⟨rfl, _, hc, rfl⟩

/-- The columns of a table that is recorded are described. -/
theorem Script.exists_described {after : Tables}
    (h : (Script.createTable schema tree).perform Command.perform cat.stored =
      .ok ((), after)) :
    ∃ cols, describeAll (.ofCreateTable tree) elems.columnDefinitions = (cols, none) := by
  obtain ⟨hf, -⟩ := Script.perform_stored_eq_ok.1 h
  rw [Script.createTable_eq ht he hta] at hf
  rcases hd : describeAll (.ofCreateTable tree) elems.columnDefinitions with
    ⟨cols, _ | error⟩
  · exact ⟨cols, rfl⟩
  · rw [hd] at hf
    cases hf

/-- What is recorded for a table with one more column that no key names. -/
theorem Script.perform_createTable_withElement_column (hd : defn.hasRule .columnDefinition)
    (hu : elems.NoKeyNames col.name)
    (hde : describeAll (.ofCreateTable tree) (elems.columnDefinitions ++ [defn]) =
      (cols ++ [col], none)) :
    (Script.createTable schema (tree.withElement separator defn)).perform Command.perform
      cat.stored = .ok ((), (cat.created
        (tableRow ⟨schema, table⟩ tree (.ofCreateTable tree)) (cols ++ [col])
        ((Index.ofElements elems).flatMap (indexRows cols))).stored) := by
  have hf : TableFacts.ofCreateTable (tree.withElement separator defn) =
      .ofCreateTable tree := ofCreateTable_withElement_column hd he
  have hro (facts : TableFacts) :
      tableRow ⟨schema, table⟩ (tree.withElement separator defn) facts =
        tableRow ⟨schema, table⟩ tree facts := tableRow_withElement facts.keys facts
  have hi : Index.ofElements (elems.followedBy separator defn) =
      Index.ofElements elems := by
    rw [Index.ofElements, constraints_followedBy_column hd, Index.ofElements]
  have hr : (Index.ofElements elems).flatMap (indexRows (cols ++ [col])) =
      (Index.ofElements elems).flatMap (indexRows cols) := by
    refine flatMap_congr fun index hin => indexRows_concat fun part hp => ?_
    obtain ⟨con, hc, keyPart, hk, rfl⟩ := Index.mem_parts_ofElements hin hp
    exact hu con hc keyPart hk
  have ha : describeAll (.ofCreateTable (tree.withElement separator defn))
      (elems.followedBy separator defn).columnDefinitions = (cols ++ [col], none) := by
    rw [hf, columnDefinitions_followedBy_column hd, hde]
  rw [Script.perform_createTable cat
    ((hasKeyword_withElement .TEMPORARY).trans ht)
    (child?_withElement_self he)
    (by rw [child?_withElement (by decide), hta]) ha, hf, hro, hi, hr]

/-- What is recorded for a table to which a column is added. -/
theorem follow_createTable_addColumn {added : Column}
    (hd : Script.describeAll (.ofCreateTable tree) elems.columnDefinitions =
      (cols, none))
    (ha : Column.ofDefinition defn
      (.ofCollation (some (TableFacts.ofCreateTable tree).tableCollation)) = .ok added)
    (hf : elems.columnDefinitions.length < Int64.maxValue.toInt)
    (hne : ¬cat.IsRecorded ⟨schema, table⟩)
    (hb : ∀ row ∈ cat.columns, row.place ≠ ⟨schema, table⟩) :
    ((Script.createTable schema tree).perform Command.perform cat.stored >>= fun done =>
      (CatalogChange.addColumn table defn).follow schema done.2) =
      .ok ((), (cat.created (Script.tableRow ⟨schema, table⟩ tree (.ofCreateTable tree))
        (cols ++ [added])
        ((Index.ofElements elems).flatMap (Script.indexRows cols))).stored) := by
  have hc : cols.length < Int64.maxValue.toInt := by
    have hl := Script.length_describeAll_le (.ofCreateTable tree) elems.columnDefinitions
    rw [hd] at hl
    dsimp only at hl
    omega
  have hn : cat.tables.find? (·.place = ⟨schema, table⟩) = none :=
    find?_eq_none.2 fun row hr hp =>
      hne (mem_map.2 ⟨row, hr, of_decide_eq_true hp⟩)
  rw [Script.perform_createTable cat ht he hta hd]
  refine Script.perform_stored_eq_ok.2 ?_
  rw [Tables.facts, Catalog.collation?_stored, Catalog.created, find?_append, hn, Option.none_or,
    find?_cons_of_pos (by simp [Script.tableRow])]
  have hs : (Script.addColumn ⟨schema, table⟩ defn
      (.ofCollation (some (TableFacts.ofCreateTable tree).tableCollation))).failure = none := by
    rw [Script.addColumn, ha]
  refine ⟨hs, _, Catalog.after?_addColumn hb rfl hc ha, ?_⟩
  rw [Catalog.created, Catalog.cachedTypes_concat]
  rfl

end Declaring

/-- A column that is declared last in its table gives the catalog that it gives when it is added to
the table afterwards, exactly if the table is not temporary and the column does not have the binary
collation of the character set of its table. -/
theorem follow_addColumn_iff {database table : String} {tables together : Tables}
    {tree elements definition name : Tree} (separator : Token) (h : Follows database tables)
    (helements : tree.child? .tableElementList = some elements)
    (htable : (tree.child? .tableName).bind Tree.lastName? = some table)
    (hdefinition : definition.hasRule .columnDefinition = true)
    (hname : definition.child? .identifier = some name)
    (hunnamed : elements.NoKeyNames name.nameText)
    (hconsistent : (TableFacts.ofCreateTable tree).IsConsistent)
    (hfew : elements.columnDefinitions.length < Int64.maxValue.toInt)
    (hnew : ¬tables.IsRecorded ⟨database, table⟩)
    (hcolumns : ∀ record ∈ tables.columns, ¬record.IsAt ⟨database, table⟩)
    (htogether : (CatalogChange.createTable (tree.withElement separator definition)).follow database
      tables = .ok ((), together)) :
    (do
      (CatalogChange.createTable tree).follow database
      (CatalogChange.addColumn table definition).follow database :
      StateT Tables (Except Error) Unit) tables = .ok ((), together) ↔
      tree.hasKeyword .TEMPORARY = false ∧
        Column.takesBinary definition (.ofCreateTable tree) = false := by
  obtain ⟨catalog, rfl⟩ := h.exists_stored
  have hbefore : ∀ row ∈ catalog.columns, row.place ≠ ⟨database, table⟩ := fun row hrow hplace =>
    hcolumns row.record (List.mem_map_of_mem hrow) ((Catalog.isAt_iff rfl rfl).2 hplace)
  have hthen : (do
      (CatalogChange.createTable tree).follow database
      (CatalogChange.addColumn table definition).follow database :
      StateT Tables (Except Error) Unit) catalog.stored =
      (Script.createTable database tree).perform Command.perform catalog.stored >>= fun done =>
        (CatalogChange.addColumn table definition).follow database done.2 := rfl
  rw [hthen]
  cases htemporary : tree.hasKeyword .TEMPORARY with
  | true =>
    have hnothing (other : Tree) (hother : other.hasKeyword .TEMPORARY = true) :
        Script.createTable database other = {} := by
      rw [Script.createTable, if_pos hother]
    rw [CatalogChange.follow, CatalogChange.script, hnothing _ (by
      rw [Tree.hasKeyword_withElement, htemporary])] at htogether
    cases htogether
    rw [hnothing tree htemporary]
    simp only [Bool.true_eq_false, false_and, iff_false]
    intro hadded
    obtain ⟨hfailure, next, hnext, hstored⟩ := Script.perform_stored_eq_ok.1 hadded
    have hlength := Catalog.length_columns_addColumn hfailure hnext
    have hsame := congrArg (List.length ∘ Tables.columns) hstored
    simp only [Function.comp_apply, Catalog.stored, List.length_map] at hsame
    omega
  | false =>
    obtain ⟨all, hall⟩ := Script.exists_described catalog
      ((Tree.hasKeyword_withElement .TEMPORARY).trans htemporary)
      (Tree.child?_withElement_self helements)
      (by rw [Tree.child?_withElement (by decide), htable]) htogether
    rw [ofCreateTable_withElement_column hdefinition helements,
      Tree.columnDefinitions_followedBy_column hdefinition] at hall
    obtain ⟨columns, column, hdescribed, hcolumn, rfl⟩ := Script.describeAll_concat hall
    obtain ⟨name', field, dataType, type, extent, hname', -, -, -, -, hdescription⟩ :=
      Column.ofDefinition_eq_ok hcolumn
    obtain rfl : name' = name := Option.some.inj (hname'.symm.trans hname)
    have hcolumnName : column.name = name'.nameText := by
      rw [hdescription]
      rfl
    rw [← hcolumnName] at hunnamed
    have hdeclared : (CatalogChange.createTable (tree.withElement separator definition)).follow
        database catalog.stored = _ := Script.perform_createTable_withElement_column catalog
      htemporary helements htable hdefinition hunnamed hall
    obtain rfl : _ = together := congrArg Prod.snd (Except.ok.inj (hdeclared.symm.trans htogether))
    obtain ⟨added, hadded, hsame, hdiffer⟩ :=
      Column.ofDefinition_recorded hconsistent hcolumn
        (by rw [TableFacts.ofCreateTable, helements]; exact hunnamed.keys)
    rw [follow_createTable_addColumn catalog htemporary helements htable hdescribed hadded hfew
      (fun hrecorded => hnew (Catalog.isRecorded_stored.2 hrecorded)) hbefore]
    simp only [true_and]
    constructor
    · intro heq
      by_contra htakes
      rw [Bool.not_eq_false] at htakes
      exact hdiffer htakes (Catalog.collation_of_stored_eq rfl rfl
        (congrArg Prod.snd (Except.ok.inj heq)))
    · intro hother
      rw [hsame hother]

/-- A table `t` of a column `a`, with the character set `latin1`. -/
def Tree.ofLatinTable : Tree :=
  .node .createTable [.node .tableName [ofName "t"], .node .tableElementList [
      .node .tableElement [.node .columnDefinition [ofName "a",
        .node .fieldDefinition [.node .dataType [.leaf ⟨.keyword .INT, "INT", 0⟩]]]]],
    .node .createTableOptions [.node .createTableOption [.leaf ⟨.keyword .CHARSET, "CHARSET", 0⟩,
      .node .charsetName [ofName "latin1"]]]]

/-- The definition of a column `c` of characters, with more words about its character set. -/
def Tree.ofTextColumn (charset : List Tree) : Tree :=
  .node .columnDefinition [ofName "c", .node .fieldDefinition [
    .node .dataType (.leaf ⟨.keyword .TEXT, "TEXT", 0⟩ :: charset)]]

theorem isConsistent_ofLatinTable : (TableFacts.ofCreateTable .ofLatinTable).IsConsistent := by
  have hch : (TableFacts.ofCreateTable .ofLatinTable).charset = some "latin1" := by decide
  have hc : (TableFacts.ofCreateTable .ofLatinTable).collation = none := by decide
  rw [TableFacts.IsConsistent, hch, hc]
  rintro charset ⟨⟩
  exact ⟨by decide, by simp⟩

/-- A column of characters takes the character set of its table either way. -/
theorem follow_addColumn_iff_text : ∃ together,
    (CatalogChange.createTable (Tree.ofLatinTable.withElement ⟨.symbol .comma, ",", 0⟩
      (.ofTextColumn []))).follow "d" {} = .ok ((), together) ∧
    together.columns.map (·.value? "collation_name") =
      [some .null, some (.text "latin1_general_ci")] ∧
    (do
      (CatalogChange.createTable .ofLatinTable).follow "d"
      (CatalogChange.addColumn "t" (.ofTextColumn [])).follow "d" :
      StateT Tables (Except Error) Unit) {} = .ok ((), together) :=
  ⟨_, rfl, by decide, (follow_addColumn_iff _ .empty rfl rfl rfl rfl (by decide)
    isConsistent_ofLatinTable (by decide) (by decide) (by decide) rfl).2 (by decide)⟩

/-- A column that asks for the binary collation has it if it is declared with its table, and not if
it is added. -/
theorem follow_addColumn_binary : ∃ together,
    (CatalogChange.createTable (Tree.ofLatinTable.withElement ⟨.symbol .comma, ",", 0⟩
      (.ofTextColumn [.node .charsetWithOptBinary [.leaf ⟨.keyword .BINARY, "BINARY", 0⟩]]))).follow
        "d" {} = .ok ((), together) ∧
    (TableFacts.ofCreateTable .ofLatinTable).IsConsistent ∧
    (do
      (CatalogChange.createTable .ofLatinTable).follow "d"
      (CatalogChange.addColumn "t" (.ofTextColumn
        [.node .charsetWithOptBinary [.leaf ⟨.keyword .BINARY, "BINARY", 0⟩]])).follow "d" :
      StateT Tables (Except Error) Unit) {} ≠ .ok ((), together) := by
  refine ⟨_, rfl, isConsistent_ofLatinTable, fun heq => ?_⟩
  have hcollations := congrArg (fun outcome => outcome.toOption.map fun done =>
    done.2.columns.map (·.value? "collation_name")) heq
  revert hcollations
  decide +kernel

end SqlBridge
