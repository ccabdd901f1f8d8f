/-
An index that is declared with its table, and one that is added to it afterwards.

* `Tree.withElement`: a `CREATE TABLE` with one more element at the end of its list.
* `Index.IsFor`: an index constraint that can be declared or added.  Each of its parts names one
  column of the table by its spelling.
* A constraint that is declared gives a key to the columns that have the name of its first one in
  lower case (`describeAll_append`), and comes last among the indexes (`Index.IsFor.ofElements`).
  The commands that add an index give the key to the first column itself (`after?_addIndex`).
* `perform_createTable_withElement_iff`: the two give the same catalog exactly if that is the same
  (`Index.RaisesOne`).
-/
import SqlBridge.Proofs.Catalog.IndexName
import SqlBridge.Proofs.Catalog.Numbered
import SqlBridge.Proofs.Catalog.Run
import SqlBridge.Proofs.Grammar.Shape

namespace SqlBridge

open List

open Text (lowercase)

/-! ### One more element -/

namespace Tree

/-- A list of table elements with a constraint after the others. -/
def followedBy (elements : Tree) (separator : Token) (constraint : Tree) : Tree :=
  .node .tableElementList (elements.children ++
    [leaf separator, .node .tableElement [constraint]])

/-- The children of a `CREATE TABLE` with a constraint after the elements of its list. -/
def childrenWithElement (separator : Token) (constraint : Tree) : List Tree → List Tree
  | [] => []
  | child :: rest =>
    if child.hasRule .tableElementList then child.followedBy separator constraint :: rest
    else child :: childrenWithElement separator constraint rest

/-- A `CREATE TABLE` with a constraint after the elements of its list. -/
def withElement (tree : Tree) (separator : Token) (constraint : Tree) : Tree :=
  .node .createTable (childrenWithElement separator constraint tree.children)

/-- The names of the columns that a list of table elements defines. -/
def columnNames (elements : Tree) : List String :=
  elements.columnDefinitions.filterMap fun defn =>
    (defn.child? .identifier).map nameText

variable {tree elems constraint : Tree} {separator : Token}

theorem childTokens_withElement :
    (tree.withElement separator constraint).childTokens = tree.childTokens := by
  show (childrenWithElement separator constraint tree.children).filterMap token? = _
  rw [childTokens]
  induction tree.children with
  | nil => rfl
  | cons child rest ih =>
    rw [childrenWithElement]
    split
    · rename_i hr
      obtain ⟨kids, rfl⟩ := exists_of_hasRule hr
      rfl
    · rw [filterMap_cons, filterMap_cons, ih]

theorem hasKeyword_withElement (kw : Keyword) :
    (tree.withElement separator constraint).hasKeyword kw = tree.hasKeyword kw := by
  rw [hasKeyword, hasKeyword, hasToken, hasToken, childToken?, childToken?,
    childTokens_withElement]

theorem child?_withElement {rule : Rule} (h : rule ≠ .tableElementList) :
    (tree.withElement separator constraint).child? rule = tree.child? rule := by
  show (childrenWithElement separator constraint tree.children).find? (hasRule rule) = _
  rw [child?]
  induction tree.children with
  | nil => rfl
  | cons child rest ih =>
    rw [childrenWithElement]
    split
    · rename_i hl
      obtain ⟨kids, rfl⟩ := exists_of_hasRule hl
      have ho (below : List Tree) : (node .tableElementList below).hasRule rule = false := by
        simpa [hasRule, rule?] using h.symm
      rw [followedBy, find?_cons, find?_cons, ho, ho]
    · rw [find?_cons, find?_cons, ih]

theorem child?_withElement_self (h : tree.child? .tableElementList = some elems) :
    (tree.withElement separator constraint).child? .tableElementList =
      some (elems.followedBy separator constraint) := by
  rw [child?] at h
  show (childrenWithElement separator constraint tree.children).find?
    (hasRule .tableElementList) = _
  generalize tree.children = children at h
  induction children with
  | nil => cases h
  | cons child rest ih =>
    rw [find?_cons] at h
    rw [childrenWithElement]
    split
    · rename_i hl
      rw [hl] at h
      cases h
      rfl
    · rename_i hl
      rw [Bool.not_eq_true] at hl
      rw [hl] at h
      rw [find?_cons, hl]
      exact ih h

theorem childrenBy_followedBy :
    (elems.followedBy separator constraint).childrenBy .tableElement =
      elems.childrenBy .tableElement ++ [node .tableElement [constraint]] := by
  rw [childrenBy, followedBy, children, filter_append]
  rfl

theorem columnDefinitions_followedBy (h : constraint.hasRule .tableConstraintDef) :
    (elems.followedBy separator constraint).columnDefinitions = elems.columnDefinitions := by
  have ho : constraint.hasRule .columnDefinition = false := by
    obtain ⟨kids, rfl⟩ := exists_of_hasRule h
    rfl
  have hn : (node .tableElement [constraint]).child? .columnDefinition = none := by
    rw [child?, children, find?_cons, ho]
    rfl
  rw [columnDefinitions, childrenBy_followedBy, filterMap_append, filterMap_cons, hn]
  exact append_nil _

theorem constraints_followedBy (h : constraint.hasRule .tableConstraintDef) :
    (elems.followedBy separator constraint).constraints =
      elems.constraints ++ [constraint] := by
  have hs : (node .tableElement [constraint]).child? .tableConstraintDef =
      some constraint := by
    rw [child?, children, find?_cons, h]
  rw [constraints, childrenBy_followedBy, filterMap_append, filterMap_cons, hs]
  rfl

end Tree

/-! ### The keys of columns -/

namespace ColumnKey

theorem join_assoc (a b c : ColumnKey) : (a.join b).join c = a.join (b.join c) := by
  cases a <;> cases b <;> cases c <;> rfl

theorem joinAll_append (keys : List ColumnKey) (key : ColumnKey) :
    joinAll (keys ++ [key]) = (joinAll keys).join key := by
  rw [joinAll, foldl_append]
  rfl

theorem promoted_eq_join (old : ColumnKey) {new : ColumnKey} (h : new ≠ .none) :
    Catalog.promoted old new = old.join new := by
  cases new with
  | none => exact absurd rfl h
  | multiple => cases old <;> rfl
  | unique => cases old <;> rfl
  | primary => cases old <;> rfl

/-- A key is known by its name. -/
theorem eq_of_name_eq {key other : ColumnKey} (h : key.name = other.name) : key = other := by
  revert h
  cases key <;> cases other <;> decide

end ColumnKey

namespace Column

/-- A column of a name in lower case with one more key. -/
def withKey (name : String) (key : ColumnKey) (column : Column) : Column :=
  if lowercase column.name = name then { column with key := column.key.join key } else column

/-- A column of a name, as it is spelled, with one more key. -/
def raised (name : String) (key : ColumnKey) (column : Column) : Column :=
  if column.name = name then { column with key := column.key.join key } else column

variable {name : String} {key : ColumnKey} {facts : TableFacts}

@[simp] theorem withKey_name (col : Column) : (col.withKey name key).name = col.name := by
  unfold withKey
  split <;> rfl

@[simp] theorem withKey_columnType (col : Column) :
    (col.withKey name key).columnType = col.columnType := by
  unfold withKey
  split <;> rfl

theorem key_append (col : String) :
    { facts with keys := facts.keys ++ [(name, key)] }.key col =
      if lowercase col = name then (facts.key col).join key else facts.key col := by
  rw [TableFacts.key, filter_append, map_append, TableFacts.key]
  by_cases hn : lowercase col = name
  · rw [if_pos hn, filter_cons_of_pos (by simp [hn])]
    exact ColumnKey.joinAll_append _ key
  · rw [if_neg hn, filter_cons_of_neg (by simpa using Ne.symm hn)]
    simp

theorem isPrimaryKey_append (col : String) (h : key ≠ .primary) :
    { facts with keys := facts.keys ++ [(name, key)] }.isPrimaryKey col =
      facts.isPrimaryKey col := by
  have ho : [(name, key)].contains (lowercase col, .primary) = false := by
    simpa using fun _ => Ne.symm h
  rw [TableFacts.isPrimaryKey, contains_append, ho, Bool.or_false]
  rfl

/-- Another key of the table is one more key of its column. -/
theorem describe_append (col : String) (field dataType : Tree) (type : TypeName)
    (extent : Option Extent) (h : key ≠ .primary) :
    describe col field dataType type extent
        { facts with keys := facts.keys ++ [(name, key)] } =
      (describe col field dataType type extent facts).withKey name key := by
  have hn : (describe col field dataType type extent facts).name = col := rfl
  rw [withKey, hn]
  unfold describe
  rw [key_append, isPrimaryKey_append col h]
  by_cases hl : lowercase col = name
  · rw [if_pos hl, if_pos hl]
    dsimp only
    rw [← ColumnKey.join_assoc]
    rfl
  · rw [if_neg hl, if_neg hl]
    rfl

theorem ofDefinition_append (defn : Tree) (h : key ≠ .primary) :
    ofDefinition defn { facts with keys := facts.keys ++ [(name, key)] } =
      (ofDefinition defn facts).map (withKey name key) := by
  unfold ofDefinition
  split
  · rfl
  · rfl
  · rename_i field _ _
    split
    · rfl
    · rename_i dataType _
      cases TypeName.ofDataType dataType with
      | error error => rfl
      | ok type =>
        -- lengths have nothing to do with keys
        show (extentOf dataType type ((encodingOf? dataType field type facts).map
          Encoding.charset) >>= _) = (extentOf dataType type _ >>= _).map _
        cases extentOf dataType type ((encodingOf? dataType field type facts).map
          Encoding.charset) with
        | error error => rfl
        | ok extent => exact congrArg Except.ok (describe_append _ _ _ _ _ h)

section Parts

variable {defn nameTree field dataType : Tree} {type : TypeName} {col : Column}

/-- A definition by its parts is described if its lengths fit. -/
theorem ofDefinition_of_parts (hn : defn.child? .identifier = some nameTree)
    (hf : defn.child? .fieldDefinition = some field)
    (hd : field.child? .dataType = some dataType) (ht : TypeName.ofDataType dataType = .ok type)
    (facts : TableFacts) :
    ofDefinition defn facts =
      (extentOf dataType type ((encodingOf? dataType field type facts).map Encoding.charset)).map
        (describe nameTree.nameText field dataType type · facts) := by
  rw [ofDefinition, hn, hf]
  dsimp only
  rw [hd]
  dsimp only
  rw [ht]
  show (extentOf dataType type _ >>= _) = _
  cases extentOf dataType type _ <;> rfl

/-- The parts of a definition that is described. -/
theorem ofDefinition_eq_ok (h : ofDefinition defn facts = .ok col) :
    ∃ nameTree field dataType type extent, defn.child? .identifier = some nameTree ∧
      defn.child? .fieldDefinition = some field ∧
      field.child? .dataType = some dataType ∧ TypeName.ofDataType dataType = .ok type ∧
      extentOf dataType type ((encodingOf? dataType field type facts).map Encoding.charset) =
        .ok extent ∧
      col = describe nameTree.nameText field dataType type extent facts := by
  have hp := h
  unfold ofDefinition at hp
  split at hp
  · cases hp
  · cases hp
  · rename_i nameTree field hn hf
    split at hp
    · cases hp
    · rename_i dataType hd
      cases ht : TypeName.ofDataType dataType with
      | error error =>
        rw [ht] at hp
        cases hp
      | ok type =>
        rw [ofDefinition_of_parts hn hf hd ht] at h
        cases he : extentOf dataType type
            ((encodingOf? dataType field type facts).map Encoding.charset) with
        | error error =>
          rw [he] at h
          cases h
        | ok extent =>
          rw [he] at h
          exact ⟨nameTree, field, dataType, type, extent, hn, hf, hd, ht, he,
            (Except.ok.inj h).symm⟩

end Parts

end Column

namespace Script

theorem describeAll_append {name : String} {key : ColumnKey} {facts : TableFacts}
    (defns : List Tree) (h : key ≠ .primary) :
    describeAll { facts with keys := facts.keys ++ [(name, key)] } defns =
      ((describeAll facts defns).1.map (Column.withKey name key),
        (describeAll facts defns).2) := by
  induction defns with
  | nil => rfl
  | cons defn rest ih =>
    rw [describeAll, describeAll, Column.ofDefinition_append defn h]
    cases Column.ofDefinition defn facts with
    | error error => rfl
    | ok col =>
      dsimp only [Except.map]
      rw [ih]
      rfl

/-- Columns that are described have the names of their definitions. -/
theorem names_describeAll {facts : TableFacts} {defns : List Tree}
    (h : (describeAll facts defns).2 = none) :
    (describeAll facts defns).1.map Column.name =
      defns.filterMap fun defn =>
        (defn.child? .identifier).map Tree.nameText := by
  induction defns with
  | nil => rfl
  | cons defn rest ih =>
    rw [describeAll] at h ⊢
    cases hc : Column.ofDefinition defn facts with
    | error error =>
      rw [hc] at h
      cases h
    | ok col =>
      rw [hc] at h
      obtain ⟨name, field, dataType, type, extent, hn, -, -, -, -, rfl⟩ :=
        Column.ofDefinition_eq_ok hc
      rw [filterMap_cons, hn]
      dsimp only [Option.map_some]
      rw [map_cons, ih h]
      rfl

theorem columnNamed?_withKey (cols : List Column) (name col : String) (key : ColumnKey) :
    columnNamed? (cols.map (Column.withKey name key)) col =
      (columnNamed? cols col).map (Column.withKey name key) := by
  have hs : (fun other => Text.equalsIgnoringCase other.name col) ∘ Column.withKey name key =
      fun other => Text.equalsIgnoringCase other.name col := by
    funext other
    rw [Function.comp_apply, Column.withKey_name]
  rw [columnNamed?, find?_map, hs, columnNamed?]

/-- The rows of an index have nothing of the keys of its columns. -/
theorem indexRows_withKey (cols : List Column) (name : String) (key : ColumnKey) :
    indexRows (cols.map (Column.withKey name key)) = indexRows cols := by
  funext index
  have hr (method : IndexMethod) (info? : Option Column) (pos : Nat) (part : KeyPart) :
      indexRow index method (info?.map (Column.withKey name key)) pos part =
        indexRow index method info? pos part := by
    cases info? with
    | none => rfl
    | some info =>
      rw [Option.map_some, Column.withKey]
      split <;> rfl
  have hs (info? : Option Column) :
      (info?.map (Column.withKey name key)).any (·.dataType.isSpatial) =
        info?.any (·.dataType.isSpatial) := by
    cases info? with
    | none => rfl
    | some info =>
      rw [Option.map_some, Column.withKey]
      split <;> rfl
  have hl : ((index.parts.head?.bind fun part =>
      columnNamed? (cols.map (Column.withKey name key)) part.column).any
        (·.dataType.isSpatial)) =
      (index.parts.head?.bind fun part => columnNamed? cols part.column).any
        (·.dataType.isSpatial) := by
    cases index.parts.head? with
    | none => rfl
    | some part => rw [Option.bind_some, columnNamed?_withKey, hs, Option.bind_some]
  rw [indexRows, indexRows, hl]
  simp only [columnNamed?_withKey, hr]

theorem keyOfIndex_ne_none (index : Index) : keyOfIndex index ≠ .none := by
  rw [keyOfIndex]
  split <;> decide

theorem keyOfIndex_ne_primary {index : Index} (h : index.kind ≠ .primary) :
    keyOfIndex index ≠ .primary := by
  rw [keyOfIndex]
  split
  · contradiction
  · decide
  · decide

end Script

/-! ### The index of a constraint -/

namespace Index

/-- The parts of the key that a constraint declares. -/
def keyParts (constraint : Tree) : List Tree :=
  match constraint.child? .keyList with
  | some keys => keys.childrenBy .keyPart
  | none => []

theorem ofConstraint?_eq_some {constraint : Tree} {index : Index}
    (h : ofConstraint? constraint = some index) :
    constraint.indexKind? = some index.kind ∧
      index.parts = (keyParts constraint).map KeyPart.ofTree ∧ index.parts ≠ [] := by
  obtain ⟨kind, hki, hn⟩ := Option.bind_eq_some_iff.1 h
  rw [ofNode] at hn
  cases hk : constraint.child? .keyList with
  | none =>
    rw [hk] at hn
    cases hn
  | some keys =>
    rw [hk] at hn
    dsimp only at hn
    split at hn
    · cases hn
    · rename_i first rest hp
      cases hn
      refine ⟨hki, ?_, cons_ne_nil _ _⟩
      rw [keyParts, hk]
      exact hp.symm

/-- An index with the constraint of a table that declares it.  It is not the primary key, each of
its parts names one column of the table by its spelling, no other column has that name with ASCII
case aside, and no other index has the name of the index in lower case. -/
structure IsFor (index : Index) (constraint elements : Tree) : Prop where
  isConstraint : constraint.hasRule .tableConstraintDef
  declared : ofConstraint? constraint = some index
  secondary : index.kind ≠ .primary
  named : ∀ part ∈ keyParts constraint, part.hasChild .identifier
  columns : ∀ part ∈ index.parts,
    elements.columnNames.filter (Text.equalsIgnoringCase · part.column) = [part.column]
  free : lowercase index.name ∉ (ofElements elements).map fun other => lowercase other.name

/-- The key of an index is news to one column at most: another column that has the name of the
leading one in lower case has a key already that is no less. -/
def RaisesOne (index : Index) (columns : List Column) : Prop :=
  ∀ leading ∈ index.parts.head?, ∀ col ∈ columns,
    lowercase col.name = lowercase leading.column →
      col.name = leading.column ∨ col.key.join (Script.keyOfIndex index) = col.key

instance (index : Index) (columns : List Column) : Decidable (index.RaisesOne columns) :=
  inferInstanceAs (Decidable (∀ leading ∈ index.parts.head?, ∀ column ∈ columns,
    lowercase column.name = lowercase leading.column →
      column.name = leading.column ∨ column.key.join (Script.keyOfIndex index) = column.key))

variable {index : Index} {constraint elems : Tree}
variable {leading : KeyPart} {rest : List KeyPart}

theorem IsFor.keyColumns (h : index.IsFor constraint elems) :
    TableFacts.keyColumns constraint = index.parts.map KeyPart.column := by
  obtain ⟨-, hp, -⟩ := ofConstraint?_eq_some h.declared
  have hc (parts : List Tree) (hn : ∀ part ∈ parts, part.hasChild .identifier) :
      (parts.filterMap (·.child? .identifier)).map Tree.nameText =
        (parts.map KeyPart.ofTree).map KeyPart.column := by
    induction parts with
    | nil => rfl
    | cons part rest ih =>
      rw [forall_mem_cons] at hn
      obtain ⟨name, hna⟩ := Option.isSome_iff_exists.1 hn.1
      rw [filterMap_cons, hna, map_cons, map_cons, map_cons, ← ih hn.2,
        KeyPart.ofTree, hna]
      rfl
  rw [hp, ← hc _ h.named, TableFacts.keyColumns, keyParts]
  cases constraint.child? .keyList <;> rfl

/-- The constraint gives one key, to the first column of the index. -/
theorem IsFor.keysOf (h : index.IsFor constraint elems) (hp : index.parts = leading :: rest) :
    TableFacts.keysOf constraint = [(lowercase leading.column, Script.keyOfIndex index)] := by
  obtain ⟨hk, -, -⟩ := ofConstraint?_eq_some h.declared
  have hs := h.secondary
  rw [TableFacts.keysOf, h.keyColumns, hp, hk, Script.keyOfIndex]
  cases hi : index.kind with
  | primary => exact absurd hi hs
  | unique => rfl
  | plain => rfl
  | fulltext => rfl
  | spatial => rfl

theorem named_concat {used : List String} (indexes : List Index) (hu : lowercase index.name ∉ used)
    (h : lowercase index.name ∉ (named used indexes).map fun other => lowercase other.name) :
    named used (indexes ++ [index]) = named used indexes ++ [index] := by
  induction indexes generalizing used with
  | nil =>
    rw [nil_append, named, named, freshName_of_not_mem hu]
    rfl
  | cons first rest ih =>
    rw [named, map_cons, mem_cons, not_or] at h
    rw [cons_append, named, named, cons_append,
      ih (not_mem_cons_of_ne_of_not_mem h.1 hu) h.2]

/-- An index that is declared comes after the others. -/
theorem IsFor.ofElements (h : index.IsFor constraint elems) (separator : Token) :
    ofElements (elems.followedBy separator constraint) = ofElements elems ++ [index] := by
  rw [Index.ofElements, Tree.constraints_followedBy h.isConstraint, filterMap_append,
    filterMap_cons, h.declared]
  exact named_concat _ not_mem_nil h.free

/-- Columns that get the key in lower case get it as they are spelled. -/
theorem RaisesOne.map_withKey {cols : List Column} (h : index.RaisesOne cols)
    (hp : index.parts = leading :: rest) :
    cols.map (Column.withKey (lowercase leading.column) (Script.keyOfIndex index)) =
      cols.map (Column.raised leading.column (Script.keyOfIndex index)) := by
  refine map_congr_left fun col hc => ?_
  have hr := h leading (by rw [hp]; rfl) col hc
  unfold Column.withKey Column.raised
  by_cases hn : col.name = leading.column
  · rw [if_pos (congrArg lowercase hn), if_pos hn]
  · rw [if_neg hn]
    split
    · rename_i hl
      rw [(hr hl).resolve_left hn]
    · rfl

/-- The keys alone tell. -/
theorem raisesOne_of_keys {cols : List Column} (hp : index.parts = leading :: rest)
    (h : (cols.map (Column.withKey (lowercase leading.column) (Script.keyOfIndex index))).map
        Column.key =
      (cols.map (Column.raised leading.column (Script.keyOfIndex index))).map Column.key) :
    index.RaisesOne cols := by
  rw [map_map, map_map] at h
  intro first hf col hc hl
  obtain rfl : leading = first := by simpa [hp] using hf
  have hk := map_inj_left.1 h col hc
  rw [Function.comp_apply, Function.comp_apply, Column.withKey, if_pos hl, Column.raised] at hk
  split at hk
  · rename_i hn
    exact .inl hn
  · exact .inr hk

end Index

/-! ### Adding the index to the table -/

/-- A column of a name that no other column has with ASCII case aside. -/
structure Column.IsOnly (columns : List Column) (name : String) (column : Column) : Prop where
  only : columns.filter (fun other => Text.equalsIgnoringCase other.name name) = [column]
  name_eq : column.name = name

namespace Column.IsOnly

variable {cols : List Column} {name : String} {col : Column}

theorem of_filter_names (h : (cols.map Column.name).filter (Text.equalsIgnoringCase · name) =
    [name]) : ∃ col, IsOnly cols name col := by
  rw [filter_map] at h
  obtain ⟨col, hc, hn⟩ := map_eq_singleton_iff.1 h
  exact ⟨col, hc, hn⟩

theorem filter_name (h : IsOnly cols name col) :
    cols.filter (·.name = name) = [col] := by
  have hb : cols.filter (·.name = name) =
      (cols.filter fun other => Text.equalsIgnoringCase other.name name).filter
        (·.name = name) := by
    rw [filter_filter]
    refine filter_congr fun other _ => ?_
    by_cases ho : other.name = name
    · simp [ho, Text.equalsIgnoringCase]
    · simp [ho]
  rw [hb, h.only, filter_singleton, decide_eq_true h.name_eq]
  rfl

theorem columnNamed? (h : IsOnly cols name col) :
    Script.columnNamed? cols name = some col := by
  rw [Script.columnNamed?, ← head?_filter, h.only]
  rfl

end Column.IsOnly

namespace Catalog

variable {cat : Catalog} {place : Place} {before : List ColumnRow} {cols : List Column}

theorem map_column_columnRows : (columnRows place cols).map ColumnRow.column = cols := by
  rw [columnRows, map_mapIdx, mapIdx_const, map_id']

theorem filter_isOf (hb : ∀ row ∈ before, row.place ≠ place) (name : String) :
    ((before ++ columnRows place cols).filter (·.isOf place name)).map ColumnRow.column =
      cols.filter (·.name = name) := by
  have hn : before.filter (·.isOf place name) = [] :=
    filter_eq_nil_iff.2 fun row hr => by simp [ColumnRow.isOf, hb row hr]
  have hro : (columnRows place cols).filter (·.isOf place name) =
      (columnRows place cols).filter ((fun col => decide (col.name = name)) ∘
        ColumnRow.column) := by
    refine filter_congr fun row hr => ?_
    obtain ⟨i, hi, rfl⟩ := mem_mapIdx.1 hr
    simp [ColumnRow.isOf]
  rw [filter_append, hn, nil_append, hro, ← filter_map, map_column_columnRows]

/-- Tables that are the same have the same keys. -/
theorem keys_of_stored_eq {others : List Column} {first second : Catalog}
    (hf : first.columns = before ++ columnRows place cols)
    (hs : second.columns = before ++ columnRows place others)
    (h : first.stored = second.stored) : cols.map Column.key = others.map Column.key := by
  have hv (rows : List ColumnRow) : (rows.map ColumnRow.record).map (·.value? "column_key") =
      ((rows.map ColumnRow.column).map Column.key).map fun key => some (.text key.name) := by
    rw [map_map, map_map, map_map]
    rfl
  have hr : first.columns.map ColumnRow.record = second.columns.map ColumnRow.record :=
    congrArg Tables.columns h
  rw [hf, hs, map_append, map_append] at hr
  have hk := congrArg (map (·.value? "column_key")) (append_cancel_left hr)
  rw [hv, hv, map_column_columnRows, map_column_columnRows] at hk
  refine map_injective_iff.2 (fun key other he => ?_) hk
  exact ColumnKey.eq_of_name_eq (Value.text.inj (Option.some.inj he))

/-- The key that an index gives to its first column. -/
theorem changed_promoted (hb : ∀ row ∈ before, row.place ≠ place) (leading : String)
    {key : ColumnKey} (hke : key ≠ .none) :
    (changed (before ++ columnRows place cols) (·.isOf place leading) fun row =>
      { row with column.key := promoted row.column.key key }) =
      before ++ columnRows place (cols.map (Column.raised leading key)) := by
  have hk : (changed before (·.isOf place leading) fun row =>
      { row with column.key := promoted row.column.key key }) = before :=
    changed_of_forall_false fun row hr => by simp [ColumnRow.isOf, hb row hr]
  rw [changed_append, hk, changed, columnRows, map_mapIdx, columnRows,
    ← mapIdx_const cols (Column.raised _ key), mapIdx_mapIdx]
  refine congrArg (before ++ ·) (mapIdx_eq_mapIdx_iff.2 fun i hi => ?_)
  by_cases hl : cols[i].name = leading
  · simp [ColumnRow.isOf, Column.raised, hl, ColumnKey.promoted_eq_join _ hke]
  · simp [ColumnRow.isOf, Column.raised, hl]

section Only

variable (hb : ∀ row ∈ before, row.place ≠ place)
  (hc : cat.columns = before ++ columnRows place cols)
  {leading : KeyPart} {rest : List KeyPart}
include hb hc

/-- The row of the only column of its name. -/
theorem exists_row_of_isOnly {name : String} {col : Column} (h : Column.IsOnly cols name col) :
    ∃ row, cat.columns.filter (·.isOf place name) = [row] ∧ row.column = col := by
  refine map_eq_singleton_iff.1 ?_
  rw [hc, filter_isOf hb, h.filter_name]

/-- A part of an index over the only column of its name. -/
theorem addedParts_of_isOnly {part : KeyPart}
    {col : Column} (h : Column.IsOnly cols part.column col) (index : Index)
    (leading : String) (pos : Int64) :
    cat.addedParts place index leading pos part =
      [⟨place, { Script.indexRow index (cat.methodOf place index leading)
        (Script.columnNamed? cols part.column) 0 part with position := pos }⟩] := by
  obtain ⟨row, hr, hco⟩ := exists_row_of_isOnly hb hc h
  rw [addedParts, hr, h.columnNamed?, ← hco]
  rfl

theorem methodOf_eq {leading : String} {col : Column} (h : Column.IsOnly cols leading col)
    (index : Index) : cat.methodOf place index leading =
      index.method ((Script.columnNamed? cols leading).any (·.dataType.isSpatial)) := by
  obtain ⟨row, hr, hco⟩ := exists_row_of_isOnly hb hc h
  rw [methodOf, ← head?_filter, hr, h.columnNamed?, ← hco]
  rfl

/-- The parts of an index are those that the table would have declared. -/
theorem flatten_addedParts {index : Index} (hp : index.parts = leading :: rest)
    (ho : ∀ part ∈ index.parts, ∃ col, Column.IsOnly cols part.column col) :
    (index.parts.mapIdx fun i part => cat.addedParts place index leading.column
      (Int64.ofNat (i + 1)) part).flatten =
      (Script.indexRows cols index).map fun row => ⟨place, row⟩ := by
  obtain ⟨first, hf⟩ := ho leading (by rw [hp]; exact mem_cons_self)
  have hm := methodOf_eq hb hc hf index
  have hr : (index.parts.mapIdx fun i part => cat.addedParts place index leading.column
      (Int64.ofNat (i + 1)) part) = ((Script.indexRows cols index).map fun row =>
        (⟨place, row⟩ : PartRow)).map ([·]) := by
    have hh : index.parts.head?.bind (fun part => Script.columnNamed? cols part.column) =
        Script.columnNamed? cols leading.column := by
      rw [hp]
      rfl
    rw [Script.indexRows, hh, map_mapIdx, map_mapIdx]
    refine mapIdx_eq_mapIdx_iff.2 fun i hi => ?_
    obtain ⟨col, hco⟩ := ho _ (getElem_mem hi)
    rw [addedParts_of_isOnly hb hc hco, hm]
    rfl
  rw [hr]
  exact flatMap_singleton' _

theorem after?_addIndex {index : Index} (hp : index.parts = leading :: rest)
    (hs : index.kind ≠ .primary)
    (ho : ∀ part ∈ index.parts, ∃ col, Column.IsOnly cols part.column col) :
    cat.after? (Script.addIndex place index).commands = some
      { cat with
        columns := before ++ columnRows place (cols.map
          (Column.raised leading.column (Script.keyOfIndex index)))
        parts := cat.parts ++ (Script.indexRows cols index).map
          fun row => ⟨place, row⟩ } := by
  have hk := Script.keyOfIndex_ne_none index
  rw [Script.commands_addIndex hp hs, after?_append, after?_addIndexParts,
    flatten_addedParts hb hc hp ho, ← changed_promoted hb _ hk, ← hc]
  rfl

end Only

theorem cachedTypes_withKey (table : String) (types : List TypeRow) (cols : List Column)
    (name : String) (key : ColumnKey) :
    cachedTypes table types (cols.map (Column.withKey name key)) =
      cachedTypes table types cols := by
  induction cols generalizing types with
  | nil => rfl
  | cons col rest ih =>
    rw [map_cons, cachedTypes, cachedTypes, ih, Column.withKey_name,
      Column.withKey_columnType]

/-- An index of a table without columns changes nothing. -/
theorem after?_addIndex_of_unrecorded (hp : ∀ row ∈ cat.columns, row.place ≠ place)
    (index : Index) : cat.after? (Script.addIndex place index).commands = some cat := by
  have hi (name : String) : ∀ row ∈ cat.columns, row.isOf place name = false :=
    fun row hr => by simp [ColumnRow.isOf, hp row hr]
  have ha (leading : String) (pos : Int64) (part : KeyPart) :
      cat.addedParts place index leading pos part = [] := by
    rw [addedParts, filter_eq_nil_iff.2 fun row hr => by simp [hi _ row hr]]
    rfl
  have hk (parts : List KeyPart) (key : ColumnKey) : cat.after? (parts.map fun part =>
      .promoteKey place part.column key) = some cat := by
    induction parts with
    | nil => rfl
    | cons part rest ih =>
      rw [map_cons, after?, foldlM_cons, Command.effect,
        changed_of_forall_false (hi part.column)]
      exact ih
  rw [Script.addIndex]
  split
  · rfl
  · have hn : (index.parts.mapIdx fun _ _ => ([] : List PartRow)).flatten = [] := by
      rw [flatten_eq_nil_iff]
      intro rows hro
      obtain ⟨_, _, rfl⟩ := mem_mapIdx.1 hro
      rfl
    simp only [after?_append, after?_addIndexParts, ha, hn, append_nil,
      Option.bind_some]
    exact hk _ _

end Catalog

/-! ### Declaring the index with the table -/

section Declaring

variable {tree elems constraint : Tree} {separator : Token} {index : Index} {schema : String}
  {place : Place} {leading : KeyPart} {rest : List KeyPart}

theorem tableOptions_withElement : TableFacts.tableOptions (tree.withElement separator constraint) =
    TableFacts.tableOptions tree := by
  rw [TableFacts.tableOptions, Tree.child?_withElement (by decide), TableFacts.tableOptions]

/-- The constraint adds a key to the facts about the table. -/
theorem ofCreateTable_withElement (h : index.IsFor constraint elems)
    (hp : index.parts = leading :: rest) (he : tree.child? .tableElementList = some elems) :
    TableFacts.ofCreateTable (tree.withElement separator constraint) =
      { TableFacts.ofCreateTable tree with
        keys := (TableFacts.ofCreateTable tree).keys ++
          [(lowercase leading.column, Script.keyOfIndex index)] } := by
  rw [TableFacts.ofCreateTable, TableFacts.ofCreateTable, Tree.child?_withElement_self he,
    he]
  simp only [TableFacts.lastNamed?, tableOptions_withElement,
    Tree.constraints_followedBy h.isConstraint, flatMap_append, flatMap_cons,
    flatMap_nil, append_nil, h.keysOf hp]

theorem tableRow_withElement (keys : List (String × ColumnKey)) (facts : TableFacts) :
    Script.tableRow place (tree.withElement separator constraint) { facts with keys } =
      Script.tableRow place tree facts := by
  simp only [Script.tableRow, Script.engineOf, Script.tableOption?, tableOptions_withElement]
  rfl

end Declaring

/-- A script after another on the tables of the catalog. -/
theorem Script.perform_then_stored (first second : Script) (cat : Catalog) :
    (do
      first.perform Command.perform
      second.perform Command.perform : StateT Tables (Except Error) Unit) cat.stored =
      match cat.after? first.commands, first.failure with
      | none, _ => .error (.storage ⟨none, "query failed"⟩)
      | some _, some error => .error error
      | some after, none => second.perform Command.perform after.stored := by
  show (first.perform Command.perform cat.stored >>= fun done =>
    second.perform Command.perform done.2) = _
  rw [Script.perform_stored]
  cases cat.after? first.commands with
  | none => rfl
  | some after => cases first.failure <;> rfl

/-- What is recorded for a table that is not temporary. -/
theorem Script.createTable_eq {schema table : String} {tree elems : Tree}
    (ht : tree.hasKeyword .TEMPORARY = false)
    (he : tree.child? .tableElementList = some elems)
    (hta : (tree.child? .tableName).bind Tree.lastName? = some table) :
    Script.createTable schema tree =
      match describeAll (TableFacts.ofCreateTable tree) elems.columnDefinitions with
      | (cols, some error) =>
        { commands := .recordTable (tableRow ⟨schema, table⟩ tree (.ofCreateTable tree)) ::
            cols.mapIdx fun i col =>
              .recordColumn ⟨schema, table⟩ (Int64.ofNat (i + 1)) col
          failure := some error }
      | (cols, none) =>
        { commands := .recordTable (tableRow ⟨schema, table⟩ tree (.ofCreateTable tree)) ::
            (cols.mapIdx fun i col =>
              .recordColumn ⟨schema, table⟩ (Int64.ofNat (i + 1)) col) ++
            ((Index.ofElements elems).flatMap (indexRows cols)).map
              (.recordIndexPart ⟨schema, table⟩) ++
            cols.map fun col => .cacheType table col.name col.columnType } := by
  rw [createTable, ht, he, hta]
  dsimp only [Bool.false_eq_true, if_false]
  rcases describeAll (TableFacts.ofCreateTable tree) elems.columnDefinitions with
    ⟨cols, _ | error⟩ <;> rfl

/-- **An index that is declared with its table** gives the catalog that it gives when it is added to
the table afterwards, exactly if its key raises that of one column only.  Of a temporary table, and
of one with a column that has no description, nothing is recorded either way. -/
theorem perform_createTable_withElement_iff {schema table : String}
    {tree elements constraint : Tree} {index : Index} (catalog : Catalog) (separator : Token)
    (helements : tree.child? .tableElementList = some elements)
    (htable : (tree.child? .tableName).bind Tree.lastName? = some table)
    (hindex : index.IsFor constraint elements)
    (hnew : ∀ row ∈ catalog.columns, row.place ≠ ⟨schema, table⟩) :
    (Script.createTable schema (tree.withElement separator constraint)).perform Command.perform
      catalog.stored =
      (do
        (Script.createTable schema tree).perform Command.perform
        (Script.addIndex ⟨schema, table⟩ index).perform Command.perform :
        StateT Tables (Except Error) Unit) catalog.stored ↔
      (tree.hasKeyword .TEMPORARY = false → ∀ columns,
        Script.describeAll (.ofCreateTable tree) elements.columnDefinitions = (columns, none) →
          index.RaisesOne columns) := by
  obtain ⟨-, -, hparts⟩ := Index.ofConstraint?_eq_some hindex.declared
  obtain ⟨leading, rest, hparts⟩ := List.exists_cons_of_ne_nil hparts
  have hadding : (Script.addIndex ⟨schema, table⟩ index).failure = none := by
    rw [Script.addIndex, hparts]
  rw [Script.perform_stored, Script.perform_then_stored]
  cases htemporary : tree.hasKeyword .TEMPORARY with
  | true =>
    have hnothing : Script.createTable schema tree = {} := by
      rw [Script.createTable, if_pos htemporary]
    have hnothing' : Script.createTable schema (tree.withElement separator constraint) = {} := by
      rw [Script.createTable, Tree.hasKeyword_withElement, if_pos htemporary]
    rw [hnothing, hnothing']
    refine iff_of_true ?_ fun h => by cases h
    show .ok ((), catalog.stored) =
      (Script.addIndex ⟨schema, table⟩ index).perform Command.perform catalog.stored
    rw [Script.perform_stored, Catalog.after?_addIndex_of_unrecorded hnew index, hadding]
  | false =>
    have htemporary' : (tree.withElement separator constraint).hasKeyword .TEMPORARY = false :=
      (Tree.hasKeyword_withElement .TEMPORARY).trans htemporary
    have htable' : ((tree.withElement separator constraint).child? .tableName).bind
        Tree.lastName? = some table := by
      rw [Tree.child?_withElement (by decide), htable]
    rw [Script.createTable_eq htemporary helements htable, Script.createTable_eq htemporary'
      (Tree.child?_withElement_self helements) htable',
      ofCreateTable_withElement hindex hparts helements, tableRow_withElement,
      Tree.columnDefinitions_followedBy hindex.isConstraint,
      Script.describeAll_append _ (Script.keyOfIndex_ne_primary hindex.secondary),
      hindex.ofElements separator]
    rcases hdescribed : Script.describeAll (TableFacts.ofCreateTable tree)
      elements.columnDefinitions with ⟨columns, _ | error⟩
    · have hnames := Script.names_describeAll (congrArg Prod.snd hdescribed)
      rw [hdescribed] at hnames
      have honly : ∀ part ∈ index.parts, ∃ column, Column.IsOnly columns part.column column :=
        fun part hpart => Column.IsOnly.of_filter_names (hnames.symm ▸ hindex.columns part hpart)
      have hrows : (Index.ofElements elements ++ [index]).flatMap (Script.indexRows
          (columns.map (Column.withKey (lowercase leading.column) (Script.keyOfIndex index)))) =
          (Index.ofElements elements).flatMap (Script.indexRows columns) ++
            Script.indexRows columns index := by
        rw [Script.indexRows_withKey, List.flatMap_append, List.flatMap_singleton]
      have hcreated (columns : List Column) (rows : List IndexRow) := catalog.after?_createTable
        (Script.tableRow ⟨schema, table⟩ tree (.ofCreateTable tree)) columns rows
      dsimp only [Script.tableRow] at hcreated ⊢
      rw [hcreated, hcreated, hrows, Catalog.created, Catalog.cachedTypes_withKey]
      dsimp only
      rw [Script.perform_stored, Catalog.after?_addIndex hnew rfl hparts hindex.secondary honly,
        hadding, List.map_append, ← List.append_assoc]
      -- the two differ in the keys of columns alone
      constructor
      · rintro heq - _ ⟨⟩
        exact Index.raisesOne_of_keys hparts (Catalog.keys_of_stored_eq rfl rfl
          (congrArg Prod.snd (Except.ok.inj heq)))
      · intro hraises
        rw [(hraises rfl columns rfl).map_withKey hparts]
        rfl
    · have hrecorded (columns : List Column) := catalog.after?_recordTable
        (Script.tableRow ⟨schema, table⟩ tree (.ofCreateTable tree)) columns
      dsimp only [Script.tableRow] at hrecorded ⊢
      rw [hrecorded, hrecorded]
      exact iff_of_true rfl fun _ _ h => by cases h

/-- An index over two columns, the second of which has the name of a third one in lower case. -/
theorem perform_createTable_withElement_two : ∃ index,
    Index.ofConstraint? (.ofKey "l" ["a", "é"]) = some index ∧
    (Script.createTable "d" ((Tree.ofTable "t" ["a", "É", "é"] [.ofKey "k" ["É"]]).withElement
      ⟨.symbol .comma, ",", 0⟩ (.ofKey "l" ["a", "é"]))).perform Command.perform {} =
      (do
        (Script.createTable "d" (.ofTable "t" ["a", "É", "é"] [.ofKey "k" ["É"]])).perform
          Command.perform
        (Script.addIndex ⟨"d", "t"⟩ index).perform Command.perform :
        StateT Tables (Except Error) Unit) {} := by
  refine ⟨_, rfl, (perform_createTable_withElement_iff {} _ rfl rfl
    { isConstraint := rfl
      declared := rfl
      secondary := by decide
      named := by decide
      columns := by decide
      free := by decide }
    (by simp)).2 fun _ columns hdescribed => ?_⟩
  obtain rfl : _ = columns := congrArg Prod.fst hdescribed
  decide +kernel

/-- Where two columns have one name in lower case, an index over one of them makes both of them keys
if it is declared with the table, and one of them if it is added. -/
theorem createTable_withElement_accented : ∃ elements index,
    (Tree.ofTable "t" ["É", "é"] []).child? .tableElementList = some elements ∧
    Index.ofConstraint? (.ofKey "k" ["é"]) = some index ∧ index.kind ≠ .primary ∧
    (∀ part ∈ index.parts, part.column ∈ elements.columnNames) ∧
    index.name ∉ (Index.ofElements elements).map Index.name ∧
    (Script.createTable "d" ((Tree.ofTable "t" ["É", "é"] []).withElement
      ⟨.symbol .comma, ",", 0⟩ (.ofKey "k" ["é"]))).perform Command.perform {} ≠
      (do
        (Script.createTable "d" (.ofTable "t" ["É", "é"] [])).perform Command.perform
        (Script.addIndex ⟨"d", "t"⟩ index).perform Command.perform :
        StateT Tables (Except Error) Unit) {} := by
  refine ⟨_, _, rfl, rfl, by decide, by decide, by decide, fun heq => ?_⟩
  have hkeys := congrArg (fun outcome => outcome.toOption.map fun done =>
    done.2.columns.map (·.value? "column_key")) heq
  revert hkeys
  decide +kernel

end SqlBridge
