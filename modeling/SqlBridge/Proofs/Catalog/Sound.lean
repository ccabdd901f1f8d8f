/-
The catalog describes its tables, whatever changes it follows.

* `Catalog.Sound`: a table is recorded once, its columns and the parts of each of its indexes are
  numbered from one on, an index is over columns of its table, and the types in the cache are those
  of the columns.
* A sound catalog stays sound: one lemma for each change of a table (`Catalog.Carries`).
-/
import SqlBridge.Proofs.Catalog.IndexName
import SqlBridge.Proofs.Catalog.Numbered
import SqlBridge.Proofs.Catalog.Run

namespace SqlBridge

open List

/-! ### What rows are about -/

/-- The table and the name of a column. -/
def ColumnRow.key (row : ColumnRow) : Place × String := (row.place, row.column.name)

/-- The cached type of a column. -/
def ColumnRow.type (row : ColumnRow) : TypeRow :=
  ⟨row.place.table, row.column.name, row.column.columnType⟩

/-- The table and the name of an index. -/
def PartRow.home (row : PartRow) : Place × String := (row.place, row.part.index)

/-- The table and the name of the column that a part of an index is over. -/
def PartRow.over (row : PartRow) : Place × String := (row.place, row.part.column)

theorem ColumnRow.isOf_eq (place : Place) (col : String) (row : ColumnRow) :
    row.isOf place col = decide (row.key = (place, col)) := by
  simp [ColumnRow.isOf, ColumnRow.key]

theorem PartRow.isOf_eq (place : Place) (col : String) (row : PartRow) :
    row.isOf place col = decide (row.over = (place, col)) := by
  simp [PartRow.isOf, PartRow.over]

theorem PartRow.isIn_eq (place : Place) (index : String) (row : PartRow) :
    row.isIn place index = decide (row.home = (place, index)) := by
  simp [PartRow.isIn, PartRow.home]

namespace Catalog

def IsRecorded (cat : Catalog) (place : Place) : Prop := place ∈ cat.tables.map TableRow.place

def HasColumn (cat : Catalog) (place : Place) (column : String) : Prop :=
  (place, column) ∈ cat.columns.map ColumnRow.key

def HasIndex (cat : Catalog) (place : Place) (index : String) : Prop :=
  (place, index) ∈ cat.parts.map PartRow.home

/-- What holds of the catalog of a database. -/
structure Sound (schema : String) (catalog : Catalog) : Prop where
  /-- A table is recorded once. -/
  tables : (catalog.tables.map TableRow.place).Nodup
  home : ∀ row ∈ catalog.tables, row.place.schema = schema
  /-- The columns of a table have the ordinals from one on and different names. -/
  columns : Series ColumnRow.place ColumnRow.ordinal (·.column.name) catalog.columns
  recorded : catalog.columns.map ColumnRow.place ⊆ catalog.tables.map TableRow.place
  /-- The parts of an index have the positions from one on and different columns. -/
  parts : Series PartRow.home (·.part.position) (·.part.column) catalog.parts
  /-- An index is over columns of its table. -/
  existing : catalog.parts.map PartRow.over ⊆ catalog.columns.map ColumnRow.key
  /-- The cache has one row for each column, with its type. -/
  types : catalog.types.Perm (catalog.columns.map ColumnRow.type)

variable {schema : String} {cat : Catalog}

theorem sound_empty : Sound schema {} where
  tables := nodup_nil
  home := by simp
  columns := .nil
  recorded := List.Subset.refl _
  parts := .nil
  existing := List.Subset.refl _
  types := .nil

namespace Sound

variable {row : ColumnRow} {place : Place} {col table : String} (h : cat.Sound schema)

include h

theorem isRecorded_of_hasColumn (hc : cat.HasColumn place col) : cat.IsRecorded place := by
  obtain ⟨row, hr, hk⟩ := mem_map.1 hc
  have hp : row.place = place := congrArg Prod.fst hk
  rw [← hp]
  exact h.recorded (mem_map_of_mem hr)

theorem isRecorded_of_mem_parts {part : PartRow}
    (hp : part ∈ cat.parts) : cat.IsRecorded part.place :=
  h.isRecorded_of_hasColumn (h.existing (mem_map_of_mem hp))

theorem schema_eq (hr : row ∈ cat.columns) : row.place.schema = schema := by
  obtain ⟨table, ht, hp⟩ := mem_map.1 (h.recorded (mem_map_of_mem hr))
  rw [← hp]
  exact h.home table ht

/-- In one database a table is known by its name. -/
theorem place_eq_iff (hr : row ∈ cat.columns) (table : String) :
    row.place = ⟨schema, table⟩ ↔ row.place.table = table := by
  rw [Place.mk.injEq]
  exact and_iff_right (h.schema_eq hr)

theorem isOf_type (hr : row ∈ cat.columns)
    (table col : String) : row.type.isOf table col = row.isOf ⟨schema, table⟩ col := by
  simp only [TypeRow.isOf, ColumnRow.isOf, h.place_eq_iff hr]
  rfl

theorem pairwise_types : DifferentTypes cat.types := by
  have hs : ∀ {row other : TypeRow}, row.isOf other.table other.column = false →
      other.isOf row.table row.column = false := by
    intro row other
    simp only [TypeRow.isOf, eq_comm, imp_self]
  refine (h.types.pairwise_iff hs).2 (pairwise_map.2 ?_)
  refine h.columns.pairwise.imp_of_mem fun {row other} hr ho hne => ?_
  have hp := (h.place_eq_iff ho _).2 rfl
  show row.type.isOf other.place.table other.column.name = false
  rw [h.isOf_type hr, ← hp, ColumnRow.isOf]
  simpa using hne

/-- The type of a column is not in the cache unless the column is there. -/
theorem filter_types (hf : ¬cat.HasColumn ⟨schema, table⟩ col) :
    cat.types.filter (!·.isOf table col) = cat.types := by
  refine filter_eq_self.2 fun type ht => ?_
  obtain ⟨row, hr, rfl⟩ := mem_map.1 (h.types.mem_iff.1 ht)
  rw [h.isOf_type hr, ColumnRow.isOf_eq, Bool.not_eq_true', decide_eq_false_iff_not]
  exact fun hk => hf (mem_map.2 ⟨row, hr, hk⟩)

/-- The columns of a table are so few that they can be numbered. -/
theorem length_columns_le (place : Place) :
    (cat.columns.filter (·.place = place)).length ≤ Int64.maxValue.toInt := by
  have hle := (h.columns.numbered place).length_le
  rwa [length_map] at hle

end Sound

/-! ### Changes that are carried out -/

/-- Whether there are so few columns and parts of indexes that one more can be counted. -/
def IsSmall (cat : Catalog) : Prop :=
  cat.columns.length < Int64.maxValue.toInt ∧ cat.parts.length ≤ Int64.maxValue.toInt

/-- The commands keep the catalog sound, and they fail only where a number is too large. -/
structure Carries (schema : String) (catalog : Catalog) (commands : List Command) : Prop where
  sound : ∀ after, catalog.after? commands = some after → after.Sound schema
  succeeds : catalog.IsSmall → ∃ after, catalog.after? commands = some after

theorem Carries.of_eq_some {commands : List Command} {after : Catalog}
    (ha : cat.after? commands = some after) (h : after.Sound schema) :
    Carries schema cat commands := by
  refine ⟨fun other ho => ?_, fun _ => ⟨after, ha⟩⟩
  obtain rfl := Option.some.inj (ha.symm.trans ho)
  exact h

/-- Types that are new to the cache come after the others. -/
theorem cachedTypes_eq {table : String} {types : List TypeRow} {cols : List Column}
    (hd : (cols.map Column.name).Nodup)
    (hf : ∀ col ∈ cols, ∀ type ∈ types, type.isOf table col.name = false) :
    cachedTypes table types cols =
      types ++ cols.map fun col => ⟨table, col.name, col.columnType⟩ := by
  induction cols generalizing types with
  | nil => exact (append_nil _).symm
  | cons col rest ih =>
    rw [map_cons, nodup_cons] at hd
    rw [forall_mem_cons] at hf
    have hk : types.filter (!·.isOf table col.name) = types :=
      filter_eq_self.2 fun type ht => by simpa using hf.1 type ht
    rw [cachedTypes, hk, ih hd.2, append_assoc]
    · rfl
    · intro other ho type ht
      rcases mem_append.1 ht with hol | hn
      · exact hf.2 other ho type hol
      · rw [mem_singleton.1 hn]
        have hne : col.name ≠ other.name :=
          fun heq => hd.1 (heq ▸ mem_map_of_mem ho)
        simp [TypeRow.isOf, hne]

namespace Sound

variable {table col : String} {place : Place} {cols : List Column} (h : cat.Sound schema)

include h

/-! ### Forgetting -/

theorem dropTable (table : String) :
    Carries schema cat (Script.dropTable ⟨schema, table⟩).commands := by
  refine .of_eq_some rfl
    { tables := h.tables.sublist (filter_sublist.map _)
      home := fun row hr => h.home row (mem_of_mem_filter hr)
      columns := h.columns.filter (· ≠ ⟨schema, table⟩)
      recorded := ?recorded
      parts := h.parts.filter (·.1 ≠ ⟨schema, table⟩)
      existing := ?existing
      types := ?types }
  case recorded =>
    have hk := filter_subset (· ≠ ⟨schema, table⟩) h.recorded
    rw [filter_map, filter_map] at hk
    exact hk
  case existing =>
    have hk := filter_subset (·.1 ≠ ⟨schema, table⟩) h.existing
    rw [filter_map, filter_map] at hk
    exact hk
  case types =>
    refine (h.types.filter _).trans (.of_eq ?_)
    rw [filter_map]
    refine congrArg _ (filter_congr fun row hr => ?_)
    exact decide_eq_decide.2 (not_congr (h.place_eq_iff hr table)).symm

/-- The keys of columns make no difference. -/
theorem withKeys (cond : ColumnRow → Bool) (key : ColumnRow → ColumnKey) : Sound schema { cat with
      columns := changed cat.columns cond
        fun row => { row with column.key := key row } } := by
  have hs {α : Type} {g : ColumnRow → α}
      (hg : ∀ row key, g { row with column.key := key } = g row) :
      (changed cat.columns cond fun row => { row with column.key := key row }).map g =
        cat.columns.map g := map_changed fun row _ _ => hg row (key row)
  refine
    { h with
      columns := ?columns
      recorded := ?recorded
      existing := ?existing
      types := ?types }
  case columns => exact h.columns.update (fun _ => rfl) (fun _ => rfl) fun _ => rfl
  case recorded =>
    have hp := h.recorded
    rw [← hs (g := ColumnRow.place) fun _ _ => rfl] at hp
    exact hp
  case existing =>
    have hk := h.existing
    rw [← hs (g := ColumnRow.key) fun _ _ => rfl] at hk
    exact hk
  case types => exact h.types.trans (.of_eq (hs fun _ _ => rfl).symm)

/-- Without an index. -/
theorem withoutIndex (place : Place) (index : String) :
    Sound schema { cat with parts := cat.parts.filter (!·.isIn place index) } := by
  refine
    { h with
      parts := ?parts
      existing := ?existing }
  case parts =>
    simp only [PartRow.isIn_eq]
    exact h.parts.filter fun home => !decide (home = (place, index))
  case existing => exact List.Subset.trans (filter_sublist.map _).subset h.existing

theorem dropIndex (place : Place) (index : String) :
    Carries schema cat (Script.dropIndex place index).commands := by
  have ha : cat.after? (Script.dropIndex place index).commands =
      ((Command.recomputeKeys place index).effect cat).bind fun keyed =>
        some { keyed with parts := keyed.parts.filter (!·.isIn place index) } := rfl
  constructor
  · intro after hs
    rw [ha, Command.effect] at hs
    split at hs
    · obtain rfl := Option.some.inj hs
      exact (h.withKeys _ _).withoutIndex place index
    · cases hs
  · intro hsm
    rw [ha, Command.effect, if_pos]
    · exact ⟨_, rfl⟩
    · intro row _ _
      have hle : (cat.otherLeads index row).length ≤ cat.parts.length := length_filter_le _ _
      have hp := hsm.2
      omega

theorem dropColumn (table col : String) :
    Carries schema cat (Script.dropColumn ⟨schema, table⟩ col).commands := by
  have ha : cat.after? (Script.dropColumn ⟨schema, table⟩ col).commands = some
      { tables := cat.tables
        columns := (changed cat.columns (cat.isAfterColumn ⟨schema, table⟩ col)
          fun row => { row with ordinal := row.ordinal - 1 }).filter
            (!·.isOf ⟨schema, table⟩ col)
        parts := (changed cat.parts (cat.isAfterPart ⟨schema, table⟩ col)
          fun row => { row with part.position := row.part.position - 1 }).filter
            (!·.isOf ⟨schema, table⟩ col)
        types := cat.types.filter (!·.isOf table col) } := rfl
  have hc {α : Type} {g : ColumnRow → α}
      (hg : ∀ row ordinal, g { row with ordinal } = g row) :
      (changed cat.columns (cat.isAfterColumn ⟨schema, table⟩ col) fun row =>
        { row with ordinal := row.ordinal - 1 }).map g = cat.columns.map g :=
    map_changed fun row _ _ => hg row (row.ordinal - 1)
  have hpa : (changed cat.parts (cat.isAfterPart ⟨schema, table⟩ col) fun row =>
      { row with part.position := row.part.position - 1 }).map PartRow.over =
      cat.parts.map PartRow.over := map_changed fun _ _ _ => rfl
  refine .of_eq_some ha
    { tables := h.tables
      home := h.home
      columns := ?columns
      recorded := ?recorded
      parts := ?parts
      existing := ?existing
      types := ?types }
  case columns =>
    refine h.columns.close (· = ⟨schema, table⟩) ?_ ?_ ?_ ?_
    · intro row _
      rw [isAfterColumn]
      by_cases hp : row.place = ⟨schema, table⟩
      · rw [hp]
        rfl
      · simp [hp]
    all_goals exact fun _ => rfl
  case recorded =>
    refine List.Subset.trans (filter_sublist.map _).subset ?_
    rw [hc fun _ _ => rfl]
    exact h.recorded
  case parts =>
    refine h.parts.close (·.1 = ⟨schema, table⟩) ?_ ?_ ?_ ?_
    · intro row _
      simp only [isAfterPart, PartRow.isIn_eq]
      rfl
    all_goals exact fun _ => rfl
  case existing =>
    have hk := filter_subset (fun key => !decide (key = (⟨schema, table⟩, col)))
      h.existing
    rw [← hpa, ← hc (g := ColumnRow.key) fun _ _ => rfl, filter_map,
      filter_map] at hk
    simp only [PartRow.isOf_eq, ColumnRow.isOf_eq]
    exact hk
  case types =>
    refine (h.types.filter _).trans (.of_eq ?_)
    rw [← hc (g := ColumnRow.type) fun _ _ => rfl, filter_map]
    refine congrArg _ (filter_congr fun row hr => ?_)
    obtain ⟨old, ho, ⟨-, rfl⟩ | ⟨-, rfl⟩⟩ := mem_changed.1 hr
    · exact congrArg not (h.isOf_type ho table col)
    · exact congrArg not (h.isOf_type ho table col)

/-! ### Renaming -/

theorem renameColumn {newName : String} (hf : ¬cat.HasColumn ⟨schema, table⟩ newName) :
    Carries schema cat (Script.renameColumn ⟨schema, table⟩ col newName).commands := by
  suffices hs : (cat.columnRenamed ⟨schema, table⟩ col newName).Sound schema from
    .of_eq_some (after?_renameColumn.2 ⟨hs.pairwise_types, rfl⟩) hs
  -- what a name in the catalog becomes
  let renamed (key : Place × String) : Place × String :=
    if key = (⟨schema, table⟩, col) then (key.1, newName) else key
  have hc : (cat.columnRenamed ⟨schema, table⟩ col newName).columns.map ColumnRow.key =
      (cat.columns.map ColumnRow.key).map renamed := by
    simp only [columnRenamed, ColumnRow.isOf_eq]
    exact map_changed_eq_map (fun _ hk => (if_pos (of_decide_eq_true hk)).symm)
      fun _ hk => (if_neg (of_decide_eq_false hk)).symm
  have hpa : (cat.columnRenamed ⟨schema, table⟩ col newName).parts.map PartRow.over =
      (cat.parts.map PartRow.over).map renamed := by
    simp only [columnRenamed, PartRow.isOf_eq]
    exact map_changed_eq_map (fun _ hk => (if_pos (of_decide_eq_true hk)).symm)
      fun _ hk => (if_neg (of_decide_eq_false hk)).symm
  refine
    { tables := h.tables
      home := h.home
      columns := ?columns
      recorded := ?recorded
      parts := ?parts
      existing := ?existing
      types := ?types }
  case columns =>
    refine h.columns.rename (· = ⟨schema, table⟩) newName ?_ ?_ ?_ ?_
    · exact fun _ => rfl
    · exact fun _ => rfl
    · exact fun _ => rfl
    · intro row hr hpl hn
      exact hf (mem_map.2 ⟨row, hr, Prod.ext (of_decide_eq_true hpl) hn⟩)
  case recorded =>
    have hp : (cat.columnRenamed ⟨schema, table⟩ col newName).columns.map ColumnRow.place =
        cat.columns.map ColumnRow.place := map_changed fun _ _ _ => rfl
    exact hp.symm ▸ h.recorded
  case parts =>
    refine h.parts.rename (·.1 = ⟨schema, table⟩) newName ?_ ?_ ?_ ?_
    · exact fun _ => rfl
    · exact fun _ => rfl
    · exact fun _ => rfl
    · intro row hr hh hn
      have ho : row.over = (⟨schema, table⟩, newName) := Prod.ext (of_decide_eq_true hh) hn
      refine hf ?_
      rw [HasColumn, ← ho]
      exact h.existing (mem_map_of_mem hr)
  case existing =>
    have hke := map_subset renamed h.existing
    rw [← hpa, ← hc] at hke
    exact hke
  case types =>
    refine (h.types.map _).trans (.of_eq ?_)
    exact changed_map (fun row hr => h.isOf_type hr table col) fun _ => rfl

theorem renameTable {newName : String} (hf : ¬cat.IsRecorded ⟨schema, newName⟩) :
    Carries schema cat (Script.renameTable ⟨schema, table⟩ newName).commands := by
  suffices hs : (cat.tableRenamed ⟨schema, table⟩ newName).Sound schema from
    .of_eq_some (after?_renameTable.2 ⟨hs.pairwise_types, rfl⟩) hs
  -- where a place is taken to
  let moved (place : Place) : Place :=
    if place = ⟨schema, table⟩ then { place with table := newName } else place
  have hin {place : Place} (hpl : decide (place = ⟨schema, table⟩)) :
      { place with table := newName } = moved place := (if_pos (of_decide_eq_true hpl)).symm
  have hou {place : Place} (hpl : decide (place = ⟨schema, table⟩) = false) :
      place = moved place := (if_neg (of_decide_eq_false hpl)).symm
  have hm {place other : Place} (hpl : cat.IsRecorded place)
      (hot : cat.IsRecorded other) (heq : moved place = moved other) : place = other := by
    by_cases hp : place = ⟨schema, table⟩ <;> by_cases ho : other = ⟨schema, table⟩
    · rw [hp, ho]
    · simp only [moved, if_pos hp, if_neg ho] at heq
      rw [hp] at heq
      exact absurd (heq ▸ hot) hf
    · simp only [moved, if_neg hp, if_pos ho] at heq
      rw [ho] at heq
      exact absurd (heq ▸ hpl) hf
    · simpa only [moved, if_neg hp, if_neg ho] using heq
  have ht : (cat.tableRenamed ⟨schema, table⟩ newName).tables.map TableRow.place =
      (cat.tables.map TableRow.place).map moved :=
    map_changed_eq_map (fun _ => hin) fun _ => hou
  have hpla : (cat.tableRenamed ⟨schema, table⟩ newName).columns.map ColumnRow.place =
      (cat.columns.map ColumnRow.place).map moved :=
    map_changed_eq_map (fun _ => hin) fun _ => hou
  have hke : (cat.tableRenamed ⟨schema, table⟩ newName).columns.map ColumnRow.key =
      (cat.columns.map ColumnRow.key).map fun key => (moved key.1, key.2) :=
    map_changed_eq_map (fun _ hpl => Prod.ext (hin hpl) rfl)
      fun _ hpl => Prod.ext (hou hpl) rfl
  have hov : (cat.tableRenamed ⟨schema, table⟩ newName).parts.map PartRow.over =
      (cat.parts.map PartRow.over).map fun key => (moved key.1, key.2) :=
    map_changed_eq_map (fun _ hpl => Prod.ext (hin hpl) rfl)
      fun _ hpl => Prod.ext (hou hpl) rfl
  refine
    { tables := ?tables
      home := ?home
      columns := ?columns
      recorded := ?recorded
      parts := ?parts
      existing := ?existing
      types := ?types }
  case tables =>
    have hd := h.tables.map_on fun _ hpl _ hot heq => hm hpl hot heq
    rw [← ht] at hd
    exact hd
  case home =>
    intro row hr
    exact of_mem_changed (P := fun row : TableRow => row.place.schema = schema) hr h.home
      fun _ hk => hk
  case columns =>
    refine h.columns.regroup moved (fun _ => hin) (fun _ => hou) (fun _ => rfl) (fun _ => rfl) ?_
    intro row hr other hot heq
    exact hm (h.recorded (mem_map_of_mem hr)) (h.recorded (mem_map_of_mem hot))
      heq
  case recorded =>
    have hre := map_subset moved h.recorded
    rw [← ht, ← hpla] at hre
    exact hre
  case parts =>
    refine h.parts.regroup (fun home => (moved home.1, home.2)) ?_ ?_ (fun _ => rfl)
      (fun _ => rfl) ?_
    · exact fun _ hpl => Prod.ext (hin hpl) rfl
    · exact fun _ hpl => Prod.ext (hou hpl) rfl
    · intro row hr other hot heq
      rw [Prod.mk.injEq] at heq
      exact Prod.ext (hm (h.isRecorded_of_mem_parts hr) (h.isRecorded_of_mem_parts hot)
        heq.1) heq.2
  case existing =>
    have he := map_subset (fun key => (moved key.1, key.2)) h.existing
    rw [← hke, ← hov] at he
    exact he
  case types =>
    refine (h.types.map _).trans (.of_eq ?_)
    refine changed_map (fun row hr => ?_) fun _ => rfl
    exact decide_eq_decide.2 (h.place_eq_iff hr table).symm

/-! ### Adding -/

/-- A column that is appended comes right after the others. -/
theorem toInt_nextOrdinal {ordinal : Int64} (hn : cat.nextOrdinal? place = some ordinal) :
    ordinal.toInt = 1 + (cat.columns.filter (·.place = place)).length := by
  have hm := Int64.toInt_maxValue
  rw [nextOrdinal?_of_numbered (h.columns.numbered place), Option.ite_none_right_eq_some] at hn
  obtain ⟨hl, hn⟩ := hn
  rw [← Option.some.inj hn, Int64.toInt_ofNat_of_lt (by omega)]
  omega

/-- There is an ordinal for a column that is appended to few. -/
theorem exists_nextOrdinal (hs : cat.IsSmall) (place : Place) :
    ∃ ordinal, cat.nextOrdinal? place = some ordinal := by
  have hle := length_filter_le (fun row : ColumnRow => row.place = place) cat.columns
  have hf := hs.1
  rw [nextOrdinal?_of_numbered (h.columns.numbered place), if_pos (by omega)]
  exact ⟨_, rfl⟩

theorem addColumn {col : Column} (hr : cat.IsRecorded ⟨schema, table⟩)
    (hf : ¬cat.HasColumn ⟨schema, table⟩ col.name) :
    Carries schema cat [.appendColumn ⟨schema, table⟩ col,
      .cacheType table col.name col.columnType] := by
  constructor
  · intro after hs
    obtain ⟨ordinal, ho, rfl⟩ := after?_appendColumn.1 hs
    refine
      { h with
        columns := ?columns
        recorded := ?recorded
        existing := ?existing
        types := ?types }
    case columns =>
      refine h.columns.append (k := ⟨schema, table⟩) (by simp) ?_ (nodup_singleton _) ?_
      · exact ⟨h.toInt_nextOrdinal ho, trivial⟩
      · intro row hro old hol hp hn
        rw [mem_singleton.1 hro] at hn
        exact hf (mem_map.2 ⟨old, hol, Prod.ext hp hn⟩)
    case recorded =>
      rw [columnAdded, map_append]
      exact append_subset.2 ⟨h.recorded, cons_subset.2 ⟨hr, nil_subset _⟩⟩
    case existing =>
      rw [columnAdded, map_append]
      exact subset_append_of_subset_left _ h.existing
    case types =>
      rw [columnAdded, h.filter_types hf, map_append]
      exact h.types.append_right _
  · intro hsm
    obtain ⟨ordinal, ho⟩ := h.exists_nextOrdinal hsm ⟨schema, table⟩
    exact ⟨_, after?_appendColumn.2 ⟨ordinal, ho, rfl⟩⟩

/-- The keys that an index gives to columns. -/
theorem promoteKeys (place : Place) (key : ColumnKey)
    (parts : List KeyPart) : ∃ after, cat.after? (parts.map fun part =>
      .promoteKey place part.column key) = some after ∧ after.Sound schema := by
  induction parts generalizing cat with
  | nil => exact ⟨cat, rfl, h⟩
  | cons part rest ih => exact ih (h.withKeys _ _)

/-- A part of an index is added once. -/
theorem addedParts_eq {part : KeyPart} (index : Index)
    (leading : String) (pos : Int64) (hc : cat.HasColumn place part.column) :
    ∃ row, cat.addedParts place index leading pos part = [row] ∧
      row.home = (place, index.name) ∧ row.part.position = pos ∧
      row.part.column = part.column := by
  obtain ⟨found, hf, hk⟩ := mem_map.1 hc
  obtain ⟨rfl, hn⟩ := Prod.mk.inj hk
  have ho := h.columns.filter_eq_singleton hf
  rw [hn] at ho
  exact ⟨_, congrArg (map _) ho, rfl, rfl, rfl⟩

/-- An index of a new name over columns of its table. -/
theorem withParts {rows : List PartRow} {index : String}
    (hf : ¬cat.HasIndex place index) (hh : ∀ row ∈ rows, row.home = (place, index))
    (hn : Numbered 1 (rows.map (·.part.position)))
    (hd : (rows.map (·.part.column)).Nodup)
    (hc : ∀ row ∈ rows, cat.HasColumn place row.part.column) :
    Sound schema { cat with parts := cat.parts ++ rows } := by
  have hno : cat.parts.filter (·.home = (place, index)) = [] := by
    refine filter_eq_nil_iff.2 fun row hr => ?_
    simpa using fun heq => hf (mem_map.2 ⟨row, hr, heq⟩)
  refine
    { h with
      parts := ?parts
      existing := ?existing }
  case parts =>
    refine h.parts.append hh (by simpa [hno] using hn) hd ?_
    intro row _ old ho heq
    exact absurd (mem_map.2 ⟨old, ho, heq⟩) hf
  case existing =>
    rw [map_append]
    refine append_subset.2 ⟨h.existing, fun key hk => ?_⟩
    obtain ⟨row, hr, rfl⟩ := mem_map.1 hk
    have hp : row.place = place := congrArg Prod.fst (hh row hr)
    rw [PartRow.over, hp]
    exact hc row hr

/-- An index over different columns of a table has so few parts that they can be numbered. -/
theorem length_parts_le {parts : List KeyPart} (hd : (parts.map KeyPart.column).Nodup)
    (hc : ∀ part ∈ parts, cat.HasColumn place part.column) :
    parts.length ≤ Int64.maxValue.toInt := by
  have hs : parts.map KeyPart.column ⊆
      (cat.columns.filter (·.place = place)).map (·.column.name) := by
    intro name hn
    obtain ⟨part, hpa, rfl⟩ := mem_map.1 hn
    obtain ⟨row, hr, hk⟩ := mem_map.1 (hc part hpa)
    obtain ⟨hp, hn⟩ := Prod.mk.inj hk
    exact mem_map.2 ⟨row, mem_filter.2 ⟨hr, by simpa using hp⟩, hn⟩
  have hle := (subperm_of_subset hd hs).length_le
  have hf := h.length_columns_le place
  rw [length_map, length_map] at hle
  omega

/-- The rows of the parts of an index that is added. -/
theorem exists_addedParts {parts : List KeyPart}
    (index : Index) (leading : String) (pos : Nat → Int64)
    (hc : ∀ part ∈ parts, cat.HasColumn place part.column) :
    ∃ rows, (parts.mapIdx fun i part =>
        cat.addedParts place index leading (pos i) part).flatten = rows ∧
      (∀ row ∈ rows, row.home = (place, index.name)) ∧
      rows.map (·.part.position) = parts.mapIdx (fun i _ => pos i) ∧
      rows.map (·.part.column) = parts.map KeyPart.column := by
  induction parts generalizing pos with
  | nil => exact ⟨[], rfl, by simp, rfl, rfl⟩
  | cons part rest ih =>
    rw [forall_mem_cons] at hc
    obtain ⟨row, hro, hho, hpo, hco⟩ := h.addedParts_eq index leading (pos 0) hc.1
    obtain ⟨rows, hr, hh, hp, hn⟩ := ih (fun i => pos (i + 1)) hc.2
    refine ⟨row :: rows, ?_, forall_mem_cons.2 ⟨hho, hh⟩, ?_, ?_⟩
    · rw [mapIdx_cons, flatten_cons, hro, hr]
      rfl
    · rw [map_cons, mapIdx_cons, hpo, hp]
    · rw [map_cons, map_cons, hco, hn]

theorem addIndex {index : Index} (hf : ¬cat.HasIndex place index.name)
    (hd : (index.parts.map KeyPart.column).Nodup)
    (hc : ∀ part ∈ index.parts, cat.HasColumn place part.column) :
    Carries schema cat (Script.addIndex place index).commands := by
  unfold Script.addIndex
  split
  · exact .of_eq_some rfl h
  · rename_i leading _ _
    obtain ⟨rows, hr, hh, hp, hn⟩ := h.exists_addedParts index leading.column
      (fun i => Int64.ofNat (i + 1)) hc
    have ha : Sound schema { cat with parts := cat.parts ++ rows } := by
      refine h.withParts hf hh ?_ (hn ▸ hd) ?_
      · rw [hp]
        exact Numbered.mapIdx _ (h.length_parts_le hd hc)
      · intro row hro
        have hna : row.part.column ∈ index.parts.map KeyPart.column := hn ▸ mem_map_of_mem hro
        obtain ⟨part, hpa, hco⟩ := mem_map.1 hna
        rw [← hco]
        exact hc part hpa
    obtain ⟨after, haf, hs⟩ := ha.promoteKeys place (Script.keyOfIndex index)
      (Script.keyedParts index)
    refine .of_eq_some ?_ hs
    rw [after?_append, after?_addIndexParts, hr]
    exact haf

/-! ### Creating a table -/

/-- A new table with its columns. -/
theorem withTable {row : TableRow} (hh : row.place.schema = schema) (hf : ¬cat.IsRecorded row.place)
    (hd : (cols.map Column.name).Nodup)
    (hfe : cols.length ≤ Int64.maxValue.toInt) :
    Sound schema
      { tables := cat.tables ++ [row]
        columns := cat.columns ++ columnRows row.place cols
        parts := cat.parts
        types := cat.types ++ cols.map fun col =>
          ⟨row.place.table, col.name, col.columnType⟩ } := by
  have hno : cat.columns.filter (·.place = row.place) = [] := by
    refine filter_eq_nil_iff.2 fun col hc => ?_
    rw [decide_eq_true_eq]
    exact fun heq => hf (heq ▸ h.recorded (mem_map_of_mem hc))
  have hp : ∀ col ∈ columnRows row.place cols, col.place = row.place := by
    intro col hc
    obtain ⟨i, hi, rfl⟩ := mem_mapIdx.1 hc
    rfl
  refine
    { tables := ?tables
      home := ?home
      columns := ?columns
      recorded := ?recorded
      parts := h.parts
      existing := ?existing
      types := ?types }
  case tables =>
    rw [map_append]
    refine nodup_append.2 ⟨h.tables, nodup_singleton _, ?_⟩
    intro place hr other ho heq
    rw [mem_singleton.1 ho] at heq
    exact hf (heq ▸ hr)
  case home =>
    intro other ho
    rcases mem_append.1 ho with hol | hn
    · exact h.home other hol
    · rw [mem_singleton.1 hn]
      exact hh
  case columns =>
    refine h.columns.append hp ?_ ?_ ?_
    · rw [hno, columnRows, map_mapIdx]
      exact Numbered.mapIdx cols hfe
    · rw [columnRows, map_mapIdx, mapIdx_const]
      exact hd
    · intro col _ old hol heq
      exact absurd (heq ▸ h.recorded (mem_map_of_mem hol)) hf
  case recorded =>
    rw [map_append, map_append]
    refine append_subset.2 ⟨subset_append_of_subset_left _ h.recorded, ?_⟩
    intro place hn
    obtain ⟨col, hc, rfl⟩ := mem_map.1 hn
    rw [hp col hc]
    exact mem_append_right _ (mem_singleton_self _)
  case existing =>
    rw [map_append]
    exact subset_append_of_subset_left _ h.existing
  case types =>
    rw [map_append]
    refine h.types.append (.of_eq ?_)
    rw [columnRows, map_mapIdx]
    exact (mapIdx_const cols _).symm

/-- The indexes of a table. -/
theorem withIndexes {indexes : List Index} (hn : (indexes.map Index.name).Nodup)
    (hfr : ∀ index ∈ indexes, ¬cat.HasIndex place index.name)
    (hd : ∀ index ∈ indexes, (index.parts.map KeyPart.column).Nodup)
    (hc : ∀ index ∈ indexes, ∀ part ∈ index.parts, cat.HasColumn place part.column) :
    Sound schema { cat with
      parts := cat.parts ++ (indexes.flatMap (Script.indexRows cols)).map
        fun row => ⟨place, row⟩ } := by
  induction indexes generalizing cat with
  | nil => simpa using h
  | cons index rest ih =>
    rw [map_cons, nodup_cons] at hn
    rw [forall_mem_cons] at hfr hd hc
    have hfi : Sound schema { cat with
        parts := cat.parts ++ (Script.indexRows cols index).map fun row => ⟨place, row⟩ } := by
      refine h.withParts hfr.1 ?_ ?_ ?_ ?_
      · intro row hr
        obtain ⟨found, hf, rfl⟩ := mem_map.1 hr
        obtain ⟨i, hi, rfl⟩ := mem_mapIdx.1 hf
        rfl
      · rw [map_map, Script.indexRows, map_mapIdx]
        exact Numbered.mapIdx _ (h.length_parts_le hd.1 hc.1)
      · rw [map_map, Script.indexRows, map_mapIdx]
        exact (mapIdx_const index.parts KeyPart.column).symm ▸ hd.1
      · intro row hr
        obtain ⟨found, hf, rfl⟩ := mem_map.1 hr
        obtain ⟨i, hi, rfl⟩ := mem_mapIdx.1 hf
        exact hc.1 _ (getElem_mem hi)
    rw [flatMap_cons, map_append, ← append_assoc]
    refine ih hfi hn.2 ?_ hd.2 hc.2
    intro other ho hin
    rw [HasIndex, map_append, mem_append] at hin
    rcases hin with hol | hne
    · exact hfr.2 other ho hol
    · obtain ⟨row, hr, hh⟩ := mem_map.1 hne
      obtain ⟨found, hf, rfl⟩ := mem_map.1 hr
      obtain ⟨i, hi, rfl⟩ := mem_mapIdx.1 hf
      have hna : index.name = other.name := congrArg Prod.snd hh
      exact hn.1 (hna ▸ mem_map_of_mem ho)

/-- What a table with its columns and indexes must be like to be recorded. -/
theorem createTable {row : TableRow} {indexes : List Index} (hh : row.place.schema = schema)
    (hf : ¬cat.IsRecorded row.place) (hc : (cols.map Column.name).Nodup)
    (hfe : cols.length ≤ Int64.maxValue.toInt) (hn : (indexes.map Index.name).Nodup)
    (hd : ∀ index ∈ indexes, (index.parts.map KeyPart.column).Nodup)
    (hpa : ∀ index ∈ indexes, ∀ part ∈ index.parts, part.column ∈ cols.map Column.name) :
    Carries schema cat (.recordTable row ::
      (cols.mapIdx fun i col => .recordColumn row.place (Int64.ofNat (i + 1)) col) ++
      (indexes.flatMap (Script.indexRows cols)).map (.recordIndexPart row.place) ++
      cols.map fun col => .cacheType row.place.table col.name col.columnType) := by
  have hpl : row.place = ⟨schema, row.place.table⟩ := by rw [← hh]
  have ht : ∀ col ∈ cols, ∀ type ∈ cat.types,
      type.isOf row.place.table col.name = false := by
    intro col _ type hty
    obtain ⟨old, ho, rfl⟩ := mem_map.1 (h.types.mem_iff.1 hty)
    rw [h.isOf_type ho, ← hpl, ColumnRow.isOf, Bool.and_eq_false_iff]
    refine .inl (decide_eq_false fun heq => hf ?_)
    exact heq ▸ h.recorded (mem_map_of_mem ho)
  have hs : Sound schema
      { tables := cat.tables ++ [row]
        columns := cat.columns ++ columnRows row.place cols
        parts := cat.parts ++ (indexes.flatMap (Script.indexRows cols)).map
          fun part => ⟨row.place, part⟩
        types := cat.types ++ cols.map fun col =>
          ⟨row.place.table, col.name, col.columnType⟩ } := by
    refine (h.withTable hh hf hc hfe).withIndexes hn ?_ hd ?_
    · intro index _ hin
      obtain ⟨part, hp, heq⟩ := mem_map.1 hin
      have hr := h.isRecorded_of_mem_parts hp
      rw [show part.place = row.place from congrArg Prod.fst heq] at hr
      exact hf hr
    · intro index hin part hp
      obtain ⟨col, hco, hna⟩ := mem_map.1 (hpa index hin part hp)
      obtain ⟨i, hi, rfl⟩ := mem_iff_getElem.1 hco
      refine mem_map.2 ⟨⟨row.place, Int64.ofNat (i + 1), cols[i]⟩, ?_, Prod.ext rfl hna⟩
      exact mem_append_right _ (mem_mapIdx.2 ⟨i, hi, rfl⟩)
  rw [← cachedTypes_eq hc ht] at hs
  exact .of_eq_some (after?_createTable cat row cols _) hs

end Sound

end Catalog

end SqlBridge
