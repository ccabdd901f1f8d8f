/-
An index that is added to a table and dropped again.

Adding gives the leading column its key in place (`Command.promoteKey`), and dropping computes that
key again from the parts of indexes that are left (`Command.recomputeKeys`).  A key that no recorded
part accounts for, as that of a column declared `UNIQUE` or of a foreign key, is lost on the way.

* `Catalog.after?_addIndex_dropIndex`: what the two changes do together.
* `perform_addIndex_dropIndex`: the catalog is as it was exactly if the key of the leading column is
  the primary one, or the one that the indexes which it leads give it.
-/
import SqlBridge.Proofs.Catalog.DeclaredIndex
import SqlBridge.Proofs.Catalog.Followed

namespace SqlBridge

open List

/-! ### Keys by the recorded indexes -/

namespace Tables

/-- The recorded parts of indexes that a column of a table leads. -/
def leads (tables : Tables) (place : Place) (col : String) : List Record :=
  tables.statistics.filter fun record => record.IsAt place ∧
    record.value? "column_name" = some (.text col) ∧
    record.value? "seq_in_index" = some (.integer 1)

/-- The key of a column by the parts of indexes that it leads. -/
def keyOfParts (parts : List Record) : ColumnKey :=
  if parts.isEmpty then .none
  else if parts.any (·.value? "index_name" = some (.text "PRIMARY")) then .primary
  else if parts.any (·.value? "non_unique" = some (.integer 0)) then .unique
  else .multiple

/-- Whether the recorded indexes account for the key of a column, or it is the primary key. -/
def KeyIsIndexed (tables : Tables) (place : Place) (col : String) : Prop :=
  ∀ record ∈ tables.columns, record.IsAt place →
    record.value? "column_name" = some (.text col) →
    record.value? "column_key" = some (.text "PRI") ∨
      record.value? "column_key" = some (.text (keyOfParts (tables.leads place col)).name)

instance (tables : Tables) (place : Place) (col : String) :
    Decidable (tables.KeyIsIndexed place col) :=
  inferInstanceAs (Decidable (∀ record ∈ tables.columns, _ → _ → _))

end Tables

namespace ColumnRow

/-- A column with another key. -/
def withKey (key : ColumnKey) (row : ColumnRow) : ColumnRow := { row with column.key := key }

variable (row : ColumnRow) (key new : ColumnKey)

@[simp] theorem key_withKey : (row.withKey key).column.key = key := rfl

@[simp] theorem isOf_withKey (place : Place) (col : String) :
    (row.withKey key).isOf place col = row.isOf place col := rfl

@[simp] theorem withKey_self : row.withKey row.column.key = row := rfl

@[simp] theorem withKey_withKey : (row.withKey key).withKey new = row.withKey new := rfl

end ColumnRow

namespace Catalog

variable {cat : Catalog} {place : Place} {index : Index} {leading : KeyPart}
  {rest : List KeyPart} {col : String}

/-- The parts of indexes that a column leads. -/
def leads (catalog : Catalog) (row : ColumnRow) : List PartRow :=
  catalog.parts.filter fun part => part.isOf row.place row.column.name && part.part.position = 1

/-- Whether the recorded indexes account for the key of a column. -/
def KeyIsIndexed (catalog : Catalog) (row : ColumnRow) : Prop :=
  row.column.key = .primary ∨ row.column.key = keyOfParts (catalog.leads row)

/-- A column whose key is computed from the indexes that it leads, unless it is the primary one. -/
def withIndexedKey (catalog : Catalog) (row : ColumnRow) : ColumnRow :=
  row.withKey (keyOfParts (catalog.leads row))

/-! ### The rows of an index that is added -/

/-- The rows of the parts of an index that is added. -/
def partsOf (catalog : Catalog) (place : Place) (index : Index) (leading : String) : List PartRow :=
  (index.parts.mapIdx fun i part =>
    catalog.addedParts place index leading (Int64.ofNat (i + 1)) part).flatten

theorem mem_partsOf {leading : String} {row : PartRow} :
    row ∈ cat.partsOf place index leading ↔ ∃ (i : Nat) (h : i < index.parts.length),
      row ∈ cat.addedParts place index leading (Int64.ofNat (i + 1)) index.parts[i] := by
  rw [partsOf, mem_flatten]
  constructor
  · rintro ⟨rows, hro, hr⟩
    obtain ⟨i, hi, rfl⟩ := mem_mapIdx.1 hro
    exact ⟨i, hi, hr⟩
  · rintro ⟨i, hi, hr⟩
    exact ⟨_, mem_mapIdx.2 ⟨i, hi, rfl⟩, hr⟩

theorem home_of_mem_partsOf {leading : String} {row : PartRow}
    (h : row ∈ cat.partsOf place index leading) : row.home = (place, index.name) := by
  obtain ⟨i, hi, hr⟩ := mem_partsOf.1 h
  obtain ⟨col, -, rfl⟩ := mem_map.1 hr
  rfl

/-- Positions count from one on while they are 64-bit integers. -/
theorem ofNat_succ_eq_one {i n : Nat} (hi : i < n) (hn : n ≤ Int64.maxValue.toInt) :
    Int64.ofNat (i + 1) = 1 ↔ i = 0 := by
  constructor
  · intro heq
    have hin := congrArg Int64.toInt heq
    have hm : Int64.maxValue.toInt = 2 ^ 63 - 1 := by decide
    rw [Int64.toInt_ofNat_of_lt (by omega)] at hin
    have ho : (1 : Int64).toInt = 1 := by decide
    omega
  · rintro rfl
    rfl

/-- Only the first part of an index that is added has the first position. -/
theorem column_of_mem_partsOf (hpa : index.parts = leading :: rest)
    (hf : index.parts.length ≤ Int64.maxValue.toInt) {row : PartRow}
    (h : row ∈ cat.partsOf place index leading.column) (hp : row.part.position = 1) :
    row.part.column = leading.column := by
  obtain ⟨i, hi, hr⟩ := mem_partsOf.1 h
  obtain ⟨col, -, rfl⟩ := mem_map.1 hr
  obtain rfl := (ofNat_succ_eq_one hi hf).1 hp
  show index.parts[0].column = _
  simp only [hpa, getElem_cons_zero]

/-- A recorded column that an added index leads with has a part in the first position. -/
theorem exists_mem_partsOf (hp : index.parts = leading :: rest) {row : ColumnRow}
    (hr : row ∈ cat.columns) (hi : row.isOf place leading.column) :
    ∃ part ∈ cat.partsOf place index leading.column,
      part.part.position = 1 ∧ part.part.column = leading.column := by
  have hz : 0 < index.parts.length := by simp [hp]
  have hf : index.parts[0] = leading := by simp only [hp, getElem_cons_zero]
  refine ⟨_, mem_partsOf.2 ⟨0, hz, mem_map.2 ⟨row, ?_, rfl⟩⟩, rfl, ?_⟩
  · rw [hf]
    exact mem_filter.2 ⟨hr, hi⟩
  · show index.parts[0].column = _
    rw [hf]

/-! ### Adding and dropping -/

/-- The catalog with an index added that is not the primary key. -/
def withIndex (catalog : Catalog) (place : Place) (index : Index) (leading : String) : Catalog :=
  { catalog with
    columns := changed catalog.columns (·.isOf place leading) fun row =>
      row.withKey (promoted row.column.key (Script.keyOfIndex index))
    parts := catalog.parts ++ catalog.partsOf place index leading }

theorem after?_addIndex_secondary (hp : index.parts = leading :: rest)
    (hs : index.kind ≠ .primary) :
    cat.after? (Script.addIndex place index).commands =
      some (cat.withIndex place index leading.column) := by
  rw [Script.commands_addIndex hp hs, after?_append, after?_addIndexParts]
  rfl

section

variable (hf : ¬cat.HasIndex place index.name)
include hf

/-- Of the columns of its table, an index that was added leads with its first. -/
theorem isLed_withIndex (hpar : index.parts = leading :: rest)
    (hfe : index.parts.length ≤ Int64.maxValue.toInt)
    {row : ColumnRow} (hr : cat.HasColumn place row.column.name) :
    (cat.withIndex place index leading.column).isLed place index.name row =
      decide (row.column.name = leading.column) := by
  rw [Bool.eq_iff_iff, decide_eq_true_eq, isLed, any_eq_true]
  constructor
  · rintro ⟨part, hpa, hl⟩
    simp only [PartRow.isIn_eq, Bool.and_eq_true, decide_eq_true_eq] at hl
    obtain ⟨⟨hh, hp⟩, hn⟩ := hl
    rcases mem_append.1 hpa with ho | hne
    · exact absurd (mem_map.2 ⟨part, ho, hh⟩) hf
    · rw [← hn]
      exact column_of_mem_partsOf hpar hfe hne hp
  · intro hn
    obtain ⟨old, ho, hk⟩ := mem_map.1 hr
    have hi : old.isOf place leading.column := by
      rw [ColumnRow.isOf_eq, hk, hn, decide_eq_true_eq]
    obtain ⟨part, hpa, hp, hc⟩ := exists_mem_partsOf hpar ho hi
    refine ⟨part, mem_append_right _ hpa, ?_⟩
    simp [PartRow.isIn_eq, home_of_mem_partsOf hpa, hp, hc, hn]

/-- The other indexes that a column leads are those that it led before. -/
theorem otherLeads_withIndex {row : ColumnRow} (hpl : row.place = place) :
    (cat.withIndex place index leading.column).otherLeads index.name row =
      cat.leads row := by
  have hn : (cat.partsOf place index leading.column).filter (fun part =>
      part.isOf row.place row.column.name && part.part.position = 1 &&
        part.part.index != index.name) = [] := by
    refine filter_eq_nil_iff.2 fun part hp => ?_
    have hi : part.part.index = index.name := congrArg Prod.snd (home_of_mem_partsOf hp)
    simp [hi]
  rw [otherLeads, withIndex, filter_append, hn, append_nil, leads]
  refine filter_congr fun part hp => ?_
  cases his : part.isOf row.place row.column.name with
  | false => rfl
  | true =>
    have ho : part.part.index ≠ index.name := by
      intro hi
      rw [PartRow.isOf_eq, decide_eq_true_eq] at his
      have hh : part.home = (place, index.name) := Prod.ext ((congrArg Prod.fst his).trans hpl) hi
      exact hf (mem_map.2 ⟨part, hp, hh⟩)
    simp [ho]

/-- Whether the key of a column is computed again when an index that was added is dropped. -/
theorem isRecomputed_withIndex (hpa : index.parts = leading :: rest)
    (hfe : index.parts.length ≤ Int64.maxValue.toInt)
    {row : ColumnRow} (hr : row.key ∈ cat.columns.map ColumnRow.key) :
    (cat.withIndex place index leading.column).isRecomputed place index.name row =
      (row.isOf place leading.column && row.column.key != .primary) := by
  rw [isRecomputed, ColumnRow.isOf]
  by_cases hp : row.place = place
  · have hc : cat.HasColumn place row.column.name := by
      rw [HasColumn, ← hp]
      exact hr
    rw [isLed_withIndex hf hpa hfe hc, Bool.and_right_comm]
  · simp [hp]

/-- The key of a column after it is promoted and then computed again. -/
theorem keyed_again (hs : index.kind ≠ .primary) (row : ColumnRow) :
    (let row := if row.isOf place leading.column then
        row.withKey (promoted row.column.key (Script.keyOfIndex index)) else row
      if row.isOf place leading.column && row.column.key != .primary then
        row.withKey (keyOfParts
          ((cat.withIndex place index leading.column).otherLeads index.name row))
      else row) =
      if row.isOf place leading.column && row.column.key != .primary then
        cat.withIndexedKey row else row := by
  cases hi : row.isOf place leading.column with
  | false => simp [hi]
  | true =>
    have hp : row.place = place := by
      rw [ColumnRow.isOf_eq, decide_eq_true_eq] at hi
      exact congrArg Prod.fst hi
    have hl (key : ColumnKey) : (cat.withIndex place index leading.column).otherLeads
        index.name (row.withKey key) = cat.leads row := otherLeads_withIndex hf hp
    have ho := Script.keyOfIndex_ne_primary hs
    by_cases hk : row.column.key = .primary
    · have hsa : promoted .primary (Script.keyOfIndex index) = .primary := rfl
      have hke : row.withKey .primary = row := hk ▸ row.withKey_self
      simp [hsa, hi, hk, hke]
    · have hst : promoted row.column.key (Script.keyOfIndex index) ≠ .primary := by
        rw [promoted]
        simp only [hk, ho, decide_false, Bool.or_self, Bool.false_eq_true, if_false]
        split <;> decide
      simp [hi, hst, hk, hl, withIndexedKey]

/-- An index that is added and dropped again leaves its leading column with the key that the other
indexes give it. -/
theorem after?_addIndex_dropIndex (hpa : index.parts = leading :: rest)
    (hs : index.kind ≠ .primary) (hfe : index.parts.length ≤ Int64.maxValue.toInt)
    (hsm : cat.parts.length ≤ Int64.maxValue.toInt) :
    (cat.after? (Script.addIndex place index).commands).bind
      (·.after? (Script.dropIndex place index.name).commands) = some
      { cat with
        columns := changed cat.columns
          (fun row => row.isOf place leading.column && row.column.key != .primary)
          cat.withIndexedKey } := by
  have hre (row : ColumnRow) (hr : row.key ∈ cat.columns.map ColumnRow.key) :=
    isRecomputed_withIndex hf hpa hfe hr
  have hk : (cat.withIndex place index leading.column).columns.map ColumnRow.key =
      cat.columns.map ColumnRow.key := map_changed fun _ _ _ => rfl
  -- the keys that are computed again are counted over what was there before
  have hco : ∀ row ∈ (cat.withIndex place index leading.column).columns,
      (cat.withIndex place index leading.column).isRecomputed place index.name row →
      ((cat.withIndex place index leading.column).otherLeads index.name row).length ≤
        Int64.maxValue.toInt := by
    intro row _ hr
    have hpl : row.place = place := by
      simp only [isRecomputed, Bool.and_eq_true, decide_eq_true_eq] at hr
      exact hr.1.1
    rw [otherLeads_withIndex hf hpl]
    have hle : (cat.leads row).length ≤ cat.parts.length := length_filter_le _ _
    omega
  have hfi : (cat.withIndex place index leading.column).parts.filter
      (!·.isIn place index.name) = cat.parts := by
    rw [withIndex, filter_append, filter_eq_self.2, filter_eq_nil_iff.2,
      append_nil]
    · intro part hp
      simp [PartRow.isIn_eq, home_of_mem_partsOf hp]
    · intro part hp
      rw [PartRow.isIn_eq, Bool.not_eq_true', decide_eq_false_iff_not]
      exact fun hh => hf (mem_map.2 ⟨part, hp, hh⟩)
  have hc : changed (cat.withIndex place index leading.column).columns
      ((cat.withIndex place index leading.column).isRecomputed place index.name)
      (fun row => row.withKey (keyOfParts
        ((cat.withIndex place index leading.column).otherLeads index.name row))) =
      changed cat.columns
        (fun row => row.isOf place leading.column && row.column.key != .primary)
        cat.withIndexedKey := by
    rw [changed_congr fun row hr => hre row (hk ▸ mem_map_of_mem hr)]
    simp only [withIndex, changed, map_map]
    refine map_congr_left fun row _ => ?_
    exact keyed_again hf hs row
  have ha : (cat.withIndex place index leading.column).after?
      (Script.dropIndex place index.name).commands =
      ((Command.recomputeKeys place index.name).effect
        (cat.withIndex place index leading.column)).bind fun keyed =>
        some { keyed with parts := keyed.parts.filter (!·.isIn place index.name) } := rfl
  rw [after?_addIndex_secondary hpa hs, Option.bind_some, ha, Command.effect,
    if_pos hco, Option.bind_some, hfi]
  exact congrArg (fun cols => some { cat with columns := cols }) hc

end

/-! ### The catalog as it was -/

/-- Keys computed from the indexes are the recorded ones exactly if the indexes account for them. -/
theorem stored_withIndexedKeys {cond : ColumnRow → Bool} :
    ({ cat with
      columns := changed cat.columns
        (fun row => cond row && row.column.key != .primary)
        cat.withIndexedKey } : Catalog).stored = cat.stored ↔
      ∀ row ∈ cat.columns, cond row → cat.KeyIsIndexed row := by
  constructor
  · intro heq row hro hc
    have hr := congrArg Tables.columns heq
    simp only [stored, changed, map_map] at hr
    have hre := map_inj_left.1 hr row hro
    by_cases hk : row.column.key = .primary
    · exact .inl hk
    · refine .inr (ColumnKey.eq_of_name_eq ?_)
      simp only [Function.comp_apply, hc, Bool.true_and, bne_iff_ne, ne_eq, hk,
        not_false_eq_true, if_true] at hre
      have hv := congrArg (Record.value? · "column_key") hre
      exact (Value.text.inj (Option.some.inj hv)).symm
  · intro h
    have hs : changed cat.columns (fun row => cond row && row.column.key != .primary)
        cat.withIndexedKey = cat.columns := by
      conv => rhs; rw [← map_id cat.columns]
      refine map_congr_left fun row hro => ?_
      split
      · rename_i hc
        rw [Bool.and_eq_true, bne_iff_ne] at hc
        obtain hp | hi := h row hro hc.1
        · exact absurd hp hc.2
        · rw [withIndexedKey, ← hi]
          rfl
      · rfl
    rw [hs]

/-- The records of the parts that a column leads. -/
theorem leads_stored {row : ColumnRow} (hi : row.isOf place col) :
    cat.stored.leads place col = (cat.leads row).map PartRow.record := by
  rw [ColumnRow.isOf_eq, decide_eq_true_eq] at hi
  obtain ⟨hpl, hn⟩ := Prod.mk.inj hi
  show (cat.parts.map PartRow.record).filter _ = _
  rw [filter_map, leads]
  refine congrArg _ (filter_congr fun part _ => ?_)
  have hat : part.record.IsAt place ↔ part.place = place := isAt_iff rfl rfl
  have hc : part.record.value? "column_name" = some (.text part.part.column) := rfl
  have hp : part.record.value? "seq_in_index" = some (.integer part.part.position) := rfl
  simp only [Function.comp_apply, hat, hc, hp, Option.some.injEq,
    Value.text.injEq, Value.integer.injEq, PartRow.isOf, hpl, hn, Bool.decide_and,
    Bool.and_assoc]

theorem keyOfParts_map_record (parts : List PartRow) :
    Tables.keyOfParts (parts.map PartRow.record) = keyOfParts parts := by
  have hn (part : PartRow) :
      (part.record.value? "index_name" = some (.text "PRIMARY")) ↔ part.part.index = "PRIMARY" := by
    show some (Value.text part.part.index) = _ ↔ _
    simp
  have hu (part : PartRow) :
      (part.record.value? "non_unique" = some (.integer 0)) ↔ part.part.unique := by
    show some (Value.ofBool (!part.part.unique)) = _ ↔ _
    cases part.part.unique <;> decide
  simp only [Tables.keyOfParts, keyOfParts, isEmpty_map, any_map, Function.comp_def, hn,
    hu, Bool.decide_eq_true]

theorem keyIsIndexed_stored : cat.stored.KeyIsIndexed place col ↔
    ∀ row ∈ cat.columns, row.isOf place col → cat.KeyIsIndexed row := by
  show (∀ record ∈ cat.columns.map ColumnRow.record, _) ↔ _
  rw [forall_mem_map]
  refine forall₂_congr fun row _ => ?_
  have hn : row.record.value? "column_name" = some (.text row.column.name) := rfl
  have hk : row.record.value? "column_key" = some (.text row.column.key.name) := rfl
  rw [isAt_iff (p := row.place) rfl rfl, hn, hk, ← and_imp]
  have hi : (row.place = place ∧ some (Value.text row.column.name) = some (.text col)) ↔
      row.isOf place col := by simp [ColumnRow.isOf]
  rw [hi]
  refine imp_congr_right fun hr => ?_
  have hp : row.column.key.name = ColumnKey.primary.name ↔ row.column.key = .primary :=
    ⟨ColumnKey.eq_of_name_eq, congrArg _⟩
  rw [leads_stored hr, keyOfParts_map_record, KeyIsIndexed, ← hp]
  simp only [Option.some.injEq, Value.text.injEq]
  exact or_congr Iff.rfl ⟨ColumnKey.eq_of_name_eq, congrArg _⟩

end Catalog

/-- An index that is added under a new name and dropped again leaves the catalog as it was exactly
if the indexes of the table account for the key of its leading column. -/
theorem perform_addIndex_dropIndex {schema table : String} {tables : Tables} {index : Index}
    {leading : KeyPart} {rest : List KeyPart} (h : Follows schema tables)
    (hparts : index.parts = leading :: rest) (hsecondary : index.kind ≠ .primary)
    (hfresh : ¬tables.HasIndex ⟨schema, table⟩ index.name)
    (hfew : index.parts.length ≤ Int64.maxValue.toInt)
    (hsmall : tables.statistics.length ≤ Int64.maxValue.toInt) :
    ∃ after, (do
        (Script.addIndex ⟨schema, table⟩ index).perform Command.perform
        (Script.dropIndex ⟨schema, table⟩ index.name).perform Command.perform :
        StateT Tables (Except Error) Unit) tables = .ok ((), after) ∧
      (after = tables ↔ tables.KeyIsIndexed ⟨schema, table⟩ leading.column) := by
  obtain ⟨catalog, rfl⟩ := h.exists_stored
  have hnew : ¬catalog.HasIndex ⟨schema, table⟩ index.name :=
    fun hhas => hfresh (Catalog.hasIndex_stored.2 hhas)
  have hcount : catalog.parts.length ≤ Int64.maxValue.toInt := by
    simpa [Catalog.stored] using hsmall
  have hafter := Catalog.after?_addIndex_dropIndex hnew hparts hsecondary hfew hcount
  obtain ⟨added, hadded, hdropped⟩ := Option.bind_eq_some_iff.1 hafter
  have hadding : (Script.addIndex ⟨schema, table⟩ index).failure = none := by
    rw [Script.addIndex, hparts]
  refine ⟨_, ?_, Catalog.stored_withIndexedKeys.trans Catalog.keyIsIndexed_stored.symm⟩
  rw [Script.perform_then_stored, hadded, hadding]
  exact Script.perform_stored_eq_ok.2 ⟨rfl, _, hdropped, rfl⟩

/-- An index `k` over the column `a`. -/
def Index.overColumn : Index where
  name := "k"
  kind := .plain
  using? := none
  comment := ""
  parts := [⟨"a", none, false⟩]
  keys := .node .keyList []

/-- The key of a column that leads another index stays. -/
theorem perform_addIndex_dropIndex_indexed : ∃ tables, Follows "d" tables ∧
    tables.columns.map (·.value? "column_key") = [some (.text "MUL"), some (.text "")] ∧
    (do
      (Script.addIndex ⟨"d", "t"⟩ .overColumn).perform Command.perform
      (Script.dropIndex ⟨"d", "t"⟩ "k").perform Command.perform :
      StateT Tables (Except Error) Unit) tables = .ok ((), tables) := by
  have hfollows := @Follows.ofCreateTable "d" _ (.ofTable "t" ["a", "b"] [.ofKey "j" ["a", "b"]])
    (Script.perform_stored _ {})
  obtain ⟨after, hafter, hsame⟩ :=
    @perform_addIndex_dropIndex "d" "t" _ .overColumn _ _ hfollows rfl
    (by decide) (by decide) (by decide) (by decide)
  obtain rfl := hsame.2 (by decide)
  exact ⟨_, hfollows, by decide, hafter⟩

/-- A table `t` with a column `a` that is declared to be unique. -/
def Tree.ofUniqueColumn : Tree :=
  .node .createTable [.node .tableName [ofName "t"], .node .tableElementList [
    .node .tableElement [.node .columnDefinition [ofName "a",
      .node .fieldDefinition [.node .dataType [.leaf ⟨.keyword .INT, "INT", 0⟩],
        .node .columnAttribute [.leaf ⟨.keyword .UNIQUE, "UNIQUE", 0⟩]]]]]]

/-- A column that is declared to be unique has another key when an index over it is added and
dropped again. -/
theorem addIndex_dropIndex_unique : ∃ tables, Follows "d" tables ∧
    ¬tables.HasIndex ⟨"d", "t"⟩ "k" ∧ tables.HasColumn ⟨"d", "t"⟩ "a" ∧
    (do
      (Script.addIndex ⟨"d", "t"⟩ .overColumn).perform Command.perform
      (Script.dropIndex ⟨"d", "t"⟩ "k").perform Command.perform :
      StateT Tables (Except Error) Unit) tables ≠ .ok ((), tables) := by
  refine ⟨_, @Follows.ofCreateTable "d" _ .ofUniqueColumn (Script.perform_stored _ {}),
    by decide, by decide, fun heq => ?_⟩
  have hkeys := congrArg (fun outcome => outcome.toOption.map fun done =>
    done.2.columns.map (·.value? "column_key")) heq
  revert hkeys
  decide +kernel

end SqlBridge
