/-
The primary key of a table: as it is declared, as it is written and as it is recorded.

A constraint over one column moves into the column, which is found by its name with ASCII case
aside; the catalog finds the columns of a key by their names in lower case; and the type `SERIAL` is
written with a key of its own.

* `Tree.DeclaresKey`: the primary key that the elements of a table declare, if they declare one.
* `KeyKept`: the key is written as it is declared, and recorded as it is written.
* `Tree.CarriesKey`: what the elements have to be for that.
* `Plan.createTable_key_iff`: the key is kept exactly then.
-/
import SqlBridge.Proofs.Plan.Mirrored

namespace SqlBridge

open Scribe List SqlBridge.Tree
open Text (lowercase equalsIgnoringCase)

variable {bad : Error → Prop} {db : String}
variable {name other col : String}

/-! ### Names -/

/-- Two names of a column that mean the same, ASCII case aside. -/
def SameName (name other : String) : Prop := equalsIgnoringCase name other

instance (name other : String) : Decidable (SameName name other) :=
  inferInstanceAs (Decidable (equalsIgnoringCase name other))

theorem SameName.refl (name : String) : SameName name name := by simp [SameName, equalsIgnoringCase]

theorem SameName.symm (h : SameName name other) : SameName other name := by
  simpa [SameName, equalsIgnoringCase] using (eq_of_beq h).symm

theorem SameName.trans {middle : String} (h : SameName name middle)
    (hn : SameName middle other) : SameName name other := by
  simpa [SameName, equalsIgnoringCase] using (eq_of_beq h).trans (eq_of_beq hn)

theorem SameName.lowercase_eq (h : SameName name other) :
    lowercase name = lowercase other := Text.lowercase_eq_of_equalsIgnoringCase h

/-! ### Declared keys -/

namespace Tree

/-- The columns that an attribute makes the primary key. -/
def inlineKeys (elements : Tree) : List String :=
  (elements.columnDefinitions.filter isInlineKey).map columnName

/-- The primary keys that constraints declare, each with its columns. -/
def constraintKeys (elements : Tree) : List (List String) :=
  elements.constraints.filterMap declaredKey?

/-- The primary key that the elements of a table declare: with an attribute, with a constraint, or
with both for one column. -/
inductive DeclaresKey (elements : Tree) : Option (List String) → Prop
  | nothing (inline : elements.inlineKeys = []) (constraints : elements.constraintKeys = []) :
      DeclaresKey elements none
  | byColumn {column : String} (inline : elements.inlineKeys = [column])
      (constraints : elements.constraintKeys = []) : DeclaresKey elements (some [column])
  | byConstraint {columns : List String} (inline : elements.inlineKeys = [])
      (constraints : elements.constraintKeys = [columns]) : DeclaresKey elements (some columns)
  | byBoth {column name : String} (inline : elements.inlineKeys = [column])
      (constraints : elements.constraintKeys = [[name]]) (same : SameName name column) :
      DeclaresKey elements (some [column])

/-- Whether a column is written as the primary key; `key?` is the column of a constraint that
moves. -/
def isKey (key? : Option String) (column : Tree) : Bool :=
  column.isKeyedBy key? || column.isInlineKey

/-- Whether a column brings a primary key by its type: `SERIAL` does, unless the column is the key
anyway and counts up. -/
def bringsKey (key? : Option String) (column : Tree) : Bool :=
  column.isSerial && !(column.isKey key? && column.countsUp)

/-- Whether the columns of a table are recorded: those of a temporary table are not, and if one of
them has no description then none is. -/
def recordsColumns (create elements : Tree) : Bool :=
  !create.hasKeyword .TEMPORARY && elements.columnDefinitions.all fun column =>
    (Column.ofDefinition column (.ofCreateTable create)).isOk

/-- The columns that are recorded. -/
def recordedColumns (create elements : Tree) : List Tree :=
  if create.recordsColumns elements then elements.columnDefinitions else []

/-- What keeps a primary key. -/
structure CarriesKey (create elements : Tree) (key? : Option (List String)) : Prop where
  /-- No column brings a key of its own. -/
  serial :
    ∀ column ∈ elements.columnDefinitions, column.bringsKey (Branch.inlineKey? elements) = false
  /-- A constraint over one column names one column. -/
  moved : ∀ name, elements.constraintKeys = [[name]] →
    (elements.columnDefinitions.filter (equalsIgnoringCase name ·.columnName)).length = 1
  /-- The columns of the key are columns of the table, and recorded. -/
  known : ∀ name ∈ key?.getD [], ∃ column ∈ create.recordedColumns elements,
    SameName name column.columnName
  /-- No other column has the name of one of them in lower case. -/
  folded : ∀ column ∈ create.recordedColumns elements, ∀ name ∈ elements.constraintKeys.flatten,
    lowercase name = lowercase column.columnName →
      ∃ other ∈ key?.getD [], SameName other column.columnName

theorem mem_recordedColumns {create elems col : Tree} :
    col ∈ create.recordedColumns elems ↔
      create.recordsColumns elems ∧ col ∈ elems.columnDefinitions := by
  unfold recordedColumns
  split <;> simp_all

end Tree

/-- The primary key of a table is kept: the definition declares it, and nothing else, and its
columns are those that are recorded with the key `PRI`. -/
structure KeyKept (key? : Option (List String)) (definition : TableText) (rows : List ColumnRow) :
    Prop where
  written : List.Forall₂ (List.Forall₂ SameName) definition.primaryKeys key?.toList
  recorded : ∀ name ∈ definition.primaryKeys.flatten,
    ∃ row ∈ rows, row.column.key = .primary ∧ SameName name row.column.name
  reported : ∀ row ∈ rows, row.column.key = .primary →
    ∃ name ∈ definition.primaryKeys.flatten, SameName name row.column.name

/-! ### Written keys -/

namespace Tree

section Columns

variable {key? : Option String} {cols : List Tree}

/-- The primary keys that columns are written with. -/
def columnKeys (key? : Option String) (cols : List Tree) : List (List String) :=
  cols.flatMap fun column =>
    replicate (column.keyWords (column.isKeyedBy key?)) [column.columnName]

theorem keyWords_eq (col : Tree) : col.keyWords (col.isKeyedBy key?) =
    (if col.bringsKey key? then 1 else 0) + if col.isKey key? then 1 else 0 := rfl

theorem length_columnKeys (cols : List Tree) : (columnKeys key? cols).length =
    cols.countP (bringsKey key?) + cols.countP (isKey key?) := by
  induction cols with
  | nil => rfl
  | cons col rest ih =>
    rw [columnKeys, flatMap_cons, length_append, length_replicate, keyWords_eq,
      countP_cons, countP_cons]
    have hr : (rest.flatMap fun col =>
        replicate (col.keyWords (col.isKeyedBy key?)) [col.columnName]).length = _ := ih
    omega

/-- One key is written, and it is not the one of a type. -/
theorem isKey_of_length (hl : (columnKeys key? cols).length = 1)
    (hk : ∃ col ∈ cols, col.isKey key?) :
    (∀ col ∈ cols, col.bringsKey key? = false) ∧ cols.countP (isKey key?) = 1 := by
  have hp : 0 < cols.countP (isKey key?) := countP_pos_iff.2 hk
  rw [length_columnKeys] at hl
  have hb : cols.countP (bringsKey key?) = 0 := by omega
  refine ⟨fun col hc => ?_, by omega⟩
  simpa using countP_eq_zero.1 hb col hc

theorem columnKeys_eq_nil_iff : columnKeys key? cols = [] ↔
    (∀ col ∈ cols, col.bringsKey key? = false) ∧ ∀ col ∈ cols, col.isKey key? = false := by
  rw [← length_eq_zero_iff, length_columnKeys, Nat.add_eq_zero_iff, countP_eq_zero,
    countP_eq_zero]
  simp

theorem columnKeys_of_forall (h : ∀ col ∈ cols, col.bringsKey key? = false) :
    columnKeys key? cols = (cols.filter (isKey key?)).map fun col => [col.columnName] := by
  induction cols with
  | nil => rfl
  | cons col rest ih =>
    rw [forall_mem_cons] at h
    have hr : columnKeys key? (col :: rest) =
        replicate (col.keyWords (col.isKeyedBy key?)) [col.columnName] ++
          columnKeys key? rest := rfl
    rw [hr, ih h.2, keyWords_eq, h.1]
    cases hk : col.isKey key? <;> simp [hk]

theorem exists_of_mem_columnKeys {key : List String} (h : key ∈ columnKeys key? cols) :
    ∃ col ∈ cols, key = [col.columnName] := by
  obtain ⟨col, hc, hk⟩ := mem_flatMap.1 h
  exact ⟨col, hc, eq_of_mem_replicate hk⟩

/-- **Columns are written with one key**, that of a name: no type brings one, and one column is the
key. -/
theorem columnKeys_same_iff (hke : ∀ col ∈ cols,
      SameName col.columnName name → ∃ other ∈ cols, other.isKey key?)
    (hn : ∀ col ∈ cols, col.isKey key? → SameName col.columnName name) :
    List.Forall₂ (List.Forall₂ SameName) (columnKeys key? cols) [[name]] ↔
      (∀ col ∈ cols, col.bringsKey key? = false) ∧ cols.countP (isKey key?) = 1 := by
  constructor
  · intro hw
    refine isKey_of_length hw.length_eq ?_
    obtain ⟨written, rest, hs, -, hk⟩ := forall₂_cons_right_iff.1 hw
    obtain ⟨col, hco, rfl⟩ := exists_of_mem_columnKeys (hk ▸ mem_cons_self)
    exact hke col hco (forall₂_cons.1 hs).1
  · rintro ⟨hb, hc⟩
    rw [columnKeys_of_forall hb]
    rw [countP_eq_length_filter] at hc
    obtain ⟨col, hf⟩ := length_eq_one_iff.1 hc
    have hm : col ∈ cols.filter (isKey key?) := by simp [hf]
    rw [hf]
    exact .cons (.cons (hn col (mem_filter.1 hm).1 (mem_filter.1 hm).2) .nil) .nil

end Columns

variable {create elems : Tree} {key? : Option (List String)}

theorem mem_childKeywords {tree : Tree} {kw : Keyword} (h : tree.hasKeyword kw) :
    kw ∈ tree.childKeywords := by
  obtain ⟨tok, ht, hk⟩ := find?_isSome.1 h
  refine mem_filterMap.2 ⟨tok, ht, ?_⟩
  rw [Token.keyword?, eq_of_beq hk]

/-- A constraint of a table says `PRIMARY` first or not at all, and lists columns if it does. -/
theorem declaredKey?_of_proper {con : Tree} (hru : con.hasRule .tableConstraintDef)
    (hp : (Draft.ofTree db con).Proper bad) :
    (con.hasKeyword .PRIMARY ∧ ∃ keys, con.child? .keyList = some keys ∧
        con.declaredKey? =
          some (((keys.childrenBy .keyPart).filterMap (·.child? .identifier)).map nameText)) ∨
      con.hasKeyword .PRIMARY = false ∧ con.declaredKey? = none := by
  obtain ⟨row, rfl⟩ := exists_of_hasRule hru
  have hd : Rule.admitsConstraint row := hp.branch.demand rfl rfl
  have hk : (node .tableConstraintDef row).childKeywords = keywords row := rfl
  by_cases hf : (node .tableConstraintDef row).childKeywords.head? = some .PRIMARY
  · have hi : Rule.isIn .keyList row := Rule.admitsDeclared_of_head hd hf
    obtain ⟨keys, hkey, -⟩ := hp.needed_keyList hi
    refine .inl ⟨hasKeyword_of_head hf, keys, hkey, ?_⟩
    rw [declaredKey?, if_pos hf, TableFacts.keyColumns, hkey]
  · refine .inr ⟨?_, if_neg hf⟩
    rw [← Bool.not_eq_true]
    intro hke
    have hm := mem_childKeywords hke
    unfold Rule.admitsConstraint at hd
    rw [hk] at hm hf
    split at hd
    · rename_i first rest hro
      rw [hro] at hm hf
      rcases mem_cons.1 hm with rfl | hr
      · exact hf rfl
      · have ha := all_eq_true.1 (Bool.and_eq_true_iff.1 hd).2 _ hr
        simp at ha
    · cases hd

/-- The columns that move are those of the first key that a constraint declares. -/
theorem primaryKeyColumns?_eq (hpr : (Draft.ofTree db elems).Proper bad) :
    elems.primaryKeyColumns? = elems.constraintKeys.head? := by
  have ha : ∀ con ∈ elems.constraints, con.hasRule .tableConstraintDef ∧
      (Draft.ofTree db con).Proper bad := by
    intro con hm
    obtain ⟨element, he, hc⟩ := mem_filterMap.1 hm
    have hb := hpr.child (mem_filter.1 he).1
    exact ⟨find?_some hc, hb.child (mem_of_find?_eq_some hc)⟩
  have hco : elems.primaryKeyColumns? =
      (elems.constraints.find? (·.hasKeyword .PRIMARY)).bind fun primary =>
        (primary.child? .keyList).bind fun keys =>
          some (((keys.childrenBy .keyPart).filterMap (·.child? .identifier)).map nameText) := rfl
  rw [hco, constraintKeys, head?_filterMap]
  generalize elems.constraints = constraints at ha
  induction constraints with
  | nil => rfl
  | cons con rest ih =>
    rw [forall_mem_cons] at ha
    rw [find?_cons, findSome?_cons]
    rcases declaredKey?_of_proper ha.1.1 ha.1.2 with ⟨hp, keys, hk, hd⟩ |
      ⟨hp, hd⟩
    · rw [hp, hd]
      simp [hk]
    · rw [hp, hd]
      exact ih ha.2

theorem inlineKey?_eq (hp : (Draft.ofTree db elems).Proper bad) :
    Branch.inlineKey? elems = match elems.constraintKeys.head? with
      | some [col] => some col
      | _ => none := by
  exact congrArg (fun key? : Option (List String) => match key? with
    | some [col] => some col
    | _ => none) (primaryKeyColumns?_eq hp)

/-- Whether the catalog records a column with the key `PRI`. -/
def IsReported (elements column : Tree) : Prop := column.isInlineKey ∨
  ∃ name ∈ elements.constraintKeys.flatten, lowercase name = lowercase column.columnName

namespace DeclaresKey

theorem columnName_of_isInlineKey (h : elems.inlineKeys = [col]) {defn : Tree}
    (hm : defn ∈ elems.columnDefinitions) (hk : defn.isInlineKey) :
    defn.columnName = col := by
  have hn : defn.columnName ∈ elems.inlineKeys := mem_map_of_mem (mem_filter.2 ⟨hm, hk⟩)
  rw [h] at hn
  exact mem_singleton.1 hn

theorem exists_of_inlineKeys (h : elems.inlineKeys = [col]) :
    ∃ defn ∈ elems.columnDefinitions, defn.isInlineKey ∧
      defn.columnName = col := by
  have hm : col ∈ elems.inlineKeys := by simp [h]
  obtain ⟨defn, hd, hn⟩ := mem_map.1 hm
  exact ⟨defn, (mem_filter.1 hd).1, (mem_filter.1 hd).2, hn⟩

theorem isInlineKey_of_nil (h : elems.inlineKeys = []) {defn : Tree}
    (hm : defn ∈ elems.columnDefinitions) : defn.isInlineKey = false := by
  rw [inlineKeys, map_eq_nil_iff, filter_eq_nil_iff] at h
  simpa using h defn hm

theorem writtenKeys_of_none (h : Branch.inlineKey? elems = none) :
    elems.writtenKeys = columnKeys none elems.columnDefinitions ++ elems.constraintKeys := by
  rw [writtenKeys, h]
  rfl

theorem writtenKeys_of_some (h : Branch.inlineKey? elems = some name) :
    elems.writtenKeys = columnKeys (some name) elems.columnDefinitions := by
  rw [writtenKeys, h]
  exact append_nil _

/-- No column is a key of its own. -/
theorem written_apart_iff (hi : Branch.inlineKey? elems = none) (hn : elems.inlineKeys = [])
    {keys : List (List String)} (hc : elems.constraintKeys = keys) :
    List.Forall₂ (List.Forall₂ SameName) elems.writtenKeys keys ↔
      ∀ col ∈ elems.columnDefinitions, col.bringsKey none = false := by
  have hk : ∀ col ∈ elems.columnDefinitions, col.isKey none = false :=
    fun col hco => isInlineKey_of_nil hn hco
  rw [writtenKeys_of_none hi, hc]
  constructor
  · intro hw
    have hl := hw.length_eq
    rw [length_append, Nat.add_eq_right, length_eq_zero_iff] at hl
    exact (columnKeys_eq_nil_iff.1 hl).1
  · intro hb
    rw [columnKeys_eq_nil_iff.2 ⟨hb, hk⟩, nil_append]
    exact forall₂_same.2 fun key _ => forall₂_same.2 fun name _ => .refl name

/-- An attribute makes a column the key. -/
theorem written_inline_iff (hi : Branch.inlineKey? elems = none)
    (hon : elems.inlineKeys = [col]) (hc : elems.constraintKeys = []) :
    List.Forall₂ (List.Forall₂ SameName) elems.writtenKeys [[col]] ↔
      ∀ col ∈ elems.columnDefinitions, col.bringsKey none = false := by
  obtain ⟨defn, hd, hk, hn⟩ := exists_of_inlineKeys hon
  have hco : defn.isKey none := hk
  have hcou : elems.columnDefinitions.countP (isKey none) = 1 := by
    have hl : (elems.columnDefinitions.filter isInlineKey).length = 1 := by
      simpa [inlineKeys] using congrArg length hon
    rwa [← countP_eq_length_filter] at hl
  have hs : ∀ other ∈ elems.columnDefinitions, other.isKey none →
      SameName other.columnName col := by
    intro other hot ho
    rw [columnName_of_isInlineKey hon hot ho]
    exact .refl col
  rw [writtenKeys_of_none hi, hc, append_nil,
    columnKeys_same_iff (fun _ _ _ => ⟨defn, hd, hco⟩) hs]
  exact and_iff_left hcou

/-- A constraint over one column moves. -/
theorem written_moved_iff (hin : Branch.inlineKey? elems = some name) (hn : SameName name col)
    (hke : ∀ defn ∈ elems.columnDefinitions, defn.isInlineKey →
      defn.columnName = col) :
    List.Forall₂ (List.Forall₂ SameName) elems.writtenKeys [[col]] ↔
      (∀ col ∈ elems.columnDefinitions, col.bringsKey (some name) = false) ∧
        (elems.columnDefinitions.filter (equalsIgnoringCase name ·.columnName)).length = 1 := by
  -- the columns of that name are all the columns that are the key
  have hk : ∀ defn ∈ elems.columnDefinitions,
      defn.isKey (some name) ↔ SameName name defn.columnName := by
    intro defn hd
    rw [isKey, Bool.or_eq_true]
    refine ⟨?_, .inl⟩
    rintro (hs | hi)
    · exact hs
    · rw [hke defn hd hi]
      exact hn
  have hc : elems.columnDefinitions.countP (isKey (some name)) =
      (elems.columnDefinitions.filter (equalsIgnoringCase name ·.columnName)).length := by
    rw [← countP_eq_length_filter]
    exact countP_congr hk
  rw [writtenKeys_of_some hin, ← hc]
  refine columnKeys_same_iff (fun defn hd hs => ?_) fun defn hd hkey => ?_
  · exact ⟨defn, hd, (hk defn hd).2 (hn.trans hs.symm)⟩
  · exact ((hk defn hd).1 hkey).symm.trans hn

/-- **A key is written as it is declared** if no type brings another, and a constraint that moves
has one column to move to. -/
theorem written_iff (hp : (Draft.ofTree db elems).Proper bad) (h : elems.DeclaresKey key?) :
    List.Forall₂ (List.Forall₂ SameName) elems.writtenKeys key?.toList ↔
      (∀ col ∈ elems.columnDefinitions,
        col.bringsKey (Branch.inlineKey? elems) = false) ∧
      ∀ name, elems.constraintKeys = [[name]] →
        (elems.columnDefinitions.filter (equalsIgnoringCase name ·.columnName)).length = 1 := by
  have hi := inlineKey?_eq hp
  cases h with
  | nothing hn hc =>
    rw [hc] at hi
    rw [hi]
    exact (written_apart_iff hi hn hc).trans (and_iff_left (by simp [hc])).symm
  | byColumn ho hc =>
    rw [hc] at hi
    rw [hi]
    exact (written_inline_iff hi ho hc).trans
      (and_iff_left (by simp [hc])).symm
  | @byConstraint cols hn hc =>
    by_cases hs : ∃ name, cols = [name]
    · obtain ⟨name, rfl⟩ := hs
      rw [hc] at hi
      rw [hi]
      refine (written_moved_iff hi (.refl name) fun defn hd hk => ?_).trans
        (and_congr_right fun _ => by simp [hc])
      rw [isInlineKey_of_nil hn hd] at hk
      cases hk
    · have hse : Branch.inlineKey? elems = none := by
        rw [hi, hc]
        split
        · rename_i col hh
          exact absurd ⟨col, Option.some.inj hh⟩ hs
        · rfl
      rw [hse]
      refine (written_apart_iff hse hn hc).trans (and_iff_left ?_).symm
      intro name hna
      exact absurd ⟨name, by simpa [hc] using hna⟩ hs
  | @byBoth col name ho hc hsa =>
    rw [hc] at hi
    rw [hi]
    exact (written_moved_iff hi hsa fun defn => columnName_of_isInlineKey ho).trans
      (and_congr_right fun _ => by simp [hc])

/-- The columns of a key are recorded as the key if they are recorded at all. -/
theorem known_iff (h : elems.DeclaresKey key?) :
    (∀ name ∈ key?.getD [], ∃ col ∈ create.recordedColumns elems,
        elems.IsReported col ∧ SameName name col.columnName) ↔
      ∀ name ∈ key?.getD [], ∃ col ∈ create.recordedColumns elems,
        SameName name col.columnName := by
  constructor
  · intro ha name hn
    obtain ⟨col, hc, -, hs⟩ := ha name hn
    exact ⟨col, hc, hs⟩
  · intro ha name hn
    obtain ⟨col, hc, hs⟩ := ha name hn
    -- a constraint is recorded for all columns of its names, an attribute for its own
    have hi {col : String} (ho : elems.inlineKeys = [col]) :
        ∃ defn ∈ create.recordedColumns elems, elems.IsReported defn ∧
          SameName col defn.columnName := by
      obtain ⟨defn, hd, hk, rfl⟩ := exists_of_inlineKeys ho
      exact ⟨defn, mem_recordedColumns.2 ⟨(mem_recordedColumns.1 hc).1, hd⟩,
        .inl hk, .refl _⟩
    cases h with
    | nothing _ _ => cases hn
    | byColumn ho _ =>
      obtain rfl := mem_singleton.1 hn
      exact hi ho
    | byConstraint _ hco =>
      refine ⟨col, hc, .inr ⟨name, ?_, hs.lowercase_eq⟩, hs⟩
      rw [hco]
      simpa using hn
    | byBoth ho _ _ =>
      obtain rfl := mem_singleton.1 hn
      exact hi ho

/-- No other column is recorded as the key if none has the name of one in lower case. -/
theorem folded_iff (h : elems.DeclaresKey key?) :
    (∀ col ∈ create.recordedColumns elems, elems.IsReported col →
        ∃ other ∈ key?.getD [], SameName other col.columnName) ↔
      ∀ col ∈ create.recordedColumns elems, ∀ name ∈ elems.constraintKeys.flatten,
        lowercase name = lowercase col.columnName →
          ∃ other ∈ key?.getD [], SameName other col.columnName := by
  constructor
  · intro ha col hc name hn hl
    exact ha col hc (.inr ⟨name, hn, hl⟩)
  · intro ha col hc hr
    have hm := (mem_recordedColumns.1 hc).2
    have hi {name : String} (ho : elems.inlineKeys = [name]) (hk : col.isInlineKey) :
        ∃ other ∈ (some [name]).getD [], SameName other col.columnName :=
      ⟨name, by simp, columnName_of_isInlineKey ho hm hk ▸ .refl _⟩
    rcases hr with hk | ⟨name, hn, hl⟩
    · cases h with
      | nothing hno _ => rw [isInlineKey_of_nil hno hm] at hk; cases hk
      | byColumn ho _ => exact hi ho hk
      | byConstraint hno _ => rw [isInlineKey_of_nil hno hm] at hk; cases hk
      | byBoth ho _ _ => exact hi ho hk
    · exact ha col hc name hn hl

end DeclaresKey

end Tree

/-! ### Recorded keys -/

theorem Tree.exists_child_of_isIn {rule other : Rule} {row : List Tree}
    (h : Rule.isIn other row) : ∃ child, (node rule row).child? other = some child := by
  have hs : ((node rule row).child? other).isSome := by
    rw [child?, find?_isSome]
    exact any_eq_true.1 h
  exact Option.isSome_iff_exists.1 hs

namespace ColumnKey

theorem join_eq_primary {a b : ColumnKey} : a.join b = .primary ↔ a = .primary ∨ b = .primary := by
  cases a <;> cases b <;> decide

theorem joinAll_eq_primary {keys : List ColumnKey} : joinAll keys = .primary ↔ .primary ∈ keys := by
  have hf (start : ColumnKey) :
      keys.foldl join start = .primary ↔ start = .primary ∨ .primary ∈ keys := by
    induction keys generalizing start with
    | nil => simp
    | cons key rest ih =>
      rw [foldl_cons, ih, join_eq_primary, mem_cons, or_assoc, eq_comm (a := key)]
  rw [joinAll, hf]
  simp

end ColumnKey

/-- The type of a keyword does not hang on the keywords after it. -/
theorem TypeName.exists_ofKeywords {kw : Keyword} (h : Rule.namesType kw)
    (rest : List Keyword) : ∃ type, ofKeywords (kw :: rest) = .ok type := by
  have hl {one other : TypeName} {cond : Bool} :
      ∃ type, (if cond then .ok one else .ok other : Except Error TypeName) = .ok type := by
    split <;> exact ⟨_, rfl⟩
  cases kw <;> first
    | (injection h; done)
    | exact ⟨_, rfl⟩
    | exact hl

namespace Column

variable {defn : Tree} {facts : TableFacts}

/-- A definition of a column that was read has a name, a type and attributes. -/
theorem exists_parts (hr : defn.hasRule .columnDefinition)
    (hp : (Draft.ofTree db defn).Proper bad) :
    ∃ name field dataType, defn.child? .identifier = some name ∧
      defn.child? .fieldDefinition = some field ∧ field.child? .dataType = some dataType ∧
      (∃ type, TypeName.ofDataType dataType = .ok type) ∧
      ∀ entry ∈ field.childrenBy .columnAttribute,
        entry.isPrimaryKeyAttribute ↔ keyOfEntry entry = .primary := by
  obtain ⟨row, rfl⟩ := exists_of_hasRule hr
  have hde : Rule.isIn .identifier row && Rule.isIn .fieldDefinition row := hp.branch.demand rfl rfl
  rw [Bool.and_eq_true] at hde
  obtain ⟨name, hna⟩ := exists_child_of_isIn hde.1
  obtain ⟨field, hfi⟩ := exists_child_of_isIn hde.2
  have hf := hp.child (mem_of_find?_eq_some hfi)
  obtain ⟨fields, rfl⟩ := exists_of_hasRule (find?_some hfi)
  obtain ⟨dataType, hd⟩ := exists_child_of_isIn (hf.branch.demand rfl rfl)
  have ht := hf.child (mem_of_find?_eq_some hd)
  obtain ⟨words, rfl⟩ := exists_of_hasRule (find?_some hd)
  refine ⟨name, _, _, hna, hfi, hd, ?_, fun entry hent => ?_⟩
  · have hty : (keywordAhead? words).any Rule.namesType := ht.branch.demand rfl rfl
    obtain ⟨kw, hke, hn⟩ := (Option.any_eq_true _ _).1 hty
    obtain ⟨rest, hk⟩ := Branch.childKeywords_of_ahead hke
    rw [TypeName.ofDataType, hk]
    exact TypeName.exists_ofKeywords hn rest
  · obtain ⟨hm, hen⟩ := mem_filter.1 hent
    have he := hf.child hm
    obtain ⟨ts, rfl⟩ := exists_of_hasRule hen
    have ha : Rule.admitsAttribute ts := he.branch.demand rfl rfl
    unfold Rule.admitsAttribute at ha
    unfold keyOfEntry
    split at ha
    · rename_i hfir
      simp [hfir, ha]
    · rename_i hfir
      simp [hfir, ha]
    · rename_i hpr hkey
      rw [Bool.and_eq_true, Bool.not_eq_true'] at ha
      rw [ha.2]
      split <;> simp_all

/-- **A column is described with the key that is declared for it.** -/
theorem key_ofDefinition (hr : defn.hasRule .columnDefinition)
    (hp : (Draft.ofTree db defn).Proper bad)
    {column : Column} (h : ofDefinition defn facts = .ok column) :
    column.name = defn.columnName ∧
      (column.key = .primary ↔ defn.isInlineKey ∨
        (lowercase defn.columnName, .primary) ∈ facts.keys) := by
  obtain ⟨name, field, dataType, type, extent, hn, hf, -, -, -, rfl⟩ := ofDefinition_eq_ok h
  obtain ⟨-, field', -, -, hf', -, -, ha⟩ := exists_parts hr hp
  obtain rfl := Option.some.inj (hf.symm.trans hf')
  have hc : defn.columnName = name.nameText := by
    rw [columnName, hn]
    rfl
  refine ⟨hc.symm, ?_⟩
  have ho : ownKey field = .primary ↔ defn.isInlineKey := by
    rw [ownKey, ColumnKey.joinAll_eq_primary, isInlineKey, columnAttributes, hf,
      mem_map]
    simp only [Option.map_some, Option.getD_some, any_eq_true]
    exact exists_congr fun entry => and_congr_right fun he => (ha entry he).symm
  have hfa : facts.key name.nameText = .primary ↔
      (lowercase defn.columnName, .primary) ∈ facts.keys := by
    rw [TableFacts.key, ColumnKey.joinAll_eq_primary, hc]
    simp
  show (ColumnKey.join (ColumnKey.join (ownKey field) _) (facts.key name.nameText)) = .primary ↔ _
  rw [ColumnKey.join_eq_primary, ColumnKey.join_eq_primary, ho, hfa]
  split <;> simp

end Column

namespace Tree

variable {create elems : Tree}

/-- The names that the catalog has keys for are those of the constraints, in lower case. -/
theorem mem_keys_ofCreateTable (he : create.child? .tableElementList = some elems)
    (col : String) : (lowercase col, .primary) ∈ (TableFacts.ofCreateTable create).keys ↔
      ∃ name ∈ elems.constraintKeys.flatten, lowercase name = lowercase col := by
  have hk :
      (TableFacts.ofCreateTable create).keys = elems.constraints.flatMap TableFacts.keysOf := by
    rw [TableFacts.ofCreateTable, he]
  have hco (con : Tree) : (lowercase col, .primary) ∈ TableFacts.keysOf con ↔
      ∃ cols ∈ con.declaredKey?, ∃ name ∈ cols, lowercase name = lowercase col := by
    by_cases hf : con.childKeywords.head? = some .PRIMARY
    · simp [TableFacts.keysOf, indexKind?, declaredKey?, hf]
    · have hki : con.indexKind? ≠ some .primary := by
        unfold indexKind?
        split <;> simp_all
      have ho {key : ColumnKey} (hke : key ≠ .primary) (names : List String) :
          (lowercase col, .primary) ∉ names.map (·, key) := by
        intro hm
        obtain ⟨name, -, heq⟩ := mem_map.1 hm
        exact hke (congrArg Prod.snd heq)
      rw [declaredKey?, if_neg hf]
      refine iff_of_false ?_ (by simp)
      unfold TableFacts.keysOf
      split
      · rename_i hp
        exact absurd hp hki
      · exact ho (by decide) _
      · exact ho (by decide) _
      · split
        · exact ho (by decide) _
        · simp
  rw [hk, mem_flatMap, constraintKeys]
  simp only [hco, mem_flatten, mem_filterMap]
  constructor
  · rintro ⟨con, hm, cols, hc, name, hn, hl⟩
    exact ⟨name, ⟨cols, ⟨con, hm, hc⟩, hn⟩, hl⟩
  · rintro ⟨name, ⟨cols, ⟨con, hm, hc⟩, hn⟩, hl⟩
    exact ⟨con, hm, cols, hc, name, hn, hl⟩

/-- A column is recorded as the key, as its table is declared. -/
theorem isReported_iff (he : create.child? .tableElementList = some elems)
    (hp : (Draft.ofTree db elems).Proper bad) {defn : Tree}
    (hm : defn ∈ elems.columnDefinitions) {column : Column}
    (h : Column.ofDefinition defn (.ofCreateTable create) = .ok column) :
    column.name = defn.columnName ∧ (column.key = .primary ↔ elems.IsReported defn) := by
  obtain ⟨element, hel, hc⟩ := mem_filterMap.1 hm
  have hb := hp.child (mem_filter.1 hel).1
  obtain ⟨hn, hk⟩ := Column.key_ofDefinition (find?_some hc) (hb.child (mem_of_find?_eq_some hc)) h
  exact ⟨hn, hk.trans (or_congr_right (mem_keys_ofCreateTable he _))⟩

end Tree

namespace Script

/-- The rows of columns that a script leaves, which are none if it fails. -/
def columnRows (script : Script) : List ColumnRow :=
  if script.failure.isSome then [] else
    script.commands.filterMap fun command =>
      match command with
      | .recordColumn place ordinal column => some ⟨place, ordinal, column⟩
      | _ => none

/-- Columns are described if each of them is. -/
theorem isOk_of_describeAll {facts : TableFacts} (defns : List Tree) :
    (defns.all fun defn => (Column.ofDefinition defn facts).isOk) =
      (describeAll facts defns).2.isNone := by
  induction defns with
  | nil => rfl
  | cons defn rest ih =>
    rw [all_cons, ih, describeAll]
    cases Column.ofDefinition defn facts with
    | ok column => rfl
    | error error => rfl

variable {create elems : Tree}

/-- **The rows of the columns of a table**, with their names and keys. -/
theorem forall₂_columnRows {table : String} (he : create.child? .tableElementList = some elems)
    (hta : (create.child? .tableName).bind lastName? = some table)
    (hp : (Draft.ofTree db elems).Proper bad) :
    List.Forall₂ (fun defn row => row.column.name = defn.columnName ∧
        (row.column.key = .primary ↔ elems.IsReported defn))
      (create.recordedColumns elems) (createTable db create).columnRows := by
  unfold recordedColumns recordsColumns
  rw [isOk_of_describeAll]
  cases ht : create.hasKeyword .TEMPORARY with
  | true =>
    rw [createTable, ht]
    exact .nil
  | false =>
    rcases hd : describeAll (.ofCreateTable create) elems.columnDefinitions with
      ⟨columns, _ | error⟩
    · have hr : (createTable db create).columnRows =
          Catalog.columnRows ⟨db, table⟩ columns := by
        rw [createTable_eq ht he hta, hd]
        simp [columnRows, Catalog.columnRows, mapIdx_eq_zipIdx_map, filterMap_map]
      have hn : (Catalog.columnRows ⟨db, table⟩ columns).map ColumnRow.column = columns := by
        rw [Catalog.columnRows, map_mapIdx, mapIdx_const]
        exact map_id columns
      have hc := ((forall₂_and_left (p := (· ∈ elems.columnDefinitions)) _ _).2
        ⟨fun _ hm => hm, forall₂_describeAll hd⟩).imp fun _ _ h => isReported_iff he hp h.1 h.2
      rw [hr]
      rwa [← hn, forall₂_map_right_iff] at hc
    · rw [createTable_eq ht he hta, hd]
      exact .nil

end Script

/-! ### Kept keys -/

theorem exists_iff_of_forall₂ {α β : Type} {related : α → β → Prop} {as : List α} {bs : List β}
    {left : α → Prop} {right : β → Prop} (h : List.Forall₂ related as bs)
    (hb : ∀ a b, related a b → (left a ↔ right b)) : (∃ a ∈ as, left a) ↔ ∃ b ∈ bs, right b := by
  induction h with
  | nil => simp
  | cons hf _ ih => rw [exists_mem_cons_iff, exists_mem_cons_iff, ih, hb _ _ hf]

theorem forall_iff_of_forall₂ {α β : Type} {related : α → β → Prop} {as : List α} {bs : List β}
    {left : α → Prop} {right : β → Prop} (h : List.Forall₂ related as bs)
    (hb : ∀ a b, related a b → (left a ↔ right b)) : (∀ a ∈ as, left a) ↔ ∀ b ∈ bs, right b := by
  induction h with
  | nil => simp
  | cons hf _ ih => rw [forall_mem_cons, forall_mem_cons, ih, hb _ _ hf]

namespace Tree

variable {create elems : Tree} {key? : Option (List String)} {defn : TableText}

theorem forall₂_flatten {keys : List (List String)}
    (h : List.Forall₂ (List.Forall₂ SameName) keys key?.toList) :
    List.Forall₂ SameName keys.flatten (key?.getD []) := by
  have hf := rel_flatten h
  cases key? <;> simpa using hf

/-- **A key is kept if the elements of its table carry it.** -/
theorem DeclaresKey.keyKept_iff (hp : (Draft.ofTree db elems).Proper bad)
    (h : elems.DeclaresKey key?) (hke : defn.primaryKeys = elems.writtenKeys)
    {rows : List ColumnRow} (hrows : List.Forall₂ (fun col row => row.column.name = col.columnName ∧
      (row.column.key = .primary ↔ elems.IsReported col)) (create.recordedColumns elems) rows) :
    KeyKept key? defn rows ↔ create.CarriesKey elems key? := by
  have hw := h.written_iff hp
  -- rows say the same as columns
  have hr (name : String) :
      (∃ row ∈ rows, row.column.key = .primary ∧ SameName name row.column.name) ↔
        ∃ col ∈ create.recordedColumns elems,
          elems.IsReported col ∧ SameName name col.columnName :=
    (exists_iff_of_forall₂ hrows fun col row hro =>
      and_congr hro.2.symm (by rw [hro.1])).symm
  have hre : (∀ row ∈ rows, row.column.key = .primary →
        ∃ name ∈ elems.writtenKeys.flatten, SameName name row.column.name) ↔
      ∀ col ∈ create.recordedColumns elems, elems.IsReported col →
        ∃ name ∈ elems.writtenKeys.flatten, SameName name col.columnName :=
    (forall_iff_of_forall₂ hrows fun col row hro =>
      imp_congr hro.2.symm (by rw [hro.1])).symm
  -- and the names that are written say the same as those that are declared
  have hn (hk : List.Forall₂ (List.Forall₂ SameName) elems.writtenKeys key?.toList)
      (col : String) : (∃ name ∈ elems.writtenKeys.flatten, SameName name col) ↔
        ∃ name ∈ key?.getD [], SameName name col :=
    exists_iff_of_forall₂ (forall₂_flatten hk) fun _ _ hs => ⟨hs.symm.trans, hs.trans⟩
  have hkn (hk : List.Forall₂ (List.Forall₂ SameName) elems.writtenKeys key?.toList) :
      (∀ name ∈ elems.writtenKeys.flatten, ∃ col ∈ create.recordedColumns elems,
        elems.IsReported col ∧ SameName name col.columnName) ↔
      ∀ name ∈ key?.getD [], ∃ col ∈ create.recordedColumns elems,
        elems.IsReported col ∧ SameName name col.columnName :=
    forall_iff_of_forall₂ (forall₂_flatten hk) fun _ _ hs =>
      exists_congr fun _ => and_congr_right' (and_congr_right' ⟨hs.symm.trans, hs.trans⟩)
  constructor
  · rintro ⟨hk, ha, hf⟩
    rw [hke] at hk ha hf
    simp only [hr] at ha
    exact
      { serial := (hw.1 hk).1
        moved := (hw.1 hk).2
        known := h.known_iff.1 ((hkn hk).1 ha)
        folded := h.folded_iff.1 fun col hco hkey =>
          (hn hk _).1 (hre.1 hf col hco hkey) }
  · intro hc
    have hk := hw.2 ⟨hc.serial, hc.moved⟩
    refine ⟨hke ▸ hk, ?_, ?_⟩
    · simp only [hke, hr]
      exact (hkn hk).2 (h.known_iff.2 hc.known)
    · rw [hke]
      exact hre.2 fun col hco hkey =>
        (hn hk _).2 (h.folded_iff.2 hc.folded col hco hkey)

end Tree

/-- **The primary key of a table is kept** exactly if its elements carry it. -/
theorem Plan.createTable_key_iff {sql : String} {query create elements : Tree} {plan : Plan}
    {key? : Option (List String)} (hparse : Grammar.parse sql = .ok query)
    (hcreate : query.createdTable? = some create)
    (helements : create.child? .tableElementList = some elements)
    (hkey : elements.DeclaresKey key?)
    (hplan : (Plan.ofTree database query).outcome.1 = .ok plan) :
    ∃ text others definition, plan.steps = [⟨text :: others, some (.createTable create)⟩] ∧
      TableText.ofText? text = some definition ∧
      (KeyKept key? definition (Script.createTable database create).columnRows ↔
        create.CarriesKey elements key?) := by
  obtain ⟨verb, rest, rfl, hverb, hrule⟩ := Tree.eq_of_createdTable? hparse hcreate
  have hproper :
      (Draft.ofTree database (.node .createStatement [verb, create])).Proper fun _ => True :=
    Draft.proper_statement hparse
  have hcreateProper : (Draft.ofTree database create).Proper fun _ => True :=
    hproper.child (by simp [Tree.children])
  have helementsProper := hcreateProper.child (List.mem_of_find?_eq_some helements)
  obtain ⟨table, htable⟩ := hcreateProper.exists_tableName hrule
  obtain ⟨named, hnamed, hresults⟩ := Plan.results_createTable hproper hverb hrule helements htable
  rw [ofTree_query database rfl] at hplan
  obtain ⟨text, others, definition, hsteps, htext, hmirrors, -⟩ := hresults.of_ok hplan
  exact ⟨text, others, definition, hsteps, htext,
    hkey.keyKept_iff helementsProper hmirrors.primaryKeys
    (Script.forall₂_columnRows helements htable helementsProper)⟩

/-- A key that a constraint declares for one column, in another case. -/
theorem Plan.createTable_key_iff_moved :
    let sql := "CREATE TABLE t (a INT, b INT, PRIMARY KEY (A))"
    ∃ query create elements plan, Grammar.parse sql = .ok query ∧
      query.createdTable? = some create ∧ create.child? .tableElementList = some elements ∧
      elements.DeclaresKey (some ["A"]) ∧ (Plan.ofTree "db" query).outcome.1 = .ok plan ∧
      ∃ text others definition, plan.steps = [⟨text :: others, some (.createTable create)⟩] ∧
        TableText.ofText? text = some definition ∧
        KeyKept (some ["A"]) definition (Script.createTable "db" create).columnRows := by
  intro sql
  have hread : (do
      let query ← (Grammar.parse sql).toOption
      let create ← query.createdTable?
      let elements ← (create.child? .tableElementList).filter fun elements =>
        elements.inlineKeys == [] && elements.constraintKeys == [["A"]] &&
          elements.columnDefinitions.map Tree.columnName == ["a", "b"] &&
          elements.columnDefinitions.all (!·.isSerial) && create.recordsColumns elements
      let plan ← (Plan.ofTree "db" query).outcome.1.toOption
      return (elements, plan) : Option _).isSome = true := by decide +kernel
  obtain ⟨_, hfound⟩ := Option.isSome_iff_exists.1 hread
  simp only [Option.bind_eq_bind, Option.bind_eq_some_iff, toOption_eq_some,
    Option.filter_eq_some_iff, Bool.and_eq_true, Bool.not_eq_true', beq_iff_eq, List.all_eq_true]
    at hfound
  obtain ⟨query, hparse, create, hcreate, elements,
    ⟨helements, ⟨⟨⟨hinline, hconstraints⟩, hnames⟩, hserial⟩, hrecords⟩, plan, hplan, -⟩ := hfound
  have hkey : elements.DeclaresKey (some ["A"]) := .byConstraint hinline hconstraints
  have hcarries : create.CarriesKey elements (some ["A"]) := by
    have hrecorded : create.recordedColumns elements = elements.columnDefinitions := by
      simp [Tree.recordedColumns, hrecords]
    have hcolumn : ∃ column ∈ elements.columnDefinitions, SameName "A" column.columnName := by
      have hmem : "a" ∈ elements.columnDefinitions.map Tree.columnName := by simp [hnames]
      obtain ⟨column, hcolumn, hname⟩ := List.mem_map.1 hmem
      exact ⟨column, hcolumn, by rw [hname]; decide⟩
    refine ⟨fun column hmem => by simp [Tree.bringsKey, hserial column hmem], ?_, ?_, ?_⟩
    · intro name hname
      obtain rfl : "A" = name := by simpa [hconstraints] using hname
      have hlength :
          (elements.columnDefinitions.map Tree.columnName).countP (equalsIgnoringCase "A") = 1 := by
        rw [hnames]
        decide
      rwa [List.countP_map, List.countP_eq_length_filter] at hlength
    · simpa [hrecorded] using hcolumn
    · intro column hmem name hname hlower
      rw [hrecorded] at hmem
      have hcolumnName : column.columnName ∈ ["a", "b"] := hnames ▸ List.mem_map_of_mem hmem
      obtain rfl : name = "A" := by simpa [hconstraints] using hname
      rcases List.mem_pair.1 hcolumnName with hname | hname
      · exact ⟨"A", by simp, by rw [hname]; decide⟩
      · rw [hname] at hlower
        exact absurd hlower (by decide +kernel)
  obtain ⟨text, others, definition, hsteps, htext, hiff⟩ :=
    Plan.createTable_key_iff hparse hcreate helements hkey hplan
  exact ⟨query, create, elements, plan, hparse, hcreate, helements, hkey, hplan, text, others,
    definition, hsteps, htext, hiff.2 hcarries⟩

/-- A column of type `SERIAL` that is declared the primary key is declared it twice. -/
theorem Plan.serial_key_twice :
    let sql := "CREATE TABLE t (a SERIAL PRIMARY KEY)"
    ∃ query create elements plan, Grammar.parse sql = .ok query ∧
      query.createdTable? = some create ∧ create.child? .tableElementList = some elements ∧
      elements.DeclaresKey (some ["a"]) ∧ (Plan.ofTree "db" query).outcome.1 = .ok plan ∧
      plan.steps.flatMap Step.statements = ["CREATE TABLE \"t\" " ++
        "(\"a\" INTEGER NOT NULL PRIMARY KEY AUTOINCREMENT UNIQUE PRIMARY KEY)"] ∧
      ∀ text ∈ plan.steps.flatMap Step.statements, ∀ definition,
        TableText.ofText? text = some definition →
        ∀ rows, ¬ KeyKept (some ["a"]) definition rows := by
  intro sql
  let text :=
    "CREATE TABLE \"t\" (\"a\" INTEGER NOT NULL PRIMARY KEY AUTOINCREMENT UNIQUE PRIMARY KEY)"
  have hread : (do
      let query ← (Grammar.parse sql).toOption
      let create ← query.createdTable?
      let elements ← (create.child? .tableElementList).filter fun elements =>
        elements.inlineKeys == ["a"] && elements.constraintKeys == []
      let plan ← (Plan.ofTree "db" query).outcome.1.toOption.filter fun plan =>
        plan.steps.flatMap Step.statements == [text]
      return (elements, plan) : Option _).isSome = true := by decide +kernel
  have htwice : (TableText.ofText? text).map TableText.primaryKeys = some [["a"], ["a"]] := by
    decide +kernel
  obtain ⟨_, hfound⟩ := Option.isSome_iff_exists.1 hread
  simp only [Option.bind_eq_bind, Option.bind_eq_some_iff, toOption_eq_some,
    Option.filter_eq_some_iff, Bool.and_eq_true, beq_iff_eq] at hfound
  obtain ⟨query, hparse, create, hcreate, elements, ⟨helements, hinline, hconstraints⟩, plan,
    ⟨hplan, hstatements⟩, -⟩ := hfound
  refine ⟨query, create, elements, plan, hparse, hcreate, helements, .byColumn hinline hconstraints,
    hplan, hstatements, fun written hwritten definition hdefinition rows hkept => ?_⟩
  rw [hstatements] at hwritten
  obtain rfl := List.mem_singleton.1 hwritten
  rw [hdefinition] at htwice
  have hlength := hkept.written.length_eq
  rw [Option.some.inj htwice] at hlength
  cases hlength

end SqlBridge
