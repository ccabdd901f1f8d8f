/-
What is written for a tree that is admitted throughout.

* `Branch.Proper.columnDefinition` and its neighbours: definitions of columns, keys and indexes.  A
  column begins with its name, and `Tree.keyWords` says how often it is declared to be the primary
  key.
* `Branch.Proper.write`: every rule of the grammar.
* `Draft.proper_ofTree`: a tree that is admitted throughout, drafted from its leaves up.
-/
import SqlBridge.Proofs.Grammar.Admission
import SqlBridge.Proofs.Grammar.Faithful
import SqlBridge.Proofs.Scribe.Called
import SqlBridge.Proofs.Sql.Items

namespace SqlBridge

open Scribe Sql List SqlBridge.Tree

variable {faulty : Error → Prop}

/-- A node with identifiers among its children ends in a name. -/
theorem Tree.exists_lastName {rule : Rule} {row : List Tree} (h : Rule.isIn .identifier row) :
    ∃ name, (Tree.node rule row).lastName? = some name := by
  obtain ⟨tree, hm, hr⟩ := any_eq_true.1 h
  have hne : (Tree.node rule row).childrenBy .identifier ≠ [] :=
    ne_nil_of_mem (mem_filter.2 ⟨hm, hr⟩)
  exact ⟨_, by rw [lastName?, getLast?_eq_some_getLast hne]; rfl⟩

namespace Tree

/-- The name of a column that is defined. -/
def columnName (column : Tree) : String := ((column.child? .identifier).map nameText).getD ""

def columnAttributes (column : Tree) : List Tree :=
  ((column.child? .fieldDefinition).map (·.childrenBy .columnAttribute)).getD []

/-- Whether an attribute makes a column the primary key. -/
def isInlineKey (column : Tree) : Bool := column.columnAttributes.any isPrimaryKeyAttribute

/-- Whether a column has the attribute `AUTO_INCREMENT`. -/
def countsUp (column : Tree) : Bool := column.columnAttributes.any (·.hasKeyword .AUTO_INCREMENT)

/-- Whether a column has the type `SERIAL`. -/
def isSerial (column : Tree) : Bool :=
  ((column.child? .fieldDefinition).bind (·.child? .dataType)).any (·.typeKeyword? == some .SERIAL)

/-- How often a column is declared to be the primary key where it is written; `keyed` if it is the
key by a constraint of its table.  The type `SERIAL` brings a declaration of its own, unless the
column is the key and counts up. -/
def keyWords (keyed : Bool) (column : Tree) : Nat :=
  let primary := keyed || column.isInlineKey
  (if column.isSerial && !(primary && column.countsUp) then 1 else 0) + if primary then 1 else 0

/-- What a column of a table is written as; `key?` is the column that a constraint makes the key. -/
def ReadsColumn (key? : Option String) (column : Tree) (sql : Sql) : Prop :=
  ∃ rest : Sql, sql = .name column.columnName :: rest ∧
    rest.Declares (column.keyWords (key?.any (Text.equalsIgnoringCase · column.columnName)))

end Tree

namespace Branch

variable {node : Branch} {rule : Rule} {row : List Tree}
variable {part : Draft} {elems : List Draft} {tree : Tree}

/-! ### Parts -/

theorem children_of_tree (ht : node.tree = .node rule row) : node.tree.children = row := by
  rw [ht, children]

theorem childKeywords_of_ahead {keyword : Keyword} (h : keywordAhead? row = some keyword) :
    ∃ rest, (Tree.node rule row).childKeywords = keyword :: rest := by
  cases row with
  | nil => cases h
  | cons first rest =>
    cases first with
    | node other below => cases h
    | leaf token =>
      rw [keywordAhead?_leaf] at h
      exact ⟨keywords rest, by simp [childKeywords, childTokens, children, h,
        keywords]⟩

theorem stands_serial : Stands .definition
    (words ["INTEGER", "NOT", "NULL", "PRIMARY", "KEY", "AUTOINCREMENT", "UNIQUE"]) := by
  have hb : Even .definition (words ["INTEGER", "NOT", "NULL"]) := even_tokens (by decide)
  have ha : Even .definition (words ["KEY", "AUTOINCREMENT", "UNIQUE"]) := even_tokens (by decide)
  exact stands_cons (hb.append ((even_primary rfl).append ha))

theorem stands_word {loose : Looseness} {text : String} (h : isWord text) :
    Stands loose (word text) := by
  have ht : isToken (.raw text) := h
  exact stands_cons (even_of_isToken ht)

theorem declares_primary : Declares 1 (words ["PRIMARY", "KEY"]) :=
  declares_words (by decide) (by decide)

theorem declares_key (primary autoIncrement : Bool) : Declares (if primary then 1 else 0) (words
    ((if primary then ["PRIMARY", "KEY"] else []) ++
      if autoIncrement then ["AUTOINCREMENT"] else [])) := by
  cases primary <;> cases autoIncrement <;> exact declares_words (by decide) (by decide)

theorem results_need (hp : node.child? rule = some part) :
    (node.need rule).Results faulty (· = part) := by
  rw [need, hp]
  exact results_pure rfl

/-- The definition of a column can stand between commas. -/
theorem even_column {sql rest : Sql} {name : String} {count : Nat} (h : sql = .name name :: rest)
    (hr : rest.Declares count) : sql.Even .definition := by
  rw [h]
  exact (even_name name).append hr.even

theorem even_of_readsColumn {key? : Option String} {cols : List Tree} {sqls : List Sql}
    (h : List.Forall₂ (Tree.ReadsColumn key?) cols sqls) : ∀ sql ∈ sqls, sql.Even .definition := by
  intro sql hs
  obtain ⟨i, hi, rfl⟩ := mem_iff_getElem.1 hs
  obtain ⟨rest, hs, hr⟩ := h.get (h.length_eq ▸ hi) hi
  exact even_column hs hr

/-- A reference keeps the word that it begins with. -/
theorem any_isWritten_withoutMatch {parts : List Draft}
    (h : keywordAhead? (parts.map Draft.tree) = some .REFERENCES) :
    ((withoutMatch parts).map Draft.tree).any isWritten := by
  obtain ⟨first, rest, rfl⟩ : ∃ first rest, parts = first :: rest := by
    cases parts with
    | nil => cases h
    | cons first rest => exact ⟨first, rest, rfl⟩
  obtain ⟨token, ht, hki⟩ : ∃ token, first.tree = .leaf token ∧
      token.kind = .keyword .REFERENCES := by
    cases ht : first.tree with
    | node rule below => simp [ht, keywordAhead?] at h
    | leaf token =>
      rw [map_cons, ht, keywordAhead?_leaf] at h
      exact ⟨token, rfl, Token.kind_of_keyword? h⟩
  have hk : first.tree.hasKind (.keyword .MATCH) = false := by simp [ht, hki]
  have hw : first.tree.isWritten := by
    rw [ht]
    exact isWritten_keyword hki
  cases rest with
  | nil => simp [withoutMatch, hk, hw]
  | cons next rest => simp [withoutMatch, hk, hw]

theorem mem_of_mem_withoutMatch {parts : List Draft}
    (h : part ∈ withoutMatch parts) : part ∈ parts := by
  fun_induction withoutMatch parts with
  | case1 => exact h
  | case2 => simp at h
  | case3 => exact h
  | case4 _ _ _ _ ih => simp [ih h]
  | case5 _ _ _ _ ih =>
    rcases mem_cons.1 h with rfl | hr
    · simp
    · exact mem_cons_of_mem _ (ih hr)

/-- What a node is written as that need not stand for anything. -/
theorem results_some {scribe : Scribe Sql} (hw : rule.isWritten = false)
    (h : scribe.Results faulty (Even (Tree.node rule row).looseness)) :
    (some <$> scribe : Scribe (Option Sql)).Results faulty (Tree.node rule row).Reads :=
  results_map h fun _ hs => reads_even hw (by simpa using hs)

/-- What a node is written as that stands for something. -/
theorem results_stands {scribe : Scribe Sql} (hr : rule ≠ .identifier)
    (h : scribe.Results faulty (Stands (Tree.node rule row).looseness)) :
    (some <$> scribe : Scribe (Option Sql)).Results faulty (Tree.node rule row).Reads :=
  results_map h fun _ hs => reads_stands hr hs

theorem results_indexDefinition {keys : Draft} (h : keys.Proper faulty)
    (hr : keys.tree.hasRule .keyList) (table index : String) (unique : Bool) :
    (indexDefinition table index unique keys).Results faulty (Stands .item) := by
  refine results_bind (h.required_rule hr rfl) fun list hl => results_pure ?_
  have hi : Even .item (words (if unique then ["UNIQUE", "INDEX"] else ["INDEX"])) := by
    split <;> exact even_tokens (by decide)
  have hon : Even .item [.raw "ON"] := even_tokens (by decide)
  exact hl.prepend (hi.append ((even_name _).append (hon.append (even_name table))))

theorem results_selectOption :
    node.selectOption.Results faulty (Tree.node .selectOption row).Reads := by
  have hn : (Tree.node .selectOption row).Reads none := reads_even rfl (by simp)
  have hw {text : String} (h : isWord text) :
      (Tree.node .selectOption row).Reads (some (word text)) :=
    reads_even rfl (by simpa using (stands_word h).even)
  unfold selectOption
  split
  · exact results_bind (results_modify _) fun _ _ => results_pure hn
  · exact results_pure (hw (by decide))
  · exact results_pure (hw (by decide))
  · exact results_pure (hw (by decide))
  · exact results_pure hn

theorem Proper.exists_lastName (h : part.Proper faulty)
    (hr : part.tree.hasRule .columnRef) : ∃ name, part.tree.lastName? = some name := by
  obtain ⟨below, ht⟩ := exists_of_hasRule hr
  have hn : Rule.isIn .identifier below := h.branch.demand ht rfl
  rw [ht]
  exact Tree.exists_lastName hn

theorem ite_results {α : Type} {expected : α → Prop} {condition : Prop} [Decidable condition]
    {first second : Scribe α} (hf : first.Results faulty expected)
    (hs : second.Results faulty expected) :
    (if condition then first else second).Results faulty expected := by
  split
  · exact hf
  · exact hs

theorem any_isWritten_of_isIn {other : Rule} (h : Rule.isIn other row)
    (hw : other.isWritten) : row.any isWritten := by
  obtain ⟨tree, hm, hr⟩ := any_eq_true.1 h
  obtain ⟨below, rfl⟩ := exists_of_hasRule hr
  exact any_eq_true.2 ⟨_, hm, hw⟩

theorem isWritten_of_hasKind {kind : Token.Kind} (h : tree.hasKind kind)
    (hk : kind ≠ .ending ∧ kind ≠ .symbol .semicolon) : tree.isWritten := by
  cases tree with
  | node other below => cases h
  | leaf token =>
    obtain rfl : token.kind = kind := by simpa using h
    simp [isWritten, Token.isEnding, Token.isSymbol, hk]

theorem any_isWritten_of_admitsVerb {verb : Keyword} {rules : List Rule}
    (h : Rule.admitsVerb verb rules row) : row.any isWritten := by
  unfold Rule.admitsVerb at h
  split at h
  · rw [Bool.and_eq_true] at h
    simp [isWritten_of_hasKind h.1 (by simp)]
  · cases h

theorem any_isWritten_of_admitsKeys (h : Rule.admitsKeys row) :
    row.any isWritten := by
  unfold Rule.admitsKeys at h
  split at h
  · rw [Bool.and_eq_true] at h
    simp [isWritten_of_hasKind h.1 (by simp)]
  · cases h

theorem any_isWritten_of_admitsQuery (h : Rule.admitsQuery row) :
    row.any isWritten := by
  unfold Rule.admitsQuery at h
  split at h
  · rename_i member rest
    rw [Bool.and_eq_true, isMember, Bool.or_eq_true] at h
    rw [any_cons, Bool.or_eq_true]
    rcases h.1 with hp | hn
    · obtain ⟨below, rfl⟩ := exists_of_hasRule hp
      exact .inl rfl
    · obtain ⟨below, rfl⟩ := exists_of_hasRule hn
      exact .inl rfl
  · cases h

/-- Names with dots between them stand for something. -/
theorem results_reads_path {scribe : Scribe (Option Sql)} (hr : rule ≠ .identifier)
    (h : scribe.Results faulty fun sql? => ∃ sql, sql? = some sql ∧ sql.Path) :
    scribe.Results faulty (Tree.node rule row).Reads := by
  refine h.mono ?_
  rintro sql? ⟨sql, rfl, hp⟩
  exact reads_stands hr (hp.stands _)

namespace Proper

variable (h : node.Proper faulty)

include h

/-! ### Definitions -/

/-- The child of a tree is the tree of a part. -/
theorem tree_child? (rule : Rule) : node.tree.child? rule = (node.child? rule).map Draft.tree := by
  rw [Tree.child?, ← h.trees, find?_map]
  rfl

/-- The type of a column, with what `SERIAL` brings. -/
theorem columnTypeSql (ht : node.tree = .node .dataType row) :
    Ends faulty (Stands node.tree.looseness) (columnTypeSql node.tree) := by
  have hd : (keywordAhead? row).any Rule.namesType := h.demand ht rfl
  obtain ⟨keyword, ha, -⟩ := (Option.any_eq_true _ _).1 hd
  have hl : node.tree.looseness =
      if node.tree.typeKeyword? = some .SERIAL then .definition else .item := by
    rw [ht]
    rfl
  unfold SqlBridge.columnTypeSql
  split
  · rename_i hn
    -- a data type begins with a keyword
    obtain ⟨rest, hk⟩ : ∃ rest, (Tree.node .dataType row).childKeywords = keyword :: rest :=
      childKeywords_of_ahead ha
    rw [ht, typeKeyword?, hk] at hn
    split at hn <;> simp_all
  · rename_i hs
    rw [hl, if_pos hs]
    exact stands_serial
  · rename_i keyword ho hty
    have hi : node.tree.looseness = .item := by
      rw [hl, if_neg]
      rw [hty]
      simpa using ho
    rw [hi]
    split
    · rename_i name hc
      exact stands_word (isWord_of_storageClass hc)
    · exact h.refuses _ trivial

/-- The type of a column declares a key if it is `SERIAL` and written in full. -/
theorem keyedType (htr : node.tree = .node .dataType row) (primary autoIncrement : Bool) :
    (keyedType node.tree primary autoIncrement).Results faulty (Declares
      (if (node.tree.typeKeyword? == some .SERIAL) &&
        !(primary && autoIncrement) then 1 else 0)) := by
  have hit {text : String} (h : isWord text) : Declares 0 (word text) :=
    (stands_word h).even.declares
  rw [Branch.keyedType]
  by_cases hb : (primary && autoIncrement)
  · rw [if_pos hb, hb, Bool.not_true, Bool.and_false]
    exact results_pure (hit (by decide))
  rw [if_neg hb, Bool.eq_false_iff.2 hb, Bool.not_false, Bool.and_true]
  by_cases hi : (primary && node.tree.isIntegerType)
  · have hs : (node.tree.typeKeyword? == some .SERIAL) = false := by
      rw [beq_eq_false_iff_ne]
      intro hs
      have hk := (Bool.and_eq_true_iff.1 hi).2
      rw [isIntegerType, hs] at hk
      exact absurd hk (by decide)
    rw [if_pos hi, hs]
    exact results_pure (hit (by decide))
  rw [if_neg hi]
  refine results_lift ?_
  have he := h.columnTypeSql htr
  cases ht : node.tree.typeKeyword? with
  | none =>
    rw [SqlBridge.columnTypeSql, ht] at he ⊢
    exact he
  | some keyword =>
    by_cases hs : keyword = .SERIAL
    · rw [SqlBridge.columnTypeSql, ht, hs]
      exact declares_words (by decide) (by decide)
    · have ho : (some keyword == some Keyword.SERIAL) = false := by simpa using hs
      rw [ho]
      unfold SqlBridge.columnTypeSql
      rw [ht]
      rw [if_neg Bool.false_ne_true]
      split
      · contradiction
      · rename_i heq
        exact absurd (Option.some.inj heq) hs
      · rename_i other _ heq
        split
        · rename_i name hc
          exact hit (isWord_of_storageClass hc)
        · exact h.refuses _ trivial

/-- The attributes of a column that are written as they stand declare no key. -/
theorem otherAttributes : (Draft.writeEach Draft.sql
      ((node.childrenBy .columnAttribute).filter (!isKeyAttribute ·))).Results faulty
        (Even .item) := by
  have he : ∀ part ∈ (node.childrenBy .columnAttribute).filter (!isKeyAttribute ·),
      part.sql.Results faulty (Draft.RowReads .item 0 [part.tree]) := by
    intro part hpa
    obtain ⟨hm, ho⟩ := mem_filter.1 hpa
    obtain ⟨hp, hr⟩ := h.childrenBy hm
    obtain ⟨below, ht⟩ := exists_of_hasRule hr
    have hl : part.tree.looseness = .item := by
      have hk : part.tree.isPrimaryKeyAttribute = false := by
        simp only [isKeyAttribute, Bool.not_eq_true', Bool.or_eq_false_iff] at ho
        exact ho.1
      rw [ht] at hk ⊢
      simp [looseness, hk]
    refine (hp.sql (by rw [ht]; rfl)).mono fun sql hs => ?_
    rw [hl] at hs
    exact ⟨hs, fun hw => by rw [ht] at hw; cases hw⟩
  exact (Draft.results_each he).mono fun sql hs => hs.even

/-- **A column begins with its name, and then declares as many keys as its definition says.** -/
theorem columnDefinition (htr : node.tree = .node .columnDefinition row) (keyed : Bool) :
    (node.columnDefinition keyed).Results faulty fun sql =>
      ∃ rest : Sql, sql = .name node.tree.columnName :: rest ∧
        rest.Declares (node.tree.keyWords keyed) := by
  have hd := h.demand htr rfl
  rw [Bool.and_eq_true, ← children_of_tree htr] at hd
  obtain ⟨name, hnam, hn, hna⟩ := h.exists_child hd.1
  obtain ⟨field, hfield, hf, hfieldRule⟩ := h.exists_child hd.2
  obtain ⟨below, hfie⟩ := exists_of_hasRule hfieldRule
  have hty : Rule.isIn .dataType field.branch.tree.children := by
    have hb : field.branch.tree.children = below := children_of_tree hfie
    rw [hb]
    exact hf.branch.demand hfie rfl
  obtain ⟨dataType, hda, ht, htypeRule⟩ := hf.branch.exists_child hty
  obtain ⟨typeRow, htypeTree⟩ := exists_of_hasRule htypeRule
  -- the parts of the tree are the trees of the parts
  have hc : node.tree.columnName = name.tree.nameText := by
    rw [Tree.columnName, h.tree_child?, hnam]
    rfl
  have hfi : node.tree.child? .fieldDefinition = some field.tree := by
    rw [h.tree_child?, hfield]
    rfl
  have ha : node.tree.columnAttributes =
      (field.branch.childrenBy .columnAttribute).map Draft.tree := by
    have htre : field.branch.parts.map Draft.tree = field.tree.children := hf.branch.trees
    rw [Tree.columnAttributes, hfi, Option.map_some, Option.getD_some, Tree.childrenBy,
      ← htre, filter_map]
    rfl
  have hs : node.tree.isSerial = (dataType.tree.typeKeyword? == some .SERIAL) := by
    have htyp : field.tree.child? .dataType = some dataType.tree := by
      have hch : field.branch.tree.child? .dataType = _ := hf.branch.tree_child? .dataType
      rw [hda] at hch
      exact hch
    rw [isSerial, hfi, Option.bind_some, htyp]
    rfl
  have hi : (field.branch.childrenBy .columnAttribute).any (·.tree.isPrimaryKeyAttribute) =
      node.tree.isInlineKey := by
    rw [isInlineKey, ha, any_map]
    rfl
  have hco : (field.branch.childrenBy .columnAttribute).any (·.tree.hasKeyword .AUTO_INCREMENT) =
      node.tree.countsUp := by
    rw [countsUp, ha, any_map]
    rfl
  refine results_bind (results_need hnam) ?_
  rintro name rfl
  refine results_bind (results_need hfield) ?_
  rintro field rfl
  refine results_bind (results_need hda) ?_
  rintro dataType rfl
  extract_lets attributes primary autoIncrement key
  have hp : primary = (keyed || node.tree.isInlineKey) := congrArg (keyed || ·) hi
  have hau : autoIncrement = node.tree.countsUp := hco
  refine h.results_unless (results_bind (hn.required_name hna) ?_)
  rintro _ rfl
  refine results_bind (ht.branch.keyedType htypeTree primary autoIncrement) fun type hty => ?_
  extract_lets finish
  have hfin : ∀ generated : Sql, generated.Declares 0 → (finish generated).Results faulty fun sql =>
      ∃ rest : Sql, sql = .name node.tree.columnName :: rest ∧
        rest.Declares (node.tree.keyWords keyed) := by
    intro generated hg
    refine results_bind hf.branch.otherAttributes fun others ho => results_pure ?_
    refine ⟨type ++ generated ++ others ++ words key, by simp [hc], ?_⟩
    have hr := ((hty.append hg).append ho.declares).append
      (declares_key primary autoIncrement)
    rw [keyWords, hs, ← hp, ← hau]
    exact hr
  split
  · rename_i part hpa
    obtain ⟨hpr, hru⟩ := hf.branch.child hpa
    exact results_bind ((hpr.required_rule hru rfl).mono fun sql hsq => hsq.even.declares)
      hfin
  · exact results_bind (results_pure even_nil.declares) hfin

theorem columnAttribute (ht : node.tree = .node .columnAttribute row) :
    node.columnAttribute.Results faulty (Tree.node .columnAttribute row).Reads := by
  have hd : Rule.admitsAttribute row := h.demand ht rfl
  have hn : (Tree.node .columnAttribute row).Reads none := reads_even rfl (by simp)
  have hi {sql : Sql} (hs : sql.Even .item) : (Tree.node .columnAttribute row).Reads (some sql) :=
    reads_even rfl (by simpa using hs.mono Looseness.item_fits)
  unfold Rule.admitsAttribute at hd
  unfold Branch.columnAttribute
  rw [ht]
  split
  · rename_i hf
    rw [hf] at hd
    exact results_pure (reads_even rfl (by simpa [looseness, hd] using declares_primary.even))
  · rename_i hf
    rw [hf] at hd
    exact results_pure (reads_even rfl (by simpa [looseness, hd] using declares_primary.even))
  · exact results_pure (hi (even_tokens (by decide)))
  case h_12 hp hk _ _ _ _ _ _ _ _ _ =>
    have hti : isTidy .item 0 (node.parts.map Draft.tree) := by
      rw [h.trees, children_of_tree ht]
      split at hd
      · exact absurd ‹_› hp
      · exact absurd ‹_› hk
      · exact (Bool.and_eq_true_iff.1 hd).1
    refine (Draft.results_sequence h.below hti).mono fun sql? hs => reads_even rfl ?_
    exact fun sql hm => (hs.1 sql hm).mono Looseness.item_fits
  all_goals exact results_pure hn

/-! ### Constraints -/

theorem references (ht : node.tree = .node .references row) :
    node.references.Results faulty (Stands .item) := by
  have hr : node.parts.map Draft.tree = row := by rw [h.trees, children_of_tree ht]
  have hd := h.demand ht rfl
  rw [beq_iff_eq, ← hr] at hd
  have hp := h.isLaidOut ht
  rw [Rule.isLaidOut, ← hr] at hp
  have hre : node.references.Results faulty
      (Draft.RowReads .item 0 ((withoutMatch node.parts).map Draft.tree)) := by
    refine Draft.results_each fun part hpa => ?_
    have hm := mem_of_mem_withoutMatch hpa
    exact (h.below part hm).sql_plain (all_eq_true.1 hp _ (mem_map_of_mem hm))
  exact hre.mono fun sql hs => ⟨hs.even, hs.written (any_isWritten_withoutMatch hd)⟩

theorem constraint (ht : node.tree = .node .tableConstraintDef row) :
    node.constraint.Results faulty (Tree.node .tableConstraintDef row).Reads := by
  have hke : node.tree.childKeywords = keywords row := by
    rw [ht]
    rfl
  have hd {keyword : Keyword} (hf : node.tree.childKeywords.head? = some keyword) :
      Rule.admitsDeclared row keyword := by
    rw [hke] at hf
    exact Rule.admitsDeclared_of_head (h.demand ht rfl) hf
  have hc : row = node.tree.children := (children_of_tree ht).symm
  have hl : (Tree.node .tableConstraintDef row).looseness =
      if node.tree.childKeywords.head? = some .PRIMARY then .definition else .item := by
    rw [ht]
    rfl
  unfold Branch.constraint
  extract_lets finish
  have hfi : ∀ name : Sql, name.Even .item →
      (finish name).Results faulty (Tree.node .tableConstraintDef row).Reads := by
    intro name hn
    simp only [finish]
    split
    · rename_i hf
      have hkey : Rule.isIn .keyList node.tree.children := hc ▸ hd hf
      rw [hf] at hl
      refine results_bind (h.needed hkey rfl) fun keys hk => results_pure ?_
      refine reads_even rfl ?_
      rintro sql ⟨rfl⟩
      rw [hl]
      exact ((hn.mono rfl).append declares_primary.even).append (hk.even.mono rfl)
    · rename_i hf
      have hb : (Rule.isIn .keyList node.tree.children &&
          Rule.isIn .references node.tree.children) := hc ▸ hd hf
      rw [Bool.and_eq_true] at hb
      rw [hf] at hl
      refine results_bind (h.needed hb.1 rfl) fun keys hk => ?_
      refine results_bind (h.needed hb.2 rfl) fun target hta => results_pure ?_
      refine reads_even rfl ?_
      rintro sql ⟨rfl⟩
      rw [hl]
      exact ((hn.append (even_tokens (by decide))).append hk.even).append hta.even
    · rename_i hf
      have hch : Rule.isIn .exprWithParentheses node.tree.children := hc ▸ hd hf
      rw [hf] at hl
      refine results_bind (h.needed hch rfl) fun check hche => results_pure ?_
      refine reads_even rfl ?_
      rintro sql ⟨rfl⟩
      rw [hl]
      have hw : Even .item [.raw "CHECK"] := even_tokens (by decide)
      exact hn.append (hw.append hche.even)
    · exact results_pure (reads_even rfl (by simp))
  split
  · rename_i part hpa
    obtain ⟨hp, hr⟩ := h.child hpa
    obtain ⟨below, hbe⟩ := exists_of_hasRule hr
    refine results_bind (hp.sql (by rw [hbe]; rfl)) fun sql hs => hfi sql ?_
    rw [hbe] at hs
    exact hs
  · exact results_bind (results_pure even_nil) hfi

/-! ### Assigned values -/

theorem assignedColumn (ht : node.tree = .node .updateElement row) :
    node.assignedColumn.Results faulty fun _ => True := by
  have hd := h.demand ht rfl
  rw [Bool.and_eq_true, ← children_of_tree ht] at hd
  obtain ⟨col, hc, hp, hr⟩ := h.exists_child hd.1
  obtain ⟨name, hn⟩ := exists_lastName hp hr
  have hs : (node.tree.child? .columnRef).bind lastName? = some name := by
    rw [h.tree_child?, hc]
    exact hn
  exact (results_part hs).mono fun _ _ => trivial

theorem assignedValue (ht : node.tree = .node .updateElement row) :
    node.assignedValue.Results faulty (Stands .item) := by
  have hde := h.demand ht rfl
  rw [Bool.and_eq_true, Bool.or_eq_true, ← children_of_tree ht] at hde
  unfold Branch.assignedValue
  split
  · exact h.results_unsupported _
  · rename_i hd
    rw [hasKeyword, hasToken_eq_any] at hd
    have hs := hde.2.resolve_left hd
    have hn : node.tree.children.filter isNode = node.nodes.map Draft.tree := by
      rw [← h.trees, filter_map]
      rfl
    rw [hn, getElem?_map] at hs
    obtain ⟨tree, hm, ho⟩ := (Option.any_eq_true _ _).1 hs
    obtain ⟨value, hv, rfl⟩ := Option.map_eq_some_iff.1 hm
    refine results_bind (results_part hv) ?_
    rintro value rfl
    have hme := (mem_filter.1 (mem_of_getElem? hv)).1
    exact (h.below value hme).required_operand ho

end Proper

/-! ### Lists -/

/-- What the columns of a table are written as, one after the other. -/
theorem results_elementColumns (h : ∀ element ∈ elems, element.Proper faulty)
    (key? : Option String) : (elementColumns key? elems).Results faulty (List.Forall₂
      (Tree.ReadsColumn key?) ((elems.map Draft.tree).filterMap (·.child? .columnDefinition))) := by
  induction elems with
  | nil => exact results_pure .nil
  | cons element rest ih =>
    rw [forall_mem_cons] at h
    have hc : element.tree.child? .columnDefinition =
        (element.branch.child? .columnDefinition).map Draft.tree := h.1.branch.tree_child? _
    unfold elementColumns
    split
    · rename_i col hco
      obtain ⟨hp, hr⟩ := h.1.branch.child hco
      obtain ⟨below, ht⟩ := exists_of_hasRule hr
      refine results_bind (hp.branch.columnDefinition ht _) fun sql hs => ?_
      refine results_bind (ih h.2) fun cols hcol => results_pure ?_
      rw [hco] at hc
      rw [map_cons, filterMap_cons, hc]
      exact .cons hs hcol
    · rename_i hn
      rw [hn] at hc
      rw [map_cons, filterMap_cons, hc]
      exact ih h.2

theorem results_elementConstraints
    (h : ∀ element ∈ elems, element.Proper faulty) (key? : Option String) :
    (elementConstraints key? elems).Results faulty
      fun constraints => ∀ constraint ∈ constraints, constraint.Even .definition := by
  induction elems with
  | nil => exact results_pure (by simp)
  | cons element rest ih =>
    rw [forall_mem_cons] at h
    unfold elementConstraints
    split
    · rename_i constraint hco
      obtain ⟨hp, hru⟩ := h.1.branch.child hco
      obtain ⟨below, ht⟩ := exists_of_hasRule hru
      split
      · exact ih h.2
      · refine results_bind hp.write fun sql? hr => ?_
        refine results_bind (ih h.2) fun constraints hc => results_pure ?_
        rw [ht] at hr
        intro sql hs
        rcases mem_append.1 hs with hf | hre
        · have he := Tree.NodeReads.even hr sql (by simpa using hf)
          exact he.mono looseness_fits
        · exact hc sql hre
    · exact ih h.2

theorem results_assignedPairs (h : ∀ element ∈ elems,
      element.Proper faulty ∧ element.tree.hasRule .updateElement) :
    (assignedPairs elems).Results faulty fun pairs => ∀ pair ∈ pairs, pair.2.Even .compound := by
  induction elems with
  | nil => exact results_pure (by simp)
  | cons element rest ih =>
    rw [forall_mem_cons] at h
    obtain ⟨below, ht⟩ := exists_of_hasRule h.1.2
    refine results_bind (h.1.1.branch.assignedColumn ht) fun col _ => ?_
    refine results_bind (h.1.1.branch.assignedValue ht) fun value hv => ?_
    refine results_bind (ih h.2) fun pairs hp => results_pure ?_
    exact forall_mem_cons.2 ⟨hv.even.inside, hp⟩

theorem results_assignedRow {assignments : Draft} (h : assignments.Proper faulty) :
    (assignedRow assignments).Results faulty (Even .item) := by
  refine results_bind (results_assignedPairs fun element => h.branch.childrenBy) fun pairs hp => ?_
  have hc : Even .compound (commaSeparated (pairs.map fun pair => [.name pair.1])) := by
    refine even_commaSeparated rfl ?_
    simp only [forall_mem_map]
    exact fun pair _ => even_name pair.1
  have hv : Even .compound (commaSeparated (pairs.map Prod.snd)) := by
    refine even_commaSeparated rfl ?_
    simpa only [forall_mem_map] using hp
  have hw : Even .item [.raw "VALUES"] := even_tokens (by decide)
  exact results_pure (hc.group.append (hw.append hv.group))

theorem results_columnNames {cols : List Draft} (h : ∀ col ∈ cols,
      col.Proper faulty ∧ col.tree.hasRule .columnRef) :
    (columnNames cols).Results faulty fun names => ∀ name ∈ names, name.Even .list := by
  induction cols with
  | nil => exact results_pure (by simp)
  | cons col rest ih =>
    rw [forall_mem_cons] at h
    obtain ⟨name, hna⟩ := Proper.exists_lastName h.1.1 h.1.2
    rw [columnNames, hna]
    refine results_bind (ih h.2) fun names hn => results_pure ?_
    exact forall_mem_cons.2 ⟨even_name name, hn⟩

namespace Proper

variable (h : node.Proper faulty)

include h

/-! ### Tables and indexes -/

theorem tableElements : node.tableElements.Results faulty (Even .list) := by
  have hb : ∀ element ∈ node.childrenBy .tableElement, element.Proper faulty :=
    fun element he => (h.childrenBy he).1
  refine results_bind (results_elementColumns hb _) fun cols hcol => ?_
  refine results_bind (results_elementConstraints hb _) fun constraints hc => ?_
  refine results_pure (even_commaSeparated rfl fun sql hs => ?_)
  rcases mem_append.1 hs with hcolumn | hco
  · exact (even_of_readsColumn hcol sql hcolumn).mono rfl
  · exact (hc sql hco).mono rfl

theorem createTable (ht : node.tree = .node .createTable row) :
    node.createTable.Results faulty (Tree.node .createTable row).Reads := by
  unfold Branch.createTable
  split
  · exact h.results_unsupported _
  split
  · exact h.results_unsupported _
  · exact h.sequence ht rfl fun hw => by cases hw

theorem tableQuery (hq : Rule.isIn .queryExpression node.tree.children) :
    node.tableQuery.Results faulty (Even .compound) := by
  have has : Even .compound [.raw "AS"] := even_tokens (by decide)
  exact results_bind (h.needed hq rfl) fun query hq =>
    results_pure (has.append hq.even)

theorem dropTable (ht : Rule.isIn .tableRefList node.tree.children) :
    node.dropTable.Results faulty (Even .item) := by
  refine results_bind (h.need ht) fun tables hp => ?_
  split
  · rename_i table hta
    obtain ⟨hn, hr⟩ : table.Proper faulty ∧ table.tree.hasRule .tableRef :=
      hp.1.branch.childrenBy (by rw [hta]; simp)
    refine results_bind (hn.required_rule hr rfl) fun name hn => results_pure ?_
    refine Even.append ?_ hn.even
    split <;> exact even_tokens (by decide)
  · exact h.results_unsupported _

theorem createIndex (ht : node.tree = .node .createIndex row) :
    node.createIndex.Results faulty (Even .item) := by
  have hd := h.demand ht rfl
  rw [Bool.and_eq_true, Bool.and_eq_true, ← children_of_tree ht] at hd
  obtain ⟨⟨hta, hi⟩, hk⟩ := hd
  refine results_bind (h.need hta) fun table _ => results_bind (h.need hi) fun index _ => ?_
  refine results_bind (h.need hk) fun keys hk => ?_
  exact (results_indexDefinition hk.1 hk.2 _ _ _).mono fun sql hs => hs.even

theorem dropIndex (ht : node.tree = .node .dropIndex row) :
    node.dropIndex.Results faulty (Even .item) := by
  have hd := h.demand ht rfl
  rw [Bool.and_eq_true, ← children_of_tree ht] at hd
  refine results_bind (h.need hd.1) fun table _ => ?_
  have hw : Even .item [.raw "INDEX"] := even_tokens (by decide)
  exact results_bind (h.need hd.2) fun index _ => results_pure (hw.append (even_name _))

/-! ### Queries -/

theorem nestedQuery (hq : Rule.isIn .queryExpression node.tree.children) :
    node.nestedQuery.Results faulty (Stands .compound) := by
  refine results_bind (h.need hq) fun inner hi => ?_
  refine results_bind (hi.1.required_rule hi.2 rfl) fun query hq => ?_
  split
  · exact results_pure ((stands_group hq.even).prepend (even_tokens (by decide)))
  · exact results_pure hq

theorem orderTerm (ht : node.tree = .node .orderExpression row) :
    node.orderTerm.Results faulty (Even .item) := by
  have hs := h.sequence ht rfl fun hw => by cases hw
  refine results_bind hs fun sql? hr => results_pure ?_
  have he : Even .item (sql?.getD []) := by
    cases sql? with
    | none => exact even_nil
    | some sql => exact Tree.NodeReads.even hr sql rfl
  split
  · exact he
  · exact he.append (even_tokens (by decide))

/-! ### Insertions and updates -/

theorem assignment (ht : node.tree = .node .updateElement row) :
    node.assignment.Results faulty (Stands .item) := by
  refine results_bind (h.assignedColumn ht) fun col _ => ?_
  refine results_bind (h.assignedValue ht) fun value hv => results_pure ?_
  have he : Even .item [.raw "="] := even_tokens (by decide)
  exact hv.prepend ((even_name col).append he)

theorem insertedRows : node.insertedRows.Results faulty (Even .compound) := by
  unfold Branch.insertedRows
  split
  · rename_i assignments _ _ ha
    exact (results_assignedRow (h.child ha).1).mono fun sql hs => hs.inside
  · rename_i constructor hn hc
    obtain ⟨hp, hr⟩ := h.child hc
    exact (hp.required_rule hr rfl).mono fun sql hs => hs.even.inside
  · rename_i query _ _ hq
    obtain ⟨hp, hr⟩ := h.child hq
    split
    · exact h.results_unsupported _
    · exact (hp.required_rule hr rfl).mono fun sql hs => hs.even
  · exact results_pure even_nil

theorem insertion (ht : Rule.isIn .tableRef node.tree.children) :
    node.insertion.Results faulty (Stands .compound) := by
  unfold Branch.insertion
  extract_lets verb mode
  refine results_bind (h.needed ht rfl) fun table ht => ?_
  refine results_bind h.insertedRows fun rows hr => ?_
  have hw : Even .compound (words (verb :: mode ++ ["INTO"])) := by
    simp only [verb, mode]
    split <;> split <;> exact even_tokens (by decide)
  have hf : ∀ update : Sql, update.Even .compound →
      (pure (words (verb :: mode ++ ["INTO"]) ++ table ++ rows ++ update) : Scribe Sql).Results
        faulty (Stands .compound) := fun update hu =>
    results_pure ((((ht.mono rfl).prepend hw).append hr).append hu)
  split
  · rename_i update hu
    obtain ⟨hp, hru⟩ := h.child hu
    exact results_bind ((hp.required_rule hru rfl).mono fun sql hs => hs.even.inside) hf
  · exact results_bind (results_pure even_nil) hf

theorem insertedValues (ht : node.tree = .node .insertFromConstructor row) :
    node.insertedValues.Results faulty (Stands .list) := by
  unfold Branch.insertedValues
  extract_lets noValues
  split
  · exact results_pure (stands_cons (even_tokens (by decide)))
  · refine results_bind (h.sequence ht rfl fun _ => h.demand ht rfl) fun sql? hr => ?_
    obtain ⟨sql, hs, hne⟩ := Tree.NodeReads.written hr rfl
    have he := Tree.NodeReads.even hr sql hs
    obtain rfl : sql? = some sql := hs
    exact results_pure ⟨he, hne⟩

theorem insertedColumns : node.insertedColumns.Results faulty (Even .list) :=
  results_bind (results_columnNames fun _ => h.childrenBy) fun _ hn =>
    results_pure (even_commaSeparated rfl hn)

theorem conflictClause (hl : Rule.isIn .updateList node.tree.children) :
    node.conflictClause.Results faulty (Stands .list) :=
  results_bind (h.needed hl rfl) fun _ hs => results_pure (hs.prepend (even_tokens (by decide)))

theorem update (ht : node.tree = .node .updateStatement row) :
    node.update.Results faulty (Stands .list) := by
  have hta : Rule.isIn .tableReferenceList node.tree.children := by
    rw [children_of_tree ht]
    exact h.demand ht rfl
  have hp := h.isLaidOut ht
  rw [Rule.isLaidOut, ← children_of_tree ht, ← h.trees] at hp
  refine results_bind (h.need hta) fun tables _ => ?_
  split
  · refine h.results_unless ?_
    extract_lets mode
    have hr : (Draft.writeEach Draft.sql (node.parts.filter (!isUpdateWord ·))).Results faulty
        (Draft.RowReads .list 0 ((node.parts.filter (!isUpdateWord ·)).map Draft.tree)) := by
      refine Draft.results_each fun part hpa => ?_
      have hm := (mem_filter.1 hpa).1
      exact (h.below part hm).sql_plain (all_eq_true.1 hp _ (mem_map_of_mem hm))
    refine results_bind hr fun rest hr => results_pure ?_
    have hw : Stands .list (words ("UPDATE" :: mode)) := by
      refine stands_cons ?_
      simp only [mode]
      split <;> exact even_tokens (by decide)
    exact hw.append hr.even
  · exact h.results_unsupported _

/-! ### All rules -/

/-- The text of a temporal literal is written as it stands. -/
theorem temporalLiteral (ht : node.tree = .node .temporalLiteral row) :
    (do (← node.need .textStringLiteral).write : Scribe (Option Sql)).Results faulty
      (Tree.node .temporalLiteral row).Reads := by
  have hte : Rule.isIn .textStringLiteral node.tree.children := by
    rw [children_of_tree ht]
    exact h.demand ht rfl
  refine results_bind (h.need hte) fun part hp => ?_
  have ho : part.tree.isOperand := by
    obtain ⟨below, hb⟩ := exists_of_hasRule hp.2
    rw [hb]
    rfl
  refine (hp.1.write_operand ho).mono ?_
  rintro sql? ⟨sql, rfl, hs⟩
  exact reads_stands (by decide) hs

/-- Every rule of the grammar is written as it reads. -/
theorem write (ht : node.tree = .node rule row) (db : String) :
    (Branch.write db rule node).Results faulty (Tree.node rule row).Reads := by
  have hc := children_of_tree ht
  have hs (hl : rule.layout = .row) (hw : rule.isWritten = false) :
      node.sequence.Results faulty (Tree.node rule row).Reads :=
    h.sequence ht hl fun htr => absurd (htr.symm.trans hw) (by decide)
  have hro (hl : rule.layout = .row) (hd : rule.demand? = some (any · isWritten)) :
      node.sequence.Results faulty (Tree.node rule row).Reads :=
    h.sequence ht hl fun _ => h.demand ht hd
  have hin {other : Rule} (hd : rule.demand? = some (Rule.isIn other)) :
      Rule.isIn other node.tree.children := by
    rw [hc]
    exact h.demand ht hd
  cases rule
  case fragment => exact absurd (h.demand ht rfl) (by simp)
  case lockingClause | insertLockOption | deleteStatementOption | fieldLength | precision |
      typeDatetimePrecision | fieldOptions | stringList | charsetWithOptBinary | charsetName |
      collationName | indexTypeClause | indexType | indexOption | createTableOptions |
      createTableOption | engineRef | place | setStatement =>
    exact results_pure (reads_even rfl (by simp))
  case indexHintList | indexHint | olapOption | alterStatement | alterTable | alterList |
      alterListItem | castType | interval | intervalTimeStamp | userVariable =>
    exact h.results_unsupported _
  -- queries
  case queryExpression =>
    exact h.sequence ht rfl fun _ => any_isWritten_of_admitsQuery (h.demand ht rfl)
  case queryExpressionParens => exact results_stands (by decide) (h.nestedQuery (hin rfl))
  case selectOption => exact results_selectOption
  case selectAlias => exact results_some rfl ((h.aliased (hin rfl)).mono fun sql hsq => hsq.even)
  case tableAlias => exact results_stands (by decide) (h.aliased (hin rfl))
  case fromClause =>
    refine ite_results (results_pure (reads_even rfl (by simp))) (hs rfl rfl)
  case groupByClause => exact ite_results (h.results_unsupported _) (hs rfl rfl)
  case orderExpression => exact results_some rfl (h.orderTerm ht)
  -- insertions and updates
  case insertStatement | replaceStatement =>
    exact results_stands (by decide) (h.insertion (hin rfl))
  case insertFromConstructor => exact results_stands (by decide) (h.insertedValues ht)
  case fields => exact results_some rfl h.insertedColumns
  case values => exact ite_results (h.results_unsupported _) (hs rfl rfl)
  case insertUpdateList => exact results_stands (by decide) (h.conflictClause (hin rfl))
  case updateElement => exact results_stands (by decide) (h.assignment ht)
  case updateStatement => exact results_stands (by decide) (h.update ht)
  case deleteStatement =>
    refine h.sequence ht rfl fun _ => any_isWritten_of_isIn (h.demand ht rfl) rfl
  -- definitions
  case createTable => exact h.createTable ht
  case tableName | tableRef => exact results_reads_path (by decide) (h.tableName ht rfl db)
  case tableElementList => exact results_some rfl h.tableElements
  case columnDefinition =>
    refine results_some rfl ((h.columnDefinition ht false).mono ?_)
    rintro sql ⟨rest, hsq, hr⟩
    exact even_column hsq hr
  case dataType =>
    refine results_bind (results_lift (h.columnTypeSql ht)) fun sql hsq => results_pure ?_
    rw [ht] at hsq
    exact reads_even rfl (by simpa using hsq.even)
  case columnAttribute => exact h.columnAttribute ht
  case references => exact results_stands (by decide) (h.references ht)
  case tableConstraintDef => exact h.constraint ht
  case constraintName =>
    exact ite_results (hs rfl rfl) (results_pure (reads_even rfl (by simp)))
  case duplicateAsQueryExpression => exact results_some rfl (h.tableQuery (hin rfl))
  case createIndex => exact results_some rfl (h.createIndex ht)
  case dropTable => exact results_some rfl (h.dropTable (hin rfl))
  case dropIndex => exact results_some rfl (h.dropIndex ht)
  case createStatement | dropStatement =>
    exact h.sequence ht rfl fun _ => any_isWritten_of_admitsVerb (h.demand ht rfl)
  case keyList =>
    exact h.sequence ht rfl fun _ => any_isWritten_of_admitsKeys (h.demand ht rfl)
  -- expressions
  case boolPri => exact h.comparison ht
  case bitExpr => exact results_stands (by decide) (h.arithmetic ht)
  case simpleExpr => exact h.simpleExpression ht
  case textStringLiteral =>
    exact results_pure (reads_stands (by decide) (stands_cons (even_string _)))
  case boolLiteral =>
    refine results_pure (reads_stands (by decide) (stands_cons (even_of_isToken ?_)))
    cases node.tree.hasKeyword .TRUE <;> decide
  case temporalLiteral => exact h.temporalLiteral ht
  case columnRef => exact results_reads_path (by decide) (h.columnName ht rfl db)
  case tableWild => exact results_reads_path (by decide) (h.sequence_path ht rfl)
  case identifier =>
    refine results_map (h.identifier ht) ?_
    rintro sql rfl
    exact ⟨by simpa using even_name _, fun _ => ⟨_, rfl, by simp⟩, fun _ => by rw [ht]⟩
  case functionCall =>
    exact results_stands (by decide) (h.functionCall (h.asksFor_functionCall ht) db)
  case runtimeFunctionCall =>
    exact results_stands (by decide) (h.functionCall (h.asksFor_runtimeFunctionCall ht) db)
  case sumExpr => exact results_stands (by decide) (h.aggregate ht)
  case systemVariable =>
    exact results_pure (reads_stands (by decide) (stands_cons (even_tokens (by decide))))
  all_goals first | exact hs rfl rfl | exact hro rfl rfl

end Proper

end Branch

/-! ### Drafts of trees -/

namespace Draft

theorem ofTrees_eq_map (db : String) (trees : List Tree) :
    ofTrees db trees = trees.map (ofTree db) := by
  induction trees with
  | nil => rfl
  | cons tree rest ih => rw [ofTrees, map_cons, ih]

theorem map_tree_ofTrees (db : String) (trees : List Tree) :
    (ofTrees db trees).map Draft.tree = trees := by
  simp [ofTrees_eq_map, Function.comp_def]

theorem writeEach_append (write : Draft → Scribe Sql) (parts others : List Draft) :
    writeEach write (parts ++ others) = do
      let first ← writeEach write parts
      return first ++ (← writeEach write others) := by
  induction parts with
  | nil => simp [writeEach]
  | cons part rest ih => simp [writeEach, ih, ← append_assoc]

mutual

/-- A tree that is proper throughout has a proper draft. -/
theorem proper_ofTree (db : String) (tree : Tree)
    (h : ∀ below ∈ tree :: tree.descendants, below.Proper faulty) :
    (ofTree db tree).Proper faulty := by
  rw [forall_mem_cons] at h
  cases tree with
  | leaf token =>
    refine .mk h.1 rfl (Token.results_sql h.1.refuses (h.1.spelled token rfl)) (by simp)
  | node rule kids =>
    have hb := proper_ofTrees db kids h.2
    have ht : (ofTrees db kids).map Draft.tree = (Tree.node rule kids).children :=
      map_tree_ofTrees db kids
    have hbr : Branch.Proper faulty ⟨.node rule kids, ofTrees db kids⟩ :=
      ⟨h.1, ht, hb⟩
    exact .mk h.1 ht (hbr.write rfl db) hb

theorem proper_ofTrees (db : String) (trees : List Tree)
    (h : ∀ below ∈ descendantsOfAll trees, below.Proper faulty) :
    ∀ part ∈ ofTrees db trees, part.Proper faulty := by
  cases trees with
  | nil => simp [ofTrees]
  | cons tree rest =>
    rw [descendantsOfAll, ← cons_append, forall_mem_append] at h
    rw [ofTrees, forall_mem_cons]
    exact ⟨proper_ofTree db tree h.1, proper_ofTrees db rest h.2⟩

end

/-- What a proper draft is the draft of. -/
theorem Proper.tree_below {draft : Draft} (h : draft.Proper faulty) :
    ∀ below ∈ draft.tree :: draft.tree.descendants, below.Proper faulty := by
  induction h with
  | @mk tree parts write proper trees here below ih =>
    refine forall_mem_cons.2 ⟨proper, fun lower hl => ?_⟩
    cases tree with
    | leaf token => cases hl
    | node rule kids =>
      obtain ⟨child, hc, hl⟩ := mem_descendantsOfAll.1 hl
      obtain rfl : parts.map Draft.tree = kids := trees
      obtain ⟨part, hp, rfl⟩ := mem_map.1 hc
      exact ih part hp lower hl

end Draft

/-! ### Trees of statements -/

namespace Tree

mutual

theorem mem_tokens_of_leaf {token : Token} (tree : Tree)
    (h : .leaf token ∈ tree :: tree.descendants) : token ∈ tree.tokens := by
  cases tree with
  | leaf other =>
    obtain rfl : token = other := by simpa [descendants] using h
    simp [tokens]
  | node rule kids =>
    rw [tokens]
    exact mem_tokensOfAll_of_leaf kids (by simpa [descendants] using h)

theorem mem_tokensOfAll_of_leaf {token : Token} (trees : List Tree)
    (h : .leaf token ∈ descendantsOfAll trees) : token ∈ tokensOfAll trees := by
  cases trees with
  | nil => cases h
  | cons tree rest =>
    rw [descendantsOfAll, ← cons_append, mem_append] at h
    rw [tokensOfAll, mem_append]
    exact h.imp (mem_tokens_of_leaf tree) (mem_tokensOfAll_of_leaf rest)

end

end Tree

namespace Grammar

variable {tree : Tree}

/-- Leaves that stand for well-spelled tokens are well-spelled. -/
theorem Spells.wellSpelled {leaves ts : List Token} (ha : List.Forall₂ Spells.StandsFor leaves ts)
    (h : ∀ token ∈ ts, token.WellSpelled) : ∀ leaf ∈ leaves, leaf.WellSpelled := by
  induction ha with
  | nil => simp
  | @cons leaf token leaves ts hs _ ih =>
    rw [forall_mem_cons] at h ⊢
    refine ⟨?_, ih h.2⟩
    rcases hs with rfl | ⟨hk, -⟩
    · exact h.1
    · -- a comma for a keyword between arguments
      exact ⟨by simp [hk, Token.Kind.isNumber], by simp [hk]⟩

/-- The tokens of the tree of a statement are spelled as their kinds say. -/
theorem wellSpelled_of_parse {sql : String} (h : parse sql = .ok tree) :
    ∀ token ∈ tree.tokens, token.WellSpelled := by
  obtain ⟨ts, hto, ht⟩ := Phrase.bind_eq_ok h
  obtain ⟨⟨trees, rest⟩, hr, ht⟩ := Phrase.bind_eq_ok ht
  obtain ⟨⟨used, rfl, hs⟩, -⟩ := took_query hr
  have hu : ∀ token ∈ used, token.WellSpelled := fun token htok =>
    Token.wellSpelled_of_ofText hto token (mem_append_left _ htok)
  dsimp only at ht
  split at ht
  · cases ht
    simpa [Tree.tokensOfAll] using Spells.wellSpelled hs.aligned hu
  · cases ht

/-- The tree of a statement is proper throughout, its calls by name apart. -/
theorem proper_of_parse (refuses : ∀ error : Error, error.IsRefusal → faulty error) {sql : String}
    (h : parse sql = .ok tree) (hn : ∀ below ∈ tree :: tree.descendants, below.isNamedCall →
      ∀ error : Error, error.IsFault → faulty error) :
    ∀ below ∈ tree :: tree.descendants, below.Proper faulty := by
  intro below hb
  refine ⟨refuses, admitted_of_parse h below hb, ?_, hn below hb⟩
  rintro token rfl
  exact wellSpelled_of_parse h token (mem_tokens_of_leaf tree hb)

end Grammar

/-- What stands below a statement that was read is proper, whatever errors writing it has. -/
theorem Draft.proper_of_mem {sql : String} {query tree : Tree} (hp : Grammar.parse sql = .ok query)
    (ht : tree ∈ query.descendants) (db : String) :
    (ofTree db tree).Proper fun _ => True := by
  have ha := Grammar.proper_of_parse (fun _ _ => trivial) hp fun _ _ _ _ _ => trivial
  refine proper_ofTree db tree fun below hb => ha below (mem_cons_of_mem _ ?_)
  rcases mem_cons.1 hb with rfl | hb
  · exact ht
  · exact mem_descendants_trans query ht hb

end SqlBridge
