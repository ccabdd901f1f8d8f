/-
What is written for keys, constraints and tables, token by token.

A draft is proper if it reads as its rule says, whatever it writes; here the drafts are those of
trees, and what they write is read back (`TableText`, `IndexText`).

* `Draft.writes_keyList`: the columns of a key in parentheses, with commas between them.
* `Draft.results_constraint`: a constraint begins with a word, and a primary key lists its columns.
* `Draft.writes_table`: the name of a table, with its qualifier unless that is the database.
* `Draft.results_tableElements`: the columns of a table and the primary keys that are declared.
-/
import SqlBridge.Catalog.TableFacts
import SqlBridge.Proofs.Scribe.Written
import SqlBridge.Proofs.Sql.Definition

namespace SqlBridge

open Scribe Sql Lexeme List SqlBridge.Tree

variable {bad : Error → Prop} {db : String}

/-! ### Lists in parentheses -/

namespace Lexeme

variable {items : List (List Lexeme)} {rest : List Lexeme}

/-- Items between commas and parentheses, as tokens. -/
def listTokens (items : List (List Lexeme)) : List Lexeme :=
  .symbol "(" :: ([.symbol ","].intercalate items ++ [symbol ")"])

theorem isEven_listTokens (h : ∀ item ∈ items, isEven .definition 0 item)
    {loose : Looseness} : isEven loose 0 (listTokens items) := by
  have hi : ∀ item ∈ items, isEven .compound 0 item :=
    fun item hit => isEven_mono rfl (h item hit)
  exact isEven_parens (isEven_intercalate rfl hi)

/-- **The items of a list are found again.** -/
theorem listed_append {words : List Lexeme} (hw : ∀ lex ∈ words, lex ≠ .symbol "(")
    (h : ∀ item ∈ items, isEven .definition 0 item) (hne : items ≠ []) :
    listed (words ++ listTokens items ++ rest) = items := by
  have hd : (words ++ listTokens items ++ rest).dropWhile (· != .symbol "(") =
      listTokens items ++ rest := by
    rw [append_assoc, dropWhile_append_of_pos (by simpa using hw)]
    rfl
  have hi : (listTokens items ++ rest).drop 1 =
      [.symbol ","].intercalate items ++ .symbol ")" :: rest := by
    simp [listTokens]
  have he : isEven .list 0 ([.symbol ","].intercalate items) :=
    isEven_intercalate rfl fun item hit => isEven_mono rfl (h item hit)
  rw [listed, hd, hi, enclosed_append he, cut_intercalate (by decide) rfl h hne]

end Lexeme

/-! ### Drafts of trees -/

namespace Draft

variable {tree : Tree} {rule : Rule} {row : List Tree}
variable {want : Sql → Prop}

theorem branch_ofTree (db : String) (tree : Tree) :
    (ofTree db tree).branch = ⟨tree, tree.children.map (ofTree db)⟩ := by
  cases tree with
  | leaf tok => rfl
  | node rule kids => rw [← ofTrees_eq_map]; rfl

theorem child?_ofTree (rule : Rule) :
    (ofTree db tree).branch.child? rule = (tree.child? rule).map (ofTree db) := by
  rw [branch_ofTree, Branch.child?, find?_map, child?]
  simp [Function.comp_def]

theorem childrenBy_ofTree (rule : Rule) :
    (ofTree db tree).branch.childrenBy rule = (tree.childrenBy rule).map (ofTree db) := by
  rw [branch_ofTree, Branch.childrenBy, filter_map, childrenBy]
  simp [Function.comp_def]

theorem Proper.child (h : (ofTree db tree).Proper bad) {child : Tree}
    (hc : child ∈ tree.children) : (ofTree db child).Proper bad := by
  have hb := h.branch.below
  rw [branch_ofTree] at hb
  exact hb _ (mem_map_of_mem hc)

/-- How the draft of a tree is written. -/
theorem write_ofTree (db : String) (rule : Rule) (row : List Tree) :
    (ofTree db (.node rule row)).write =
      Branch.write db rule ⟨.node rule row, row.map (ofTree db)⟩ := by
  rw [← ofTrees_eq_map]
  rfl

/-- Parts one after the other, nothing if none of them is written. -/
theorem results_sequence_getD {parts : List Draft}
    (h : (writeEach Draft.sql parts).Results bad want) :
    (sequence parts).Results bad fun sql? => want (sql?.getD []) := by
  refine results_bind h fun sql hs => results_pure ?_
  cases sql with
  | nil => exact hs
  | cons piece rest => exact hs

/-- What is written for a node whose children are written one after the other. -/
theorem results_sql_of_sequence (hw : Branch.write db rule ⟨.node rule row, row.map (ofTree db)⟩ =
      sequence (row.map (ofTree db)))
    (h : (writeEach Draft.sql (row.map (ofTree db))).Results bad want) :
    (ofTree db (.node rule row)).sql.Results bad want := by
  rw [Draft.sql, write_ofTree, hw]
  exact results_bind (results_sequence_getD h) fun sql? hs => results_pure hs

theorem results_sql_of_some {draft : Draft} {scribe : Scribe Sql}
    (hw : draft.write = some <$> scribe) (h : scribe.Results bad want) :
    draft.sql.Results bad want := by
  rw [Draft.sql, hw, bind_map_left]
  exact results_bind h fun sql hs => results_pure hs

/-- What is written for a draft that stands for something. -/
theorem Proper.required_of_sql {draft : Draft} (h : draft.Proper bad)
    (hrul : draft.tree.hasRule rule) (hwr : rule.isWritten)
    (hsq : draft.sql.Results bad want) :
    draft.required.Results bad want := by
  obtain ⟨kids, ht⟩ := exists_of_hasRule hrul
  intro seen
  have hw := h.write seen
  have hr := hsq seen
  rw [Draft.sql, runFrom_bind] at hr
  rw [Draft.required, runFrom_bind]
  rcases hru : draft.write.runFrom seen with ⟨error | sql?, after⟩
  · rw [hru] at hr
    exact hr
  · rw [hru] at hw hr
    rw [ht] at hw
    obtain ⟨sql, hs, -⟩ := Tree.NodeReads.written hw hwr
    obtain rfl : sql? = some sql := hs
    exact hr

/-- A tree that is written as some tokens. -/
def Writes (bad : Error → Prop) (db : String) (tree : Tree) (tokens : List Lexeme) : Prop :=
  (ofTree db tree).sql.Results bad (·.ReadsAs tokens)

/-- Trees are written one after the other. -/
theorem results_writes {lists : List (List Lexeme)} (h : List.Forall₂ (Writes bad db) row lists) :
    (writeEach Draft.sql (row.map (ofTree db))).Results bad (·.ReadsAs lists.flatten) := by
  induction h with
  | nil => exact results_pure readsAs_nil
  | cons hf _ ih =>
    refine results_bind hf fun sql hs => results_bind ih fun more hm => results_pure ?_
    rw [flatten_cons]
    exact hs.append hm

theorem writes_of_sequence (hw : Branch.write db rule ⟨.node rule row, row.map (ofTree db)⟩ =
      sequence (row.map (ofTree db)))
    {lists : List (List Lexeme)} (h : List.Forall₂ (Writes bad db) row lists) :
    Writes bad db (.node rule row) lists.flatten :=
  results_sql_of_sequence hw (results_writes h)

theorem writes_nothing
    (hw : Branch.write db rule ⟨.node rule row, row.map (ofTree db)⟩ = pure none) :
    Writes bad db (.node rule row) [] := by
  rw [Writes, Draft.sql, write_ofTree, hw]
  exact results_pure readsAs_nil

/-- Trees that are each written in some way. -/
theorem exists_lists {want : List Lexeme → Prop}
    (h : ∀ tree ∈ row, ∃ ts, Writes bad db tree ts ∧ want ts) :
    ∃ lists, List.Forall₂ (Writes bad db) row lists ∧ ∀ list ∈ lists, want list := by
  induction row with
  | nil => exact ⟨[], .nil, by simp⟩
  | cons tree rest ih =>
    rw [forall_mem_cons] at h
    obtain ⟨ts, hw, ht⟩ := h.1
    obtain ⟨lists, hl, ha⟩ := ih h.2
    exact ⟨ts :: lists, .cons hw hl, forall_mem_cons.2 ⟨ht, ha⟩⟩

theorem write_keyword {kw : Keyword} (hk : tree.hasKind (.keyword kw))
    (hs : kw.sql = pure (Sql.word kw.spelling)) :
    (ofTree db tree).write = pure (some (Sql.word kw.spelling)) := by
  cases tree with
  | node rule kids => cases hk
  | leaf tok =>
    have hk : tok.kind = .keyword kw := eq_of_beq hk
    show tok.sql = _
    simp only [Token.sql, hk, hs]
    rfl

theorem writes_keyword {kw : Keyword} (hk : tree.hasKind (.keyword kw))
    (hs : kw.sql = pure (Sql.word kw.spelling)) :
    Writes bad db tree [.word kw.spelling] := by
  rw [Writes, Draft.sql, write_keyword hk hs]
  exact results_pure (readsAs_word kw.isLetters_spelling)

theorem write_symbol {sym : Symbol} (hk : tree.hasKind (.symbol sym))
    (hs : sym.sql = pure (some [.operator sym.spelling])) :
    (ofTree db tree).write = pure (some [.operator sym.spelling]) := by
  cases tree with
  | node rule kids => cases hk
  | leaf tok =>
    have hk : tok.kind = .symbol sym := eq_of_beq hk
    show tok.sql = _
    simp only [Token.sql, hk, hs]

theorem writes_symbol {sym : Symbol} (hk : tree.hasKind (.symbol sym))
    (hs : sym.sql = pure (some [.operator sym.spelling]))
    (hw : Whole (.symbol sym.spelling) sym.spelling.toList)
    (hd : (symbol sym.spelling).isDot = false) :
    Writes bad db tree [.symbol sym.spelling] := by
  have hr : Whole (.symbol sym.spelling) (Piece.operator sym.spelling).render.toList := by
    simpa [Piece.render] using hw
  rw [Writes, Draft.sql, write_symbol hk hs]
  exact results_pure (readsAs_single rfl (.bare hr) hd)

theorem writes_name (h : tree.hasRule .identifier) (hp : (ofTree db tree).Proper bad) :
    Writes bad db tree [.quoted .double tree.nameText] := by
  refine (hp.sql_name (by rwa [tree_ofTree])).mono ?_
  rintro sql rfl
  rw [tree_ofTree]
  exact readsAs_name _

end Draft

/-! ### Keys -/

/-- The tokens of a column of a key. -/
def Tree.partTokens (part : Tree) : List Lexeme :=
  .quoted .double ((part.child? .identifier).map nameText |>.getD "") ::
    match part.child? .direction with
    | some order => [.word (if order.hasKeyword .DESC then "DESC" else "ASC")]
    | none => []

/-- The tokens of a list of columns. -/
def Tree.keyTokens (keys : Tree) : List Lexeme :=
  listTokens ((keys.childrenBy .keyPart).map partTokens)

theorem Tree.isEven_partTokens (part : Tree) : isEven .definition 0 part.partTokens := by
  refine isEven_of_isFlat ?_
  unfold partTokens
  split
  · split <;> simp [isFlat]
  · simp [isFlat]

/-- **A column of a key is read as it was declared.** -/
theorem IndexText.partOf?_partTokens (part : Tree) : partOf? part.partTokens =
    some ((KeyPart.ofTree part).column, (KeyPart.ofTree part).descending) := by
  simp only [partTokens, KeyPart.ofTree]
  cases part.child? .direction with
  | none => rfl
  | some order => cases h : order.hasKeyword .DESC <;> simp [partOf?, h]

namespace Draft

variable {tree : Tree} {row : List Tree}

theorem writes_direction (h : tree.hasRule .direction) (hp : (ofTree db tree).Proper bad) :
    Writes bad db tree [.word (if tree.hasKeyword .DESC then "DESC" else "ASC")] := by
  obtain ⟨row, rfl⟩ := exists_of_hasRule h
  have hd := hp.branch.demand rfl rfl
  split at hd
  · rename_i word
    rw [Bool.or_eq_true] at hd
    have hdes : (Tree.node .direction [word]).hasKeyword .DESC = word.hasKind (.keyword .DESC) := by
      rw [hasKeyword, hasToken_eq_any, Tree.children, any_cons, any_nil,
        Bool.or_false]
    rw [hdes]
    rcases hd with ha | hde
    · have ho : word.hasKind (.keyword .DESC) = false := by
        cases word with
        | node rule kids => rfl
        | leaf tok =>
          rw [hasKind_leaf] at ha ⊢
          rw [eq_of_beq ha]
          rfl
      rw [ho]
      exact writes_of_sequence rfl (.cons (writes_keyword ha rfl) .nil)
    · rw [hde]
      exact writes_of_sequence rfl (.cons (writes_keyword hde rfl) .nil)
  · cases hd

theorem writes_length (h : tree.hasRule .fieldLength) : Writes bad db tree [] := by
  obtain ⟨row, rfl⟩ := exists_of_hasRule h
  exact writes_nothing rfl

theorem writes_keyPart (h : tree.hasRule .keyPart) (hp : (ofTree db tree).Proper bad) :
    Writes bad db tree tree.partTokens := by
  obtain ⟨row, rfl⟩ := exists_of_hasRule h
  have hd : Rule.admitsKeyPart row := hp.branch.demand rfl rfl
  unfold Rule.admitsKeyPart at hd
  split at hd
  · rename_i name
    obtain ⟨below, rfl⟩ := exists_of_hasRule hd
    exact writes_of_sequence rfl (.cons (writes_name rfl (hp.child (by simp [Tree.children]))) .nil)
  · rename_i name more
    rw [Bool.and_eq_true, Bool.or_eq_true] at hd
    obtain ⟨below, rfl⟩ := exists_of_hasRule hd.1
    have hn := writes_name hd.1 (hp.child (by simp [Tree.children]))
    rcases hd.2 with hl | hdi
    · obtain ⟨digits, rfl⟩ := exists_of_hasRule hl
      exact writes_of_sequence rfl (.cons hn (.cons (writes_length hl) .nil))
    · obtain ⟨word, rfl⟩ := exists_of_hasRule hdi
      have ho := writes_direction hdi (hp.child (by simp [Tree.children]))
      exact writes_of_sequence rfl (.cons hn (.cons ho .nil))
  · rename_i name length order
    rw [Bool.and_eq_true, Bool.and_eq_true] at hd
    obtain ⟨below, rfl⟩ := exists_of_hasRule hd.1.1
    obtain ⟨digits, rfl⟩ := exists_of_hasRule hd.1.2
    obtain ⟨word, rfl⟩ := exists_of_hasRule hd.2
    have hn := writes_name hd.1.1 (hp.child (by simp [Tree.children]))
    have ho := writes_direction hd.2 (hp.child (by simp [Tree.children]))
    exact writes_of_sequence rfl
      (.cons hn (.cons (writes_length hd.1.2) (.cons ho .nil)))
  · cases hd

theorem admitsKeyParts_ne_nil (h : Rule.admitsKeyParts row) :
    row.filter (hasRule .keyPart) ≠ [] := by
  unfold Rule.admitsKeyParts at h
  split at h
  · rw [Bool.and_eq_true] at h
    simp [h.1]
  · rw [Bool.and_eq_true, Bool.and_eq_true] at h
    simp [h.1.1]
  · cases h

/-- The tokens of the columns of a key, with commas between them. -/
theorem writes_keyParts (h : Rule.admitsKeyParts row)
    (hp : ∀ tree ∈ row, (ofTree db tree).Proper bad) :
    ∃ lists, List.Forall₂ (Writes bad db) row lists ∧ lists.flatten =
      [.symbol ","].intercalate ((row.filter (hasRule .keyPart)).map partTokens) ++
        [symbol ")"] := by
  have ho {tree : Tree} {kind : Token.Kind} (hk : tree.hasKind kind) :
      tree.hasRule .keyPart = false := by
    cases tree with
    | leaf tok => rfl
    | node rule kids => cases hk
  fun_induction Rule.admitsKeyParts row with
  | case1 part closing =>
    rw [Bool.and_eq_true] at h
    simp only [forall_mem_cons] at hp
    refine ⟨[part.partTokens, [.symbol ")"]], .cons (writes_keyPart h.1 hp.1)
      (.cons (writes_symbol h.2 rfl (by decide) rfl) .nil), ?_⟩
    simp [h.1, ho h.2, intercalate]
  | case2 part comma rest _ ih =>
    rw [Bool.and_eq_true, Bool.and_eq_true] at h
    simp only [forall_mem_cons] at hp
    obtain ⟨lists, hw, hf⟩ := ih h.2 hp.2.2
    refine ⟨part.partTokens :: [.symbol ","] :: lists, .cons (writes_keyPart h.1.1 hp.1)
      (.cons (writes_symbol h.1.2 rfl (by decide) rfl) hw), ?_⟩
    obtain ⟨next, others, hn⟩ := exists_cons_of_ne_nil (admitsKeyParts_ne_nil h.2)
    simp [h.1.1, ho h.1.2, hf, hn, intercalate]
  | case3 => cases h

/-- **The columns of a key stand in parentheses.** -/
theorem writes_keyList (h : tree.hasRule .keyList) (hp : (ofTree db tree).Proper bad) :
    Writes bad db tree tree.keyTokens := by
  obtain ⟨row, rfl⟩ := exists_of_hasRule h
  have hd : Rule.admitsKeys row := hp.branch.demand rfl rfl
  unfold Rule.admitsKeys at hd
  split at hd
  · rename_i opening rest
    rw [Bool.and_eq_true] at hd
    have ho : opening.hasRule .keyPart = false := by
      cases opening with
      | leaf tok => rfl
      | node rule kids => cases hd.1
    obtain ⟨lists, hw, hf⟩ := writes_keyParts hd.2 fun tree hm =>
      hp.child (mem_cons_of_mem _ hm)
    have hop : Writes bad db opening [.symbol "("] := writes_symbol hd.1 rfl (by decide) rfl
    have ha : Writes bad db (.node .keyList (opening :: rest))
        ([.symbol "("] :: lists).flatten := writes_of_sequence rfl (.cons hop hw)
    rw [flatten_cons, hf] at ha
    simpa [keyTokens, listTokens, childrenBy, Tree.children, ho] using ha
  · cases hd

end Draft

/-! ### Names of tables -/

/-- The names of a table as they are written: the name of the database is left out. -/
def Tree.tablePath (db : String) (table : Tree) : List String :=
  match (table.childrenBy .identifier).map nameText with
  | [schema, name] => if Text.equalsIgnoringCase schema db then [name] else [schema, name]
  | names => names

/-- The tokens of names with dots between them. -/
def Lexeme.pathTokens (names : List String) : List Lexeme :=
  [.symbol "."].intercalate (names.map fun name => [.quoted .double name])

theorem Sql.readsAs_dotted (schema name : String) {dot : Sql} (h : dot.Spells [.symbol "."]) :
    ReadsAs ([Piece.name schema] ++ (dot ++ [Piece.name name])) (pathTokens [schema, name]) :=
  ⟨(spells_single rfl (.name schema)).append (h.append (spells_single rfl (.name name))),
    ((isPath_name name).dotted (by simp [isFlat]) rfl (by simp)).settled⟩

namespace Draft

variable {tree : Tree} {rule : Rule} {row : List Tree}

/-- **A table is written with its qualifier, unless that is the name of the database.** -/
theorem writes_table (hw : ∀ node, Branch.write db rule node = node.tableName db)
    (hde : rule.demand? = some Rule.admitsQualified)
    (hp : (ofTree db (.node rule row)).Proper bad) :
    Writes bad db (.node rule row) (pathTokens ((Tree.node rule row).tablePath db)) := by
  have hq : Rule.admitsQualified row := hp.branch.demand rfl hde
  have hn {below : List Tree} (hm : .node .identifier below ∈ row) :
      (ofTree db (.node .identifier below)).sql.Results bad
        (· = [.name (Tree.node .identifier below).nameText]) := by
    have hsq := (hp.child hm).sql_name (by rw [tree_ofTree]; rfl)
    rwa [tree_ofTree] at hsq
  unfold Rule.admitsQualified at hq
  split at hq
  · rename_i name
    obtain ⟨below, rfl⟩ := exists_of_hasRule hq
    have hse : Branch.write db rule
        ⟨.node rule [.node .identifier below], [.node .identifier below].map (ofTree db)⟩ =
          sequence ([.node .identifier below].map (ofTree db)) := hw _
    have ha : Writes bad db (.node rule [.node .identifier below])
        [[.quoted .double (Tree.node .identifier below).nameText]].flatten :=
      writes_of_sequence hse (.cons (writes_name rfl (hp.child (by simp [Tree.children]))) .nil)
    exact ha
  · rename_i qualifier dot name
    rw [Bool.and_eq_true, Bool.and_eq_true] at hq
    obtain ⟨below, rfl⟩ := exists_of_hasRule hq.1.1
    obtain ⟨others, rfl⟩ := exists_of_hasRule hq.2
    obtain ⟨tok, rfl⟩ : ∃ tok, dot = .leaf tok := by
      cases dot with
      | leaf tok => exact ⟨tok, rfl⟩
      | node rule kids => cases hq.1.2
    have hna : (Tree.node rule [.node .identifier below, .leaf tok, .node .identifier others]
        ).tablePath db = if Text.equalsIgnoringCase (Tree.node .identifier below).nameText db
          then [(Tree.node .identifier others).nameText]
          else [(Tree.node .identifier below).nameText, (Tree.node .identifier others).nameText] :=
            rfl
    have hc := hw ⟨.node rule [.node .identifier below, .leaf tok, .node .identifier others],
      [.node .identifier below, .leaf tok, .node .identifier others].map (ofTree db)⟩
    rw [hna]
    by_cases hd : Text.equalsIgnoringCase (Tree.node .identifier below).nameText db
    · have hdr : (ofTree db (.node rule
          [.node .identifier below, .leaf tok, .node .identifier others])).write =
            (ofTree db (.node .identifier others)).write := by
        rw [write_ofTree, hc]
        exact if_pos hd
      rw [if_pos hd, Writes, Draft.sql, hdr]
      exact writes_name rfl (hp.child (by simp [Tree.children]))
    · rw [if_neg hd]
      refine results_sql_of_sequence (hc.trans (if_neg hd)) ?_
      refine results_bind (hn (by simp)) ?_
      rintro _ rfl
      have hr : (writeEach Draft.sql [ofTree db (.leaf tok),
          ofTree db (.node .identifier others)]).Results bad fun more =>
            ∃ dot : Sql, dot.Spells [.symbol "."] ∧
              more = dot ++ [Piece.name (Tree.node .identifier others).nameText] := by
        have hdo : (ofTree db (.leaf tok)).Proper bad := hp.child (by simp [Tree.children])
        refine results_bind hdo.sql_reads ?_
        rintro sql ⟨sql?, hre, rfl⟩
        rw [tree_ofTree] at hre
        obtain ⟨point, rfl, hs⟩ := hre.exists_symbol (by simp) hq.1.2
        refine results_bind (results_bind (hn (by simp)) ?_) fun rest hr => results_pure hr
        rintro _ rfl
        exact results_pure ⟨point, hs, by simp⟩
      refine results_bind hr ?_
      rintro _ ⟨dot, hs, rfl⟩
      exact results_pure (readsAs_dotted _ _ hs)
  · cases hq

end Draft

/-! ### Constraints -/

namespace Tree

/-- The tokens of the name of a constraint. -/
def nameTokens (constraint : Tree) : List Lexeme :=
  match (constraint.child? .constraintName).bind (·.child? .identifier) with
  | some name => [.word "CONSTRAINT", .quoted .double name.nameText]
  | none => []

/-- The tokens of a primary key on its own, up to its columns. -/
def primaryTokens (constraint : Tree) : List Lexeme :=
  constraint.nameTokens ++ [Lexeme.word "PRIMARY", .word "KEY"]

/-- The columns of the primary key that a constraint declares, if it declares one. -/
def declaredKey? (constraint : Tree) : Option (List String) :=
  if constraint.childKeywords.head? = some .PRIMARY then some (TableFacts.keyColumns constraint)
  else none

/-- What a constraint is written as: a word first, and a primary key with its columns. -/
def ReadsConstraint (constraint : Tree) (sql? : Option Sql) : Prop :=
  (∀ sql ∈ sql?, ∃ word rest, sql.ReadsAs (.word word :: rest) ∧
    isEven .definition 0 (.word word :: rest) ∧
    TableText.keysOf (.word word :: rest) = constraint.declaredKey?.toList) ∧
  (sql? = none → constraint.declaredKey? = none)

theorem isFlat_of_mem_nameTokens {con : Tree} {lex : Lexeme}
    (h : lex ∈ con.nameTokens) : lex.isFlat .item := by
  unfold nameTokens at h
  split at h
  · simp only [mem_cons, not_mem_nil, or_false] at h
    rcases h with rfl | rfl
    · decide
    · simp [isFlat]
  · cases h

theorem isFlat_of_mem_primaryTokens {con : Tree} {lex : Lexeme}
    (h : lex ∈ con.primaryTokens) : lex.isFlat .definition := by
  rcases mem_append.1 h with hn | hwo
  · exact isFlat_mono rfl (isFlat_of_mem_nameTokens hn)
  · have hw : ∀ lex ∈ [Lexeme.word "PRIMARY", .word "KEY"], lex.isFlat .definition := by
      decide
    exact hw lex hwo

theorem count_primaryTokens (con : Tree) :
    con.primaryTokens.count (.word "PRIMARY") = 1 := by
  have hn : con.nameTokens.count (.word "PRIMARY") = 0 :=
    count_eq_zero.2 fun hm => absurd (isFlat_of_mem_nameTokens hm) (by decide)
  rw [primaryTokens, count_append, hn]
  rfl

/-- A constraint begins with a word, with a name of its own or without. -/
theorem nameTokens_append (con : Tree) (word : String) (ts : List Lexeme) :
    ∃ first rest, con.nameTokens ++ .word word :: ts = .word first :: rest := by
  unfold nameTokens
  split
  · exact ⟨_, _, rfl⟩
  · exact ⟨_, _, rfl⟩

end Tree

namespace TableText

/-- Words without `PRIMARY` outside parentheses declare no key. -/
theorem keysOf_of_isEven {item : List Lexeme} (h : isEven .item 0 item) :
    keysOf item = [] := by
  rw [keysOf, count_outer_eq_zero (by decide) h]
  rfl

/-- A primary key on its own lists its columns. -/
theorem keysOf_listTokens (con : Tree) {items : List (List Lexeme)}
    (h : ∀ item ∈ items, isEven .definition 0 item) (hne : items ≠ []) :
    keysOf (con.primaryTokens ++ listTokens items) = [items.filterMap (·.head?.bind name?)] := by
  have hf : ∀ lex ∈ con.primaryTokens, lex.isFlat .definition :=
    fun lex => isFlat_of_mem_primaryTokens
  have hc : (outer 0 (con.primaryTokens ++ listTokens items)).count (.word "PRIMARY") = 1 := by
    have hli : isEven .item 0 (listTokens items) := isEven_listTokens h
    rw [outer_append (isEven_of_isFlat hf), outer_of_isFlat hf, count_append,
      count_outer_eq_zero (by decide) hli, con.count_primaryTokens]
  have hfi : (con.primaryTokens ++ listTokens items).head?.bind name? = none := by
    obtain ⟨first, rest, heq⟩ := con.nameTokens_append "PRIMARY" (.word "KEY" :: listTokens items)
    rw [primaryTokens, append_assoc]
    exact congrArg (fun ts => ts.head?.bind name?) heq
  have hl : listed (con.primaryTokens ++ listTokens items ++ []) = items :=
    listed_append (fun lex hm => (ne_of_isFlat (hf lex hm)).1) h hne
  rw [append_nil] at hl
  rw [keysOf, hc, hfi, hl]
  rfl

end TableText

/-- The columns of a key by their tokens. -/
theorem Tree.keyColumns_of_proper {keys con : Tree} (hk : con.child? .keyList = some keys)
    (hp : (Draft.ofTree db keys).Proper bad) :
    (((keys.childrenBy .keyPart).map partTokens).filterMap (·.head?.bind name?)) =
      TableFacts.keyColumns con := by
  simp only [TableFacts.keyColumns, hk]
  rw [filterMap_map, map_filterMap]
  refine filterMap_congr fun part hpa => ?_
  obtain ⟨hm, hr⟩ := mem_filter.1 hpa
  obtain ⟨row, rfl⟩ := exists_of_hasRule hr
  have hd : Rule.admitsKeyPart row := (hp.child hm).branch.demand rfl rfl
  obtain ⟨name, rest, rfl, hn⟩ :
      ∃ name rest, row = name :: rest ∧ name.hasRule .identifier := by
    unfold Rule.admitsKeyPart at hd
    split at hd
    · exact ⟨_, _, rfl, hd⟩
    · exact ⟨_, _, rfl, (Bool.and_eq_true_iff.1 hd).1⟩
    · rw [Bool.and_eq_true, Bool.and_eq_true] at hd
      exact ⟨_, _, rfl, hd.1.1⟩
    · cases hd
  have hc : (Tree.node .keyPart (name :: rest)).child? .identifier = some name := by
    rw [child?, children, find?_cons_of_pos hn]
  simp [partTokens, hc, name?]

namespace Draft

variable {tree : Tree} {row : List Tree}

theorem writes_constraintName (h : tree.hasRule .constraintName)
    (hp : (ofTree db tree).Proper bad) :
    Writes bad db tree (match tree.child? .identifier with
      | some name => [.word "CONSTRAINT", .quoted .double name.nameText]
      | none => []) := by
  obtain ⟨row, rfl⟩ := exists_of_hasRule h
  have hd : Rule.admitsConstraintName row := hp.branch.demand rfl rfl
  unfold Rule.admitsConstraintName at hd
  split at hd
  · rename_i word
    cases word with
    | node rule kids => cases hd
    | leaf tok => exact writes_nothing rfl
  · rename_i word name
    rw [Bool.and_eq_true] at hd
    obtain ⟨below, rfl⟩ := exists_of_hasRule hd.2
    cases word with
    | node rule kids => cases hd.1
    | leaf tok =>
      have hn := writes_name hd.2 (hp.child (by simp [Tree.children]))
      exact writes_of_sequence rfl (.cons (writes_keyword hd.1 rfl) (.cons hn .nil))
  · cases hd

/-- A key has a column. -/
theorem Proper.keyParts_ne_nil (h : tree.hasRule .keyList)
    (hp : (ofTree db tree).Proper bad) : tree.childrenBy .keyPart ≠ [] := by
  obtain ⟨row, rfl⟩ := exists_of_hasRule h
  have hd : Rule.admitsKeys row := hp.branch.demand rfl rfl
  unfold Rule.admitsKeys at hd
  split at hd
  · rename_i opening rest
    obtain ⟨part, hpa⟩ := exists_mem_of_ne_nil _
      (admitsKeyParts_ne_nil (Bool.and_eq_true_iff.1 hd).2)
    obtain ⟨hm, hr⟩ := mem_filter.1 hpa
    exact ne_nil_of_mem (mem_filter.2 ⟨mem_cons_of_mem _ hm, hr⟩)
  · cases hd

/-- The columns of a key that a node cannot do without. -/
theorem Proper.needed_keyList (h : (ofTree db tree).Proper bad)
    (hk : Rule.isIn .keyList tree.children) :
    ∃ keys, tree.child? .keyList = some keys ∧ keys.hasRule .keyList ∧
      (ofTree db keys).Proper bad ∧
      ((ofTree db tree).branch.needed .keyList).Results bad (·.ReadsAs keys.keyTokens) := by
  have hs : (tree.child? .keyList).isSome := by
    rw [child?, find?_isSome]
    simpa [Rule.isIn] using hk
  obtain ⟨keys, hc⟩ := Option.isSome_iff_exists.1 hs
  have hr : keys.hasRule .keyList := find?_some hc
  have hp := h.child (mem_of_find?_eq_some hc)
  refine ⟨keys, hc, hr, hp, ?_⟩
  have hpa : (ofTree db tree).branch.child? .keyList = some (ofTree db keys) := by
    rw [child?_ofTree, hc]
    rfl
  refine results_bind (Branch.results_need hpa) ?_
  rintro _ rfl
  exact hp.required_of_sql (by rwa [tree_ofTree]) rfl (writes_keyList hr hp)

/-- **A constraint begins with a word, and a primary key lists the columns that it was declared
with.** -/
theorem results_constraint (h : tree.hasRule .tableConstraintDef)
    (hp : (ofTree db tree).Proper bad) :
    (ofTree db tree).write.Results bad tree.ReadsConstraint := by
  have hse : (ofTree db tree).branch.tree = tree := tree_ofTree db tree
  have hwri : (ofTree db tree).write = (ofTree db tree).branch.constraint := by
    obtain ⟨row, rfl⟩ := exists_of_hasRule h
    rfl
  have hd {kw : Keyword} (hf : tree.childKeywords.head? = some kw) :
      Rule.admitsDeclared tree.children kw := by
    obtain ⟨row, rfl⟩ := exists_of_hasRule h
    exact Rule.admitsDeclared_of_head (hp.branch.demand rfl rfl) hf
  -- a constraint that is no primary key
  have ho {name more : Sql} (word : String) (hwo : isLetters word.toList)
      (hfl : (Lexeme.word word).isFlat .item)
      (hna : name.ReadsAs tree.nameTokens) (hm : more.Even .item)
      (hf : tree.childKeywords.head? ≠ some .PRIMARY) :
      tree.ReadsConstraint (some (name ++ Sql.word word ++ more)) := by
    obtain ⟨ts, ht, he⟩ := hm.exists_readsAs
    have hno : tree.declaredKey? = none := if_neg hf
    refine ⟨?_, fun hs => by cases hs⟩
    rintro sql ⟨rfl⟩
    obtain ⟨first, rest, heq⟩ := tree.nameTokens_append word ts
    have hit : isEven .item 0 (.word first :: rest) := by
      rw [← heq]
      refine isEven_both (isEven_of_isFlat fun lex => isFlat_of_mem_nameTokens) ?_
      have hw : (Lexeme.word word).isFlat (Looseness.item.within 0) := hfl
      rw [isEven_cons hw]
      exact he
    refine ⟨first, rest, ?_, isEven_mono rfl hit, ?_⟩
    · rw [← heq, ← singleton_append, ← append_assoc]
      exact (hna.append (readsAs_word hwo)).append ht
    · rw [TableText.keysOf_of_isEven hit, hno]
      rfl
  rw [hwri]
  unfold Branch.constraint
  extract_lets finish
  have hfi : ∀ name : Sql, name.ReadsAs tree.nameTokens →
      (finish name).Results bad tree.ReadsConstraint := by
    intro name hna
    simp only [finish, hse]
    split
    · rename_i hf
      obtain ⟨keys, hch, hru, hk, hnee⟩ := hp.needed_keyList (hd hf)
      refine results_bind hnee fun sql hs => results_pure ⟨?_, fun hs => by cases hs⟩
      rintro _ ⟨rfl⟩
      obtain ⟨first, rest, heq⟩ := tree.nameTokens_append "PRIMARY" (.word "KEY" :: keys.keyTokens)
      have hsp : .word first :: rest = tree.primaryTokens ++ keys.keyTokens := by
        rw [← heq, primaryTokens, append_assoc]
        rfl
      have hi : ∀ item ∈ (keys.childrenBy .keyPart).map partTokens,
          isEven .definition 0 item := by
        simp [isEven_partTokens]
      have hne : (keys.childrenBy .keyPart).map partTokens ≠ [] := by
        simpa using Proper.keyParts_ne_nil hru hk
      refine ⟨first, rest, ?_⟩
      rw [hsp]
      refine ⟨(hna.append (readsAs_words (by decide))).append hs, ?_, ?_⟩
      · exact isEven_both (isEven_of_isFlat fun lex => isFlat_of_mem_primaryTokens)
          (isEven_listTokens hi)
      · rw [keyTokens, TableText.keysOf_listTokens tree hi hne, declaredKey?, if_pos hf,
          keyColumns_of_proper hch hk]
        rfl
    · rename_i hf
      have hb := Bool.and_eq_true_iff.1 (hd hf)
      rw [← hse] at hb
      refine results_bind (hp.branch.needed hb.1 rfl) fun keys hk => ?_
      refine results_bind (hp.branch.needed hb.2 rfl) fun target hta => results_pure ?_
      have hke : Even .item (Sql.word "KEY") := even_tokens (by decide)
      have hr := ho "FOREIGN" (by decide) (by decide) hna
        ((hke.append hk.even).append hta.even) (by rw [hf]; simp)
      simpa [Sql.words, Sql.word] using hr
    · rename_i hf
      have hc : Rule.isIn .exprWithParentheses (ofTree db tree).branch.tree.children := by
        rw [hse]
        exact hd hf
      refine results_bind (hp.branch.needed hc rfl) fun check hc => results_pure ?_
      have hr := ho "CHECK" (by decide) (by decide) hna hc.even (by rw [hf]; simp)
      simpa [Sql.word] using hr
    · rename_i hpr _ _
      exact results_pure ⟨by simp, fun _ => if_neg hpr⟩
  cases hn : tree.child? .constraintName with
  | none =>
    have ht : tree.nameTokens = [] := by rw [nameTokens, hn]; rfl
    rw [child?_ofTree, hn]
    exact results_bind (results_pure (ht ▸ readsAs_nil)) hfi
  | some name =>
    have ht : tree.nameTokens = match name.child? .identifier with
        | some name => [.word "CONSTRAINT", .quoted .double name.nameText]
        | none => [] := by
      rw [nameTokens, hn]
      rfl
    have hwr := writes_constraintName (find?_some hn)
      (hp.child (mem_of_find?_eq_some hn))
    rw [child?_ofTree, hn]
    exact results_bind (ht ▸ hwr) hfi

end Draft

/-! ### Tables -/

namespace Tree

/-- Whether a column is the primary key by a constraint of its own line. -/
def isKeyedBy (key? : Option String) (column : Tree) : Bool :=
  key?.any (Text.equalsIgnoringCase · column.columnName)

/-- The primary keys that are written for the elements of a table, each with its columns. -/
def writtenKeys (elements : Tree) : List (List String) :=
  let key? := Branch.inlineKey? elements
  (elements.columnDefinitions.flatMap fun column =>
    replicate (column.keyWords (column.isKeyedBy key?)) [column.columnName]) ++
  if key?.isSome then [] else elements.constraints.filterMap declaredKey?

/-- What the elements of a table are written as: items with a comma between two of them, the columns
by name and in order, and the primary keys that are written. -/
def ReadsElements (elements : Tree) (sql : Sql) : Prop :=
  ∃ items, sql.ReadsAs ([.symbol ","].intercalate items) ∧
    (∀ item ∈ items, isEven .definition 0 item) ∧
    items.filterMap (·.head?.bind name?) = elements.columnDefinitions.map columnName ∧
    items.flatMap TableText.keysOf = elements.writtenKeys

theorem hasKeyword_of_head {tree : Tree} {kw : Keyword}
    (h : tree.childKeywords.head? = some kw) : tree.hasKeyword kw := by
  obtain ⟨tok, ht, hk⟩ := mem_filterMap.1 (mem_of_mem_head? h)
  rw [hasKeyword, hasToken, childToken?, find?_isSome]
  exact ⟨tok, ht, by simp [Token.kind_of_keyword? hk]⟩

/-- The tokens of a column. -/
theorem ReadsColumn.exists_item {key? : Option String} {col : Tree} {sql : Sql}
    (h : col.ReadsColumn key? sql) : ∃ item, sql.ReadsAs item ∧ isEven .definition 0 item ∧
      item.head?.bind name? = some col.columnName ∧ TableText.keysOf item =
        replicate (col.keyWords (col.isKeyedBy key?)) [col.columnName] := by
  obtain ⟨rest, rfl, ts, hr, he, hc⟩ := h
  refine ⟨.quoted .double col.columnName :: ts, (readsAs_name _).append hr, ?_, rfl, ?_⟩
  · have hn : isEven .definition 0 [.quoted .double col.columnName] :=
      isEven_of_isFlat (by simp [isFlat])
    exact isEven_both hn he
  · have ho : outer 0 (.quoted .double col.columnName :: ts) =
        .quoted .double col.columnName :: outer 0 ts := rfl
    simp [TableText.keysOf, ho, hc, name?, isKeyedBy]

/-- The tokens of some columns. -/
theorem exists_items_of_readsColumn {key? : Option String} {cols : List Tree} {sqls : List Sql}
    (h : List.Forall₂ (ReadsColumn key?) cols sqls) : ∃ items, List.Forall₂ ReadsAs sqls items ∧
      (∀ item ∈ items, isEven .definition 0 item) ∧
      items.filterMap (·.head?.bind name?) = cols.map columnName ∧
      items.flatMap TableText.keysOf = cols.flatMap fun col =>
        replicate (col.keyWords (col.isKeyedBy key?)) [col.columnName] := by
  induction h with
  | nil => exact ⟨[], .nil, by simp, rfl, rfl⟩
  | cons hf _ ih =>
    obtain ⟨item, hr, hev, hna, hk⟩ := hf.exists_item
    obtain ⟨items, hi, he, hn, ho⟩ := ih
    refine ⟨item :: items, .cons hr hi, forall_mem_cons.2 ⟨hev, he⟩, ?_, ?_⟩
    · rw [filterMap_cons, hna, hn]
      rfl
    · rw [flatMap_cons, hk, ho]
      rfl

end Tree

namespace Draft

variable {tree : Tree} {row : List Tree}

/-- The tokens of the constraints of a table, and the primary keys they declare. -/
theorem results_constraints {elems : List Tree}
    (h : ∀ element ∈ elems, (ofTree db element).Proper bad) (key? : Option String) :
    (Branch.elementConstraints key? (elems.map (ofTree db))).Results bad fun sqls =>
      ∃ items, List.Forall₂ ReadsAs sqls items ∧
        (∀ item ∈ items, isEven .definition 0 item ∧ item.head?.bind name? = none) ∧
        items.flatMap TableText.keysOf = if key?.isSome then [] else
          (elems.filterMap (·.child? .tableConstraintDef)).filterMap declaredKey? := by
  induction elems with
  | nil => exact results_pure ⟨[], .nil, by simp, by simp⟩
  | cons element rest ih =>
    rw [forall_mem_cons] at h
    rw [map_cons, Branch.elementConstraints, child?_ofTree]
    cases hc : element.child? .tableConstraintDef with
    | none =>
      rw [filterMap_cons, hc]
      exact ih h.2
    | some con =>
      have hp := h.1.child (mem_of_find?_eq_some hc)
      have hru : con.hasRule .tableConstraintDef := find?_some hc
      rw [filterMap_cons, hc, Option.map_some]
      dsimp only
      rw [tree_ofTree]
      by_cases hm : (key?.isSome && con.hasKeyword .PRIMARY)
      · have hre := ih h.2
        rw [if_pos (Bool.and_eq_true_iff.1 hm).1] at hre ⊢
        rw [if_pos hm]
        exact hre
      · rw [if_neg hm]
        refine results_bind (results_constraint hru hp) fun sql? hr => ?_
        refine results_bind (ih h.2) ?_
        rintro sqls ⟨items, hi, he, hk⟩
        -- a primary key is left out if it moves into its column
        have hmo : key?.isSome → con.declaredKey? = none := by
          intro hs
          refine if_neg fun hf => hm ?_
          rw [hs, hasKeyword_of_head hf]
          rfl
        refine results_pure ?_
        cases sql? with
        | none =>
          refine ⟨items, hi, he, ?_⟩
          rw [hk, filterMap_cons, hr.2 rfl]
        | some sql =>
          obtain ⟨word, tail, hrea, hev, ho⟩ := hr.1 sql rfl
          refine ⟨(.word word :: tail) :: items, .cons hrea hi,
            forall_mem_cons.2 ⟨⟨hev, rfl⟩, he⟩, ?_⟩
          rw [flatMap_cons, ho, hk]
          split
          · rename_i hs
            rw [hmo hs]
            rfl
          · cases hke : con.declaredKey? with
            | none => simp [hke]
            | some key => simp [hke]

theorem results_tableElements (h : tree.hasRule .tableElementList)
    (hp : (ofTree db tree).Proper bad) :
    (ofTree db tree).sql.Results bad tree.ReadsElements := by
  have hs : (ofTree db tree).branch.tree = tree := tree_ofTree db tree
  have hw : (ofTree db tree).write = some <$> (ofTree db tree).branch.tableElements := by
    obtain ⟨row, rfl⟩ := exists_of_hasRule h
    rfl
  have hb : ∀ element ∈ tree.childrenBy .tableElement, (ofTree db element).Proper bad :=
    fun element hel => hp.child (mem_filter.1 hel).1
  have hc : (Branch.elementColumns (Branch.inlineKey? tree)
      ((tree.childrenBy .tableElement).map (ofTree db))).Results bad
        (List.Forall₂ (Tree.ReadsColumn (Branch.inlineKey? tree)) tree.columnDefinitions) := by
    have hr := Branch.results_elementColumns (forall_mem_map.2 hb) (Branch.inlineKey? tree)
    simpa [columnDefinitions, Function.comp_def] using hr
  refine results_sql_of_some hw ?_
  unfold Branch.tableElements
  rw [hs, childrenBy_ofTree]
  refine results_bind hc fun cols hr => ?_
  refine results_bind (results_constraints hb (Branch.inlineKey? tree)) ?_
  rintro constraints ⟨others, ho, he, hk⟩
  obtain ⟨items, hit, hev, hn, hke⟩ := exists_items_of_readsColumn hr
  refine results_pure ⟨items ++ others, readsAs_commaSeparated (rel_append hit ho), ?_, ?_, ?_⟩
  · exact forall_mem_append.2 ⟨hev, fun item hi => (he item hi).1⟩
  · rw [filterMap_append, hn,
      filterMap_eq_nil_iff.2 fun item hi => (he item hi).2, append_nil]
  · rw [flatMap_append, hke, hk]
    rfl

end Draft

end SqlBridge
