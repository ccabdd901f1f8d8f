/-
The texts of tables and indexes, read back.

* `Draft.results_createTable`: a definition of a table is read with its name, its columns and the
  primary keys that are declared.
* `Branch.results_indexText`: a definition of an index is read with its table and its columns.
* `Draft.results_subject` and `Branch.results_subject`: the tables that both are about.
-/
import SqlBridge.Proofs.Scribe.Definition

namespace SqlBridge

open Scribe Sql Lexeme List SqlBridge.Tree

variable {bad : Error → Prop} {db : String} {items : List (List Lexeme)}

/-! ### Reading -/

namespace Lexeme

variable {names : List String} {ts rest : List Lexeme}

theorem pathTokens_cons (name : String) (names : List String) : pathTokens (name :: names) =
    .quoted .double name :: names.flatMap fun name => [.symbol ".", .quoted .double name] := by
  induction names generalizing name with
  | nil => rfl
  | cons next others ih =>
    have hs : pathTokens (name :: next :: others) =
        .quoted .double name :: .symbol "." :: pathTokens (next :: others) := by
      simp [pathTokens, intercalate]
    rw [hs, ih]
    rfl

theorem readPath_append (hr : rest.head? ≠ some (.symbol ".")) : SqlTerm.readPath
    ((names.flatMap fun name => [.symbol ".", .quoted .double name]) ++ rest) = (names, rest) := by
  induction names with
  | nil =>
    rw [flatMap_nil, nil_append]
    unfold SqlTerm.readPath
    split
    · rename_i dot name others
      rw [if_neg (by simpa using hr)]
    · rfl
  | cons name others ih =>
    rw [flatMap_cons, append_assoc]
    simp only [cons_append, nil_append, SqlTerm.readPath, if_pos, ih]

/-- **A name after some words is found, with its qualifier.** -/
theorem nameAhead?_append {words : List Lexeme} (hw : ∀ lex ∈ words, lex.isBareWord)
    (hn : names ≠ []) (hr : rest.head? ≠ some (.symbol ".")) :
    nameAhead? (words ++ pathTokens names ++ rest) = some (names, rest) := by
  obtain ⟨first, others, rfl⟩ := exists_cons_of_ne_nil hn
  have hd : (words ++ pathTokens (first :: others) ++ rest).dropWhile isBareWord =
      .quoted .double first ::
        ((others.flatMap fun name => [.symbol ".", .quoted .double name]) ++ rest) := by
    rw [append_assoc, dropWhile_append_of_pos hw, pathTokens_cons]
    rfl
  rw [nameAhead?, hd]
  dsimp only
  rw [readPath_append hr]

/-- Items between commas are found again, but for an empty one if there is none. -/
theorem filterMap_cut (h : ∀ item ∈ items, isEven .definition 0 item)
    {β : Type} {f : List Lexeme → Option β} (hf : f [] = none) :
    (cut (.symbol ",") 0 ([.symbol ","].intercalate items)).filterMap f = items.filterMap f := by
  cases items with
  | nil => simp [intercalate, cut, hf]
  | cons first rest => rw [cut_intercalate (by decide) rfl h (by simp)]

theorem flatMap_cut (h : ∀ item ∈ items, isEven .definition 0 item)
    {β : Type} {f : List Lexeme → List β} (hf : f [] = []) :
    (cut (.symbol ",") 0 ([.symbol ","].intercalate items)).flatMap f = items.flatMap f := by
  cases items with
  | nil => simp [intercalate, cut, hf]
  | cons first rest => rw [cut_intercalate (by decide) rfl h (by simp)]

/-- The words between `CREATE` and the name of a table. -/
def tableWords : List Lexeme :=
  [Keyword.TEMPORARY, .TABLE, .IF, .NOT, .EXISTS].map fun keyword => .word keyword.spelling

theorem isBareWord_of_mem_tableWords {lex : Lexeme} (h : lex ∈ tableWords) :
    lex.isBareWord :=
  all_eq_true.1 (rfl : tableWords.all isBareWord) lex h

end Lexeme

theorem TableText.ofTokens?_append {words rest : List Lexeme} {names : List String}
    (hw : ∀ lex ∈ words, lex.isBareWord)
    (hn : names ≠ []) (hit : ∀ item ∈ items, isEven .definition 0 item) :
    ofTokens? (.word "CREATE" :: words ++ pathTokens names ++ (listTokens items ++ rest)) =
      some ⟨names, cut (.symbol ",") 0 ([.symbol ","].intercalate items)⟩ := by
  have hal : ∀ lex ∈ .word "CREATE" :: words, lex.isBareWord := forall_mem_cons.2 ⟨rfl, hw⟩
  have hi : isEven .list 0 ([.symbol ","].intercalate items) :=
    isEven_intercalate rfl fun item hite => isEven_mono rfl (hit item hite)
  have ha : nameAhead? (.word "CREATE" :: words ++ pathTokens names ++ (listTokens items ++ rest)) =
      some (names, .symbol "(" :: ([.symbol ","].intercalate items ++ .symbol ")" :: rest)) := by
    rw [nameAhead?_append hal hn (by simp [listTokens])]
    simp [listTokens]
  have hr : ofTokens? (.word "CREATE" :: words ++ pathTokens names ++ (listTokens items ++ rest)) =
      some ⟨names, cut (.symbol ",") 0
        (enclosed 0 ([.symbol ","].intercalate items ++ .symbol ")" :: rest))⟩ := by
    unfold ofTokens?
    rw [ha]
    rfl
  rw [hr, enclosed_append hi]

/-! ### Tables -/

/-- The definition of a table says what its tree does. -/
structure TableText.Mirrors (database : String) (table elements : Tree) (definition : TableText) :
    Prop where
  name : definition.name = table.tablePath database
  columns : definition.columns = elements.columnDefinitions.map columnName
  primaryKeys : definition.primaryKeys = elements.writtenKeys

/-- The tokens of a definition of a table, without `CREATE`. -/
def Tree.ReadsTable (db : String) (table elements : Tree) (sql : Sql) : Prop :=
  ∃ words items rest, (∀ lexeme ∈ words, lexeme.isBareWord) ∧
    sql.ReadsAs (words ++ pathTokens (table.tablePath db) ++ (listTokens items ++ rest)) ∧
    (∀ item ∈ items, isEven .definition 0 item) ∧
    items.filterMap (·.head?.bind name?) = elements.columnDefinitions.map columnName ∧
    items.flatMap TableText.keysOf = elements.writtenKeys

/-- **The text of a table is read as its definition says.** -/
theorem Tree.ReadsTable.ofText? {table elems : Tree} {word sql : Sql}
    (h : ReadsTable db table elems sql) (ht : table.tablePath db ≠ [])
    (hwo : word.ReadsAs [.word "CREATE"]) :
    ∃ defn, TableText.ofText? (render (word ++ sql)) = some defn ∧
      defn.Mirrors db table elems := by
  obtain ⟨words, items, rest, hw, hr, he, hc, hk⟩ := h
  refine ⟨⟨_, cut (.symbol ",") 0 ([.symbol ","].intercalate items)⟩, ?_, ⟨rfl, ?_, ?_⟩⟩
  · rw [TableText.ofText?, (hwo.append hr).lexemes?, Option.bind_some]
    exact TableText.ofTokens?_append hw ht he
  · rw [← hc]
    exact filterMap_cut he rfl
  · rw [← hk]
    exact flatMap_cut he rfl

namespace Draft

variable {tree : Tree} {row : List Tree}

/-- A word before the name of a table. -/
theorem writes_tableWord
    (h : (tree.hasKind (.keyword .TEMPORARY) || tree.hasKind (.keyword .TABLE) ||
      tree.hasRule .ifNotExists)) (hp : (ofTree db tree).Proper bad) :
    ∃ ts, Writes bad db tree ts ∧ ∀ lex ∈ ts, lex ∈ tableWords := by
  rw [Bool.or_eq_true, Bool.or_eq_true] at h
  rcases h with (ht | hta) | hm
  · exact ⟨_, writes_keyword ht rfl, by simp [tableWords]⟩
  · exact ⟨_, writes_keyword hta rfl, by simp [tableWords]⟩
  · obtain ⟨row, rfl⟩ := exists_of_hasRule hm
    have hd := hp.branch.demand rfl rfl
    have hw : ∀ word ∈ row, ∃ ts, Writes bad db word ts ∧
        ∀ lex ∈ ts, lex ∈ tableWords := by
      intro word hwo
      have hk := all_eq_true.1 hd word hwo
      simp only [any_cons, any_nil, Bool.or_false, Bool.or_eq_true] at hk
      rcases hk with hif | hn | he
      · exact ⟨_, writes_keyword hif rfl, by simp [tableWords]⟩
      · exact ⟨_, writes_keyword hn rfl, by simp [tableWords]⟩
      · exact ⟨_, writes_keyword he rfl, by simp [tableWords]⟩
    obtain ⟨lists, hli, hb⟩ := exists_lists hw
    refine ⟨lists.flatten, writes_of_sequence rfl hli, fun lex hl => ?_⟩
    obtain ⟨list, hlis, hme⟩ := mem_flatten.1 hl
    exact hb list hlis lex hme

/-- Parts before others. -/
theorem results_writeEach_append {parts others : List Draft} {first second whole : Sql → Prop}
    (h : (writeEach Draft.sql parts).Results bad first)
    (ho : (writeEach Draft.sql others).Results bad second)
    (hw : ∀ sql more, first sql → second more → whole (sql ++ more)) :
    (writeEach Draft.sql (parts ++ others)).Results bad whole := by
  rw [writeEach_append]
  exact results_bind h fun sql hs => results_bind ho fun more hm =>
    results_pure (hw sql more hs hm)

theorem results_writeEach_cons {part : Draft} {others : List Draft}
    {first second whole : Sql → Prop}
    (h : part.sql.Results bad first) (ho : (writeEach Draft.sql others).Results bad second)
    (hw : ∀ sql more, first sql → second more → whole (sql ++ more)) :
    (writeEach Draft.sql (part :: others)).Results bad whole :=
  results_bind h fun sql hs => results_bind ho fun more hm =>
    results_pure (hw sql more hs hm)

/-- The children of the definition of a table with a list of elements. -/
theorem exists_tableRow {elems : Tree} (h : Rule.admitsTable row)
    (he : row.find? (hasRule .tableElementList) = some elems) :
    ∃ words table opening closing others,
      row = words ++ table :: opening :: elems :: closing :: others ∧
      (∀ word ∈ words, (word.hasKind (.keyword .TEMPORARY) || word.hasKind (.keyword .TABLE) ||
        word.hasRule .ifNotExists)) ∧
      row.find? (hasRule .tableName) = some table ∧
      opening.hasKind (.symbol .openParen) ∧
      closing.hasKind (.symbol .closeParen) := by
  rw [Rule.admitsTable, Bool.and_eq_true, Bool.and_eq_true] at h
  obtain ⟨⟨-, hw⟩, hl⟩ := h
  have hi : Rule.isIn .tableElementList row :=
    any_eq_true.2 ⟨elems, mem_of_find?_eq_some he, find?_some he⟩
  rw [hi, Bool.not_true, Bool.false_or] at hl
  have ho {tree : Tree} {kind : Token.Kind} (hk : tree.hasKind kind) {rule : Rule} :
      tree.hasRule rule = false := by
    cases tree with
    | leaf tok => rfl
    | node rule kids => cases hk
  have hwo {rule : Rule} (hr : .ifNotExists ≠ rule) :
      ∀ word ∈ row.takeWhile (!hasRule .tableName ·), ¬ word.hasRule rule := by
    intro word hme
    rw [Bool.not_eq_true]
    have hk := all_eq_true.1 hw word hme
    rw [Bool.or_eq_true, Bool.or_eq_true] at hk
    rcases hk with (hte | ht) | hm
    · exact ho hte
    · exact ho ht
    · obtain ⟨below, rfl⟩ := exists_of_hasRule hm
      simpa using hr
  split at hl
  · rename_i table opening list closing others hd
    rw [Bool.and_eq_true, Bool.and_eq_true] at hl
    have hs : row = row.takeWhile (!hasRule .tableName ·) ++
        table :: opening :: list :: closing :: others := by
      rw [← hd, takeWhile_append_dropWhile]
    have hr : table.hasRule .tableName := by
      have hh := head?_dropWhile_not (!hasRule .tableName ·) row
      rw [hd] at hh
      simpa using hh
    have ht : row.find? (hasRule .tableName) = some table := by
      rw [hs, find?_append, find?_eq_none.2 (hwo (by decide)), Option.none_or,
        find?_cons_of_pos hr]
    obtain ⟨below, rfl⟩ := exists_of_hasRule hr
    have hf : row.find? (hasRule .tableElementList) = some list := by
      rw [hs, find?_append, find?_eq_none.2 (hwo (by decide)), Option.none_or,
        find?_cons_of_neg (by simp), find?_cons_of_neg (by simp [ho hl.1.1]),
        find?_cons_of_pos hl.1.2]
    obtain rfl : list = elems := Option.some.inj (hf.symm.trans he)
    exact ⟨_, _, _, _, _, hs, all_eq_true.1 hw, ht, hl.1.1, hl.2⟩
  · cases hl

theorem tablePath_ne_nil (h : tree.hasRule .tableName)
    (hp : (ofTree db tree).Proper bad) : tree.tablePath db ≠ [] := by
  obtain ⟨row, rfl⟩ := exists_of_hasRule h
  have hd : Rule.admitsQualified row := hp.branch.demand rfl rfl
  obtain ⟨name, hm, hr⟩ := any_eq_true.1 (Rule.isIn_of_admitsQualified hd)
  have hne : ((node .tableName row).childrenBy .identifier).map nameText ≠ [] := by
    rw [ne_eq, map_eq_nil_iff]
    exact ne_nil_of_mem (mem_filter.2 ⟨hm, hr⟩)
  unfold tablePath
  split
  · split <;> simp
  · exact hne

/-- What follows the name of a table. -/
theorem isTidy_afterName {words others : List Tree} {table : Tree}
    (hwo : ∀ word ∈ words, (word.hasKind (.keyword .TEMPORARY) || word.hasKind (.keyword .TABLE) ||
      word.hasRule .ifNotExists)) (ht : table.hasRule .tableName) :
    isTidy .compound 0 (words ++ table :: others) = isTidy .compound 0 others := by
  have hk {tree : Tree} {kw : Keyword} (hki : tree.hasKind (.keyword kw))
      (hp : Token.Kind.isPlain .compound (.keyword kw)) :
      tree.isPlain .compound := by
    cases tree with
    | node rule kids => cases hki
    | leaf tok =>
      rw [isPlain, eq_of_beq hki]
      exact hp
  have hp : words.all (isPlain (Looseness.compound.within 0)) := by
    refine all_eq_true.2 fun word hme => ?_
    have hw := hwo word hme
    rw [Bool.or_eq_true, Bool.or_eq_true] at hw
    rcases hw with (hte | ht) | hm
    · exact hk hte rfl
    · exact hk ht rfl
    · obtain ⟨row, rfl⟩ := exists_of_hasRule hm
      rfl
  obtain ⟨names, rfl⟩ := exists_of_hasRule ht
  rw [isTidy_append hp, isTidy_cons rfl]

/-- What follows the elements of a table. -/
theorem isTidy_after {others : List Tree} {opening elems closing : Tree}
    (ho : opening.hasKind (.symbol .openParen))
    (he : elems.hasRule .tableElementList)
    (hc : closing.hasKind (.symbol .closeParen)) :
    isTidy .compound 0 (opening :: elems :: closing :: others) =
      isTidy .compound 0 others := by
  obtain ⟨items, rfl⟩ := exists_of_hasRule he
  rw [isTidy_open ho, isTidy_cons rfl, isTidy_close hc]

/-- Parts that are laid out are written as some tokens. -/
theorem results_tokens {parts : List Tree} (h : ∀ part ∈ parts, (ofTree db part).Proper bad)
    {loose : Looseness} (hti : isTidy loose 0 parts) :
    (writeEach Draft.sql (parts.map (ofTree db))).Results bad
      fun sql => ∃ ts, sql.ReadsAs ts := by
  have ht : isTidy loose 0 ((parts.map (ofTree db)).map Draft.tree) := by
    simpa [Function.comp_def] using hti
  refine (results_row (forall_mem_map.2 h) ht).mono fun sql hs => ?_
  obtain ⟨ts, hr, -⟩ := Even.exists_readsAs hs.even
  exact ⟨ts, hr⟩

/-- A table is created by what its parts are written as, or not at all. -/
theorem results_createTable_sql {want : Sql → Prop}
    (hp : (ofTree db (.node .createTable row)).Proper bad)
    (h : (writeEach Draft.sql (row.map (ofTree db))).Results bad want) :
    (ofTree db (.node .createTable row)).sql.Results bad want := by
  rw [Draft.sql, write_ofTree]
  refine results_bind ?_ fun sql? hs => results_pure hs
  show (Branch.createTable _).Results bad fun sql? => want (sql?.getD [])
  unfold Branch.createTable
  split
  · exact hp.branch.results_unsupported _
  split
  · exact hp.branch.results_unsupported _
  · exact results_sequence_getD h

/-- **The definition of a table names it, its columns and its primary keys.** -/
theorem results_createTable {elems : Tree} (h : tree.hasRule .createTable)
    (hp : (ofTree db tree).Proper bad)
    (hele : tree.child? .tableElementList = some elems) :
    ∃ table, tree.child? .tableName = some table ∧ table.tablePath db ≠ [] ∧
      (ofTree db tree).sql.Results bad (Tree.ReadsTable db table elems) := by
  obtain ⟨row, rfl⟩ := exists_of_hasRule h
  obtain ⟨words, table, opening, closing, others, hr, hwo, htab, hop, hc⟩ :=
    exists_tableRow (hp.branch.demand rfl rfl) hele
  have ht : table.hasRule .tableName := find?_some htab
  have he : elems.hasRule .tableElementList := find?_some hele
  have hta := hp.child (mem_of_find?_eq_some htab)
  refine ⟨table, htab, tablePath_ne_nil ht hta, ?_⟩
  have hla : isTidy .compound 0 row := hp.branch.isLaidOut rfl
  have ha : ∀ child ∈ words ++ table :: opening :: elems :: closing :: others,
      (ofTree db child).Proper bad := fun child hme => hp.child (hr ▸ hme)
  simp only [forall_mem_append, forall_mem_cons] at ha
  obtain ⟨hw, -, -, hel, -, ho⟩ := ha
  obtain ⟨lists, hli, hb⟩ := exists_lists fun word hwor =>
    writes_tableWord (hwo word hwor) (hw word hwor)
  have hpa : Writes bad db table (pathTokens (table.tablePath db)) := by
    obtain ⟨names, rfl⟩ := exists_of_hasRule ht
    exact writes_table (fun _ => rfl) rfl hta
  have hope : Writes bad db opening [.symbol "("] := writes_symbol hop rfl (by decide) rfl
  have hcl : Writes bad db closing [.symbol ")"] := writes_symbol hc rfl (by decide) rfl
  have hot : (writeEach Draft.sql (others.map (ofTree db))).Results bad
      fun sql => ∃ ts, sql.ReadsAs ts := by
    rw [hr, isTidy_afterName hwo ht, isTidy_after hop he hc] at hla
    exact results_tokens ho hla
  have hea : (writeEach Draft.sql (row.map (ofTree db))).Results bad
      (Tree.ReadsTable db table elems) := by
    have hah : List.Forall₂ (Writes bad db) (words ++ [table, opening])
        (lists ++ [pathTokens (table.tablePath db), [.symbol "("]]) :=
      rel_append hli (.cons hpa (.cons hope .nil))
    have hs : row.map (ofTree db) = (words ++ [table, opening]).map (ofTree db) ++
        ofTree db elems :: ofTree db closing :: others.map (ofTree db) := by
      simp [hr]
    have haf : (writeEach Draft.sql (ofTree db closing :: others.map (ofTree db))).Results
        bad fun sql => ∃ ts, sql.ReadsAs (.symbol ")" :: ts) := by
      refine results_writeEach_cons hcl hot ?_
      rintro sql more hsq ⟨ts, hm⟩
      exact ⟨ts, hsq.append hm⟩
    have hl : (writeEach Draft.sql (ofTree db elems :: ofTree db closing ::
        others.map (ofTree db))).Results bad fun sql => ∃ items ts,
          sql.ReadsAs ([.symbol ","].intercalate items ++ .symbol ")" :: ts) ∧
            (∀ item ∈ items, isEven .definition 0 item) ∧
            items.filterMap (·.head?.bind name?) = elems.columnDefinitions.map columnName ∧
            items.flatMap TableText.keysOf = elems.writtenKeys := by
      refine results_writeEach_cons (results_tableElements he hel) haf ?_
      rintro sql more ⟨items, hi, ha⟩ ⟨ts, hm⟩
      exact ⟨items, ts, hi.append hm, ha⟩
    rw [hs]
    refine results_writeEach_append (results_writes hah) hl ?_
    rintro ahead more hre ⟨items, rest, hm, hev, hco, hk⟩
    refine ⟨lists.flatten, items, rest, ?_, ?_, hev, hco, hk⟩
    · intro lex hle
      obtain ⟨list, hl, hme⟩ := mem_flatten.1 hle
      exact isBareWord_of_mem_tableWords (hb list hl lex hme)
    · have hto : lists.flatten ++ pathTokens (table.tablePath db) ++ (listTokens items ++ rest) =
          (lists ++ [pathTokens (table.tablePath db), [.symbol "("]]).flatten ++
            ([.symbol ","].intercalate items ++ .symbol ")" :: rest) := by
        simp [listTokens]
      rw [hto]
      exact hre.append hm
  exact results_createTable_sql hp hea

theorem results_createStatement {verb create elems : Tree}
    (hp : (ofTree db (.node .createStatement [verb, create])).Proper bad)
    (hv : verb.hasKind (.keyword .CREATE)) (hc : create.hasRule .createTable)
    (he : create.child? .tableElementList = some elems) :
    ∃ table, create.child? .tableName = some table ∧
      (ofTree db (.node .createStatement [verb, create])).required.Results bad fun sql =>
        ∃ defn, TableText.ofText? sql.render = some defn ∧
          defn.Mirrors db table elems := by
  obtain ⟨table, ht, hpa, hs⟩ := results_createTable hc
    (hp.child (by simp [children])) he
  have hru : (ofTree db (.node .createStatement [verb, create])).tree.hasRule
      .createStatement := by
    rw [tree_ofTree]
    rfl
  have hre : (writeEach Draft.sql [ofTree db create]).Results bad
      (Tree.ReadsTable db table elems) := by
    refine results_bind hs fun sql hr => results_bind (results_pure rfl) ?_
    rintro more rfl
    rw [append_nil]
    exact results_pure hr
  refine ⟨table, ht, hp.required_of_sql hru rfl (results_sql_of_sequence rfl ?_)⟩
  exact results_writeEach_cons (writes_keyword hv rfl) hre
    fun word sql hw hr => hr.ofText? hpa hw

/-! ### The table that is created -/

theorem addressed?_table {words rest : List Lexeme} {names : List String}
    (hwo : ∀ lex ∈ words, lex ∈ tableWords) (hn : names ≠ [])
    (hr : rest.head? ≠ some (.symbol ".")) :
    addressed? (.word "CREATE" :: words ++ pathTokens names ++ rest) = some names := by
  have ha : ∀ lex ∈ .word "CREATE" :: words, lex.isBareWord :=
    forall_mem_cons.2 ⟨rfl, fun lex hm => isBareWord_of_mem_tableWords (hwo lex hm)⟩
  obtain ⟨first, others, rfl⟩ := exists_cons_of_ne_nil hn
  have ht : (.word "CREATE" :: words ++ pathTokens (first :: others) ++ rest).takeWhile isBareWord =
      .word "CREATE" :: words := by
    rw [append_assoc, takeWhile_append_of_pos ha, pathTokens_cons]
    simp [isBareWord]
  have hi : Lexeme.word "INDEX" ∉ .word "CREATE" :: words := by
    intro hm
    rcases mem_cons.1 hm with hw | hw
    · exact absurd hw (by decide)
    · exact absurd (hwo _ hw) (by decide)
  rw [addressed?, ht, if_neg hi, nameAhead?_append ha hn hr]
  rfl

/-- **The statement that creates a table is about that table, with its qualifier.** -/
theorem results_subject {verb create : Tree}
    (hp : (ofTree db (.node .createStatement [verb, create])).Proper bad)
    (hv : verb.hasKind (.keyword .CREATE)) (hcre : create.hasRule .createTable)
    {table : Tree} (htab : create.child? .tableName = some table) :
    (ofTree db (.node .createStatement [verb, create])).required.Results bad fun sql =>
      subject? sql.render = some (table.tablePath db) := by
  have hc : (ofTree db create).Proper bad := hp.child (by simp [children])
  obtain ⟨row, rfl⟩ := exists_of_hasRule hcre
  have ht : table.hasRule .tableName := find?_some htab
  have hta := hc.child (mem_of_find?_eq_some htab)
  -- the words before the name, and what follows it
  obtain ⟨-, words, others, rfl, hwor⟩ := find?_eq_some_iff_append.1 htab
  have hd : Rule.admitsTable (words ++ table :: others) := hc.branch.demand rfl rfl
  have hwords : ∀ word ∈ words, (word.hasKind (.keyword .TEMPORARY) ||
      word.hasKind (.keyword .TABLE) || word.hasRule .ifNotExists) := by
    have htak : (words ++ table :: others).takeWhile (!hasRule .tableName ·) = words := by
      rw [takeWhile_append_of_pos hwor, takeWhile_cons_of_neg (by simp [ht]),
        append_nil]
    rw [Rule.admitsTable, Bool.and_eq_true, Bool.and_eq_true, htak] at hd
    exact all_eq_true.1 hd.1.2
  have ha : ∀ child ∈ words ++ table :: others, (ofTree db child).Proper bad :=
    fun child hm => hc.child hm
  simp only [forall_mem_append, forall_mem_cons] at ha
  obtain ⟨hwo, -, ho⟩ := ha
  obtain ⟨lists, hli, hwr⟩ := exists_lists fun word hw =>
    writes_tableWord (hwords word hw) (hwo word hw)
  have hpa : Writes bad db table (pathTokens (table.tablePath db)) := by
    obtain ⟨names, rfl⟩ := exists_of_hasRule ht
    exact writes_table (fun _ => rfl) rfl hta
  have hot : (writeEach Draft.sql (others.map (ofTree db))).Results bad
      fun sql => ∃ ts, sql.ReadsAs ts := by
    have hla : isTidy .compound 0 (words ++ table :: others) := hc.branch.isLaidOut rfl
    rw [isTidy_afterName hwords ht] at hla
    exact results_tokens ho hla
  have he : (writeEach Draft.sql ((words ++ table :: others).map (ofTree db))).Results bad
      fun sql => ∃ rest, rest.head? ≠ some (.symbol ".") ∧
        sql.ReadsAs (lists.flatten ++ pathTokens (table.tablePath db) ++ rest) := by
    rw [append_cons, map_append]
    refine results_writeEach_append (results_writes (rel_append hli (.cons hpa .nil))) hot ?_
    rintro ahead more hr ⟨rest, hmo⟩
    refine ⟨rest, fun hdo => ?_, by simpa using hr.append hmo⟩
    exact absurd (hmo.settled.first _ hdo) (by decide)
  have hcr :
      (writeEach Draft.sql [ofTree db (.node .createTable (words ++ table :: others))]).Results
      bad fun sql => ∃ rest, rest.head? ≠ some (.symbol ".") ∧
        sql.ReadsAs (lists.flatten ++ pathTokens (table.tablePath db) ++ rest) :=
    results_writeEach_cons (results_createTable_sql hc he) (results_pure rfl)
      (by rintro sql _ hs rfl; rwa [append_nil])
  have hru : (ofTree db (.node .createStatement
      [verb, .node .createTable (words ++ table :: others)])).tree.hasRule .createStatement =
        true := by
    rw [tree_ofTree]
    rfl
  refine hp.required_of_sql hru rfl (results_sql_of_sequence rfl ?_)
  refine results_writeEach_cons (writes_keyword hv rfl) hcr ?_
  rintro word sql hw ⟨rest, hdo, hr⟩
  have hl := (hw.append hr).lexemes?
  rw [subject?, hl, Option.bind_some]
  refine addressed?_table (fun lex hle => ?_) (tablePath_ne_nil ht hta) hdo
  obtain ⟨list, hlis, hm⟩ := mem_flatten.1 hle
  exact hwr list hlis lex hm

end Draft

/-! ### Indexes -/

/-- The columns of a key, and whether they descend. -/
def Tree.keyOrder (keys : Tree) : List (String × Bool) :=
  (keys.childrenBy .keyPart).map fun part =>
    ((KeyPart.ofTree part).column, (KeyPart.ofTree part).descending)

theorem IndexText.mapM_partTokens (parts : List Tree) : (parts.map partTokens).mapM partOf? =
    some (parts.map fun part =>
      ((KeyPart.ofTree part).column, (KeyPart.ofTree part).descending)) := by
  induction parts with
  | nil => rfl
  | cons part rest ih => simp [mapM_cons, partOf?_partTokens, ih]

/-- A definition of an index: its name, its table and its columns. -/
theorem Branch.results_indexTokens {keys : Tree} (hr : keys.hasRule .keyList)
    (hp : (Draft.ofTree db keys).Proper bad) (table index : String) (unique : Bool) :
    (indexDefinition table index unique (Draft.ofTree db keys)).Results bad fun sql =>
      Lexer.lexemes? (render (.raw "CREATE" :: sql)) = some (.word "CREATE" ::
        (if unique then ["UNIQUE", "INDEX"] else ["INDEX"]).map .word ++
        [quoted .double (indexName table index), .word "ON", .quoted .double table] ++
          keys.keyTokens) := by
  have hk : (Draft.ofTree db keys).required.Results bad (·.ReadsAs keys.keyTokens) :=
    hp.required_of_sql (by rwa [Draft.tree_ofTree]) rfl (Draft.writes_keyList hr hp)
  refine results_bind hk fun sql hs => results_pure ?_
  have hn : ReadsAs [.name (indexName table index), .raw "ON", .name table]
      [.quoted .double (indexName table index), .word "ON", .quoted .double table] :=
    (readsAs_name _).append ((readsAs_word (by decide)).append (readsAs_name table))
  have hw : ReadsAs (Sql.word "CREATE") [.word "CREATE"] := readsAs_word (by decide)
  have hi : ReadsAs (Sql.words (if unique then ["UNIQUE", "INDEX"] else ["INDEX"]))
      ((if unique then ["UNIQUE", "INDEX"] else ["INDEX"]).map .word) :=
    readsAs_words (by split <;> decide)
  have ha := (hw.append ((hi.append hn).append hs)).lexemes?
  exact ha

/-- **The text of an index is read with its name, its table and its columns.** -/
theorem Branch.results_indexText {keys : Tree} (hr : keys.hasRule .keyList)
    (hp : (Draft.ofTree db keys).Proper bad) (table index : String) (unique : Bool) :
    (indexDefinition table index unique (Draft.ofTree db keys)).Results bad fun sql =>
      IndexText.ofText? (render (.raw "CREATE" :: sql)) =
        some ⟨unique, indexName table index, table, keys.keyOrder⟩ := by
  have hl : (listed keys.keyTokens).mapM IndexText.partOf? = some keys.keyOrder := by
    have hi : ∀ item ∈ (keys.childrenBy .keyPart).map partTokens,
        isEven .definition 0 item := by
      simp [isEven_partTokens]
    have hne : (keys.childrenBy .keyPart).map partTokens ≠ [] := by
      simpa using Draft.Proper.keyParts_ne_nil hr hp
    have ha :
        listed ([] ++ listTokens ((keys.childrenBy .keyPart).map partTokens) ++ []) = _ :=
      listed_append (by simp) hi hne
    rw [nil_append, append_nil] at ha
    rw [keyTokens, ha]
    exact IndexText.mapM_partTokens _
  refine (results_indexTokens hr hp table index unique).mono fun sql hs => ?_
  rw [IndexText.ofText?, hs]
  cases unique <;> simp [IndexText.ofTokens?, hl]

theorem Lexeme.addressed?_index {words rest : List Lexeme}
    (hw : ∀ lex ∈ words, lex.isBareWord) (hi : .word "INDEX" ∈ words)
    (index table : String) (hr : rest.head? ≠ some (.symbol ".")) :
    addressed? (words ++ [quoted .double index, .word "ON", .quoted .double table] ++ rest) =
      some [table] := by
  have ha : nameAhead? (.word "ON" :: .quoted .double table :: rest) = some ([table], rest) :=
    nameAhead?_append (by simp [isBareWord] : ∀ lex ∈ [Lexeme.word "ON"], lex.isBareWord)
      (by simp : [table] ≠ []) hr
  have hah :
      nameAhead? (words ++ [quoted .double index, .word "ON", .quoted .double table] ++
        rest) =
      some ([index], .word "ON" :: .quoted .double table :: rest) := by
    have hn := nameAhead?_append hw (by simp : [index] ≠ [])
      (by simp : (Lexeme.word "ON" :: .quoted .double table :: rest).head? ≠ some (.symbol "."))
    simpa [pathTokens, intercalate] using hn
  have ht : takeWhile isBareWord (words ++
      [quoted .double index, .word "ON", .quoted .double table] ++ rest) = words := by
    rw [append_assoc, takeWhile_append_of_pos hw]
    simp [isBareWord]
  rw [addressed?, ht, if_pos hi, hah, Option.bind_some, ha]
  rfl

/-- **The statement that creates an index is about its table, without a qualifier.** -/
theorem Branch.results_subject {keys : Tree} (hr : keys.hasRule .keyList)
    (hp : (Draft.ofTree db keys).Proper bad) (table index : String) (unique : Bool) :
    (indexDefinition table index unique (Draft.ofTree db keys)).Results bad fun sql =>
      subject? (render (.raw "CREATE" :: sql)) = some [table] := by
  refine (results_indexTokens hr hp table index unique).mono fun sql hs => ?_
  rw [subject?, hs]
  refine addressed?_index ?_ ?_ _ table (by simp [keyTokens, listTokens])
  · cases unique <;> simp [isBareWord]
  · cases unique <;> simp

end SqlBridge
