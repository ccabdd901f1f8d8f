/-
The trees of statements have the shape that writing them takes for granted.

Each phrase of the grammar is checked to make nodes that their rules admit (`Phrase.Admits`): `simp`
writes out the rows of trees that it may read, and evaluates on each of them what the rule asks for.
Where a row is no list that can be written out, a lemma says what is known of it: the levels of the
ladder of operators (`admits_ladder`), and the call of a function that asks for nothing
(`admits_keywordCall`), which earlier tests have told apart from those that do.

* `covers_productions`, `admits_productions`: so it is for what every name stands for.
* `admitted_of_parse`: every node of the tree of a statement is what its rule admits.
-/
import SqlBridge.Proofs.Grammar.Rows

namespace SqlBridge.Grammar

open Phrase List SqlBridge.Tree

variable {known : Known} {post : List Tree → Known → Prop}

-- these look for an instance at every quantifier
attribute [-simp] IsEmpty.forall_iff forall_const Subsingleton.forall₂_iff

-- what a rule asks for, and what tests ahead say, is evaluated on each row
attribute [local simp] Rule.admits Rule.demand?.eq_def Rule.layout.eq_def Rule.isLaidOut Rule.isIn
  Tree.isPlain Tree.isWritten Tree.isTidy Token.isEnding Token.isSymbol Token.isKeyword
  Token.keyword?.eq_def optionalKeyword optionalKeywordOf optionalSymbol expected unsupported
  Lookahead.keyword Lookahead.anyKeyword Lookahead.symbol Lookahead.keywordAt Lookahead.symbolAt
  Lookahead.both Lookahead.either Lookahead.opposite Lookahead.name Lookahead.string nth_zero_cons
  nth_succ_cons oneOf_iff oneOf_keyword forall_isName anyVariable

/-! ### Names -/

@[simp ↓] theorem isNode_names :
    IsNode identifier .identifier ∧ IsNode dottedIdentifier .identifier ∧
    IsNode aliasName .identifier ∧ IsNode tableRef .tableRef ∧ IsNode columnRef .columnRef ∧
    IsNode indexName .indexName ∧
    IsNode identifierListInParentheses .identifierListWithParentheses :=
  ⟨Iff.rfl, and_self_iff, and_self_iff, Iff.rfl, Iff.rfl, Iff.rfl, Iff.rfl⟩

@[simp ↓] theorem isNode_qualifiedName {rule : Rule} : IsNode (qualifiedName rule) rule := Iff.rfl

@[simp ↓] theorem each_tableAlias : tableAlias.Each known post ↔
    (∀ kids, post [.node .tableAlias kids] .any) ∧
      post [] ((known.seen (.keyword .AS) false).seen .name false) := by
  simp +contextual [tableAlias]

@[simp ↓] theorem admits_identifiers : identifier.Admits known ∧ dottedIdentifier.Admits known ∧
    aliasName.Admits known := by
  simp [identifier, dottedIdentifier, aliasName]

@[simp ↓] theorem admits_tableRef :
    tableRef.Admits known ∧ (qualifiedName .tableName).Admits known := by
  simp +decide [tableRef, qualifiedName, Rule.admitsQualified, isPath]

@[simp ↓] theorem admits_columnRef : columnRef.Admits known := by
  simp +decide [columnRef, isPath]

@[simp ↓] theorem admits_names : indexName.Admits known ∧ identifierListInParentheses.Admits known ∧
    tableAlias.Admits known := by
  simp +decide [indexName, identifierListInParentheses, tableAlias]

/-! ### Types -/

@[simp ↓] theorem isNode_types :
    IsNode charsetName .charsetName ∧ IsNode collationName .collationName ∧
    IsNode stringList .stringList ∧ IsNode fieldLength .fieldLength ∧ IsNode dataType .dataType ∧
    IsNode castType .castType := by
  refine ⟨Iff.rfl, Iff.rfl, Iff.rfl, Iff.rfl, ?_, ?_⟩
  all_goals simp [IsNode, dataType, castType]

@[simp ↓] theorem each_textString : textString.Each known post ↔
    ∀ kids, post [.node .textStringLiteral kids] .any := and_iff_left trivial

@[simp ↓] theorem admits_textString : textString.Admits known := by
  simp [textString]

@[simp ↓] theorem admits_charsets : charsetName.Admits known ∧ collationName.Admits known ∧
    charsetKeyword.Admits known ∧ optionalCharset.Admits known := by
  simp [charsetName, collationName, charsetKeyword, optionalCharset]

@[simp ↓] theorem admits_lengths : optionalLength.Admits known ∧
    optionalLengthOrPrecision.Admits known ∧ optionalDatetimePrecision.Admits known := by
  simp [optionalLength, fieldLength, optionalLengthOrPrecision, lengthOrPrecision, integerToken,
    optionalDatetimePrecision, datetimePrecision]

@[simp ↓] theorem admits_fieldOptions :
    optionalFieldOptions.Admits known ∧ stringList.Admits known := by
  simp [optionalFieldOptions, stringList]

@[simp ↓] theorem admits_dataType : dataType.Admits known := by
  refine admits_firstOf ?_ fun _ _ => trivial
  simp +decide

@[simp ↓] theorem admits_castType : castType.Admits known := by
  refine admits_firstOf ?_ fun _ _ => trivial
  simp +decide

/-! ### Expressions -/

section Expressions

@[simp ↓] theorem isNode_parts : IsNode expressionInParentheses .exprWithParentheses ∧
    IsNode subquery .subquery ∧ IsNode expressionList .exprList ∧ IsNode interval .interval ∧
    IsNode intervalUnit .intervalTimeStamp ∧ IsNode orderClause .orderClause :=
  ⟨Iff.rfl, Iff.rfl, Iff.rfl, Iff.rfl, Iff.rfl, Iff.rfl⟩

theorem isOneOfSymbols_iff {symbols : List Symbol} {token : Token} :
    isOneOfSymbols symbols token ↔ ∃ s ∈ symbols, token.kind = .symbol s := by
  unfold isOneOfSymbols Token.symbol?
  split <;> simp_all [eq_comm]

theorem isComparison_iff {token : Token} : isComparison token ↔
    ∃ s ∈ [Symbol.equal, .nullSafeEqual, .notEqual, .bangEqual, .less, .lessEqual, .greater,
      .greaterEqual], token.kind = .symbol s := by
  unfold isComparison Token.symbol?
  split
  · rename_i s hs
    cases s <;> simp_all [Symbol.isComparison]
  · simp_all

attribute [local simp] expression find?_cons Tree.isQuantifier isOneOfSymbols_iff isComparison_iff

@[simp ↓] theorem admits_parts : expressionInParentheses.Admits known ∧ subquery.Admits known ∧
    expressionList.Admits known ∧ intervalUnit.Admits known ∧ interval.Admits known := by
  simp +decide [expressionInParentheses, subquery, expressionList, intervalUnit, intervalUnits,
    interval]

theorem admits_disjunction : disjunction.Admits known := by
  simp +decide [disjunction, logicalChain, isOr, isXor, isAnd]

theorem admits_negation : negation.Admits known := by
  simp +decide [negation, comparison]

theorem admits_predicate : predicate.Admits known := by
  simp +decide [predicate, predicateTail, atPredicate, predicateKeywords]
  rintro e kids value position rest kind ((rfl | rfl | rfl | rfl | rfl) | ⟨rfl, -⟩)
  all_goals simp +decide

/-- One tree, of an expression. -/
def OneExpression (trees : List Tree) (_ : Known) : Prop :=
  ∃ rule kids, rule.isExpression ∧ trees = [.node rule kids]

/-- What a ladder reads is an expression. -/
theorem oneExpression_ladder (levels : List (Token → Bool)) :
    (ladder levels).Each known OneExpression := by
  induction levels generalizing known with
  | nil => exact fun rule kids hr => ⟨rule, kids, hr, rfl⟩
  | cons level tighter ih => exact ⟨ih, fun kids => ⟨.bitExpr, kids, rfl, rfl⟩⟩

/-- An operator of the ladder and what stands on its right. -/
theorem admits_ladder {levels : List (Token → Bool)}
    (hl : ∀ level ∈ levels, ∀ value position kind, level ⟨kind, value, position⟩ →
      kind.isPlain .item) : (ladder levels).Admits known := by
  induction levels generalizing known with
  | nil => trivial
  | cons level tighter ih =>
    have hi {known : Known} : (ladder tighter).Admits known :=
      ih fun other hm => hl other (by simp [hm])
    have ho (e : Expression) (kids : List Tree) : (seq (.token level "an operator")
        (.choose (.keyword .INTERVAL) interval (ladder tighter))).Each
          (Known.any.seen (.nth 0 level) true) fun right _ =>
            Rule.bitExpr.admits (.node e.rule kids :: right) := by
      intro token ht _
      have hp : token.kind.isPlain Rule.bitExpr.looseness := hl level (by simp) _ _ _ ht
      refine ⟨?_, (oneExpression_ladder _).imp ?_⟩
      · simp +decide [hp]
      · rintro _ _ ⟨rule, others, hr, rfl⟩
        simp [hp, Rule.looseness_of_isExpression hr]
    refine ⟨hi, ⟨trivial, by simp, hi⟩, (oneExpression_ladder _).imp ?_, ho ⟨.bitExpr, rfl⟩⟩
    rintro _ _ ⟨rule, kids, hr, rfl⟩
    exact ho ⟨rule, hr⟩ kids

theorem admits_operand : operand.Admits known := by
  refine admits_ladder ?_
  simp +decide [operatorLadder, or_assoc]

/-! ### Simple expressions -/

theorem callOf_iff {keywords : List Keyword} {ts : List Token} : callOf keywords ts ↔
    Lookahead.anyKeyword keywords ts ∧ Lookahead.symbolAt 1 .openParen ts :=
  Bool.and_eq_true_iff

theorem isNumber_iff {kind : Token.Kind} :
    kind.isNumber ↔ kind = .integer ∨ kind = .decimal ∨ kind = .float ∨
      kind = .hexadecimal := by
  cases kind <;> simp [Token.Kind.isNumber]

attribute [local simp] literal kind callTail callOf_iff isNumber_iff Lookahead.number
  Rule.admitsOperand Rule.admitsCall

@[simp ↓] theorem admits_parentheses : parentheses.Admits known := by
  simp +decide [parentheses]

@[simp ↓] theorem admits_textLiteral : textLiteral.Admits known := by
  simp +decide [textLiteral]

@[simp ↓] theorem admits_systemVariable : systemVariable.Admits known := by
  simp +decide [systemVariable]

@[simp ↓] theorem admits_caseExpression : caseExpression.Admits known := by
  simp +decide [caseExpression]

@[simp ↓] theorem admits_orderClause : orderClause.Admits known := by
  simp +decide [orderClause]

@[simp ↓] theorem admits_aggregate : aggregate.Admits (known.seen (callOf aggregates) true) := by
  simp +decide [aggregate, aggregateArguments, aggregates]

@[simp ↓] theorem admits_cast : Grammar.cast.Admits (known.seen (callOf [.CAST]) true) := by
  simp +decide [Grammar.cast]

@[simp ↓] theorem admits_convert : convert.Admits (known.seen (callOf [.CONVERT]) true) := by
  simp +decide [convert]

@[simp ↓] theorem admits_extract : extract.Admits (known.seen (callOf [.EXTRACT]) true) := by
  simp +decide [extract]

@[simp ↓] theorem admits_argumentList : argumentList.Admits known := by
  simp +decide [argumentList, argument]

@[simp ↓] theorem admits_substringArguments : substringArguments.Admits known := by
  simp +decide [substringArguments, argument, commaFor]

@[simp ↓] theorem admits_positionCall :
    positionCall.Admits (known.seen (callOf [.POSITION]) true) := by
  simp +decide [positionCall, argument, commaFor]

/-- A call of a function that asks for nothing. -/
theorem admits_keywordCall
    (h : ∀ ts, known ts → ∀ k ∈ [Keyword.CAST, .CONVERT, .EXTRACT], callOf [k] ts = false) :
    (make .runtimeFunctionCall [anyToken, callTail argumentList]).Admits
      (known.seen (.both (.nth 0 (·.keyword?.isSome)) (.symbolAt 1 .openParen)) true) := by
  refine ⟨by simp, fun token he ha => each_true.imp fun trees _ _ => ?_⟩
  obtain ⟨rest, ht, hk⟩ := ha rfl
  obtain ⟨hkw, ho⟩ := Bool.and_eq_true_iff.1 ht
  obtain ⟨k, hkw⟩ := Option.isSome_iff_exists.1 (show token.keyword?.isSome from hkw)
  have hc (other : Keyword) (hm : other ∈ [Keyword.CAST, .CONVERT, .EXTRACT]) : k ≠ other := by
    rintro rfl
    have hn : callOf [k] (token :: rest) :=
      callOf_iff.2 ⟨oneOf_iff.2 ⟨k, by simp, Token.kind_of_keyword? hkw⟩, ho⟩
    simp [h _ hk k hm] at hn
  simp only [mem_cons, not_mem_nil, or_false, forall_eq_or_imp, forall_eq] at hc
  simp only [Rule.admits, Rule.demand?.eq_def, Option.all_some, Rule.admitsCall, cons_append,
    keywordAhead?_leaf, hkw]
  split <;> simp_all

theorem admits_simpleBase : simpleBase.Admits known := by
  rw [simpleBase, firstOf_take_drop 22]
  refine admits_firstOf ?_ fun after ha => ⟨admits_keywordCall fun ts hts => ?_, ?_⟩
  · simp +decide [clockFunctions]
  · have hn := (ha ts hts).2
    simp only [take_succ_cons, forall_mem_cons] at hn
    simp only [forall_mem_cons]
    tauto
  · simp +decide

theorem oneExpression_simpleBase : simpleBase.Each known OneExpression := by
  simp +decide [OneExpression, simpleBase, textLiteral, parentheses, systemVariable, caseExpression,
    aggregate, Grammar.cast, convert, extract, positionCall, apply_ite Rule.isExpression]

theorem admits_simpleExpression : simpleExpression.Admits known := by
  refine ⟨admits_simpleBase, by simp, oneExpression_simpleBase.imp ?_⟩
  rintro _ _ ⟨rule, kids, hr, rfl⟩
  obtain ⟨e, rfl⟩ : ∃ e : Expression, e.rule = rule := ⟨⟨rule, hr⟩, rfl⟩
  simp +decide

/-- The tree of a name is one that it covers. -/
theorem oneExpression_logical :
    disjunction.Each known OneExpression ∧ negation.Each known OneExpression ∧
    predicate.Each known OneExpression := by
  simp +decide [OneExpression, disjunction, logicalChain, negation, comparison, predicate]

end Expressions

attribute [local simp] isNumber_iff Lookahead.number commaListUntilClose expression find?_cons kind

/-! ### Tables -/

@[simp ↓] theorem isNode_tables :
    IsNode indexHint .indexHint ∧ IsNode indexHintList .indexHintList ∧
    IsNode tableFactor .tableFactor ∧ IsNode joinedTable .joinedTable ∧
    IsNode tableReference .tableReference := by
  refine ⟨Iff.rfl, Iff.rfl, Iff.rfl, ?_, Iff.rfl⟩
  simp [IsNode, joinedTable]

@[simp ↓] theorem admits_indexHintList : indexHintList.Admits known := by
  simp +decide [indexHintList, indexHint, indexHintKeywords]

@[simp ↓] theorem admits_tableFactor : tableFactor.Admits known := by
  simp +decide [tableFactor]

@[simp ↓] theorem admits_joinedTable : joinedTable.Admits known := by
  simp +decide [joinedTable, joinCondition]

theorem admits_tableReferences : tableReferences.Admits known := by
  simp +decide [tableReferences, tableReference]

/-! ### Queries -/

@[simp ↓] theorem isNode_clauses : IsNode fromClause .fromClause ∧ IsNode whereClause .whereClause ∧
    IsNode groupByClause .groupByClause ∧ IsNode havingClause .havingClause ∧
    IsNode limitClause .limitClause ∧ IsNode limitOption .limitOption ∧
    IsNode selectItem .selectItem ∧ IsNode selectItemList .selectItemList ∧
    IsNode tableWild .tableWild ∧ IsNode querySpecification .querySpecification :=
  ⟨Iff.rfl, Iff.rfl, Iff.rfl, Iff.rfl, Iff.rfl, Iff.rfl, and_self_iff, Iff.rfl, Iff.rfl, Iff.rfl⟩

@[simp ↓] theorem admits_clauses : fromClause.Admits known ∧ whereClause.Admits known ∧
    groupByClause.Admits known ∧ havingClause.Admits known ∧ limitClause.Admits known := by
  simp +decide [fromClause, whereClause, groupByClause, havingClause, limitClause, limitOption,
    or_imp, forall_and]

@[simp ↓] theorem admits_selectItemList : selectItemList.Admits known := by
  simp +decide [selectItemList, selectItem, tableWild, isPath, selectAlias]

@[simp ↓] theorem admits_querySpecification : querySpecification.Admits known := by
  simp +decide [querySpecification, optionalWhere]

theorem admits_queryExpression : queryExpression.Admits known := by
  simp +decide [queryExpression, queryTerm, Rule.admitsQuery, Rule.admitsUnion, isMember,
    optionalOrder, optionalLimit]

@[simp ↓] theorem admits_selectStatement : selectStatement.Admits known := by
  simp +decide [selectStatement, optionalLocking]

/-! ### Changes of rows -/

@[simp ↓] theorem isNode_changes : IsNode updateElement .updateElement ∧
    IsNode updateList .updateList ∧ IsNode insertValues .insertValues :=
  ⟨Iff.rfl, Iff.rfl, Iff.rfl⟩

@[simp ↓] theorem admits_updateList : updateList.Admits known := by
  simp +decide [updateList, updateElement, valueOrDefault, filter_cons]

@[simp ↓] theorem admits_insertValues : insertValues.Admits known := by
  simp +decide [insertValues, valueOrDefault]

@[simp ↓] theorem admits_insertSource : insertSource.Admits known := by
  simp +decide [insertSource, insertRowsOrQuery, insertFields, atValues]

@[simp ↓] theorem admits_insertStatements : insertStatement.Admits known ∧
    replaceStatement.Admits known := by
  simp +decide [insertStatement, replaceStatement]

@[simp ↓] theorem admits_filteredStatements : updateStatement.Admits known ∧
    deleteStatement.Admits known := by
  simp +decide [updateStatement, deleteStatement, optionalWhere, optionalOrder, optionalLimit]

/-! ### Columns -/

@[simp ↓] theorem isNode_columns : IsNode clockCall .runtimeFunctionCall ∧
    IsNode references .references ∧ IsNode constraintName .constraintName ∧
    IsNode generatedColumn .generatedColumn ∧ IsNode columnDefinition .columnDefinition :=
  ⟨Iff.rfl, Iff.rfl, Iff.rfl, Iff.rfl, Iff.rfl⟩

@[simp ↓] theorem admits_clockCall : clockCall.Admits known := by
  simp +decide [clockCall, clockKeywords, Rule.admitsCall]

@[simp ↓] theorem admits_references : references.Admits known := by
  simp +decide [references, referentialAction]

@[simp ↓] theorem admits_constraintName : constraintName.Admits known := by
  simp +decide [constraintName, Rule.admitsConstraintName]

@[simp ↓] theorem admits_generatedColumn : generatedColumn.Admits known := by
  simp +decide [generatedColumn]

@[simp ↓] theorem each_defaultValue : defaultValue.Each known post ↔
    (∀ kids, post [.node .exprWithParentheses kids] .any) ∧
      (∀ kids, post [.node .signedLiteral kids] .any) ∧
      (∀ kids, post [.node .runtimeFunctionCall kids] .any) ∧
      ∀ (e : Expression) kids, post [.node e.rule kids] .any := by
  simp [defaultValue]

@[simp ↓] theorem admits_defaultValue : defaultValue.Admits known := by
  refine admits_firstOf ?_ fun _ _ => trivial
  simp +decide [clockKeywords]

@[simp ↓] theorem admits_columnAttributes : (firstOf .nothing columnAttributes).Admits known := by
  refine admits_firstOf ?_ fun _ _ => trivial
  simp +decide [columnAttributes, Rule.admitsAttribute, findSome?_cons, firstKeyword?, firstToken?,
    childTokens, children, isPrimaryKeyAttribute, hasKeyword, hasToken_eq_any, or_imp, forall_and]

@[simp ↓] theorem admits_columnDefinition : columnDefinition.Admits known := by
  unfold columnDefinition
  simp +decide [columnAttributes]

/-! ### Indexes and constraints -/

@[simp ↓] theorem isNode_indexes : IsNode indexTypeClause .indexTypeClause ∧
    IsNode keyPart .keyPart ∧ IsNode keyList .keyList ∧
    IsNode tableConstraint .tableConstraintDef ∧ IsNode tableElementList .tableElementList :=
  ⟨Iff.rfl, Iff.rfl, Iff.rfl, Iff.rfl, Iff.rfl⟩

@[simp ↓] theorem each_optionalIndexType : optionalIndexType.Each known post ↔
    (∀ kids, post [.node .indexTypeClause kids] .any) ∧
      post [] (known.seen (.anyKeyword [.USING, .TYPE]) false) := Iff.rfl

@[simp ↓] theorem each_indexOptionList : indexOptionList.Each known post ↔
    ∀ rows : Rows (fun tokens => indexOptions.any (·.1 tokens)) (firstOf .nothing indexOptions),
      post rows.trees .any := Iff.rfl

@[simp ↓] theorem admits_indexOptions : optionalIndexType.Admits known ∧
    indexOptionList.Admits known := by
  simp +decide [optionalIndexType, indexTypeClause, indexOptionList, indexOptions, integerToken]

@[simp ↓] theorem admits_keyPart : keyPart.Admits known := by
  unfold keyPart
  simp +decide [optionalLength, Rule.admitsKeyPart]

/-- More columns of a key, each after a comma. -/
@[simp] theorem admitsKeyParts_rows {test : Lookahead} {body : Phrase} {rows : Rows test body}
    {kids : List Tree} {value : String} {position : Nat}
    (h : body.Each (Known.any.seen test true) fun row _ => ∃ comma part, row = [comma, part] ∧
      comma.hasKind (.symbol .comma) ∧ part.hasRule .keyPart) :
    Rule.admitsKeyParts (.node .keyPart kids :: (rows.trees ++
      [leaf ⟨.symbol .closeParen, value, position⟩])) := by
  obtain ⟨rows, reads⟩ := rows
  change Rule.admitsKeyParts (.node .keyPart kids :: (rows.flatten ++ _))
  induction rows generalizing kids with
  | nil => simp [Rule.admitsKeyParts]
  | cons row rows ih =>
    obtain ⟨ts, rest, ht, hb⟩ := reads row (by simp)
    obtain ⟨-, -, comma, part, rfl, hc, hp⟩ := h.of_derives ⟨ht, trivial⟩ hb
    cases part with
    | leaf token => cases hp
    | node rule inside =>
      obtain rfl : rule = .keyPart := by simpa using hp
      simpa [Rule.admitsKeyParts, hc] using ih fun other hm => reads other (by simp [hm])

@[simp ↓] theorem admits_keyList : keyList.Admits known := by
  unfold keyList
  simp +decide [Rule.admitsKeys]

@[simp ↓] theorem admits_tableConstraint : tableConstraint.Admits known := by
  simp +decide [tableConstraint, constraintOf, nameableConstraints, plainIndexes, indexTail,
    optionalIndexName, Rule.admitsConstraint, Rule.admitsDeclared, indexOptions]

@[simp ↓] theorem admits_tableElementList : tableElementList.Admits known := by
  simp +decide [tableElementList]

/-! ### Definitions -/

@[simp ↓] theorem isNode_definitions : IsNode tableOption .createTableOption ∧
    IsNode tableQuery .duplicateAsQueryExpression ∧ IsNode createTable .createTable ∧
    IsNode createIndex .createIndex :=
  ⟨Iff.rfl, Iff.rfl, Iff.rfl, Iff.rfl⟩

@[simp ↓] theorem admits_tableOptions : tableOption.Admits known ∧
    optionalTableOptions.Admits known := by
  simp +decide [tableOption, optionalTableOptions, integerToken]

@[simp ↓] theorem each_optionalTableOptions : optionalTableOptions.Each known post ↔
    (∀ kids, post [.node .createTableOptions kids] .any) ∧
      post [] (known.seen atTableOption false) := Iff.rfl

@[simp ↓] theorem admits_createTable : createTable.Admits known := by
  simp +decide [createTable, optionalIfNotExists, tableQuery, Rule.admitsTable]

@[simp ↓] theorem admits_createIndex : createIndex.Admits known := by
  simp +decide [createIndex]

@[simp ↓] theorem admits_createStatement : createStatement.Admits known := by
  simp +decide [createStatement, Rule.admitsVerb]

@[simp ↓] theorem admits_alterItem : alterItem.Admits known := by
  simp +decide [alterItem, alterAdd, alterDrop, alterRename, optionalPlace, Rule.admitsAction]

@[simp ↓] theorem admits_alterStatement : alterStatement.Admits known := by
  simp +decide [alterStatement]

@[simp ↓] theorem admits_dropStatement : dropStatement.Admits known := by
  simp +decide [dropStatement, optionalIfExists, Rule.admitsVerb]

/-! ### Statements -/

@[simp ↓] theorem isNode_statements : IsNode selectStatement .selectStatement ∧
    IsNode insertStatement .insertStatement ∧ IsNode replaceStatement .replaceStatement ∧
    IsNode updateStatement .updateStatement ∧ IsNode deleteStatement .deleteStatement ∧
    IsNode createStatement .createStatement ∧ IsNode alterStatement .alterStatement ∧
    IsNode dropStatement .dropStatement ∧ IsNode simpleStatement .simpleStatement :=
  ⟨Iff.rfl, Iff.rfl, Iff.rfl, Iff.rfl, Iff.rfl, Iff.rfl, Iff.rfl, Iff.rfl, Iff.rfl⟩

theorem admits_query : query.Admits .any := by
  simp +decide [query, simpleStatement, setStatement]

theorem admits_productions (name : Name) : (productions name).Admits .any := by
  cases name with
  | expression => exact admits_disjunction
  | negation => exact admits_negation
  | predicate => exact admits_predicate
  | operand => exact admits_operand
  | simpleExpression => exact admits_simpleExpression
  | queryExpression => exact admits_queryExpression
  | tableReferences => exact admits_tableReferences

/-- What a name stands for reads a tree that the name covers. -/
theorem covers_productions (name : Name) : (productions name).Each .any fun trees _ =>
    ∃ rule kids, name.covers rule ∧ trees = [.node rule kids] := by
  cases name with
  | expression => exact oneExpression_logical.1
  | negation => exact oneExpression_logical.2.1
  | predicate => exact oneExpression_logical.2.2
  | operand => exact oneExpression_ladder _
  | simpleExpression => exact ⟨oneExpression_simpleBase, fun kids => ⟨.simpleExpr, kids, rfl, rfl⟩⟩
  | queryExpression | tableReferences => exact fun kids => ⟨_, kids, rfl, rfl⟩

/-- Names are read as trees that they cover, admitted throughout. -/
theorem derives_productions {phrase : Phrase} {fuel : Nat} {ts rest : List Token}
    {trees : List Tree} (h : phrase.read productions fuel ts = .ok (trees, rest)) :
    phrase.Derives IsCovered ts trees rest := by
  refine derives_of_read (fun name ts trees rest hd => ?_) h
  obtain ⟨-, -, rule, kids, hc, rfl⟩ := (covers_productions name).of_derives trivial hd
  exact ⟨rule, kids, hc, rfl, (admits_productions name).of_derives trivial hd _ (by simp)⟩

/-- Every node of the tree of a statement is what its rule admits. -/
theorem admitted_of_parse {text : String} {tree : Tree} (h : parse text = .ok tree) :
    tree.Admitted := by
  obtain ⟨ts, -, h⟩ := bind_eq_ok h
  obtain ⟨⟨trees, rest⟩, hr, h⟩ := bind_eq_ok h
  have ha := admits_query.of_derives trivial (derives_productions hr)
  dsimp only at h
  split at h
  · cases h
    exact ha tree (by simp)
  · cases h

end SqlBridge.Grammar
