/-
Plain phrases: those that keep every token as it is.

A phrase is plain if no part of it turns a keyword into a comma, its nodes are no loose runs, and
its lists of arguments have nothing but commas between the arguments.  Which phrases of the grammar
are plain is settled here, production by production; the two that are not are the calls of
`POSITION` and `SUBSTRING`.
-/
import SqlBridge.Grammar.Statement
import SqlBridge.Proofs.Grammar.Read

namespace SqlBridge.Grammar

variable {parts : List Phrase}

namespace Phrase

variable {item : Phrase}

/-- Every leaf that the phrase reads itself is a comma. -/
@[simp] def CommasOnly : Phrase → Prop
  | .nothing | .refuse _ | .asComma _ _ _ | .node _ _ => True
  | .token accepts _ => ∀ token, accepts token → token.isSymbol .comma
  | .seq first second => first.CommasOnly ∧ second.CommasOnly
  | .choose _ yes no => yes.CommasOnly ∧ no.CommasOnly
  | .loop _ body => body.CommasOnly
  | .ref _ | .extend _ _ _ _ | .climb _ _ _ _ => False

/-- A rule for nodes with any children. -/
@[simp] def IsPlain (rule : Rule) : Prop := rule ≠ .fragment ∧ rule ≠ .udfExprList

@[simp] def Plain : Phrase → Prop
  | .nothing | .token _ _ | .ref _ | .refuse _ => True
  | .asComma _ _ _ => False
  | .seq first second => first.Plain ∧ second.Plain
  | .choose _ yes no => yes.Plain ∧ no.Plain
  | .loop _ body => body.Plain
  | .node rule body =>
    ((∀ trees, IsPlain (rule trees)) ∨ (∀ trees, rule trees = .udfExprList) ∧ body.CommasOnly) ∧
      body.Plain
  | .extend _ rule base tail => IsPlain rule ∧ base.Plain ∧ tail.Plain
  | .climb _ rule base tail => IsPlain rule ∧ base.Plain ∧ tail.Plain

/-! ### Built phrases -/

@[simp] theorem plain_row :
    (row parts).Plain ↔ ∀ part ∈ parts, part.Plain := by
  induction parts with
  | nil => simp [row]
  | cons part rest ih =>
    cases rest with
    | nil => simp [row]
    | cons next rest => simpa [row] using fun _ => ih

@[simp] theorem plain_make {rule : Rule} : (make rule parts).Plain ↔
    (IsPlain rule ∨ rule = .udfExprList ∧ (row parts).CommasOnly) ∧ ∀ part ∈ parts, part.Plain := by
  simp [make]

@[simp] theorem commasOnly_make (rule : Rule) (parts : List Phrase) :
    (make rule parts).CommasOnly := trivial

@[simp] theorem plain_firstOf {otherwise : Phrase} {entries : List (Lookahead × Phrase)} :
    (firstOf otherwise entries).Plain ↔ otherwise.Plain ∧ ∀ entry ∈ entries, entry.2.Plain := by
  induction entries with
  | nil => simp [firstOf]
  | cons entry rest ih =>
    rw [firstOf, Plain, ih, List.forall_mem_cons]
    exact and_left_comm

@[simp] theorem plain_keyword (k : Keyword) : (keyword k).Plain := trivial

@[simp] theorem plain_anyKeyword (ks : List Keyword) : (anyKeyword ks).Plain := trivial

@[simp] theorem plain_symbol (s : Symbol) : (symbol s).Plain := trivial

@[simp] theorem plain_anyToken : anyToken.Plain := trivial

@[simp] theorem plain_expected (what : String) : (expected what).Plain := trivial

@[simp] theorem plain_unsupported (what : String) : (unsupported what).Plain := trivial

@[simp] theorem plain_optional {test : Lookahead} {phrase : Phrase} :
    (Phrase.optional test phrase).Plain ↔ phrase.Plain := by
  simp [Phrase.optional]

@[simp] theorem plain_optionalKeyword (k : Keyword) : (optionalKeyword k).Plain := by
  simp [optionalKeyword]

@[simp] theorem plain_optionalKeywordOf (ks : List Keyword) : (optionalKeywordOf ks).Plain := by
  simp [optionalKeywordOf]

@[simp] theorem plain_optionalSymbol (s : Symbol) : (optionalSymbol s).Plain := by
  simp [optionalSymbol]

@[simp] theorem plain_commaList : (commaList item).Plain ↔ item.Plain := by
  simp [commaList]

/-- A list of nodes with commas between has no other leaves. -/
@[simp] theorem commasOnly_commaList :
    (commaList item).CommasOnly ↔ item.CommasOnly := by
  simp [commaList, symbol]

@[simp] theorem plain_commaListUntilClose :
    (commaListUntilClose item).Plain ↔ item.Plain := by
  simp [commaListUntilClose]

@[simp] theorem plain_parenthesized {phrase : Phrase} :
    (parenthesized phrase).Plain ↔ phrase.Plain := by
  simp [parenthesized]

end Phrase

open Phrase

/-! ### Names and types -/

@[simp] theorem plain_names : identifier.Plain ∧ dottedIdentifier.Plain ∧ tableRef.Plain := by
  simp [identifier, dottedIdentifier, tableRef, qualifiedName]

@[simp] theorem plain_columnRef : columnRef.Plain := by simp [columnRef]

@[simp] theorem plain_types : identifierListInParentheses.Plain ∧ tableAlias.Plain ∧
    textString.Plain ∧ collationName.Plain ∧ charsetName.Plain ∧ charsetKeyword.Plain ∧
    optionalLength.Plain ∧ dataType.Plain ∧ castType.Plain := by
  simp [identifierListInParentheses, tableAlias, textString, collationName, charsetName,
    charsetKeyword, optionalLength, fieldLength, dataType, optionalFieldOptions,
    optionalLengthOrPrecision, lengthOrPrecision, integerToken, optionalCharset,
    optionalDatetimePrecision, datetimePrecision, stringList, castType]

/-! ### Expressions -/

@[simp] theorem plain_expression : expression.Plain := trivial

@[simp] theorem plain_parts : expressionList.Plain ∧ expressionInParentheses.Plain ∧
    subquery.Plain ∧ interval.Plain ∧ orderClause.Plain := by
  simp [expressionList, expressionInParentheses, subquery, interval, intervalUnit, orderClause]

theorem plain_disjunction : disjunction.Plain := by simp [disjunction, logicalChain]

theorem plain_negation : negation.Plain := by simp [negation, comparison]

theorem plain_predicate : predicate.Plain := by simp [predicate, predicateTail]

theorem plain_operand : operand.Plain := by
  have hl : ∀ levels, (ladder levels).Plain := by
    intro levels
    induction levels with
    | nil => trivial
    | cons level tighter ih => simp [ladder, ih]
  exact hl operatorLadder

@[simp] theorem plain_parentheses : parentheses.Plain := by
  have hr (trees : List Tree) : IsPlain
      (if trees.any (Tree.hasRule .exprList) then .simpleExpr else .exprWithParentheses) := by
    split <;> simp
  simp only [parentheses, Plain]
  exact ⟨.inl hr, by simp⟩

@[simp] theorem plain_literal {rule : Rule} :
    (literal rule parts).Plain ↔ (make rule parts).Plain := by
  simp [literal]

@[simp] theorem plain_systemVariable : systemVariable.Plain := by simp [systemVariable]

@[simp] theorem plain_caseExpression : caseExpression.Plain := by simp [caseExpression]

@[simp] theorem plain_aggregate : aggregate.Plain := by simp [aggregate, aggregateArguments]

@[simp] theorem plain_cast : Grammar.cast.Plain := by simp [Grammar.cast]

@[simp] theorem plain_convert : convert.Plain := by simp [convert]

@[simp] theorem plain_extract : extract.Plain := by simp [extract, intervalUnit]

/-- Arguments with commas between them. -/
@[simp] theorem plain_argumentList : argumentList.Plain := by
  simp [argumentList, argument, row]

@[simp] theorem plain_callTail {args : Phrase} :
    (callTail args).Plain ↔ args.Plain := by
  simp [callTail]

/-! ### Queries -/

@[simp] theorem plain_clauses : optionalWhere.Plain ∧ optionalOrder.Plain ∧
    optionalLimit.Plain := by
  simp [optionalWhere, whereClause, optionalOrder, optionalLimit, limitClause, limitOption]

theorem plain_tableReferences : tableReferences.Plain := by
  simp [tableReferences, tableReference, tableFactor, joinedTable, joinCondition, indexHintList,
    indexHint]

theorem plain_queryExpression : queryExpression.Plain := by
  simp [queryExpression, queryTerm, querySpecification, selectItemList, selectItem, selectAlias,
    aliasName, tableWild, fromClause, groupByClause, havingClause]

@[simp] theorem plain_selectStatement : selectStatement.Plain := by
  simp [selectStatement, optionalLocking]

/-! ### Changes of rows -/

@[simp] theorem plain_updateList : updateList.Plain := by
  simp [updateList, updateElement, valueOrDefault]

@[simp] theorem plain_insertSource : insertSource.Plain := by
  have hru (trees : List Tree) : IsPlain (if trees.any (Tree.hasRule .insertValues) then
      .insertFromConstructor else .insertQueryExpression) := by
    split <;> simp
  have hr : insertRowsOrQuery.Plain := by
    simp only [insertRowsOrQuery, Plain]
    exact ⟨.inl hru, by simp [insertFields, insertValues, valueOrDefault]⟩
  simp [insertSource, hr]

/-! ### Definitions -/

@[simp] theorem plain_definitions : clockCall.Plain ∧ references.Plain ∧ columnDefinition.Plain ∧
    indexName.Plain ∧ keyList.Plain ∧ optionalIndexType.Plain ∧ indexOptionList.Plain ∧
    tableConstraint.Plain ∧ tableElementList.Plain ∧ tableOption.Plain ∧
    optionalTableOptions.Plain ∧ createStatement.Plain ∧ alterStatement.Plain ∧
    dropStatement.Plain := by
  simp [clockCall, row, references, referentialAction, columnDefinition, generatedColumn,
    columnAttributes, defaultValue, constraintName, indexName, keyList, keyPart, optionalIndexType,
    indexTypeClause, indexOptionList, indexOptions, integerToken, tableConstraint, constraintOf,
    nameableConstraints, plainIndexes, indexTail, optionalIndexName, tableElementList, tableOption,
    optionalTableOptions, createStatement, createTable, createIndex, optionalIfNotExists,
    qualifiedName, tableQuery, alterStatement, alterItem, alterAdd, alterDrop, alterRename,
    optionalPlace, dropStatement, optionalIfExists]

/-- A statement is plain up to its expressions. -/
theorem plain_query : query.Plain := by
  simp [query, simpleStatement, insertStatement, replaceStatement, updateStatement, deleteStatement,
    setStatement]

end SqlBridge.Grammar
