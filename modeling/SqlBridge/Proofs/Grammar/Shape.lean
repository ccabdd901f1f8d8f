/-
The shape of the syntax trees of statements.

Whoever writes a tree takes for granted what stands below its nodes: the definition of a column has
a name and a type, a call of `CAST` an operand and a type.  `Rule.demand?` is the list of all that,
rule by rule; it looks at the children of a node and not below them.  Most nodes are written as
their children one after the other, and then the parentheses among the children have to match
(`Rule.layout`).

* `Tree.isWritten`: a tree that does not stand for nothing.
* `Rule.looseness`: which commas and keywords may stand outside parentheses in what is written.
* `Tree.isTidy`: parentheses match, and what stands outside them is tight enough.
* `Tree.Admitted`: every node of a tree is what its rule admits.
-/
import SqlBridge.Catalog.TypeName
import SqlBridge.Declaration
import SqlBridge.Grammar.Statement
import SqlBridge.Proofs.Sql.Even

namespace SqlBridge

open List

namespace Rule

/-- The rules of expressions. -/
def isExpression : Rule → Bool
  | .expr | .boolPri | .predicate | .bitExpr | .simpleExpr | .exprWithParentheses | .subquery
  | .literal | .columnRef | .functionCall | .runtimeFunctionCall | .sumExpr | .caseExpression
  | .systemVariable | .userVariable => true
  | _ => false

/-- The rules of nodes that are written, or refused, and never left out. -/
def isWritten : Rule → Bool
  -- statements and their clauses
  | .selectStatement | .insertStatement | .replaceStatement | .updateStatement | .deleteStatement
  | .createStatement | .dropStatement | .queryExpression | .queryExpressionParens
  | .querySpecification | .whereClause | .orderClause | .limitClause | .insertFromConstructor
  | .insertQueryExpression | .insertUpdateList | .updateList | .updateElement => true
  -- names, tables and definitions
  | .identifier | .tableRef | .tableAlias | .tableReferenceList | .tableReference | .tableFactor
  | .singleTable | .derivedTable | .tableReferenceListParens | .keyList | .references
  | .generatedColumn => true
  -- parts of expressions
  | .textLiteral | .textStringLiteral | .numLiteral | .nullLiteral | .boolLiteral
  | .temporalLiteral | .interval => true
  | rule => rule.isExpression

theorem isWritten_of_isExpression {rule : Rule} (h : rule.isExpression) :
    rule.isWritten := by
  cases rule <;> first | rfl | cases h

/-- What may stand outside parentheses in what is written for a node. -/
def looseness : Rule → Looseness
  | .query | .simpleStatement | .selectStatement | .queryExpression | .queryExpressionParens
  | .unionClause | .insertStatement | .replaceStatement | .insertQueryExpression
  | .createStatement | .createTable | .duplicateAsQueryExpression => .compound
  | .querySpecification | .selectItemList | .fromClause | .tableReferenceList | .identifierList
  | .groupByClause | .orderClause | .orderList | .limitClause | .limitOptions
  | .insertFromConstructor | .fields | .insertValues | .valueList | .values | .insertUpdateList
  | .updateList | .updateStatement | .deleteStatement | .tableRefList | .tableElementList
  | .exprList | .udfExprList => .list
  | .tableElement | .columnDefinition | .fieldDefinition | .dataType | .columnAttribute
  | .tableConstraintDef => .definition
  | _ => .item

theorem looseness_of_isExpression {rule : Rule} (h : rule.isExpression) :
    rule.looseness = .item := by
  cases rule <;> first | rfl | cases h

@[simp] theorem fits_of_item {rule : Rule} {loose : Looseness} (h : rule.looseness = .item) :
    rule.looseness.fits loose := by
  rw [h, Looseness.item_fits]

/-- The rules of nodes that are written, or refused, with no comma outside parentheses. -/
def isOperand (rule : Rule) : Bool := rule.isWritten && rule.looseness == .item

theorem isOperand_of_isExpression {rule : Rule} (h : rule.isExpression) :
    rule.isOperand := by
  cases rule <;> first | rfl | cases h

/-- Whether a row of trees has a node of a rule. -/
def isIn (rule : Rule) (row : List Tree) : Bool := row.any (Tree.hasRule rule)

end Rule

theorem Token.kind_of_keyword? {tok : Token} {kw : Keyword}
    (h : tok.keyword? = some kw) : tok.kind = .keyword kw := by
  unfold keyword? at h
  split at h
  · rename_i other hk
    rw [hk, Option.some.inj h]
  · cases h

namespace Tree

/-- Whether a tree is written, or refused, and never left out. -/
def isWritten : Tree → Bool
  | .leaf tok => !tok.isEnding && !tok.isSymbol .semicolon
  | .node rule _ => rule.isWritten

/-- The keywords of a row of trees. -/
def keywords (row : List Tree) : List Keyword := (row.filterMap token?).filterMap Token.keyword?

/-- The keyword that a row of trees begins with. -/
def keywordAhead? (row : List Tree) : Option Keyword := (row.head?.bind token?).bind Token.keyword?

/-- Whether a tree is the quantifier of a comparison with a subquery. -/
def isQuantifier (tree : Tree) : Bool :=
  tree.token?.any (Grammar.Lookahead.oneOf [.ANY, .SOME, .ALL])

/-- Whether a tree is a node that is written, or refused, with no comma outside parentheses. -/
def isOperand (tree : Tree) : Bool := tree.rule?.any Rule.isOperand

/-- Whether a tree is a member of a compound select. -/
def isMember (tree : Tree) : Bool :=
  tree.hasRule .querySpecification || tree.hasRule .queryExpressionParens

/-- Whether the first node of a row of trees is an operand. -/
def leads (row : List Tree) : Bool := (row.find? isNode).any isOperand

section Trees

variable {rule other : Rule} {kids row : List Tree} {tok : Token} {kind : Token.Kind}

@[simp] theorem isNode_node : (node rule kids).isNode := rfl

@[simp] theorem isNode_leaf : (leaf tok).isNode = false := rfl

@[simp] theorem token?_node : (node rule kids).token? = none := rfl

@[simp] theorem token?_leaf : (leaf tok).token? = some tok := rfl

@[simp] theorem hasRule_node : (node rule kids).hasRule other = decide (rule = other) := by
  simp only [hasRule, rule?]
  rfl

@[simp] theorem hasRule_leaf : (leaf tok).hasRule other = false := rfl

/-- A node of a rule is known by its children. -/
theorem exists_of_hasRule {tree : Tree} (h : tree.hasRule rule) :
    ∃ row, tree = .node rule row := by
  cases tree with
  | leaf tok => cases h
  | node other row => exact ⟨row, by simpa using h⟩

@[simp] theorem hasKind_node : (node rule kids).hasKind kind = false := rfl

@[simp] theorem hasKind_leaf : (leaf tok).hasKind kind = (tok.kind == kind) := rfl

/-- A token among the children. -/
theorem hasToken_eq_any {tree : Tree} : tree.hasToken kind = tree.children.any (hasKind kind) := by
  rw [Bool.eq_iff_iff, hasToken, childToken?, find?_isSome, any_eq_true]
  constructor
  · rintro ⟨tok, ht, hk⟩
    obtain ⟨child, hc, htr⟩ := mem_filterMap.1 ht
    exact ⟨child, hc, by rw [hasKind, htr]; exact hk⟩
  · rintro ⟨child, hc, hk⟩
    obtain ⟨tok, ht, hk⟩ := (Option.any_eq_true _ _).1 hk
    exact ⟨tok, mem_filterMap.2 ⟨child, hc, ht⟩, hk⟩

@[simp] theorem isQuantifier_node : (node rule kids).isQuantifier = false := rfl

@[simp] theorem isWritten_node : (node rule kids).isWritten = rule.isWritten := rfl

@[simp] theorem isOperand_node : (node rule kids).isOperand = rule.isOperand := rfl

@[simp] theorem leads_node : leads (.node rule kids :: row) = rule.isOperand := rfl

@[simp] theorem leads_leaf : leads (.leaf tok :: row) = leads row := rfl

theorem isWritten_of_isOperand {tree : Tree} (h : tree.isOperand) :
    tree.isWritten := by
  cases tree with
  | leaf tok => cases h
  | node rule kids => exact (Bool.and_eq_true_iff.1 h).1

theorem any_isWritten_of_leads (h : leads row) : row.any isWritten := by
  obtain ⟨tree, hf, ho⟩ := (Option.any_eq_true _ _).1 h
  exact any_eq_true.2
    ⟨tree, mem_of_find?_eq_some hf, isWritten_of_isOperand ho⟩

@[simp] theorem keywords_node : keywords (.node rule kids :: row) = keywords row := rfl

@[simp] theorem keywords_leaf :
    keywords (.leaf tok :: row) = tok.keyword?.toList ++ keywords row := by
  cases h : tok.keyword? <;> simp [keywords, h]

@[simp] theorem keywordAhead?_leaf : keywordAhead? (.leaf tok :: row) = tok.keyword? := rfl

theorem isWritten_keyword {kw : Keyword} (h : tok.kind = .keyword kw) :
    (leaf tok).isWritten := by
  simp [isWritten, Token.isEnding, Token.isSymbol, h]

theorem isWritten_symbol {sym : Symbol} (h : tok.kind = .symbol sym)
    (hs : sym ≠ .semicolon) : (leaf tok).isWritten := by
  simp [isWritten, Token.isEnding, Token.isSymbol, h, hs]

end Trees

end Tree

/-! ### Rows of children -/

/-- How what is written for a node is made from its children. -/
inductive Layout where
  /-- In another way than those below, or not at all. -/
  | own
  /-- Names with dots between them. -/
  | path
  /-- One after the other, with no parentheses among them. -/
  | plain
  /-- One after the other. -/
  | row
deriving DecidableEq

namespace Rule

def layout : Rule → Layout
  -- nodes that stand for nothing
  | .fragment | .lockingClause | .insertLockOption | .deleteStatementOption | .fieldLength
  | .precision | .typeDatetimePrecision | .fieldOptions | .stringList | .charsetWithOptBinary
  | .charsetName | .collationName | .indexTypeClause | .indexType | .indexOption
  | .createTableOptions | .createTableOption | .engineRef | .place | .setStatement => .own
  -- queries and statements
  | .queryExpressionParens | .selectOption | .selectAlias | .tableAlias | .indexHintList
  | .indexHint | .olapOption | .insertStatement | .replaceStatement | .fields | .insertUpdateList
  | .updateElement | .tableElementList | .columnDefinition | .dataType | .columnAttribute
  | .tableConstraintDef
  | .duplicateAsQueryExpression | .createIndex | .alterStatement | .alterTable | .alterList
  | .alterListItem | .dropTable | .dropIndex => .own
  -- expressions
  | .textStringLiteral | .boolLiteral | .temporalLiteral | .identifier | .functionCall
  | .runtimeFunctionCall | .sumExpr | .castType | .interval | .intervalTimeStamp | .systemVariable
  | .userVariable => .own
  | .tableRef | .tableName | .columnRef | .tableWild => .path
  | .references | .updateStatement | .bitExpr => .plain
  | _ => .row

end Rule

/-- Neither a parenthesis nor a dot, and nothing that is too loose. -/
def Token.Kind.isPlain (loose : Looseness) : Token.Kind → Bool
  | .symbol .openParen | .symbol .closeParen | .symbol .dot => false
  | .symbol .comma => Looseness.list.fits loose
  | .keyword .PRIMARY => Looseness.definition.fits loose
  | .keyword .UNION => Looseness.compound.fits loose
  | _ => true

namespace Tree

/-- Whether a tree can stand outside parentheses in a row. -/
def isPlain (loose : Looseness) : Tree → Bool
  | .leaf tok => tok.kind.isPlain loose
  | .node rule _ => rule.looseness.fits loose

/-- Whether the parentheses of a row match that begins inside some, and whether what stands outside
all of them is plain. -/
def isTidy (loose : Looseness) : Nat → List Tree → Bool
  | depth, [] => depth == 0
  | depth, tree :: rest =>
    if tree.hasKind (.symbol .openParen) then isTidy loose (depth + 1) rest
    else if tree.hasKind (.symbol .closeParen) then depth != 0 && isTidy loose (depth - 1) rest
    else tree.isPlain (loose.within depth) && isTidy loose depth rest

section Tidy

variable {loose : Looseness} {depth : Nat} {tree : Tree} {row rest : List Tree}

@[simp] theorem isPlain_node {rule : Rule} {kids : List Tree} :
    isPlain loose (.node rule kids) = rule.looseness.fits loose := rfl

theorem isTidy_open (h : tree.hasKind (.symbol .openParen)) :
    isTidy loose depth (tree :: rest) = isTidy loose (depth + 1) rest := by
  rw [isTidy, if_pos h]

theorem isTidy_close (h : tree.hasKind (.symbol .closeParen)) :
    isTidy loose (depth + 1) (tree :: rest) = isTidy loose depth rest := by
  have ho : tree.hasKind (.symbol .openParen) = false := by
    cases tree with
    | leaf tok => simp_all
    | node rule kids => rfl
  rw [isTidy, ho]
  simp [h]

theorem isTidy_cons (h : tree.isPlain (loose.within depth)) :
    isTidy loose depth (tree :: rest) = isTidy loose depth rest := by
  have hk : tree.hasKind (.symbol .openParen) = false ∧
      tree.hasKind (.symbol .closeParen) = false := by
    cases tree with
    | leaf tok =>
      have hki : tok.kind.isPlain (loose.within depth) := h
      constructor
      all_goals
        rw [hasKind_leaf, beq_eq_false_iff_ne]
        intro heq
        rw [heq] at hki
        cases hki
    | node rule kids => exact ⟨rfl, rfl⟩
  rw [isTidy, hk.1, hk.2, h]
  simp

/-- A row of plain trees leaves the parentheses as they are. -/
theorem isTidy_append (h : row.all (isPlain (loose.within depth))) :
    isTidy loose depth (row ++ rest) = isTidy loose depth rest := by
  induction row with
  | nil => rfl
  | cons tree others ih =>
    rw [all_cons, Bool.and_eq_true] at h
    rw [cons_append, isTidy_cons h.1, ih h.2]

end Tidy

/-- Names with dots between them, the last of them maybe a star. -/
def isPath : List Tree → Bool
  | [] => false
  | [last] => last.hasRule .identifier || last.hasKind (.symbol .star)
  | name :: dot :: rest =>
    name.hasRule .identifier && dot.hasKind (.symbol .dot) && isPath rest

end Tree

/-! ### Children of nodes -/

open SqlBridge.Tree

namespace Rule

/-- Whether a constraint has what its first keyword asks for. -/
def admitsDeclared (row : List Tree) : Keyword → Bool
  | .FOREIGN => isIn .keyList row && isIn .references row
  | .CHECK => isIn .exprWithParentheses row
  | _ => isIn .keyList row

/-- A constraint, of which the first keyword says what it is. -/
def admitsConstraint (row : List Tree) : Bool :=
  match keywords row with
  | first :: rest => admitsDeclared row first && rest.all (· != .PRIMARY)
  | [] => false

theorem admitsDeclared_of_head {row : List Tree} {kw : Keyword}
    (h : admitsConstraint row) (hf : (keywords row).head? = some kw) :
    admitsDeclared row kw := by
  unfold admitsConstraint at h
  cases hk : keywords row with
  | nil => simp [hk] at hf
  | cons first rest =>
    obtain rfl : first = kw := by simpa [hk] using hf
    rw [hk] at h
    exact (Bool.and_eq_true_iff.1 h).1

/-- The word before the name of a constraint, maybe without the name. -/
def admitsConstraintName : List Tree → Bool
  | [word] => word.hasKind (.keyword .CONSTRAINT)
  | [word, name] => word.hasKind (.keyword .CONSTRAINT) && name.hasRule .identifier
  | _ => false

/-- Whether an attribute that does not make its column the key can be written as it stands. -/
def admitsAttribute (row : List Tree) : Bool :=
  match (node .columnAttribute row).firstKeyword? with
  | some .PRIMARY | some .KEY => (node .columnAttribute row).isPrimaryKeyAttribute
  | _ => isTidy .item 0 row && !(node .columnAttribute row).isPrimaryKeyAttribute

/-- Whether a keyword is the name of a type that a column can have. -/
def namesType (keyword : Keyword) : Bool := (TypeName.ofKeywords [keyword]).toBool

/-- Whether an action on a table has what its first token asks for. -/
def admitsAction (row : List Tree) : Bool :=
  match (row.filterMap token?).head?.bind Token.keyword? with
  | some .ADD => row.any fun tree =>
    tree.hasRule .tableConstraintDef || tree.hasRule .tableElementList ||
      tree.hasRule .columnDefinition
  | some .DROP => row.any fun tree =>
    tree.hasRule .indexName || tree.hasKind (.keyword .PRIMARY) ||
      tree.hasKind (.keyword .FOREIGN) || tree.hasRule .identifier
  | _ => true

/-- Whether a call of a function that is a keyword has what the function asks for. -/
def admitsCall (row : List Tree) : Bool :=
  match keywordAhead? row with
  | some .CAST => leads row && isIn .castType row
  | some .CONVERT => leads row
  | some .EXTRACT =>
    isIn .intervalTimeStamp row &&
      ((row.filter isNode).find? (!hasRule .intervalTimeStamp ·)).any Tree.isOperand
  | some _ => true
  | none => false

/-- Whether a simple expression that is written as its operand has one. -/
def admitsOperand (row : List Tree) : Bool :=
  leads row || !((row.head?.any fun first =>
    first.hasKind (.keyword .BINARY) || first.hasKind (.symbol .bang)) ||
      row.any (hasKind (.keyword .COLLATE)))

/-- A verb and what it is about. -/
def admitsVerb (verb : Keyword) (rules : List Rule) : List Tree → Bool
  | [word, part] => word.hasKind (.keyword verb) && rules.any (part.hasRule ·)
  | _ => false

/-- A member of a compound select, with others after it, an order or a limit. -/
def admitsQuery : List Tree → Bool
  | member :: rest => member.isMember && rest.all fun tree =>
    tree.hasRule .unionClause || tree.hasRule .orderClause || tree.hasRule .limitClause
  | [] => false

/-- Another member of a compound select. -/
def admitsUnion : List Tree → Bool
  | [union, member] => union.hasKind (.keyword .UNION) && member.isMember
  | [union, mode, member] => union.hasKind (.keyword .UNION) &&
    (mode.hasKind (.keyword .ALL) || mode.hasKind (.keyword .DISTINCT)) && member.isMember
  | _ => false

/-- The words before the name of a table, and after the name a list of elements in parentheses if
there is one. -/
def admitsTable (row : List Tree) : Bool :=
  isIn .tableName row &&
    (row.takeWhile (!hasRule .tableName ·)).all (fun tree => tree.hasKind (.keyword .TEMPORARY) ||
      tree.hasKind (.keyword .TABLE) || tree.hasRule .ifNotExists) &&
    (!isIn .tableElementList row || match row.dropWhile (!hasRule .tableName ·) with
      | _ :: opening :: elements :: closing :: _ => opening.hasKind (.symbol .openParen) &&
        elements.hasRule .tableElementList && closing.hasKind (.symbol .closeParen)
      | _ => false)

/-- A column of a key, maybe with a length and a direction. -/
def admitsKeyPart : List Tree → Bool
  | [name] => name.hasRule .identifier
  | [name, more] =>
    name.hasRule .identifier && (more.hasRule .fieldLength || more.hasRule .direction)
  | [name, length, order] => name.hasRule .identifier && length.hasRule .fieldLength &&
    order.hasRule .direction
  | _ => false

/-- Columns of a key with commas between them, and a parenthesis after them. -/
def admitsKeyParts : List Tree → Bool
  | [part, closing] => part.hasRule .keyPart && closing.hasKind (.symbol .closeParen)
  | part :: comma :: rest =>
    part.hasRule .keyPart && comma.hasKind (.symbol .comma) && admitsKeyParts rest
  | _ => false

/-- Columns of a key in parentheses. -/
def admitsKeys : List Tree → Bool
  | opening :: rest => opening.hasKind (.symbol .openParen) && admitsKeyParts rest
  | [] => false

/-- A name, maybe with a qualifier before it. -/
def admitsQualified : List Tree → Bool
  | [name] => name.hasRule .identifier
  | [qualifier, dot, name] => qualifier.hasRule .identifier && dot.hasKind (.symbol .dot) &&
    name.hasRule .identifier
  | _ => false

theorem isIn_of_admitsQualified {row : List Tree} (h : admitsQualified row) :
    isIn .identifier row := by
  unfold admitsQualified at h
  split at h
  · simpa [isIn] using h
  · simp_all [isIn]
  · cases h

/-- What a rule asks of the children of its nodes; nothing if they may be any. -/
def demand? : Rule → Option (List Tree → Bool)
  | .fragment => some fun _ => false
  -- statements
  | .query => some (isIn .simpleStatement)
  | .simpleStatement => some (any · isNode)
  | .insertStatement | .replaceStatement | .deleteStatement | .alterTable =>
    some (isIn .tableRef)
  | .updateStatement => some (isIn .tableReferenceList)
  | .createStatement => some (admitsVerb .CREATE [.createIndex, .createTable])
  | .dropStatement => some (admitsVerb .DROP [.dropIndex, .dropTable])
  | .alterStatement => some (isIn .alterTable)
  | .alterListItem => some admitsAction
  -- queries and changes of rows
  | .queryExpression => some admitsQuery
  | .unionClause => some admitsUnion
  | .queryExpressionParens | .duplicateAsQueryExpression => some (isIn .queryExpression)
  | .insertUpdateList => some (isIn .updateList)
  | .updateElement => some fun row =>
    isIn .columnRef row &&
      (row.any (hasKind (.keyword .DEFAULT)) || (row.filter isNode)[1]?.any Tree.isOperand)
  -- names
  | .identifier => some (any · fun tree => tree.token?.isSome)
  | .selectAlias | .tableAlias | .columnRef | .indexName => some (isIn .identifier)
  | .tableName | .tableRef => some admitsQualified
  -- definitions
  | .createTable => some admitsTable
  | .ifNotExists => some (List.all · fun tree => [Keyword.IF, .NOT, .EXISTS].any fun keyword =>
    tree.hasKind (.keyword keyword))
  | .createIndex => some fun row => isIn .tableRef row && isIn .indexName row && isIn .keyList row
  | .dropTable => some (isIn .tableRefList)
  | .dropIndex => some fun row => isIn .tableRef row && isIn .indexName row
  | .tableElementList => some (isIn .tableElement)
  | .columnDefinition => some fun row => isIn .identifier row && isIn .fieldDefinition row
  | .fieldDefinition => some (isIn .dataType)
  | .dataType => some fun row => (keywordAhead? row).any namesType
  | .castType | .intervalTimeStamp => some fun row => (keywordAhead? row).isSome
  | .references => some fun row => keywordAhead? row == some .REFERENCES
  | .columnAttribute => some admitsAttribute
  | .tableConstraintDef => some admitsConstraint
  | .constraintName => some admitsConstraintName
  | .keyList => some admitsKeys
  | .keyPart => some admitsKeyPart
  | .direction => some fun row => match row with
    | [word] => word.hasKind (.keyword .ASC) || word.hasKind (.keyword .DESC)
    | _ => false
  -- expressions
  | .boolPri => some fun row => leads row && (isIn .subquery row || row.all (!isQuantifier ·))
  | .bitExpr => some fun row => leads row && row.any (·.token?.isSome)
  | .simpleExpr => some fun row => row.any Tree.isWritten && admitsOperand row
  | .exprList => some (List.all · fun tree => !tree.isNode || tree.isOperand)
  | .temporalLiteral => some (isIn .textStringLiteral)
  | .runtimeFunctionCall => some admitsCall
  | .sumExpr => some fun row =>
    (keywordAhead? row).any Grammar.aggregates.contains && row.any fun tree =>
      tree.hasKind (.symbol .star) || tree.hasRule .exprList
  | .functionCall | .udfExpr => some leads
  | .interval => some fun row =>
    leads row && isIn .intervalTimeStamp row &&
      !(row.find? isNode).any (hasRule .intervalTimeStamp)
  -- nodes that are written as their children one after the other
  | .selectStatement | .querySpecification | .whereClause | .orderClause
  | .limitClause | .insertFromConstructor | .insertQueryExpression | .updateList
  | .tableReferenceList | .tableReference | .tableFactor | .singleTable | .derivedTable
  | .tableReferenceListParens | .generatedColumn
  | .textLiteral | .numLiteral | .nullLiteral | .expr | .predicate | .exprWithParentheses
  | .subquery | .literal | .caseExpression => some (List.any · Tree.isWritten)
  | _ => none

end Rule

namespace Rule

/-- Whether the children of a node make a row that can be written. -/
def isLaidOut (rule : Rule) (row : List Tree) : Bool :=
  match rule.layout with
  | .own => true
  | .path => isPath row
  | .plain => row.all (isPlain rule.looseness)
  | .row => isTidy rule.looseness 0 row

/-- Whether the children of a node are what its rule asks for. -/
def admits (rule : Rule) (row : List Tree) : Bool := rule.demand?.all (· row) && rule.isLaidOut row

theorem admits_of_demand {rule : Rule} {demand : List Tree → Bool} (h : rule.demand? = some demand)
    (row : List Tree) : rule.admits row = (demand row && rule.isLaidOut row) := by
  simp [admits, h]

end Rule

namespace Tree

/-- A node is what its rule admits. -/
def isAdmitted : Tree → Bool
  | .leaf _ => true
  | .node rule kids => rule.admits kids

/-- Every node of a tree is what its rule admits. -/
def Admitted (tree : Tree) : Prop := ∀ below ∈ tree :: tree.descendants, below.isAdmitted

theorem mem_descendantsOfAll {below : Tree} {trees : List Tree} :
    below ∈ descendantsOfAll trees ↔ ∃ tree ∈ trees, below ∈ tree :: tree.descendants := by
  induction trees with
  | nil => simp [descendantsOfAll]
  | cons tree rest ih =>
    rw [descendantsOfAll, ← cons_append, mem_append, ih]
    simp

theorem mem_descendants_of_mem_children {tree child : Tree} (h : child ∈ tree.children) :
    child ∈ tree.descendants := by
  cases tree with
  | leaf tok => cases h
  | node rule kids => exact mem_descendantsOfAll.2 ⟨child, h, by simp⟩

mutual

theorem mem_descendants_trans (tree : Tree) {middle below : Tree} (h : middle ∈ tree.descendants)
    (hb : below ∈ middle.descendants) : below ∈ tree.descendants := by
  cases tree with
  | leaf tok => cases h
  | node rule kids => exact mem_descendantsOfAll_trans kids h hb

theorem mem_descendantsOfAll_trans (trees : List Tree) {middle below : Tree}
    (h : middle ∈ descendantsOfAll trees) (hb : below ∈ middle.descendants) :
    below ∈ descendantsOfAll trees := by
  cases trees with
  | nil => cases h
  | cons tree rest =>
    rw [descendantsOfAll, mem_cons, mem_append] at h ⊢
    rcases h with rfl | ht | hr
    · exact .inr (.inl hb)
    · exact .inr (.inl (mem_descendants_trans tree ht hb))
    · exact .inr (.inr (mem_descendantsOfAll_trans rest hr hb))

end

theorem mem_descendants_of_child? {tree child : Tree} {rule : Rule}
    (h : tree.child? rule = some child) :
    child ∈ tree.descendants := mem_descendants_of_mem_children (mem_of_find?_eq_some h)

theorem admitted_leaf (tok : Token) : (leaf tok).Admitted := by
  simp [Admitted, descendants, isAdmitted]

theorem admitted_node {rule : Rule} {kids : List Tree} :
    (node rule kids).Admitted ↔
      rule.admits kids ∧ ∀ child ∈ kids, child.Admitted := by
  simp only [Admitted, forall_mem_cons, isAdmitted, descendants, mem_descendantsOfAll]
  refine and_congr_right fun _ => ⟨fun h child hc => ?_, ?_⟩
  · exact ⟨h child ⟨child, hc, by simp⟩, fun below hb => h below ⟨child, hc, by simp [hb]⟩⟩
  · rintro h below ⟨child, hc, hb⟩
    rcases mem_cons.1 hb with rfl | hb
    · exact (h below hc).1
    · exact (h child hc).2 below hb

end Tree

end SqlBridge
