/-
The operators of an expression, as its syntax tree groups them.

* `Tree.term?` takes an expression for its `SqlTerm`: the operators and operands of the tree, with
  the parentheses that were written.
* `SqlTerm.Fits` says that a term has no operand which MySQL's ladder of operators would have
  grouped otherwise, so that it needs no other parentheses than its own.
* `Tree.everyNode` picks expressions out by their rules: `isBasicNode` those built from names,
  constants and the operators of `SqlTerm`, `isArithmeticNode` those on numbers and bits alone.
-/
import SqlBridge.Proofs.Sql.Term
import SqlBridge.Tree

namespace SqlBridge

open List

/-! ### Operators by their tokens -/

namespace Token

/-- A logical operator between two operands, `XOR` excepted. -/
def logical? (token : Token) : Option Binary :=
  match token.kind with
  | .keyword .OR | .symbol .logicalOr => some .or
  | .keyword .AND | .symbol .logicalAnd => some .and
  | _ => none

def comma? (token : Token) : Option Binary := if token.isSymbol .comma then some .comma else none

/-- A comparison; the one that is safe with `NULL` is `IS`. -/
def comparison? (token : Token) : Option Binary :=
  match token.kind with
  | .symbol .nullSafeEqual => some .is
  | .symbol .equal => some .equal
  | .symbol .notEqual => some .notEqual
  | .symbol .bangEqual => some .bangEqual
  | .symbol .less => some .less
  | .symbol .lessEqual => some .lessEqual
  | .symbol .greater => some .greater
  | .symbol .greaterEqual => some .greaterEqual
  | _ => none

/-- An operator on numbers or bits, `^` excepted.  `DIV` is read as `/`, and `MOD` as `%`. -/
def arithmetic? (token : Token) : Option Binary :=
  match token.kind with
  | .symbol .pipe => some .pipe
  | .symbol .ampersand => some .ampersand
  | .symbol .shiftLeft => some .shiftLeft
  | .symbol .shiftRight => some .shiftRight
  | .symbol .plus => some .plus
  | .symbol .minus => some .minus
  | .symbol .star => some .star
  | .symbol .slash | .keyword .DIV => some .slash
  | .symbol .percent | .keyword .MOD => some .percent
  | _ => none

/-- An operator in front of an operand. -/
def sign? (token : Token) : Option Unary :=
  match token.kind with
  | .symbol .minus => some .minus
  | .symbol .plus => some .plus
  | .symbol .tilde => some .tilde
  | .symbol .bang => some .bang
  | _ => none

/-- What a value is tested for by `IS`. -/
def truth? (token : Token) : Option Lexeme :=
  match token.kind with
  | .keyword .NULL | .keyword .UNKNOWN => some (.word "NULL")
  | .keyword .TRUE => some (.word "TRUE")
  | .keyword .FALSE => some (.word "FALSE")
  | _ => none

/-- A predicate on two operands. -/
def pattern? (negated : Bool) (token : Token) : Option Binary :=
  match token.kind with
  | .keyword .LIKE => some (.like negated)
  | .keyword .REGEXP | .keyword .RLIKE => some (.regexp negated)
  | _ => none

/-- A predicate on three operands. -/
def ternary? (token : Token) : Option Ternary :=
  match token.kind with
  | .keyword .BETWEEN => some .between
  | .keyword .LIKE => some .escape
  | _ => none

end Token

/-! ### The term of a tree -/

namespace SqlTerm

/-- The column of some names; of three, the first may be that of the database, which is left out. -/
def ofNames? (database : String) : List String → Option SqlTerm
  | [schema, table, name] =>
    if Text.equalsIgnoringCase schema database then some (.column table [name])
    else some (.column schema [table, name])
  | first :: path => some (.column first path)
  | [] => none

theorem exists_column_of_ofNames? {db : String} {names : List String}
    {term : SqlTerm} (h : ofNames? db names = some term) :
    ∃ first path, term = .column first path := by
  unfold ofNames? at h
  split at h
  · split at h <;> exact ⟨_, _, (Option.some.inj h).symm⟩
  · exact ⟨_, _, (Option.some.inj h).symm⟩
  · cases h

/-- A string constant, as SQLite reads what is written for it. -/
def ofString (text : String) : SqlTerm :=
  .constant (.quoted .single (String.ofList (Literal.content text.toList)))

end SqlTerm

/-- A part of a node: a token that is an operator or punctuation, or an operand. -/
inductive Part where
  | word (token : Token)
  | operand (term : SqlTerm)

namespace Part

/-- A chain of operators from left to right. -/
def chain? (operator? : Token → Option Binary) (left : SqlTerm) : List Part → Option SqlTerm
  | [] => some left
  | .word token :: .operand right :: rest => do
    let operator ← operator? token
    chain? operator? (.binary operator left right) rest
  | _ => none

/-- What follows the left operand of a predicate and its `NOT`. -/
def predicate? (negated : Bool) (left : SqlTerm) (token : Token) : List Part → Option SqlTerm
  | [.word _, .operand list, .word _] => some (.isIn negated left list)
  | [.operand right] => (token.pattern? negated).map (.binary · left right)
  | [.operand middle, .word _, .operand right] =>
    token.ternary?.map (.ternary · negated left middle right)
  | _ => none

/-- The term of a node, by its rule and its parts. -/
def operation? : Rule → List Part → Option SqlTerm
  | .exprWithParentheses, [.word _, .operand inside, .word _] => some (.parens inside)
  | .simpleExpr, [.word token, .operand inside] => token.sign?.map (.unary · inside)
  | .expr, [.word token, .operand inside] =>
    if token.isKeyword .NOT then some (.unary .not inside) else none
  | .expr, .operand left :: rest => chain? Token.logical? left rest
  | .exprList, .operand left :: rest => chain? Token.comma? left rest
  | .bitExpr, [.operand left, .word token, .operand right] =>
    token.arithmetic?.map (.binary · left right)
  | .boolPri, [.operand left, .word token, .operand right] =>
    token.comparison?.map (.binary · left right)
  | .boolPri, [.operand left, .word _, .word value] =>
    value.truth?.map fun lexeme => .binary .is left (.constant lexeme)
  | .boolPri, [.operand left, .word _, .word _, .word value] =>
    value.truth?.map fun lexeme => .binary .isNot left (.constant lexeme)
  | .predicate, .operand left :: .word token :: rest =>
    if token.isKeyword .NOT then
      match rest with
      | .word token :: rest => predicate? true left token rest
      | _ => none
    else predicate? false left token rest
  | _, _ => none

end Part

namespace Tree

/-- The token of a leaf, and of a comparison operator, which is a node of its own. -/
def operator? : Tree → Option Token
  | .leaf token => some token
  | .node .compOp [.leaf token] => some token
  | _ => none

/-- The term of a literal. -/
def constant? : List Tree → Option SqlTerm
  | [.node .numLiteral [.leaf token]] => some (.constant (.number token.value))
  | [.node .nullLiteral _] => some (.constant (.word "NULL"))
  | [.node .boolLiteral [.leaf token]] =>
    some (.constant (.number (if token.isKeyword .TRUE then "1" else "0")))
  | [.node .textLiteral [text]] => some (.ofString text.text)
  | [.node .temporalLiteral [_, text]] => some (.ofString text.text)
  | _ => none

mutual

/-- The operators and operands of an expression; `database` is the name of the one database. -/
def term? (database : String) : Tree → Option SqlTerm
  | .leaf _ => none
  | .node .columnRef children =>
    SqlTerm.ofNames? database ((children.filter (hasRule .identifier)).map nameText)
  | .node .literal children => constant? children
  | .node rule children => (parts? database children).bind (Part.operation? rule)

def parts? (database : String) : List Tree → Option (List Part)
  | [] => some []
  | tree :: rest => do
    let part ← match tree.operator? with
      | some token => some (.word token)
      | none => (tree.term? database).map .operand
    (parts? database rest).map (part :: ·)

end

/-- The identifier of a name. -/
def nameOf (token : Token) : Tree := .node .identifier [.leaf token]

/-- The `NOT` that may stand in front of an operator. -/
def ofWord? (word? : Option Token) : List Tree := word?.toList.map .leaf

/-! ### Expressions by their rules -/

mutual

/-- Whether a test holds of the rule and the children of every node. -/
def everyNode (test : Rule → List Tree → Bool) : Tree → Bool
  | .leaf _ => true
  | .node rule children => test rule children && everyNodeOfAll test children

def everyNodeOfAll (test : Rule → List Tree → Bool) : List Tree → Bool
  | [] => true
  | tree :: rest => tree.everyNode test && everyNodeOfAll test rest

end

theorem everyNodeOfAll_eq_true {test : Rule → List Tree → Bool} {trees : List Tree} :
    everyNodeOfAll test trees ↔ ∀ tree ∈ trees, tree.everyNode test := by
  induction trees with
  | nil => simp [everyNodeOfAll]
  | cons tree rest ih => simp [everyNodeOfAll, ih]

theorem everyNode_node {test : Rule → List Tree → Bool} {rule : Rule} {kids : List Tree} :
    (Tree.node rule kids).everyNode test ↔
      test rule kids ∧ ∀ tree ∈ kids, tree.everyNode test := by
  rw [everyNode, Bool.and_eq_true, everyNodeOfAll_eq_true]

/-- Whether an operator in front of an operand begins some children. -/
def beginsWith (signs : List Symbol) (children : List Tree) : Bool :=
  children.head?.any fun first => first.token?.any fun token => token.symbol?.any signs.contains

/-- Nodes of expressions that are built from columns, constants and parentheses by logical
operators, comparisons, predicates and operators on numbers and bits, without `XOR` and `^`. -/
def isBasicNode (rule : Rule) (children : List Tree) : Bool :=
  match rule with
  | .columnRef | .identifier | .literal | .numLiteral | .nullLiteral | .boolLiteral | .textLiteral
  | .temporalLiteral | .textStringLiteral | .exprWithParentheses | .exprList | .compOp | .boolPri
  | .predicate => true
  | .expr => !children.any (hasKind (.keyword .XOR))
  | .bitExpr => !children.any (hasKind (.symbol .caret))
  | .simpleExpr => beginsWith [.minus, .plus, .tilde, .bang] children
  | _ => false

/-- Nodes of expressions that are built from columns, numbers and parentheses by operators on
numbers and bits, without `^`. -/
def isArithmeticNode (rule : Rule) (children : List Tree) : Bool :=
  match rule with
  | .columnRef | .identifier | .literal | .numLiteral | .exprWithParentheses => true
  | .bitExpr => !children.any (hasKind (.symbol .caret))
  | .simpleExpr => beginsWith [.minus, .plus, .tilde] children
  | _ => false

end Tree

/-! ### The ladder of MySQL -/

/-- The level of an operator between two operands, loosest first, and the levels of the operands
that it takes without parentheses.  `XOR` would stand at 2, a `NOT` in front of its operand at 4,
`^` at 12 and what stands for itself at 13. -/
def Binary.levels : Binary → Nat × Nat × Nat
  | .comma => (0, 0, 1)
  | .or => (1, 1, 2)
  | .and => (3, 3, 4)
  | .is | .isNot | .equal | .notEqual | .bangEqual | .less | .lessEqual | .greater
  | .greaterEqual => (5, 5, 6)
  | .like _ => (6, 7, 13)
  | .regexp _ => (6, 7, 7)
  | .pipe => (7, 7, 8)
  | .ampersand => (8, 8, 9)
  | .shiftLeft | .shiftRight => (9, 9, 10)
  | .plus | .minus => (10, 10, 11)
  | .star | .slash | .percent => (11, 11, 12)

namespace SqlTerm

/-- A term can stand on a level: its operators bind at least as tight, and their operands need no
more parentheses than they have. -/
def Fits (level : Nat) : SqlTerm → Prop
  | .constant lexeme => lexeme.isConstant
  | .column _ _ => True
  | .parens inside => inside.Fits 1
  | .unary .not operand => level ≤ 4 ∧ operand.Fits 4
  | .unary _ operand => operand.Fits 13
  | .binary operator left right =>
    level ≤ operator.levels.1 ∧ left.Fits operator.levels.2.1 ∧ right.Fits operator.levels.2.2
  | .isIn _ left list => level ≤ 6 ∧ left.Fits 7 ∧ list.Fits 0
  | .ternary .between _ left low high => level ≤ 6 ∧ left.Fits 7 ∧ low.Fits 7 ∧ high.Fits 6
  | .ternary .escape _ left pattern escape =>
    level ≤ 6 ∧ left.Fits 7 ∧ pattern.Fits 13 ∧ escape.Fits 13

theorem Fits.mono {term : SqlTerm} {level lower : Nat} (h : term.Fits level) (hle : lower ≤ level) :
    term.Fits lower := by
  cases term with
  | constant | column | parens => exact h
  | unary op opd =>
    cases op with
    | not => exact ⟨hle.trans h.1, h.2⟩
    | _ => exact h
  | binary op left right => exact ⟨hle.trans h.1, h.2⟩
  | isIn neg left list => exact ⟨hle.trans h.1, h.2⟩
  | ternary op neg left middle right =>
    cases op with
    | between | escape => exact ⟨hle.trans h.1, h.2⟩

end SqlTerm

end SqlBridge
