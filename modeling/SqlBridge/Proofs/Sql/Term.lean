/-
Expressions by SQLite's table of operators.

An `SqlTerm` is an expression with its operators and its parentheses, and `SqlTerm.print` its
tokens. The table gives every operator a rank: `OR` binds loosest, then `AND`, then `NOT`, then one
level for equality, `IS`, `IN`, `LIKE`, `REGEXP` and `BETWEEN`, then the order comparisons, the bit
operators, sums and products.  Operators of one level group to the left.

* `SqlTerm.ofLexemes?` reads tokens by climbing through the ranks.
* `SqlTerm.Grouped` says, without a reader, that a term is what the table makes of its tokens.
-/
import SqlBridge.Proofs.Sql.Lexeme

namespace SqlBridge

inductive Unary where
  | not
  /-- `!`, which SQLite does not have. -/
  | bang
  | minus | plus | tilde
deriving DecidableEq, Repr

inductive Binary where
  /-- The comma of a list, which binds loosest of all. -/
  | comma
  | or | and
  | is | isNot | equal | notEqual | bangEqual
  | like (negated : Bool)
  | regexp (negated : Bool)
  | less | lessEqual | greater | greaterEqual
  | pipe | ampersand | shiftLeft | shiftRight
  | plus | minus
  | star | slash | percent
deriving DecidableEq, Repr

/-- An operator with two words, and an operand between them. -/
inductive Ternary where
  /-- `BETWEEN` and `AND`. -/
  | between
  /-- `LIKE` and `ESCAPE`. -/
  | escape
deriving DecidableEq, Repr

/-- An expression as it is grouped. -/
inductive SqlTerm where
  | constant (lexeme : Lexeme)
  /-- A column by its name, with the tables before it first. -/
  | column (first : String) (path : List String)
  | parens (inside : SqlTerm)
  | unary (operator : Unary) (operand : SqlTerm)
  | binary (operator : Binary) (left right : SqlTerm)
  /-- Membership in a list in parentheses. -/
  | isIn (negated : Bool) (left list : SqlTerm)
  | ternary (operator : Ternary) (negated : Bool) (left middle right : SqlTerm)
deriving DecidableEq, Repr

/-! ### Tokens -/

/-- The `NOT` in front of a negated operator. -/
def Lexeme.negation (negated : Bool) : List Lexeme := if negated then [.word "NOT"] else []

namespace Unary

def lexeme : Unary → Lexeme
  | .not => .word "NOT"
  | .bang => .symbol "!"
  | .minus => .symbol "-"
  | .plus => .symbol "+"
  | .tilde => .symbol "~"

/-- The rank in SQLite's table. -/
def rank : Unary → Nat
  | .not => 3
  | _ => 9

/-- The operator of SQLite that a token is. -/
def of? (lexeme : Lexeme) : Option Unary := [not, .minus, .plus, .tilde].find? (·.lexeme == lexeme)

end Unary

namespace Binary

def lexemes : Binary → List Lexeme
  | .comma => [.symbol ","]
  | .or => [.word "OR"]
  | .and => [.word "AND"]
  | .is => [.word "IS"]
  | .isNot => [.word "IS", .word "NOT"]
  | .equal => [.symbol "="]
  | .notEqual => [.symbol "<>"]
  | .bangEqual => [.symbol "!="]
  | .like negated => Lexeme.negation negated ++ [Lexeme.word "LIKE"]
  | .regexp negated => Lexeme.negation negated ++ [Lexeme.word "REGEXP"]
  | .less => [.symbol "<"]
  | .lessEqual => [.symbol "<="]
  | .greater => [.symbol ">"]
  | .greaterEqual => [.symbol ">="]
  | .pipe => [.symbol "|"]
  | .ampersand => [.symbol "&"]
  | .shiftLeft => [.symbol "<<"]
  | .shiftRight => [.symbol ">>"]
  | .plus => [.symbol "+"]
  | .minus => [.symbol "-"]
  | .star => [.symbol "*"]
  | .slash => [.symbol "/"]
  | .percent => [.symbol "%"]

/-- The rank in SQLite's table. -/
def rank : Binary → Nat
  | .comma => 0
  | .or => 1
  | .and => 2
  | .is | .isNot | .equal | .notEqual | .bangEqual | .like _ | .regexp _ => 4
  | .less | .lessEqual | .greater | .greaterEqual => 5
  | .pipe | .ampersand | .shiftLeft | .shiftRight => 6
  | .plus | .minus => 7
  | .star | .slash | .percent => 8

end Binary

/-- The rank of equality, and of membership and ranges. -/
def equalityRank : Nat := 4

namespace Ternary

/-- The words before the middle operand. -/
def opening (operator : Ternary) (negated : Bool) : List Lexeme :=
  Lexeme.negation negated ++
    [match operator with
      | .between => .word "BETWEEN"
      | .escape => .word "LIKE"]

/-- The word after it. -/
def separator : Ternary → Lexeme
  | .between => .word "AND"
  | .escape => .word "ESCAPE"

end Ternary

/-- What can follow an operand. -/
inductive SqlOperator where
  | binary (operator : Binary)
  | isIn (negated : Bool)
  | between (negated : Bool)
deriving DecidableEq, Repr

namespace SqlOperator

def lexemes : SqlOperator → List Lexeme
  | .binary operator => operator.lexemes
  | .isIn negated => Lexeme.negation negated ++ [Lexeme.word "IN"]
  | .between negated => Ternary.between.opening negated

def rank : SqlOperator → Nat
  | .binary operator => operator.rank
  | .isIn _ | .between _ => equalityRank

/-- All of them, `IS NOT` before `IS`. -/
def all : List SqlOperator :=
  [Binary.comma, .or, .and, .isNot, .is, .equal, .notEqual, .bangEqual, .like true, .like false,
    .regexp true, .regexp false, .less, .lessEqual, .greater, .greaterEqual, .pipe, .ampersand,
    .shiftLeft, .shiftRight, .plus, .minus, .star, .slash, .percent].map binary ++
  [.isIn true, .isIn false, .between true, .between false]

/-- The operator at the head of some tokens, and what follows it. -/
def of? (tokens : List Lexeme) : Option (SqlOperator × List Lexeme) :=
  all.findSome? fun operator => (tokens.dropPrefix? operator.lexemes).map (operator, ·)

end SqlOperator

namespace Lexeme

/-- Whether a token is a constant. -/
def isConstant : Lexeme → Bool
  | .number _ => true
  | .quoted .single _ => true
  | .word text => text == "NULL" || text == "TRUE" || text == "FALSE"
  | _ => false

/-- What follows a token. -/
def after? (lexeme : Lexeme) : List Lexeme → Option (List Lexeme)
  | [] => none
  | first :: rest => if first = lexeme then some rest else none

end Lexeme

namespace SqlTerm

/-- The names after the first one of a column. -/
def pathLexemes (path : List String) : List Lexeme :=
  path.flatMap fun name => [.symbol ".", .quoted .double name]

/-- The tokens of a term. -/
@[simp]
def print : SqlTerm → List Lexeme
  | .constant lexeme => [lexeme]
  | .column first path => .quoted .double first :: pathLexemes path
  | .parens inside => .symbol "(" :: inside.print ++ [Lexeme.symbol ")"]
  | .unary operator operand => operator.lexeme :: operand.print
  | .binary operator left right => left.print ++ operator.lexemes ++ right.print
  | .isIn negated left list =>
    left.print ++ (SqlOperator.isIn negated).lexemes ++ .symbol "(" :: list.print ++
      [Lexeme.symbol ")"]
  | .ternary operator negated left middle right =>
    left.print ++ operator.opening negated ++ middle.print ++ operator.separator :: right.print

/-! ### Reading -/

/-- The names that follow the first one of a column. -/
def readPath : List Lexeme → List String × List Lexeme
  | dot :: .quoted .double name :: rest =>
    if dot = .symbol "." then
      let (path, rest) := readPath rest
      (name :: path, rest)
    else ([], dot :: .quoted .double name :: rest)
  | tokens => ([], tokens)

/-- A column or a constant. -/
def readAtom : List Lexeme → Option (SqlTerm × List Lexeme)
  | .quoted .double first :: rest =>
    let (path, rest) := readPath rest
    some (.column first path, rest)
  | lexeme :: rest => if lexeme.isConstant then some (.constant lexeme, rest) else none
  | [] => none

mutual

/-- A term in which no operator that stands open on the left ranks below `floor`. -/
def read : Nat → Nat → List Lexeme → Option (SqlTerm × List Lexeme)
  | 0, _, _ => none
  | fuel + 1, floor, tokens => do
    let (operand, rest) ← readOperand fuel tokens
    readOn fuel floor operand rest

/-- An operand: an atom, a term in parentheses, or an operand after a sign. -/
def readOperand : Nat → List Lexeme → Option (SqlTerm × List Lexeme)
  | 0, _ => none
  | _ + 1, [] => none
  | fuel + 1, first :: rest =>
    if first = .symbol "(" then do
      let (inside, rest) ← read fuel 0 rest
      let rest ← Lexeme.after? (.symbol ")") rest
      some (.parens inside, rest)
    else
      match Unary.of? first with
      | some operator => do
        let (operand, rest) ← read fuel operator.rank rest
        some (.unary operator operand, rest)
      | none => readAtom (first :: rest)

/-- More operators after an operand, as long as they do not rank below `floor`. -/
def readOn : Nat → Nat → SqlTerm → List Lexeme → Option (SqlTerm × List Lexeme)
  | 0, _, _, _ => none
  | fuel + 1, floor, left, tokens =>
    match SqlOperator.of? tokens with
    | none => some (left, tokens)
    | some (operator, rest) =>
      if operator.rank < floor then some (left, tokens) else do
        let (term, rest) ← readRight fuel operator left rest
        readOn fuel floor term rest

/-- What stands on the right of an operator. -/
def readRight : Nat → SqlOperator → SqlTerm → List Lexeme → Option (SqlTerm × List Lexeme)
  | 0, _, _, _ => none
  | fuel + 1, .binary operator, left, tokens => do
    let (right, rest) ← read fuel (operator.rank + 1) tokens
    match operator, Lexeme.after? (.word "ESCAPE") rest with
    | .like negated, some rest => do
      let (escape, rest) ← read fuel (equalityRank + 1) rest
      some (.ternary .escape negated left right escape, rest)
    | _, _ => some (.binary operator left right, rest)
  | fuel + 1, .isIn negated, left, tokens => do
    let rest ← Lexeme.after? (.symbol "(") tokens
    let (list, rest) ← read fuel 0 rest
    let rest ← Lexeme.after? (.symbol ")") rest
    some (.isIn negated left list, rest)
  | fuel + 1, .between negated, left, tokens => do
    let (low, rest) ← read fuel (equalityRank + 1) tokens
    let rest ← Lexeme.after? (.word "AND") rest
    let (high, rest) ← read fuel (equalityRank + 1) rest
    some (.ternary .between negated left low high, rest)

end

/-- The term that some tokens are, all of them. -/
def ofLexemes? (tokens : List Lexeme) : Option SqlTerm :=
  match read (3 * tokens.length + 1) 0 tokens with
  | some (term, []) => some term
  | _ => none

/-- The term that a text is. -/
def ofText? (text : String) : Option SqlTerm := (Lexer.lexemes? text).bind ofLexemes?

/-! ### Grouping -/

end SqlTerm

/-- What stands after an operand and could go on with it. -/
inductive Next where
  | operator (rank : Nat)
  /-- The `ESCAPE` of a `LIKE`. -/
  | escape
deriving DecidableEq, Repr

/-- What comes next at the head of some tokens. -/
def Next.of? (tokens : List Lexeme) : Option Next :=
  if tokens.head? = some (.word "ESCAPE") then some .escape
  else (SqlOperator.of? tokens).map fun found => .operator found.1.rank

/-- Whether a prefixed operator leaves what comes after its operand to others. -/
def Unary.Leaves (operator : Unary) : Next → Prop
  | .operator rank => rank < operator.rank
  | .escape => True

/-- Whether an operator leaves what comes after its right operand to others. -/
def Binary.Leaves (operator : Binary) : Next → Prop
  | .operator rank => rank ≤ operator.rank
  | .escape => ∀ negated, operator ≠ .like negated

def Ternary.Leaves : Next → Prop
  | .operator rank => rank ≤ equalityRank
  | .escape => True

/-- What comes after the middle operand. -/
def Ternary.next : Ternary → Next
  | .between => .operator Binary.and.rank
  | .escape => .escape

namespace SqlTerm

/-- Every operator that stands open on the left of a term ranks at least `floor`. -/
def OpensAt (floor : Nat) : SqlTerm → Prop
  | .binary operator left _ => floor ≤ operator.rank ∧ left.OpensAt floor
  | .isIn _ left _ | .ternary _ _ left _ _ => floor ≤ equalityRank ∧ left.OpensAt floor
  | .constant _ | .column _ _ | .parens _ | .unary _ _ => True

/-- Every operator that stands open on the right of a term leaves what comes next to others. -/
def EndsAt (next : Next) : SqlTerm → Prop
  | .unary operator operand => operator.Leaves next ∧ operand.EndsAt next
  | .binary operator _ right => operator.Leaves next ∧ right.EndsAt next
  | .ternary _ _ _ _ right => Ternary.Leaves next ∧ right.EndsAt next
  | .constant _ | .column _ _ | .parens _ | .isIn _ _ _ => True

/-- A term is what SQLite's table makes of its tokens: left operands are not taken apart by what
comes after them, and right operands hold no operator that would not wait for them. -/
def Grouped : SqlTerm → Prop
  | .constant lexeme => lexeme.isConstant
  | .column _ _ => True
  | .parens inside => inside.Grouped
  | .unary operator operand =>
    operator ≠ .bang ∧ operand.Grouped ∧ operand.OpensAt operator.rank
  | .binary operator left right =>
    left.Grouped ∧ right.Grouped ∧ left.EndsAt (.operator operator.rank) ∧
      right.OpensAt (operator.rank + 1) ∧
      (operator = .is → right.print.head? ≠ some (.word "NOT"))
  | .isIn _ left list => left.Grouped ∧ list.Grouped ∧ left.EndsAt (.operator equalityRank)
  | .ternary operator _ left middle right =>
    left.Grouped ∧ middle.Grouped ∧ right.Grouped ∧ left.EndsAt (.operator equalityRank) ∧
      middle.OpensAt (equalityRank + 1) ∧ middle.EndsAt operator.next ∧
      right.OpensAt (equalityRank + 1)

/-- A term without its parentheses, and with `!` as the `NOT` that it means. -/
@[simp]
def bare : SqlTerm → SqlTerm
  | .constant lexeme => .constant lexeme
  | .column first path => .column first path
  | .parens inside => inside.bare
  | .unary operator operand => .unary (if operator = .bang then .not else operator) operand.bare
  | .binary operator left right => .binary operator left.bare right.bare
  | .isIn negated left list => .isIn negated left.bare list.bare
  | .ternary operator negated left middle right =>
    .ternary operator negated left.bare middle.bare right.bare

end SqlTerm

end SqlBridge
