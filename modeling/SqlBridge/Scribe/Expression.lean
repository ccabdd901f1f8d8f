/-
How tokens, names and the operators of expressions are written.

SQLite ranks `|`, `&`, `<<` and `>>` alike, below `+` and `-`; an operand that is itself such an
operation, or any other, is put in parentheses under them.
-/
import SqlBridge.Scribe.Call

namespace SqlBridge

/-! ### Tokens -/

def Keyword.sql : Keyword → Scribe Sql
  | .AUTO_INCREMENT => return Sql.word "AUTOINCREMENT"
  | .VALUE => return Sql.word "VALUES"
  | .DISTINCTROW => return Sql.word "DISTINCT"
  | .STRAIGHT_JOIN => return Sql.word "JOIN"
  | .RLIKE => return Sql.word "REGEXP"
  | .DIV => return Sql.word "/"
  | .MOD => return Sql.word "%"
  | .UNKNOWN => return Sql.word "NULL"
  | .XOR => Scribe.unsupported .exclusiveOr
  | keyword => return Sql.word keyword.spelling

def Symbol.sql : Symbol → Scribe (Option Sql)
  | .semicolon => return none
  | .logicalOr => return Sql.word "OR"
  | .logicalAnd => return Sql.word "AND"
  | .bang => return Sql.word "NOT"
  | .nullSafeEqual => return Sql.word "IS"
  | .caret => Scribe.unsupported .caretOperator
  | .assign => Scribe.unsupported .assignment
  | .atAt => Scribe.unsupported .systemVariableAlone
  | symbol => return some [← Sql.operator symbol.spelling]

def Token.sql (token : Token) : Scribe (Option Sql) :=
  match token.kind with
  | .ending => return none
  | .keyword keyword => some <$> keyword.sql
  | .symbol symbol => symbol.sql
  | .identifier | .backtickName => return some [.name token.text]
  | .singleQuoted | .doubleQuoted => return some [.string token.text]
  | .integer | .decimal | .float | .hexadecimal => return some [← Sql.number token.value]
  | .parameter => return Sql.word "?"
  | .userVariable => Scribe.unsupported .userVariables

namespace Branch

/-! ### Names -/

def identifier (node : Branch) : Scribe Sql :=
  match node.tree.firstToken? with
  | some token => return [.name token.text]
  | none => throw (.malformed (.empty "identifier"))

/-- Whether an identifier is the name of the database. -/
def namesDatabase (database : String) (name : Draft) : Bool :=
  Text.equalsIgnoringCase name.tree.nameText database

/-- A table; the name of the database in front of it is left out. -/
def tableName (database : String) (node : Branch) : Scribe (Option Sql) :=
  match node.childrenBy .identifier with
  | [schema, table] =>
    if namesDatabase database schema then table.write else node.sequence
  | _ => node.sequence

/-- A column; the name of the database in front of its table is left out. -/
def columnName (database : String) (node : Branch) : Scribe (Option Sql) :=
  match node.childrenBy .identifier with
  | [schema, table, column] =>
    if namesDatabase database schema then do
      let table ← table.required
      return table ++ .raw "." :: (← column.required)
    else node.sequence
  | _ => node.sequence

/-- A name given with or without `AS`. -/
def aliased (node : Branch) : Scribe Sql := return .raw "AS" :: (← node.needed .identifier)

/-! ### Operators -/

/-- The quantifier of a comparison with a subquery. -/
def quantifier? (node : Branch) : Option Keyword :=
  node.tree.childKeywords.find? fun keyword =>
    keyword == .ANY || keyword == .SOME || keyword == .ALL

/-- `= ANY (subquery)` is `IN`, and `<> ALL (subquery)` is `NOT IN`. -/
def membership? : Option Symbol → Keyword → Option Sql
  | some .equal, .ANY | some .equal, .SOME => some (Sql.word "IN")
  | some .notEqual, .ALL | some .bangEqual, .ALL => some (Sql.words ["NOT", "IN"])
  | _, _ => none

def comparison (node : Branch) : Scribe (Option Sql) :=
  match node.quantifier? with
  | none => node.sequence
  | some quantifier => do
    let symbol? := ((node.tree.child? .compOp).bind Tree.firstToken?).bind Token.symbol?
    match membership? symbol? quantifier with
    | none => Scribe.unsupported (.quantifiedComparison quantifier)
    | some operator =>
      let left ← Scribe.part "comparison" "an operand" node.firstNode?
      let subquery ← node.need .subquery
      let left ← left.required
      return some (left ++ operator ++ (← subquery.required))

/-- Whether a symbol is one of the operators on bits that SQLite ranks alike. -/
def isBitwise : Option Symbol → Bool
  | some .pipe | some .ampersand | some .shiftLeft | some .shiftRight => true
  | _ => false

/-- An operand under a bitwise operator. -/
def bitwiseOperand (operand : Draft) : Scribe Sql :=
  if operand.tree.hasRule .bitExpr then return Sql.group (← operand.required) else operand.sql

def arithmetic (node : Branch) : Scribe Sql := do
  let operator ← Scribe.part "operator expression" "an operator" node.tree.firstToken?
  match node.child? .interval with
  | some interval =>
    let subtract ← match operator.symbol? with
      | some .plus => pure false
      | some .minus => pure true
      | _ => Scribe.unsupported .intervalOutsideArithmetic
    let date ← Scribe.part "date arithmetic" "a date" node.firstNode?
    shiftedBy (← date.required) subtract interval
  | none =>
    Draft.writeEach (if isBitwise operator.symbol? then bitwiseOperand else Draft.sql) node.parts

def operand (node : Branch) : Scribe Draft := Scribe.part "expression" "an operand" node.firstNode?

/-- `BINARY` and `COLLATE` are left out, and `!` becomes `NOT`. -/
def simpleExpression (node : Branch) : Scribe (Option Sql) := do
  let first := node.tree.children.head?.bind Tree.token?
  if first.any (·.isKeyword .BINARY) then
    (← node.operand).write
  else if first.any (·.isSymbol .bang) then
    return some [.raw "NOT", .group (← (← node.operand).required)]
  else if node.tree.hasKeyword .COLLATE then
    (← node.operand).write
  else
    node.sequence

end Branch

end SqlBridge
