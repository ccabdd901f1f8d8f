/-
How function calls and aggregates are written.

Most calls write their arguments and then look up the function.  `CAST`, `CONVERT`, `EXTRACT`, date
arithmetic, `DATE_FORMAT`, `VALUES`, `DATABASE` and `FOUND_ROWS` look at the syntax of the call.
-/
import SqlBridge.Scribe.Basic
import SqlBridge.Scribe.Function

namespace SqlBridge

namespace Tree

/-- The name of the function that a call names, in upper case. -/
def functionName (tree : Tree) : String :=
  match tree.children.head? with
  | some (.leaf token) => Text.asciiUpper token.value
  | some name => Text.asciiUpper name.nameText
  | none => ""

/-- The unit of an interval or of `EXTRACT`. -/
def unit? (tree : Tree) : Option Keyword := (tree.child? .intervalTimeStamp).bind firstKeyword?

end Tree

namespace Branch

/-- The arguments of a call, in order. -/
def arguments (node : Branch) : List Draft :=
  match node.child? .udfExprList with
  | some list => (list.branch.childrenBy .udfExpr).filterMap (·.branch.firstNode?)
  | none => []

def castTo (operand : Sql) (type : Draft) : Scribe Sql := do
  let keyword ← Scribe.part "cast" "a type" type.tree.firstKeyword?
  Function.castTo operand keyword

def castCall (node : Branch) : Scribe Sql := do
  let operand ← Scribe.part "CAST" "an operand" node.firstNode?
  let type ← Scribe.part "CAST" "a type" (node.child? .castType)
  castTo (← operand.required) type

def convertCall (node : Branch) : Scribe Sql := do
  let operand ← Scribe.part "CONVERT" "an operand" node.firstNode?
  let sql ← operand.required
  match node.child? .castType with
  | some type => castTo sql type
  | none => return sql

def extractCall (node : Branch) : Scribe Sql := do
  let unit ← Scribe.part "EXTRACT" "a unit" node.tree.unit?
  let operand ← Scribe.part "EXTRACT" "an operand"
    (node.nodes.find? fun part => !part.tree.hasRule .intervalTimeStamp)
  Function.datePart unit.spelling (← operand.required)

def wrongCount {α : Type} (name : String) (count : Nat) (arguments : List Draft) : Scribe α :=
  throw (.invalidToken (.argumentCount name (.exactly count) arguments.length))

def dateFormatCall (node : Branch) : Scribe Sql :=
  match node.arguments with
  | [date, format] =>
    match if format.tree.hasRule .literal then format.tree.nearestNode? .textStringLiteral
      else none with
    | some literal => do
      let pattern ← Function.datePattern literal.text.toList
      let date ← date.required
      Sql.call "STRFTIME" [[.string (String.ofList pattern)], date]
    | none => Scribe.unsupported .formatNotLiteral
  | arguments => wrongCount "DATE_FORMAT" 2 arguments

/-- A date moved by an interval, back if `subtract`. -/
def shiftedBy (date : Sql) (subtract : Bool) (interval : Draft) : Scribe Sql := do
  let amount ← Scribe.part "INTERVAL" "an amount"
    (interval.branch.firstNode?.filter fun part => !part.tree.hasRule .intervalTimeStamp)
  let unit ← Scribe.part "INTERVAL" "a unit" interval.tree.unit?
  Function.shifted date subtract (← amount.required) unit

/-- `DATE_ADD`, `DATE_SUB`, and `ADDDATE` and `SUBDATE`, which also take a number of days. -/
def dateShiftCall (node : Branch) (name : String) : Scribe Sql :=
  match node.arguments with
  | [date, amount] => do
    let subtract := name == "DATE_SUB" || name == "SUBDATE"
    let date ← date.required
    if amount.tree.hasRule .interval then
      shiftedBy date subtract amount
    else if name == "ADDDATE" || name == "SUBDATE" then
      Function.shifted date subtract (← amount.required) .DAY
    else
      Scribe.unsupported (.withoutInterval name)
  | arguments => wrongCount name 2 arguments

/-- `VALUES(column)`, the value a conflicting row would have had. -/
def valuesCall (node : Branch) (name : String) : Scribe Sql :=
  match node.arguments with
  | [column] =>
    match if column.tree.hasRule .columnRef then column.tree.lastName? else none with
    | some name => return [.raw "excluded", .raw ".", .name name]
    | none => Scribe.unsupported .valuesOfExpression
  | arguments => wrongCount name 1 arguments

def functionCall (database : String) (node : Branch) : Scribe Sql :=
  let name := node.tree.functionName
  match name with
  | "CAST" => node.castCall
  | "CONVERT" => node.convertCall
  | "EXTRACT" => node.extractCall
  | "DATE_FORMAT" => node.dateFormatCall
  | "DATE_ADD" | "ADDDATE" | "DATE_SUB" | "SUBDATE" => node.dateShiftCall name
  | "VALUES" => node.valuesCall name
  | "DATABASE" | "SCHEMA" => return [.string database]
  | "FOUND_ROWS" => do
    modify ({ · with foundRows := true })
    Scribe.unsupported .foundRows
  | _ => do Function.counterpart name (← Draft.requiredAll node.arguments)

/-- What an aggregate is applied to. -/
def aggregated (node : Branch) (name : String) : Scribe Sql :=
  if node.tree.hasSymbol .star then return [.raw "*"] else do
    let list ← Scribe.part name "arguments" (node.child? .exprList)
    match list.branch.nodes with
    | [single] => single.required
    | several =>
      if name == "GROUP_CONCAT" then
        return Sql.group (Function.concatenation (← Draft.requiredAll several))
      else Scribe.unsupported (.severalArguments name)

def aggregate (node : Branch) : Scribe Sql := do
  let name := node.tree.functionName
  if node.tree.hasChild .orderClause then
    Scribe.unsupported (.orderInside name)
  let distinct := node.tree.hasKeyword .DISTINCT
  let operand ← node.aggregated name
  let argument := if distinct then .raw "DISTINCT" :: operand else operand
  match (node.tree.child? .textStringLiteral).map Tree.text with
  | none | some "," => Sql.call name [argument]
  | some separator =>
    if distinct then Scribe.unsupported .distinctWithSeparator
    else Sql.call name [argument, [.string separator]]

end Branch

end SqlBridge
