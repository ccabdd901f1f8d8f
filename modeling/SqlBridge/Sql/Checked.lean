/-
Pieces of SQLite text that are checked before they are written: numbers, operators and calls.
-/
import SqlBridge.Sql.Piece
import SqlBridge.Text.Basic

namespace SqlBridge

/-- Keywords and symbols that can be written as operators. -/
def sqliteOperators : List String :=
  ["SELECT", "INSERT", "UPDATE", "DELETE", "FROM", "WHERE", "AND", "OR", "NOT", "IN", "LIKE",
   "IS", "NULL", "AS", "ON", "JOIN", "LEFT", "RIGHT", "INNER", "OUTER", "ORDER", "BY", "GROUP",
   "HAVING", "LIMIT", "OFFSET", "UNION", "ALL", "DISTINCT", "CASE", "WHEN", "THEN", "ELSE",
   "END", "BETWEEN", "EXISTS", "ASC", "DESC", "SET", "VALUES", "INTO", "CREATE", "TABLE",
   "ALTER", "DROP", "INDEX", "PRIMARY", "KEY", "UNIQUE", "DEFAULT", "(", ")", ",", ".", ";",
   "+", "-", "*", "/", "%", "=", "<>", "!=", "<", "<=", ">", ">=", "||", "&", "|", "<<", ">>",
   "~"]

namespace Sql

/-- Digits with at most one point among them, not the point alone. -/
def isMantissa (text : List Char) : Bool :=
  let whole := text.takeWhile (· != '.')
  let fraction := (text.drop whole.length).drop 1
  whole.all Char.isDigit && fraction.all Char.isDigit && !(whole.isEmpty && fraction.isEmpty)

/-- Digits after an optional sign. -/
def isExponent (text : List Char) : Bool :=
  let digits := match text with
    | '+' :: rest | '-' :: rest => rest
    | _ => text
  !digits.isEmpty && digits.all Char.isDigit

/-- Decimal integers, decimals, exponents and `0x` hexadecimals. -/
def isNumber (text : List Char) : Bool :=
  match text with
  | '0' :: 'x' :: digits | '0' :: 'X' :: digits =>
    !digits.isEmpty && digits.all Text.isHexDigit
  | _ =>
    let mantissa := text.takeWhile fun c => c != 'e' && c != 'E'
    match text.drop mantissa.length with
    | [] => isMantissa mantissa
    | _ :: exponent => isMantissa mantissa && isExponent exponent

/-- A numeric literal. -/
def number (text : String) : Except Error Piece :=
  if isNumber text.toList then .ok (.literal (.number text))
  else .error (.invalidToken (.number text))

/-- An operator, written in upper case. -/
def operator (text : String) : Except Error Piece :=
  let upper := Text.asciiUpper text
  if sqliteOperators.contains upper then .ok (.operator upper)
  else .error (.invalidToken (.operator text))

/-- A call of a function, once its name and the number of its arguments are checked. -/
def call (name : String) (arguments : List Sql) : Except Error Sql :=
  let upper := Text.asciiUpper name
  match sqliteFunctions.lookup upper with
  | none => .error (.invalidToken (.unknownFunction name))
  | some arity =>
    if arity.admits arguments.length then
      .ok (.raw upper :: .raw "(" :: commaSeparated arguments ++ [Piece.raw ")"])
    else .error (.invalidToken (.argumentCount upper arity arguments.length))

end Sql

end SqlBridge
