/-
Statements, and the grammar as a whole.

`parse` reads a text as one statement with an optional semicolon after it.
-/
import SqlBridge.Grammar.Definition
import SqlBridge.Grammar.Manipulation
import SqlBridge.Token.Scan

namespace SqlBridge.Grammar

open Phrase

/-- `SET` keeps its tokens as they are. -/
def setStatement : Phrase := make .setStatement [keyword .SET, .loop goesOn anyToken]

def simpleStatement : Phrase :=
  make .simpleStatement [firstOf (expected "a statement")
    [(.either (.keyword .SELECT) (.symbol .openParen), selectStatement),
     (.keyword .INSERT, insertStatement),
     (.keyword .REPLACE, replaceStatement),
     (.keyword .UPDATE, updateStatement),
     (.keyword .DELETE, deleteStatement),
     (.keyword .CREATE, createStatement),
     (.keyword .ALTER, alterStatement),
     (.keyword .DROP, dropStatement),
     (.keyword .SET, setStatement)]]

def query : Phrase :=
  make .query [simpleStatement, optionalSymbol .semicolon,
    .token (·.isEnding) "end of statement"]

/-- What each name stands for. -/
def productions : Name → Phrase
  | .expression => disjunction
  | .negation => negation
  | .predicate => predicate
  | .operand => operand
  | .simpleExpression => simpleExpression
  | .queryExpression => queryExpression
  | .tableReferences => tableReferences

/-- Fuel for reading a number of tokens: more than the steps down between two of them, for each. -/
def fuelFor (tokens : List Token) : Nat := 1000 * (tokens.length + 1)

/-- The syntax tree of a row of tokens. -/
def ofTokens (tokens : List Token) : Except Error Tree := do
  let (trees, _) ← query.read productions (fuelFor tokens) tokens
  match trees with
  | [tree] => return tree
  | _ => throw (unexpected "a statement" tokens)

/-- The syntax tree of a statement. -/
def parse (text : String) : Except Error Tree := do ofTokens (← Token.ofText text)

end SqlBridge.Grammar
