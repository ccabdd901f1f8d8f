/-
Statements that change rows: `INSERT`, `REPLACE`, `UPDATE` and `DELETE`.
-/
import SqlBridge.Grammar.Query

namespace SqlBridge.Grammar

open Phrase

def valueOrDefault : Phrase := .choose (.keyword .DEFAULT) (keyword .DEFAULT) expression

def updateElement : Phrase := make .updateElement [columnRef, symbol .equal, valueOrDefault]

def updateList : Phrase := make .updateList [commaList updateElement]

/-- Rows of values, each in parentheses. -/
def insertValues : Phrase :=
  make .insertValues [make .valueList [commaList (row
    [symbol .openParen, make .values [commaListUntilClose valueOrDefault],
     symbol .closeParen])]]

/-- The column names of an insertion, maybe none. -/
def insertFields : Phrase :=
  optional (.both (.symbol .openParen) (.opposite atQueryInParentheses))
    (row [symbol .openParen,
      optional (.opposite (.symbol .closeParen)) (make .fields [commaList columnRef]),
      symbol .closeParen])

def atValues : Lookahead := .anyKeyword [.VALUES, .VALUE]

/-- Column names with rows of values, or with a query. -/
def insertRowsOrQuery : Phrase :=
  let rule (trees : List Tree) : Rule :=
    if trees.any (Tree.hasRule .insertValues) then .insertFromConstructor
    else .insertQueryExpression
  .node rule (.seq insertFields
    (.choose atValues (row [anyToken, insertValues]) (.ref .queryExpression)))

def insertSource : Phrase :=
  .choose (.keyword .SET) (row [keyword .SET, updateList]) insertRowsOrQuery

def insertStatement : Phrase :=
  make .insertStatement [keyword .INSERT,
    optional (.anyKeyword [.LOW_PRIORITY, .DELAYED, .HIGH_PRIORITY])
      (make .insertLockOption [anyToken]),
    optionalKeyword .IGNORE, optionalKeyword .INTO, tableRef, insertSource,
    optional (.keyword .ON) (make .insertUpdateList
      [keyword .ON, keyword .DUPLICATE, keyword .KEY, keyword .UPDATE, updateList])]

def replaceStatement : Phrase :=
  make .replaceStatement [keyword .REPLACE,
    optional (.anyKeyword [.LOW_PRIORITY, .DELAYED]) (make .insertLockOption [anyToken]),
    optionalKeyword .INTO, tableRef, insertSource]

def updateStatement : Phrase :=
  make .updateStatement [keyword .UPDATE, optionalKeyword .LOW_PRIORITY, optionalKeyword .IGNORE,
    .ref .tableReferences, keyword .SET, updateList, optionalWhere, optionalOrder, optionalLimit]

def deleteOptions : List Keyword := [.LOW_PRIORITY, .QUICK, .IGNORE]

def deleteStatement : Phrase :=
  make .deleteStatement [keyword .DELETE,
    .loop (.anyKeyword deleteOptions) (make .deleteStatementOption [anyToken]),
    .choose (.keyword .FROM) (keyword .FROM) (unsupported "multi-table DELETE"),
    tableRef, tableAlias,
    optional (.either (.keyword .USING) (.symbol .comma)) (unsupported "multi-table DELETE"),
    optionalWhere, optionalOrder, optionalLimit]

end SqlBridge.Grammar
