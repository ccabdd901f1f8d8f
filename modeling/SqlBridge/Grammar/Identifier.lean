/-
Names: identifiers, dotted names and lists of names.
-/
import SqlBridge.Grammar.Phrase

namespace SqlBridge.Grammar

open Phrase

def identifier : Phrase := make .identifier [.token (·.kind.isName) "identifier"]

/-- After a dot any word is a name, reserved or not. -/
def dottedIdentifier : Phrase :=
  .choose (.nth 0 (·.keyword?.isSome)) (make .identifier [anyToken]) identifier

/-- A name with an optional qualifier before it. -/
def qualifiedName (rule : Rule) : Phrase :=
  make rule [identifier, optional (.symbol .dot) (row [symbol .dot, dottedIdentifier])]

def tableRef : Phrase := qualifiedName .tableRef

/-- A column name with up to two qualifiers. -/
def columnRef : Phrase :=
  make .columnRef [identifier,
    optional (.symbol .dot) (row [symbol .dot, dottedIdentifier,
      optional (.symbol .dot) (row [symbol .dot, dottedIdentifier])])]

def identifierListInParentheses : Phrase :=
  make .identifierListWithParentheses
    [symbol .openParen, make .identifierList [commaList identifier], symbol .closeParen]

def indexName : Phrase := make .indexName [identifier]

/-- An alias is a name or a quoted string. -/
def aliasName : Phrase := .choose .string (make .identifier [anyToken]) identifier

def tableAlias : Phrase :=
  .choose (.keyword .AS) (make .tableAlias [keyword .AS, identifier])
    (optional .name (make .tableAlias [identifier]))

end SqlBridge.Grammar
