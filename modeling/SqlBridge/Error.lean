/-
Everything that can go wrong, as causes; the wording of each is in one place per cause.

* `Error.parse`: the text is no statement; the fault carries the byte offset where reading stopped.
* `Error.unsupported`: a statement that MySQL takes and SQLite has no counterpart for.
* `Error.malformed`: a syntax tree that no statement has.  It is reported as unsupported too.
* `Error.invalidToken`: a piece of SQLite text that must not be written.
* `Error.storage`: the storage refused a statement.
* `Error.overflow`: a product of 64-bit integers is none; the call ends where it is formed.
-/
import SqlBridge.Keyword
import SqlBridge.Rule

namespace SqlBridge

/-- Why a text could not be read. -/
inductive ParseFault where
  /-- No token starts here; the text is quoted in part. -/
  | unreadable (excerpt : String)
  /-- Another token was needed; `found` is the spelling of the one that stands there. -/
  | expected (what : String) (found : Option String)
  /-- The reader gave up; no statement gets it there. -/
  | tooDeep
deriving DecidableEq, Repr

def ParseFault.message : ParseFault → String
  | .unreadable excerpt => s!"Unexpected input near '{excerpt}'"
  | .expected what (some found) => s!"Expected {what}, found '{found}'"
  | .expected what none => s!"Expected {what}, found end of input"
  | .tooDeep => "Statement too deep"

/-- A construct of MySQL without a counterpart in SQLite. -/
inductive Feature where
  /-- A construct the reader stops at, with its byte offset. -/
  | atPosition (what : String) (position : Nat)
  | indexHints
  | withRollup
  | defaultInRow
  | defaultAssigned
  | createTableLike
  | columnsAndQuery
  | alterOutsideDriver
  | castTypeOutsideCast
  | intervalOutsideArithmetic
  | userVariables
  | conflictClauseOnSelect
  | multiTableUpdate
  | autoIncrementOutsideKey
  | dropSeveralTables
  | quantifiedComparison (quantifier : Keyword)
  | exclusiveOr
  | caretOperator
  | assignment
  | systemVariableAlone
  | dataType (keyword : Keyword)
  | valuesOfExpression
  | foundRows
  | formatNotLiteral
  | formatSpecifier (specifier : Char)
  | withoutInterval (function : String)
  | orderInside (function : String)
  | severalArguments (function : String)
  | distinctWithSeparator
  | lastInsertIdOf
  | seededRandom
  | function (name : String)
  | castTo (keyword : Keyword)
  | datePart (part : String)
  | intervalUnit (unit : Keyword)
  | alterAction
  | alterKeyword (keyword : Keyword)
  | addForeignKeyOrCheck
  | addPrimaryKey
  | addConstraintsInList
  | addKeyedColumn
  | dropPrimaryKey
  | dropForeignKey
  | renameIndex
  | renameColumn
  | statements (rule : Rule)
deriving DecidableEq, Repr

def Feature.message : Feature → String
  | .atPosition what position => s!"{what} (at position {position})"
  | .indexHints => "index hints"
  | .withRollup => "WITH ROLLUP"
  | .defaultInRow => "DEFAULT in a VALUES row"
  | .defaultAssigned => "DEFAULT as an assigned value"
  | .createTableLike => "CREATE TABLE ... LIKE"
  | .columnsAndQuery => "CREATE TABLE with both column definitions and a query"
  | .alterOutsideDriver => "ALTER TABLE outside of the driver"
  | .castTypeOutsideCast => "a cast type outside of CAST"
  | .intervalOutsideArithmetic => "INTERVAL outside of date arithmetic"
  | .userVariables => "user variables"
  | .conflictClauseOnSelect => "ON DUPLICATE KEY UPDATE on INSERT ... SELECT"
  | .multiTableUpdate => "multi-table UPDATE"
  | .autoIncrementOutsideKey => "AUTO_INCREMENT outside a single-column primary key"
  | .dropSeveralTables => "DROP TABLE with several tables"
  | .quantifiedComparison quantifier => "comparison with " ++ quantifier.spelling ++ " (subquery)"
  | .exclusiveOr => "XOR"
  | .caretOperator => "the ^ operator"
  | .assignment => ":= assignment"
  | .systemVariableAlone => "system variable outside an expression"
  | .dataType keyword => "data type " ++ keyword.spelling
  | .valuesOfExpression => "VALUES() of an expression"
  | .foundRows => "FOUND_ROWS()"
  | .formatNotLiteral => "DATE_FORMAT with a non-literal format"
  | .formatSpecifier specifier => s!"DATE_FORMAT specifier %{specifier}"
  | .withoutInterval name => s!"{name} without INTERVAL"
  | .orderInside name => s!"ORDER BY inside {name}"
  | .severalArguments name => s!"{name} with several arguments"
  | .distinctWithSeparator => "GROUP_CONCAT(DISTINCT ...) with a custom separator"
  | .lastInsertIdOf => "LAST_INSERT_ID(expr)"
  | .seededRandom => "RAND(seed)"
  | .function name => s!"function {name}"
  | .castTo keyword => "CAST to " ++ keyword.spelling
  | .datePart part => s!"date part {part}"
  | .intervalUnit unit => "INTERVAL unit " ++ unit.spelling
  | .alterAction => "ALTER TABLE action"
  | .alterKeyword keyword => "ALTER TABLE ... " ++ keyword.spelling
  | .addForeignKeyOrCheck => "ALTER TABLE ... ADD FOREIGN KEY or CHECK"
  | .addPrimaryKey => "ALTER TABLE ... ADD PRIMARY KEY"
  | .addConstraintsInList => "constraints in ALTER TABLE ... ADD (...)"
  | .addKeyedColumn => "ALTER TABLE ... ADD COLUMN with a key or AUTO_INCREMENT"
  | .dropPrimaryKey => "ALTER TABLE ... DROP PRIMARY KEY"
  | .dropForeignKey => "ALTER TABLE ... DROP FOREIGN KEY"
  | .renameIndex => "ALTER TABLE ... RENAME INDEX"
  | .renameColumn => "ALTER TABLE ... RENAME COLUMN"
  | .statements rule => rule.name ++ " statements"

/-- A defect of a syntax tree. -/
inductive Malformed where
  /-- A node without a child that its rule needs. -/
  | lacksNode (rule child : Rule)
  /-- A construct without one of its parts. -/
  | lacks (whole part : String)
  /-- A node that must stand for something and is empty. -/
  | writesNothing (rule : Rule)
  | empty (what : String)
deriving DecidableEq, Repr

def Malformed.message : Malformed → String
  | .lacksNode rule child => rule.name ++ " without " ++ child.name
  | .lacks whole part => s!"{whole} without {part}"
  | .writesNothing rule => "empty translation of " ++ rule.name
  | .empty what => s!"empty {what}"

/-- How many arguments a function takes. -/
inductive Arity where
  | exactly (count : Nat)
  | between (least most : Nat)
  | atLeast (least : Nat)
deriving DecidableEq, Repr

def Arity.message : Arity → String
  | .exactly count => s!"{count}"
  | .between least most => s!"between {least} and {most}"
  | .atLeast least => s!"at least {least}"

def Arity.admits : Arity → Nat → Bool
  | .exactly count, given => given == count
  | .between least most, given => least ≤ given && given ≤ most
  | .atLeast least, given => least ≤ given

/-- Why a piece of SQLite text must not be written. -/
inductive TokenFault where
  | number (text : String)
  | operator (text : String)
  | unknownFunction (name : String)
  | argumentCount (function : String) (expected : Arity) (given : Nat)
deriving DecidableEq, Repr

def TokenFault.message : TokenFault → String
  | .number text => s!"Invalid number: {text}"
  | .operator text => s!"Invalid SQLite operator or keyword: {text}"
  | .unknownFunction name => s!"Unknown SQLite function: {name}"
  | .argumentCount function expected given =>
    s!"Function {function} expects " ++ expected.message ++ s!" arguments, {given} given"

/-- A refusal by the storage, with its result code when it gave one. -/
structure StorageError where
  code : Option Int32
  message : String
deriving DecidableEq, Repr

namespace StorageError

/-- Whether the database was busy (primary result code 5) or locked (6). -/
def isBusy (error : StorageError) : Bool :=
  match error.code with
  | some code => code &&& 0xff == 5 || code &&& 0xff == 6
  | none => false

def display (error : StorageError) : String :=
  match error.code with
  | some code => error.message ++ " (code " ++ toString code.toInt ++ ")"
  | none => error.message

end StorageError

inductive Error where
  | parse (position : Nat) (fault : ParseFault)
  | unsupported (feature : Feature)
  | malformed (defect : Malformed)
  | invalidToken (fault : TokenFault)
  | storage (error : StorageError)
  | overflow
deriving DecidableEq, Repr

/-- The full text of an error. -/
def Error.message : Error → String
  | .parse position fault => s!"Parse error at position {position}: " ++ fault.message
  | .unsupported feature => "Unsupported: " ++ feature.message
  | .malformed defect => "Unsupported: " ++ defect.message
  | .invalidToken fault => "Invalid token: " ++ fault.message
  | .storage error => "Storage error: " ++ error.display
  | .overflow => "attempt to multiply with overflow"

end SqlBridge
