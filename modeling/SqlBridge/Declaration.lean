/-
What the declarations of a table say: the type of a column, its attributes and the keys.

* `typeKeyword?` is the keyword that decides what a data type is.
* `primaryKeyColumns?` are the columns of the primary key that a list of table elements declares on
  its own line.
-/
import SqlBridge.Tree

namespace SqlBridge

/-- The integer types of MySQL; `BOOL` and `BIT` are not among them. -/
def integerTypes : List Keyword := [.TINYINT, .SMALLINT, .MEDIUMINT, .INT, .INTEGER, .BIGINT]

namespace Tree

/-- The keyword that decides a data type.  `NATIONAL`, `NCHAR` and `LONG` leave that to the keyword
after them, if there is one. -/
def typeKeyword? (dataType : Tree) : Option Keyword :=
  match dataType.childKeywords with
  | .NATIONAL :: next :: _ | .NCHAR :: next :: _ | .LONG :: next :: _ => some next
  | first :: _ => some first
  | [] => none

def isIntegerType (dataType : Tree) : Bool := dataType.typeKeyword?.any integerTypes.contains

/-- Whether a column attribute makes its column the primary key. -/
def isPrimaryKeyAttribute (entry : Tree) : Bool :=
  entry.hasKeyword .PRIMARY || (entry.hasKeyword .KEY && !entry.hasKeyword .UNIQUE)

/-- The columns of the first `PRIMARY KEY (...)` in a list of table elements. -/
def primaryKeyColumns? (elements : Tree) : Option (List String) := do
  let constraints := (elements.childrenBy .tableElement).filterMap (·.child? .tableConstraintDef)
  let primary ← constraints.find? (·.hasKeyword .PRIMARY)
  let keys ← primary.child? .keyList
  return ((keys.childrenBy .keyPart).filterMap (·.child? .identifier)).map nameText

end Tree

end SqlBridge
