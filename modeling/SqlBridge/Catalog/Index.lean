/-
Indexes as they are declared.

* `Index.ofConstraint?` reads a constraint of a table, `Index.ofCreateIndex` a statement.
* `Index.ofElements` reads all constraints of a table.  An index is named for its first column
  unless it has a name, and a name that is taken gets the first free suffix `_2`, `_3`, and so on.
-/
import SqlBridge.Declaration
import SqlBridge.Error
import SqlBridge.Text.Basic
import SqlBridge.Text.Lowercase

namespace SqlBridge

inductive IndexKind where
  | primary | unique | plain | fulltext | spatial
deriving DecidableEq, Repr

def IndexKind.isUnique : IndexKind → Bool
  | .primary | .unique => true
  | _ => false

/-- How an index is stored, as the catalog reports it. -/
inductive IndexMethod where
  | btree | fulltext | spatial
deriving DecidableEq, Repr

def IndexMethod.name : IndexMethod → String
  | .btree => "BTREE"
  | .fulltext => "FULLTEXT"
  | .spatial => "SPATIAL"

/-- A column of an index, maybe cut to a number of characters. -/
structure KeyPart where
  column : String
  length : Option Int64
  descending : Bool
deriving DecidableEq, Repr

structure Index where
  name : String
  kind : IndexKind
  /-- The method that `USING` names. -/
  using? : Option Keyword
  comment : String
  parts : List KeyPart
  /-- The list of columns as it was declared. -/
  keys : Tree
deriving Repr

namespace Tree

/-- The first number among the tokens of a node, absent if it is no 64-bit integer. -/
def number? (tree : Tree) : Option Int64 :=
  (tree.childTokens.find? (·.kind.isNumber)).bind fun token => Text.toInt64? token.value

/-- The constraints that stand as elements of their own in a list of table elements. -/
def constraints (elements : Tree) : List Tree :=
  (elements.childrenBy .tableElement).filterMap (·.child? .tableConstraintDef)

/-- The columns defined in a list of table elements. -/
def columnDefinitions (elements : Tree) : List Tree :=
  (elements.childrenBy .tableElement).filterMap (·.child? .columnDefinition)

/-- The kind of index that a constraint declares; none for a foreign key or a check. -/
def indexKind? (constraint : Tree) : Option IndexKind :=
  match constraint.childKeywords.head? with
  | some .PRIMARY => some .primary
  | some .UNIQUE => some .unique
  | some .KEY | some .INDEX => some .plain
  | some .FULLTEXT => some .fulltext
  | some .SPATIAL => some .spatial
  | _ => none

end Tree

namespace KeyPart

def ofTree (part : Tree) : KeyPart where
  column := ((part.child? .identifier).map Tree.nameText).getD ""
  length := (part.child? .fieldLength).bind Tree.number?
  descending := (part.child? .direction).any (·.hasKeyword .DESC)

end KeyPart

namespace Index

/-- The method that the declaration of an index names, with the index or among its options. -/
def methodKeyword? (node : Tree) : Option Keyword :=
  let clauses := (node.child? .indexTypeClause).toList ++
    (node.childrenBy .indexOption).filterMap (·.child? .indexTypeClause)
  (clauses.findSome? (·.child? .indexType)).bind Tree.firstKeyword?

def commentText (node : Tree) : String :=
  let option? := (node.childrenBy .indexOption).find? (·.hasKeyword .COMMENT)
  ((option?.bind (·.child? .textStringLiteral)).map Tree.text).getD ""

/-- The index that a node declares. -/
def ofNode (node : Tree) (kind : IndexKind) : Except Error Index :=
  match node.child? .keyList with
  | none => .error (.malformed (.lacks "index" "key parts"))
  | some keys =>
    match (keys.childrenBy .keyPart).map KeyPart.ofTree with
    | [] => .error (.malformed (.lacks "index" "key parts"))
    | first :: rest =>
      let given? := (node.child? .indexName).bind Tree.lastName?
      .ok {
        name := if kind = .primary then "PRIMARY" else given?.getD first.column
        kind := kind
        using? := methodKeyword? node
        comment := commentText node
        parts := first :: rest
        keys := keys }

/-- The index that a constraint of a table declares, if it declares one. -/
def ofConstraint? (constraint : Tree) : Option Index :=
  constraint.indexKind?.bind fun kind => (ofNode constraint kind).toOption

/-- The index of a `CREATE INDEX`. -/
def ofCreateIndex (create : Tree) : Except Error Index :=
  ofNode create <| match create.firstKeyword? with
    | some .UNIQUE => .unique
    | some .FULLTEXT => .fulltext
    | some .SPATIAL => .spatial
    | _ => .plain

/-- A name and the same name with the suffixes `_2`, `_3`, up to `_n`. -/
def candidates (base : String) (n : Nat) : List String :=
  base :: (List.range (n - 1)).map fun k => s!"{base}_{k + 2}"

/-- The first of a name and its suffixed forms whose lower case is not among the used ones.  One of
the first `used.length + 1` candidates is free. -/
def freshName (used : List String) (base : String) : String :=
  ((candidates base (used.length + 1)).find? fun name =>
    !used.contains (Text.lowercase name)).getD base

/-- Indexes with names that differ from each other and from the used ones, case aside. -/
def named (used : List String) : List Index → List Index
  | [] => []
  | index :: rest =>
    let name := freshName used index.name
    { index with name } :: named (Text.lowercase name :: used) rest

/-- The indexes that a list of table elements declares. -/
def ofElements (elements : Tree) : List Index :=
  named [] (elements.constraints.filterMap ofConstraint?)

def isUnique (index : Index) : Bool := index.kind.isUnique

/-- The method that the declaration alone decides: `USING` first, then the kind. -/
def explicitMethod? (index : Index) : Option IndexMethod :=
  match index.using?, index.kind with
  | some .RTREE, _ => some .spatial
  | some .HASH, _ | some .BTREE, _ => some .btree
  | _, .fulltext => some .fulltext
  | _, .spatial => some .spatial
  | _, _ => none

/-- The method of an index, given whether its first column has a spatial type. -/
def method (index : Index) (spatialColumn : Bool) : IndexMethod :=
  index.explicitMethod?.getD (if spatialColumn then .spatial else .btree)

end Index

end SqlBridge
