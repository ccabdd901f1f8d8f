/-
What the description of a column takes from its table: the keys that constraints declare, and the
character set and collation of the table.
-/
import SqlBridge.Catalog.Index

namespace SqlBridge

/-- The key a column belongs to; the later ones take precedence. -/
inductive ColumnKey where
  | none | multiple | unique | primary
deriving DecidableEq, Repr, Inhabited

namespace ColumnKey

def name : ColumnKey → String
  | .none => ""
  | .multiple => "MUL"
  | .unique => "UNI"
  | .primary => "PRI"

def rank : ColumnKey → Nat
  | .none => 0
  | .multiple => 1
  | .unique => 2
  | .primary => 3

/-- The one of two keys that takes precedence. -/
def join (a b : ColumnKey) : ColumnKey := if a.rank < b.rank then b else a

/-- The one of several keys that takes precedence. -/
def joinAll (keys : List ColumnKey) : ColumnKey := keys.foldl join .none

end ColumnKey

def defaultCharset : String := "utf8mb4"

def defaultCollation : String := "utf8mb4_general_ci"

structure TableFacts where
  charset : Option String := none
  collation : Option String := none
  /-- Columns in lower case, each with a key that a constraint gives it. -/
  keys : List (String × ColumnKey) := []
deriving Repr, Inhabited

namespace TableFacts

/-- The columns of the key that a constraint declares. -/
def keyColumns (constraint : Tree) : List String :=
  match constraint.child? .keyList with
  | some keys => ((keys.childrenBy .keyPart).filterMap (·.child? .identifier)).map Tree.nameText
  | none => []

/-- The keys that a constraint gives to columns: a primary key to all of its own, others to their
first. -/
def keysOf (constraint : Tree) : List (String × ColumnKey) :=
  let columns := (keyColumns constraint).map Text.lowercase
  match constraint.indexKind? with
  | some .primary => columns.map (·, .primary)
  | some .unique => (columns.take 1).map (·, .unique)
  | some _ => (columns.take 1).map (·, .multiple)
  | none =>
    if constraint.hasKeyword .FOREIGN then (columns.take 1).map (·, .multiple) else []

/-- The options of a table. -/
def tableOptions (createTable : Tree) : List Tree :=
  match createTable.child? .createTableOptions with
  | some options => options.childrenBy .createTableOption
  | none => []

/-- The last value of an option that names a character set or a collation, in lower case. -/
def lastNamed? (createTable : Tree) (rule : Rule) : Option String :=
  ((tableOptions createTable).filterMap (·.child? rule)).getLast?.map fun name =>
    Text.lowercase name.text

def ofCreateTable (createTable : Tree) : TableFacts where
  charset := lastNamed? createTable .charsetName
  collation := lastNamed? createTable .collationName
  keys := match createTable.child? .tableElementList with
    | some elements => elements.constraints.flatMap keysOf
    | none => []

/-- The facts about a table of which only the collation is known. -/
def ofCollation (collation : Option String) : TableFacts := { collation }

/-- The key that constraints give to a column. -/
def key (facts : TableFacts) (column : String) : ColumnKey :=
  ColumnKey.joinAll
    ((facts.keys.filter fun entry => entry.1 == Text.lowercase column).map Prod.snd)

/-- Whether a constraint makes a column part of the primary key. -/
def isPrimaryKey (facts : TableFacts) (column : String) : Bool :=
  facts.keys.contains (Text.lowercase column, .primary)

/-- The collation that the catalog reports for the table. -/
def tableCollation (facts : TableFacts) : String :=
  match facts.collation, facts.charset with
  | some collation, _ => collation
  | none, some charset => charset ++ "_general_ci"
  | none, none => defaultCollation

end TableFacts

end SqlBridge
