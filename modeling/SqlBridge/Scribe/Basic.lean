/-
Writing SQLite for a MySQL syntax tree.

A tree is written from its leaves up: a `Draft` is a tree in which every part already carries the
computation that writes it.  How a node is written depends on its rule and on the drafts of its
parts, so the computations are given by recursion on the tree and nothing else.

* `Scribe` is the type of these computations.  One may fail, and on the way, also before it fails,
  it notes which features for counting found rows it meets.
* `Branch` is a node that is about to be written, with its parts drafted.
* A part that stands for nothing in SQLite is written as `none`.
-/
import SqlBridge.Sql.Checked
import SqlBridge.Tree

namespace SqlBridge

/-- The features for counting found rows that were met so far. -/
structure Sightings where
  /-- The select option `SQL_CALC_FOUND_ROWS`. -/
  calcFoundRows : Bool := false
  /-- The function `FOUND_ROWS()`. -/
  foundRows : Bool := false
deriving DecidableEq, Repr, Inhabited

/-- A computation that writes SQL, or fails; its sightings are kept in both cases. -/
abbrev Scribe := ExceptT Error (StateM Sightings)

/-- The outcome of a computation that starts without sightings. -/
def Scribe.outcome {α : Type} (scribe : Scribe α) : Except Error α × Sightings :=
  (ExceptT.run scribe).run {}

inductive Draft where
  | mk (tree : Tree) (parts : List Draft) (write : Scribe (Option Sql))

/-- A node to be written. -/
structure Branch where
  tree : Tree
  parts : List Draft

namespace Draft

def tree : Draft → Tree
  | .mk tree _ _ => tree

def parts : Draft → List Draft
  | .mk _ parts _ => parts

def write : Draft → Scribe (Option Sql)
  | .mk _ _ write => write

def branch (draft : Draft) : Branch := ⟨draft.tree, draft.parts⟩

def rule (draft : Draft) : Rule := draft.tree.rule?.getD .fragment

/-- What a part is written as, nothing if it has no counterpart. -/
def sql (draft : Draft) : Scribe Sql := return (← draft.write).getD []

/-- What a part is written as that must stand for something. -/
def required (draft : Draft) : Scribe Sql := do
  match ← draft.write with
  | some sql => return sql
  | none => throw (.malformed (.writesNothing draft.rule))

/-- Parts written one after the other, each in its own way. -/
def writeEach (write : Draft → Scribe Sql) : List Draft → Scribe Sql
  | [] => return []
  | draft :: rest => do
    let first ← write draft
    return first ++ (← writeEach write rest)

/-- The parts that are written, one after the other; `none` if nothing is. -/
def sequence (parts : List Draft) : Scribe (Option Sql) := do
  let sql ← writeEach Draft.sql parts
  return if sql.isEmpty then none else some sql

/-- Parts that must all stand for something, each on its own. -/
def requiredAll : List Draft → Scribe (List Sql)
  | [] => return []
  | draft :: rest => do
    let first ← draft.required
    return first :: (← requiredAll rest)

end Draft

namespace Branch

def child? (node : Branch) (rule : Rule) : Option Draft := node.parts.find? (·.tree.hasRule rule)

def childrenBy (node : Branch) (rule : Rule) : List Draft := node.parts.filter (·.tree.hasRule rule)

def nodes (node : Branch) : List Draft := node.parts.filter (·.tree.isNode)

def firstNode? (node : Branch) : Option Draft := node.parts.find? (·.tree.isNode)

def sequence (node : Branch) : Scribe (Option Sql) := Draft.sequence node.parts

/-- The first child with a rule that the node cannot do without. -/
def need (node : Branch) (rule : Rule) : Scribe Draft :=
  match node.child? rule with
  | some child => return child
  | none => throw (.malformed (.lacksNode (node.tree.rule?.getD .fragment) rule))

/-- What the first child with a rule is written as. -/
def needed (node : Branch) (rule : Rule) : Scribe Sql := do (← node.need rule).required

end Branch

/-- The value of a part that the whole cannot do without. -/
def Scribe.part {α : Type} (whole part : String) : Option α → Scribe α
  | some value => return value
  | none => throw (.malformed (.lacks whole part))

/-- Stop at a feature that SQLite has no counterpart for. -/
def Scribe.unsupported {α : Type} (feature : Feature) : Scribe α := throw (.unsupported feature)

end SqlBridge
