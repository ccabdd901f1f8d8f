/-
Syntax trees: tokens at the leaves, a grammar rule at every other node.

* Direct children are selected by rule or by token kind.
* `nearest?` searches the levels below a tree one after the other, so what it finds has the least
  depth and, of that depth, stands first.
* `tokens`, `text` and `outline` read a tree in document order.
* `assemble` builds a node and splices loose runs of children into it.
-/
import SqlBridge.Rule
import SqlBridge.Token

namespace SqlBridge

inductive Tree where
  | leaf (token : Token)
  | node (rule : Rule) (children : List Tree)
deriving Repr, Inhabited

namespace Tree

/-! ### Direct children -/

def children : Tree → List Tree
  | .leaf _ => []
  | .node _ children => children

def rule? : Tree → Option Rule
  | .leaf _ => none
  | .node rule _ => some rule

def token? : Tree → Option Token
  | .leaf token => some token
  | .node _ _ => none

def isNode (tree : Tree) : Bool := tree.rule?.isSome

/-- Whether the tree is a node of the given rule. -/
def hasRule (rule : Rule) (tree : Tree) : Bool := tree.rule? == some rule

/-- Whether the tree is a token of the given kind. -/
def hasKind (kind : Token.Kind) (tree : Tree) : Bool := tree.token?.any (·.kind == kind)

def childNodes (tree : Tree) : List Tree := tree.children.filter isNode

def childTokens (tree : Tree) : List Token := tree.children.filterMap token?

def childrenBy (tree : Tree) (rule : Rule) : List Tree := tree.children.filter (hasRule rule)

/-- The first child with the given rule. -/
def child? (tree : Tree) (rule : Rule) : Option Tree := tree.children.find? (hasRule rule)

def hasChild (tree : Tree) (rule : Rule) : Bool := (tree.child? rule).isSome

def firstNode? (tree : Tree) : Option Tree := tree.children.find? isNode

def firstToken? (tree : Tree) : Option Token := tree.childTokens.head?

/-- The keyword of the first token among the children. -/
def firstKeyword? (tree : Tree) : Option Keyword := tree.firstToken?.bind Token.keyword?

def childTokensBy (tree : Tree) (kind : Token.Kind) : List Token :=
  tree.childTokens.filter (·.kind == kind)

def childToken? (tree : Tree) (kind : Token.Kind) : Option Token :=
  tree.childTokens.find? (·.kind == kind)

def hasToken (tree : Tree) (kind : Token.Kind) : Bool := (tree.childToken? kind).isSome

def hasKeyword (tree : Tree) (keyword : Keyword) : Bool := tree.hasToken (.keyword keyword)

def hasSymbol (tree : Tree) (symbol : Symbol) : Bool := tree.hasToken (.symbol symbol)

/-- The keywords among the children, in order. -/
def childKeywords (tree : Tree) : List Keyword := tree.childTokens.filterMap Token.keyword?

/-! ### All descendants -/

mutual

/-- Everything below a tree, in document order. -/
def descendants : Tree → List Tree
  | .leaf _ => []
  | .node _ children => descendantsOfAll children

def descendantsOfAll : List Tree → List Tree
  | [] => []
  | tree :: rest => tree :: (tree.descendants ++ descendantsOfAll rest)

end

mutual

/-- The tokens of a tree, in document order. -/
def tokens : Tree → List Token
  | .leaf token => [token]
  | .node _ children => tokensOfAll children

def tokensOfAll : List Tree → List Token
  | [] => []
  | tree :: rest => tree.tokens ++ tokensOfAll rest

end

mutual

/-- The number of levels below a tree. -/
def height : Tree → Nat
  | .leaf _ => 0
  | .node _ children => heightOfAll children

/-- The number of levels of a row of trees, the row itself included. -/
def heightOfAll : List Tree → Nat
  | [] => 0
  | tree :: rest => max (tree.height + 1) (heightOfAll rest)

end

def descendantsBy (tree : Tree) (rule : Rule) : List Tree := tree.descendants.filter (hasRule rule)

def tokensBy (tree : Tree) (kind : Token.Kind) : List Token := tree.tokens.filter (·.kind == kind)

/-- The first match in a row of trees, else in the rows below it. -/
def nearestIn (test : Tree → Bool) : (levels : Nat) → List Tree → Option Tree
  | 0, _ => none
  | levels + 1, row => row.find? test <|> nearestIn test levels (row.flatMap children)

/-- The nearest descendant that passes a test. -/
def nearest? (tree : Tree) (test : Tree → Bool) : Option Tree :=
  nearestIn test tree.height tree.children

def nearestNode? (tree : Tree) (rule : Rule) : Option Tree := tree.nearest? (hasRule rule)

def nearestToken? (tree : Tree) (kind : Token.Kind) : Option Token :=
  (tree.nearest? (hasKind kind)).bind token?

/-- The tree itself if it has the rule, else the nearest descendant that has it. -/
def selfOrNearest? (tree : Tree) (rule : Rule) : Option Tree :=
  if tree.hasRule rule then some tree else tree.nearestNode? rule

/-- What all tokens stand for, without separators. -/
def text (tree : Tree) : String := String.join (tree.tokens.map Token.text)

/-! ### Outline -/

def indent (depth : Nat) : String := String.join (List.replicate depth "  ")

mutual

def outlineLines (depth : Nat) : Tree → List String
  | .leaf token => if token.isEnding then [] else [indent depth ++ token.value]
  | .node rule children => (indent depth ++ rule.name) :: outlineLinesOfAll (depth + 1) children

def outlineLinesOfAll (depth : Nat) : List Tree → List String
  | [] => []
  | tree :: rest => tree.outlineLines depth ++ outlineLinesOfAll depth rest

end

/-- One line per rule or token, indented by depth; the ending is left out. -/
def outline (tree : Tree) : String := String.join ((tree.outlineLines 0).map (· ++ "\n"))

/-! ### Building -/

/-- What a tree contributes to the children of its parent. -/
def spliced : Tree → List Tree
  | .node .fragment children => children
  | tree => [tree]

/-- A node whose loose runs of children are merged into it. -/
def assemble (rule : Rule) (children : List Tree) : Tree := .node rule (children.flatMap spliced)

/-! ### Names -/

/-- The name an identifier node stands for, empty if it holds no token. -/
def nameText (tree : Tree) : String := (tree.firstToken?.map Token.text).getD ""

/-- The last identifier of a dotted name. -/
def lastName? (tree : Tree) : Option String := (tree.childrenBy .identifier).getLast?.map nameText

end Tree

end SqlBridge
