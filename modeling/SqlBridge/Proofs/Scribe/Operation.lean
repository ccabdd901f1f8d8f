/-
What expressions are written as.

* `SqlTerm.written`: the term that is written for a term of MySQL, with the parentheses that are put
  around operands of operators on bits, and with `NOT` for `!`.
* `Draft.Spells`: a draft is written, and its SQL reads as some tokens.
* `Tree.Means`: an expression has the operators and operands of a term, and is written as the tokens
  of its written term.
-/
import SqlBridge.Proofs.Grammar.Operation
import SqlBridge.Proofs.Scribe.Results
import SqlBridge.Proofs.Sql.Reading
import SqlBridge.Proofs.Token.WellSpelled

namespace SqlBridge

open List Draft Token

variable {α β : Type} {path : List (Token × Token)} {lex : Lexeme} {first second : SqlTerm}
  (text : String)

/-! ### Computations that succeed -/

namespace Scribe

/-- A computation returns a value, and has nothing to note. -/
def Gives (scribe : Scribe α) (a : α) : Prop := ∀ seen, scribe.runFrom seen = (.ok a, seen)

theorem gives_pure (a : α) : (pure a : Scribe α).Gives a := fun _ => rfl

theorem gives_bind {scribe : Scribe α} {next : α → Scribe β} {a : α} {b : β} (h : scribe.Gives a)
    (hn : (next a).Gives b) : (scribe >>= next : Scribe β).Gives b := by
  intro seen
  rw [runFrom_bind, h seen]
  exact hn seen

theorem gives_map {scribe : Scribe α} {a : α} (f : α → β) (h : scribe.Gives a) :
    (f <$> scribe : Scribe β).Gives (f a) := by
  have asBind : (f <$> scribe : Scribe β) = scribe >>= fun a => pure (f a) := by
    rw [bind_pure_comp]
  rw [asBind]
  exact gives_bind h (gives_pure (f a))

theorem gives_part {whole name : String} {value? : Option α} {value : α} (h : value? = some value) :
    (part whole name value?).Gives value := by
  subst h
  exact gives_pure value

theorem gives_lift {outcome : Except Error α} {a : α} (h : outcome = .ok a) :
    (liftM outcome : Scribe α).Gives a := by
  subst h
  exact fun _ => rfl

/-- A computation returns SQL that reads as some tokens. -/
def Spells (scribe : Scribe Sql) (lexs : List Lexeme) : Prop :=
  ∃ sql, scribe.Gives sql ∧ sql.Spells lexs

theorem spells_pure {sql : Sql} {lexs : List Lexeme} (h : sql.Spells lexs) :
    (pure sql : Scribe Sql).Spells lexs := ⟨sql, gives_pure sql, h⟩

end Scribe

open Scribe

namespace Draft

/-- A draft stands for SQL that reads as some tokens. -/
def Spells (draft : Draft) (lexs : List Lexeme) : Prop :=
  ∃ sql, draft.write.Gives (some sql) ∧ sql.Spells lexs

variable {draft : Draft} {parts : List Draft} {lexs more : List Lexeme}

theorem Spells.sql (h : draft.Spells lexs) : draft.sql.Spells lexs := by
  obtain ⟨sql, hw, hs⟩ := h
  exact ⟨sql, gives_bind hw (gives_pure _), hs⟩

theorem Spells.required (h : draft.Spells lexs) : draft.required.Spells lexs := by
  obtain ⟨sql, hw, hs⟩ := h
  exact ⟨sql, gives_bind hw (gives_pure _), hs⟩

theorem spells_writeEach_nil (write : Draft → Scribe Sql) : (writeEach write []).Spells [] :=
  spells_pure Sql.spells_nil

theorem spells_writeEach_cons {write : Draft → Scribe Sql} (h : (write draft).Spells lexs)
    (hp : (writeEach write parts).Spells more) :
    (writeEach write (draft :: parts)).Spells (lexs ++ more) := by
  obtain ⟨sql, hg, hsp⟩ := h
  obtain ⟨rest, hr, hs⟩ := hp
  exact ⟨sql ++ rest, gives_bind hg (gives_bind hr (gives_pure _)), hsp.append hs⟩

/-- Parts that are written one after the other, at least one of them as something. -/
theorem spells_sequence (h : (writeEach Draft.sql parts).Spells lexs) (hne : lexs ≠ []) :
    ∃ sql, (sequence parts).Gives (some sql) ∧ sql.Spells lexs := by
  obtain ⟨sql, hg, hs⟩ := h
  have hsq : sql.isEmpty = false := by
    cases sql with
    | nil =>
      cases hs
      exact absurd rfl hne
    | cons piece rest => rfl
  exact ⟨sql, gives_bind hg (by simpa [hsq] using gives_pure (some sql)), hs⟩

end Draft

/-! ### Tokens -/

namespace Token

variable {tok : Token} {kw : Keyword} {sym : Symbol} {op : Binary}

/-- A token is written as some tokens of SQLite. -/
def Spells (token : Token) (lexs : List Lexeme) : Prop :=
  ∃ sql, token.sql.Gives (some sql) ∧ sql.Spells lexs

theorem spells_leaf {lexs : List Lexeme} (h : tok.Spells lexs)
    (db : String) : (ofTree db (.leaf tok)).Spells lexs := h

theorem sql_keyword (h : tok.kind = .keyword kw) :
    tok.sql = some <$> kw.sql := by
  rw [Token.sql, h]

theorem sql_symbol (h : tok.kind = .symbol sym) :
    tok.sql = sym.sql := by
  rw [Token.sql, h]

/-- A keyword that is written as one word. -/
theorem spells_keyword (hk : tok.kind = .keyword kw) (hs : kw.sql = pure (Sql.word text))
    (hw : lex.Whole text.toList) : tok.Spells [lex] := by
  refine ⟨Sql.word text, ?_, Sql.spells_single rfl (.bare (by simpa [Piece.render] using hw))⟩
  rw [sql_keyword hk, hs]
  exact gives_map some (gives_pure _)

/-- A symbol that is written as a word. -/
theorem spells_word (hk : tok.kind = .symbol sym) (hs : sym.sql = pure (some (Sql.word text)))
    (hw : lex.Whole text.toList) : tok.Spells [lex] := by
  refine ⟨Sql.word text, ?_, Sql.spells_single rfl (.bare (by simpa [Piece.render] using hw))⟩
  rw [sql_symbol hk, hs]
  exact gives_pure _

/-- The symbols that are written as they are. -/
def plainSymbols : List Symbol :=
  [.equal, .notEqual, .bangEqual, .less, .lessEqual, .greater, .greaterEqual, .pipe, .ampersand,
    .shiftLeft, .shiftRight, .plus, .minus, .star, .slash, .percent, .tilde, .comma, .dot,
    .openParen, .closeParen]

theorem operator_plain (h : sym ∈ plainSymbols) :
    Sql.operator sym.spelling = .ok (.operator sym.spelling) := by
  have ha : ∀ sym ∈ plainSymbols, Text.asciiUpper sym.spelling = sym.spelling ∧
      sqliteOperators.contains sym.spelling := by decide +kernel
  obtain ⟨hu, ho⟩ := ha sym h
  rw [Sql.operator, hu, if_pos ho]

/-- A symbol is one token. -/
theorem whole_symbol (h : sym ∈ plainSymbols) :
    Lexeme.Whole (.symbol sym.spelling) sym.spelling.toList := by
  have ha : ∀ sym ∈ plainSymbols,
      Lexeme.Whole (.symbol sym.spelling) sym.spelling.toList := by decide +kernel
  exact ha sym h

theorem spells_symbol (hk : tok.kind = .symbol sym)
    (h : sym ∈ plainSymbols) : tok.Spells [.symbol sym.spelling] := by
  have hs : sym.sql = (do return some [← Sql.operator sym.spelling]) := by
    simp only [plainSymbols, mem_cons, not_mem_nil, or_false] at h
    rcases h with rfl | rfl | rfl | rfl | rfl | rfl | rfl | rfl | rfl | rfl | rfl | rfl | rfl |
      rfl | rfl | rfl | rfl | rfl | rfl | rfl | rfl <;> rfl
  refine ⟨[.operator sym.spelling], ?_,
    Sql.spells_single rfl (.bare (by simpa [Piece.render] using whole_symbol h))⟩
  rw [sql_symbol hk, hs]
  exact gives_bind (gives_lift (operator_plain h)) (gives_pure _)

theorem spells_isSymbol (hs : tok.isSymbol sym)
    (h : sym ∈ plainSymbols) : tok.Spells [.symbol sym.spelling] :=
  spells_symbol (eq_of_beq hs) h

theorem spells_isKeyword (hk : tok.isKeyword kw) (hs : kw.sql = pure (Sql.word text))
    (hw : Lexeme.Whole (.word text) text.toList) : tok.Spells [.word text] :=
  spells_keyword text (eq_of_beq hk) hs hw

theorem spells_logical (h : tok.logical? = some op) :
    tok.Spells op.lexemes := by
  unfold logical? at h
  split at h <;> cases h <;> rename_i hk
  · exact spells_keyword "OR" hk rfl (by decide)
  · exact spells_word "OR" hk rfl (by decide)
  · exact spells_keyword "AND" hk rfl (by decide)
  · exact spells_word "AND" hk rfl (by decide)

theorem spells_comparison (h : tok.comparison? = some op) : tok.Spells op.lexemes := by
  unfold comparison? at h
  split at h <;> cases h <;> rename_i hk
  · exact spells_word "IS" hk rfl (by decide)
  all_goals exact spells_symbol hk (by decide)

theorem spells_arithmetic (h : tok.arithmetic? = some op) : tok.Spells op.lexemes := by
  unfold arithmetic? at h
  -- `DIV` and `MOD` are keywords, all others are symbols
  split at h <;> cases h <;> rename_i hk <;> first
    | exact spells_symbol hk (by decide)
    | exact spells_keyword "/" hk rfl (by decide)
    | exact spells_keyword "%" hk rfl (by decide)

/-- The signs are written as they are, `!` excepted. -/
theorem spells_sign {tok : Token} {op : Unary} (h : tok.sign? = some op)
    (hb : op ≠ .bang) : tok.Spells [op.lexeme] := by
  unfold sign? at h
  split at h <;> cases h <;> rename_i hk
  case h_4.refl => exact absurd rfl hb
  all_goals exact spells_symbol hk (by decide)

theorem spells_truth {tok : Token} (h : tok.truth? = some lex) : tok.Spells [lex] := by
  unfold truth? at h
  split at h <;> cases h <;> rename_i hk
  · exact spells_keyword "NULL" hk rfl (by decide)
  · exact spells_keyword "NULL" hk rfl (by decide)
  · exact spells_keyword "TRUE" hk rfl (by decide)
  · exact spells_keyword "FALSE" hk rfl (by decide)

/-- The word of a predicate, after the `NOT` that may come first. -/
theorem spells_pattern {neg : Bool} (h : tok.pattern? neg = some op) :
    ∃ lex, tok.Spells [lex] ∧ op.lexemes = Lexeme.negation neg ++ [lex] := by
  unfold pattern? at h
  split at h <;> cases h <;> rename_i hk
  · exact ⟨_, spells_keyword "LIKE" hk rfl (by decide), rfl⟩
  · exact ⟨_, spells_keyword "REGEXP" hk rfl (by decide), rfl⟩
  · exact ⟨_, spells_keyword "REGEXP" hk rfl (by decide), rfl⟩

end Token

/-! ### The written term -/

namespace Binary

/-- The operators on numbers and bits. -/
def isArithmetic (operator : Binary) : Bool := 7 ≤ operator.levels.1

/-- The operators that SQLite ranks alike and MySQL does not. -/
def isBitwise (operator : Binary) : Bool := operator.isArithmetic && operator.levels.1 < 10

end Binary

namespace SqlTerm

variable {op : Binary}

/-- Whether a term is an operation on numbers or bits, with no parentheses around it. -/
def isArithmetic : SqlTerm → Bool
  | .binary operator _ _ => operator.isArithmetic
  | _ => false

/-- Whether an operand is put in parentheses under an operator. -/
def guarded (operator : Binary) (operand : SqlTerm) : Bool :=
  operator.isBitwise && operand.isArithmetic

/-- What is written for a term. -/
def written : SqlTerm → SqlTerm
  | .constant lexeme => .constant lexeme
  | .column first path => .column first path
  | .parens inside => .parens inside.written
  | .unary .bang operand => .unary .not (.parens operand.written)
  | .unary operator operand => .unary operator operand.written
  | .binary operator left right =>
    .binary operator
      (if left.guarded operator then .parens left.written else left.written)
      (if right.guarded operator then .parens right.written else right.written)
  | .isIn negated left list => .isIn negated left.written list.written
  | .ternary operator negated left middle right =>
    .ternary operator negated left.written middle.written right.written

theorem print_written_binary (h : op.isBitwise = false) (left right : SqlTerm) :
    (binary op left right).written.print =
      left.written.print ++ op.lexemes ++ right.written.print := by
  simp [written, guarded, h, print]

end SqlTerm

/-! ### Rows of trees -/

theorem Branch.columnName_of_three (db : String) {node : Branch} {schema table col : Draft}
    (h : node.childrenBy .identifier = [schema, table, col]) :
    node.columnName db = if namesDatabase db schema then do
      let table ← table.required
      return some (table ++ .raw "." :: (← col.required))
    else node.sequence := by
  rw [columnName, h]

namespace Tree

variable {db : String} {tree : Tree} {trees kids : List Tree} {lexs more : List Lexeme}
  {tok : Token} {op : Binary} {rule : Rule} {parts : List Part} {term : SqlTerm}

/-- A tree is written as some tokens of SQLite. -/
def Spells (db : String) (tree : Tree) (lexs : List Lexeme) : Prop := (ofTree db tree).Spells lexs

/-- Trees that are written one after the other as some tokens of SQLite. -/
def SpellsAll (db : String) (trees : List Tree) (lexs : List Lexeme) : Prop :=
  (writeEach Draft.sql (ofTrees db trees)).Spells lexs

theorem spellsAll_nil : SpellsAll db [] [] := spells_writeEach_nil _

theorem spellsAll_cons (h : tree.Spells db lexs) (hr : SpellsAll db trees more) :
    SpellsAll db (tree :: trees) (lexs ++ more) :=
  spells_writeEach_cons h.sql hr

/-- A node that is written as its children one after the other. -/
theorem spells_sequence
    (hw : (ofTree db (.node rule kids)).write = sequence (ofTrees db kids))
    (h : SpellsAll db kids lexs) (hne : lexs ≠ []) : (Tree.node rule kids).Spells db lexs := by
  obtain ⟨sql, hg, hs⟩ := Draft.spells_sequence h hne
  exact ⟨sql, hw ▸ hg, hs⟩

/-- A node that is written as its only child. -/
theorem spells_single (term : SqlTerm)
    (hw : (ofTree db (.node rule [tree])).write = sequence (ofTrees db [tree]))
    (h : tree.Spells db term.print) : (Tree.node rule [tree]).Spells db term.print :=
  spells_sequence hw (by simpa using spellsAll_cons h spellsAll_nil) term.print_ne_nil

/-- A tree is an operand, and is written as the tokens of its written term. -/
structure Stands (db : String) (tree : Tree) (term : SqlTerm) : Prop where
  operator : tree.operator? = none
  term_eq : tree.term? db = some term
  spells : tree.Spells db term.written.print

/-- Children of a node, with their parts and the tokens that they are written as. -/
inductive Row (db : String) : List Tree → List Part → List Lexeme → Prop
  | nil : Row db [] [] []
  | word {tree : Tree} {token : Token} {trees : List Tree} {parts : List Part}
      {lexs more : List Lexeme} (hword : tree.operator? = some token) (h : tree.Spells db lexs)
      (hrest : Row db trees parts more) :
        Row db (tree :: trees) (.word token :: parts) (lexs ++ more)
  | operand {tree : Tree} {term : SqlTerm} {trees : List Tree} {parts : List Part}
      {more : List Lexeme} (h : tree.Stands db term) (hrest : Row db trees parts more) :
      Row db (tree :: trees) (.operand term :: parts) (term.written.print ++ more)

namespace Row

theorem parts?_eq (h : Row db trees parts lexs) : parts? db trees = some parts := by
  induction h with
  | nil => rfl
  | word hw h hr ih => simp [parts?, hw, ih]
  | operand h hr ih => simp [parts?, h.operator, h.term_eq, ih]

theorem spellsAll (h : Row db trees parts lexs) : SpellsAll db trees lexs := by
  induction h with
  | nil => exact spellsAll_nil
  | word hw h hr ih => exact spellsAll_cons h ih
  | operand h hr ih => exact spellsAll_cons h.spells ih

theorem leaf (h : tok.Spells lexs) (hr : Row db trees parts more) :
    Row db (.leaf tok :: trees) (.word tok :: parts) (lexs ++ more) := .word rfl h hr

theorem keyword {kw : Keyword} (hk : tok.isKeyword kw)
    (hs : kw.sql = pure (Sql.word text)) (hw : Lexeme.Whole (.word text) text.toList)
    (hr : Row db trees parts more) :
    Row db (.leaf tok :: trees) (.word tok :: parts) (.word text :: more) :=
  leaf (spells_isKeyword text hk hs hw) hr

theorem symbol {sym : Symbol} (hs : tok.isSymbol sym) (h : sym ∈ plainSymbols)
    (hr : Row db trees parts more) :
    Row db (.leaf tok :: trees) (.word tok :: parts) (.symbol sym.spelling :: more) :=
  leaf (spells_isSymbol hs h) hr

/-- The `NOT` in front of an operator. -/
theorem not {not? : Option Token} (hn : ∀ word ∈ not?, word.isKeyword .NOT)
    (hr : Row db trees parts more) :
    Row db (ofWord? not? ++ trees) (not?.toList.map .word ++ parts)
      (Lexeme.negation not?.isSome ++ more) := by
  cases not? with
  | none => exact hr
  | some word => exact keyword "NOT" (hn word rfl) rfl (by decide) hr

end Row

/-- The rules of operations. -/
def operationRules : List Rule :=
  [.exprWithParentheses, .simpleExpr, .expr, .exprList, .boolPri, .predicate, .bitExpr]

/-- A node is an operand by its parts. -/
theorem stands_of_parts (hr : rule ∈ operationRules) (hp : parts? db kids = some parts)
    (ho : Part.operation? rule parts = some term)
    (hs : (Tree.node rule kids).Spells db term.written.print) :
    (Tree.node rule kids).Stands db term := by
  refine ⟨?_, ?_, hs⟩
  · unfold operator?
    split
    · rename_i heq
      cases heq
    · rename_i heq
      cases heq
      exact absurd hr (by decide)
    · rfl
  · rw [term?, hp]
    · exact ho
    all_goals
      rintro rfl
      exact absurd hr (by decide)

/-- A node that is written as its children one after the other is an operand by their row. -/
theorem stands_of_row (h : Row db kids parts lexs) (hr : rule ∈ operationRules)
    (hw : (ofTree db (.node rule kids)).write = sequence (ofTrees db kids))
    (ho : Part.operation? rule parts = some term) (hl : term.written.print = lexs) :
    (Tree.node rule kids).Stands db term := by
  subst hl
  exact stands_of_parts hr h.parts?_eq ho (spells_sequence hw h.spellsAll (SqlTerm.print_ne_nil _))

/-! ### Expressions -/

/-- **An expression has the operators and operands of a term, and is written as the tokens of its
written term.**  It is no interval, and an operation on numbers or bits just if its term is one. -/
structure Means (db : String) (tree : Tree)
  (term : SqlTerm) : Prop extends Stands db tree term where
  node : ∃ rule kids, tree = .node rule kids ∧ rule ≠ .interval
  arithmetic : tree.hasRule .bitExpr = term.isArithmetic

theorem means_of_row (h : Row db kids parts lexs) (hr : rule ∈ operationRules)
    (hb : rule ≠ .bitExpr)
    (hw : (ofTree db (.node rule kids)).write = sequence (ofTrees db kids))
    (ho : Part.operation? rule parts = some term) (ha : term.isArithmetic = false)
    (hl : term.written.print = lexs) : (Tree.node rule kids).Means db term := by
  refine ⟨stands_of_row h hr hw ho hl, ⟨rule, kids, rfl, ?_⟩, ?_⟩
  · rintro rfl
    exact absurd hr (by decide)
  · rw [ha, hasRule, rule?]
    simpa using hb

theorem spells_nameOf (db : String) (tok : Token) :
    (nameOf tok).Spells db [.quoted .double tok.text] :=
  ⟨[.name tok.text], gives_map some (gives_pure _), Sql.spells_single rfl (.name _)⟩

theorem spellsAll_path (hd : ∀ step ∈ path, step.1.isSymbol .dot) :
    SpellsAll db (path.flatMap fun step => [.leaf step.1, nameOf step.2])
      (SqlTerm.pathLexemes (path.map (·.2.text))) := by
  induction path with
  | nil => exact spellsAll_nil
  | cons step rest ih =>
    rw [forall_mem_cons] at hd
    have hr := spellsAll_cons (spells_leaf (spells_isSymbol hd.1 (by decide)) db)
      (spellsAll_cons (spells_nameOf db step.2) (ih hd.2))
    exact hr

/-- A column, with or without the name of the database in front. -/
theorem spells_column {first : Token} (hdo : ∀ step ∈ path, step.1.isSymbol .dot)
    (ht : SqlTerm.ofNames? db (first.text :: path.map (·.2.text)) = some term) :
    (Tree.node .columnRef
      (nameOf first :: path.flatMap fun step => [.leaf step.1, nameOf step.2])).Spells db
      term.written.print := by
  have hro := spellsAll_cons (spells_nameOf db first) (spellsAll_path hdo)
  obtain ⟨sql, hg, hspe⟩ := Draft.spells_sequence hro (by simp)
  match path with
  | [] | [_] | _ :: _ :: _ :: _ =>
    cases ht
    exact ⟨sql, hg, hspe⟩
  | [(dot, table), (point, name)] =>
    have hth : (ofTree db (.node .columnRef (nameOf first ::
        [(dot, table), (point, name)].flatMap fun step =>
          [.leaf step.1, nameOf step.2]))).branch.childrenBy
          .identifier = [ofTree db (nameOf first), ofTree db (nameOf table),
            ofTree db (nameOf name)] := rfl
    have hdr (row : List Tree) : (ofTree db (.node .columnRef row)).write =
        (ofTree db (.node .columnRef row)).branch.columnName db := rfl
    have hw := (hdr _).trans (Branch.columnName_of_three db hth)
    have hn : Branch.namesDatabase db (ofTree db (nameOf first)) =
        Text.equalsIgnoringCase first.text db := rfl
    rw [hn] at hw
    simp only [SqlTerm.ofNames?, map_cons, map_nil] at ht
    by_cases hd : Text.equalsIgnoringCase first.text db
    · rw [if_pos hd] at ht hw
      cases ht
      obtain ⟨left, hl, hsp⟩ := (spells_nameOf db table).required
      obtain ⟨right, hr, hs⟩ := (spells_nameOf db name).required
      have hdot : Sql.Spells [.raw "."] [.symbol "."] :=
        Sql.spells_single rfl (.bare (by
          rw [Piece.render]
          exact whole_symbol (by decide : Symbol.dot ∈ plainSymbols)))
      refine ⟨left ++ .raw "." :: right, ?_, hsp.append (hdot.append hs)⟩
      rw [hw]
      exact gives_bind hl (gives_bind hr (gives_pure _))
    · rw [if_neg hd] at ht hw
      cases ht
      exact ⟨sql, by rwa [hw], hspe⟩

theorem means_column {first : Token} (hd : ∀ step ∈ path, step.1.isSymbol .dot)
    (ht : SqlTerm.ofNames? db (first.text :: path.map (·.2.text)) = some term) :
    (Tree.node .columnRef
      (nameOf first :: path.flatMap fun step => [.leaf step.1, nameOf step.2])).Means db term := by
  have hp : ((path.flatMap fun step => [.leaf step.1, nameOf step.2]).filter
      (hasRule .identifier)).map nameText = path.map (·.2.text) := by
    clear hd ht
    induction path with
    | nil => rfl
    | cons step rest ih => exact congrArg (step.2.text :: ·) ih
  refine ⟨⟨rfl, ?_, spells_column hd ht⟩, ⟨_, _, rfl, by decide⟩, ?_⟩
  · rw [term?, ← ht, ← hp]
    rfl
  · obtain ⟨name, names, rfl⟩ := SqlTerm.exists_column_of_ofNames? ht
    rfl

theorem spells_number {tok : Token} (hk : tok.kind.isNumber)
    (hn : Sql.isNumber tok.value.toList) : tok.Spells [.number tok.value] := by
  have hs : tok.sql = (do return some [← Sql.number tok.value]) := by
    unfold Token.sql
    split <;> simp_all [Token.Kind.isNumber]
  have hw := Lexeme.whole_of_isNumber hn
  rw [String.ofList_toList] at hw
  refine ⟨[.literal (.number tok.value)], ?_, Sql.spells_single rfl (.bare ?_)⟩
  · rw [hs]
    exact gives_bind (gives_lift (if_pos hn)) (gives_pure _)
  · simpa [Piece.render, Literal.render] using hw

theorem spells_boolean (db : String) (tok : Token) :
    (Tree.node .boolLiteral [.leaf tok]).Spells db
      [.number (if tok.isKeyword .TRUE then "1" else "0")] := by
  have hw (value : Bool) : Lexeme.Whole (.number (if value then "1" else "0"))
      (Piece.literal (.boolean value)).render.toList := by
    cases value <;> rw [Piece.render, Literal.render] <;> decide
  have ht : (Tree.node .boolLiteral [.leaf tok]).hasKeyword .TRUE = tok.isKeyword .TRUE := by
    simp only [hasKeyword, hasToken, childToken?, childTokens, children, filterMap_cons, token?,
      filterMap_nil, isKeyword, find?_cons]
    cases tok.kind == .keyword .TRUE <;> rfl
  have hwr : (ofTree db (.node .boolLiteral [.leaf tok])).write = pure (some
      [.literal (.boolean ((Tree.node .boolLiteral [.leaf tok]).hasKeyword .TRUE))]) := rfl
  refine ⟨[.literal (.boolean (tok.isKeyword .TRUE))], ?_,
    Sql.spells_single rfl (.bare (hw (tok.isKeyword .TRUE)))⟩
  rw [hwr, ht]
  exact gives_pure _

/-- A string, one or several tokens. -/
theorem spells_text (db : String) (kids : List Tree) :
    (Tree.node .textStringLiteral kids).Spells db
      (SqlTerm.ofString (Tree.node .textStringLiteral kids).text).print :=
  ⟨_, gives_pure _, Sql.spells_single rfl (.string _)⟩

/-- A literal is written as what it holds. -/
theorem means_literal (hc : constant? [tree] = some (.constant lex))
    (h : tree.Spells db [lex]) : (Tree.node .literal [tree]).Means db (.constant lex) :=
  ⟨⟨rfl, hc, spells_single (.constant lex) rfl h⟩, ⟨_, _, rfl, by decide⟩, rfl⟩

theorem means_temporal (db : String) (tok : Token) (kids : List Tree) :
    (Tree.node .literal [.node .temporalLiteral [.leaf tok,
      .node .textStringLiteral kids]]).Means db
      (.ofString (Tree.node .textStringLiteral kids).text) := by
  obtain ⟨sql, hg, hs⟩ := spells_text db kids
  exact means_literal rfl ⟨sql, gives_bind (gives_pure _) hg, hs⟩

/-- A sign is a symbol. -/
theorem kind_of_sign {tok : Token} {op : Unary} (h : tok.sign? = some op) :
    ∃ sym, tok.kind = .symbol sym ∧ (op = .bang ↔ sym = .bang) := by
  unfold sign? at h
  split at h
  case h_5 => cases h
  all_goals
    rename_i hk
    cases h
    exact ⟨_, hk, by decide⟩

/-- A sign and its operand. -/
theorem means_sign {op : Unary} (hsi : tok.sign? = some op) (h : tree.Means db term) :
    (Tree.node .simpleExpr [.leaf tok, tree]).Means db (.unary op term) := by
  obtain ⟨rule, kids, rfl, -⟩ := h.node
  obtain ⟨sym, hk, hb⟩ := kind_of_sign hsi
  have hw : (ofTree db (.node .simpleExpr [.leaf tok, .node rule kids])).write =
      if sym = .bang then do
        return some [.raw "NOT", .group (← (ofTree db (.node rule kids)).required)]
      else Draft.sequence (ofTrees db [.leaf tok, .node rule kids]) := by
    have hc : (Tree.node .simpleExpr [.leaf tok, .node rule kids]).hasKeyword .COLLATE =
        false := by
      simp [hasKeyword, hasToken, childToken?, childTokens, Tree.children, token?, hk]
    have hw : (ofTree db (.node .simpleExpr [.leaf tok, .node rule kids])).write =
        if tok.isKeyword .BINARY then (ofTree db (.node rule kids)).write
        else if tok.isSymbol .bang then do
          return some [.raw "NOT", .group (← (ofTree db (.node rule kids)).required)]
        else if (Tree.node .simpleExpr [.leaf tok, .node rule kids]).hasKeyword .COLLATE then
          (ofTree db (.node rule kids)).write
        else Draft.sequence (ofTrees db [.leaf tok, .node rule kids]) := rfl
    rw [hw, hc]
    simp [isKeyword, isSymbol, hk]
  have ho : Part.operation? .simpleExpr [.word tok, .operand term] = some (.unary op term) := by
    simp [Part.operation?, hsi]
  have hp : parts? db [.leaf tok, .node rule kids] = some [.word tok, .operand term] := by
    have hl : (leaf tok).operator? = some tok := rfl
    simp [parts?, hl, h.operator, h.term_eq]
  refine ⟨stands_of_parts (by decide) hp ho ?_, ⟨_, _, rfl, by decide⟩, rfl⟩
  by_cases hs : sym = .bang
  · rw [if_pos hs] at hw
    obtain ⟨sql, hg, hsp⟩ := h.spells.required
    obtain rfl := hb.2 hs
    refine ⟨[.raw "NOT", .group sql], ?_, ?_⟩
    · rw [hw]
      exact gives_bind hg (gives_pure _)
    · have hn : Sql.Spells [.raw "NOT"] [.word "NOT"] :=
        Sql.spells_single rfl (.bare (by
          rw [Piece.render]
          decide))
      exact hn.append hsp.group
  · rw [if_neg hs] at hw
    have hne : op ≠ .bang := fun h => hs (hb.1 h)
    have hr := Row.leaf (spells_sign hsi hne) (.operand h.toStands .nil)
    have hl :
        (SqlTerm.unary op term).written.print = [op.lexeme] ++ (term.written.print ++ []) := by
      cases op with
      | bang => exact absurd rfl hne
      | _ => simp [SqlTerm.written, SqlTerm.print]
    exact (stands_of_row hr (by decide) hw ho hl).spells

/-- An operation on numbers or bits. -/
theorem means_arithmetic {left right : Tree} (ho : tok.arithmetic? = some op)
    (hl : left.Means db first) (hr : right.Means db second) :
    (Tree.node .bitExpr [left, .leaf tok, right]).Means db (.binary op first second) := by
  have ha : op.isArithmetic ∧ Branch.isBitwise tok.symbol? = op.isBitwise := by
    unfold arithmetic? at ho
    split at ho <;> cases ho <;> simp [symbol?, *] <;> exact ⟨rfl, rfl⟩
  have hp := Row.operand hl.toStands
    (.leaf (spells_arithmetic ho) (.operand hr.toStands .nil))
  refine ⟨stands_of_parts (by decide) hp.parts?_eq (by simp [Part.operation?, ho]) ?_,
    ⟨_, _, rfl, by decide⟩, ha.1.symm⟩
  have hope {tree : Tree} {term : SqlTerm} (h : tree.Means db term) :
      ((if op.isBitwise then Branch.bitwiseOperand else Draft.sql)
        (ofTree db tree)).Spells
        (if term.guarded op then SqlTerm.parens term.written else term.written).print := by
    have ht : (ofTree db tree).tree = tree := by cases tree <;> rfl
    cases hop : op.isBitwise with
    | false => simpa [SqlTerm.guarded, hop] using h.spells.sql
    | true =>
      rw [if_pos rfl, SqlTerm.guarded, hop, Bool.true_and, ← h.arithmetic,
        Branch.bitwiseOperand, ht]
      cases tree.hasRule .bitExpr with
      | false => exact h.spells.sql
      | true =>
        obtain ⟨sql, hg, hs⟩ := h.spells.required
        exact ⟨Sql.group sql, gives_bind hg (gives_pure _), hs.group⟩
  have hm : ((if op.isBitwise then Branch.bitwiseOperand else Draft.sql)
      (ofTree db (.leaf tok))).Spells op.lexemes := by
    have hle := spells_leaf (spells_arithmetic ho) db
    cases op.isBitwise <;> exact hle.sql
  obtain ⟨sql, hg, hs⟩ := spells_writeEach_cons (hope hl)
    (spells_writeEach_cons hm (spells_writeEach_cons (hope hr) (spells_writeEach_nil _)))
  obtain ⟨rule, kids, rfl, hi⟩ := hl.node
  obtain ⟨rule', kids', rfl, hi'⟩ := hr.node
  -- no operand is an interval
  have hn : Branch.child? ⟨.node .bitExpr [.node rule kids, .leaf tok, .node rule' kids'],
      ofTrees db [.node rule kids, .leaf tok, .node rule' kids']⟩ .interval = none := by
    simp [Branch.child?, ofTrees, ofTree, Draft.tree, hasRule, rule?, hi, hi']
  have hw :
      (ofTree db (.node .bitExpr [.node rule kids, .leaf tok, .node rule' kids'])).write =
      some <$> Branch.arithmetic ⟨.node .bitExpr [.node rule kids, .leaf tok, .node rule' kids'],
        ofTrees db [.node rule kids, .leaf tok, .node rule' kids']⟩ := rfl
  refine ⟨sql, ?_, by simpa [SqlTerm.written, SqlTerm.print] using hs⟩
  rw [hw, Branch.arithmetic]
  refine gives_map some (gives_bind (gives_part rfl) ?_)
  rw [hn, ha.2]
  exact hg

/-- A comparison without a quantifier is written as its parts one after the other. -/
theorem write_boolPri (db : String)
    (h : ∀ kw ∈ (Tree.node .boolPri kids).childKeywords, kw ∉ [Keyword.ANY, .SOME, .ALL]) :
    (ofTree db (.node .boolPri kids)).write = sequence (ofTrees db kids) := by
  have hq : Branch.quantifier? ⟨.node .boolPri kids, ofTrees db kids⟩ = none :=
    find?_eq_none.2 fun kw hk => by simpa [not_or, and_assoc] using h kw hk
  have hw : (ofTree db (.node .boolPri kids)).write =
      Branch.comparison ⟨.node .boolPri kids, ofTrees db kids⟩ := rfl
  rw [hw, Branch.comparison, hq]
  rfl

/-- Two operands with a comparison between them. -/
theorem means_comparison {left right : Tree}
    (ho : tok.comparison? = some op) (hl : left.Means db first) (hr : right.Means db second) :
    (Tree.node .boolPri [left, .node .compOp [.leaf tok], right]).Means db
      (.binary op first second) := by
  have hop : op.isArithmetic = false ∧ op.isBitwise = false ∧ op.lexemes ≠ [] := by
    have h := ho
    unfold comparison? at h
    split at h <;> cases h <;> decide
  have ht := spellsAll_cons (spells_leaf (spells_comparison ho) db) spellsAll_nil
  have hc : (Tree.node .compOp [.leaf tok]).Spells db op.lexemes :=
    spells_sequence rfl (by simpa using ht) hop.2.2
  have hw : (ofTree db (.node .boolPri [left, .node .compOp [.leaf tok], right])).write =
      sequence (ofTrees db [left, .node .compOp [.leaf tok], right]) := by
    obtain ⟨rule, kids, rfl, -⟩ := hl.node
    obtain ⟨rule', kids', rfl, -⟩ := hr.node
    exact write_boolPri db (by simp [childKeywords, childTokens, children, token?])
  refine means_of_row (.operand hl.toStands (.word rfl hc (.operand hr.toStands .nil))) (by decide)
    (by decide) hw (by simp [Part.operation?, ho]) hop.1 ?_
  simp [SqlTerm.print_written_binary hop.2.1]

/-- A test with `IS`. -/
theorem means_truth {is value : Token} {not? : Option Token}
    (his : is.isKeyword .IS) (hn : ∀ word ∈ not?, word.isKeyword .NOT)
    (hv : value.truth? = some lex) (h : tree.Means db term) :
    (Tree.node .boolPri (tree :: .leaf is :: ofWord? not? ++ [leaf value])).Means db
      (.binary (if not?.isSome then .isNot else .is) term (.constant lex)) := by
  have hr := Row.operand h.toStands (.keyword "IS" his rfl (by decide)
    (.not hn (.leaf (spells_truth hv) .nil)))
  obtain ⟨kw, hk, hq⟩ : ∃ kw, value.kind = .keyword kw ∧ kw ∉ [Keyword.ANY, .SOME, .ALL] := by
    unfold truth? at hv
    split at hv
    case h_5 => cases hv
    all_goals exact ⟨_, ‹_›, by decide⟩
  obtain ⟨rule, kids, rfl, -⟩ := h.node
  have hkey : ∀ word ∈ not?, word.kind = .keyword .NOT := fun word hw => eq_of_beq (hn word hw)
  cases not?
  all_goals
    refine means_of_row hr (by decide) (by decide) (write_boolPri db ?_)
      (by simp [Part.operation?, hv]) rfl ?_
    · simpa [childKeywords, childTokens, children, ofWord?, token?, keyword?,
        eq_of_beq his, hk, hkey, or_imp, forall_and] using hq
    · rw [SqlTerm.print_written_binary rfl]
      simp [SqlTerm.written, SqlTerm.print, Binary.lexemes, Lexeme.negation]

/-- What follows the left operand of a predicate and its `NOT` makes the term. -/
theorem means_predicate {word : Token} {not? : Option Token} {first : SqlTerm}
    (hn : ∀ word ∈ not?, word.isKeyword .NOT) (hw : word.isKeyword .NOT = false)
    (hl : tree.Means db first) (hr : Row db (.leaf word :: kids) (.word word :: parts) lexs)
    (ho : Part.predicate? not?.isSome first word parts = some term)
    (ha : term.isArithmetic = false)
    (hp : term.written.print = first.written.print ++ (Lexeme.negation not?.isSome ++ lexs)) :
    (Tree.node .predicate (tree :: ofWord? not? ++ .leaf word :: kids)).Means db term := by
  refine means_of_row (.operand hl.toStands (.not hn hr)) (by decide) (by decide) rfl ?_ ha hp
  cases not? with
  | none => simpa [Part.operation?, hw] using ho
  | some word =>
    have hnot : word.isKeyword .NOT := hn word rfl
    simpa [Part.operation?, hnot] using ho

theorem means_pattern {word : Token} {not? : Option Token} {left right : Tree}
    (hn : ∀ word ∈ not?, word.isKeyword .NOT)
    (ho : word.pattern? not?.isSome = some op) (hl : left.Means db first)
    (hr : right.Means db second) :
    (Tree.node .predicate (left :: ofWord? not? ++ [leaf word, right])).Means db
      (.binary op first second) := by
  obtain ⟨lex, hs, hlex⟩ := spells_pattern ho
  have hop : word.isKeyword .NOT = false ∧ op.isArithmetic = false := by
    unfold pattern? at ho
    split at ho <;> cases ho <;> simp [isKeyword, *] <;> rfl
  refine means_predicate hn hop.1 hl (.leaf hs (.operand hr.toStands .nil))
    (by simp [Part.predicate?, ho]) hop.2 ?_
  rw [SqlTerm.print_written_binary (by simp [Binary.isBitwise, hop.2]), hlex]
  simp

end Tree

end SqlBridge
