/-
Drafts of trees that are admitted throughout.

What is written for a tree is known from its rule: whether it stands for something, and what may
stand outside parentheses in it (`Tree.Reads`).  A draft is proper if that is so for it and for all
its parts, and if it fails with tolerated errors only (`Draft.Proper`).  Which errors are tolerated
is left open, as long as refusals are; a call by name of a function that needs a form of its own may
fail in any way.

* `Scribe.Results`: what a computation returns, or fails with.
* `Token.results_sql`: what a token is written as.
* `Draft.results_row`: parts with matching parentheses, one after the other.
* `Draft.results_path`: names with dots between them.
-/
import SqlBridge.Proofs.Grammar.Shape
import SqlBridge.Proofs.Scribe.Counterpart
import SqlBridge.Proofs.Scribe.Results
import SqlBridge.Proofs.Token.WellSpelled

namespace SqlBridge

variable {α β : Type}

open Scribe List

theorem Composes.results {faulty : Error → Prop}
    (refuses : ∀ error : Error, error.IsRefusal → faulty error)
    {outcome : Except Error Sql} (h : Composes outcome) :
    (liftM outcome : Scribe Sql).Results faulty (Sql.Stands .item) := by
  refine results_lift ?_
  cases outcome with
  | ok sql => exact h.ends
  | error error => exact refuses error h.ends

/-! ### Tokens -/

/-- What a token is written as: nothing, or one token of SQLite. -/
structure Token.Reads (token : Token) (sql? : Option Sql) : Prop where
  spells : ∀ sql ∈ sql?, ∃ lexeme, sql.Spells [lexeme] ∧
    (∀ symbol ∈ [Symbol.openParen, .closeParen, .dot, .star],
      token.kind = .symbol symbol → lexeme = .symbol symbol.spelling) ∧
    ∀ loose, token.kind.isPlain loose → lexeme.isFlat loose ∧ lexeme.isDot = false
  written : (Tree.leaf token).isWritten → ∃ sql ∈ sql?, sql ≠ []

open Lexeme Sql

variable {keyword : Keyword} {token : Token} {symbol : Symbol}

theorem Lexeme.isLetters_ofList {text : List Char} (h : isLetters text) :
    isLetters (String.ofList text).toList := by
  rwa [String.toList_ofList]

theorem Keyword.isLetters_spelling (keyword : Keyword) :
    isLetters keyword.spelling.toList := by
  cases keyword <;> exact isLetters_ofList (by decide)

theorem Keyword.isFlat_spelling {loose : Looseness}
    (h : (Token.Kind.keyword keyword).isPlain loose) :
    (Lexeme.word keyword.spelling).isFlat loose := by
  cases keyword
  case PRIMARY | UNION => cases loose <;> first | rfl | exact h
  all_goals rfl

/-- A word, a number or a symbol as it is written. -/
theorem Token.reads_single {piece : Piece} {lexeme : Lexeme}
    (hf : piece.flat = [piece]) (hs : Piece.Single piece lexeme)
    (hsy : ∀ symbol ∈ [Symbol.openParen, .closeParen, .dot, .star],
      token.kind = .symbol symbol → lexeme = .symbol symbol.spelling)
    (hp : ∀ loose, token.kind.isPlain loose →
      lexeme.isFlat loose ∧ lexeme.isDot = false) : token.Reads (some [piece]) := by
  refine ⟨fun sql hsq => ?_, fun _ => ⟨[piece], rfl, by simp⟩⟩
  cases hsq
  exact ⟨lexeme, spells_single hf hs, hsy, hp⟩

/-- A token that is none of these symbols, written as one that can stand anywhere. -/
theorem Token.reads_isToken {piece : Piece} (h : isToken piece)
    (hk : ∀ symbol ∈ [Symbol.openParen, .closeParen, .dot, .star], token.kind ≠ .symbol symbol) :
    token.Reads (some [piece]) := by
  obtain ⟨lexeme, hf, hs, hl, hd⟩ := single_of_isToken h
  exact reads_single hf hs (fun symbol hsy heq => absurd heq (hk symbol hsy))
    fun loose _ => ⟨isFlat_mono Looseness.item_fits hl, hd⟩

theorem Token.reads_keyword (hk : token.kind = .keyword keyword) :
    token.Reads (some (Sql.word keyword.spelling)) := by
  have hw : Whole (.word keyword.spelling) (Piece.raw keyword.spelling).render.toList := by
    simpa [Piece.render] using whole_of_isLetters keyword.isLetters_spelling
  refine reads_single rfl (.bare hw) (by simp [hk]) fun loose hp => ?_
  rw [hk] at hp
  exact ⟨Keyword.isFlat_spelling hp, rfl⟩

variable {faulty : Error → Prop}

/-- What a keyword is written as. -/
theorem Keyword.results_sql (refuses : ∀ error : Error, error.IsRefusal → faulty error)
    (hk : token.kind = .keyword keyword) :
    (some <$> keyword.sql : Scribe (Option Sql)).Results faulty token.Reads := by
  have ho {text : String} (h : isWord text) :
      (some <$> (pure (word text) : Scribe Sql) : Scribe (Option Sql)).Results faulty
        token.Reads := by
    have hr : token.Reads (some [.raw text]) := Token.reads_isToken h (by simp [hk])
    exact results_map (results_pure hr) fun _ h => h
  unfold Keyword.sql
  split
  case h_9 => exact results_map (results_throw (refuses _ trivial)) fun _ h => h
  case h_10 =>
    exact results_map (results_pure (Token.reads_keyword hk)) fun _ h => h
  all_goals exact ho (by decide)

theorem Symbol.isFlat_spelling {loose : Looseness} (h : (Token.Kind.symbol symbol).isPlain loose) :
    (Lexeme.symbol symbol.spelling).isFlat loose ∧
      (Lexeme.symbol symbol.spelling).isDot = false := by
  cases symbol
  case comma => exact ⟨by cases loose <;> first | rfl | exact h, rfl⟩
  all_goals first | exact ⟨rfl, rfl⟩ | cases h

/-- A symbol that is written as it stands. -/
theorem Symbol.reads_operator (hk : token.kind = .symbol symbol)
    (h : Whole (.symbol symbol.spelling) symbol.spelling.toList) :
    token.Reads (some [.operator symbol.spelling]) := by
  have hw : Whole (.symbol symbol.spelling) (Piece.operator symbol.spelling).render.toList := by
    simpa [Piece.render] using h
  refine Token.reads_single rfl (.bare hw) (fun other _ heq => ?_) fun loose hp => ?_
  · rw [hk, Token.Kind.symbol.injEq] at heq
    rw [heq]
  · exact isFlat_spelling (hk ▸ hp)

/-- What a symbol is written as. -/
theorem Symbol.results_sql (refuses : ∀ error : Error, error.IsRefusal → faulty error)
    (hk : token.kind = .symbol symbol) : symbol.sql.Results faulty token.Reads := by
  have hwo {text : String} (h : isWord text)
      (hot : ∀ symbol ∈ [Symbol.openParen, .closeParen, .dot, .star],
        token.kind ≠ .symbol symbol) :
      (pure (some (word text)) : Scribe (Option Sql)).Results faulty token.Reads := by
    have hr : token.Reads (some [.raw text]) := Token.reads_isToken h hot
    exact results_pure hr
  have ho (hc : operator symbol.spelling = .ok (.operator symbol.spelling))
      (hwh : Whole (.symbol symbol.spelling) symbol.spelling.toList) :
      (do return some [← operator symbol.spelling] : Scribe (Option Sql)).Results faulty
        token.Reads := by
    rw [hc]
    exact results_pure (reads_operator hk hwh)
  cases symbol
  case semicolon =>
    refine results_pure ⟨by simp, fun hw => ?_⟩
    simp [Tree.isWritten, Token.isSymbol, hk] at hw
  case logicalOr | logicalAnd | bang | nullSafeEqual => exact hwo (by decide) (by simp [hk])
  case caret | assign | atAt => exact results_throw (refuses _ trivial)
  all_goals exact ho rfl (by decide)

/-- What a token is written as. -/
theorem Token.results_sql (refuses : ∀ error : Error, error.IsRefusal → faulty error)
    (h : token.WellSpelled) : token.sql.Results faulty token.Reads := by
  have hp {piece : Piece} (hp : isToken piece)
      (hk : ∀ symbol ∈ [Symbol.openParen, .closeParen, .dot, .star], token.kind ≠ .symbol symbol) :
      (pure (some [piece]) : Scribe (Option Sql)).Results faulty token.Reads :=
    results_pure (reads_isToken hp hk)
  have hn (hk : token.kind.isNumber) :
      (do return some [← number token.value] : Scribe (Option Sql)).Results faulty
        token.Reads := by
    have hv : isNumber token.value.toList := h.number hk
    have hc : Sql.number token.value = .ok (.literal (.number token.value)) := by
      rw [Sql.number, if_pos hv]
    rw [hc]
    refine hp hv ?_
    cases hs : token.kind <;> simp_all [Kind.isNumber]
  unfold Token.sql
  split
  case h_1 hk =>
    refine results_pure ⟨by simp, fun hw => ?_⟩
    simp [Tree.isWritten, Token.isEnding, hk] at hw
  case h_2 keyword hk => exact keyword.results_sql refuses hk
  case h_3 symbol hk => exact symbol.results_sql refuses hk
  case h_4 hk | h_5 hk | h_6 hk | h_7 hk => exact hp rfl (by simp [hk])
  case h_8 hk | h_9 hk | h_10 hk | h_11 hk => exact hn (by simp [hk, Kind.isNumber])
  case h_12 hk =>
    have hm : isToken (.raw "?") := by decide
    exact hp hm (by simp [hk])
  case h_13 => exact results_throw (refuses _ trivial)

/-! ### Trees -/

namespace Tree

/-- What may stand outside parentheses in what is written for a tree. -/
def looseness : Tree → Looseness
  | .leaf _ => .compound
  | .node .columnAttribute row =>
    if (Tree.node .columnAttribute row).isPrimaryKeyAttribute then .definition else .item
  | .node .dataType row =>
    if (Tree.node .dataType row).typeKeyword? = some .SERIAL then .definition else .item
  | .node .tableConstraintDef row =>
    if (Tree.node .tableConstraintDef row).childKeywords.head? = some .PRIMARY then .definition
    else .item
  | .node rule _ => rule.looseness

theorem looseness_fits {rule : Rule} {kids : List Tree} :
    (Tree.node rule kids).looseness.fits rule.looseness := by
  unfold looseness
  split
  · contradiction
  · rename_i heq
    cases heq
    split <;> rfl
  · rename_i heq
    cases heq
    split <;> rfl
  · rename_i heq
    cases heq
    split <;> rfl
  · rename_i heq
    cases heq
    exact Looseness.fits_self

/-- A call by name of a function that has a form of its own. -/
def isNamedCall (tree : Tree) : Bool :=
  tree.hasRule .functionCall && ["CAST", "CONVERT", "EXTRACT"].contains tree.functionName

/-- What a node is written as. -/
structure NodeReads (rule : Rule) (children : List Tree) (sql? : Option Sql) : Prop where
  even : ∀ sql ∈ sql?, sql.Even (Tree.node rule children).looseness
  written : rule.isWritten → ∃ sql ∈ sql?, sql ≠ []
  name : rule = .identifier → sql? = some [.name (Tree.node rule children).nameText]

/-- What a tree is written as. -/
def Reads : Tree → Option Sql → Prop
  | .leaf token, sql? => token.Reads sql?
  | .node rule children, sql? => NodeReads rule children sql?

/-- A tree, one level deep, whose writing fails with tolerated errors only. -/
structure Proper (faulty : Error → Prop) (tree : Tree) : Prop where
  refuses : ∀ error : Error, error.IsRefusal → faulty error
  admitted : tree.isAdmitted
  spelled : ∀ token, tree = .leaf token → token.WellSpelled
  named : tree.isNamedCall → ∀ error : Error, error.IsFault → faulty error

end Tree

/-- A draft of a tree, proper in all its parts, and written as its rule says. -/
inductive Draft.Proper (faulty : Error → Prop) : Draft → Prop
  | mk {tree : Tree} {parts : List Draft} {write : Scribe (Option Sql)}
      (proper : tree.Proper faulty)
      (trees : parts.map Draft.tree = tree.children) (here : write.Results faulty tree.Reads)
      (below : ∀ part ∈ parts, Draft.Proper faulty part) :
        Draft.Proper faulty (.mk tree parts write)

/-- A node whose parts are proper. -/
structure Branch.Proper (faulty : Error → Prop) (node : Branch) : Prop where
  proper : node.tree.Proper faulty
  trees : node.parts.map Draft.tree = node.tree.children
  below : ∀ part ∈ node.parts, part.Proper faulty

namespace Draft.Proper

variable {draft : Draft} (h : draft.Proper faulty)

include h

theorem tree : draft.tree.Proper faulty := by
  cases h with
  | mk proper => exact proper

theorem write : draft.write.Results faulty draft.tree.Reads := by
  cases h with
  | mk _ _ here => exact here

theorem branch : draft.branch.Proper faulty := by
  cases h with
  | mk proper trees _ below => exact ⟨proper, trees, below⟩

/-- What a part is written as that stands for something. -/
theorem required (hn : draft.tree.isNode) (hw : draft.tree.isWritten) :
    draft.required.Results faulty (Stands draft.tree.looseness) := by
  refine results_bind h.write fun sql? hr => ?_
  generalize draft.tree = tree at hn hw hr
  cases tree with
  | leaf token => cases hn
  | node rule kids =>
    obtain ⟨sql, hs, hne⟩ := hr.written hw
    obtain rfl : sql? = some sql := hs
    exact results_pure ⟨hr.even sql rfl, hne⟩

theorem required_rule {rule : Rule} (hr : draft.tree.hasRule rule) (hw : rule.isWritten) :
    draft.required.Results faulty (Stands rule.looseness) := by
  obtain ⟨kids, hc⟩ : ∃ kids, draft.tree = .node rule kids := by
    cases ht : draft.tree with
    | leaf token => simp [ht] at hr
    | node other kids => exact ⟨kids, by simpa [ht] using hr⟩
  refine (h.required (by rw [hc]; rfl) (by rw [hc]; exact hw)).mono ?_
  intro sql hs
  rw [hc] at hs
  exact hs.mono Tree.looseness_fits

/-- What an operand is written as. -/
theorem required_operand (ho : draft.tree.isOperand) :
    draft.required.Results faulty (Stands .item) := by
  obtain ⟨rule, kids, ht⟩ : ∃ rule kids, draft.tree = .node rule kids := by
    cases ht : draft.tree with
    | leaf token => simp [ht, Tree.isOperand, Tree.rule?] at ho
    | node rule kids => exact ⟨rule, kids, rfl⟩
  have hr : rule.isWritten ∧ rule.looseness = .item := by
    simpa [ht, Rule.isOperand] using ho
  have hs : draft.tree.hasRule rule := by simp [ht]
  refine (h.required_rule hs hr.1).mono fun sql hsq => ?_
  rwa [hr.2] at hsq

/-- What a part is written as, nothing included. -/
theorem sql_reads :
    draft.sql.Results faulty fun sql => ∃ sql?, draft.tree.Reads sql? ∧ sql = sql?.getD [] :=
  results_bind h.write fun sql? hr => results_pure ⟨sql?, hr, rfl⟩

/-- What a node is written as, or nothing. -/
theorem sql (hn : draft.tree.isNode) :
    draft.sql.Results faulty (Even draft.tree.looseness) := by
  refine results_bind h.write fun sql? hr => results_pure ?_
  generalize draft.tree = tree at hn hr
  cases tree with
  | leaf token => cases hn
  | node rule kids =>
    cases sql? with
    | none => exact even_nil
    | some sql => exact hr.even sql rfl

end Draft.Proper

namespace Branch.Proper

variable {node : Branch} {rule : Rule} {part : Draft} {row : List Tree} (h : node.Proper faulty)

include h

theorem refuses : ∀ error : Error, error.IsRefusal → faulty error := h.proper.refuses

theorem results_unsupported {expected : α → Prop} (feature : Feature) :
    (unsupported feature : Scribe α).Results faulty expected :=
  results_throw (h.refuses _ trivial)

/-- What is refused under a condition and goes on without it. -/
theorem results_unless {expected : α → Prop} {condition : Prop}
    [Decidable condition] {feature : Feature} {next : PUnit → Scribe α}
    (hn : (next ⟨⟩).Results faulty expected) :
    (if condition then unsupported feature >>= next else next ⟨⟩ : Scribe α).Results faulty
      expected := by
  split
  · exact results_bind (h.results_unsupported feature) fun _ (_ : True) => hn
  · exact hn

theorem child (hp : node.child? rule = some part) :
    part.Proper faulty ∧ part.tree.hasRule rule := by
  have hr := find?_some hp
  exact ⟨h.below part (mem_of_find?_eq_some hp), hr⟩

/-- A part that the tree is known to have. -/
theorem exists_child (hr : Rule.isIn rule node.tree.children) :
    ∃ part, node.child? rule = some part ∧ part.Proper faulty ∧ part.tree.hasRule rule := by
  have hs : (node.child? rule).isSome := by
    rw [Rule.isIn, ← h.trees, any_map] at hr
    rw [child?, find?_isSome]
    simpa using hr
  obtain ⟨part, hp⟩ := Option.isSome_iff_exists.1 hs
  exact ⟨part, hp, h.child hp⟩

theorem childrenBy (hp : part ∈ node.childrenBy rule) :
    part.Proper faulty ∧ part.tree.hasRule rule :=
  ⟨h.below part (mem_filter.1 hp).1, (mem_filter.1 hp).2⟩

theorem need (hr : Rule.isIn rule node.tree.children) :
    (node.need rule).Results faulty fun part =>
      part.Proper faulty ∧ part.tree.hasRule rule := by
  obtain ⟨part, hpa, hp⟩ := h.exists_child hr
  rw [Branch.need, hpa]
  exact results_pure hp

theorem needed (hr : Rule.isIn rule node.tree.children) (hw : rule.isWritten) :
    (node.needed rule).Results faulty (Stands rule.looseness) :=
  results_bind (h.need hr) fun _ hp => hp.1.required_rule hp.2 hw

/-- The first node of a tree that begins with an operand. -/
theorem exists_firstNode (hl : Tree.leads node.tree.children) :
    ∃ part, node.firstNode? = some part ∧ part.Proper faulty ∧ part.tree.isOperand := by
  rw [Tree.leads, ← h.trees, find?_map] at hl
  obtain ⟨tree, ht, ho⟩ := (Option.any_eq_true _ _).1 hl
  obtain ⟨part, hp, rfl⟩ := Option.map_eq_some_iff.1 ht
  exact ⟨part, hp, h.below part (mem_of_find?_eq_some hp), ho⟩

/-- What a node of a rule with a demand has. -/
theorem demand (ht : node.tree = .node rule row) {demand : List Tree → Bool}
    (hd : rule.demand? = some demand) : demand row := by
  have ha := h.proper.admitted
  rw [ht, Tree.isAdmitted, Rule.admits_of_demand hd, Bool.and_eq_true] at ha
  exact ha.1

theorem isLaidOut (ht : node.tree = .node rule row) : rule.isLaidOut row := by
  have ha := h.proper.admitted
  rw [ht, Tree.isAdmitted, Rule.admits, Bool.and_eq_true] at ha
  exact ha.2

end Branch.Proper

/-! ### Rows -/

namespace Tree

variable {tree : Tree} {row : List Tree} {sql? : Option Sql} {loose : Looseness} {depth : Nat}

theorem Reads.written (h : tree.Reads sql?) (hw : tree.isWritten) :
    ∃ sql ∈ sql?, sql ≠ [] := by
  cases tree with
  | leaf token => exact Token.Reads.written h hw
  | node rule kids => exact NodeReads.written h hw

/-- A parenthesis, a dot or a star is written as it stands. -/
theorem Reads.exists_symbol (h : tree.Reads sql?)
    (hsy : symbol ∈ [Symbol.openParen, .closeParen, .dot, .star])
    (hk : tree.hasKind (.symbol symbol)) :
    ∃ sql, sql? = some sql ∧ sql.Spells [.symbol symbol.spelling] := by
  cases tree with
  | node rule kids => cases hk
  | leaf token =>
    have hk : token.kind = .symbol symbol := eq_of_beq hk
    have ho : symbol ≠ .semicolon := by
      rintro rfl
      exact absurd hsy (by decide)
    obtain ⟨sql, hsq, -⟩ := Token.Reads.written h (isWritten_symbol hk ho)
    obtain ⟨lexeme, hs, hl, -⟩ := Token.Reads.spells h sql hsq
    rw [hl symbol hsy hk] at hs
    exact ⟨sql, hsq, hs⟩

/-- What can stand outside parentheses, written before something else. -/
theorem Reads.append_plain (h : tree.Reads sql?) (hp : tree.isPlain (loose.within depth))
    {more : Sql} (hm : EvenFrom loose depth more) :
      EvenFrom loose depth (sql?.getD [] ++ more) := by
  cases sql? with
  | none => exact hm
  | some sql =>
    refine Even.append_from ?_ hm
    cases tree with
    | leaf token =>
      obtain ⟨lexeme, hs, -, hf⟩ := Token.Reads.spells h sql rfl
      obtain ⟨hl, hd⟩ := hf _ hp
      exact ⟨[lexeme], hs, settled_of_forall (by simpa using hd),
        isEven_of_isFlat (by simpa using hl)⟩
    | node rule kids =>
      exact (NodeReads.even h sql rfl).mono (Looseness.fits_trans looseness_fits hp)

/-- What is written for the first tree of a row leads to some depth, and the rest goes on there. -/
theorem Reads.append (h : tree.Reads sql?) (ht : isTidy loose depth (tree :: row)) :
    ∃ next, isTidy loose next row ∧
      ∀ more, EvenFrom loose next more → EvenFrom loose depth (sql?.getD [] ++ more) := by
  rw [isTidy] at ht
  split_ifs at ht with ho hc
  · obtain ⟨sql, rfl, hsp⟩ := h.exists_symbol (by simp) ho
    refine ⟨depth + 1, ht, ?_⟩
    rintro more ⟨lexemes, hm, hs, he⟩
    refine ⟨.symbol "(" :: lexemes, hsp.append hm, ?_, by rwa [isEven_open]⟩
    exact (settled_symbol "(" (by decide)).append hs
  · rw [Bool.and_eq_true, bne_iff_ne] at ht
    obtain ⟨next, rfl⟩ := Nat.exists_eq_succ_of_ne_zero ht.1
    obtain ⟨sql, rfl, hsp⟩ := h.exists_symbol (by simp) hc
    refine ⟨next, ht.2, ?_⟩
    rintro more ⟨lexemes, hm, hs, he⟩
    refine ⟨.symbol ")" :: lexemes, hsp.append hm, ?_, by rwa [Nat.succ_eq_add_one, isEven_close]⟩
    exact (settled_symbol ")" (by decide)).append hs
  · rw [Bool.and_eq_true] at ht
    exact ⟨depth, ht.2, fun more => h.append_plain ht.1⟩

end Tree

namespace Draft

variable {parts : List Draft} {loose : Looseness} {depth : Nat}

/-- What is written for parts with matching parentheses, one after the other. -/
structure RowReads (loose : Looseness) (depth : Nat) (row : List Tree) (sql : Sql) : Prop where
  even : sql.EvenFrom loose depth
  written : row.any Tree.isWritten → sql ≠ []

theorem results_row (h : ∀ part ∈ parts, part.Proper faulty)
    (ht : Tree.isTidy loose depth (parts.map Draft.tree)) :
    (writeEach Draft.sql parts).Results faulty (RowReads loose depth (parts.map Draft.tree)) := by
  induction parts generalizing depth with
  | nil =>
    obtain rfl : depth = 0 := by simpa [Tree.isTidy] using ht
    exact results_pure ⟨even_nil, by simp⟩
  | cons part rest ih =>
    rw [forall_mem_cons] at h
    refine results_bind h.1.sql_reads ?_
    rintro sql ⟨sql?, hr, rfl⟩
    obtain ⟨next, hn, ha⟩ := hr.append ht
    refine results_bind (ih h.2 hn) fun more hm => results_pure ⟨ha more hm.even, ?_⟩
    intro han
    rw [map_cons, any_cons, Bool.or_eq_true] at han
    rcases han with hw | hre
    · obtain ⟨sql, rfl, hne⟩ := hr.written hw
      simp [hne]
    · simp [hm.written hre]

/-- Parts that can stand outside parentheses, each written in its own way. -/
theorem results_each {write : Draft → Scribe Sql}
    (h : ∀ part ∈ parts, (write part).Results faulty (RowReads loose 0 [part.tree])) :
    (writeEach write parts).Results faulty (RowReads loose 0 (parts.map Draft.tree)) := by
  induction parts with
  | nil => exact results_pure ⟨even_nil, by simp⟩
  | cons part rest ih =>
    rw [forall_mem_cons] at h
    refine results_bind h.1 fun sql hs => results_bind (ih h.2) fun more hm => results_pure ?_
    refine ⟨Even.append hs.even hm.even, fun ha => ?_⟩
    rw [map_cons, any_cons, Bool.or_eq_true] at ha
    rcases ha with hw | hr
    · simp [hs.written (by simpa using hw)]
    · simp [hm.written hr]

theorem Proper.sql_plain {draft : Draft} (h : draft.Proper faulty) (hp : draft.tree.isPlain loose) :
    draft.sql.Results faulty (RowReads loose 0 [draft.tree]) := by
  refine h.sql_reads.mono ?_
  rintro sql ⟨sql?, hr, rfl⟩
  have hz : draft.tree.isPlain (loose.within 0) := hp
  refine ⟨by simpa using hr.append_plain hz even_nil, fun ha => ?_⟩
  obtain ⟨sql, rfl, hne⟩ := hr.written (by simpa using ha)
  exact hne

/-- What is written for a row of parts, `none` if that is nothing. -/
theorem results_sequence (h : ∀ part ∈ parts, part.Proper faulty)
    (ht : Tree.isTidy loose 0 (parts.map Draft.tree)) :
    (sequence parts).Results faulty fun sql? => (∀ sql ∈ sql?, sql.Even loose) ∧
      ((parts.map Draft.tree).any Tree.isWritten → ∃ sql ∈ sql?, sql ≠ []) := by
  refine results_bind (results_row h ht) fun sql hs => results_pure ?_
  cases sql with
  | nil => exact ⟨by simp, fun ha => absurd rfl (hs.written ha)⟩
  | cons piece rest =>
    refine ⟨?_, fun _ => ⟨piece :: rest, rfl, by simp⟩⟩
    rintro other ⟨rfl⟩
    exact hs.even

end Draft

namespace Branch

variable {node : Branch} {rule : Rule} {row : List Tree}

/-- A node that is written as its parts one after the other. -/
theorem Proper.sequence (h : node.Proper faulty) (ht : node.tree = .node rule row)
    (hl : rule.layout = .row)
    (hw : rule.isWritten → row.any Tree.isWritten) :
    node.sequence.Results faulty (Tree.node rule row).Reads := by
  have hr : node.parts.map Draft.tree = row := by rw [h.trees, ht, Tree.children]
  have hla := h.isLaidOut ht
  rw [Rule.isLaidOut, hl] at hla
  have hlo : (Tree.node rule row).looseness = rule.looseness := by
    cases rule <;> first | rfl | cases hl
  refine (Draft.results_sequence h.below (by rw [hr]; exact hla)).mono fun sql? hs => ?_
  rw [hr] at hs
  refine ⟨by rw [hlo]; exact hs.1, fun hru => hs.2 (hw hru), ?_⟩
  rintro rfl
  cases hl

end Branch

/-! ### Names -/

/-- Tokens that are a name, or names with dots between them. -/
structure Lexeme.IsPath (tokens : List Lexeme) : Prop where
  ne_nil : tokens ≠ []
  settled : Settled tokens
  opens : ∀ first ∈ tokens.head?, ∀ spelling, first ≠ .number spelling
  flat : ∀ lexeme ∈ tokens, lexeme.isFlat .item

namespace Lexeme

theorem isPath_single {lexeme : Lexeme} (hf : lexeme.isFlat .item)
    (hd : lexeme.isDot = false) (hn : ∀ spelling, lexeme ≠ .number spelling) :
    IsPath [lexeme] :=
  ⟨by simp, settled_of_forall (by simpa using hd), by simpa using hn, by simpa using hf⟩

theorem isPath_name (text : String) : IsPath [.quoted .double text] :=
  isPath_single (by simp [isFlat]) rfl (by simp)

/-- A path after a name, or after a word. -/
theorem IsPath.dotted {first : Lexeme} {ts : List Lexeme} (h : IsPath ts)
    (hfl : first.isFlat .item) (hd : first.isDot = false)
    (hn : ∀ spelling, first ≠ .number spelling) : IsPath (first :: .symbol "." :: ts) := by
  obtain ⟨next, rest, rfl⟩ : ∃ next rest, ts = next :: rest := by
    cases ts with
    | nil => exact absurd rfl h.ne_nil
    | cons next rest => exact ⟨next, rest, rfl⟩
  have hf : first.Apart (.symbol ".") := by
    unfold Apart
    split
    · exact absurd rfl (hn _)
    · contradiction
    · trivial
  have hne : Apart (.symbol ".") next := by
    unfold Apart
    split
    · contradiction
    · exact absurd rfl (h.opens _ rfl _)
    · trivial
  refine ⟨by simp, ⟨.cons_cons hf (.cons_cons hne h.settled.chain), ?_, ?_⟩, ?_, ?_⟩
  · simpa using hd
  · simpa using h.settled.last
  · simpa using hn
  · simp only [forall_mem_cons]
    exact ⟨hfl, by decide, forall_mem_cons.1 h.flat⟩

end Lexeme

namespace Sql

/-- A stretch of SQL that is a name, or names with dots between them. -/
def Path (sql : Sql) : Prop := ∃ lexemes, sql.Spells lexemes ∧ Lexeme.IsPath lexemes

theorem Path.stands {sql : Sql} (h : sql.Path) (loose : Looseness) : sql.Stands loose := by
  obtain ⟨lexemes, hs, hp⟩ := h
  refine ⟨⟨lexemes, hs, hp.settled, isEven_of_isFlat fun lexeme hl =>
    isFlat_mono Looseness.item_fits (hp.flat lexeme hl)⟩, ?_⟩
  rintro rfl
  cases hs
  exact hp.ne_nil rfl

theorem path_name (text : String) : Path [.name text] :=
  ⟨_, spells_single rfl (.name text), isPath_name text⟩

/-- A name, or a word, in front of a path. -/
theorem Path.dotted {sql dot : Sql} (h : sql.Path) (hd : dot.Spells [.symbol "."])
    (text : String) : Path ([Piece.name text] ++ (dot ++ sql)) := by
  obtain ⟨lexemes, hs, hp⟩ := h
  refine ⟨.quoted .double text :: .symbol "." :: lexemes, ?_,
    hp.dotted (by simp [isFlat]) rfl (by simp)⟩
  exact (spells_single rfl (.name text)).append (hd.append hs)

end Sql

namespace Draft

/-- What a name is written as. -/
theorem Proper.sql_name {draft : Draft} (h : draft.Proper faulty)
    (hr : draft.tree.hasRule .identifier) :
    draft.sql.Results faulty (· = [.name draft.tree.nameText]) := by
  refine h.sql_reads.mono ?_
  rintro sql ⟨sql?, hre, rfl⟩
  generalize draft.tree = tree at hr hre
  cases tree with
  | leaf token => cases hr
  | node rule kids =>
    rw [Tree.NodeReads.name hre (by simpa using hr)]
    rfl

/-- Names with dots between them, the last of them maybe a star. -/
theorem results_path : ∀ {parts : List Draft}, (∀ part ∈ parts, part.Proper faulty) →
    Tree.isPath (parts.map Draft.tree) →
    (writeEach Draft.sql parts).Results faulty Sql.Path
  | [], _, hp => by cases hp
  | [last], h, hp => by
    rw [forall_mem_singleton] at h
    have hl : last.sql.Results faulty Sql.Path := by
      rw [map_singleton, Tree.isPath, Bool.or_eq_true] at hp
      rcases hp with hn | hst
      · refine (h.sql_name hn).mono ?_
        rintro sql rfl
        exact path_name _
      · refine h.sql_reads.mono ?_
        rintro sql ⟨sql?, hr, rfl⟩
        obtain ⟨star, rfl, hs⟩ := hr.exists_symbol (by simp) hst
        exact ⟨_, hs, isPath_single (by decide) rfl (by simp)⟩
    refine results_bind hl fun sql hsq => ?_
    exact results_pure (by rwa [append_nil])
  | name :: dot :: rest, h, hp => by
    simp only [forall_mem_cons] at h
    obtain ⟨hn, hd, hre⟩ := h
    simp only [map_cons, Tree.isPath, Bool.and_eq_true] at hp
    refine results_bind (hn.sql_name hp.1.1) ?_
    rintro sql rfl
    refine results_bind (results_bind hd.sql_reads ?_) fun more hm => results_pure hm
    rintro sql ⟨sql?, hr, rfl⟩
    obtain ⟨point, rfl, hs⟩ := hr.exists_symbol (by simp) hp.1.2
    exact results_bind (results_path hre hp.2) fun more hm =>
      results_pure (hm.dotted hs _)

end Draft

end SqlBridge
