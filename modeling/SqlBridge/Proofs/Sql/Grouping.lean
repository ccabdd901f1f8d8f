/-
A term that is not grouped is read with other operands.

Two terms with the same tokens and the same operators are the same, parentheses and all
(`SqlTerm.eq_of_bare_eq`).  So if the tokens of a term are read as a term with the same operators
and operands, then it is the term itself that is read, and it is grouped (`SqlTerm.reads_bare_iff`).

* `Closed`: every parenthesis of some tokens is closed among them.
* `SqlTerm.weight_print`: parentheses apart, terms with the same operators have as many tokens.
-/
import SqlBridge.Proofs.Sql.Reading

namespace SqlBridge

open List

variable {term : SqlTerm}

/-! ### Tokens that close their parentheses -/

namespace Lexeme

variable {ts more rest : List Lexeme}

def isParen (lexeme : Lexeme) : Bool := lexeme == .symbol "(" || lexeme == .symbol ")"

/-- How many parentheses are opened. -/
def opened (tokens : List Lexeme) : Nat := tokens.count (.symbol "(")

/-- How many are closed. -/
def closed (tokens : List Lexeme) : Nat := tokens.count (.symbol ")")

/-- Tokens in which every closing parenthesis closes one before it, and none stays open. -/
structure Closed (tokens : List Lexeme) : Prop where
  balanced : closed tokens = opened tokens
  opens_first : ∀ {start}, start <+: tokens → closed start ≤ opened start

theorem closed_of_forall (h : ∀ lex ∈ ts, lex.isParen = false) :
    Closed ts := by
  have hn {start : List Lexeme} (hs : start <+: ts) {paren : Lexeme}
      (hp : paren.isParen) : start.count paren = 0 := by
    refine count_eq_zero.2 fun hm => ?_
    rw [h paren (hs.subset hm)] at hp
    cases hp
  refine ⟨?_, fun hs => ?_⟩
  · rw [closed, opened, hn (prefix_refl _) rfl, hn (prefix_refl _) rfl]
  · rw [closed, hn hs rfl]
    exact Nat.zero_le _

theorem prefix_append_cases {start : List Lexeme} (h : start <+: ts ++ more) :
    start <+: ts ∨ ∃ rest, rest <+: more ∧ start = ts ++ rest := by
  rcases prefix_or_prefix_of_prefix h (prefix_append ts more) with hs | ⟨rest, rfl⟩
  · exact .inl hs
  · exact .inr ⟨rest, (prefix_append_right_inj ts).1 h, rfl⟩

theorem Closed.append (h : Closed ts) (hm : Closed more) :
    Closed (ts ++ more) := by
  refine ⟨?_, fun {start} hst => ?_⟩
  · rw [closed, opened, count_append, count_append]
    exact congrArg₂ _ h.balanced hm.balanced
  · rcases prefix_append_cases hst with hs | ⟨rest, hr, rfl⟩
    · exact h.opens_first hs
    · rw [closed, opened, count_append, count_append]
      exact Nat.add_le_add (Nat.le_of_eq h.balanced) (hm.opens_first hr)

theorem Closed.parens (h : Closed ts) :
    Closed (.symbol "(" :: ts ++ [symbol ")"]) := by
  have hb := h.balanced
  simp only [closed, opened] at hb
  refine ⟨by simp [closed, opened, hb], fun {start} hst => ?_⟩
  cases start with
  | nil => exact Nat.le_refl _
  | cons first rest =>
    obtain ⟨rfl, hr⟩ := cons_prefix_cons.1 hst
    rcases prefix_append_cases hr with hs | ⟨last, hl, rfl⟩
    · have hi := h.opens_first hs
      simp only [closed, opened] at hi ⊢
      simp only [count_cons_self, count_cons_of_ne (by decide : symbol "(" ≠ .symbol ")")]
      omega
    · have ho : last.count (.symbol ")") ≤ 1 := by
        simpa using hl.sublist.count_le (.symbol ")")
      simp only [closed, opened, count_append, count_cons_self,
        count_cons_of_ne (by decide : symbol "(" ≠ .symbol ")"), hb]
      omega

/-- Within a row in parentheses, one of them stays open. -/
theorem Closed.opened_of_parens {start : List Lexeme} (h : Closed ts) (hs : start ≠ [])
    (hr : rest ≠ []) (heq : .symbol "(" :: ts ++ [symbol ")"] = start ++ rest) :
    closed start ≠ opened start := by
  obtain ⟨first, start, rfl⟩ := exists_cons_of_ne_nil hs
  rw [cons_append, cons_append, cons.injEq] at heq
  obtain ⟨rfl, heq⟩ := heq
  have hp : start <+: ts := by
    refine (prefix_concat_iff.1 ⟨rest, heq.symm⟩).resolve_left ?_
    rintro rfl
    exact hr (by simpa using heq)
  have hle := h.opens_first hp
  simp only [closed, opened] at hle ⊢
  simp only [count_cons_self, count_cons_of_ne (by decide : symbol "(" ≠ .symbol ")")]
  omega

/-- How many tokens there are, parentheses apart. -/
def weight (tokens : List Lexeme) : Nat := tokens.countP (!·.isParen)

/-- Two rows of tokens with an operator in them part at the operator, if as many tokens come before
it. -/
theorem append_inj_of_weight {before other : List Lexeme} {first second : Lexeme}
    (hf : first.isParen = false) (hs : second.isParen = false)
    (hw : weight before = weight other)
    (h : before ++ first :: rest = other ++ second :: more) :
    before = other ∧ first :: rest = second :: more := by
  rcases append_eq_append_iff.1 h with ⟨middle, hm, hr⟩ | ⟨middle, hm, hr⟩
  · cases middle with
    | nil => exact ⟨by simpa using hm.symm, by simpa using hr⟩
    | cons he tail =>
      obtain ⟨rfl, -⟩ := cons.inj hr
      rw [hm, weight, weight, countP_append, countP_cons_of_pos (by simp [hf])] at hw
      omega
  · cases middle with
    | nil => exact ⟨by simpa using hm, by simpa using hr.symm⟩
    | cons he tail =>
      obtain ⟨rfl, -⟩ := cons.inj hr
      rw [hm, weight, weight, countP_append, countP_cons_of_pos (by simp [hs])] at hw
      omega

end Lexeme

/-! ### Terms with the same tokens -/

theorem Unary.lexeme_injective : Function.Injective Unary.lexeme := by
  intro first second h
  cases first <;> cases second <;> revert h <;> decide

theorem Unary.isParen_lexeme (op : Unary) : op.lexeme.isParen = false := by
  cases op <;> rfl

theorem SqlOperator.isParen_lexemes (op : SqlOperator) {lex : Lexeme}
    (h : lex ∈ op.lexemes) : lex.isParen = false := by
  have ha : ∀ op ∈ SqlOperator.all, ∀ lex ∈ op.lexemes, lex.isParen = false := by
    decide
  exact ha op op.mem_all lex h

/-- The tokens of an operator begin with one that is no parenthesis. -/
theorem SqlOperator.exists_first (op : SqlOperator) :
    ∃ first rest, op.lexemes = first :: rest ∧ first.isParen = false := by
  have ha : ∀ op ∈ SqlOperator.all, op.lexemes ≠ [] := by decide
  cases hl : op.lexemes with
  | nil => exact absurd hl (ha op op.mem_all)
  | cons first rest => exact ⟨first, rest, rfl, op.isParen_lexemes (hl ▸ mem_cons_self)⟩

/-- The words of an operator with three operands are those of an operator with two. -/
theorem Ternary.exists_operator (op : Ternary) (neg : Bool) :
    ∃ first : SqlOperator, first.lexemes = op.opening neg := by
  cases op with
  | between => exact ⟨.between neg, rfl⟩
  | escape => exact ⟨.binary (.like neg), rfl⟩

theorem Ternary.isParen_separator (op : Ternary) : op.separator.isParen = false := by
  cases op <;> rfl

theorem Lexeme.isParen_of_isConstant {lex : Lexeme} (h : lex.isConstant) :
    lex.isParen = false := by
  cases lex with
  | symbol text => cases h
  | _ => simp [isParen]

namespace SqlTerm

open Lexeme

variable {rest more : List Lexeme}

/-- A term of SQLite: its constants are constants, and it has no `!`. -/
def Proper : SqlTerm → Prop
  | .constant lexeme => lexeme.isConstant
  | .column _ _ => True
  | .parens inside => inside.Proper
  | .unary operator operand => operator ≠ .bang ∧ operand.Proper
  | .binary _ left right => left.Proper ∧ right.Proper
  | .isIn _ left list => left.Proper ∧ list.Proper
  | .ternary _ _ left middle right => left.Proper ∧ middle.Proper ∧ right.Proper

theorem Grouped.proper (h : term.Grouped) : term.Proper := by
  induction term with
  | constant lex => exact h
  | column first path => trivial
  | parens inside ih => exact ih h
  | unary op opd ih => exact ⟨h.1, ih h.2.1⟩
  | binary op left right ihLeft ihRight => exact ⟨ihLeft h.1, ihRight h.2.1⟩
  | isIn neg left list ihLeft ihList => exact ⟨ihLeft h.1, ihList h.2.1⟩
  | ternary op neg left middle right ihLeft ihMiddle ihRight =>
    exact ⟨ihLeft h.1, ihMiddle h.2.1, ihRight h.2.2.1⟩

theorem isParen_pathLexemes {path : List String} {lex : Lexeme} (h : lex ∈ pathLexemes path) :
    lex.isParen = false := by
  obtain ⟨name, -, hn⟩ := mem_flatMap.1 h
  simp only [mem_cons, not_mem_nil, or_false] at hn
  rcases hn with rfl | rfl <;> simp [isParen]

theorem Proper.closed_print (h : term.Proper) : Closed term.print := by
  induction term with
  | constant lex => exact closed_of_forall (by simpa [print] using isParen_of_isConstant h)
  | column first path =>
    refine closed_of_forall ?_
    simp only [print, forall_mem_cons]
    exact ⟨by simp [isParen], fun lex => isParen_pathLexemes⟩
  | parens inside ih => exact (ih h).parens
  | unary op opd ih =>
    have hl : Closed [op.lexeme] := closed_of_forall (by simpa using op.isParen_lexeme)
    exact hl.append (ih h.2)
  | binary op left right ihLeft ihRight =>
    have hw : Closed op.lexemes :=
      closed_of_forall fun lex => (SqlOperator.binary op).isParen_lexemes
    exact ((ihLeft h.1).append hw).append (ihRight h.2)
  | isIn neg left list ihLeft ihList =>
    rw [print, append_assoc]
    have hw : Closed (SqlOperator.isIn neg).lexemes :=
      closed_of_forall fun lex => (SqlOperator.isIn neg).isParen_lexemes
    exact ((ihLeft h.1).append hw).append (ihList h.2).parens
  | ternary op neg left middle right ihLeft ihMiddle ihRight =>
    obtain ⟨opening, ho⟩ := op.exists_operator neg
    rw [print, ← ho]
    have hw : Closed opening.lexemes := closed_of_forall fun lex => opening.isParen_lexemes
    have hs : Closed [op.separator] := closed_of_forall (by simpa using op.isParen_separator)
    exact (((ihLeft h.1).append hw).append (ihMiddle h.2.1)).append
      (hs.append (ihRight h.2.2))

/-- Terms with the same operators and operands have as many tokens, parentheses apart. -/
theorem weight_print (term : SqlTerm) : weight term.print = weight term.bare.print := by
  have hp (ts : List Lexeme) :
      weight (.symbol "(" :: ts ++ [symbol ")"]) = weight ts := by
    simp [weight, isParen]
  have ha (ts more : List Lexeme) :
      weight (ts ++ more) = weight ts + weight more := countP_append
  induction term with
  | constant lex => rfl
  | column first path => rfl
  | parens inside ih => rw [print, bare, hp, ih]
  | unary op opd ih =>
    have hc (op : Unary) (ts : List Lexeme) :
        weight (op.lexeme :: ts) = weight ts + 1 := by
      simp [weight, op.isParen_lexeme]
    rw [print, bare, print, hc, hc, ih]
  | binary op left right ihLeft ihRight =>
    simp only [print, bare, ha, ihLeft, ihRight]
  | isIn neg left list ihLeft ihList =>
    have ho (ts : List Lexeme) : weight (.symbol "(" :: ts) = weight ts := by
      simp [weight, isParen]
    simp only [print, bare, ha, ho, ihLeft, ihList]
  | ternary op neg left middle right ihLeft ihMiddle ihRight =>
    have hc (ts : List Lexeme) :
        weight (op.separator :: ts) = weight ts + 1 := by
      simp [weight, op.isParen_separator]
    simp only [print, bare, ha, hc, ihLeft, ihMiddle, ihRight]

/-- Only a term in parentheses has the tokens of one. -/
theorem exists_parens (inside : SqlTerm) (hi : inside.Proper) (h : term.Proper)
    (hp : (parens inside).print = term.print) : ∃ other, term = .parens other := by
  -- a left operand closes its parentheses before an operator
  have hl {left : SqlTerm} (op : SqlOperator) {more : List Lexeme} (hle : left.Proper)
      (hpr : (parens inside).print = left.print ++ (op.lexemes ++ more)) : False := by
    obtain ⟨first, rest, hf, -⟩ := op.exists_first
    exact hi.closed_print.opened_of_parens left.print_ne_nil (by simp [hf]) hpr
      hle.closed_print.balanced
  have ho {first : Lexeme} {more : List Lexeme}
      (hpr : (parens inside).print = first :: more)
      (hf : first.isParen = false) : False := by
    rw [← (cons.inj hpr).1] at hf
    cases hf
  cases term with
  | constant lex => exact (ho hp (isParen_of_isConstant h)).elim
  | column first path => cases hp
  | parens other => exact ⟨other, rfl⟩
  | unary op opd => exact (ho hp op.isParen_lexeme).elim
  | binary op left right =>
    exact (hl (.binary op) h.1 (hp.trans (append_assoc _ _ _))).elim
  | isIn neg left list =>
    exact (hl (.isIn neg) h.1 (by simpa only [print, append_assoc] using hp)).elim
  | ternary op neg left middle right =>
    obtain ⟨opening, hop⟩ := op.exists_operator neg
    exact (hl opening h.1 (by simpa only [print, append_assoc, hop] using hp)).elim

/-- Operands before the same operator have the same tokens, if they have the same operators. -/
theorem print_inj_of_bare {left other : SqlTerm} (op : SqlOperator) (hb : left.bare = other.bare)
    (h : left.print ++ (op.lexemes ++ rest) = other.print ++ (op.lexemes ++ more)) :
    left.print = other.print ∧ rest = more := by
  obtain ⟨first, words, hf, hp⟩ := op.exists_first
  have hw : weight left.print = weight other.print := by
    rw [weight_print, hb, ← weight_print]
  rw [hf, cons_append, cons_append] at h
  obtain ⟨hl, hr⟩ := append_inj_of_weight hp hp hw h
  exact ⟨hl, append_cancel_left (cons.inj hr).2⟩

/-- **Two terms with the same tokens and the same operators are the same.** -/
theorem eq_of_bare_eq {term other : SqlTerm} (ht : term.Proper) (ho : other.Proper)
    (hb : term.bare = other.bare) (hp : term.print = other.print) : term = other := by
  induction term generalizing other with
  | parens inside ih =>
    obtain ⟨inner, rfl⟩ := exists_parens inside ht ho hp
    have hi : inside.print = inner.print := by simpa [print] using hp
    exact congrArg parens (ih ht ho hb hi)
  | constant lex =>
    cases other with
    | parens inner => cases (exists_parens inner ho ht hp.symm).choose_spec
    | constant other => exact hb
    | _ => simp [bare] at hb
  | column first path =>
    cases other with
    | parens inner => cases (exists_parens inner ho ht hp.symm).choose_spec
    | column other path' => exact hb
    | _ => simp [bare] at hb
  | unary op opd ih =>
    cases other with
    | parens inner => cases (exists_parens inner ho ht hp.symm).choose_spec
    | unary second inner =>
      obtain ⟨hle, hre⟩ := cons.inj hp
      obtain rfl := Unary.lexeme_injective hle
      rw [ih ht.2 ho.2 (by simpa [bare] using hb) hre]
    | _ => simp [bare] at hb
  | binary op left right ihLeft ihRight =>
    cases other with
    | parens inner => cases (exists_parens inner ho ht hp.symm).choose_spec
    | binary second left' right' =>
      simp only [bare, binary.injEq] at hb
      obtain ⟨rfl, hl, hr⟩ := hb
      simp only [print, append_assoc] at hp
      obtain ⟨hl', hr'⟩ := print_inj_of_bare (.binary op) hl hp
      rw [ihLeft ht.1 ho.1 hl hl', ihRight ht.2 ho.2 hr hr']
    | _ => simp [bare] at hb
  | isIn neg left list ihLeft ihList =>
    cases other with
    | parens inner => cases (exists_parens inner ho ht hp.symm).choose_spec
    | isIn neg' left' list' =>
      simp only [bare, isIn.injEq] at hb
      obtain ⟨rfl, hl, hli⟩ := hb
      simp only [print, append_assoc] at hp
      obtain ⟨hl', hli'⟩ := print_inj_of_bare (.isIn neg) hl hp
      rw [ihLeft ht.1 ho.1 hl hl',
        ihList ht.2 ho.2 hli (by simpa using hli')]
    | _ => simp [bare] at hb
  | ternary op neg left middle right ihLeft ihMiddle ihRight =>
    cases other with
    | parens inner => cases (exists_parens inner ho ht hp.symm).choose_spec
    | ternary op' neg' left' middle' right' =>
      simp only [bare, ternary.injEq] at hb
      obtain ⟨rfl, rfl, hl, hm, hr⟩ := hb
      obtain ⟨opening, hop⟩ := op.exists_operator neg
      simp only [print, append_assoc, ← hop] at hp
      obtain ⟨hl', hre⟩ := print_inj_of_bare opening hl hp
      have hw : weight middle.print = weight middle'.print := by
        rw [weight_print, hm, ← weight_print]
      obtain ⟨hm', hr'⟩ := append_inj_of_weight op.isParen_separator
        op.isParen_separator hw hre
      rw [ihLeft ht.1 ho.1 hl hl', ihMiddle ht.2.1 ho.2.1 hm hm',
        ihRight ht.2.2 ho.2.2 hr (cons.inj hr').2]
    | _ => simp [bare] at hb

/-- **Tokens keep their operands exactly if they are grouped.**  The tokens of a term are read as a
term with the same operators and operands if and only if the term is grouped. -/
theorem reads_bare_iff (h : term.Proper) :
    (∃ other, ofLexemes? term.print = some other ∧ other.bare = term.bare) ↔ term.Grouped := by
  constructor
  · rintro ⟨other, hr, hb⟩
    obtain ⟨hp, hg⟩ := ofLexemes?_eq_some_iff.1 hr
    rwa [← eq_of_bare_eq hg.proper h hb hp]
  · intro hg
    exact ⟨term, ofLexemes?_eq_some_iff.2 ⟨rfl, hg⟩, rfl⟩

end SqlTerm

/-! ### Text -/

namespace Lexeme

variable {ts : List Lexeme} {more : List Lexeme}

def isDot (lexeme : Lexeme) : Bool := lexeme == .symbol "."

theorem apart_of_isDot {first second : Lexeme} (hf : first.isDot = false)
    (hs : second.isDot = false) : first.Apart second := by
  unfold Apart
  split
  · cases hs
  · cases hf
  · trivial

/-- Tokens that are kept apart, with no dot at either end. -/
structure Settled (tokens : List Lexeme) : Prop where
  chain : tokens.IsChain Apart
  first : ∀ lexeme ∈ tokens.head?, lexeme.isDot = false
  last : ∀ lexeme ∈ tokens.getLast?, lexeme.isDot = false

theorem settled_of_forall (h : ∀ lex ∈ ts, lex.isDot = false) :
    Settled ts := by
  refine ⟨?_, fun lex hl => h lex (mem_of_mem_head? hl),
    fun lex hl => h lex (mem_of_mem_getLast? hl)⟩
  induction ts with
  | nil => exact .nil
  | cons first rest ih =>
    rw [forall_mem_cons] at h
    refine isChain_cons.2 ⟨fun second hs => ?_, ih h.2⟩
    exact apart_of_isDot h.1 (h.2 second (mem_of_mem_head? hs))

theorem Settled.append (h : Settled ts) (hm : Settled more) :
    Settled (ts ++ more) := by
  refine ⟨isChain_append.2 ⟨h.chain, hm.chain, fun last hla first hf =>
    apart_of_isDot (h.last last hla) (hm.first first hf)⟩, fun lex hl => ?_,
    fun lex hl => ?_⟩
  · rw [head?_append] at hl
    rcases Option.or_eq_some_iff.1 hl with hf | ⟨-, hf⟩
    · exact h.first lex hf
    · exact hm.first lex hf
  · rw [getLast?_append] at hl
    rcases Option.or_eq_some_iff.1 hl with hla | ⟨-, hla⟩
    · exact hm.last lex hla
    · exact h.last lex hla

end Lexeme

namespace SqlTerm

open Lexeme

theorem settled_path (first : String) (path : List String) :
    Settled (.quoted .double first :: pathLexemes path) := by
  induction path generalizing first with
  | nil => exact settled_of_forall (by simp [pathLexemes, isDot])
  | cons name rest ih =>
    have hr : Settled (.quoted .double name :: pathLexemes rest) := ih name
    refine ⟨.cons_cons trivial (.cons_cons trivial hr.chain), by simp [isDot], ?_⟩
    simpa [pathLexemes] using hr.last

theorem Proper.settled_print (h : term.Proper) : Settled term.print := by
  have hw (op : SqlOperator) : Settled op.lexemes := by
    have ha : ∀ op ∈ SqlOperator.all, ∀ lex ∈ op.lexemes, lex.isDot = false := by
      decide
    exact settled_of_forall (ha op op.mem_all)
  have hp : Settled [.symbol "("] ∧ Settled [.symbol ")"] :=
    ⟨settled_of_forall (by decide), settled_of_forall (by decide)⟩
  induction term with
  | constant lex =>
    refine settled_of_forall ?_
    simp only [print, mem_singleton, forall_eq]
    cases lex with
    | symbol text => cases h
    | _ => simp [isDot]
  | column first path => exact settled_path first path
  | parens inside ih => exact (hp.1.append (ih h)).append hp.2
  | unary op opd ih =>
    have hl : Settled [op.lexeme] := by
      cases op <;> exact settled_of_forall (by decide)
    exact hl.append (ih h.2)
  | binary op left right ihLeft ihRight =>
    exact ((ihLeft h.1).append (hw (.binary op))).append (ihRight h.2)
  | isIn neg left list ihLeft ihList =>
    rw [print, append_assoc]
    exact ((ihLeft h.1).append (hw (.isIn neg))).append
      ((hp.1.append (ihList h.2)).append hp.2)
  | ternary op neg left middle right ihLeft ihMiddle ihRight =>
    obtain ⟨opening, ho⟩ := op.exists_operator neg
    have hs : Settled [op.separator] := by
      cases op <;> exact settled_of_forall (by decide)
    rw [print, ← ho]
    exact (((ihLeft h.1).append (hw opening)).append (ihMiddle h.2.1)).append
      (hs.append (ihRight h.2.2))

/-- **Tokens keep their operands exactly if they are grouped, as text too.** -/
theorem reads_text_iff {sql : Sql} (hp : term.Proper) (h : sql.Spells term.print) :
    (∃ other, ofText? sql.render = some other ∧ other.bare = term.bare) ↔ term.Grouped := by
  rw [ofText?, Sql.lexemes?_render h hp.settled_print.chain]
  exact reads_bare_iff hp

end SqlTerm

end SqlBridge
