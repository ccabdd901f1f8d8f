/-
What phrases read, row by row.

`Phrase.Each phrase known post` says that `post` holds of each row of trees that a phrase may read.
It is computed from the phrase: a node stands for itself, a name for a tree that it covers, and a
token is told by its own test and by the tests ahead (`Known`).  So `simp` turns a statement about
all the rows of a phrase into one about a few rows that are written out.  The lemmas about built
phrases are used on the way down (`simp ↓`), before the parts of a phrase are looked at.

* `Phrase.Each.of_derives`: what a phrase reads is one of these rows.
* `Phrase.Admits`: every node that a phrase makes is what its rule admits.
* `Phrase.Admits.of_derives`: what such a phrase reads is admitted throughout.
-/
import SqlBridge.Proofs.Grammar.Read
import SqlBridge.Proofs.Grammar.Shape

namespace SqlBridge.Grammar

open List SqlBridge.Tree

variable {accepts : Token → Bool} {expected : String}

/-- The rules of the trees that a name may stand for. -/
def Name.covers : Name → Rule → Prop
  | .queryExpression, rule => rule = .queryExpression
  | .tableReferences, rule => rule = .tableReferenceList
  | _, rule => rule.isExpression

/-- A rule of expressions. -/
structure Expression where
  rule : Rule
  isExpression : rule.isExpression

attribute [simp] Expression.isExpression

namespace Expression

variable {e : Expression}

@[simp] theorem isOperand_rule : e.rule.isOperand := Rule.isOperand_of_isExpression e.isExpression

@[simp] theorem isWritten_rule : e.rule.isWritten := Rule.isWritten_of_isExpression e.isExpression

@[simp] theorem looseness_rule : e.rule.looseness = .item :=
  Rule.looseness_of_isExpression e.isExpression

@[simp] theorem rule_ne {other : Rule} (h : other.isExpression = false) : e.rule ≠ other := by
  rintro rfl
  simp [e.isExpression] at h

end Expression

/-- A kind of tokens that can stand for a name. -/
structure NameKind where
  kind : Token.Kind
  isName : kind.isName

@[simp] theorem NameKind.isPlain_kind {name : NameKind} {loose : Looseness} :
    name.kind.isPlain loose := by
  obtain ⟨kind, h⟩ := name
  change kind.isPlain loose
  revert h
  unfold Token.Kind.isPlain
  split
  all_goals first | exact fun _ => rfl | exact fun h => absurd h (by decide)

@[simp] theorem NameKind.kind_ne_symbol {name : NameKind} {s : Symbol} : name.kind ≠ .symbol s := by
  intro h
  have hn := name.isName
  rw [h] at hn
  cases hn

@[simp] theorem NameKind.kind_ne_keyword {name : NameKind} {k : Keyword} (h : k.isReserved) :
    name.kind ≠ .keyword k := by
  intro hk
  have hn := name.isName
  rw [hk] at hn
  simp [Token.Kind.isName, h] at hn

theorem forall_isName {p : Token.Kind → Prop} :
    (∀ kind, kind.isName → p kind) ↔ ∀ name : NameKind, p name.kind :=
  ⟨fun h name => h name.kind name.isName, fun h kind hk => h ⟨kind, hk⟩⟩

/-! ### Rows of trees -/

/-- What tests have told about the tokens ahead. -/
abbrev Known := List Token → Prop

namespace Known

variable {known : Known} {test : Lookahead} {ts : List Token}

def any : Known := fun _ => True

def seen (known : Known) (test : Lookahead) : Bool → Known
  | true => fun ts => test ts ∧ known ts
  | false => fun ts => known ts ∧ test ts = false

/-- What is known after the next token. -/
def next (known : Known) : Known := fun ts => ∃ token, known (token :: ts)

/-- Whether a token may come next. -/
def Allows (known : Known) (token : Token) : Prop := ∃ rest, known (token :: rest)

@[simp] theorem any_iff : any ts ↔ True := Iff.rfl

@[simp] theorem seen_true_iff : known.seen test true ts ↔ test ts ∧ known ts := Iff.rfl

@[simp] theorem seen_false_iff : known.seen test false ts ↔ known ts ∧ test ts = false := Iff.rfl

@[simp] theorem next_iff :
    known.next ts ↔ ∃ value position kind, known (⟨kind, value, position⟩ :: ts) :=
  ⟨fun ⟨token, h⟩ => ⟨token.value, token.position, token.kind, h⟩, fun ⟨_, _, _, h⟩ => ⟨_, h⟩⟩

end Known

namespace Phrase

/-- One tree that a name covers, admitted throughout. -/
def IsCovered (name : Name) : Reads := fun _ trees _ =>
  ∃ rule kids, name.covers rule ∧ trees = [.node rule kids] ∧ (Tree.node rule kids).Admitted

/-- Rows of trees that a loop may read. -/
structure Rows (test : Lookahead) (body : Phrase) where
  rows : List (List Tree)
  reads : ∀ row ∈ rows, ∃ ts rest, test ts ∧ body.Derives IsCovered ts row rest

/-- The rows one after the other. -/
def Rows.trees {test : Lookahead} {body : Phrase} (rows : Rows test body) : List Tree :=
  rows.rows.flatten

/-- A token that only a phrase for any token takes.  Where it is taken, tests ahead say which token
comes. -/
def anyVariable : Token := ⟨.userVariable, "", 0⟩

/-- Each row of trees that a phrase may read is as told, and so is what is known after it. -/
def Each : Phrase → Known → (List Tree → Known → Prop) → Prop
  | .nothing, known, post => post [] known
  | .token accepts _, known, post =>
    ∀ token, accepts token → (accepts anyVariable → known.Allows token) →
      post [.leaf token] known.next
  | .asComma _ _ _, _, post =>
    ∀ value position, post [.leaf ⟨.symbol .comma, value, position⟩] .any
  | .ref name, _, post => ∀ rule kids, name.covers rule → post [.node rule kids] .any
  | .seq first second, known, post =>
    first.Each known fun left after => second.Each after fun right rest => post (left ++ right) rest
  | .choose test yes no, known, post =>
    yes.Each (known.seen test true) post ∧ no.Each (known.seen test false) post
  | .loop test body, _, post => ∀ rows : Rows test body, post rows.trees .any
  | .node rule _, _, post => ∀ kids, post [.node (rule kids) kids] .any
  | .extend _ rule base _, known, post | .climb _ rule base _, known, post =>
    base.Each known (fun trees _ => post trees .any) ∧ ∀ kids, post [.node rule kids] .any
  | .refuse _, _, _ => True

/-- Every node that a phrase makes is what its rule admits. -/
def Admits : Phrase → Known → Prop
  | .nothing, _ | .token _ _, _ | .asComma _ _ _, _ | .ref _, _ | .refuse _, _ => True
  | .seq first second, known => first.Admits known ∧ second.Admits .any
  | .choose test yes no, known =>
    yes.Admits (known.seen test true) ∧ no.Admits (known.seen test false)
  | .loop test body, _ => body.Admits (Known.any.seen test true)
  | .node rule body, known =>
    body.Admits known ∧ body.Each known fun kids _ => (rule kids).admits kids
  | .extend test rule base tail, known =>
    base.Admits known ∧ tail.Admits (Known.any.seen test true) ∧
      base.Each known fun left _ => tail.Each (Known.any.seen test true) fun right _ =>
        rule.admits (left ++ right)
  | .climb test rule base tail, known =>
    base.Admits known ∧ tail.Admits (Known.any.seen test true) ∧
      (base.Each known fun left _ => tail.Each (Known.any.seen test true) fun right _ =>
        rule.admits (left ++ right)) ∧
      ∀ kids, tail.Each (Known.any.seen test true) fun right _ =>
        rule.admits (.node rule kids :: right)

/-! ### Readings -/

section Readings

variable {known : Known} {post : List Tree → Known →
  Prop} {ts rest : List Token} {trees : List Tree} {phrase : Phrase}

/-- A chain of nodes is its base or one node. -/
theorem chain_cases (rule : Rule) (rows : List (List Tree)) (base : List Tree) :
    chain rule base rows = base ∨ ∃ kids, chain rule base rows = [.node rule kids] := by
  induction rows generalizing base with
  | nil => exact .inl rfl
  | cons row rows ih =>
    rcases ih [.node rule (base ++ row)] with h | h
    · exact .inr ⟨_, h⟩
    · exact .inr h

/-- What a phrase reads is as told of each row. -/
theorem Each.of_derives (h : phrase.Each known post) (hk : known ts)
    (hd : phrase.Derives IsCovered ts trees rest) :
      ∃ after : Known, after rest ∧ post trees after := by
  induction phrase generalizing ts trees rest known post with
  | nothing =>
    obtain ⟨rfl, rfl⟩ := hd
    exact ⟨known, hk, h⟩
  | token accepts expected =>
    obtain ⟨token, rfl, ha, rfl⟩ := hd
    exact ⟨known.next, ⟨token, hk⟩, h token ha fun _ => ⟨rest, hk⟩⟩
  | asComma accepts expected place =>
    obtain ⟨token, rfl, -, rfl⟩ := hd
    refine ⟨.any, trivial, ?_⟩
    cases place <;> exact h _ _
  | ref name =>
    obtain ⟨rule, kids, hc, rfl, -⟩ := hd
    exact ⟨.any, trivial, h rule kids hc⟩
  | seq first second ihFirst ihSecond =>
    obtain ⟨left, middle, right, hl, hr, rfl⟩ := hd
    obtain ⟨after, ha, hs⟩ := ihFirst h hk hl
    have hp := ihSecond hs ha hr
    exact hp
  | choose test yes no ihYes ihNo =>
    rcases hd with ⟨ht, hy⟩ | ⟨ht, hn⟩
    · exact ihYes h.1 ⟨ht, hk⟩ hy
    · exact ihNo h.2 ⟨hk, ht⟩ hn
  | loop test body =>
    obtain ⟨rows, hr, rfl⟩ := hd
    exact ⟨.any, trivial, h ⟨rows, hr.forall fun ts _ rest ht hb => ⟨ts, rest, ht, hb⟩⟩⟩
  | node rule body =>
    obtain ⟨kids, -, rfl⟩ := hd
    exact ⟨.any, trivial, h kids⟩
  | extend test rule base tail ih =>
    obtain ⟨left, middle, hb, ⟨-, right, -, rfl⟩ | ⟨rfl, rfl⟩⟩ := hd
    · exact ⟨.any, trivial, h.2 _⟩
    · obtain ⟨-, -, hp⟩ := ih h.1 hk hb
      exact ⟨.any, trivial, hp⟩
  | climb test rule base tail ih =>
    obtain ⟨left, middle, rows, hb, -, rfl⟩ := hd
    obtain ⟨-, -, hp⟩ := ih h.1 hk hb
    refine ⟨.any, trivial, ?_⟩
    rcases chain_cases rule rows left with hc | ⟨kids, hc⟩
    · rwa [hc]
    · rw [hc]
      exact h.2 kids
  | refuse refusal => exact hd.elim

/-- What a phrase reads is admitted throughout, if its nodes are what their rules admit. -/
theorem Admits.of_derives (h : phrase.Admits known) (hk : known ts)
    (hd : phrase.Derives IsCovered ts trees rest) : ∀ tree ∈ trees, tree.Admitted := by
  induction phrase generalizing ts trees rest known with
  | nothing =>
    obtain ⟨rfl, -⟩ := hd
    simp
  | token | asComma =>
    obtain ⟨token, -, -, rfl⟩ := hd
    simp [admitted_leaf]
  | ref name =>
    obtain ⟨rule, kids, -, rfl, ha⟩ := hd
    simpa using ha
  | seq first second ihFirst ihSecond =>
    obtain ⟨left, middle, right, hl, hr, rfl⟩ := hd
    exact forall_mem_append.2 ⟨ihFirst h.1 hk hl, ihSecond h.2 trivial hr⟩
  | choose test yes no ihYes ihNo =>
    rcases hd with ⟨ht, hy⟩ | ⟨ht, hn⟩
    · exact ihYes h.1 ⟨ht, hk⟩ hy
    · exact ihNo h.2 ⟨hk, ht⟩ hn
  | loop test body ih =>
    obtain ⟨rows, hr, rfl⟩ := hd
    intro tree htr
    obtain ⟨row, hrow, hm⟩ := mem_flatten.1 htr
    exact hr.forall (fun _ _ _ ht hb => ih h ⟨ht, trivial⟩ hb) row hrow tree hm
  | node rule body ih =>
    obtain ⟨kids, hb, rfl⟩ := hd
    obtain ⟨-, -, ha⟩ := h.2.of_derives hk hb
    rw [forall_mem_singleton, admitted_node]
    exact ⟨ha, ih h.1 hk hb⟩
  | extend test rule base tail ihBase ihTail =>
    obtain ⟨left, middle, hb, ⟨ht, right, hta, rfl⟩ | ⟨rfl, rfl⟩⟩ := hd
    · obtain ⟨-, -, hl⟩ := h.2.2.of_derives hk hb
      obtain ⟨-, -, ha⟩ := hl.of_derives ⟨ht, trivial⟩ hta
      rw [forall_mem_singleton, admitted_node, forall_mem_append]
      exact ⟨ha, ihBase h.1 hk hb, ihTail h.2.1 ⟨ht, trivial⟩ hta⟩
    · exact ihBase h.1 hk hb
  | climb test rule base tail ihBase ihTail =>
    obtain ⟨left, middle, rows, hb, hr, rfl⟩ := hd
    obtain ⟨-, -, hl⟩ := h.2.2.1.of_derives hk hb
    -- the invariant of the chain: what it is so far is admitted, and goes on from a base or a node
    suffices hc : ∀ so : List Tree, (∀ tree ∈ so, tree.Admitted) →
        ((tail.Each (Known.any.seen test true) fun right _ => rule.admits (so ++ right)) →
          ∀ tree ∈ chain rule so rows, tree.Admitted) from
      hc left (ihBase h.1 hk hb) hl
    clear hl hb
    induction hr with
    | stop => exact fun so hso _ => hso
    | round ht hro _ ih =>
      intro so hso hs
      obtain ⟨-, -, ha⟩ := hs.of_derives ⟨ht, trivial⟩ hro
      refine ih _ ?_ (h.2.2.2 _)
      rw [forall_mem_singleton, admitted_node, forall_mem_append]
      exact ⟨ha, hso, ihTail h.2.1 ⟨ht, trivial⟩ hro⟩
  | refuse refusal => exact hd.elim

end Readings

/-! ### Evaluation -/

section Evaluation

variable {known : Known} {post : List Tree → Known →
  Prop} {first second phrase yes no base tail : Phrase}
  {test : Lookahead} {rule : Rule} {k : Keyword} {ks : List Keyword} {s : Symbol}
variable {entries : List (Lookahead × Phrase)} {parts : List Phrase}

@[simp ↓] theorem each_nothing : Phrase.nothing.Each known post ↔ post [] known := Iff.rfl

@[simp ↓] theorem each_token : (Phrase.token accepts expected).Each known post ↔
      ∀ value position kind, accepts ⟨kind, value, position⟩ →
        (accepts anyVariable → known.Allows ⟨kind, value, position⟩) →
        post [.leaf ⟨kind, value, position⟩] known.next :=
  ⟨fun h _ _ _ => h _, fun h _ => h _ _ _⟩

@[simp ↓] theorem each_asComma {place : CommaPlace} :
    (Phrase.asComma accepts expected place).Each known post ↔
      ∀ value position, post [.leaf ⟨.symbol .comma, value, position⟩] .any := Iff.rfl

@[simp ↓] theorem each_expression {name : Name}
    (h : name ∉ [Name.queryExpression, .tableReferences]) :
    (Phrase.ref name).Each known post ↔ ∀ (e : Expression) kids, post [.node e.rule kids] .any := by
  cases name
  case queryExpression | tableReferences => simp at h
  all_goals exact ⟨fun h e kids => h _ _ e.isExpression, fun h rule kids hr => h ⟨rule, hr⟩ kids⟩

@[simp ↓] theorem each_queryExpression : (Phrase.ref .queryExpression).Each known post ↔
    ∀ kids, post [.node .queryExpression kids] .any :=
  ⟨fun h kids => h _ kids rfl, fun h _ kids hr => hr ▸ h kids⟩

@[simp ↓] theorem each_tableReferences : (Phrase.ref .tableReferences).Each known post ↔
    ∀ kids, post [.node .tableReferenceList kids] .any :=
  ⟨fun h kids => h _ kids rfl, fun h _ kids hr => hr ▸ h kids⟩

@[simp ↓] theorem each_seq : (Phrase.seq first second).Each known post ↔
    first.Each known fun left after => second.Each after fun right rest =>
      post (left ++ right) rest :=
  Iff.rfl

@[simp ↓] theorem each_choose : (Phrase.choose test yes no).Each known post ↔
    yes.Each (known.seen test true) post ∧ no.Each (known.seen test false) post := Iff.rfl

@[simp ↓] theorem each_loop : (Phrase.loop test phrase).Each known post ↔
    ∀ rows : Rows test phrase, post rows.trees .any := Iff.rfl

@[simp ↓] theorem each_node {rule : List Tree → Rule} : (Phrase.node rule phrase).Each known post ↔
    ∀ kids, post [.node (rule kids) kids] .any := Iff.rfl

@[simp ↓] theorem each_extend : (Phrase.extend test rule base tail).Each known post ↔
    base.Each known (fun trees _ => post trees .any) ∧ ∀ kids, post [.node rule kids] .any :=
  Iff.rfl

@[simp ↓] theorem each_climb : (Phrase.climb test rule base tail).Each known post ↔
    base.Each known (fun trees _ => post trees .any) ∧ ∀ kids, post [.node rule kids] .any :=
  Iff.rfl

@[simp ↓] theorem each_refuse {refusal : Refusal} : (Phrase.refuse refusal).Each known post :=
  trivial

theorem nth_zero_cons {test : Token → Bool} {token : Token} {ts : List Token} :
    Lookahead.nth 0 test (token :: ts) = test token := rfl

theorem nth_succ_cons {n : Nat} {test : Token → Bool} {token : Token} {ts : List Token} :
    Lookahead.nth (n + 1) test (token :: ts) = Lookahead.nth n test ts := rfl

@[simp ↓] theorem each_keyword : (keyword k).Each known post ↔
    ∀ value position, post [.leaf ⟨.keyword k, value, position⟩] known.next := by
  simp [keyword, Token.isKeyword, anyVariable]

@[simp ↓] theorem each_symbol : (symbol s).Each known post ↔
    ∀ value position, post [.leaf ⟨.symbol s, value, position⟩] known.next := by
  simp [symbol, Token.isSymbol, anyVariable]

theorem oneOf_iff {token : Token} :
    Lookahead.oneOf ks token ↔ ∃ k ∈ ks, token.kind = .keyword k := by
  refine ⟨kind_of_oneOf, fun ⟨k, hk, ht⟩ => ?_⟩
  simp [Lookahead.oneOf, Token.keyword?, ht, hk]

@[simp ↓] theorem each_anyKeyword : (anyKeyword ks).Each known post ↔
    ∀ k ∈ ks, ∀ value position, post [.leaf ⟨.keyword k, value, position⟩] known.next := by
  simp only [anyKeyword, each_token, oneOf_iff]
  constructor
  · exact fun h k hk value position => h value position _ ⟨k, hk, rfl⟩ (by simp [anyVariable])
  · rintro h value position _ ⟨k, hk, rfl⟩ -
    exact h k hk value position

/-- The next token, which tests may have seen. -/
@[simp ↓] theorem each_anyToken : anyToken.Each known post ↔
    ∀ value position rest kind, known (⟨kind, value, position⟩ :: rest) → kind ≠ .ending →
      post [.leaf ⟨kind, value, position⟩] known.next := by
  simp only [anyToken, each_token, Token.isEnding, Bool.not_eq_true', beq_eq_false_iff_ne]
  constructor
  · exact fun h value position rest kind hk he => h value position kind he fun _ => ⟨rest, hk⟩
  · intro h value position kind he ha
    obtain ⟨rest, hk⟩ := ha (by simp [anyVariable])
    exact h value position rest kind hk he

theorem oneOf_keyword {value : String} {position : Nat} :
    Lookahead.oneOf ks ⟨.keyword k, value, position⟩ = decide (k ∈ ks) := by
  simp [Lookahead.oneOf, Token.keyword?]

theorem Each.imp {other : List Tree → Known → Prop} (h : phrase.Each known post)
    (hp : ∀ trees after, post trees after → other trees after) : phrase.Each known other := by
  induction phrase generalizing known post other with
  | nothing => exact hp _ _ h
  | token => exact fun token ha hk => hp _ _ (h token ha hk)
  | asComma => exact fun value position => hp _ _ (h value position)
  | ref => exact fun rule kids hc => hp _ _ (h rule kids hc)
  | seq first second ihFirst ihSecond =>
    exact ihFirst h fun left after hs => ihSecond hs fun right rest => hp _ _
  | choose test yes no ihYes ihNo => exact ⟨ihYes h.1 hp, ihNo h.2 hp⟩
  | loop test body => exact fun rows => hp _ _ (h rows)
  | node rule body => exact fun kids => hp _ _ (h kids)
  | extend _ _ _ _ ih | climb _ _ _ _ ih =>
    exact ⟨ih h.1 fun _ _ => hp _ _, fun kids => hp _ _ (h.2 kids)⟩
  | refuse => trivial

@[simp] theorem each_true : phrase.Each known fun _ _ => True := by
  induction phrase generalizing known with
  | nothing | refuse => trivial
  | token | ref => exact fun _ _ _ => trivial
  | asComma => exact fun _ _ => trivial
  | seq first second ihFirst ihSecond => exact ihFirst.imp fun _ _ _ => ihSecond
  | choose test yes no ihYes ihNo => exact ⟨ihYes, ihNo⟩
  | loop | node => exact fun _ => trivial
  | extend _ _ _ _ ih | climb _ _ _ _ ih => exact ⟨ih, fun _ => trivial⟩

/-- The phrases that come first are admitted whatever the tests before them told. -/
theorem admits_firstOf {otherwise : Phrase}
    (h : ∀ entry ∈ entries, ∀ known : Known, entry.2.Admits (known.seen entry.1 true))
    (ho : ∀ after : Known, (∀ ts, after ts → known ts ∧ ∀ entry ∈ entries, entry.1 ts = false) →
      otherwise.Admits after) : (firstOf otherwise entries).Admits known := by
  induction entries generalizing known with
  | nil => exact ho known (by simp)
  | cons entry entries ih =>
    refine ⟨h entry (by simp) known, ih (fun other hm => h other (by simp [hm])) fun after ha => ?_⟩
    refine ho after fun ts hts => ?_
    obtain ⟨⟨hk, he⟩, hr⟩ := ha ts hts
    exact ⟨hk, forall_mem_cons.2 ⟨he, hr⟩⟩

theorem firstOf_take_drop (n : Nat) {otherwise : Phrase} :
    firstOf otherwise entries = firstOf (firstOf otherwise (entries.drop n)) (entries.take n) := by
  induction n generalizing entries with
  | zero => simp [firstOf]
  | succ n ih =>
    cases entries with
    | nil => rfl
    | cons entry entries => rw [firstOf, ih, drop_succ_cons, take_succ_cons, firstOf]

/-! ### Phrases built from others -/

/-- A phrase reads one node of a rule. -/
abbrev IsNode (phrase : Phrase) (rule : Rule) : Prop :=
  ∀ {known : Known} {post : List Tree → Known → Prop},
    phrase.Each known post ↔ ∀ kids, post [.node rule kids] .any

@[simp ↓] theorem each_row_one : (row [phrase]).Each known post ↔ phrase.Each known post := Iff.rfl

@[simp ↓] theorem each_row_cons : (row (first :: second :: parts)).Each known post ↔
    first.Each known fun left after => (row (second :: parts)).Each after fun right rest =>
      post (left ++ right) rest := Iff.rfl

@[simp ↓] theorem each_make : (make rule parts).Each known post ↔
    ∀ kids, post [.node rule kids] .any := Iff.rfl

@[simp ↓] theorem each_optional : (Phrase.optional test phrase).Each known post ↔
    phrase.Each (known.seen test true) post ∧ post [] (known.seen test false) := Iff.rfl

@[simp ↓] theorem each_firstOf_nil : (firstOf phrase []).Each known post ↔ phrase.Each known post :=
  Iff.rfl

@[simp ↓] theorem each_firstOf_cons :
    (firstOf phrase ((test, yes) :: entries)).Each known post ↔
      yes.Each (known.seen test true) post ∧
        (firstOf phrase entries).Each (known.seen test false) post :=
  Iff.rfl

@[simp ↓] theorem each_commaList : (commaList phrase).Each known post ↔
    phrase.Each known fun left _ => ∀ rows : Rows (.symbol .comma) (.seq (symbol .comma) phrase),
      post (left ++ rows.trees) .any := Iff.rfl

@[simp ↓] theorem each_parenthesized : (parenthesized phrase).Each known post ↔
    (row [symbol .openParen, phrase, symbol .closeParen]).Each known post := Iff.rfl

@[simp ↓] theorem admits_nothing : Phrase.nothing.Admits known := trivial

@[simp ↓] theorem admits_token : (Phrase.token accepts expected).Admits known := trivial

@[simp ↓] theorem admits_asComma {place : CommaPlace} :
    (Phrase.asComma accepts expected place).Admits known := trivial

@[simp ↓] theorem admits_ref {name : Name} : (Phrase.ref name).Admits known := trivial

@[simp ↓] theorem admits_refuse {refusal : Refusal} : (Phrase.refuse refusal).Admits known :=
  trivial

@[simp ↓] theorem admits_seq : (Phrase.seq first second).Admits known ↔
    first.Admits known ∧ second.Admits .any := Iff.rfl

@[simp ↓] theorem admits_choose : (Phrase.choose test yes no).Admits known ↔
    yes.Admits (known.seen test true) ∧ no.Admits (known.seen test false) := Iff.rfl

@[simp ↓] theorem admits_loop : (Phrase.loop test phrase).Admits known ↔
    phrase.Admits (Known.any.seen test true) := Iff.rfl

@[simp ↓] theorem admits_extend : (Phrase.extend test rule base tail).Admits known ↔
    base.Admits known ∧ tail.Admits (Known.any.seen test true) ∧
      base.Each known fun left _ => tail.Each (Known.any.seen test true) fun right _ =>
        rule.admits (left ++ right) := Iff.rfl

@[simp ↓] theorem admits_climb : (Phrase.climb test rule base tail).Admits known ↔
    base.Admits known ∧ tail.Admits (Known.any.seen test true) ∧
      (base.Each known fun left _ => tail.Each (Known.any.seen test true) fun right _ =>
        rule.admits (left ++ right)) ∧
      ∀ kids, tail.Each (Known.any.seen test true) fun right _ =>
        rule.admits (.node rule kids :: right) := Iff.rfl

@[simp ↓] theorem admits_node {rule : List Tree → Rule} : (Phrase.node rule phrase).Admits known ↔
    phrase.Admits known ∧ phrase.Each known fun kids _ => (rule kids).admits kids := Iff.rfl

@[simp ↓] theorem admits_row_one : (row [phrase]).Admits known ↔ phrase.Admits known := Iff.rfl

@[simp ↓] theorem admits_row_cons : (row (first :: second :: parts)).Admits known ↔
    first.Admits known ∧ (row (second :: parts)).Admits .any := Iff.rfl

@[simp ↓] theorem admits_make : (make rule parts).Admits known ↔
    (row parts).Admits known ∧ (row parts).Each known fun kids _ => rule.admits kids :=
  Iff.rfl

@[simp ↓] theorem admits_optional : (Phrase.optional test phrase).Admits known ↔
    phrase.Admits (known.seen test true) := and_iff_left trivial

@[simp ↓] theorem admits_firstOf_nil : (firstOf phrase []).Admits known ↔ phrase.Admits known :=
  Iff.rfl

@[simp ↓] theorem admits_firstOf_cons :
    (firstOf phrase ((test, yes) :: entries)).Admits known ↔
      yes.Admits (known.seen test true) ∧ (firstOf phrase entries).Admits (known.seen test false) :=
  Iff.rfl

@[simp ↓] theorem admits_commaList : (commaList phrase).Admits known ↔
    phrase.Admits known ∧ phrase.Admits .any := by
  simp [commaList, symbol]

@[simp ↓] theorem admits_parenthesized :
    (parenthesized phrase).Admits known ↔ phrase.Admits .any := by
  simp [parenthesized, symbol]

@[simp ↓] theorem admits_keyword : (keyword k).Admits known := trivial

@[simp ↓] theorem admits_anyKeyword : (anyKeyword ks).Admits known := trivial

@[simp ↓] theorem admits_symbol : (symbol s).Admits known := trivial

@[simp ↓] theorem admits_anyToken : anyToken.Admits known := trivial

end Evaluation

/-! ### Loops -/

section Loops

variable {test : Lookahead} {body : Phrase} {rows : Rows test body} {p : Tree →
  Bool} {others : List Tree} {loose : Looseness} {depth : Nat}

@[simp] theorem all_rows (h : body.Each (Known.any.seen test true) fun row _ => row.all p) :
    rows.trees.all p := by
  rw [Rows.trees, all_flatten, all_eq_true]
  intro row hrow
  obtain ⟨ts, rest, ht, hb⟩ := rows.reads row hrow
  obtain ⟨-, -, hp⟩ := h.of_derives ⟨ht, trivial⟩ hb
  exact hp

@[simp] theorem isTidy_rows_append
    (h : body.Each (Known.any.seen test true) fun row _ =>
      isTidy (loose.within depth) 0 row) :
    isTidy loose depth (rows.trees ++ others) = isTidy loose depth others := by
  obtain ⟨rows, reads⟩ := rows
  change isTidy loose depth (rows.flatten ++ others) = _
  induction rows with
  | nil => rfl
  | cons row rows ih =>
    obtain ⟨ts, rest, ht, hb⟩ := reads row (by simp)
    obtain ⟨-, -, hr⟩ := h.of_derives ⟨ht, trivial⟩ hb
    rw [flatten_cons, append_assoc, ← ih fun other hm => reads other (by simp [hm])]
    exact Looseness.add_append_of_counts (fun _ _ => rfl) (fun _ _ _ _ => rfl) hr

@[simp] theorem isTidy_rows
    (h : body.Each (Known.any.seen test true) fun row _ => isTidy loose 0 row) :
    isTidy loose 0 rows.trees := by
  have ha : isTidy loose 0 (rows.trees ++ []) := isTidy_rows_append h
  rwa [append_nil] at ha

@[simp] theorem keywords_rows
    (h : body.Each (Known.any.seen test true) fun row _ => row.all isNode) :
    keywords rows.trees = [] := by
  have hr : ∀ tree ∈ rows.trees, tree.token? = none := by
    intro tree hm
    cases tree with
    | leaf token => exact absurd (all_eq_true.1 (all_rows h) _ hm) (by simp)
    | node rule kids => rfl
  rw [keywords, filterMap_eq_nil_iff.2 hr, filterMap_nil]

end Loops

end Phrase

end SqlBridge.Grammar
