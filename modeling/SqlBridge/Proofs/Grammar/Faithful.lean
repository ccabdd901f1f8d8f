/-
Reading loses, doubles and reorders nothing.

`parse_faithful` is about every statement that can be read: the leaves of its tree, in document
order, are its tokens, the ending last, up to the commas that stand for keywords between arguments.

* `Took`: trees are spelled by the tokens that were taken for them.
* `took_of_plain`: so it is for every plain phrase, by induction on the phrase, given that it is for
  names.
* The two phrases that are not plain are opened by hand (`took_positionCall`, `took_substringCall`).
-/
import SqlBridge.Proofs.Grammar.Plain
import SqlBridge.Proofs.Grammar.Spelling
import SqlBridge.Proofs.Token.Ending

namespace SqlBridge.Grammar

open Phrase List

variable {ts rest : List Token} {trees : List Tree} {rule : Rule} {phrase : Phrase}

/-! ### Phrases -/

/-- Some tokens were taken, and they spell some trees. -/
def Took (tokens : List Token) (trees : List Tree) (rest : List Token) : Prop :=
  ∃ used, tokens = used ++ rest ∧ Spells trees used

theorem Took.append {middle : List Token} {others : List Tree}
    (h : Took ts trees middle) (h' : Took middle others rest) :
    Took ts (trees ++ others) rest := by
  obtain ⟨used, rfl, hs⟩ := h
  obtain ⟨used', rfl, hs'⟩ := h'
  exact ⟨used ++ used', by simp, hs.append hs'⟩

theorem Took.node
    (h : Took ts trees rest) (hr : IsPlain rule) : Took ts [.node rule trees] rest := by
  obtain ⟨used, rfl, hs⟩ := h
  exact ⟨used, rfl, .single_node hr.1 (fun h => absurd h hr.2) hs⟩

/-- In what such a phrase reads, the leaves are commas. -/
theorem leaf_isComma {names : Name → Reads} (h : phrase.CommasOnly)
    (hr : phrase.Derives names ts trees rest) :
    ∀ token, .leaf token ∈ trees → token.isSymbol .comma := by
  have hk : phrase.Keeps names fun _ trees _ =>
      ∀ token, .leaf token ∈ trees → token.isSymbol .comma := by
    clear hr
    induction phrase with
    | asComma accepts expected place =>
      cases place <;> simp [Keeps, CommaPlace.comma, Token.isSymbol]
    | _ => simp_all [Keeps]
  exact hk.of_derives (by simp) (fun hl hr token ht =>
    (mem_append.1 ht).elim (hl token) (hr token)) hr

/-- A plain phrase reads trees that the tokens it takes spell, if names do. -/
theorem took_of_plain (h : phrase.Plain) (hr : phrase.Derives (fun _ => Took) ts trees rest) :
    Took ts trees rest := by
  have hk : phrase.Keeps (fun _ => Took) Took := by
    clear hr
    induction phrase with
    | token => exact fun token _ _ => ⟨[token], rfl, .single_leaf token⟩
    | ref => exact fun _ _ _ => id
    | node rule body ih =>
      refine .inr ⟨ih h.2, fun ts kids rest hb ht => ?_⟩
      rcases h.1 with hpl | ⟨hli, hc⟩
      · exact ht.node (hpl kids)
      · obtain ⟨used, rfl, hs⟩ := ht
        exact ⟨used, rfl, hli kids ▸ .single_node (by decide) (fun _ => leaf_isComma hc hb) hs⟩
    | extend test rule base tail ihBase ihTail =>
      exact ⟨ihBase h.2.1, ihTail h.2.2, fun _ _ _ ht => ht.node h.1⟩
    | climb test rule base tail ihBase ihTail =>
      exact ⟨ihBase h.2.1, ihTail h.2.2, fun _ _ _ ht => ht.node h.1⟩
    | _ => simp_all [Keeps]
  exact hk.of_derives (fun _ => ⟨[], rfl, .nil⟩) .append hr

/-! ### Keywords between arguments -/

/-- An argument is one tree. -/
theorem exists_argument (h : phrase.Plain)
    (hr : (argument phrase).Derives (fun _ => Took) ts trees rest) :
    ∃ tree used, trees = [tree] ∧ ts = used ++ rest ∧ Spells [tree] used := by
  obtain ⟨used, ht, hs⟩ := took_of_plain (by simp [argument, h]) hr
  obtain ⟨kids, -, rfl⟩ := hr
  exact ⟨_, used, rfl, ht, hs⟩

/-- A comma at the next token stands there whatever comes after. -/
theorem comma_next (sep next : Token) (used rest : List Token) :
    CommaPlace.next.comma sep (used ++ next :: rest) =
      CommaPlace.next.comma sep (used ++ [next]) := by
  cases used <;> rfl

/-- A test for a call settles which keyword comes first. -/
theorem isKeyword_of_callOf {keywords : List Keyword} {token : Token}
    (h : callOf keywords (token :: rest)) :
    ∃ keyword ∈ keywords, token.isKeyword keyword := by
  have hf : token.keyword?.any keywords.contains := (Bool.and_eq_true_iff.1 h).1
  unfold Token.keyword? at hf
  split at hf
  · rename_i keyword hk
    exact ⟨keyword, by simpa using hf, by simp [Token.isKeyword, hk]⟩
  · cases hf

theorem took_positionCall (ht : callOf [.POSITION] ts)
    (hr : positionCall.Derives (fun _ => Took) ts trees rest) : Took ts trees rest := by
  obtain ⟨_, ⟨_, _, _, ⟨name, rfl, -, rfl⟩, ⟨_, _, _, ⟨opening, rfl, -, rfl⟩, ⟨_, _, _,
    ⟨_, ⟨_, _, _, hne, ⟨_, _, _, ⟨isIn, rfl, hin, rfl⟩, hha, rfl⟩, rfl⟩, rfl⟩,
    ⟨closing, rfl, -, rfl⟩, rfl⟩, rfl⟩, rfl⟩, rfl⟩ := hr
  have ho : (ref .operand).Plain := trivial
  obtain ⟨needle, tokensOfNeedle, rfl, rfl, hn⟩ := exists_argument ho hne
  obtain ⟨hay, tokensOfHaystack, rfl, rfl, hh⟩ := exists_argument plain_expression hha
  obtain ⟨keyword, hk, hna⟩ := isKeyword_of_callOf ht
  cases mem_singleton.1 hk
  refine ⟨_, ?_, .position hna hin hn hh rfl .nil⟩
  simp

/-- The call that may have `FROM` and `FOR` between its arguments. -/
theorem took_substringCall (ht : callOf [.SUBSTRING, .SUBSTR] ts)
    (hr : (make .runtimeFunctionCall [anyToken, callTail substringArguments]).Derives
      (fun _ => Took) ts trees rest) : Took ts trees rest := by
  obtain ⟨_, ⟨_, _, _, ⟨name, rfl, -, rfl⟩, ⟨_, _, _, ⟨opening, rfl, -, rfl⟩, ⟨_, _, _, hi,
    ⟨closing, rfl, -, rfl⟩, rfl⟩, rfl⟩, rfl⟩, rfl⟩ := hr
  have hna : name.isKeyword .SUBSTRING ∨ name.isKeyword .SUBSTR := by
    obtain ⟨keyword, hk, hna⟩ := isKeyword_of_callOf ht
    simp only [mem_cons, not_mem_nil, or_false] at hk
    rcases hk with rfl | rfl
    · exact .inl hna
    · exact .inr hna
  rcases hi with ⟨-, _, hp, rfl⟩ | ⟨-, rfl, rfl⟩
  · have hl := leaf_isComma
      (by simp [row, argument, commaFor, symbol, Phrase.optional]) hp
    obtain ⟨_, _, _, hfi, hre, rfl⟩ := hp
    obtain ⟨whole, tokensOfWhole, rfl, rfl, hw⟩ := exists_argument plain_expression hfi
    rcases hre with ⟨-, _, _, _, ⟨isFrom, rfl, hf, rfl⟩, ⟨_, _, _, hse, hmo, rfl⟩, rfl⟩ | ⟨-, hc⟩
    · -- `FROM`, and perhaps `FOR`
      obtain ⟨start, tokensOfStart, rfl, rfl, hs⟩ := exists_argument plain_expression hse
      rcases hmo with ⟨-, _, _, _, ⟨isFor, rfl, hfo, rfl⟩, hth, rfl⟩ | ⟨-, rfl, rfl⟩
      · obtain ⟨length, tokensOfLength, rfl, rfl, hle⟩ := exists_argument plain_expression hth
        refine ⟨_, ?_, .substringFor hna hf hfo hw hs hle (comma_next _ _ _ _)
          (comma_next _ _ _ _) .nil⟩
        simp
      · refine ⟨_, ?_, .substring hna hf hw hs (comma_next _ _ _ _) .nil⟩
        simp
    · -- commas: nothing stands for anything else
      have hli :
          (loop (.symbol .comma) (.seq (symbol .comma) (argument expression))).Plain := by
        simp [argument]
      obtain ⟨used, rfl, ho⟩ := took_of_plain hli hc
      refine ⟨_, ?_, .single_call hl (hw.append ho)⟩
      simp
  · exact .node ⟨[name, opening, closing], rfl, .leaf (.leaf (.leaf .nil))⟩ (by simp)

theorem took_simpleBase (hr : simpleBase.Derives (fun _ => Took) ts trees rest) :
    Took ts trees rest := by
  have plain {test : Lookahead} {phrase : Phrase} (h : phrase.Plain) (_ : test ts)
      (hr : phrase.Derives (fun _ => Took) ts trees rest) : Took ts trees rest := took_of_plain h hr
  rcases derives_firstOf hr with hn | ⟨entry, he, ht, hr⟩
  · exact took_of_plain (plain_expected _) hn
  revert entry
  simp only [forall_mem_cons]
  -- one entry after the other, in the order in which they are tried
  exact ⟨plain (by simp), plain (by simp), plain (by simp), plain (by simp),
    plain plain_systemVariable, plain (by simp), plain (by simp), plain (by simp [textLiteral]),
    plain (by simp), plain (by simp), plain (by simp), plain (by simp), plain plain_caseExpression,
    plain (plain_unsupported _), plain (plain_unsupported _), plain plain_aggregate,
    plain plain_cast, plain plain_convert, plain plain_extract, took_positionCall, plain (by simp),
    took_substringCall, plain (by simp), plain (by simp), plain plain_columnRef, by simp⟩

theorem took_simpleExpression (hr : simpleExpression.Derives (fun _ => Took) ts trees rest) :
    Took ts trees rest := by
  have ht : (row [keyword .COLLATE, collationName]).Plain := by simp
  obtain ⟨left, middle, hb, ⟨-, right, hc, rfl⟩ | ⟨rfl, rfl⟩⟩ := hr
  · exact ((took_simpleBase hb).append (took_of_plain ht hc)).node (by simp)
  · exact took_simpleBase hb

/-- Every production reads trees that the tokens it takes spell. -/
theorem took_production (name : Name) (ts : List Token) (trees : List Tree) (rest : List Token)
    (hr : (productions name).Derives (fun _ => Took) ts trees rest) : Took ts trees rest := by
  cases name with
  | expression => exact took_of_plain plain_disjunction hr
  | negation => exact took_of_plain plain_negation hr
  | predicate => exact took_of_plain plain_predicate hr
  | operand => exact took_of_plain plain_operand hr
  | simpleExpression => exact took_simpleExpression hr
  | queryExpression => exact took_of_plain plain_queryExpression hr
  | tableReferences => exact took_of_plain plain_tableReferences hr

/-! ### Statements -/

/-- A statement is read to its ending. -/
theorem took_query {fuel : Nat} (hr : read productions fuel query ts = .ok (trees, rest)) :
    Took ts trees rest ∧ ∃ before ending, ts = before ++ ending :: rest ∧ ending.isEnding := by
  have hd := derives_of_read took_production hr
  refine ⟨took_of_plain plain_query hd, ?_⟩
  obtain ⟨_, ⟨_, _, _, hst, ⟨_, _, _, hs, ⟨ending, rfl, he, rfl⟩, rfl⟩, rfl⟩, rfl⟩ := hd
  have hp : simpleStatement.Plain ∧ (optionalSymbol .semicolon).Plain := by
    simpa [query] using plain_query
  obtain ⟨used, rfl, -⟩ := took_of_plain hp.1 hst
  obtain ⟨used', rfl, -⟩ := took_of_plain hp.2 hs
  exact ⟨used ++ used', ending, by simp, he⟩

end SqlBridge.Grammar
