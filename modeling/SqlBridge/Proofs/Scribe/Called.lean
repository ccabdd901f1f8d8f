/-
What calls and expressions are written as.

Every call of a proper node is written as something that stands for a value, with no comma outside
parentheses (`Branch.Proper.functionCall`, `Branch.Proper.aggregate`), and so are the operators of
expressions.
-/
import SqlBridge.Proofs.Scribe.Proper

namespace SqlBridge

open Scribe Sql List SqlBridge.Tree

variable {bad : Error → Prop}

namespace Tree

variable {rule : Rule} {row : List Tree} {sql : Sql} {sql? : Option Sql}

theorem reads_stands (hr : rule ≠ .identifier) (h : sql.Stands (Tree.node rule row).looseness) :
    (Tree.node rule row).Reads (some sql) := by
  refine ⟨?_, fun _ => ⟨sql, rfl, h.ne_nil⟩, fun heq => absurd heq hr⟩
  rintro other ⟨rfl⟩
  exact h.even

theorem reads_even (hw : rule.isWritten = false)
    (h : ∀ sql ∈ sql?, sql.Even (Tree.node rule row).looseness) :
    (Tree.node rule row).Reads sql? := by
  refine ⟨h, fun ht => ?_, ?_⟩
  · rw [hw] at ht
    cases ht
  · rintro rfl
    cases hw

theorem firstKeyword?_of_ahead {kw : Keyword} (h : keywordAhead? row = some kw) :
    (Tree.node rule row).firstKeyword? = some kw := by
  cases row with
  | nil => cases h
  | cons first rest =>
    cases first with
    | node other below => cases h
    | leaf tok => exact h

theorem exists_firstToken {tree : Tree} (h : tree.children.any fun below => below.token?.isSome) :
    ∃ tok, tree.firstToken? = some tok := by
  obtain ⟨below, hm, hs⟩ := any_eq_true.1 h
  obtain ⟨tok, ht⟩ := Option.isSome_iff_exists.1 hs
  have hne : tree.childTokens ≠ [] := ne_nil_of_mem (mem_filterMap.2 ⟨below, hm, ht⟩)
  exact Option.isSome_iff_exists.1 (isSome_head?.2 hne)

end Tree

namespace Draft

theorem results_requiredAll {drafts : List Draft}
    (h : ∀ draft ∈ drafts, draft.Proper bad ∧ draft.tree.isOperand) :
    (requiredAll drafts).Results bad fun sqls => ∀ sql ∈ sqls, sql.Stands .item := by
  induction drafts with
  | nil => exact results_pure (by simp)
  | cons draft rest ih =>
    rw [forall_mem_cons] at h
    refine results_bind (h.1.1.required_operand h.1.2) fun sql hsq => ?_
    refine results_bind (ih h.2) fun sqls hs => results_pure ?_
    exact forall_mem_cons.2 ⟨hsq, hs⟩

namespace Proper

variable {part : Draft} (h : part.Proper bad)

include h

theorem write_name (hru : part.tree.hasRule .identifier) :
    part.write.Results bad (· = some [.name part.tree.nameText]) := by
  obtain ⟨below, ht⟩ := exists_of_hasRule hru
  refine h.write.mono fun sql? hr => ?_
  rw [ht] at hr ⊢
  exact Tree.NodeReads.name hr rfl

theorem required_name (hr : part.tree.hasRule .identifier) :
    part.required.Results bad (· = [.name part.tree.nameText]) := by
  refine results_bind (h.write_name hr) ?_
  rintro sql? rfl
  exact results_pure rfl

/-- An operand is written as the expression around it. -/
theorem write_operand (ho : part.tree.isOperand) :
    part.write.Results bad fun sql? => ∃ sql, sql? = some sql ∧ sql.Stands .item := by
  refine h.write.mono fun sql? hr => ?_
  generalize part.tree = tree at ho hr
  cases tree with
  | leaf tok => cases ho
  | node rule kids =>
    have hru : rule.isWritten ∧ rule.looseness = .item := by
      simpa [Rule.isOperand] using ho
    obtain ⟨sql, hs, hne⟩ := Tree.NodeReads.written hr hru.1
    have he := (Tree.NodeReads.even hr sql hs).mono looseness_fits
    rw [hru.2] at he
    exact ⟨sql, hs, he, hne⟩

end Proper

end Draft

namespace Branch

variable {node : Branch} {rule : Rule} {row : List Tree}

/-! ### Parts of expressions -/

theorem Proper.arguments (h : node.Proper bad) {part : Draft} (hp : part ∈ node.arguments) :
    part.Proper bad ∧ part.tree.isOperand := by
  unfold Branch.arguments at hp
  split at hp
  · rename_i list hli
    obtain ⟨arg, ha, hf⟩ := mem_filterMap.1 hp
    obtain ⟨hpr, hr⟩ := (h.child hli).1.branch.childrenBy ha
    obtain ⟨below, ht⟩ := exists_of_hasRule hr
    have hl : leads arg.branch.tree.children := by
      have hd := hpr.branch.demand ht rfl
      rw [show arg.branch.tree.children = below from congrArg children ht]
      exact hd
    obtain ⟨first, hs, ho⟩ := hpr.branch.exists_firstNode hl
    rw [hf] at hs
    cases hs
    exact ho
  · cases hp

/-- The unit of an interval, or of an extraction. -/
theorem Proper.exists_unit (h : node.Proper bad)
    (hu : Rule.isIn .intervalTimeStamp node.tree.children) :
    ∃ unit, node.tree.unit? = some unit := by
  obtain ⟨part, hpa, hp, hr⟩ := h.exists_child hu
  obtain ⟨below, ht⟩ := exists_of_hasRule hr
  have ha : (keywordAhead? below).isSome := hp.branch.demand ht rfl
  obtain ⟨unit, hk⟩ := Option.isSome_iff_exists.1 ha
  refine ⟨unit, ?_⟩
  have hc : node.tree.child? .intervalTimeStamp = some part.tree := by
    rw [Tree.child?, ← h.trees, find?_map]
    exact congrArg (Option.map Draft.tree) hpa
  rw [unit?, hc, Option.bind_some, ht]
  exact firstKeyword?_of_ahead hk

theorem results_castTo {opd : Sql} (ho : opd.Stands .item) {type : Draft}
    (hty : type.Proper bad) (hr : type.tree.hasRule .castType) :
    (castTo opd type).Results bad (Stands .item) := by
  obtain ⟨below, ht⟩ := exists_of_hasRule hr
  have ha : (keywordAhead? below).isSome := hty.branch.demand ht rfl
  obtain ⟨kw, hk⟩ := Option.isSome_iff_exists.1 ha
  have hf : type.tree.firstKeyword? = some kw := by
    rw [ht]
    exact firstKeyword?_of_ahead hk
  refine results_bind (results_part hf) ?_
  rintro kw rfl
  exact (Function.composes_castTo ho.even kw).results hty.tree.refuses

/-- A date that is moved by an interval. -/
theorem results_shiftedBy {date : Sql} (hda : date.Stands .item) (subtract : Bool)
    {interval : Draft} (h : interval.Proper bad) (hr : interval.tree.hasRule .interval) :
    (shiftedBy date subtract interval).Results bad (Stands .item) := by
  obtain ⟨below, ht⟩ := exists_of_hasRule hr
  have hd := h.branch.demand ht rfl
  have hc : interval.branch.tree.children = below := congrArg children ht
  simp only [Bool.and_eq_true, Bool.not_eq_true'] at hd
  obtain ⟨⟨hl, hu⟩, ho⟩ := hd
  rw [← hc] at hl hu ho
  obtain ⟨amount, hf, hp, hop⟩ := h.branch.exists_firstNode hl
  obtain ⟨unit, hu⟩ := h.branch.exists_unit hu
  have ha : (interval.branch.firstNode?.filter fun part =>
      !part.tree.hasRule .intervalTimeStamp) = some amount := by
    rw [← h.branch.trees, find?_map] at ho
    have hfi : interval.branch.parts.find? (isNode ∘ Draft.tree) = some amount := hf
    rw [hfi] at ho
    rw [hf, Option.filter_some, if_pos]
    simpa using ho
  refine results_bind (results_part ha) ?_
  rintro amount rfl
  refine results_bind (results_part hu) ?_
  rintro unit rfl
  exact results_bind (hp.required_operand hop) fun sql hs =>
    (Function.composes_shifted hda.even subtract hs.even unit).results h.tree.refuses

theorem stands_excluded (name : String) :
    Stands .item [.raw "excluded", .raw ".", .name name] := by
  have hw : Piece.Single (.raw "excluded") (.word "excluded") := .bare (by decide)
  have hd : Spells [.raw "."] [.symbol "."] := spells_single rfl (.bare (by decide))
  have hp : Path [.raw "excluded", .raw ".", .name name] := by
    refine ⟨_, (spells_single rfl hw).append (hd.append (spells_single rfl (.name name))), ?_⟩
    exact (Lexeme.isPath_name name).dotted (by decide) rfl (by simp)
  exact hp.stands _

theorem even_membership {symbol? : Option Symbol} {quantifier : Keyword} {op : Sql}
    (h : membership? symbol? quantifier = some op) : op.Even .item := by
  unfold membership? at h
  split at h
  all_goals first
    | (cases h; exact even_tokens (by decide))
    | cases h

/-- The quantifier of a comparison is one of its children. -/
theorem exists_isQuantifier {quantifier : Keyword} (h : node.quantifier? = some quantifier) :
    ∃ tree ∈ node.tree.children, tree.isQuantifier := by
  obtain ⟨tok, ht, hk⟩ := mem_filterMap.1 (mem_of_find?_eq_some h)
  obtain ⟨tree, hm, htr⟩ := mem_filterMap.1 ht
  refine ⟨tree, hm, ?_⟩
  have ho := find?_some h
  simp only [Bool.or_eq_true, beq_iff_eq] at ho
  simp [isQuantifier, htr, Grammar.Lookahead.oneOf, hk, or_assoc.1 ho]

/-- An expression that is written as its operand has one. -/
theorem leads_of_admitsOperand (h : Rule.admitsOperand row)
    (hh : (∃ first ∈ row.head?, first.hasKind (.keyword .BINARY) ∨
      first.hasKind (.symbol .bang)) ∨ row.any (hasKind (.keyword .COLLATE))) :
    leads row := by
  unfold Rule.admitsOperand at h
  rw [Bool.or_eq_true] at h
  refine h.resolve_right fun hn => ?_
  simp only [Bool.not_eq_true', Bool.or_eq_false_iff, Option.any_eq_false] at hn
  rcases hh with ⟨first, hf, hk⟩ | hc
  · obtain ⟨hb, hba⟩ := hn.1 first hf
    rcases hk with hk | hk
    · exact absurd (hk.symm.trans hb) (by decide)
    · exact absurd (hk.symm.trans hba) (by decide)
  · exact absurd (hc.symm.trans hn.2) (by decide)

/-- What the functions with a form of their own ask of a call. -/
structure AsksFor (faulty : Error → Prop) (node : Branch) : Prop where
  cast : node.tree.functionName = "CAST" → leads node.tree.children ∧
    (Rule.isIn .castType node.tree.children ∨
      ∀ error : Error, error.IsFault → faulty error)
  convert : node.tree.functionName = "CONVERT" → leads node.tree.children
  extract : node.tree.functionName = "EXTRACT" →
    (Rule.isIn .intervalTimeStamp node.tree.children ∨
      ∀ error : Error, error.IsFault → faulty error) ∧
      ((node.tree.children.filter isNode).find?
        (!hasRule .intervalTimeStamp ·)).any isOperand

namespace Proper

variable (h : node.Proper bad)

include h

/-! ### Calls -/

theorem castCall (hl : leads node.tree.children) (hty : Rule.isIn .castType node.tree.children ∨
      ∀ error : Error, error.IsFault → bad error) :
    node.castCall.Results bad (Stands .item) := by
  obtain ⟨opd, hf, hp, ho⟩ := h.exists_firstNode hl
  refine results_bind (results_part hf) ?_
  rintro opd rfl
  cases ht : node.child? .castType with
  | some type =>
    refine results_bind (results_part rfl) ?_
    rintro type rfl
    exact results_bind (hp.required_operand ho) fun sql hsq =>
      results_castTo hsq (h.child ht).1 (h.child ht).2
  | none =>
    rcases hty with hin | ha
    · obtain ⟨type, hs, -⟩ := h.exists_child hin
      rw [ht] at hs
      cases hs
    · exact fun _ => ha _ trivial

theorem convertCall (hl : leads node.tree.children) :
    node.convertCall.Results bad (Stands .item) := by
  obtain ⟨opd, hf, hp, ho⟩ := h.exists_firstNode hl
  refine results_bind (results_part hf) ?_
  rintro opd rfl
  refine results_bind (hp.required_operand ho) fun sql hs => ?_
  split
  · rename_i type ht
    exact results_castTo hs (h.child ht).1 (h.child ht).2
  · exact results_pure hs

/-- The first node other than a unit. -/
theorem exists_extracted (ho : ((node.tree.children.filter isNode).find?
      (!hasRule .intervalTimeStamp ·)).any isOperand) :
    ∃ part, node.nodes.find? (fun part => !part.tree.hasRule .intervalTimeStamp) = some part ∧
      part.Proper bad ∧ part.tree.isOperand := by
  rw [← h.trees, filter_map, find?_map] at ho
  obtain ⟨tree, ht, ho⟩ := (Option.any_eq_true _ _).1 ho
  obtain ⟨part, hp, rfl⟩ := Option.map_eq_some_iff.1 ht
  have hm : part ∈ node.parts := (mem_filter.1 (mem_of_find?_eq_some hp)).1
  exact ⟨part, hp, h.below part hm, ho⟩

theorem extractCall (hun : Rule.isIn .intervalTimeStamp node.tree.children ∨
      ∀ error : Error, error.IsFault → bad error)
    (ho : ((node.tree.children.filter isNode).find?
      (!hasRule .intervalTimeStamp ·)).any isOperand) :
    node.extractCall.Results bad (Stands .item) := by
  obtain ⟨part, hpa, hp, ho⟩ := h.exists_extracted ho
  have hr (unit : Keyword) : (do
      let opd ← Scribe.part "EXTRACT" "an operand"
        (node.nodes.find? fun part => !part.tree.hasRule .intervalTimeStamp)
      Function.datePart unit.spelling (← opd.required) : Scribe Sql).Results bad
        (Stands .item) := by
    refine results_bind (results_part hpa) ?_
    rintro part rfl
    exact results_bind (hp.required_operand ho) fun sql hsq =>
      (Function.composes_datePart _ hsq.even).results h.refuses
  cases hu : node.tree.unit? with
  | some unit =>
    unfold Branch.extractCall
    rw [hu]
    exact results_bind (results_part rfl) fun unit _ => hr unit
  | none =>
    unfold Branch.extractCall
    rw [hu]
    rcases hun with hin | ha
    · obtain ⟨unit, hs⟩ := h.exists_unit hin
      rw [hu] at hs
      cases hs
    · exact fun _ => ha _ trivial

theorem results_wrongCount {want : Sql → Prop} {name : String} {count : Nat} {args : List Draft} :
    (wrongCount name count args : Scribe Sql).Results bad want :=
  results_throw (h.refuses _ trivial)

theorem dateFormatCall : node.dateFormatCall.Results bad (Stands .item) := by
  unfold Branch.dateFormatCall
  split
  · rename_i date format ha
    have hd : date.Proper bad ∧ date.tree.isOperand := h.arguments (by simp [ha])
    split
    · rename_i literal _
      have hp : Ends bad (fun _ => True) (Function.datePattern literal.text.toList) := by
        have he := Function.ends_datePattern literal.text.toList
        cases ho : Function.datePattern literal.text.toList with
        | ok pattern => trivial
        | error error =>
          rw [ho] at he
          exact h.refuses error he
      refine results_bind (results_lift hp) fun pattern _ => ?_
      refine results_bind (hd.1.required_operand hd.2) fun sql hs => ?_
      refine (composes_call (isSome_lookup _ (by simp)) ?_).results h.refuses
      simp only [forall_mem_cons]
      exact ⟨even_string _, hs.even.inside, by simp⟩
    · exact h.results_unsupported _
  · exact h.results_wrongCount

theorem dateShiftCall (name : String) : (node.dateShiftCall name).Results bad (Stands .item) := by
  unfold Branch.dateShiftCall
  split
  · rename_i date amount ha
    have hd : date.Proper bad ∧ date.tree.isOperand := h.arguments (by simp [ha])
    have ham : amount.Proper bad ∧ amount.tree.isOperand := h.arguments (by simp [ha])
    refine results_bind (hd.1.required_operand hd.2) fun sql hs => ?_
    split
    · rename_i hi
      exact results_shiftedBy hs _ ham.1 hi
    · split
      · exact results_bind (ham.1.required_operand ham.2) fun count hc =>
          (Function.composes_shifted hs.even _ hc.even _).results h.refuses
      · exact h.results_unsupported _
  · exact h.results_wrongCount

theorem valuesCall (name : String) : (node.valuesCall name).Results bad (Stands .item) := by
  unfold Branch.valuesCall
  split
  · split
    · exact results_pure (stands_excluded _)
    · exact h.results_unsupported _
  · exact h.results_wrongCount

theorem functionCall (ha : AsksFor bad node)
    (db : String) : (node.functionCall db).Results bad (Stands .item) := by
  unfold Branch.functionCall
  dsimp only
  split
  case h_1 hn => exact h.castCall (ha.cast hn).1 (ha.cast hn).2
  case h_2 hn => exact h.convertCall (ha.convert hn)
  case h_3 hn => exact h.extractCall (ha.extract hn).1 (ha.extract hn).2
  case h_4 => exact h.dateFormatCall
  case h_5 | h_6 | h_7 | h_8 => exact h.dateShiftCall _
  case h_9 => exact h.valuesCall _
  case h_10 | h_11 => exact results_pure (stands_cons (even_string _))
  case h_12 => exact results_bind (results_modify _) fun _ _ => h.results_unsupported _
  case h_13 =>
    refine results_bind (Draft.results_requiredAll fun part => h.arguments) fun sqls hs => ?_
    exact (Function.composes_counterpart _ fun sql hsq => (hs sql hsq).even).results h.refuses

/-- A call by name. -/
theorem asksFor_functionCall (ht : node.tree = .node .functionCall row) : AsksFor bad node := by
  have hl : leads node.tree.children := by
    have hd := h.demand ht rfl
    rw [ht, children]
    exact hd
  have hna {name : String} (hn : node.tree.functionName = name)
      (hm : name ∈ ["CAST", "CONVERT", "EXTRACT"]) :
      ∀ error : Error, error.IsFault → bad error := by
    refine h.proper.named ?_
    rw [isNamedCall, hn, contains_iff_mem.2 hm, ht]
    rfl
  refine ⟨fun hn => ⟨hl, .inr (hna hn (by simp))⟩, fun _ => hl, fun hn =>
    ⟨.inr (hna hn (by simp)), ?_⟩⟩
  -- the first node is the operand, and no unit
  unfold leads at hl
  obtain ⟨first, hf, ho⟩ := (Option.any_eq_true _ _).1 hl
  rw [find?_filter]
  have hfi : node.tree.children.find? (fun tree =>
      tree.isNode && !tree.hasRule .intervalTimeStamp) = some first := by
    obtain ⟨hno, before, after, hs, hb⟩ := find?_eq_some_iff_append.1 hf
    refine find?_eq_some_iff_append.2 ⟨?_, before, after, hs, fun tree ht => ?_⟩
    · have hot : first.hasRule .intervalTimeStamp = false := by
        cases first with
        | leaf tok => rfl
        | node rule below =>
          rw [hasRule_node, decide_eq_false_iff_not]
          rintro rfl
          cases ho
      simp [hno, hot]
    · simp [by simpa using hb tree ht]
  simpa [hfi] using ho

/-- The name of a call that begins with a keyword. -/
theorem functionName_of_ahead {kw : Keyword} (ha : keywordAhead? node.tree.children = some kw) :
    node.tree.functionName = kw.spelling ∧
      ∀ text, kw.spelling = text → Keyword.all.find? (·.spelling == text) = some kw := by
  obtain ⟨tok, rest, hc⟩ : ∃ tok rest, node.tree.children = .leaf tok :: rest := by
    cases hc : node.tree.children with
    | nil => simp [hc, keywordAhead?] at ha
    | cons first rest =>
      cases first with
      | leaf tok => exact ⟨tok, rest, rfl⟩
      | node rule below => simp [hc, keywordAhead?] at ha
  rw [hc, keywordAhead?_leaf] at ha
  have hk : tok.kind = .keyword kw := by
    unfold Token.keyword? at ha
    split at ha
    · rename_i other hk
      cases ha
      exact hk
    · cases ha
  have hsp : tok.WellSpelled := by
    obtain ⟨part, hp, ht⟩ : ∃ part ∈ node.parts, part.tree = .leaf tok := by
      have hm : leaf tok ∈ node.parts.map Draft.tree := by rw [h.trees, hc]; simp
      simpa using hm
    exact (h.below part hp).tree.spelled tok ht
  have hf : Keyword.all.find? (·.spelling == Text.asciiUpper tok.value) = some kw :=
    hsp.keyword kw hk
  have hs : kw.spelling = Text.asciiUpper tok.value := by
    simpa using find?_some hf
  refine ⟨?_, ?_⟩
  · rw [functionName, hc, head?_cons, hs]
  · rintro text rfl
    rwa [hs]

/-- A call of a function that is a keyword. -/
theorem asksFor_runtimeFunctionCall
    (ht : node.tree = .node .runtimeFunctionCall row) : AsksFor bad node := by
  have hd : Rule.admitsCall node.tree.children := by
    have hd := h.demand ht rfl
    rw [ht, children]
    exact hd
  obtain ⟨kw, ha⟩ : ∃ kw, keywordAhead? node.tree.children = some kw := by
    cases ha : keywordAhead? node.tree.children with
    | some kw => exact ⟨kw, rfl⟩
    | none => simp [Rule.admitsCall, ha] at hd
  obtain ⟨hn, hu⟩ := h.functionName_of_ahead ha
  have hk {text : String} (other : Keyword) (hte : node.tree.functionName = text)
      (ho : Keyword.all.find? (·.spelling == text) = some other) : kw = other := by
    have hf := hu text (hn.symm.trans hte)
    exact Option.some.inj (hf.symm.trans ho)
  refine ⟨fun hca => ?_, fun hc => ?_, fun he => ?_⟩
  · obtain rfl := hk .CAST hca (by decide +kernel)
    have hb : leads node.tree.children && Rule.isIn .castType node.tree.children := by
      simpa [Rule.admitsCall, ha] using hd
    exact ⟨(Bool.and_eq_true_iff.1 hb).1, .inl (Bool.and_eq_true_iff.1 hb).2⟩
  · obtain rfl := hk .CONVERT hc (by decide +kernel)
    simpa [Rule.admitsCall, ha] using hd
  · obtain rfl := hk .EXTRACT he (by decide +kernel)
    unfold Rule.admitsCall at hd
    rw [ha, Bool.and_eq_true] at hd
    exact ⟨.inl hd.1, hd.2⟩

/-! ### Aggregates -/

theorem aggregated (hop : (node.tree.children.any fun tree =>
      tree.hasKind (.symbol .star) || tree.hasRule .exprList)) (name : String) :
    (node.aggregated name).Results bad (Even .compound) := by
  unfold Branch.aggregated
  split
  · exact results_pure (even_tokens (by decide))
  · rename_i hst
    have hl : Rule.isIn .exprList node.tree.children := by
      obtain ⟨tree, hm, ht⟩ := any_eq_true.1 hop
      rw [Bool.or_eq_true] at ht
      rcases ht with hk | hr
      · refine absurd ?_ hst
        rw [hasSymbol, hasToken_eq_any]
        exact any_eq_true.2 ⟨tree, hm, hk⟩
      · exact any_eq_true.2 ⟨tree, hm, hr⟩
    obtain ⟨list, hso, hp, hr⟩ := h.exists_child hl
    refine results_bind (results_part hso) ?_
    rintro list rfl
    obtain ⟨below, ht⟩ := exists_of_hasRule hr
    have ho {part : Draft} (hpa : part ∈ list.branch.nodes) :
        part.Proper bad ∧ part.tree.isOperand := by
      obtain ⟨hm, hn⟩ := mem_filter.1 hpa
      have hd := hp.branch.demand ht rfl
      have hin : part.tree ∈ below := by
        have hc : list.branch.tree.children = below := congrArg children ht
        rw [← hc, ← hp.branch.trees]
        exact mem_map_of_mem hm
      have hb := all_eq_true.1 hd part.tree hin
      rw [hn] at hb
      exact ⟨hp.branch.below part hm, by simpa using hb⟩
    split
    · rename_i single hsi
      have hon : single.Proper bad ∧ single.tree.isOperand := ho (by simp [hsi])
      exact (hon.1.required_operand hon.2).mono fun sql hs => hs.even.inside
    · split
      · refine results_bind (Draft.results_requiredAll fun part => ho) fun sqls hsq => ?_
        have he : Even .compound (Function.concatenation sqls) :=
          Function.even_concatenation fun sql hs => (hsq sql hs).even.inside
        exact results_pure he.group
      · exact h.results_unsupported _

theorem aggregate (ht : node.tree = .node .sumExpr row) :
    node.aggregate.Results bad (Stands .item) := by
  have hd := h.demand ht rfl
  have hc : node.tree.children = row := by rw [ht, children]
  rw [Bool.and_eq_true, ← hc] at hd
  obtain ⟨hah, ho⟩ := hd
  obtain ⟨kw, hah, hag⟩ := (Option.any_eq_true _ _).1 hah
  have hn : (sqliteFunctions.lookup (Text.asciiUpper node.tree.functionName)).isSome := by
    have hal : ∀ kw ∈ Grammar.aggregates,
        (sqliteFunctions.lookup (Text.asciiUpper kw.spelling)).isSome := by decide +kernel
    rw [(h.functionName_of_ahead hah).1]
    exact hal kw (contains_iff_mem.1 hag)
  refine h.results_unless (results_bind (h.aggregated ho _) fun opd ho => ?_)
  have ha : Even .compound
      (if node.tree.hasKeyword .DISTINCT then .raw "DISTINCT" :: opd else opd) := by
    split
    · have hdi : Even .compound [.raw "DISTINCT"] := even_tokens (by decide)
      exact hdi.append ho
    · exact ho
  dsimp only
  split
  · exact (Function.composes_call_single hn ha).results h.refuses
  · exact (Function.composes_call_single hn ha).results h.refuses
  · split
    · exact h.results_unsupported _
    · refine (composes_call hn ?_).results h.refuses
      simp only [forall_mem_cons]
      exact ⟨ho, even_string _, by simp⟩

/-! ### Names -/

theorem identifier (htr : node.tree = .node .identifier row) :
    node.identifier.Results bad (· = [.name node.tree.nameText]) := by
  obtain ⟨tok, ht⟩ : ∃ tok, node.tree.firstToken? = some tok :=
    exists_firstToken (by rw [htr]; exact h.demand htr rfl)
  rw [Branch.identifier, Tree.nameText, ht]
  exact results_pure rfl

/-- Names with dots between them. -/
theorem sequence_path (ht : node.tree = .node rule row) (hla : rule.layout = .path) :
    node.sequence.Results bad fun sql? => ∃ sql, sql? = some sql ∧ sql.Path := by
  have hl := h.isLaidOut ht
  rw [Rule.isLaidOut, hla] at hl
  have hr : node.parts.map Draft.tree = row := by rw [h.trees, ht, children]
  refine results_bind (Draft.results_path h.below (by rw [hr]; exact hl)) fun sql hs => ?_
  refine results_pure ⟨sql, ?_, hs⟩
  rw [if_neg (by simpa using (hs.stands .item).ne_nil)]

theorem tableName (ht : node.tree = .node rule row) (hl : rule.layout = .path) (db : String) :
    (node.tableName db).Results bad fun sql? => ∃ sql, sql? = some sql ∧ sql.Path := by
  unfold Branch.tableName
  split
  · rename_i schema table hn
    split
    · obtain ⟨hp, hr⟩ : table.Proper bad ∧ table.tree.hasRule .identifier :=
        h.childrenBy (by rw [hn]; simp)
      refine (hp.write_name hr).mono ?_
      rintro sql? rfl
      exact ⟨_, rfl, path_name _⟩
    · exact h.sequence_path ht hl
  · exact h.sequence_path ht hl

theorem columnName (ht : node.tree = .node rule row) (hl : rule.layout = .path) (db : String) :
    (node.columnName db).Results bad fun sql? => ∃ sql, sql? = some sql ∧ sql.Path := by
  have hr {part : Draft} (hp : part ∈ node.childrenBy .identifier) :
      part.required.Results bad (· = [.name part.tree.nameText]) :=
    (h.childrenBy hp).1.required_name (h.childrenBy hp).2
  unfold Branch.columnName
  split
  · rename_i schema table col hn
    split
    · refine results_bind (hr (by rw [hn]; simp)) ?_
      rintro sql rfl
      refine results_bind (hr (by rw [hn]; simp)) ?_
      rintro sql rfl
      have hd : Spells [.raw "."] [.symbol "."] := spells_single rfl (.bare (by decide))
      exact results_pure ⟨_, rfl, (path_name _).dotted hd _⟩
    · exact h.sequence_path ht hl
  · exact h.sequence_path ht hl

theorem aliased (hn : Rule.isIn .identifier node.tree.children) :
    node.aliased.Results bad (Stands .item) := by
  refine results_bind (h.needed hn rfl) fun sql hs => results_pure ?_
  have has : Even .item [.raw "AS"] := even_tokens (by decide)
  exact hs.prepend has

/-! ### Operators -/

theorem comparison (ht : node.tree = .node .boolPri row) :
    node.comparison.Results bad (Tree.node .boolPri row).Reads := by
  have hc : node.tree.children = row := by rw [ht, children]
  have hd := h.demand ht rfl
  rw [Bool.and_eq_true, Bool.or_eq_true, ← hc] at hd
  obtain ⟨hl, hqu⟩ := hd
  obtain ⟨left, hf, hp, hop⟩ := h.exists_firstNode hl
  unfold Branch.comparison
  split
  · exact h.sequence ht rfl fun _ => hc ▸ any_isWritten_of_leads hl
  · rename_i quantifier hqua
    dsimp only
    split
    · exact h.results_unsupported _
    · rename_i op ho
      have hs : Rule.isIn .subquery node.tree.children := by
        refine hqu.resolve_right fun ha => ?_
        obtain ⟨tree, hm, htr⟩ := exists_isQuantifier hqua
        simpa [htr] using all_eq_true.1 ha tree hm
      refine results_bind (results_part hf) ?_
      rintro left rfl
      refine results_bind (h.need hs) fun subquery hq => ?_
      refine results_bind (hp.required_operand hop) fun sql hsq => ?_
      refine results_bind (hq.1.required_rule hq.2 rfl) fun query hq => results_pure ?_
      refine reads_stands (by decide) ?_
      exact (hsq.append (even_membership ho)).append hq.even

theorem arithmetic (ht : node.tree = .node .bitExpr row) :
    node.arithmetic.Results bad (Stands .item) := by
  have hc : node.tree.children = row := by rw [ht, children]
  have hd := h.demand ht rfl
  rw [Bool.and_eq_true, ← hc] at hd
  obtain ⟨hl, hto⟩ := hd
  obtain ⟨op, ho⟩ := exists_firstToken hto
  refine results_bind (results_part ho) ?_
  rintro op rfl
  split
  · rename_i interval hi
    have moved (subtract : Bool) : (do
        let date ← Scribe.part "date arithmetic" "a date" node.firstNode?
        shiftedBy (← date.required) subtract interval : Scribe Sql).Results bad
          (Stands .item) := by
      obtain ⟨date, hf, hpr, hop⟩ := h.exists_firstNode hl
      refine results_bind (results_part hf) ?_
      rintro date rfl
      exact results_bind (hpr.required_operand hop) fun sql hs =>
        results_shiftedBy hs subtract (h.child hi).1 (h.child hi).2
    split
    · exact moved _
    · exact moved _
    · exact results_bind (h.results_unsupported _) fun subtract (_ : True) => moved subtract
  · have hpl {part : Draft} (hp : part ∈ node.parts) : part.tree.isPlain .item := by
      have hla := h.isLaidOut ht
      rw [Rule.isLaidOut] at hla
      refine all_eq_true.1 hla part.tree ?_
      rw [← hc, ← h.trees]
      exact mem_map_of_mem hp
    have hpa : (Draft.writeEach (if isBitwise op.symbol? then bitwiseOperand else Draft.sql)
        node.parts).Results bad (Draft.RowReads .item 0 (node.parts.map Draft.tree)) := by
      refine Draft.results_each fun part hp => ?_
      have hs := (h.below part hp).sql_plain (hpl hp)
      split
      · unfold bitwiseOperand
        split
        · rename_i hr
          refine results_bind ((h.below part hp).required_rule hr rfl) fun sql hs =>
            results_pure ⟨hs.even.inside.group, fun _ => by simp [group]⟩
        · exact hs
      · exact hs
    refine hpa.mono fun sql hs => ⟨hs.even, hs.written ?_⟩
    rw [h.trees]
    exact any_isWritten_of_leads hl

theorem simpleExpression (htr : node.tree = .node .simpleExpr row) :
    node.simpleExpression.Results bad (Tree.node .simpleExpr row).Reads := by
  have hc : node.tree.children = row := by rw [htr, children]
  have hd := h.demand htr rfl
  rw [Bool.and_eq_true] at hd
  obtain ⟨hw, ha⟩ := hd
  rw [← hc] at ha
  have exists_head {kind : Token.Kind} {test : Token → Bool}
      (hh : (node.tree.children.head?.bind token?).any test)
      (hte : ∀ tok, test tok → tok.kind = kind) :
      ∃ first ∈ node.tree.children.head?, first.hasKind kind := by
    obtain ⟨tok, ht, hk⟩ := (Option.any_eq_true _ _).1 hh
    obtain ⟨first, hf, htr⟩ := Option.bind_eq_some_iff.1 ht
    exact ⟨first, hf, by simp [hasKind, htr, hte tok hk]⟩
  have ho (hl : leads node.tree.children) :
      (do (← node.operand).write : Scribe (Option Sql)).Results bad
        (Tree.node .simpleExpr row).Reads := by
    obtain ⟨opd, hf, hp, ho⟩ := h.exists_firstNode hl
    refine results_bind (results_part hf) ?_
    rintro opd rfl
    refine (hp.write_operand ho).mono ?_
    rintro sql? ⟨sql, rfl, hs⟩
    exact reads_stands (by decide) hs
  unfold Branch.simpleExpression
  dsimp only
  split
  · rename_i hb
    refine ho (leads_of_admitsOperand ha (.inl ?_))
    obtain ⟨first, hf, hk⟩ := exists_head hb fun tok ht => eq_of_beq ht
    exact ⟨first, hf, .inl hk⟩
  split
  · rename_i hba
    have hl : leads node.tree.children := by
      refine leads_of_admitsOperand ha (.inl ?_)
      obtain ⟨first, hf, hk⟩ := exists_head hba fun tok ht => eq_of_beq ht
      exact ⟨first, hf, .inr hk⟩
    obtain ⟨opd, hf, hp, ho⟩ := h.exists_firstNode hl
    refine results_bind (results_part hf) ?_
    rintro opd rfl
    refine results_bind (hp.required_operand ho) fun sql hs => results_pure ?_
    refine reads_stands (by decide) (stands_cons ?_)
    have hn : Even .item [.raw "NOT"] := even_tokens (by decide)
    exact hn.append hs.even.inside.group
  split
  · rename_i hco
    refine ho (leads_of_admitsOperand ha (.inr ?_))
    rwa [hasKeyword, hasToken_eq_any] at hco
  · exact h.sequence htr rfl fun _ => hw

end Proper

end Branch

end SqlBridge
