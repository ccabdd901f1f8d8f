/-
The texts of the catalog's statements are fixed.

What comes from a statement or a table reaches the storage as the value of a parameter.  So a
command writes a text that depends on its kind alone, and there are finitely many kinds.

* `Command.samples`: a command of every kind; `Command.exists_sample`: any other has the same text.
* `Term.Plain`: no name or text of a term has a mark, so that the marks of a query are its
  parameters.
* `Script.handed`: the statements that a script hands to a callback, which may refuse them.  All
  that is done to the catalog is done by scripts (`Script.setup`, `CatalogChange.script`).
* `Script.handed_fixed`: their texts are among finitely many, whatever the script says and the
  callback does; each has as many marks as values; and a refusal only cuts them short.
-/
import SqlBridge.Catalog.Script

namespace SqlBridge

open List

variable {sep text : String}

/-! ### Commands of every kind -/

/-- The table without a name. -/
def Place.nowhere : Place := ⟨"", ""⟩

/-- A column about which nothing is known. -/
def Column.unknown : Column where
  name := ""
  defaultText := none
  nullable := false
  dataType := .int
  columnType := ""
  extent := none
  digits := none
  datetimePrecision := none
  encoding := none
  key := .none
  extra := ""
  comment := ""
  generationExpression := ""

namespace Command

/-- The record of a table, with or without the two options that have a column of their own. -/
def sampleTable (autoIncrement : Option (Option Int64)) (comment : Option String) : Command :=
  .recordTable { place := .nowhere, engine := "", collation := "", autoIncrement, comment }

/-- An index part about which nothing is known. -/
def sampleIndexRow : IndexRow := ⟨false, "", 0, "", none, none, false, .btree, ""⟩

/-- A command of every kind, with nothing in it. -/
def samples : List Command :=
  [Register.tables, .columns, .statistics].flatMap (fun register =>
    [.createRegister register, .forgetTable register .nowhere, .forgetColumn register .nowhere "",
      .renameTable register .nowhere "", .renameColumn register .nowhere "" ""]) ++
  [sampleTable none none, sampleTable none (some ""), sampleTable (some none) none,
    sampleTable (some none) (some ""), .createCache, .recordColumn .nowhere 0 .unknown,
    .appendColumn .nowhere .unknown,
    .recordIndexPart .nowhere sampleIndexRow,
    .addIndexPart .nowhere ⟨"", .plain, none, "", [], .leaf default⟩ "" 0 ⟨"", none, false⟩,
    .promoteKey .nowhere "" .none, .recomputeKeys .nowhere "", .closeOrdinalGap .nowhere "",
    .closeIndexGaps .nowhere "", .forgetIndex .nowhere "", .cacheType "" "" "", .uncacheTable "",
    .uncacheColumn "" "", .renameCachedTable "" "", .renameCachedColumn "" "" ""]

/-- The texts of the catalog's statements. -/
def texts : List String := samples.map (·.statement.sql)

/-- Every command has the text of one of the samples: a value is written as a mark, whatever it
is. -/
theorem exists_sample (cmd : Command) :
    ∃ sample ∈ samples, sample.statement.sql = cmd.statement.sql := by
  cases cmd with
  | recordTable row =>
    obtain ⟨place, engine, collation, autoIncrement, comment⟩ := row
    refine ⟨sampleTable (autoIncrement.map fun _ => none) (comment.map fun _ => ""), ?_, ?_⟩
    · cases autoIncrement <;> cases comment <;> simp [samples]
    · cases autoIncrement <;> cases comment <;> rfl
  | createRegister reg => exact ⟨.createRegister reg, by cases reg <;> simp [samples], rfl⟩
  | forgetTable reg place =>
    exact ⟨.forgetTable reg .nowhere, by cases reg <;> simp [samples], rfl⟩
  | forgetColumn reg place col =>
    exact ⟨.forgetColumn reg .nowhere "", by cases reg <;> simp [samples], rfl⟩
  | renameTable reg place newName =>
    exact ⟨.renameTable reg .nowhere "", by cases reg <;> simp [samples], rfl⟩
  | renameColumn reg place col newName =>
    exact ⟨.renameColumn reg .nowhere "" "", by cases reg <;> simp [samples], rfl⟩
  | createCache => exact ⟨.createCache, by simp [samples], rfl⟩
  | recordColumn place ordinal col =>
    exact ⟨.recordColumn .nowhere 0 .unknown, by simp [samples], rfl⟩
  | appendColumn place col => exact ⟨.appendColumn .nowhere .unknown, by simp [samples], rfl⟩
  | recordIndexPart place row =>
    exact ⟨.recordIndexPart .nowhere sampleIndexRow, by simp [samples], rfl⟩
  | addIndexPart place index leading pos part =>
    exact ⟨.addIndexPart .nowhere ⟨"", .plain, none, "", [], .leaf default⟩ "" 0 ⟨"", none, false⟩,
      by simp [samples], rfl⟩
  | promoteKey place col key => exact ⟨.promoteKey .nowhere "" .none, by simp [samples], rfl⟩
  | recomputeKeys place index => exact ⟨.recomputeKeys .nowhere "", by simp [samples], rfl⟩
  | closeOrdinalGap place col => exact ⟨.closeOrdinalGap .nowhere "", by simp [samples], rfl⟩
  | closeIndexGaps place col => exact ⟨.closeIndexGaps .nowhere "", by simp [samples], rfl⟩
  | forgetIndex place index => exact ⟨.forgetIndex .nowhere "", by simp [samples], rfl⟩
  | cacheType table col type => exact ⟨.cacheType "" "" "", by simp [samples], rfl⟩
  | uncacheTable table => exact ⟨.uncacheTable "", by simp [samples], rfl⟩
  | uncacheColumn table col => exact ⟨.uncacheColumn "" "", by simp [samples], rfl⟩
  | renameCachedTable table newName => exact ⟨.renameCachedTable "" "", by simp [samples], rfl⟩
  | renameCachedColumn table col newName =>
    exact ⟨.renameCachedColumn "" "" "", by simp [samples], rfl⟩

end Command

/-! ### Marks -/

/-- A text without a mark. -/
def Unmarked (text : String) : Prop := '?' ∉ text.toList

theorem unmarked_ofList {text : List Char} (h : text.contains '?' = false) :
    Unmarked (String.ofList text) := by
  rw [Unmarked, String.toList_ofList]
  simpa using h

theorem Unmarked.append {first second : String} (h : Unmarked first) (hm : Unmarked second) :
    Unmarked (first ++ second) := by
  rw [Unmarked, String.toList_append, mem_append]
  exact fun hme => hme.elim h hm

theorem unmarked_quoted {quote : Char} (hq : quote ≠ '?') (h : Unmarked text) :
    Unmarked (Text.quoted quote text) := by
  have hd (chars : List Char) (hc : '?' ∉ chars) : '?' ∉ Text.doubled quote chars := by
    induction chars with
    | nil => simp [Text.doubled]
    | cons c rest ih =>
      simp only [mem_cons, not_or] at hc
      rw [Text.doubled]
      split <;> simp [hc.1, ih hc.2]
  rw [Unmarked, Text.quoted, String.toList_ofList]
  simp [hq.symm, hd _ h]

namespace Statement

/-- A statement with as many marks as values. -/
def IsFilled (statement : Statement) : Prop :=
  statement.sql.toList.count '?' = statement.params.length

theorem isFilled_plain (h : Unmarked text) : (plain text).IsFilled := count_eq_zero.2 h

theorem isFilled_text {text : List Char} (h : text.contains '?' = false) :
    (plain (String.ofList text)).IsFilled := isFilled_plain (unmarked_ofList h)

theorem IsFilled.append {first second : Statement} (h : first.IsFilled) (hm : second.IsFilled) :
    (first ++ second).IsFilled := by
  have hs : (first ++ second).sql = first.sql ++ second.sql := rfl
  have hp : (first ++ second).params = first.params ++ second.params := rfl
  rw [IsFilled, hs, hp, String.toList_append, count_append, length_append, h, hm]

theorem isFilled_joined (hs : Unmarked sep)
    {pieces : List Statement} (h : ∀ piece ∈ pieces, piece.IsFilled) :
    (joined sep pieces).IsFilled := by
  induction pieces with
  | nil => rfl
  | cons first rest ih =>
    rw [forall_mem_cons] at h
    cases rest with
    | nil =>
      have hsi : joined sep [first] = first := by simp [joined]
      rw [hsi]
      exact h.1
    | cons second others =>
      have hsp : joined sep (first :: second :: others) =
          first ++ (plain sep ++ joined sep (second :: others)) := by
        simp only [joined, map_cons, String.intercalate_cons_cons, flatMap_cons,
          String.append_assoc]
        rfl
      rw [hsp]
      exact h.1.append ((isFilled_plain hs).append (ih h.2))

end Statement

open Statement (isFilled_plain isFilled_text isFilled_joined plain)

theorem unmarked_intercalate (hs : Unmarked sep)
    {texts : List String} (h : ∀ text ∈ texts, Unmarked text) :
    Unmarked (String.intercalate sep texts) := by
  have hf : (Statement.joined sep (texts.map plain)).IsFilled := by
    refine isFilled_joined hs ?_
    simpa using fun text ht => isFilled_plain (h text ht)
  have hsa : Statement.joined sep (texts.map plain) =
      plain (String.intercalate sep texts) := by
    simp [Statement.joined, plain, Function.comp_def, flatMap_map]
  rw [hsa] at hf
  exact count_eq_zero.1 hf

/-- A source whose names have no mark. -/
def Source.Plain (source : Source) : Prop :=
  Unmarked source.table ∧ ∀ label ∈ source.label, Unmarked label

theorem Source.Plain.unmarked_text {source : Source} (h : source.Plain) : Unmarked source.text := by
  obtain ⟨table, label⟩ := source
  refine h.1.append ?_
  cases label with
  | none => exact unmarked_ofList (by decide)
  | some label =>
    have has : Unmarked " AS " := unmarked_ofList (by decide)
    exact has.append (h.2 label rfl)

mutual

/-- A term whose names and texts have no mark. -/
def Term.Plain : Term → Prop
  | .bound _ | .null | .count | .number _ => True
  | .text value => Unmarked value
  | .column source name => (∀ label ∈ source, Unmarked label) ∧ Unmarked name
  | .operation _ left right => left.Plain ∧ right.Plain
  | .isNotNull operand | .minimum operand | .maximum operand => operand.Plain
  | .isOneOf operand texts => operand.Plain ∧ ∀ text ∈ texts, Unmarked text
  | .isAmong operand selection => operand.Plain ∧ selection.Plain
  | .cases branches => branches.Plain
  | .coalesce first second | .least first second => first.Plain ∧ second.Plain
  | .scalar selection => selection.Plain

def Branches.Plain : Branches → Prop
  | .branch condition result rest => condition.Plain ∧ result.Plain ∧ rest.Plain
  | .otherwise result => result.Plain
  | .ending => True

def Selection.Plain : Selection → Prop
  | .mk value source condition => value.Plain ∧ source.Plain ∧ condition.Plain

end

theorem unmarked_toString (value : Nat) : Unmarked (toString value) := by
  have hr : toString value = String.ofList (Nat.toDigits 10 value) := rfl
  rw [Unmarked, hr, String.toList_ofList]
  intro hm
  have hd := Nat.isDigit_of_mem_toDigits (by decide) (by decide) hm
  revert hd
  decide

theorem unmarked_nameText {name : String} (h : Unmarked name) : Unmarked (Term.nameText name) := by
  unfold Term.nameText
  split
  · exact unmarked_quoted (by decide) h
  · exact h

theorem unmarked_literal (h : Unmarked text) : Unmarked (Term.literal text) :=
  unmarked_quoted (by decide) h

theorem Operator.unmarked_sign (op : Operator) : Unmarked (" " ++ op.sign ++ " ") := by
  have hb : Unmarked " " := unmarked_ofList (by decide)
  refine (hb.append ?_).append hb
  cases op <;> exact unmarked_ofList (by decide)

mutual

theorem Term.isFilled_write (strength : Nat) :
    (term : Term) → term.Plain → (term.write strength).IsFilled
  | .bound _, _ => (by decide : "?".toList.count '?' = 1)
  | .null, _ | .count, _ => isFilled_text (by decide)
  | .number value, _ => isFilled_plain (unmarked_toString value)
  | .text _, h => isFilled_plain (unmarked_literal h)
  | .column source name, h => by
    refine isFilled_plain (Unmarked.append ?_ (unmarked_nameText h.2))
    cases source with
    | none => exact unmarked_ofList (by decide)
    | some label => exact (h.1 label rfl).append (unmarked_ofList (by decide))
  | .operation op left right, h => by
    have hi := ((left.isFilled_write op.strength h.1).append
      (isFilled_plain op.unmarked_sign)).append (right.isFilled_write (op.strength + 1) h.2)
    rw [Term.write]
    split
    · exact ((isFilled_text (by decide)).append hi).append
        (isFilled_text (by decide))
    · exact hi
  | .isNotNull opd, h =>
    (opd.isFilled_write 6 h).append (isFilled_text (by decide))
  | .isOneOf opd texts, h => by
    have ht : ∀ text ∈ texts.map Term.literal, Unmarked text := by
      simpa using fun text hte => unmarked_literal (h.2 text hte)
    have ho : Unmarked " IN (" := unmarked_ofList (by decide)
    have hc : Unmarked ", " := unmarked_ofList (by decide)
    have hl := unmarked_intercalate hc ht
    exact (opd.isFilled_write 6 h.1).append
      (isFilled_plain ((ho.append hl).append (unmarked_ofList (by decide))))
  | .isAmong opd selection, h =>
    (((opd.isFilled_write 6 h.1).append (isFilled_text (by decide))).append
      (selection.isFilled_write h.2)).append (isFilled_text (by decide))
  | .cases branches, h =>
    ((isFilled_text (by decide)).append (branches.isFilled_write h)).append
      (isFilled_text (by decide))
  | .coalesce first second, h | .least first second, h =>
    ((((isFilled_text (by decide)).append (first.isFilled_write 0 h.1)).append
      (isFilled_text (by decide))).append (second.isFilled_write 0 h.2)).append
      (isFilled_text (by decide))
  | .minimum opd, h | .maximum opd, h =>
    ((isFilled_text (by decide)).append (opd.isFilled_write 0 h)).append
      (isFilled_text (by decide))
  | .scalar selection, h =>
    ((isFilled_text (by decide)).append (selection.isFilled_write h)).append
      (isFilled_text (by decide))

theorem Branches.isFilled_write :
    (branches : Branches) → branches.Plain → branches.write.IsFilled
  | .branch cond result rest, h =>
    ((((isFilled_text (by decide)).append
      (cond.isFilled_write 0 h.1)).append (isFilled_text (by decide))).append
      (result.isFilled_write 0 h.2.1)).append (rest.isFilled_write h.2.2)
  | .otherwise result, h =>
    (isFilled_text (by decide)).append (result.isFilled_write 0 h)
  | .ending, _ => isFilled_text (by decide)

theorem Selection.isFilled_write :
    (selection : Selection) → selection.Plain → selection.write.IsFilled
  | .mk value source cond, h => by
    have hf : Unmarked " FROM " := unmarked_ofList (by decide)
    have hw : Unmarked " WHERE " := unmarked_ofList (by decide)
    have hs := (hf.append h.2.1.unmarked_text).append hw
    exact (((isFilled_text (by decide)).append (value.isFilled_write 0 h.1)).append
      (isFilled_plain hs)).append (cond.isFilled_write 0 h.2.2)

end

/-! ### Filled statements -/

/-- A row whose columns are named without a mark. -/
def PlainRow (row : List (String × Term)) : Prop := ∀ entry ∈ row, Unmarked entry.1 ∧ entry.2.Plain

def Origin.Plain : Origin → Prop
  | .table source => source.Plain
  | .single value column name => value.Plain ∧ Unmarked column ∧ Unmarked name

/-- A query whose names and texts have no mark. -/
def Query.Plain : Query → Prop
  | .createTable name layout => Unmarked name ∧ ∀ line ∈ layout, Unmarked line
  | .insert _ table row => Unmarked table ∧ PlainRow row
  | .insertSelected table row origins condition =>
    Unmarked table ∧ PlainRow row ∧ (∀ origin ∈ origins, origin.Plain) ∧ condition.Plain
  | .update table column value condition =>
    Unmarked table ∧ Unmarked column ∧ value.Plain ∧ condition.Plain
  | .delete table condition => Unmarked table ∧ condition.Plain

theorem Origin.isFilled_write {origin : Origin} (h : origin.Plain) : origin.write.IsFilled := by
  cases origin with
  | table source => exact isFilled_plain (Source.Plain.unmarked_text h)
  | single value col name =>
    obtain ⟨hv, hc, hn⟩ := h
    have has : Unmarked " AS " := unmarked_ofList (by decide)
    have hcl : Unmarked ") AS " := unmarked_ofList (by decide)
    have hl := ((has.append hc).append hcl).append hn
    exact ((isFilled_text (by decide)).append (value.isFilled_write 0 hv)).append
      (isFilled_plain hl)

theorem unmarked_catalogTableSql {name : String} (hn : Unmarked name) {layout : List String}
    (hl : ∀ line ∈ layout, Unmarked line) : Unmarked (catalogTableSql name layout) := by
  have hv : Unmarked "CREATE TABLE IF NOT EXISTS " := unmarked_ofList (by decide)
  have hb : Unmarked ",\n        " := unmarked_ofList (by decide)
  have hli := unmarked_intercalate hb hl
  exact (((hv.append hn).append (unmarked_ofList (by decide))).append hli).append
    (unmarked_ofList (by decide))

namespace Query

theorem unmarked_insertion (replacing : Bool) {table : String} (ht : Unmarked table)
    {row : List (String × Term)} (h : PlainRow row) : Unmarked (insertion replacing table row) := by
  have hv : Unmarked (if replacing then "INSERT OR REPLACE INTO " else "INSERT INTO ") := by
    cases replacing <;> exact unmarked_ofList (by decide)
  have hn : ∀ name ∈ row.map (fun entry => Term.nameText entry.1), Unmarked name :=
    forall_mem_map.2 fun entry he => unmarked_nameText (h entry he).1
  exact (((hv.append ht).append (unmarked_ofList (by decide))).append
    (unmarked_intercalate (unmarked_ofList (by decide)) hn)).append (unmarked_ofList (by decide))

theorem isFilled_values {row : List (String × Term)} (h : PlainRow row) : (values row).IsFilled :=
  isFilled_joined (unmarked_ofList (by decide)) <|
    forall_mem_map.2 fun entry he => entry.2.isFilled_write 0 (h entry he).2

theorem Plain.isFilled_statement {query : Query} (h : query.Plain) : query.statement.IsFilled := by
  cases query with
  | createTable name layout => exact isFilled_plain (unmarked_catalogTableSql h.1 h.2)
  | insert replacing table row =>
    exact (((isFilled_plain (unmarked_insertion replacing h.1 h.2)).append
      (isFilled_text (by decide))).append (isFilled_values h.2)).append (isFilled_text (by decide))
  | insertSelected table row origins cond =>
    obtain ⟨ht, hr, ho, hc⟩ := h
    have hj : (Statement.joined ", " (origins.map Origin.write)).IsFilled :=
      isFilled_joined (unmarked_ofList (by decide)) <|
        forall_mem_map.2 fun origin hor => Origin.isFilled_write (ho origin hor)
    exact ((((((isFilled_plain (unmarked_insertion false ht hr)).append
      (isFilled_text (by decide))).append (isFilled_values hr)).append
      (isFilled_text (by decide))).append hj).append (isFilled_text (by decide))).append
      (cond.isFilled_write 0 hc)
  | update table col value cond =>
    obtain ⟨ht, hco, hva, hc⟩ := h
    have hv : Unmarked "UPDATE " := unmarked_ofList (by decide)
    have hse : Unmarked " SET " := unmarked_ofList (by decide)
    have hs : Unmarked " = " := unmarked_ofList (by decide)
    have hh := (((hv.append ht).append hse).append (unmarked_nameText hco)).append hs
    exact (((isFilled_plain hh).append (value.isFilled_write 0 hva)).append
      (isFilled_text (by decide))).append (cond.isFilled_write 0 hc)
  | delete table cond =>
    have hv : Unmarked "DELETE FROM " := unmarked_ofList (by decide)
    have hw : Unmarked " WHERE " := unmarked_ofList (by decide)
    have hh := (hv.append h.1).append hw
    exact (isFilled_plain hh).append (cond.isFilled_write 0 h.2)

end Query

theorem Register.unmarked_layout (reg : Register) : ∀ line ∈ reg.layout, Unmarked line := by
  cases reg <;>
  · repeat' refine forall_mem_cons.2 ⟨unmarked_ofList (by decide +kernel), ?_⟩
    exact forall_mem_nil _

namespace Command

/-- The catalog's own names and texts have no mark. -/
theorem plain_query (cmd : Command) : cmd.query.Plain := by
  have hn (reg : Register) : Unmarked reg.name := by
    cases reg <;> exact unmarked_ofList (by decide)
  cases cmd
  case createRegister reg => exact ⟨hn reg, reg.unmarked_layout⟩
  case createCache =>
    refine ⟨unmarked_ofList (by decide), ?_⟩
    repeat' refine forall_mem_cons.2 ⟨unmarked_ofList (by decide), ?_⟩
    exact forall_mem_nil _
  case recordTable row =>
    obtain ⟨place, engine, collation, autoIncrement, comment⟩ := row
    cases autoIncrement <;> cases comment <;>
      simp [query, Query.Plain, PlainRow, insertion, TableRow.values, Term.Plain, hn] <;>
      and_intros <;> exact unmarked_ofList (by decide)
  all_goals
    simp [query, Query.Plain, PlainRow, Origin.Plain, Term.Plain, Branches.Plain, Selection.Plain,
      Source.Plain, insertion, appending, nextOrdinal, movingUp, Column.values, IndexRow.values,
      indexPartRow, indexMethod, spatialTypes, promotedKey, remainingKey, ledColumns, ordinalOf,
      positionInIndex, Place.condition, Place.columnCondition, Place.indexCondition, Term.has,
      Term.agrees, Term.equals, Term.isText, Term.and, Term.or, hn] <;>
    and_intros <;> exact unmarked_ofList (by decide)

/-- A statement of the catalog has one of the fixed texts. -/
theorem statement_mem_texts (cmd : Command) : cmd.statement.sql ∈ texts := by
  obtain ⟨sample, hs, hsa⟩ := cmd.exists_sample
  exact mem_map.2 ⟨sample, hs, hsa⟩

end Command

/-! ### Statements that are handed out -/

namespace Script

variable {τ : Type} (callback : Statement → τ → Except Error Unit × τ)

/-- Hands a statement to a callback and keeps it on record. -/
def recorded (callback : Statement → τ → Except Error Unit × τ) (statement : Statement) :
    ExceptT Error (StateM (τ × List Statement)) Unit := ExceptT.mk fun state =>
  let (outcome, next) := callback statement state.1
  (outcome, next, state.2 ++ [statement])

/-- The statements that a script hands to a callback, up to the first that is refused. -/
def handed (callback : Statement → τ → Except Error Unit × τ) (state : τ) (script : Script) :
    List Statement :=
  ((script.run (recorded callback)).run.run (state, [])).2.2

/-- The callback that takes every statement. -/
def accepting : Statement → Unit → Except Error Unit × Unit := fun _ state => (.ok (), state)

/-- The statements that are handed out of some, up to the first that is refused. -/
def taken (callback : Statement → τ → Except Error Unit × τ) : τ → List Statement → List Statement
  | _, [] => []
  | state, statement :: rest =>
    match callback statement state with
    | (.ok _, next) => statement :: taken callback next rest
    | (.error _, _) => [statement]

theorem taken_prefix (state : τ)
    (stmts : List Statement) : taken callback state stmts <+: stmts := by
  induction stmts generalizing state with
  | nil => exact prefix_refl _
  | cons stmt rest ih =>
    rw [taken]
    split
    · exact (prefix_cons_inj stmt).2 (ih _)
    · exact (prefix_cons_inj stmt).2 nil_prefix

theorem taken_accepting (stmts : List Statement) : taken accepting () stmts = stmts := by
  induction stmts with
  | nil => rfl
  | cons stmt rest ih => exact congrArg (stmt :: ·) ih

/-- Handing out statements one after the other. -/
theorem forM_recorded (commands : List Command) (state : τ) (log : List Statement) :
    ((commands.forM fun cmd => recorded callback cmd.statement).run.run (state, log)).2.2 =
      log ++ taken callback state (commands.map Command.statement) := by
  induction commands generalizing state log with
  | nil => exact (append_nil log).symm
  | cons cmd rest ih =>
    have hf : (recorded callback cmd.statement).run.run (state, log) =
        ((callback cmd.statement state).1, (callback cmd.statement state).2,
          log ++ [cmd.statement]) := rfl
    rw [List.forM, ExceptT.run_bind, StateT.run_bind, hf, map_cons, taken]
    rcases callback cmd.statement state with ⟨_ | _, next⟩
    · rfl
    · exact (ih next (log ++ [cmd.statement])).trans (by simp)

theorem handed_eq (state : τ) (script : Script) :
    script.handed callback state =
      taken callback state (script.commands.map Command.statement) := by
  have hc := forM_recorded callback script.commands state []
  rw [handed, run, perform, ExceptT.run_bind, StateT.run_bind]
  generalize StateT.run (ExceptT.run (script.commands.forM fun cmd =>
    recorded callback cmd.statement)) (state, []) = ended at hc ⊢
  obtain ⟨_ | _, last⟩ := ended
  · exact hc
  · cases script.failure <;> exact hc

/-- What comes from a statement never enters the text of a catalog statement.  Whatever change a
script is for and whatever the callback does, the statements that it is handed have texts of a fixed
list, and as many marks as values; and they are those that a callback that takes every statement is
handed, up to where it refuses one. -/
theorem handed_fixed (callback : Statement → τ → Except Error Unit × τ) (state : τ)
    (script : Script) :
    (∀ statement ∈ script.handed callback state,
      statement.sql ∈ Command.texts ∧ statement.sql.toList.count '?' = statement.params.length) ∧
    script.handed callback state <+: script.handed accepting () := by
  have hall : script.handed accepting () = script.commands.map Command.statement := by
    rw [handed_eq, taken_accepting]
  have hbegun : script.handed callback state <+: script.commands.map Command.statement := by
    rw [handed_eq]
    exact taken_prefix callback state _
  refine ⟨fun statement hstatement => ?_, hall ▸ hbegun⟩
  obtain ⟨command, -, rfl⟩ := List.mem_map.1 (hbegun.subset hstatement)
  exact ⟨command.statement_mem_texts, command.plain_query.isFilled_statement⟩

end Script

end SqlBridge
