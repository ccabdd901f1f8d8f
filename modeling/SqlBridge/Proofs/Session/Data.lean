/-
Every statement that the body of a query sends works on the contents of the database.

`Call.permits_data` gives the body's statements for the proofs in `Proofs.Session.Parallel`:
lookups, writes of the catalog and planned statements begin with a data word.  The definition of an
index is sent again when its table is renamed, so it has to begin with one as well.
-/
import SqlBridge.Proofs.Plan.Heads
import SqlBridge.Proofs.Session.Parallel

namespace SqlBridge

namespace Query

theorem beginsData_catalogTableSql (name : String) (layout : List String) :
    BeginsData (catalogTableSql name layout) := by
  have ht : BeginsData (toString "CREATE TABLE IF NOT EXISTS ") := by decide
  exact (((ht.append _).append _).append _).append _

theorem beginsData_insertion (replacing : Bool) (table : String) (row : List (String × Term)) :
    BeginsData (insertion replacing table row) := by
  have hf : BeginsData (if replacing then "INSERT OR REPLACE INTO " else "INSERT INTO ") := by
    cases replacing <;> decide
  exact (((hf.append _).append _).append _).append _

/-- A query begins with its verb. -/
theorem beginsData_statement (query : Query) : BeginsData query.statement.sql := by
  cases query with
  | createTable name layout => exact beginsData_catalogTableSql name layout
  | insert replacing table row =>
    exact (((beginsData_insertion replacing table row).append _).append _).append _
  | insertSelected table row origins cond =>
    exact ((((((beginsData_insertion false table row).append _).append _).append _).append
      _).append _).append _
  | update table col value cond =>
    have hu : BeginsData "UPDATE " := by decide
    exact ((((((hu.append _).append _).append _).append _).append _).append _).append _
  | delete table cond =>
    have hd : BeginsData "DELETE FROM " := by decide
    exact ((hd.append _).append _).append _

end Query

/-- The writes of the catalog. -/
theorem Command.isData_statement (cmd : Command) : IsData cmd.statement.sql :=
  cmd.query.beginsData_statement.1

namespace Text

theorem after?_eq_some {start text rest : List Char} :
    after? start text = some rest ↔ text = start ++ rest := by
  unfold after?
  split
  next h =>
    obtain ⟨more, rfl⟩ := List.isPrefixOf_iff_prefix.1 h
    simp
  next h =>
    simp only [reduceCtorEq, false_iff]
    rintro rfl
    exact h (List.isPrefixOf_iff_prefix.2 (List.prefix_append _ _))

/-- Exchanging one quoted name for another does not touch the first word. -/
theorem takeWhile_replaceFirst {old new : List Char} (text : List Char) :
    (replaceFirst ('"' :: old) ('"' :: new) text).takeWhile Char.isAlpha =
      text.takeWhile Char.isAlpha := by
  induction text with
  | nil => rfl
  | cons c rest ih =>
    rw [replaceFirst]
    split
    · rename_i following hf
      have hq : c = '"' := by
        have hc := after?_eq_some.1 hf
        simp at hc
        exact hc.1
      subst hq
      rfl
    · rw [List.takeWhile_cons, List.takeWhile_cons, ih]

theorem firstWord_replaceFirst (old new defn : String) :
    firstWord (String.ofList (replaceFirst (quoted '"' old).toList (quoted '"' new).toList
      defn.toList)) = firstWord defn := by
  have hl (name : String) :
      (quoted '"' name).toList = '"' :: (doubled '"' name.toList ++ ['"']) := by
    simp [quoted]
  rw [firstWord, String.toList_ofList, hl, hl, takeWhile_replaceFirst]
  rfl

end Text

namespace Call

/-- The rows of a list of indexes have definitions that are data statements. -/
def ListsDefinitions (question : Statement) (rows : List Row) : Prop :=
  ∀ newName, question = indexListing newName →
    ∀ row ∈ rows, ∀ definition, row.values[1]?.bind Value.text? = some definition →
      IsData definition

/-- An index is dropped and created by data statements. -/
theorem isData_renamedIndex {table newName drop create : String} {row : Row}
    (hr : ∀ defn, row.values[1]?.bind Value.text? = some defn → IsData defn)
    (h : renamedIndex? table newName row = some (drop, create)) : IsData drop ∧ IsData create := by
  unfold renamedIndex? at h
  simp only [Option.bind_eq_bind, Option.bind_eq_some_iff, Option.pure_def, Option.some.injEq,
    Prod.mk.injEq] at h
  obtain ⟨name, -, defn, hd, index, -, rfl, rfl⟩ := h
  have hdr : BeginsData "DROP INDEX " := by decide
  refine ⟨(hdr.append _).1, ?_⟩
  rw [IsData, Text.firstWord_replaceFirst]
  exact hr defn (Option.bind_eq_some_iff.2 hd)

/-- The body of a query sends data statements. -/
theorem permits_data (db sql : String) :
    Permits (fun stmt => IsData stmt.sql) ListsDefinitions (fun _ => True) db
      sql where
  lookup question params := by
    have hs : BeginsData "SELECT " := by decide
    exact (hs.append question).1
  catalog command := command.isData_statement
  planned plan hp step hst text ht := by
    obtain ⟨tree, htr, hp⟩ := hp
    exact Plan.isData_of_parse htr hp step hst text ht
  recreation table newName rows hr row hro drop create h :=
    isData_renamedIndex (hr newName rfl row hro) h
  unplanned _ _ := trivial
  undescribed _ _ _ _ := trivial

end Call

end SqlBridge
