/-
Reading, planning and describing a statement fail with faults only.

* `Grammar.faultsOnly_parse`: an error of reading is about the text or the syntax.
* `Plan.faultsOnly_ofTree`: an error of planning is about what the statement asks for.
* `CatalogChange.isFault_of_script_failure`: so is the error that ends the script of a change.
-/
import SqlBridge.Proofs.Plan.Agreement

namespace SqlBridge

variable {α β : Type} {facts : TableFacts} {error : Error}

/-- An outcome that is a value or a fault. -/
def FaultsOnly (outcome : Except Error α) : Prop := Ends Error.IsFault (fun _ => True) outcome

@[simp] theorem faultsOnly_ok (a : α) : FaultsOnly (.ok a) := trivial

@[simp] theorem faultsOnly_pure (a : α) : FaultsOnly (pure a) := trivial

@[simp] theorem faultsOnly_unsupported (feature : Feature) :
    FaultsOnly (.error (.unsupported feature) : Except Error α) := trivial

@[simp] theorem faultsOnly_malformed (defect : Malformed) :
    FaultsOnly (.error (.malformed defect) : Except Error α) := trivial

@[simp] theorem faultsOnly_bind {outcome : Except Error α} {next : α → Except Error β}
    (first : FaultsOnly outcome) (second : ∀ a, FaultsOnly (next a)) :
    FaultsOnly (outcome >>= next) := ends_bind first fun a _ => second a

/-! ### Descriptions of tables -/

@[simp] theorem TypeName.faultsOnly_ofDataType (dataType : Tree) :
    FaultsOnly (TypeName.ofDataType dataType) := by
  unfold TypeName.ofDataType TypeName.ofKeywords
  cases dataType.childKeywords.head? with
  | none => simp
  | some kw =>
    cases kw
    all_goals dsimp only
    all_goals repeat' split
    all_goals simp

theorem Column.faultsOnly_extentInOctets (characters : Int64) (charset : Option String) :
    FaultsOnly (some <$> Column.extentInOctets characters charset) := by
  unfold Column.extentInOctets
  dsimp only
  split
  · exact faultsOnly_pure _
  · trivial

theorem Column.faultsOnly_extentOf (dataType : Tree) (type : TypeName) (charset : Option String) :
    FaultsOnly (Column.extentOf dataType type charset) := by
  cases type
  all_goals first
    | exact faultsOnly_pure _
    | exact faultsOnly_extentInOctets _ _

theorem Column.faultsOnly_ofDefinition (defn : Tree) (facts : TableFacts) :
    FaultsOnly (Column.ofDefinition defn facts) := by
  unfold Column.ofDefinition
  split
  · simp
  · simp
  · split
    · simp
    · exact faultsOnly_bind (TypeName.faultsOnly_ofDataType _) fun _ =>
        faultsOnly_bind (Column.faultsOnly_extentOf _ _ _) fun _ => faultsOnly_pure _

namespace Script

theorem isFault_of_describeAll {defns : List Tree}
    (h : (describeAll facts defns).2 = some error) : error.IsFault := by
  induction defns with
  | nil => simp [describeAll] at h
  | cons defn rest ih =>
    rw [describeAll] at h
    split at h
    · exact ih h
    · rename_i other ho
      cases h
      exact (Column.faultsOnly_ofDefinition defn facts).faulty_of_error ho

theorem isFault_of_createTable {schema : String} {tree : Tree}
    (h : (createTable schema tree).failure = some error) : error.IsFault := by
  unfold createTable at h
  split at h
  · simp at h
  · split at h
    · simp at h
    · cases h
      trivial
    · dsimp only at h
      split at h
      · rename_i other ho
        cases h
        exact isFault_of_describeAll ho
      · simp at h

theorem isFault_of_addColumn {place : Place} {defn : Tree}
    (h : (addColumn place defn facts).failure = some error) : error.IsFault := by
  unfold addColumn at h
  split at h
  · simp at h
  · rename_i other ho
    cases h
    exact (Column.faultsOnly_ofDefinition defn facts).faulty_of_error ho

theorem isFault_of_addIndex {place : Place} {index : Index}
    (h : (addIndex place index).failure = some error) : error.IsFault := by
  unfold addIndex at h
  split at h
  · cases h
    trivial
  · simp at h

end Script

theorem CatalogChange.isFault_of_script_failure {change : CatalogChange} {schema : String}
    (h : (change.script schema facts).failure = some error) : error.IsFault := by
  cases change with
  | createTable defn => exact Script.isFault_of_createTable h
  | addColumn table defn => exact Script.isFault_of_addColumn h
  | addIndex table index => exact Script.isFault_of_addIndex h
  | _ => cases h

/-! ### Reading and planning -/

theorem Error.IsRefusal.isFault {error : Error} (h : error.IsRefusal) : error.IsFault := by
  cases error with
  | storage => cases h
  | _ => trivial

theorem Token.faultsOnly_scan (text : List Char) (pos skip : Nat) :
    FaultsOnly (Token.scan pos skip text) := by
  induction text generalizing pos skip with
  | nil => trivial
  | cons c rest ih =>
    unfold Token.scan
    split
    · exact ih ..
    · split
      · exact ih ..
      · split
        · exact faultsOnly_bind (ih ..) fun _ => faultsOnly_pure _
        · trivial

namespace Grammar

theorem faultsOnly_take {accepts : Token → Bool} {want : String}
    {keep : Token → List Token → Token} {ts : List Token} :
    FaultsOnly (Phrase.take accepts want keep ts) := by
  unfold Phrase.take
  repeat' split
  all_goals trivial

theorem Refusal.isFault_error (refusal : Refusal) (ts : List Token) :
    (refusal.error ts).IsFault := by
  cases refusal <;> trivial

theorem faultsOnly_read (grammar : Name → Phrase) (fuel : Nat) :
    (∀ phrase ts, FaultsOnly (Phrase.read grammar fuel phrase ts)) ∧
    (∀ test body ts, FaultsOnly (Phrase.readWhile grammar fuel test body ts)) := by
  induction fuel with
  | zero => exact ⟨fun _ _ => trivial, fun _ _ _ => trivial⟩
  | succ fuel ih =>
    obtain ⟨reads, repeats⟩ := ih
    constructor
    · intro phrase ts
      unfold Phrase.read
      cases phrase with
      | nothing => trivial
      | token accepts want => exact faultsOnly_take
      | asComma accepts want place => exact faultsOnly_take
      | ref name => exact reads ..
      | seq first second =>
        exact faultsOnly_bind (reads ..) fun _ => faultsOnly_bind (reads ..) fun _ => trivial
      | choose test yes no => exact reads ..
      | loop test body => exact faultsOnly_bind (repeats ..) fun _ => trivial
      | node rule body => exact faultsOnly_bind (reads ..) fun _ => trivial
      | extend test rule base tail =>
        refine faultsOnly_bind (reads ..) fun _ => ?_
        dsimp only
        split
        · exact faultsOnly_bind (reads ..) fun _ => trivial
        · trivial
      | climb test rule base tail =>
        exact faultsOnly_bind (reads ..) fun _ => faultsOnly_bind (repeats ..) fun _ => trivial
      | refuse refusal => exact refusal.isFault_error ts
    · intro test body ts
      unfold Phrase.readWhile
      split
      · exact faultsOnly_bind (reads ..) fun _ => faultsOnly_bind (repeats ..) fun _ => trivial
      · trivial

theorem faultsOnly_parse (text : String) : FaultsOnly (parse text) := by
  refine faultsOnly_bind (Token.faultsOnly_scan ..) fun ts => ?_
  refine faultsOnly_bind ((faultsOnly_read productions _).1 ..) fun reading => ?_
  dsimp only
  split <;> trivial

end Grammar

theorem Plan.faultsOnly_ofTree {sql : String} {tree : Tree} (h : Grammar.parse sql = .ok tree)
    (db : String) : FaultsOnly ((Plan.ofTree db tree).runFrom {}).1 := by
  obtain ⟨stmt, others, -, ht⟩ := Grammar.isStatement_of_parse h
  have hp : ∀ below ∈ tree :: tree.descendants, below.Proper Error.IsFault :=
    Grammar.proper_of_parse (fun _ => Error.IsRefusal.isFault) h fun _ _ _ _ hf => hf
  exact Plan.results_ofTree hp (by simp [ht]) db {}

end SqlBridge
