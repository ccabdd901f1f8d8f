/-
The lengths of columns in octets.

Of a column that holds characters the catalog keeps the greatest length in characters and in octets.
The second is the product of the first and the octets that a character takes.  Where 64 bits do not
hold the product, as of the greatest length that can be declared (`ofDefinition_overflow`), the
column has no description (`octets_exact_or_overflow`).
-/
import SqlBridge.Proofs.Plan.PrimaryKey

namespace SqlBridge.Column

open List

/-- The types of which a declared length or the longest member gives the length. -/
def measuredTypes : List TypeName := [.char, .varchar, .enum, .set]

/-- The length in characters of such a type. -/
def measure? (dataType : Tree) : TypeName → Option Int64
  | .char | .varchar => some ((fieldLength? dataType).getD 1)
  | .enum | .set => some (Int64.ofNat (longestMember dataType))
  | _ => none

/-- The product of a length and the octets that a character takes, as an integer without bounds. -/
def product (characters : Int64) (charset : Option String) : Int :=
  characters.toInt * (octetsPerCharacter charset).toInt

/-- The integers that 64 bits hold. -/
def Fits (n : Int) : Prop := Int64.minValue.toInt ≤ n ∧ n ≤ Int64.maxValue.toInt

instance (n : Int) : Decidable (Fits n) := inferInstanceAs (Decidable (_ ∧ _))

/-- The length in octets that a definition asks for, if its type is one of these. -/
def declaredOctets? (definition : Tree) (facts : TableFacts) : Option Int := do
  let field ← definition.child? .fieldDefinition
  let dataType ← field.child? .dataType
  let type ← (TypeName.ofDataType dataType).toOption
  (measure? dataType type).map fun characters =>
    product characters ((encodingOf? dataType field type facts).map Encoding.charset)

/-- A product is exact where it is within the bounds. -/
theorem toInt_mul_eq_iff (a b : Int64) :
    (a * b).toInt = a.toInt * b.toInt ↔ Fits (a.toInt * b.toInt) := by
  constructor
  · intro h
    rw [← h]
    exact ⟨Int64.minValue_le_toInt _, Int64.toInt_le _⟩
  · rintro ⟨hl, hu⟩
    rw [Int64.toInt_minValue] at hl
    rw [Int64.toInt_maxValue] at hu
    rw [Int64.toInt_mul, Int.bmod_eq_of_le] <;> omega

theorem extentInOctets_eq (characters : Int64) (charset : Option String) :
    extentInOctets characters charset =
      if Fits (product characters charset) then
        .ok ⟨characters, characters * octetsPerCharacter charset⟩
      else .error .overflow := by
  unfold extentInOctets product
  simp only [toInt_mul_eq_iff]

/-- The lengths of a type that is measured are multiplied; those of another are as they are. -/
theorem extentOf_cases (dataType : Tree) (type : TypeName) (charset : Option String) :
    (∃ characters, measure? dataType type = some characters ∧
      extentOf dataType type charset = some <$> extentInOctets characters charset) ∨
    measure? dataType type = none ∧ type ∉ measuredTypes ∧
      ∃ extent, extentOf dataType type charset = .ok extent := by
  cases type
  all_goals first
    | exact .inl ⟨_, rfl, rfl⟩
    | exact .inr ⟨rfl, by decide, _, rfl⟩

/-- **A length in octets is exact, or the column is not described.**  A definition of a column that
was read is described, whatever is known about its table, exactly if 64 bits hold the length in
octets that it asks for; the length that is kept is then the product.  If they do not, the
description ends in the overflow. -/
theorem octets_exact_or_overflow {sql : String} {query definition : Tree}
    (hparse : Grammar.parse sql = .ok query) (hmem : definition ∈ query.descendants)
    (hrule : definition.hasRule .columnDefinition = true) (facts : TableFacts) :
    ((∀ octets ∈ declaredOctets? definition facts, Fits octets) →
      ∃ column, ofDefinition definition facts = .ok column ∧
        (column.dataType ∈ measuredTypes → ∃ extent, column.extent = some extent ∧
          extent.octets.toInt =
            product extent.characters (column.encoding.map Encoding.charset))) ∧
    ∀ octets ∈ declaredOctets? definition facts, ¬ Fits octets →
      ofDefinition definition facts = .error .overflow := by
  obtain ⟨name, field, dataType, hname, hfield, hdataType, ⟨type, htype⟩, -⟩ :=
    exists_parts hrule (Draft.proper_of_mem hparse hmem "")
  have hasked : declaredOctets? definition facts = (measure? dataType type).map fun characters =>
      product characters ((encodingOf? dataType field type facts).map Encoding.charset) := by
    rw [declaredOctets?, hfield, Option.bind_eq_bind, Option.bind_some, hdataType,
      Option.bind_eq_bind, Option.bind_some, htype]
    rfl
  rw [ofDefinition_of_parts hname hfield hdataType htype, hasked]
  obtain ⟨characters, hmeasure, hextent⟩ | ⟨hmeasure, hother, extent, hextent⟩ :=
    extentOf_cases dataType type ((encodingOf? dataType field type facts).map Encoding.charset)
  · simp only [hmeasure, Option.map_some, Option.mem_some, forall_eq']
    rw [hextent, extentInOctets_eq]
    constructor
    · intro hfits
      rw [if_pos hfits]
      exact ⟨_, rfl, fun _ => ⟨_, rfl, (toInt_mul_eq_iff _ _).2 hfits⟩⟩
    · intro hfits
      rw [if_neg hfits]
      rfl
  · rw [hmeasure, hextent]
    exact ⟨fun _ => ⟨_, rfl, fun hmeasured => absurd hmeasured hother⟩, fun _ h => nomatch h⟩

/-- A column of a text that passes a test. -/
theorem exists_definition (sql : String) (test : Tree → Bool)
    (h : ((Grammar.parse sql).toOption.any fun query =>
      (query.descendantsBy .columnDefinition).any test)) :
    ∃ query defn, Grammar.parse sql = .ok query ∧ defn ∈ query.descendants ∧
      defn.hasRule .columnDefinition ∧ test defn := by
  obtain ⟨query, hquery, h⟩ := (Option.any_eq_true _ _).1 h
  obtain ⟨defn, hdefinition, htest⟩ := any_eq_true.1 h
  obtain ⟨hmem, hrule⟩ := mem_filter.1 hdefinition
  exact ⟨query, defn, toOption_eq_some.1 hquery, hmem, hrule, htest⟩

/-- The greatest length for which four octets a character are not too many. -/
theorem octets_exact_longest :
    ∃ query definition column extent,
      Grammar.parse "CREATE TABLE t (c VARCHAR(2305843009213693951))" = .ok query ∧
      definition ∈ query.descendants ∧ definition.hasRule .columnDefinition = true ∧
      declaredOctets? definition {} = some 9223372036854775804 ∧
      ofDefinition definition {} = .ok column ∧ column.dataType ∈ measuredTypes ∧
      column.extent = some extent ∧
      extent.octets.toInt = product extent.characters (column.encoding.map Encoding.charset) := by
  obtain ⟨query, definition, hparse, hmem, hrule, htest⟩ :=
    exists_definition "CREATE TABLE t (c VARCHAR(2305843009213693951))"
      (fun definition => declaredOctets? definition {} == some 9223372036854775804 &&
        (ofDefinition definition {}).toOption.all (·.dataType == .varchar)) (by decide +kernel)
  rw [Bool.and_eq_true, beq_iff_eq, Option.all_eq_true] at htest
  obtain ⟨hoctets, htype⟩ := htest
  obtain ⟨column, hcolumn, hexact⟩ :=
    (octets_exact_or_overflow hparse hmem hrule {}).1 (by rw [hoctets]; decide)
  have hmeasured : column.dataType ∈ measuredTypes := by
    rw [eq_of_beq (htype column (toOption_eq_some.2 hcolumn))]
    decide
  obtain ⟨extent, hextent, hproduct⟩ := hexact hmeasured
  exact ⟨query, definition, column, extent, hparse, hmem, hrule, hoctets, hcolumn, hmeasured,
    hextent, hproduct⟩

/-- The greatest length that can be declared takes more octets than 64 bits hold. -/
theorem ofDefinition_overflow :
    ∃ query definition,
      Grammar.parse "CREATE TABLE t (c VARCHAR(9223372036854775807))" = .ok query ∧
      definition ∈ query.descendants ∧ definition.hasRule .columnDefinition = true ∧
      declaredOctets? definition {} = some 36893488147419103228 ∧
      ofDefinition definition {} = .error .overflow := by
  obtain ⟨query, definition, hparse, hmem, hrule, htest⟩ :=
    exists_definition "CREATE TABLE t (c VARCHAR(9223372036854775807))"
      (fun definition => declaredOctets? definition {} == some 36893488147419103228 &&
        decide (ofDefinition definition {} = .error .overflow)) (by decide +kernel)
  rw [Bool.and_eq_true, beq_iff_eq, decide_eq_true_eq] at htest
  exact ⟨query, definition, hparse, hmem, hrule, htest.1, htest.2⟩

end SqlBridge.Column
