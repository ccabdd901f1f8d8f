/-
Dates that are moved by an interval.

`d + INTERVAL n unit`, `d - INTERVAL n unit`, `DATE_ADD`, `DATE_SUB`, `ADDDATE` and `SUBDATE` are
all written as a call of `DATETIME` with a modifier: a sign, the amount and a unit, joined by `||`.

* `Tree.dateShift?` reads a tree as one of them, with an integer as its amount.
* `Formula.modifier` is the modifier with its value, and `Formula.modifierOf?` what SQLite reads it
  as.
* `Tree.dateShift_meaning_iff`: the modifier is the one that is meant exactly if the amount is not
  negative and, in the unit of SQLite, a 64-bit integer.
-/
import SqlBridge.Proofs.Scribe.Formula

namespace SqlBridge

open Sql List

variable {factor : Int}

/-! ### Integers as they are written -/

/-- An integer as it is written: digits, with a sign or without one. -/
inductive Numeral where
  | plain (digits : String)
  | plus (digits : String)
  | minus (digits : String)
deriving DecidableEq

namespace Numeral

def value : Numeral → Int
  | .plain digits | .plus digits => Text.digitsValue digits.toList
  | .minus digits => -Text.digitsValue digits.toList

def sql : Numeral → Sql
  | .plain digits => [.literal (.number digits)]
  | .plus digits => [.operator "+", .literal (.number digits)]
  | .minus digits => [.operator "-", .literal (.number digits)]

end Numeral

/-- A date that is moved, by how many of which unit, and whether back. -/
structure DateShift where
  date : Tree
  back : Bool
  amount : Numeral
  unit : Keyword

namespace Tree

/-- The digits of a literal that is an integer. -/
def digits? : Tree → Option String
  | .node rule [.node below [.leaf token]] =>
    if rule = .literal ∧ below = .numLiteral ∧ token.kind = .integer ∧
      token.value.toList ≠ [] ∧ token.value.toList.all Char.isDigit then some token.value
    else none
  | _ => none

/-- An integer, with a sign or without one. -/
def numeral? (tree : Tree) : Option Numeral :=
  match tree with
  | .node rule [.leaf sign, literal] =>
    if rule ≠ .simpleExpr then none
    else if sign.kind = .symbol .plus then literal.digits?.map .plus
    else if sign.kind = .symbol .minus then literal.digits?.map .minus
    else none
  | _ => tree.digits?.map .plain

/-- The amount of an interval, if it is an integer, and its unit. -/
def interval? (tree : Tree) : Option (Numeral × Keyword) :=
  if tree.hasRule .interval then do
    let amount ← tree.firstNode?
    return (← amount.numeral?, ← tree.unit?)
  else none

/-- The functions that move a date, and whether they move it back. -/
def shiftNames : List (String × Bool) :=
  [("DATE_ADD", false), ("ADDDATE", false), ("DATE_SUB", true), ("SUBDATE", true)]

/-- The second argument of such a function: an interval, or a number of days. -/
def shiftAmount? (name : String) (argument : Tree) : Option (Numeral × Keyword) :=
  if argument.hasRule .interval then argument.interval?
  else if name = "ADDDATE" ∨ name = "SUBDATE" then argument.numeral?.map (·, .DAY)
  else none

/-- The operators that move a date, and whether they move it back. -/
def shiftOperator? (token : Token) : Option Bool :=
  if token.kind = .symbol .plus then some false
  else if token.kind = .symbol .minus then some true
  else none

/-- A date that is moved by an operator or by a function. -/
def dateShift? (tree : Tree) : Option DateShift :=
  if tree.isCall then
    match tree.arguments with
    | [date, argument] => do
      let back ← shiftNames.lookup tree.functionName
      let (amount, unit) ← argument.shiftAmount? tree.functionName
      return ⟨date, back, amount, unit⟩
    | _ => none
  else
    match tree with
    | .node rule [.node below row, .leaf operator, interval] =>
      if rule = .bitExpr ∧ below ≠ .interval then do
        let back ← shiftOperator? operator
        let (amount, unit) ← interval.interval?
        return ⟨.node below row, back, amount, unit⟩
      else none
    | _ => none

end Tree

namespace Formula

/-! ### Modifiers -/

/-- An integer of SQLite.  Beyond 64 bits there is a number in its place that is not one. -/
def int64? (n : Int) : Option Int :=
  if Int64.minValue.toInt ≤ n ∧ n ≤ Int64.maxValue.toInt then some n else none

def ofNumeral (numeral : Numeral) : Formula Int := ⟨numeral.sql, int64? numeral.value⟩

def times (x : Formula Int) (factor : Int) : Formula Int :=
  ⟨x.sql ++ [Piece.raw "*", .integer factor], x.value.bind fun n => int64? (n * factor)⟩

/-- The units of intervals, how many units of SQLite they are, and of which. -/
def units : List (Keyword × Int × String) :=
  [(.SECOND, 1, "seconds"), (.MINUTE, 1, "minutes"), (.HOUR, 1, "hours"), (.DAY, 1, "days"),
   (.WEEK, 7, "days"), (.MONTH, 1, "months"), (.QUARTER, 3, "months"), (.YEAR, 1, "years")]

theorem factor_pos {unit : Keyword} {name : String}
    (h : units.lookup unit = some (factor, name)) : 0 < factor := by
  have ha : ∀ entry ∈ units, 0 < entry.2.1 := by decide
  obtain ⟨_, _, hs, -⟩ := lookup_eq_some_iff.1 h
  exact ha (unit, factor, name) (by simp [hs])

/-- An amount in the unit of SQLite. -/
def counted (amount : Formula Int) (factor : Int) : Formula Int :=
  if factor = 1 then amount else group (times amount factor)

/-- The modifier of a date: a sign, an amount and a unit. -/
def modifier (back : Bool) (amount : Formula Int) (factor : Int) (unit : String) :
    Formula (List Char) :=
  between "||" (· ++ ·) (between "||" (· ++ ·) (text (if back then "-" else "+"))
    (shown (counted amount factor))) (text (" " ++ unit))

/-- What SQLite reads a modifier as: at most one sign, digits, a space and a unit. -/
def modifierOf? (text : List Char) : Option (Int × List Char) :=
  let rest := match text with
    | '-' :: rest | '+' :: rest => rest
    | _ => text
  let digits := rest.takeWhile Char.isDigit
  match rest.drop digits.length with
  | ' ' :: unit =>
    let amount : Int := Nat.ofDigitChars 10 digits 0
    if digits = [] then none else some (if text.head? = some '-' then -amount else amount, unit)
  | _ => none

/-- Only the product has to be an integer: the amount is one if the product is. -/
theorem value_counted (numeral : Numeral) (hf : 0 < factor) :
    (counted (ofNumeral numeral) factor).value = int64? (numeral.value * factor) := by
  unfold counted
  split
  next h1 => rw [h1, Int.mul_one]; rfl
  next h1 =>
    show (int64? numeral.value).bind (fun n => int64? (n * factor)) = _
    generalize numeral.value = n
    by_cases hn : Int64.minValue.toInt ≤ n ∧ n ≤ Int64.maxValue.toInt
    · rw [int64?, if_pos hn, Option.bind_some]
    · rw [int64?, if_neg hn, Option.bind_none, int64?, if_neg]
      rintro ⟨hl, hu⟩
      refine hn ?_
      rcases Int.lt_or_le n 0 with h0 | h0
      · have hm : n * factor ≤ n * 1 := Int.mul_le_mul_of_nonpos_left (by omega) (by omega)
        rw [Int64.toInt_minValue, Int64.toInt_maxValue] at *
        omega
      · have hm : n * 1 ≤ n * factor := Int.mul_le_mul_of_nonneg_left (by omega) h0
        rw [Int64.toInt_minValue, Int64.toInt_maxValue] at *
        omega

theorem value_modifier (back : Bool) (numeral : Numeral) (hf : 0 < factor) (unit : String) :
    (modifier back (ofNumeral numeral) factor unit).value =
      (int64? (numeral.value * factor)).map fun n => (if back then '-' else '+') ::
        (toString n).toList ++ ' ' :: unit.toList := by
  unfold modifier
  simp only [between, shown, value_counted numeral hf]
  cases int64? (numeral.value * factor) <;> cases back <;> simp

/-- A sign before a number that is not negative is the sign of the modifier. -/
theorem modifierOf?_of_nonneg (back : Bool) (n : Nat) (unit : List Char) :
    modifierOf? ((if back then '-' else '+') :: Nat.toDigits 10 n ++ ' ' :: unit) =
      some (if back then -(n : Int) else n, unit) := by
  have hd : ∀ c ∈ Nat.toDigits 10 n, c.isDigit := fun c hc =>
    Nat.isDigit_of_mem_toDigits (by decide) (by decide) hc
  have ht : (Nat.toDigits 10 n ++ ' ' :: unit).takeWhile Char.isDigit = Nat.toDigits 10 n := by
    rw [takeWhile_append_of_pos hd]
    simp
  have hn : Nat.toDigits 10 n ≠ [] := Nat.toDigits_ne_nil
  cases back <;> simp [modifierOf?, ht, hn, Nat.ofDigitChars_ten_toDigits]

/-- Two signs are no modifier. -/
theorem modifierOf?_of_neg (back : Bool) (rest : List Char) :
    modifierOf? ((if back then '-' else '+') :: '-' :: rest) = none := by
  cases back <;> simp [modifierOf?]

/-- A modifier says what its sign and its amount say together if the amount has no sign. -/
theorem modifierOf?_eq_iff (back : Bool) (n : Int) (unit : List Char) :
    modifierOf? ((if back then '-' else '+') :: (toString n).toList ++ ' ' :: unit) =
      some (if back then -n else n, unit) ↔ 0 ≤ n := by
  rcases Int.lt_or_le n 0 with hn | hn
  · obtain ⟨m, rfl⟩ := Int.eq_negSucc_of_lt_zero hn
    have ht : (toString (Int.negSucc m)).toList = '-' :: (toString (m + 1)).toList := by
      show ("-" ++ toString (m + 1)).toList = _
      simp
    rw [ht, cons_append, cons_append, modifierOf?_of_neg]
    simp
  · obtain ⟨m, rfl⟩ := Int.eq_ofNat_of_zero_le hn
    have ht : (toString (m : Int)).toList = Nat.toDigits 10 m := by
      show (toString m).toList = _
      simp
    rw [ht, modifierOf?_of_nonneg]
    exact iff_of_true rfl hn

theorem bind_modifierOf?_eq_iff (back : Bool) (numeral : Numeral) (hf : 0 < factor)
    (unit : String) :
    (modifier back (ofNumeral numeral) factor unit).value.bind modifierOf? =
        some (if back then -(numeral.value * factor) else numeral.value * factor, unit.toList) ↔
      0 ≤ numeral.value ∧ numeral.value * factor ≤ Int64.maxValue.toInt := by
  have hs : 0 ≤ numeral.value ↔ 0 ≤ numeral.value * factor :=
    ⟨fun h => Int.mul_nonneg h (Int.le_of_lt hf), fun h => Int.nonneg_of_mul_nonneg_left h hf⟩
  rw [value_modifier back numeral hf, hs]
  generalize numeral.value * factor = n
  by_cases hn : Int64.minValue.toInt ≤ n ∧ n ≤ Int64.maxValue.toInt
  · rw [int64?, if_pos hn, Option.map_some, Option.bind_some, modifierOf?_eq_iff]
    exact ⟨fun h => ⟨h, hn.2⟩, fun h => h.1⟩
  · rw [int64?, if_neg hn, Option.map_none, Option.bind_none]
    refine iff_of_false nofun fun h => hn ⟨?_, h.2⟩
    rw [Int64.toInt_minValue]
    omega

/-! ### What is written -/

theorem intervalParts_eq (amount : Formula Int) (unit : Keyword) :
    Function.intervalParts amount.sql unit = match units.lookup unit with
      | some (factor, name) => .ok ((counted amount factor).sql, " " ++ name)
      | none => .error (.unsupported (.intervalUnit unit)) := by
  unfold Function.intervalParts
  split
  case h_9 h₁ h₂ h₃ h₄ h₅ h₆ h₇ h₈ =>
    have hn : units.lookup unit = none := by
      simp [units, lookup_cons, beq_eq_false_iff_ne.2 h₁, beq_eq_false_iff_ne.2 h₂,
        beq_eq_false_iff_ne.2 h₃, beq_eq_false_iff_ne.2 h₄, beq_eq_false_iff_ne.2 h₅,
        beq_eq_false_iff_ne.2 h₆, beq_eq_false_iff_ne.2 h₇, beq_eq_false_iff_ne.2 h₈]
    rw [hn]
  all_goals rfl

theorem shifted_eq (date : Sql) (back : Bool) (amount : Formula Int) (unit : Keyword) :
    Function.shifted date back amount.sql unit = match units.lookup unit with
      | some (factor, name) =>
        .ok (called "DATETIME" [date, (modifier back amount factor name).sql])
      | none => .error (.unsupported (.intervalUnit unit)) := by
  rw [Function.shifted, intervalParts_eq]
  rcases units.lookup unit with _ | ⟨factor, name⟩
  · rfl
  · have hc (x y : Sql) : call "DATETIME" [x, y] = .ok (called "DATETIME" [x, y]) :=
      call_eq (by simp)
    simp only [bind, Except.bind, Function.concatenation, separated, hc]
    simp [modifier, intercalate]

end Formula

namespace Tree

variable {tree : Tree} {numeral : Numeral} {unit : Keyword}

theorem exists_of_digits? {digits : String} (h : tree.digits? = some digits) :
    ∃ token, tree = .node .literal [.node .numLiteral [.leaf token]] ∧
      token.sql = pure (some [.literal (.number digits)]) := by
  unfold digits? at h
  split at h
  · rename_i rule below token
    split at h
    · rename_i ha
      obtain ⟨rfl, rfl, hk, hne, hd⟩ := ha
      cases h
      rw [all_eq_true] at hd
      have hm : ∀ c ∈ token.value.toList, IsMantissaChar c := fun c hc => .inl (hd c hc)
      have hn := isNumber_of_isMantissa (isMantissa_digits hd hne) hm (.inl rfl)
      rw [append_nil] at hn
      refine ⟨token, rfl, ?_⟩
      rw [Token.sql, hk]
      dsimp only
      rw [number, if_pos hn]
      rfl
    · cases h
  · cases h

/-- A sign before the digits of a literal is written before them. -/
theorem required_signed {sign : Token} {symbol : Symbol} {digits : String} {piece : Piece}
    (hs : sign.kind = .symbol symbol) (hb : symbol ≠ .bang)
    (hw : symbol.sql = pure (some [piece])) (h : tree.digits? = some digits) (db : String) :
    (Draft.ofTree db (.node .simpleExpr [.leaf sign, tree])).required =
      pure [piece, .literal (.number digits)] := by
  obtain ⟨token, rfl, ht⟩ := exists_of_digits? h
  obtain ⟨kind, text, position⟩ := sign
  subst hs
  have hbang : (Token.isSymbol ⟨.symbol symbol, text, position⟩ .bang) = false := by
    simpa [Token.isSymbol] using hb
  rw [Draft.required, Draft.write_ofTree, Branch.write, Branch.simpleExpression]
  simp only [Tree.children, head?_cons, Option.bind_some, token?, Option.any_some, hbang]
  show (Draft.sequence [.mk _ _ symbol.sql, .mk _ _ (Draft.sequence [.mk _ _ (Draft.sequence
    [.mk _ _ token.sql])])] >>= _) = _
  rw [hw, ht]
  rfl

/-- An integer is written as it is. -/
theorem required_of_numeral? (h : tree.numeral? = some numeral) (db : String) :
    (Draft.ofTree db tree).required = pure numeral.sql := by
  unfold numeral? at h
  split at h
  · rename_i rule sign literal
    split at h
    · cases h
    · rename_i hr
      obtain rfl := not_not.1 hr
      split at h
      · rename_i hs
        obtain ⟨digits, hd, rfl⟩ := Option.map_eq_some_iff.1 h
        exact required_signed hs (by decide) rfl hd db
      · split at h
        · rename_i hs
          obtain ⟨digits, hd, rfl⟩ := Option.map_eq_some_iff.1 h
          exact required_signed hs (by decide) rfl hd db
        · cases h
  · obtain ⟨digits, hd, rfl⟩ := Option.map_eq_some_iff.1 h
    obtain ⟨token, rfl, hs⟩ := exists_of_digits? hd
    show (Draft.mk _ _ (Draft.sequence [.mk _ _ (Draft.sequence [.mk _ _ token.sql])])).required = _
    rw [hs]
    rfl

theorem hasRule_of_numeral? (h : tree.numeral? = some numeral) {rule : Rule}
    (hl : rule ≠ .literal) (hs : rule ≠ .simpleExpr) : tree.hasRule rule = false := by
  unfold numeral? at h
  split at h
  · rename_i other sign literal
    split at h
    · cases h
    · rename_i hr
      obtain rfl := not_not.1 hr
      simpa [hasRule, rule?] using hs.symm
  · obtain ⟨digits, hd, -⟩ := Option.map_eq_some_iff.1 h
    obtain ⟨token, rfl, -⟩ := exists_of_digits? hd
    simpa [hasRule, rule?] using hl.symm

/-- A date is moved by the amount of an interval. -/
theorem shiftedBy_of_interval? (h : tree.interval? = some (numeral, unit)) (date : Sql)
    (back : Bool) (db : String) : Branch.shiftedBy date back (Draft.ofTree db tree) =
      (liftM (Function.shifted date back numeral.sql unit) : Scribe Sql) := by
  unfold interval? at h
  split at h
  case isFalse => cases h
  obtain ⟨amount, hf, h⟩ := Option.bind_eq_some_iff.1 h
  obtain ⟨found, hn, h⟩ := Option.bind_eq_some_iff.1 h
  obtain ⟨word, hu, h⟩ := Option.bind_eq_some_iff.1 h
  cases h
  have ht : amount.hasRule .intervalTimeStamp = false :=
    hasRule_of_numeral? hn (by decide) (by decide)
  rw [Branch.shiftedBy, Draft.firstNode?_ofTree, hf, Option.map_some,
    Option.filter_some, Draft.tree_ofTree, ht, Draft.tree_ofTree, hu]
  show ((Draft.ofTree db amount).required >>= _) = _
  rw [required_of_numeral? hn]
  rfl

/-- A function that moves a date writes the date, and then the move. -/
theorem dateShiftCall_eq {date argument : Tree} {back : Bool} {node : Branch} {name : String}
    {db : String} (hargs : node.arguments = [Draft.ofTree db date, Draft.ofTree db argument])
    (hb : shiftNames.lookup name = some back)
    (ha : argument.shiftAmount? name = some (numeral, unit)) :
    node.dateShiftCall name = (do
      let date ← (Draft.ofTree db date).required
      liftM (Function.shifted date back numeral.sql unit) : Scribe Sql) := by
  have hback : (name == "DATE_SUB" || name == "SUBDATE") = back := by
    obtain ⟨_, _, hs, -⟩ := lookup_eq_some_iff.1 hb
    have hm : (name, back) ∈ shiftNames := by simp [hs]
    revert hm
    simp only [shiftNames, mem_cons, not_mem_nil, or_false, Prod.mk.injEq]
    rintro (⟨rfl, rfl⟩ | ⟨rfl, rfl⟩ | ⟨rfl, rfl⟩ | ⟨rfl, rfl⟩) <;> rfl
  rw [Branch.dateShiftCall, hargs]
  dsimp only
  rw [hback]
  refine bind_congr fun sql => ?_
  unfold shiftAmount? at ha
  rw [Draft.tree_ofTree]
  split at ha
  · rename_i hi
    rw [if_pos hi, shiftedBy_of_interval? ha]
  · rename_i hi
    rw [if_neg hi]
    split at ha
    · rename_i hd
      obtain ⟨found, hn, heq⟩ := Option.map_eq_some_iff.1 ha
      cases heq
      rw [if_pos (by simpa using hd), required_of_numeral? hn]
      rfl
    · cases ha

/-- An operator that moves a date does the same. -/
theorem arithmetic_eq {below : Rule} {row : List Tree} {operator : Token} {interval : Tree}
    {back : Bool} (hbelow : below ≠ .interval) (hb : shiftOperator? operator = some back)
    (ha : interval.interval? = some (numeral, unit)) (db : String) :
    (Draft.ofTree db (.node .bitExpr [.node below row, .leaf operator,
      interval])).branch.arithmetic = (do
        let date ← (Draft.ofTree db (.node below row)).required
        liftM (Function.shifted date back numeral.sql unit) : Scribe Sql) := by
  have hi := ha
  unfold interval? at hi
  split at hi
  case isFalse => cases hi
  rename_i hrule
  obtain ⟨kids, rfl⟩ := exists_of_hasRule hrule
  have hchild : (Tree.node .bitExpr [.node below row, .leaf operator, .node .interval kids]).child?
      .interval = some (.node .interval kids) := by
    simp [child?, children, hasRule, rule?, hbelow]
  have hsymbol : operator.symbol? = some (if back then .minus else .plus) := by
    unfold shiftOperator? at hb
    split at hb
    · rename_i hk
      cases hb
      rw [Token.symbol?, hk]
      rfl
    · split at hb
      · rename_i hk
        cases hb
        rw [Token.symbol?, hk]
        rfl
      · cases hb
  have htoken : (Draft.ofTree db (.node .bitExpr [.node below row, .leaf operator,
      .node .interval kids])).branch.tree.firstToken? = some operator := rfl
  rw [Branch.arithmetic, Draft.child?_ofTree, hchild, Draft.firstNode?_ofTree, htoken]
  simp only [Scribe.part, pure_bind, Option.map_some, hsymbol, shiftedBy_of_interval? ha]
  cases back <;> rfl

/-- **A date that is moved** is written first, and then the move. -/
theorem write_dateShift {shift : DateShift} (h : tree.dateShift? = some shift) (db : String) :
    tree.write db = (do
      let date ← (Draft.ofTree db shift.date).required
      some <$> (liftM (Function.shifted date shift.back shift.amount.sql shift.unit) :
        Scribe Sql)) := by
  unfold dateShift? at h
  split at h
  · rename_i hc
    split at h
    · rename_i date argument hargs
      obtain ⟨back, hb, h⟩ := Option.bind_eq_some_iff.1 h
      obtain ⟨⟨amount, unit⟩, ha, h⟩ := Option.bind_eq_some_iff.1 h
      cases h
      have hn : tree.functionName ∈ ["DATE_ADD", "ADDDATE", "DATE_SUB", "SUBDATE"] := by
        obtain ⟨_, _, hs, -⟩ := lookup_eq_some_iff.1 hb
        have hm : (tree.functionName, back) ∈ shiftNames := by simp [hs]
        exact mem_map_of_mem (f := Prod.fst) hm
      have hdraft : (Draft.ofTree db tree).branch.arguments =
          [Draft.ofTree db date, Draft.ofTree db argument] := by
        rw [arguments_ofTree, hargs]
        rfl
      rw [write_of_isCall hc, Branch.functionCall_of_shift (by simp [Draft.branch]) hn,
        dateShiftCall_eq hdraft hb ha, map_bind]
    · cases h
  · split at h
    · rename_i rule below row operator interval _
      split at h
      case isFalse => cases h
      rename_i hr
      obtain ⟨rfl, hbelow⟩ := hr
      obtain ⟨back, hb, h⟩ := Option.bind_eq_some_iff.1 h
      obtain ⟨⟨amount, unit⟩, ha, h⟩ := Option.bind_eq_some_iff.1 h
      cases h
      rw [write, Draft.write_ofTree, Branch.write, ← map_bind, ← arithmetic_eq hbelow hb ha,
        Draft.branch_ofTree]
      rfl
    · cases h

/-- **What a date that is moved means.**  It is written as a call of `DATETIME` with the date and a
modifier, if SQLite has the unit.  The modifier says what the interval says exactly if the amount is
not negative and, in the unit of SQLite, an integer of 64 bits: the sign of an amount would come
after the one that is written. -/
theorem dateShift_meaning_iff {shift : DateShift} (hshift : tree.dateShift? = some shift)
    (database : String) :
    (Formula.units.lookup shift.unit = none →
      tree.write database = (do
        let _ ← (Draft.ofTree database shift.date).required
        Scribe.unsupported (.intervalUnit shift.unit))) ∧
    ∀ factor name, Formula.units.lookup shift.unit = some (factor, name) →
      let modifier := Formula.modifier shift.back (.ofNumeral shift.amount) factor name
      let count := shift.amount.value * factor
      tree.write database = (do
        let date ← (Draft.ofTree database shift.date).required
        return some (Formula.called "DATETIME" [date, modifier.sql])) ∧
      (modifier.value.bind Formula.modifierOf? =
          some (if shift.back then -count else count, name.toList) ↔
        0 ≤ shift.amount.value ∧ count ≤ Int64.maxValue.toInt) := by
  rw [write_dateShift hshift]
  have hshifted (date : Sql) :=
    Formula.shifted_eq date shift.back (.ofNumeral shift.amount) shift.unit
  constructor
  · intro hunit
    refine bind_congr fun date => ?_
    rw [hunit] at hshifted
    rw [show Function.shifted date shift.back shift.amount.sql shift.unit = _ from hshifted date]
    rfl
  · intro factor name hunit modifier count
    refine ⟨bind_congr fun date => ?_,
      Formula.bind_modifierOf?_eq_iff _ _ (Formula.factor_pos hunit) _⟩
    rw [hunit] at hshifted
    rw [show Function.shifted date shift.back shift.amount.sql shift.unit = _ from hshifted date]
    rfl

/-- A date that a statement moves, if it passes a test. -/
theorem exists_dateShift (sql : String) (test : DateShift → Bool)
    (h : ((Grammar.parse sql).toOption.any fun query =>
      query.descendants.any fun tree => tree.dateShift?.any test)) :
    ∃ query tree shift, Grammar.parse sql = .ok query ∧ tree ∈ query.descendants ∧
      tree.dateShift? = some shift ∧ test shift := by
  obtain ⟨query, hquery, h⟩ := (Option.any_eq_true _ _).1 h
  obtain ⟨tree, htree, h⟩ := any_eq_true.1 h
  obtain ⟨shift, hshift, htest⟩ := (Option.any_eq_true _ _).1 h
  exact ⟨query, tree, shift, toOption_eq_some.1 hquery, htree, hshift, htest⟩

/-- Five weeks before a date, with a sign: the modifier is one of days. -/
theorem dateShift_meaning_iff_weeks :
    ∃ query tree shift, Grammar.parse "SELECT d - INTERVAL +5 WEEK" = .ok query ∧
      tree ∈ query.descendants ∧ tree.dateShift? = some shift ∧
      (Formula.modifier shift.back (.ofNumeral shift.amount) 7 "days").value.bind
        Formula.modifierOf? = some (-35, "days".toList) := by
  obtain ⟨query, tree, shift, hparse, htree, hshift, htest⟩ :=
    exists_dateShift "SELECT d - INTERVAL +5 WEEK" (fun shift => shift.back &&
      decide (shift.amount = .plus "5") && decide (shift.unit = .WEEK)) (by decide +kernel)
  simp only [Bool.and_eq_true, decide_eq_true_eq] at htest
  obtain ⟨⟨hback, hamount⟩, hunit⟩ := htest
  obtain ⟨-, hmeaning⟩ := (dateShift_meaning_iff hshift "").2 7 "days" (by rw [hunit]; rfl)
  have hmodifier := hmeaning.2 (by rw [hamount]; decide)
  rw [hback, hamount] at hmodifier
  refine ⟨query, tree, shift, hparse, htree, hshift, ?_⟩
  rw [hback, hamount]
  exact hmodifier

/-- Five days before a date are not counted where they are added: there are two signs. -/
theorem dateShift_negative :
    ∃ query tree shift, Grammar.parse "SELECT DATE_ADD(d, INTERVAL -5 DAY)" = .ok query ∧
      tree ∈ query.descendants ∧ tree.dateShift? = some shift ∧ shift.amount.value = -5 ∧
      (Formula.modifier shift.back (.ofNumeral shift.amount) 1 "days").value =
        some "+-5 days".toList ∧
      Formula.modifierOf? "+-5 days".toList = none := by
  obtain ⟨query, tree, shift, hparse, htree, hshift, htest⟩ :=
    exists_dateShift "SELECT DATE_ADD(d, INTERVAL -5 DAY)" (fun shift => !shift.back &&
      decide (shift.amount = .minus "5") && decide (shift.unit = .DAY)) (by decide +kernel)
  simp only [Bool.and_eq_true, Bool.not_eq_true', decide_eq_true_eq] at htest
  obtain ⟨⟨hback, hamount⟩, -⟩ := htest
  refine ⟨query, tree, shift, hparse, htree, hshift, ?_, ?_, by decide⟩
  · rw [hamount]
    decide
  · rw [hback, hamount]
    decide

end Tree

end SqlBridge
