/-
What the queries of the catalog mean.

`Query.run` gives a query its standard meaning over the four tables of the catalog: conditions have
three truth values, a condition is judged on the tables as they were before the query, a scalar
selection has the value of its first row or is null, and an aggregate is taken over the rows that
meet the condition of its selection.  Where a value has no meaning here, as where a sum leaves the
64-bit integers or a text is compared with a number, the query fails.
-/
import SqlBridge.Catalog.Script

namespace SqlBridge

/-- A row of a table, by the columns that were written.  The others have the defaults of their
table, and no query reads or changes them. -/
abbrev Record := List (String × Value)

def Record.value? (record : Record) (column : String) : Option Value := List.lookup column record

structure Tables where
  tables : List Record := []
  columns : List Record := []
  statistics : List Record := []
  cache : List Record := []

namespace Tables

def get? (tables : Tables) (name : String) : Option (List Record) :=
  if name = Register.tables.name then some tables.tables
  else if name = Register.columns.name then some tables.columns
  else if name = Register.statistics.name then some tables.statistics
  else if name = typeCache then some tables.cache
  else none

def set (tables : Tables) (name : String) (records : List Record) : Tables :=
  if name = Register.tables.name then { tables with tables := records }
  else if name = Register.columns.name then { tables with columns := records }
  else if name = Register.statistics.name then { tables with statistics := records }
  else { tables with cache := records }

/-- The columns of the primary key of a table; only the cache has one. -/
def keyColumns (name : String) : List String :=
  if name = typeCache then ["table", "column_or_index"] else []

end Tables

/-! ### Values -/

namespace Value

/-- The truth value of a value; a null is neither true nor false. -/
def truth? : Value → Option (Option Bool)
  | .null => some none
  | .integer number => some (some (number != 0))
  | _ => none

def ofTruth : Option Bool → Value
  | none => .null
  | some truth => .ofBool truth

/-- Whether a value makes a condition hold. -/
def holds? (value : Value) : Option Bool := value.truth?.map (· == some true)

def same? : Value → Value → Option (Option Bool)
  | .null, _ => some none
  | _, .null => some none
  | .integer m, .integer n => some (some (m == n))
  | .text a, .text b => some (some (a == b))
  | _, _ => none

def exceeds? : Value → Value → Option (Option Bool)
  | .null, _ => some none
  | _, .null => some none
  | .integer m, .integer n => some (some (decide (n < m)))
  | _, _ => none

/-- A 64-bit integer. -/
def ofInt? (number : Int) : Option Value :=
  if Int64.minValue.toInt ≤ number ∧ number ≤ Int64.maxValue.toInt then
    some (.integer (Int64.ofInt number))
  else none

def arithmetic? (operation : Int → Int → Int) : Value → Value → Option Value
  | .null, _ => some .null
  | _, .null => some .null
  | .integer m, .integer n => ofInt? (operation m.toInt n.toInt)
  | _, _ => none

/-- The lesser of two integers, null if one of them is. -/
def lesser? : Value → Value → Option Value
  | .null, _ => some .null
  | _, .null => some .null
  | .integer m, .integer n => some (.integer (if m ≤ n then m else n))
  | _, _ => none

/-- The integer among some that comes before all others, null if there is none. -/
def foremost? (before : Int64 → Int64 → Bool) : List Value → Option Value
  | [] => some .null
  | value :: rest => do
    match value, ← foremost? before rest with
    | .null, found => some found
    | .integer m, .null => some (.integer m)
    | .integer m, .integer n => some (.integer (if before n m then n else m))
    | _, _ => none

/-- Whether a value is the same as one of some others. -/
def among? (value : Value) : List Value → Option (Option Bool)
  | [] => some (some false)
  | other :: rest => do
    match ← value.same? other, ← value.among? rest with
    | some true, _ => some (some true)
    | some false, found => some found
    | none, some true => some (some true)
    | none, _ => some none

end Value

def conjunction : Option Bool → Option Bool → Option Bool
  | some false, _ => some false
  | _, some false => some false
  | some true, some true => some true
  | _, _ => none

def disjunction : Option Bool → Option Bool → Option Bool
  | some true, _ => some true
  | _, some true => some true
  | some false, some false => some false
  | _, _ => none

def Operator.apply (left right : Value) : Operator → Option Value
  | .or => do return .ofTruth (disjunction (← left.truth?) (← right.truth?))
  | .and => do return .ofTruth (conjunction (← left.truth?) (← right.truth?))
  | .equal => (left.same? right).map .ofTruth
  | .unequal => (left.same? right).map fun truth => .ofTruth (truth.map (!·))
  | .greater => (left.exceeds? right).map .ofTruth
  | .plus => left.arithmetic? (· + ·) right
  | .minus => left.arithmetic? (· - ·) right

/-! ### Terms -/

/-- The rows that a selection has at hand, each under the name of its table. -/
abbrev Bindings := List (String × Record)

/-- The value of a column, in the innermost selection that has it. -/
def column? (scope : List Bindings) (source : Option String) (name : String) : Option Value :=
  scope.findSome? fun bindings => bindings.findSome? fun entry =>
    if source.all (· == entry.1) then entry.2.value? name else none

/-- The members of a list for which a test succeeds. -/
def keep {α : Type} (test : α → Option Bool) : List α → Option (List α)
  | [] => some []
  | a :: rest => do
    let kept ← keep test rest
    return if ← test a then a :: kept else kept

def Source.name (source : Source) : String := source.label.getD source.table

mutual

/-- Whether a term is taken over all rows of its selection. -/
def Term.isAggregate : Term → Bool
  | .count | .minimum _ | .maximum _ => true
  | .operation _ left right | .coalesce left right | .least left right =>
    left.isAggregate || right.isAggregate
  | .isNotNull operand | .isOneOf operand _ | .isAmong operand _ => operand.isAggregate
  | .cases branches => branches.isAggregate
  | .bound _ | .null | .number _ | .text _ | .column _ _ | .scalar _ => false

def Branches.isAggregate : Branches → Bool
  | .branch condition result rest =>
    condition.isAggregate || result.isAggregate || rest.isAggregate
  | .otherwise result => result.isAggregate
  | .ending => false

end

mutual

/-- The value of a term, given the selections around it and the rows that aggregates are taken
over. -/
@[simp]
def Term.eval (tables : Tables) : Term → (scope group : List Bindings) → Option Value
  | .bound value, _, _ => some value
  | .null, _, _ => some .null
  | .number value, _, _ => some (.integer (Int64.ofNat value))
  | .text value, _, _ => some (.text value)
  | .column source name, scope, _ => column? scope source name
  | .operation operator left right, scope, group => do
    operator.apply (← left.eval tables scope group) (← right.eval tables scope group)
  | .isNotNull operand, scope, group => do
    return .ofBool !(← operand.eval tables scope group).isNull
  | .isOneOf operand texts, scope, group => do
    return .ofTruth (← (← operand.eval tables scope group).among? (texts.map .text))
  | .isAmong operand selection, scope, group => do
    return .ofTruth
      (← (← operand.eval tables scope group).among? (← selection.eval tables scope))
  | .cases branches, scope, group => branches.eval tables scope group
  | .coalesce first second, scope, group => do
    let value ← first.eval tables scope group
    if value.isNull then second.eval tables scope group else return value
  | .least first second, scope, group => do
    (← first.eval tables scope group).lesser? (← second.eval tables scope group)
  | .count, _, group => Value.ofInt? group.length
  | .minimum operand, scope, group => do
    Value.foremost? (· < ·) (← group.mapM fun bindings =>
      operand.eval tables (bindings :: scope) [])
  | .maximum operand, scope, group => do
    Value.foremost? (· > ·) (← group.mapM fun bindings =>
      operand.eval tables (bindings :: scope) [])
  | .scalar selection, scope, _ => do
    return (← selection.eval tables scope).headD .null

@[simp]
def Branches.eval (tables : Tables) : Branches → (scope group : List Bindings) → Option Value
  | .branch condition result rest, scope, group => do
    if ← (← condition.eval tables scope group).holds? then result.eval tables scope group
    else rest.eval tables scope group
  | .otherwise result, scope, group => result.eval tables scope group
  | .ending, _, _ => some .null

/-- The values that a selection gives, one for each row that meets its condition, or one for all of
them. -/
@[simp]
def Selection.eval (tables : Tables) : Selection → (scope : List Bindings) → Option (List Value)
  | .mk value source condition, scope => do
    let records ← tables.get? source.table
    let group ← keep (fun bindings => do (← condition.eval tables (bindings :: scope) []).holds?)
      (records.map fun record => [(source.name, record)])
    if value.isAggregate then return [← value.eval tables scope group]
    else group.mapM fun bindings => value.eval tables (bindings :: scope) []

end

theorem Term.eval_bound (tables : Tables) (value : Value) (scope group : List Bindings) :
    (Term.bound value).eval tables scope group = some value :=
  rfl

theorem Term.eval_column (tables : Tables) (source : Option String) (name : String)
    (scope group : List Bindings) :
    (Term.column source name).eval tables scope group = column? scope source name :=
  rfl

theorem Branches.eval_cons (tables : Tables) (cond result : Term) (rest : Branches)
    (scope group : List Bindings) :
    (Branches.branch cond result rest).eval tables scope group = (do
      if ← (← cond.eval tables scope group).holds? then result.eval tables scope group
      else rest.eval tables scope group) :=
  rfl

/-! ### Queries -/

namespace Record

/-- A row with another value in a column. -/
def replaced (column : String) (value : Value) (record : Record) : Record :=
  record.map fun entry => if entry.1 = column then (entry.1, value) else entry

/-- Whether two rows of a table have the same key. -/
def conflicts (columns : List String) (record other : Record) : Bool :=
  !columns.isEmpty && columns.map record.value? == columns.map other.value?

end Record

/-- The rows of several origins, in all combinations. -/
def combinations (tables : Tables) : List Origin → Option (List Bindings)
  | [] => some [[]]
  | .table source :: rest => do
    let records ← tables.get? source.table
    let others ← combinations tables rest
    return records.flatMap fun record => others.map ((source.name, record) :: ·)
  | .single value column name :: rest => do
    let value ← value.eval tables [] []
    return (← combinations tables rest).map ((name, [(column, value)]) :: ·)

namespace Query

/-- A row of values for a row of terms. -/
def record? (tables : Tables) (scope : List Bindings)
    (row : List (String × Term)) : Option Record :=
  row.mapM fun entry => (entry.1, ·) <$> entry.2.eval tables scope []

/-- The tables with other rows in one of them, if no two have the same key. -/
def store? (tables : Tables) (table : String) (records : List Record) : Option Tables :=
  if records.Pairwise fun record other =>
      record.conflicts (Tables.keyColumns table) other = false then
    some (tables.set table records)
  else none

/-- The tables after a query, unless it fails. -/
def run (tables : Tables) : Query → Option Tables
  | .createTable _ _ => some tables
  | .insert replacing table row => do
    let records ← tables.get? table
    let record ← record? tables [] row
    let clashes := record.conflicts (Tables.keyColumns table)
    if replacing then return tables.set table (records.filter (!clashes ·) ++ [record])
    else if records.any clashes then none
    else return tables.set table (records ++ [record])
  | .insertSelected table row origins condition => do
    let records ← tables.get? table
    let selected ← keep (fun bindings => do (← condition.eval tables [bindings] []).holds?)
      (← combinations tables origins)
    store? tables table (records ++ (← selected.mapM fun bindings => record? tables [bindings] row))
  | .update table column value condition => do
    let records ← tables.get? table
    store? tables table <| ← records.mapM fun record => do
      let scope := [[(table, record)]]
      if ← (← condition.eval tables scope []).holds? then
        return record.replaced column (← value.eval tables scope [])
      else return record
  | .delete table condition => do
    let records ← tables.get? table
    let kept ← records |> keep fun record => do
      return !(← (← condition.eval tables [[(table, record)]] []).holds?)
    return tables.set table kept

end Query

/-- Carry out a command on the tables of the catalog. -/
def Command.perform (command : Command) : StateT Tables (Except Error) Unit := fun tables =>
  match command.query.run tables with
  | some after => .ok ((), after)
  | none => .error (.storage ⟨none, "query failed"⟩)

end SqlBridge
