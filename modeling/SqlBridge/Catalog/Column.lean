/-
The description of a column that the catalog keeps.

* `Column.ofDefinition` describes a definition, given the facts about its table.
* Character set and collation are known together, and so are the lengths in characters and octets.
* Lengths are 64-bit integers.  A column has no description if the product of its length and the
  octets per character is none.
-/
import SqlBridge.Catalog.TableFacts
import SqlBridge.Catalog.TypeName

namespace SqlBridge

/-- The character set and the collation of a column. -/
structure Encoding where
  charset : String
  collation : String
deriving DecidableEq, Repr

/-- The greatest length of a column's values. -/
structure Extent where
  characters : Int64
  octets : Int64
deriving DecidableEq, Repr

/-- The number of digits of a column's values. -/
structure Digits where
  precision : Int64
  scale : Option Int64
deriving DecidableEq, Repr

structure Column where
  name : String
  defaultText : Option String
  nullable : Bool
  dataType : TypeName
  columnType : String
  extent : Option Extent
  digits : Option Digits
  datetimePrecision : Option Int64
  encoding : Option Encoding
  key : ColumnKey
  extra : String
  comment : String
  generationExpression : String
deriving DecidableEq, Repr

namespace Column

/-- The first attribute of a field that a keyword leads. -/
def fieldAttribute? (field : Tree) (keyword : Keyword) : Option Tree :=
  (field.childrenBy .columnAttribute).find? fun entry =>
    entry.firstToken?.any (·.isKeyword keyword)

/-! ### Types -/

def fieldLength? (dataType : Tree) : Option Int64 :=
  (dataType.child? .fieldLength).bind Tree.number?

/-- The two numbers of a precision. -/
def precisionPair? (dataType : Tree) : Option (Int64 × Int64) := do
  let precision ← dataType.child? .precision
  let numbers := (precision.childTokens.filter (·.kind.isNumber)).filterMap fun token =>
    Text.toInt64? token.value
  match numbers with
  | first :: second :: _ => some (first, second)
  | _ => none

def hasFieldOption (dataType : Tree) (keyword : Keyword) : Bool :=
  (dataType.child? .fieldOptions).any (·.hasKeyword keyword)

def fraction? (dataType : Tree) : Option Int64 :=
  (dataType.child? .typeDatetimePrecision).bind Tree.number?

/-- The members of an enumeration or a set. -/
def members (dataType : Tree) : List String :=
  match dataType.child? .stringList with
  | some list => (list.childrenBy .textStringLiteral).map Tree.text
  | none => []

def isUnsigned (dataType : Tree) : Bool :=
  hasFieldOption dataType .UNSIGNED || dataType.hasKeyword .SERIAL

/-- The members of a type in parentheses. -/
def memberList (dataType : Tree) : String :=
  if dataType.hasChild .stringList then
    "(" ++ String.intercalate "," ((members dataType).map (Text.quoted '\'')) ++ ")"
  else ""

/-- The length of a type in parentheses; a length of an inexact or decimal number has a scale. -/
def lengthText (dataType : Tree) (type : TypeName) : String :=
  match fieldLength? dataType with
  | some length =>
    match type with
    | .decimal | .float | .double => s!"({length},0)"
    | _ => s!"({length})"
  | none => ""

def precisionText (dataType : Tree) : String :=
  match precisionPair? dataType with
  | some (precision, scale) => s!"({precision},{scale})"
  | none => ""

def fractionText (dataType : Tree) : String :=
  match fraction? dataType with
  | some fraction => s!"({fraction})"
  | none => ""

/-- The length of a type that declares none. -/
def impliedLength (dataType : Tree) (type : TypeName) : String :=
  if (fieldLength? dataType).isSome || (precisionPair? dataType).isSome then "" else
    match type with
    | .decimal => "(10,0)"
    | .char | .bit | .binary => "(1)"
    | _ => ""

/-- A type in full, such as `bigint(20) unsigned` or `enum('a','b')`. -/
def fullType (dataType : Tree) (type : TypeName) : String :=
  type.name ++ memberList dataType ++ lengthText dataType type ++ precisionText dataType ++
    fractionText dataType ++
    (if dataType.hasKeyword .BOOL || dataType.hasKeyword .BOOLEAN then "(1)" else "") ++
    impliedLength dataType type ++
    (if isUnsigned dataType then " unsigned" else "") ++
    (if hasFieldOption dataType .ZEROFILL then " zerofill" else "")

/-! ### Character sets -/

/-- The character set that a data type names. -/
def namedCharset? (dataType : Tree) : Option String := do
  let clause ← dataType.child? .charsetWithOptBinary
  match clause.child? .charsetName with
  | some name => some (Text.lowercase name.text)
  | none =>
    if clause.hasKeyword .ASCII then some "latin1"
    else if clause.hasKeyword .UNICODE then some "ucs2"
    else none

def isBinaryCharset (dataType : Tree) : Bool :=
  (dataType.child? .charsetWithOptBinary).any (·.hasKeyword .BINARY)

def namedCollation? (field : Tree) : Option String := do
  let collate ← fieldAttribute? field .COLLATE
  let name ← collate.child? .collationName
  return Text.lowercase name.text

/-- Whether a data type asks for the national character set. -/
def isNational (dataType : Tree) : Bool :=
  match dataType.childKeywords.head? with
  | some .NATIONAL | some .NCHAR | some .NVARCHAR => true
  | _ => false

/-- The character set that the name of a collation begins with. -/
def charsetOfCollation (collation : String) : String :=
  String.ofList (collation.toList.takeWhile (· != '_'))

/-- The collation of a character set unless another is named. -/
def collationOfCharset (charset : String) (binary : Bool) : String :=
  charset ++ if binary then "_bin" else "_general_ci"

/-- The character set and collation of a column: its own, else those of its table, else the
defaults; of a set and a collation one decides the other. -/
def encodingOf (dataType field : Tree) (facts : TableFacts) : Encoding :=
  let own := (namedCharset? dataType, namedCollation? field)
  let chosen := match own with
    | (none, none) =>
      if isNational dataType then (some "utf8", none) else (facts.charset, facts.collation)
    | _ => own
  match chosen with
  | (some charset, some collation) => ⟨charset, collation⟩
  | (some charset, none) => ⟨charset, collationOfCharset charset (isBinaryCharset dataType)⟩
  | (none, some collation) => ⟨charsetOfCollation collation, collation⟩
  | (none, none) => ⟨defaultCharset, defaultCollation⟩

/-- The character set and collation of a column, if it holds characters. -/
def encodingOf? (dataType field : Tree) (type : TypeName) (facts : TableFacts) : Option Encoding :=
  if type.isCharacter then some (encodingOf dataType field facts) else none

/-- The most octets that a character takes in a character set. -/
def octetsPerCharacter : Option String → Int64
  | some "utf8mb4" => 4
  | some "utf8" | some "utf8mb3" => 3
  | some "ucs2" => 2
  | _ => 1

/-! ### Numbers -/

def longestMember (dataType : Tree) : Nat := ((members dataType).map String.length).foldl max 0

/-- The lengths of values of so many characters, if the octets are a 64-bit integer too. -/
def extentInOctets (characters : Int64) (charset : Option String) : Except Error Extent :=
  let octets := characters * octetsPerCharacter charset
  if octets.toInt = characters.toInt * (octetsPerCharacter charset).toInt then
    .ok ⟨characters, octets⟩
  else .error .overflow

/-- The lengths of a type that has them. -/
def extentOf (dataType : Tree) (type : TypeName) (charset : Option String) :
    Except Error (Option Extent) :=
  match type with
  | .tinytext | .tinyblob => return some ⟨255, 255⟩
  | .text | .blob => return some ⟨65535, 65535⟩
  | .mediumtext | .mediumblob => return some ⟨16777215, 16777215⟩
  | .longtext | .longblob => return some ⟨4294967295, 4294967295⟩
  | .char | .varchar => some <$> extentInOctets ((fieldLength? dataType).getD 1) charset
  | .binary | .varbinary =>
    let length := (fieldLength? dataType).getD 1
    return some ⟨length, length⟩
  | .enum | .set => some <$> extentInOctets (Int64.ofNat (longestMember dataType)) charset
  | _ => return none

/-- The digits of a type that may declare a precision and a scale. -/
def declaredDigits (dataType : Tree) (precision : Int64) (scale : Option Int64) : Digits :=
  match precisionPair? dataType with
  | some (precision, scale) => ⟨precision, some scale⟩
  | none => ⟨(fieldLength? dataType).getD precision, scale⟩

def digitsOf (dataType : Tree) (type : TypeName) : Option Digits :=
  match type with
  | .tinyint => some ⟨3, some 0⟩
  | .smallint => some ⟨5, some 0⟩
  | .mediumint => some ⟨7, some 0⟩
  | .int => some ⟨10, some 0⟩
  | .bigint => some ⟨if isUnsigned dataType then 20 else 19, some 0⟩
  | .bit => some ⟨(fieldLength? dataType).getD 1, none⟩
  | .float => some (declaredDigits dataType 12 none)
  | .double => some (declaredDigits dataType 22 none)
  | .decimal => some (declaredDigits dataType 10 (some 0))
  | _ => none

def datetimePrecisionOf (dataType : Tree) (type : TypeName) : Option Int64 :=
  match type with
  | .time | .datetime | .timestamp => some ((fraction? dataType).getD 0)
  | _ => none

/-! ### Defaults and generated values -/

/-- Tokens as they were written, with a space between two of them unless a parenthesis or a comma
makes it needless. -/
def joinTokens : (previous : Option String) → List String → String
  | _, [] => ""
  | previous, token :: rest =>
    let joined := previous.all (· == "(") || token == "(" || token == ")" || token == ","
    (if joined then "" else " ") ++ token ++ joinTokens (some token) rest

/-- The text of an expression, roughly as written. -/
def sourceText (tree : Tree) : String := joinTokens none (tree.tokens.map Token.value)

/-- The text inside the parentheses of an expression. -/
def innerSourceText (tree : Tree) : String := (tree.firstNode?.map sourceText).getD ""

/-- The value after `DEFAULT`. -/
def defaultValue? (field : Tree) : Option Tree :=
  (fieldAttribute? field .DEFAULT).bind Tree.firstNode?

/-- A function for the present time, as the catalog names it. -/
def nowText (call : Tree) : String :=
  match call.firstKeyword? with
  | some .CURRENT_DATE => "curdate()"
  | some .CURRENT_TIME => "curtime()"
  | some .UTC_TIMESTAMP => "utc_timestamp()"
  | _ =>
    match (call.child? .udfExprList).bind (·.nearestToken? .integer) with
    | some precision => "CURRENT_TIMESTAMP(" ++ precision.value ++ ")"
    | none => "CURRENT_TIMESTAMP"

def defaultTextOf (field : Tree) : Option String := do
  let value ← defaultValue? field
  if value.hasRule .runtimeFunctionCall then some (nowText value)
  else if value.hasRule .exprWithParentheses then some (innerSourceText value)
  else if (value.nearestNode? .nullLiteral).isSome then none
  else match value.nearestNode? .boolLiteral with
    | some boolean => some (if boolean.hasKeyword .TRUE then "1" else "0")
    | none => some value.text

/-- Whether the default is computed when a row is inserted. -/
def hasComputedDefault (field : Tree) : Bool :=
  (defaultValue? field).any fun value =>
    value.hasRule .runtimeFunctionCall || value.hasRule .exprWithParentheses

/-- The text of the expression that a column is generated by. -/
def generationOf (field : Tree) : String :=
  (((field.child? .generatedColumn).bind (·.child? .exprWithParentheses)).map
    innerSourceText).getD ""

def commentOf (field : Tree) : String :=
  (((fieldAttribute? field .COMMENT).bind (·.child? .textStringLiteral)).map Tree.text).getD ""

def extraOf (field : Tree) (serial : Bool) : String :=
  if serial || (fieldAttribute? field .AUTO_INCREMENT).isSome then "auto_increment"
  else match field.child? .generatedColumn with
    | some generated =>
      if generated.hasKeyword .STORED then "STORED GENERATED" else "VIRTUAL GENERATED"
    | none =>
      match hasComputedDefault field, (fieldAttribute? field .ON).isSome with
      | true, true => "DEFAULT_GENERATED on update CURRENT_TIMESTAMP"
      | true, false => "DEFAULT_GENERATED"
      | false, true => "on update CURRENT_TIMESTAMP"
      | false, false => ""

/-! ### Keys -/

/-- The key that an attribute of the column gives it. -/
def keyOfEntry (entry : Tree) : ColumnKey :=
  match entry.firstKeyword? with
  | some .PRIMARY | some .KEY => .primary
  | some .UNIQUE => .unique
  | _ => .none

def ownKey (field : Tree) : ColumnKey :=
  ColumnKey.joinAll ((field.childrenBy .columnAttribute).map keyOfEntry)

/-! ### Columns -/

/-- The description of a column of a type, with the parts of its definition at hand. -/
def describe (name : String) (field dataType : Tree) (type : TypeName) (extent : Option Extent)
    (facts : TableFacts) : Column :=
  let serial := dataType.hasKeyword .SERIAL
  let own := ownKey field
  { name
    defaultText := defaultTextOf field
    nullable := !((fieldAttribute? field .NOT).isSome || serial || own == .primary ||
      facts.isPrimaryKey name)
    dataType := type
    columnType := fullType dataType type
    extent
    digits := digitsOf dataType type
    datetimePrecision := datetimePrecisionOf dataType type
    encoding := encodingOf? dataType field type facts
    key := (own.join (if serial then .unique else .none)).join (facts.key name)
    extra := extraOf field serial
    comment := commentOf field
    generationExpression := generationOf field }

/-- The description of a definition of a column. -/
def ofDefinition (definition : Tree) (facts : TableFacts) : Except Error Column :=
  match definition.child? .identifier, definition.child? .fieldDefinition with
  | none, _ => .error (.malformed (.lacks "column definition" "a name"))
  | some _, none => .error (.malformed (.lacks "column definition" "a type"))
  | some name, some field =>
    match field.child? .dataType with
    | none => .error (.malformed (.lacks "column definition" "a type"))
    | some dataType => do
      let type ← TypeName.ofDataType dataType
      let extent ← extentOf dataType type
        ((encodingOf? dataType field type facts).map Encoding.charset)
      return describe name.nameText field dataType type extent facts

end Column

end SqlBridge
