import ContextLayer.Encoding
import ContextLayer.References

/-!
# The tables of a delivery

The results of an artifact's queries become the tables of a push model: `_plan_tables` gives each column a type of
the model by the name of its type in the source, and `_encode_row` makes an object of a row, each cell converted to the
type of its column.
-/

namespace ContextLayer.PushTables

open Text Frontmatter Partition

/-! ### Numbers in texts -/

/-- `unicodedata.decimal`. -/
structure Decimals where
  value : CodePoint → Option (Fin 10)
  value_ascii : ∀ u : UInt16, u < 0x80 → value (.unit u) =
    if 0x30 ≤ u ∧ u ≤ 0x39 then some (Fin.ofNat 10 (u.toNat - 0x30)) else none

/-- The digits of ASCII. -/
def asciiDecimals : Decimals where
  value := fun p => match p with
    | .unit u => if 0x30 ≤ u ∧ u ≤ 0x39 then some (Fin.ofNat 10 (u.toNat - 0x30)) else none
    | .pair _ _ _ _ => none
  value_ascii := fun _ _ => rfl

section Reading

variable (decimals : Decimals)

def isDigit (p : CodePoint) : Bool := (decimals.value p).isSome

/-- An underscore between two digits only groups them. -/
def ungroup : Bool → PyStr → PyStr
  | _, [] => []
  | afterDigit, p :: rest =>
      if p = .unit 0x5F ∧ afterDigit = true ∧ rest.head?.any (isDigit decimals) = true then ungroup false rest
      else p :: ungroup (isDigit decimals p) rest

/-- The text that `int` and `float` read. -/
def numeral (s : PyStr) : PyStr := ungroup decimals false (strip Sdk.isSpace s)

/-- The sign, and what is behind it. -/
def signed : PyStr → Bool × PyStr
  | p :: rest =>
      if p = .unit 0x2D then (true, rest) else if p = .unit 0x2B then (false, rest) else (false, p :: rest)
  | [] => (false, [])

/-- The number of a run of digits; `none` where one is no digit. -/
def natural (s : PyStr) : Option Nat :=
  (s.mapM decimals.value).map fun digits => Nat.ofDigits 10 (digits.reverse.map Fin.val)

/-- `int(s)`; `none` is a `ValueError`. -/
def intOf (s : PyStr) : Option Int :=
  let (negative, digits) := signed (numeral decimals s)
  if digits = [] ∨ Encoding.maxStrDigits < digits.length then none
  else (natural decimals digits).map fun (n : Nat) => if negative then -(n : Int) else n

/-- What a text says to `float`. -/
inductive FloatText where
  | number (q : ℚ)
  | nonFinite (f : NonFinite)

/-- `s.lower()`, of ASCII letters. -/
def lowerAscii (s : PyStr) : PyStr :=
  s.map fun
    | .unit u => if 0x41 ≤ u ∧ u ≤ 0x5A then .unit (u + 0x20) else .unit u
    | p => p

/-- `e` and a signed run of digits, or nothing. -/
def exponent : PyStr → Option Int
  | [] => some 0
  | p :: rest =>
      if p = .unit 0x65 ∨ p = .unit 0x45 then
        let (negative, digits) := signed rest
        if digits = [] then none
        else (natural decimals digits).map fun (n : Nat) => if negative then -(n : Int) else n
      else none

/-- A decimal without its sign. -/
def decimalOf (s : PyStr) : Option ℚ := do
  let whole := s.takeWhile (isDigit decimals)
  let rest := s.dropWhile (isDigit decimals)
  let (fraction, rest) := if rest.head? = some (.unit 0x2E) then
      (rest.tail.takeWhile (isDigit decimals), rest.tail.dropWhile (isDigit decimals))
    else ([], rest)
  let power ← exponent decimals rest
  let digits ← natural decimals (whole ++ fraction)
  if whole ++ fraction = [] then none else some ((digits : ℚ) * 10 ^ (power - fraction.length))

/-- The number in a text that `float` takes; `none` is a `ValueError`. -/
def floatText (s : PyStr) : Option FloatText :=
  let (negative, body) := signed (numeral decimals s)
  if lowerAscii body = py "nan" then some (.nonFinite .nan)
  else if lowerAscii body = py "inf" ∨ lowerAscii body = py "infinity" then
    some (.nonFinite (if negative then .negInfinity else .infinity))
  else (decimalOf decimals body).map fun q => .number (if negative then -q else q)

end Reading

/-- From here on what is nearest to a number is no longer a double. -/
def doubleLimit : ℚ := 2 ^ 1024 - 2 ^ 970

/-! ### `qe5_to_pbi_type` -/

/-- The data types of the push API. -/
inductive PbiType where
  | int64
  | double
  | boolean
  | dateTime
  | string
  deriving DecidableEq

/-- `_INT_TYPES`. -/
def intTypes : List PyStr := [py "int2", py "int4", py "int8", py "smallint", py "integer", py "bigint"]

/-- `_FLOAT_TYPES`. -/
def floatTypes : List PyStr := [py "float4", py "float8", py "real", py "double precision"]

/-- `_NUMERIC_TYPES`. -/
def numericTypes : List PyStr := [py "numeric", py "decimal"]

/-- `_BOOL_TYPES`. -/
def boolTypes : List PyStr := [py "bool", py "boolean"]

/-- `_TEMPORAL_TYPES`. -/
def temporalTypes : List PyStr :=
  [py "date", py "timestamp", py "timestamptz", py "timestamp with time zone", py "timestamp without time zone",
    py "datetime"]

/-- `qe5_to_pbi_type`, by what `lower` makes of the text. -/
def qe5ToPbiType (lower : PyStr → PyStr) (sourceType : PyStr) : PbiType × Option PyStr :=
  let lowered := strip Sdk.isSpace (lower sourceType)
  if lowered ∈ intTypes then (.int64, none)
  else if lowered ∈ floatTypes then (.double, none)
  else if lowered ∈ numericTypes then
    (.double, some (py "source " ++ sourceType ++
      py (" delivered as Double (the pinned Power BI type set has no Decimal); values beyond IEEE-754 float64 exact " ++
        "range lose precision — QE-5 kept the exact string, this model column does not")))
  else if lowered ∈ boolTypes then (.boolean, none)
  else if lowered ∈ temporalTypes then (.dateTime, none)
  else (.string, none)

/-! ### `_encode_row` -/

/-- A value of a row object. A float is told by its value. -/
inductive Encoded where
  | null
  | int (n : Int)
  | double (x : ℚ)
  | nonFinite (f : NonFinite)
  | bool (b : Bool)
  | text (s : PyStr)

/-- What JSON has a text for. -/
def Encoded.isStrict : Encoded → Bool
  | .nonFinite _ => false
  | _ => true

/-- The limits of `PUSH_LIMITS` that a plan is held to. -/
structure PushLimits where
  maxTables : Nat
  maxColumnsPerTable : Nat
  maxRowsPerTable : Nat
  maxStringValueChars : Nat

/-- `PUSH_LIMITS`. -/
def pushLimits : PushLimits where
  maxTables := 75
  maxColumnsPerTable := 75
  maxRowsPerTable := 5000000
  maxStringValueChars := 4000

section Plan

variable (unicode : Unicode) (decimals : Decimals) (lower : PyStr → PyStr)

/-- What `ensure_ascii` makes of a text. -/
def ensureAscii (s : PyStr) : PyStr :=
  s.flatMap fun
    | .pair high low _ _ => (unicodeEscape high ++ unicodeEscape low).map .unit
    | .unit u => if 0x7E < u then (unicodeEscape u).map .unit else [.unit u]

/-- The text of a cell: `str(value)`, and the JSON of a container. -/
def cellText (value : PyJson) : PyStr :=
  match value with
  | .arr _ | .obj _ => ensureAscii value.sortKeys.dumps
  | _ => PyText.str unicode value

/-- `int(value)`; `none` is an exception. -/
def intCell : PyJson → Option Int
  | .bool b => some (if b then 1 else 0)
  | .number n => some (if 0 ≤ n.value then ⌊n.value⌋ else ⌈n.value⌉)
  | .str s => intOf decimals s
  | _ => none

/-- `float` of a number; `none` is an `OverflowError`. -/
def doubleOf : PyNumber → Option ℚ
  | .int n => if |(n : ℚ)| < doubleLimit then some (nearestDouble n) else none
  | .float f => some (PyNumber.float f).value

/-- `float(value)`; `none` is an exception. -/
def floatCell : PyJson → Option Encoded
  | .bool b => some (.double (if b then 1 else 0))
  | .number n => (doubleOf n).map .double
  | .nonFinite f => some (.nonFinite f)
  | .str s => (floatText decimals s).map fun
      | .nonFinite f => .nonFinite f
      | .number q =>
          if |q| < doubleLimit then .double (nearestDouble q)
          else .nonFinite (if 0 < q then .infinity else .negInfinity)
  | _ => none

/-- The conversion of a cell that is not null; `none` is an exception. -/
def convertCell (type : PbiType) (value : PyJson) : Option Encoded :=
  match type with
  | .int64 => (intCell decimals value).map .int
  | .double => floatCell decimals value
  | .boolean => some (.bool value.truthy)
  | .dateTime => some (.text (PyText.str unicode value))
  | .string => some (.text (cellText unicode value))

/-- One round of the loop over the cells; `none` is an exception. -/
def encodeCell (limits : PushLimits) (type : PbiType) : PyJson → Option Encoded
  | .null => some .null
  | value => (convertCell unicode decimals type value).filter fun
      | .text s => decide (s.length ≤ limits.maxStringValueChars)
      | _ => true

/-- A column of a plan. -/
structure PlanColumn where
  name : PyStr
  dataType : PbiType

/-- `_encode_row`; `none` is an exception. -/
def encodeRow (limits : PushLimits) (columns : List PlanColumn) (row : PyJson) : Option (List (PyStr × Encoded)) :=
  match row with
  | .arr cells =>
      if cells.length ≠ columns.length then none
      else ((columns.zip cells).mapM fun (e : PlanColumn × PyJson) =>
        (encodeCell unicode decimals limits e.1.dataType e.2).map fun encoded => (e.1.name, encoded)).map Dict.ofList
  | _ => none

/-! ### `_plan_tables` -/

/-- A column in what is reported of the delivery. -/
structure ColumnMeta where
  name : PyStr
  type : PbiType
  sourceType : PyStr
  note : Option PyStr

structure TablePlan where
  name : PyStr
  columns : List PlanColumn
  rows : List (List (PyStr × Encoded))
  notes : List PyStr
  columnMeta : List ColumnMeta

/-- A text that is not empty; `none` is a `ConfigError`. -/
def nonEmptyName (members : Members) (key : String) : Option PyStr :=
  ((get members key).bind PyJson.asStr).filter fun s => decide (s ≠ [])

def planColumn (column : PyJson) : Option ColumnMeta :=
  match column with
  | .obj members => do
      let name ← nonEmptyName members "name"
      let sourceType := ((get members "type").bind PyJson.asStr).getD []
      let (type, note) := qe5ToPbiType lower sourceType
      pure ⟨name, type, sourceType, note⟩
  | _ => none

/-- `value is True`. -/
def isTrue : PyJson → Bool
  | .bool b => b
  | _ => false

/-- The columns and the rows of a result, where they are lists. -/
def resultTable (result : Members) : Option (List PyJson × List PyJson) :=
  match get result "columns", get result "rows" with
  | some (.arr columns), some (.arr rows) => some (columns, rows)
  | _, _ => none

def planTable (limits : PushLimits) (qname : PyStr) (result : Members) : Option TablePlan := do
  let (columns, rows) ← resultTable result
  if ((get result "truncated").any isTrue) = true ∨ columns = [] ∨ limits.maxColumnsPerTable < columns.length ∨
      limits.maxRowsPerTable < rows.length then none
  else do
    let described ← columns.mapM (planColumn lower)
    let planned := described.map fun column => PlanColumn.mk column.name column.type
    let encoded ← rows.mapM (encodeRow unicode decimals limits planned)
    pure {
      name := qname
      columns := planned
      rows := encoded
      notes := described.filterMap fun column => column.note.map fun note =>
        qname ++ py "." ++ column.name ++ py ": " ++ note
      columnMeta := described }

/-- The result of a query, by its name. -/
def resultOf (results : Members) (query : PyJson) : Option (PyStr × Members) :=
  match query with
  | .obj members => do
      let qname ← nonEmptyName members "name"
      match Dict.get? results qname with
      | some (.obj result) => some (qname, result)
      | _ => none
  | _ => none

/-- `_plan_tables`; `none` is an exception. -/
def planTables (limits : PushLimits) (artifact results : Members) : Option (List TablePlan) :=
  match get artifact "queries" with
  | some (.arr queries) =>
      if queries = [] ∨ limits.maxTables < queries.length then none
      else queries.mapM fun query => do
        let (qname, result) ← resultOf results query
        planTable unicode decimals lower limits qname result
  | _ => none

/-! ### What a table keeps -/

/-- A member of a row object holds a cell: exactly, as the nearest double, or as the text of the cell. -/
def Holds (type : PbiType) : PyJson → Encoded → Prop
  | .null, e => e = .null
  | .number k, .int n => k.value = n
  | .str s, .int n => intOf decimals s = some n
  | .number k, .double x => doubleOf k = some x
  | .str s, .double x => ∃ q, floatText decimals s = some (.number q) ∧ x = nearestDouble q
  | .str s, .nonFinite f => floatText decimals s = some (.nonFinite f)
  | .nonFinite f, .nonFinite f' => f = f'
  | .bool b, .bool b' => b = b'
  | value, .text s => s = if type = .string then cellText unicode value else PyText.str unicode value
  | _, _ => False

def columnsOf (result : Members) : List PyJson := ((resultTable result).map Prod.fst).getD []

def rowsOf (result : Members) : List PyJson := ((resultTable result).map Prod.snd).getD []

def columnName : PyJson → PyStr
  | .obj members => ((get members "name").bind PyJson.asStr).getD []
  | _ => []

def columnType : PyJson → PbiType
  | .obj members => (qe5ToPbiType lower (((get members "type").bind PyJson.asStr).getD [])).1
  | _ => .string

/-- A row object has a member for each column, and no other; each holds its cell and has a JSON text. -/
def RowKept (columns : List PlanColumn) (row : PyJson) (encoded : List (PyStr × Encoded)) : Prop :=
  ∃ cells, row = .arr cells ∧ encoded.map Prod.fst = columns.map PlanColumn.name ∧
    List.Forall₂ (fun (e : PlanColumn × PyJson) (m : PyStr × Encoded) =>
      Holds unicode decimals e.1.dataType e.2 m.2 ∧ m.2.isStrict = true) (columns.zip cells) encoded

/-- The planned table has the columns of the result, and keeps each of its cells. -/
structure Kept (result : Members) (plan : TablePlan) : Prop where
  columns : plan.columns.map PlanColumn.name = (columnsOf result).map columnName
  rows : List.Forall₂ (RowKept unicode decimals plan.columns) (rowsOf result) plan.rows

/-- A cell of a kind that the type of its column takes. -/
def Suits : PbiType → PyJson → Prop
  | _, .null => True
  | .int64, .number n => ∃ k : Int, n.value = k
  | .int64, .str _ => True
  | .double, .number _ => True
  | .double, .str s => ∃ q, floatText decimals s = some (.number q) ∧ |q| < doubleLimit
  | .boolean, .bool _ => True
  | .dateTime, _ => True
  | .string, _ => True
  | _, _ => False

/-- The columns of a result with rows have names of their own, and the cells suit them. -/
structure Deliverable (result : Members) : Prop where
  names : rowsOf result ≠ [] → ((columnsOf result).map columnName).Nodup
  cells : ∀ row ∈ rowsOf result, ∀ cells, row = .arr cells → ∀ e ∈ (columnsOf result).zip cells,
    Suits decimals (columnType lower e.1) e.2

def queriesOf (artifact : Members) : List PyJson :=
  match get artifact "queries" with
  | some (.arr queries) => queries
  | _ => []

end Plan

end ContextLayer.PushTables
