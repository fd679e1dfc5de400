import ContextLayer.Valsql

/-!
# What the Data API reads

The dimension and metric names a GA4 `runReport` body carries. The body is forwarded as it is, so
these are the names a validation has to account for: the entries of the two arrays, the names in
their expressions, and the field names inside the filters and orderings, however deep.
-/

namespace ContextLayer.DataApi

open Text

inductive FieldKind where
  | dimension
  | metric
  deriving DecidableEq

def FieldKind.text : FieldKind → Text
  | .dimension => js "dimension"
  | .metric => js "metric"

/-- The kind of the snapshot objects that document such a field. -/
def FieldKind.objectKind (kind : FieldKind) : Text := js "api_" ++ kind.text

/-- A name, and what it is read as. -/
structure Field where
  kind : FieldKind
  name : Text
  deriving DecidableEq

/-! ### Names at any depth -/

/-- A string, or the strings of an array. -/
def strings : Json → List Text
  | .str s => [s]
  | .arr items => items.filterMap Json.asString
  | _ => []

mutual

/-- The names under the keys that hold one, at any depth. -/
def deepFields (kindOf : Text → Option FieldKind) : Json → List Field
  | .arr items => deepItems kindOf items
  | .obj members => deepMembers kindOf members
  | _ => []

def deepItems (kindOf : Text → Option FieldKind) : List Json → List Field
  | [] => []
  | v :: rest => deepFields kindOf v ++ deepItems kindOf rest

def deepMembers (kindOf : Text → Option FieldKind) : List (Text × Json) → List Field
  | [] => []
  | (k, v) :: rest =>
      (match kindOf k with
        | some kind => (strings v).map (Field.mk kind)
        | none => []) ++ deepFields kindOf v ++ deepMembers kindOf rest

end

/-- The keys that hold a name, `fieldName` being one of `kind`. -/
def nameKey (kind : FieldKind) (key : Text) : Option FieldKind :=
  if key = js "fieldName" then some kind
  else if key = js "dimensionName" ∨ key = js "dimensionNames" then some .dimension
  else if key = js "metricName" then some .metric
  else none

/-! ### Metric expressions -/

/-- An operator, a parenthesis or a space between the names of an expression. -/
def isSeparator (u : UInt16) : Bool :=
  u == 0x2B || u == 0x2D || u == 0x2A || u == 0x2F || u == 0x28 || u == 0x29 || u == 0x20

/-- A constant rather than a name. -/
def isConstant (token : Text) : Bool :=
  match token with
  | [] => true
  | u :: _ => (0x30 ≤ u && u ≤ 0x39) || u == 0x2E

/-- The metric names of an expression. -/
def expressionNames (expression : Text) : List Text :=
  (expression.splitOnP isSeparator).filter fun token => !isConstant token

/-! ### The body -/

/-- `value.key` of every entry of an array. -/
def entryFields (value : Option Json) (key : String) : List Json :=
  match value with
  | some (.arr items) => items.filterMap fun item => item.field key
  | _ => []

/-- The names of the entries of `dimensions` and `metrics`. -/
def entries (body : Json) : List Field :=
  (identifierNames (body.field "dimensions")).map (Field.mk .dimension) ++
    (identifierNames (body.field "metrics")).map (Field.mk .metric)

/-- The names read anywhere else. -/
def otherNames (body : Json) : List Field :=
  (entryFields (body.field "dimensions") "dimensionExpression").flatMap
      (deepFields (nameKey .dimension)) ++
    ((entryFields (body.field "metrics") "expression").flatMap strings).flatMap
      (fun expression => (expressionNames expression).map (Field.mk .metric)) ++
    (body.field "dimensionFilter").toList.flatMap (deepFields (nameKey .dimension)) ++
    (body.field "metricFilter").toList.flatMap (deepFields (nameKey .metric)) ++
    (body.field "orderBys").toList.flatMap (deepFields (nameKey .dimension))

/-- Every dimension and metric name the body carries. -/
def readNames (body : Json) : List Field := entries body ++ otherNames body

end ContextLayer.DataApi
