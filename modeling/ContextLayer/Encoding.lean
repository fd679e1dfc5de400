import ContextLayer.Lib.Dict
import ContextLayer.PyValues

/-!
# The encoding of a result

A result carries JSON alone. `json_value` makes JSON of what the driver of a source returned: what JSON has no exact
number for becomes a text, and so does every key of a dictionary.
-/

namespace ContextLayer.Encoding

open Text PyValues

/-- A value that is no container. -/
inductive Scalar where
  | null
  | text (s : PyStr)
  | bool (b : Bool)
  | int (n : Int)
  | float (f : PyFloat)
  | nonFinite (f : NonFinite)
  | decimal (d : Decimal)
  | special (d : SpecialDecimal)
  | datetime (t : DateTime)
  | date (d : Date)
  | time (t : Time)
  | uuid (id : BitVec 128)
  | bytes (bytes : List UInt8)
  /-- Any other object, by its `str`. -/
  | other (s : PyStr)

/-- A value as the driver of a source has it. -/
inductive SourceValue where
  | scalar (v : Scalar)
  | dict (members : List (Scalar × SourceValue))
  | list (items : List SourceValue)
  | tuple (items : List SourceValue)

/-- `JSON_SAFE_INT_MAX`. -/
def JSON_SAFE_INT_MAX : Int := 2 ^ 53 - 1

/-- `sys.int_info.default_max_str_digits`. -/
def maxStrDigits : Nat := 4300

/-- `str(n)`; `none` is a `ValueError`. -/
def strInt (n : Int) : Option PyStr :=
  if (PyText.natText n.natAbs).length ≤ maxStrDigits then some (Frontmatter.intText n) else none

/-- `str(value)`; `none` is a `ValueError`. -/
def Scalar.str : Scalar → Option PyStr
  | .null => some (py "None")
  | .text s => some s
  | .bool b => some (py (if b then "True" else "False"))
  | .int n => strInt n
  | .float f => some (f.text.text.map .unit)
  | .nonFinite f => some (PyText.nonFiniteRepr f)
  | .decimal d => some d.str
  | .special d => some d.str
  | .datetime t => some t.str
  | .date d => some d.isoformat
  | .time t => some t.isoformat
  | .uuid id => some (uuidText id)
  | .bytes content => some (reprBytes content)
  | .other s => some s

/-- `json_value`, of what is no container; `none` is a `ValueError`. -/
def Scalar.jsonValue : Scalar → Option PyJson
  | .null => some .null
  | .text s => some (.str s)
  | .bool b => some (.bool b)
  | .int n => if |n| ≤ JSON_SAFE_INT_MAX then some (.number (.int n)) else (strInt n).map .str
  | .float f => some (.number (.float f))
  | .nonFinite f => some (.str (PyText.nonFiniteRepr f))
  | .decimal d => some (.str d.str)
  | .special d => some (.str d.str)
  | .datetime t => some (.str t.isoformat)
  | .date d => some (.str d.isoformat)
  | .time t => some (.str t.isoformat)
  | .uuid id => some (.str (uuidText id))
  | .bytes content => some (.str (b64encode content))
  | .other s => some (.str s)

mutual

/-- `json_value`; `none` is a `ValueError`. -/
def jsonValue : SourceValue → Option PyJson
  | .scalar v => v.jsonValue
  | .dict members => (jsonMembers members).map fun members => .obj (Dict.ofList members)
  | .list items => (jsonItems items).map .arr
  | .tuple items => (jsonItems items).map .arr

def jsonItems : List SourceValue → Option (List PyJson)
  | [] => some []
  | v :: rest => do
      let value ← jsonValue v
      let values ← jsonItems rest
      pure (value :: values)

def jsonMembers : List (Scalar × SourceValue) → Option (List (PyStr × PyJson))
  | [] => some []
  | (k, v) :: rest => do
      let key ← k.str
      let value ← jsonValue v
      let members ← jsonMembers rest
      pure ((key, value) :: members)

end

/-- `json_row`. -/
def jsonRow (row : List SourceValue) : Option (List PyJson) := jsonItems row

/-! ### What an encoded value promises -/

mutual

/-- The value of a driver that is this JSON already. -/
def ofJson : PyJson → SourceValue
  | .null => .scalar .null
  | .bool b => .scalar (.bool b)
  | .number (.int n) => .scalar (.int n)
  | .number (.float f) => .scalar (.float f)
  | .nonFinite f => .scalar (.nonFinite f)
  | .str s => .scalar (.text s)
  | .arr items => .list (ofJsonItems items)
  | .obj members => .dict (ofJsonMembers members)

def ofJsonItems : List PyJson → List SourceValue
  | [] => []
  | v :: rest => ofJson v :: ofJsonItems rest

def ofJsonMembers : List (PyStr × PyJson) → List (Scalar × SourceValue)
  | [] => []
  | (k, v) :: rest => (.text k, ofJson v) :: ofJsonMembers rest

end

mutual

/-- No number that is not finite, and no integer that a double cannot hold. -/
def IsStrict : PyJson → Prop
  | .number (.int n) => |n| ≤ JSON_SAFE_INT_MAX
  | .nonFinite _ => False
  | .arr items => AreStrict items
  | .obj members => StrictMembers members
  | _ => True

def AreStrict : List PyJson → Prop
  | [] => True
  | v :: rest => IsStrict v ∧ AreStrict rest

def StrictMembers : List (PyStr × PyJson) → Prop
  | [] => True
  | (_, v) :: rest => IsStrict v ∧ StrictMembers rest

end

mutual

/-- Every list has its length and every dictionary its number of entries, at every level. -/
def KeepsCounts : SourceValue → PyJson → Prop
  | .scalar _, .arr _ => False
  | .scalar _, .obj _ => False
  | .scalar _, _ => True
  | .dict members, .obj encoded => encoded.length = members.length ∧ KeepsEntries members encoded
  | .list items, .arr encoded => KeepsItems items encoded
  | .tuple items, .arr encoded => KeepsItems items encoded
  | _, _ => False

def KeepsItems : List SourceValue → List PyJson → Prop
  | [], [] => True
  | v :: rest, value :: values => KeepsCounts v value ∧ KeepsItems rest values
  | _, _ => False

/-- Each entry is there under the text of its key. -/
def KeepsEntries : List (Scalar × SourceValue) → List (PyStr × PyJson) → Prop
  | [], _ => True
  | (k, v) :: rest, encoded =>
      (∃ key value, k.str = some key ∧ Dict.get? encoded key = some value ∧ KeepsCounts v value) ∧
        KeepsEntries rest encoded

end

/-- The value is encoded: as strict JSON that is encoded as itself, with every entry. -/
def IsKept (v : SourceValue) : Prop :=
  ∃ encoded, jsonValue v = some encoded ∧ IsStrict encoded ∧ jsonValue (ofJson encoded) = some encoded ∧
    KeepsCounts v encoded

/-! ### Where it keeps the promise -/

/-- Not an integer that is too long for `str`. -/
def Scalar.IsShort : Scalar → Prop
  | .int n => (PyText.natText n.natAbs).length ≤ maxStrDigits
  | _ => True

mutual

/-- No integer, value or key, is too long for `str`, and the keys of a dictionary differ in their texts. -/
def IsTellable : SourceValue → Prop
  | .scalar v => v.IsShort
  | .dict members => (members.map fun m => m.1.str).Nodup ∧ TellableMembers members
  | .list items => AreTellable items
  | .tuple items => AreTellable items

def AreTellable : List SourceValue → Prop
  | [] => True
  | v :: rest => IsTellable v ∧ AreTellable rest

def TellableMembers : List (Scalar × SourceValue) → Prop
  | [] => True
  | (k, v) :: rest => k.IsShort ∧ IsTellable v ∧ TellableMembers rest

end

end ContextLayer.Encoding
