import ContextLayer.PyJson

/-!
# Front matter

A document starts with a YAML block between two fences. What is not such a block, or no mapping, is body.
-/

namespace ContextLayer.Frontmatter

open Text

abbrev Members := List (PyStr × PyJson)

/-- `text.find(needle)`. -/
def find? (needle : PyStr) : PyStr → Option Nat
  | [] => if needle = [] then some 0 else none
  | p :: text => if needle <+: p :: text then some 0 else (find? needle text).map (· + 1)

/-- `FENCE`. -/
def fence : PyStr := py "---\n"

/-- `split`: the front matter and the body. `yaml` is `safe_load`, with dates as strings and `none` for a
`YAMLError`. -/
def split (yaml : PyStr → Option PyJson) (text : PyStr) : Option Members × PyStr :=
  if fence <+: text then
    match find? (py "\n---\n") (text.drop 3) with
    | none => (none, text)
    | some i =>
        match yaml ((text.drop 4).take i) with
        | some (.obj members) => (some members, text.drop (i + 8))
        | _ => (none, text)
  else (none, text)

/-! ### Values -/

/-- `value.get(key)`. -/
def get (members : Members) (key : String) : Option PyJson := Dict.get? members (py key)

end ContextLayer.Frontmatter

namespace ContextLayer.PyJson

open Text

/-- `bool(value)`. -/
def truthy : PyJson → Bool
  | .null => false
  | .bool b => b
  | .number n => n.value != 0
  | .nonFinite _ => true
  | .str s => s != []
  | .arr items => !items.isEmpty
  | .obj members => !members.isEmpty

/-- `iter(value)`; `none` is a `TypeError`. -/
def iterate : PyJson → Option (List PyJson)
  | .str s => some (s.map fun p => .str [p])
  | .arr items => some items
  | .obj members => some (members.map fun m => .str m.1)
  | _ => none

/-- `iter(value or [])`. -/
def iterateOr (value : Option PyJson) : Option (List PyJson) :=
  match value with
  | none => some []
  | some v => if v.truthy then v.iterate else some []

/-- The value, if it is a `str`. -/
def asStr : PyJson → Option PyStr
  | .str s => some s
  | _ => none

end ContextLayer.PyJson
