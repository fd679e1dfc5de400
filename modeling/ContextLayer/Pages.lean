import ContextLayer.Render
import ContextLayer.YamlScalars

/-!
# Front matter read back

What a loader of YAML 1.1 makes of an emitted block, entry by entry, and the values it gives back as they were.
-/

namespace ContextLayer.Frontmatter

open Text PyText YamlScalars Render

/-! ### Fields -/

/-- A name that is an identifier, short enough for a key, and no word YAML reads as something else. -/
def IsName (key : PyStr) : Prop :=
  isPlain key = true ∧ newline ∉ key ∧ key.length ≤ 1024 ∧ key ∉ nullWords ++ trueWords ++ falseWords

instance (key : PyStr) : Decidable (IsName key) := by
  unfold IsName
  infer_instance

/-- Fields as `_fields_fn` builds them: distinct names, `objects` for a roster. -/
structure Built (fields : Fields) : Prop where
  nonempty : fields ≠ []
  names : ∀ f ∈ fields, IsName f.1
  nodup : (fields.map Prod.fst).Nodup
  roster : ∀ f ∈ fields, f.1 = py "objects" ↔ ∃ roster, f.2 = .objects roster
  kinds : ∀ f ∈ fields, ∀ roster, f.2 = .objects roster → ∀ e ∈ roster, e.kind ∈ family .api

def rosterValue (e : RosterEntry) : PyJson :=
  .obj [(py "object", .str e.object), (py "kind", .str e.kind), (py "schema_hash", .str e.schemaHash)]

def FieldValue.toJson : FieldValue → PyJson
  | .null => .null
  | .bool b => .bool b
  | .int n => .number (.int n)
  | .text value => .str value
  | .objects roster => .arr (roster.map rosterValue)

/-- `dict(fields)`. -/
def membersOf (fields : Fields) : Members := fields.map fun f => (f.1, f.2.toJson)

/-! ### Reading -/

section

variable (unicode : Unicode)

def readEntry (e : RosterEntry) : Reading PyJson :=
  match readScalar (pyQuote e.object), readScalar (pyQuote e.schemaHash) with
  | .value object, .value schemaHash =>
      .value (.obj [(py "object", object), (py "kind", .str e.kind), (py "schema_hash", schemaHash)])
  | _, _ => .malformed

/-- What the line of a field says. An empty roster leaves a name without a value. -/
def readField (f : PyStr × FieldValue) : Reading (PyStr × PyJson) :=
  Reading.map (Prod.mk f.1) <|
    match f.2 with
    | .null => readPlain (py "null")
    | .bool b => readPlain (py (if b then "true" else "false"))
    | .int n => readPlain (intText n)
    | .text value => readScalar (scalar unicode value)
    | .objects roster =>
        if roster = [] then .value .null else (Reading.collect (roster.map readEntry)).map .arr

/-- A block is a mapping of its entries, if the reader takes every character of it. -/
def readBlock (fields : Fields) : Reading PyJson :=
  if (fields.flatMap (fieldLines unicode)).all isPrintable then
    (Reading.collect (fields.map (readField unicode))).map .obj
  else .malformed

/-- The loader reads the block of these fields as YAML 1.1 does. -/
def Reads (yaml : Yaml) (fields : Fields) : Prop :=
  let block := fields.flatMap (fieldLines unicode)
  match readBlock unicode fields with
  | .value v => yaml.load block = some v ∧ yaml.raises block = false
  | .malformed => yaml.load block = none ∧ yaml.raises block = false
  | .raises => yaml.raises block = true

/-! ### What survives -/

/-- A line or paragraph separator with a space beside it, which is folded away. -/
def Folds (c d : CodePoint) : Prop := (c = space ∧ isLineSeparator d = true) ∨ (isLineSeparator c = true ∧ d = space)

instance (c d : CodePoint) : Decidable (Folds c d) := by
  unfold Folds
  infer_instance

/-- A separator, `---` or `...`, and a space or separator: the end of a document. -/
def endsDocument (text : PyStr) : Bool :=
  text.head?.any isLineSeparator && (decide (py "---" <+: text.tail) || decide (py "..." <+: text.tail)) &&
    (text.drop 4).head?.any fun c => decide (c = space) || isLineSeparator c

/-- A string that is read back from quotes. -/
structure Quotable (s : PyStr) : Prop where
  printable : ∀ c ∈ s, CodePoint.unit 0x20 ≤ c → isPrintable c = true ∧ c ≠ nextLine
  unfolded : s.IsChain fun c d => ¬ Folds c d
  within : ∀ text ∈ s.tails, endsDocument text = false

instance (s : PyStr) : Decidable (Quotable s) :=
  decidable_of_iff ((∀ c ∈ s, CodePoint.unit 0x20 ≤ c → isPrintable c = true ∧ c ≠ nextLine) ∧
      (s.IsChain fun c d => ¬ Folds c d) ∧ ∀ text ∈ s.tails, endsDocument text = false)
    ⟨fun h => ⟨h.1, h.2.1, h.2.2⟩, fun h => ⟨h.printable, h.unfolded, h.within⟩⟩

/-- A string that is read back from a line: a plain one must be one, and a day a day. -/
def SurvivesText (value : PyStr) : Prop :=
  if (isDate unicode value || isPlain value) = true then
    (∀ c ∈ value, isPrintable c = true) ∧ newline ∉ value ∧ value ∉ nullWords ++ trueWords ++ falseWords ∧
      day? value ≠ some false
  else Quotable value

def FieldValue.Survives : FieldValue → Prop
  | .text value => SurvivesText unicode value
  | .objects roster => roster ≠ [] ∧ ∀ e ∈ roster, Quotable e.object ∧ Quotable e.schemaHash
  | _ => True

instance (value : PyStr) : Decidable (SurvivesText unicode value) := by
  unfold SurvivesText
  infer_instance

instance (value : FieldValue) : Decidable (value.Survives unicode) := by
  cases value <;>
    · unfold FieldValue.Survives
      infer_instance

/-- The block and a body are taken apart again, with every value as it was. -/
def RoundTrips (yaml : Yaml) (fields : Fields) (body : PyStr) : Prop :=
  yaml.refuses (emit unicode fields ++ body) = false ∧
    split yaml.load (emit unicode fields ++ body) = (some (membersOf fields), body)

end

end ContextLayer.Frontmatter
