import ContextLayer.Snapshot

/-!
# The delivery gate

`accept` reads a delivered document by the schema, checks what the schema cannot say, and answers with
the canonical bytes that are stored. The schema closes every level but three (`stats`,
`source_properties` and what lies in them), so what is read is the document up to the order of members.
-/

namespace ContextLayer

open Text StableSort

/-! ### The schema -/

namespace PyJson

/-- `"type": "object"` with `"additionalProperties": false`. -/
def isClosed (declared : List String) : PyJson → Bool
  | .obj members => members.all fun m => declared.any fun key => decide (m.1 = py key)
  | _ => false

def readString : PyJson → Option PyStr
  | .str s => some s
  | _ => none

/-- `"type": ["string", "null"]`. -/
def readNullable : PyJson → Option (Option PyStr)
  | .null => some none
  | .str s => some (some s)
  | _ => none

def readBool : PyJson → Option Bool
  | .bool b => some b
  | _ => none

/-- `"type": "integer", "minimum": 1`. -/
def readOrdinal : PyJson → Option Ordinal
  | .number n => if h : n.value.den = 1 ∧ 1 ≤ n.value then some ⟨n, h.1, h.2⟩ else none
  | _ => none

def readArray {α : Type} (read : PyJson → Option α) : PyJson → Option (List α)
  | .arr items => items.mapM read
  | _ => none

/-- `"minLength": 1` and `"minItems": 1`. -/
def nonEmpty {α : Type} : List α → Option { l : List α // l ≠ [] }
  | [] => none
  | a :: rest => some ⟨a :: rest, List.cons_ne_nil a rest⟩

def readNonEmpty (v : PyJson) : Option { s : PyStr // s ≠ [] } := v.readString.bind nonEmpty

def readStrings : PyJson → Option (List PyStr) := readArray readString

/-- `"pattern"`. -/
def readPattern (p : PyStr → Bool) (v : PyJson) : Option { s : PyStr // p s = true } :=
  v.readString.bind fun s => if h : p s = true then some ⟨s, h⟩ else none

/-- An object that is left open; a dictionary has no key twice. -/
def readOpen : PyJson → Option { members : List (PyStr × PyJson) // (members.map Prod.fst).Nodup }
  | .obj members => if h : (members.map Prod.fst).Nodup then some ⟨members, h⟩ else none
  | _ => none

def required {α : Type} (v : PyJson) (key : String) (read : PyJson → Option α) : Option α :=
  (v.field key).bind read

def optional {α : Type} (v : PyJson) (key : String) (read : PyJson → Option α) : Option (Option α) :=
  match v.field key with
  | none => some none
  | some w => (read w).map some

end PyJson

open PyJson

def readColumn (v : PyJson) : Option Column := do
  guard (v.isClosed ["name", "type", "nullable", "default", "ordinal", "description"])
  let name ← v.required "name" readNonEmpty
  let type ← v.required "type" readNonEmpty
  let nullable ← v.required "nullable" readBool
  let default ← v.required "default" readNullable
  let ordinal ← v.required "ordinal" readOrdinal
  let description ← v.required "description" readNullable
  pure ⟨name, type, nullable, default, ordinal, description, name.2, type.2⟩

def readForeignKey (v : PyJson) : Option ForeignKey := do
  guard (v.isClosed ["columns", "ref", "ref_columns"])
  let columns ← v.required "columns" fun w => (readStrings w).bind nonEmpty
  let ref ← v.required "ref" (readPattern isRef)
  let refColumns ← v.required "ref_columns" fun w => (readStrings w).bind nonEmpty
  pure ⟨columns, ref, refColumns, columns.2, ref.2, refColumns.2⟩

def readKeys (v : PyJson) : Option Keys := do
  guard (v.isClosed ["primary", "foreign", "unique"])
  let primary ← v.optional "primary" readStrings
  let foreign ← v.optional "foreign" (readArray readForeignKey)
  let unique ← v.optional "unique" (readArray readStrings)
  pure ⟨primary, foreign, unique⟩

def readObject (v : PyJson) : Option SourceObject := do
  guard (v.isClosed ["kind", "schema", "name", "description", "schema_hash", "columns", "keys", "stats"])
  let kind ← v.required "kind" readNonEmpty
  let schema ← v.required "schema" readNonEmpty
  let name ← v.required "name" readNonEmpty
  let description ← v.required "description" readNullable
  let hash ← v.required "schema_hash" (readPattern isSchemaHash)
  let columns ← v.required "columns" (readArray readColumn)
  let keys ← v.required "keys" readKeys
  let stats ← v.required "stats" readOpen
  pure ⟨kind, schema, name, description, hash, columns, keys, stats, kind.2, schema.2, name.2, hash.2,
    stats.2⟩

def readSystemClass (v : PyJson) : Option SystemClass := do
  let text ← v.readString
  if text = py "sql" then some .sql else if text = py "api" then some .api else none

def readSourceMode (v : PyJson) : Option SourceMode := do
  let text ← v.readString
  if text = py "ddl-file" then some .ddlFile
  else if text = py "live" then some .live
  else if text = py "api" then some .api
  else none

def readConnector (v : PyJson) : Option (PyStr × PyStr) := do
  guard (v.isClosed ["name", "version"])
  let name ← v.required "name" readString
  let version ← v.required "version" readString
  pure (name, version)

/-- A document without an error of the schema; `isDateTime` is the checker of the format. -/
def readSnapshot (isDateTime : PyStr → Bool) (v : PyJson) : Option Snapshot := do
  guard (v.isClosed ["snapshot_version", "system", "system_class", "source_mode", "captured_at",
    "connector", "source_properties", "objects"])
  let _ ← v.required "snapshot_version" (readPattern fun s => decide (s = py "1"))
  let system ← v.required "system" readNonEmpty
  let systemClass ← v.required "system_class" readSystemClass
  let sourceMode ← v.required "source_mode" readSourceMode
  let capturedAt ← v.required "captured_at" (readPattern isDateTime)
  let connector ← v.required "connector" readConnector
  let sourceProperties ← v.optional "source_properties" readOpen
  let objects ← v.required "objects" (readArray readObject)
  pure ⟨system, systemClass, sourceMode, capturedAt, connector.1, connector.2,
    sourceProperties.map Subtype.val, objects, system.2⟩

/-! ### The document -/

def SourceMode.text : SourceMode → PyStr
  | .ddlFile => py "ddl-file"
  | .live => py "live"
  | .api => py "api"

/-- `CANONICAL_BODY_EXCLUDED`. -/
def canonicalBodyExcluded : List String := ["captured_at", "connector", "source_mode"]

/-- The fields of `CANONICAL_BODY_EXCLUDED`. -/
def Snapshot.envelope (s : Snapshot) : List (PyStr × PyJson) :=
  [(py "captured_at", .str s.capturedAt),
    (py "connector", .obj [(py "name", .str s.connectorName), (py "version", .str s.connectorVersion)]),
    (py "source_mode", .str s.sourceMode.text)]

/-- The body, and what `ordered.update` adds. -/
def Snapshot.document (s : Snapshot) : PyJson :=
  match s.body with
  | .obj members => .obj (members ++ s.envelope)
  | v => v

/-- §6 canonical form of the full document; `none` is an exception. -/
def canonicalDocumentBytes (s : Snapshot) : Option (List UInt8) :=
  (ordered s).document.canonicalBytes.map (· ++ [0x0A])

/-! ### The verdict -/

structure Acceptance where
  /-- The objects of a kind that is not registered. -/
  warnings : List Identity
  system : PyStr
  sourceMode : SourceMode
  capturedAt : PyStr
  connectorName : PyStr
  connectorVersion : PyStr
  objectCount : Nat
  sha256 : PyStr
  canonicalBodySha256 : PyStr

inductive AcceptVerdict where
  | notAnObject
  | schemaErrors
  | invalid (errors : List SnapshotError) (warnings : List Identity)
  | valid (verdict : Acceptance) (serialized : List UInt8)

section

variable (sha256 : List UInt8 → PyStr) (isDateTime : PyStr → Bool)

/-- The verdict on a document the schema accepts. -/
def acceptSnapshot (s : Snapshot) : Option AcceptVerdict := do
  let st ← validateSnapshot sha256 true s
  if st.errors ≠ [] then pure (.invalid st.errors st.warnings)
  else
    let serialized ← canonicalDocumentBytes s
    let body ← canonicalBodyBytes s
    pure (.valid ⟨st.warnings, s.system, s.sourceMode, s.capturedAt, s.connectorName, s.connectorVersion,
      s.objects.length, sha256 serialized, sha256 body⟩ serialized)

/-- `none` is an exception. -/
def accept : PyJson → Option AcceptVerdict
  | .obj members =>
      match readSnapshot isDateTime (.obj members) with
      | none => some .schemaErrors
      | some s => acceptSnapshot sha256 s
  | _ => some .notAnObject

end

/-! ### JSON -/

namespace PyJson

mutual

/-- No dictionary has a key twice. -/
def Distinct : PyJson → Prop
  | .arr items => DistinctItems items
  | .obj members => (members.map Prod.fst).Nodup ∧ DistinctMembers members
  | _ => True

def DistinctItems : List PyJson → Prop
  | [] => True
  | v :: rest => v.Distinct ∧ DistinctItems rest

def DistinctMembers : List (PyStr × PyJson) → Prop
  | [] => True
  | (_, v) :: rest => v.Distinct ∧ DistinctMembers rest

end

/-- `json.loads` of a line that `json.dumps` printed is the value that was printed. -/
def ReadsBack (loads : List UInt8 → Option PyJson) : Prop :=
  ∀ v : PyJson, v.Distinct → v.isEncodable = true →
    ∀ bytes, encodeUtf8 v.dumps = some bytes → loads (bytes ++ [0x0A]) = some v

end PyJson

end ContextLayer
