import Mathlib.Data.List.Forall2
import Mathlib.Data.Prod.Lex
import ContextLayer.PyJson

/-!
# Snapshots and their canonical form

A snapshot is the document the schema accepts: every level is closed, so a structure of its fields
loses nothing but the order of members, and what the schema asks of a field is carried by it. The
canonical form sorts four arrays, each by a key of its own, and the hash of an object is one of its
structural part.
-/

namespace ContextLayer

open Text StableSort

/-! ### The document -/

/-- `"type": "integer", "minimum": 1`, which a float without a fraction passes. -/
structure Ordinal where
  number : PyNumber
  integral : number.value.den = 1
  minimum : 1 ≤ number.value
  deriving DecidableEq

def Ordinal.value (n : Ordinal) : ℚ := n.number.value

structure Column where
  name : PyStr
  type : PyStr
  nullable : Bool
  default : Option PyStr
  ordinal : Ordinal
  description : Option PyStr
  name_ne : name ≠ []
  type_ne : type ≠ []
  deriving DecidableEq

/-- `^[^.]+\.[^.]+$`. -/
def isRef (ref : PyStr) : Bool :=
  ref.count (.unit 0x2E) == 1 && ref.head? != some (.unit 0x2E) && ref.getLast? != some (.unit 0x2E)

structure ForeignKey where
  columns : List PyStr
  ref : PyStr
  refColumns : List PyStr
  columns_ne : columns ≠ []
  ref_pattern : isRef ref = true
  refColumns_ne : refColumns ≠ []
  deriving DecidableEq

structure Keys where
  primary : Option (List PyStr)
  foreign : Option (List ForeignKey)
  unique : Option (List (List PyStr))
  deriving DecidableEq

/-- `^sha256:[0-9a-f]{64}$`, where `$` also matches ahead of a last newline. -/
def isSchemaHash (s : PyStr) : Bool :=
  let text := if s.getLast? = some (.unit 0x0A) then s.dropLast else s
  text.take 7 == py "sha256:" && text.length == 71 &&
    (text.drop 7).all fun p => decide (p ∈ py "0123456789abcdef")

/-- `(kind, schema, name)`. -/
abbrev Identity := PyStr × PyStr × PyStr

structure SourceObject where
  kind : PyStr
  schema : PyStr
  name : PyStr
  description : Option PyStr
  schemaHash : PyStr
  columns : List Column
  keys : Keys
  stats : List (PyStr × PyJson)
  kind_ne : kind ≠ []
  schema_ne : schema ≠ []
  name_ne : name ≠ []
  schemaHash_pattern : isSchemaHash schemaHash = true
  stats_nodup : (stats.map Prod.fst).Nodup

def SourceObject.identity (o : SourceObject) : Identity := (o.kind, o.schema, o.name)

inductive SystemClass where
  | sql
  | api
  deriving DecidableEq

inductive SourceMode where
  | ddlFile
  | live
  | api
  deriving DecidableEq

structure Snapshot where
  system : PyStr
  systemClass : SystemClass
  sourceMode : SourceMode
  capturedAt : PyStr
  connectorName : PyStr
  connectorVersion : PyStr
  sourceProperties : Option (List (PyStr × PyJson))
  objects : List SourceObject
  system_ne : system ≠ []

/-! ### As JSON -/

def PyJson.ofOption : Option PyStr → PyJson
  | none => .null
  | some s => .str s

def PyJson.strings (items : List PyStr) : PyJson := .arr (items.map .str)

/-- The fields of a column that are structural, `COLUMN_STRUCTURAL_FIELDS`. -/
def Column.structuralMembers (c : Column) : List (PyStr × PyJson) :=
  [(py "name", .str c.name), (py "type", .str c.type), (py "nullable", .bool c.nullable),
    (py "default", .ofOption c.default), (py "ordinal", .number c.ordinal.number)]

def Column.toPy (c : Column) : PyJson :=
  .obj (c.structuralMembers ++ [(py "description", .ofOption c.description)])

def ForeignKey.toPy (fk : ForeignKey) : PyJson :=
  .obj [(py "columns", .strings fk.columns), (py "ref", .str fk.ref),
    (py "ref_columns", .strings fk.refColumns)]

def Keys.toPy (k : Keys) : PyJson :=
  .obj ((k.primary.toList.map fun columns => (py "primary", .strings columns)) ++
    (k.foreign.toList.map fun fks => (py "foreign", .arr (fks.map ForeignKey.toPy))) ++
    (k.unique.toList.map fun sets => (py "unique", .arr (sets.map .strings))))

def SourceObject.toPy (o : SourceObject) : PyJson :=
  .obj [(py "kind", .str o.kind), (py "schema", .str o.schema), (py "name", .str o.name),
    (py "description", .ofOption o.description), (py "schema_hash", .str o.schemaHash),
    (py "columns", .arr (o.columns.map Column.toPy)), (py "keys", o.keys.toPy), (py "stats", .obj o.stats)]

def SystemClass.text : SystemClass → PyStr
  | .sql => py "sql"
  | .api => py "api"

/-- The document without `CANONICAL_BODY_EXCLUDED`. -/
def Snapshot.body (s : Snapshot) : PyJson :=
  .obj ([(py "snapshot_version", .str (py "1")), (py "system", .str s.system),
      (py "system_class", .str s.systemClass.text),
      (py "objects", .arr (s.objects.map SourceObject.toPy))] ++
    s.sourceProperties.toList.map fun properties => (py "source_properties", .obj properties))

/-! ### Canonical form -/

/-- `(",".join(fk["columns"]), fk["ref"])`. -/
def ForeignKey.sortKey (fk : ForeignKey) : PyStr ×ₗ PyStr := toLex (pyJoinComma fk.columns, fk.ref)

def orderedKeys (k : Keys) : Keys :=
  { k with foreign := k.foreign.map (sortOn ForeignKey.sortKey), unique := k.unique.map (sortOn id) }

def orderedObject (o : SourceObject) : SourceObject :=
  { o with columns := sortOn (fun c => c.ordinal.value) o.columns, keys := orderedKeys o.keys }

/-- Per-object canonical bytes. -/
def canonicalObjectBytes (o : SourceObject) : Option (List UInt8) :=
  (orderedObject o).toPy.canonicalBytes

def SourceObject.sortKey (o : SourceObject) : PyStr ×ₗ (PyStr ×ₗ PyStr) :=
  toLex (o.kind, toLex (o.schema, o.name))

/-- The snapshot whose body is the canonical one. -/
def ordered (s : Snapshot) : Snapshot :=
  { s with objects := (sortOn SourceObject.sortKey s.objects).map orderedObject }

def canonicalBodyBytes (s : Snapshot) : Option (List UInt8) := (ordered s).body.canonicalBytes

/-! ### The hash -/

structure KindSpec where
  systemClass : SystemClass
  hashIncludedStats : List PyStr
  hashExcludedStats : List PyStr

/-- `KIND_REGISTRY`. -/
def kindRegistry : List (PyStr × KindSpec) :=
  [(py "table", ⟨.sql, [py "checks"], [py "row_estimate", py "indexes"]⟩),
    (py "view", ⟨.sql, [py "definition"], []⟩),
    (py "materialized_view", ⟨.sql, [py "definition"], [py "row_estimate", py "indexes"]⟩),
    (py "api_dimension", ⟨.api, [py "data_type"], []⟩),
    (py "api_metric", ⟨.api, [py "data_type", py "scope", py "formula"], []⟩),
    (py "api_event", ⟨.api, [py "is_key_event"], []⟩)]

def SourceObject.kindSpec (o : SourceObject) : Option KindSpec := Dict.get? kindRegistry o.kind

/-- The fields of the projection, before `columns` and `keys` are ordered. -/
def SourceObject.structural (spec : KindSpec) (o : SourceObject) : PyJson :=
  .obj [(py "kind", .str o.kind), (py "schema", .str o.schema), (py "name", .str o.name),
    (py "columns", .arr (o.columns.map fun c => .obj c.structuralMembers)), (py "keys", o.keys.toPy),
    (py "stats", .obj (o.stats.filter fun m => decide (m.1 ∈ spec.hashIncludedStats)))]

def structuralProjection (spec : KindSpec) (o : SourceObject) : PyJson :=
  (orderedObject o).structural spec

/-- `none` is `UnknownKindError`, or an exception of the encoding. -/
def schemaHash (sha256 : List UInt8 → PyStr) (o : SourceObject) : Option PyStr := do
  let spec ← o.kindSpec
  let bytes ← (structuralProjection spec o).canonicalBytes
  pure (py "sha256:" ++ sha256 bytes)

/-! ### Validation -/

inductive SnapshotError where
  | duplicateIdentity (identity : Identity)
  | hashMismatch (identity : Identity) (stored recomputed : PyStr)
  deriving DecidableEq

structure ValidationState where
  seen : List Identity
  errors : List SnapshotError
  /-- The objects of a kind that is not registered. -/
  warnings : List Identity

section

variable (sha256 : List UInt8 → PyStr) (checkHashes : Bool)

/-- One object of the loop; `none` is an exception. -/
def validateObject (st : ValidationState) (o : SourceObject) : Option ValidationState :=
  let errors := if o.identity ∈ st.seen then st.errors ++ [.duplicateIdentity o.identity]
    else st.errors
  let seen := o.identity :: st.seen
  if o.kindSpec.isNone then some ⟨seen, errors, st.warnings ++ [o.identity]⟩
  else if checkHashes then do
    let recomputed ← schemaHash sha256 o
    if recomputed ≠ o.schemaHash then
      pure ⟨seen, errors ++ [.hashMismatch o.identity o.schemaHash recomputed], st.warnings⟩
    else pure ⟨seen, errors, st.warnings⟩
  else some ⟨seen, errors, st.warnings⟩

/-- `validate_snapshot` of a document the schema accepts. -/
def validateSnapshot (s : Snapshot) : Option ValidationState :=
  s.objects.foldlM (validateObject sha256 checkHashes) ⟨[], [], []⟩

/-- The errors are empty. -/
def Snapshot.IsAccepted (s : Snapshot) : Prop :=
  ∃ st, validateSnapshot sha256 checkHashes s = some st ∧ st.errors = []

end

/-! ### What the canonical form promises -/

def Keys.Reordered (k k' : Keys) : Prop :=
  k'.primary = k.primary ∧ Option.Rel List.Perm k'.foreign k.foreign ∧
    Option.Rel List.Perm k'.unique k.unique

/-- The second object is the first with its arrays in another order. -/
def SourceObject.Reordered (o o' : SourceObject) : Prop :=
  o'.columns.Perm o.columns ∧ o.keys.Reordered o'.keys ∧
    o' = { o with columns := o'.columns, keys := o'.keys }

def Snapshot.Reordered (s s' : Snapshot) : Prop :=
  (∃ objects, List.Forall₂ SourceObject.Reordered s.objects objects ∧ s'.objects.Perm objects) ∧
    s' = { s with objects := s'.objects }

/-- **Independent of the order** of its arrays. -/
structure Snapshot.OrderIndependent (s : Snapshot) : Prop where
  body : ∀ s', s.Reordered s' → canonicalBodyBytes s' = canonicalBodyBytes s
  hash : ∀ o ∈ s.objects, o.kindSpec.isSome → ∀ o', o.Reordered o' →
    ∀ sha256, schemaHash sha256 o' = schemaHash sha256 o

/-! ### Where it keeps the promise -/

def Column.structural (c : Column) : PyStr × PyStr × Bool × Option PyStr × Ordinal :=
  (c.name, c.type, c.nullable, c.default, c.ordinal)

/-- Columns at one place are one and the same in what is looked at, and so are foreign keys that are
sorted alike. -/
def SourceObject.KeysDecide {β : Type} (look : Column → β) (o : SourceObject) : Prop :=
  (∀ c ∈ o.columns, ∀ c' ∈ o.columns, c.ordinal.value = c'.ordinal.value → look c = look c') ∧
    ∀ fk ∈ o.keys.foreign.getD [], ∀ fk' ∈ o.keys.foreign.getD [],
      fk.sortKey = fk'.sortKey → fk = fk'

instance {β : Type} [DecidableEq β] (look : Column → β) (o : SourceObject) :
    Decidable (o.KeysDecide look) := inferInstanceAs (Decidable (_ ∧ _))

structure Snapshot.SortKeysDecide (s : Snapshot) : Prop where
  body : s.body.isEncodable = true → ∀ o ∈ s.objects, o.KeysDecide id
  hash : ∀ o ∈ s.objects, ∀ spec ∈ o.kindSpec, (o.structural spec).isEncodable = true →
    o.KeysDecide Column.structural

end ContextLayer
