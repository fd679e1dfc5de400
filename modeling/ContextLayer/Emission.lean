import ContextLayer.Acceptance
import ContextLayer.Frontmatter

/-!
# The emission pipeline

A connector returns objects as it found them, and the harness hashes, validates and orders them before anything is
sent. The hash is taken of an object that no schema has looked at, so each of its steps can meet a member that is
missing or of another type, and it is the exception raised there that decides whether the failure counts as a problem
of the snapshot or leaves the pipeline as it is.
-/

namespace ContextLayer.Emission

open Text Frontmatter

/-- What a step raises. A `UnicodeEncodeError` is a `ValueError`. -/
inductive Raised where
  | unknownKind
  | keyError
  | typeError
  | valueError
  | attributeError
  deriving DecidableEq

/-! ### Values of any type -/

/-- `v[key]`. -/
def subscript (v : PyJson) (key : String) : Except Raised PyJson :=
  match v with
  | .obj members =>
      match Dict.get? members (py key) with
      | some w => .ok w
      | none => .error .keyError
  | _ => .error .typeError

/-- `list(v)`. -/
def iterate : PyJson → Except Raised (List PyJson)
  | .arr items => .ok items
  | .str s => .ok (s.map fun p => .str [p])
  | .obj members => .ok (members.map fun m => .str m.1)
  | _ => .error .typeError

/-- What a number is compared by, the infinities at the ends; a NaN has no place. -/
def numeric : PyJson → Option (Option (ℤ ×ₗ ℚ))
  | .bool b => some (some (toLex (0, if b then 1 else 0)))
  | .number n => some (some (toLex (0, n.value)))
  | .nonFinite .nan => some none
  | .nonFinite .infinity => some (some (toLex (1, 0)))
  | .nonFinite .negInfinity => some (some (toLex (-1, 0)))
  | _ => none

def equalNumbers (v w : PyJson) : Bool :=
  match numeric v, numeric w with
  | some (some a), some (some b) => decide (a = b)
  | _, _ => false

mutual

/-- `v == w`. -/
def equal : PyJson → PyJson → Bool
  | .null, .null => true
  | .str s, .str t => decide (s = t)
  | .arr items, .arr items' => equalItems items items'
  | .obj members, .obj members' =>
      decide (members.length = members'.length) && equalMembers members members'
  | v, w => equalNumbers v w

def equalItems : List PyJson → List PyJson → Bool
  | [], [] => true
  | v :: rest, w :: rest' => equal v w && equalItems rest rest'
  | _, _ => false

def equalMembers : Members → Members → Bool
  | [], _ => true
  | (k, v) :: rest, members =>
      (match Dict.get? members k with
        | some w => equal v w
        | none => false) && equalMembers rest members

end

def lessNumbers (v w : PyJson) : Except Raised Bool :=
  match numeric v, numeric w with
  | some (some a), some (some b) => .ok (decide (a < b))
  | some _, some _ => .ok false
  | _, _ => .error .typeError

mutual

/-- `v < w`. -/
def less : PyJson → PyJson → Except Raised Bool
  | .str s, .str t => .ok (decide (s < t))
  | .arr items, .arr items' => lessItems items items'
  | v, w => lessNumbers v w

/-- The first place where they are not equal decides. -/
def lessItems : List PyJson → List PyJson → Except Raised Bool
  | v :: rest, w :: rest' => if equal v w then lessItems rest rest' else less v w
  | [], items' => .ok (!items'.isEmpty)
  | _ :: _, [] => .ok false

end

/-! ### Sorting -/

/-- A value goes ahead of the first that is not less than it. -/
def insertSorted {α : Type} (e : PyJson × α) : List (PyJson × α) → Except Raised (List (PyJson × α))
  | [] => .ok [e]
  | e' :: rest => do
      if ← less e'.1 e.1 then (insertSorted e rest).map (e' :: ·)
      else .ok (e :: e' :: rest)

/-- Sorting by the keys that are given; a comparison that fails ends it. -/
def sortKeyed {α : Type} : List (PyJson × α) → Except Raised (List (PyJson × α))
  | [] => .ok []
  | e :: rest => do insertSorted e (← sortKeyed rest)

/-- `sorted(v, key=key)`. -/
def sorted (key : PyJson → Except Raised PyJson) (v : PyJson) : Except Raised (List PyJson) := do
  let items ← iterate v
  let keyed ← items.mapM fun w => (key w).map fun k => (k, w)
  (sortKeyed keyed).map (List.map Prod.snd)

/-! ### The keys of an object -/

/-- What a dictionary takes for a key. -/
inductive PyKey where
  | null
  | bool (b : Bool)
  | number (n : PyNumber)
  | nonFinite (f : NonFinite)
  | str (s : PyStr)

def PyKey.toPy : PyKey → PyJson
  | .null => .null
  | .bool b => .bool b
  | .number n => .number n
  | .nonFinite f => .nonFinite f
  | .str s => .str s

/-- Lists and dictionaries have no hash. -/
def hashed : PyJson → Except Raised PyKey
  | .null => .ok .null
  | .bool b => .ok (.bool b)
  | .number n => .ok (.number n)
  | .nonFinite f => .ok (.nonFinite f)
  | .str s => .ok (.str s)
  | _ => .error .typeError

/-- A dictionary whose keys need not be strings. -/
abbrev PyDict := List (PyKey × PyJson)

def sameKey (key key' : PyKey) : Bool := equal key.toPy key'.toPy

def lookup (d : PyDict) (key : PyKey) : Option PyJson := (d.find? fun e => sameKey e.1 key).map Prod.snd

def assign (d : PyDict) (key : PyKey) (value : PyJson) : PyDict :=
  if d.any fun e => sameKey e.1 key then d.map fun e => if sameKey e.1 key then (e.1, value) else e
  else d ++ [(key, value)]

/-- One element of the sequence a dictionary is made of. -/
def assignPair (d : PyDict) (pair : PyJson) : Except Raised PyDict := do
  match ← iterate pair with
  | [key, value] => (hashed key).map fun k => assign d k value
  | _ => .error .valueError

/-- `dict(v)`. -/
def toDict : PyJson → Except Raised PyDict
  | .obj members => .ok (members.map fun m => (.str m.1, m.2))
  | v => do (← iterate v).foldlM assignPair []

def asString : PyJson → Except Raised PyStr
  | .str s => .ok s
  | _ => .error .typeError

/-- `",".join(v)`. -/
def joinComma (v : PyJson) : Except Raised PyStr := do
  let parts ← iterate v
  (parts.mapM asString).map pyJoinComma

/-- `(",".join(fk["columns"]), fk["ref"])`. -/
def foreignKey (fk : PyJson) : Except Raised PyJson := do
  let columns ← subscript fk "columns"
  let joined ← joinComma columns
  let ref ← subscript fk "ref"
  pure (.arr [.str joined, ref])

def reorder (name : String) (key : PyJson → Except Raised PyJson) (out : PyDict) : Except Raised PyDict :=
  match lookup out (.str (py name)) with
  | none => .ok out
  | some v => (sorted key v).map fun items => assign out (.str (py name)) (.arr items)

/-- `ordered_keys`. -/
def orderedKeys (keys : PyJson) : Except Raised PyDict := do
  let out ← toDict keys
  let out ← reorder "foreign" foreignKey out
  reorder "unique" .ok out

/-! ### The projection -/

/-- `COLUMN_STRUCTURAL_FIELDS`. -/
def columnStructuralFields : List String := ["name", "type", "nullable", "default", "ordinal"]

def projectColumn (c : PyJson) : Except Raised PyJson :=
  (columnStructuralFields.mapM fun f => (subscript c f).map fun v => (py f, v)).map .obj

def projectColumns (columns : PyJson) : Except Raised (List PyJson) := do
  let items ← sorted (subscript · "ordinal") columns
  items.mapM projectColumn

/-- `KIND_REGISTRY.get(kind)`. -/
def registered (kind : PyJson) : Except Raised KindSpec := do
  match ← hashed kind with
  | .str k =>
      match Dict.get? kindRegistry k with
      | some spec => .ok spec
      | none => .error .unknownKind
  | _ => .error .unknownKind

/-- `{k: v for k, v in stats.items() if k in spec.hash_included_stats}`. -/
def hashedStats (spec : KindSpec) : PyJson → Except Raised Members
  | .obj members => .ok (members.filter fun m => decide (m.1 ∈ spec.hashIncludedStats))
  | _ => .error .attributeError

structure Projection where
  kind : PyJson
  schema : PyJson
  name : PyJson
  columns : List PyJson
  keys : PyDict
  stats : Members

/-- `structural_projection`. -/
def structuralProjection (obj : Members) : Except Raised Projection := do
  let kind ← subscript (.obj obj) "kind"
  let spec ← registered kind
  let schema ← subscript (.obj obj) "schema"
  let name ← subscript (.obj obj) "name"
  let columns ← projectColumns (← subscript (.obj obj) "columns")
  let keys ← orderedKeys (← subscript (.obj obj) "keys")
  let stats ← hashedStats spec (← subscript (.obj obj) "stats")
  pure ⟨kind, schema, name, columns, keys, stats⟩

/-! ### The hash -/

def printed (v : PyJson) : Except Raised PyStr :=
  match v.canonicalJson with
  | some text => .ok text
  | none => .error .valueError

/-- A key as `json.dumps` writes it. -/
def PyKey.text : PyKey → Except Raised PyStr
  | .str s => .ok s
  | .nonFinite _ => .error .valueError
  | key => .ok key.toPy.dumps

def memberText (key text : PyStr) : PyStr := pyQuote key ++ .unit 0x3A :: text

def braces (members : List PyStr) : PyStr := .unit 0x7B :: (pyJoinComma members ++ [.unit 0x7D])

def entryText (e : PyKey × PyJson) : Except Raised PyStr := do
  let key ← e.1.text
  let value ← printed e.2
  pure (memberText key value)

/-- `canonical_json` of a dictionary whose keys need not be strings: it is sorted by the keys themselves. -/
def dictText (d : PyDict) : Except Raised PyStr := do
  let entries ← sortKeyed (d.map fun e => (e.1.toPy, e))
  (entries.mapM fun e => entryText e.2).map braces

/-- `canonical_json` of the projection. -/
def Projection.text (p : Projection) : Except Raised PyStr := do
  let columns ← printed (.arr p.columns)
  let keys ← dictText p.keys
  let rest ← [("kind", p.kind), ("name", p.name), ("schema", p.schema), ("stats", .obj p.stats)].mapM
    fun m => (printed m.2).map (memberText (py m.1))
  pure (braces (memberText (py "columns") columns :: memberText (py "keys") keys :: rest))

def encoded (text : PyStr) : Except Raised (List UInt8) :=
  match encodeUtf8 text with
  | some bytes => .ok bytes
  | none => .error .valueError

/-- What of a dictionary is handed on: no key is there twice, on any level. -/
structure JsonDict where
  members : Members
  distinct : (PyJson.obj members).Distinct

inductive Problem where
  | unknownKind
  | malformed
  | suppliedHash (supplied : PyJson) (computed : PyStr)
  | unregisteredStats (fields : List PyStr)
  | schemaErrors
  | invalid (error : SnapshotError)
  | skipped (identity : Identity)
  | notSerializable

section

variable (sha256 : List UInt8 → PyStr)

/-- `schema_hash`. -/
def schemaHash (obj : Members) : Except Raised PyStr := do
  let p ← structuralProjection obj
  let text ← p.text
  let bytes ← encoded text
  pure (py "sha256:" ++ sha256 bytes)

/-- The supplied hash is not trusted. -/
def suppliedProblems (obj : Members) (computed : PyStr) : List Problem :=
  match Dict.get? obj (py "schema_hash") with
  | none => []
  | some .null => []
  | some supplied => if equal supplied (.str computed) then [] else [.suppliedHash supplied computed]

/-- `set(obj["stats"]) - registered_stats_fields(obj["kind"])`. -/
def statsProblems (obj : Members) : List Problem :=
  match Dict.get? obj (py "kind"), Dict.get? obj (py "stats") with
  | some (.str kind), some (.obj stats) =>
      match Dict.get? kindRegistry kind with
      | some spec =>
          let extra := (stats.map Prod.fst).filter fun field =>
            decide (field ∉ spec.hashIncludedStats ++ spec.hashExcludedStats)
          if extra = [] then [] else [.unregisteredStats (StableSort.sortOn id extra)]
      | none => []
  | _, _ => []

/-- One object of `_hash_objects`. -/
def hashObject (obj : Members) : Except Raised (Members × List Problem) :=
  match schemaHash sha256 obj with
  | .ok computed =>
      .ok (Dict.set obj (py "schema_hash") (.str computed), suppliedProblems obj computed ++ statsProblems obj)
  | .error .unknownKind => .ok (obj, [.unknownKind])
  | .error .keyError => .ok (obj, [.malformed])
  | .error .typeError => .ok (obj, [.malformed])
  | .error raised => .error raised

/-! ### The pipeline -/

structure Manifest where
  name : PyStr
  version : PyStr

structure IntrospectionResult where
  systemClass : PyStr
  objects : List JsonDict
  sourceProperties : Option JsonDict

structure EmittedSnapshot where
  document : PyJson
  serialized : List UInt8

inductive Outcome where
  | emitted (snapshot : EmittedSnapshot)
  /-- An `EmissionError`. -/
  | refused (problems : List Problem)
  | raised (exception : Raised)

/-- `captured_at or utc_now_iso()`. -/
def capturedOr (now : PyStr) : Option PyStr → PyStr
  | some (p :: rest) => p :: rest
  | _ => now

/-- The envelope around the objects that are hashed. -/
def assemble (manifest : Manifest) (config : JsonDict) (result : IntrospectionResult) (capturedAt : PyStr)
    (objects : List Members) : Except Raised PyJson := do
  let system ← subscript (.obj config.members) "system"
  let mode ← subscript (.obj config.members) "mode"
  pure (.obj ([(py "snapshot_version", .str (py "1")), (py "system", system),
      (py "system_class", .str result.systemClass), (py "source_mode", mode),
      (py "captured_at", .str capturedAt),
      (py "connector", .obj [(py "name", .str manifest.name), (py "version", .str manifest.version)]),
      (py "objects", .arr (objects.map .obj))] ++
    result.sourceProperties.toList.map fun properties => (py "source_properties", .obj properties.members)))

variable (isDateTime : PyStr → Bool)

/-- The checks of the assembled document, and its canonical form. -/
def finish (document : PyJson) : Outcome :=
  match readSnapshot isDateTime document with
  | none => .refused [.schemaErrors]
  | some s =>
      match validateSnapshot sha256 true s with
      | none => .raised .valueError
      | some st =>
          let problems := st.errors.map .invalid ++ st.warnings.map .skipped
          if problems ≠ [] then .refused problems
          else
            match canonicalDocumentBytes s with
            | none => .refused [.notSerializable]
            | some serialized => .emitted ⟨(ordered s).document, serialized⟩

/-- `emit_snapshot`. -/
def emitSnapshot (manifest : Manifest) (config : JsonDict) (result : IntrospectionResult)
    (capturedAt : Option PyStr) (now : PyStr) : Outcome :=
  match result.objects.mapM fun obj => hashObject sha256 obj.members with
  | .error raised => .raised raised
  | .ok hashes =>
      let problems := hashes.flatMap Prod.snd
      if problems ≠ [] then .refused problems
      else
        match assemble manifest config result (capturedOr now capturedAt) (hashes.map Prod.fst) with
        | .error raised => .raised raised
        | .ok document => finish sha256 isDateTime document

end

/-! ### What leaves the pipeline as it is -/

def Raised.caught : Raised → Bool
  | .valueError => false
  | .attributeError => false
  | _ => true

/-- What is read of an object ahead of its keys. -/
structure ReachesKeys (obj : Members) (keys : PyJson) : Prop where
  kind : ∃ kind, subscript (.obj obj) "kind" = .ok kind ∧ ∃ spec, registered kind = .ok spec
  schema : ∃ schema, subscript (.obj obj) "schema" = .ok schema
  name : ∃ name, subscript (.obj obj) "name" = .ok name
  columns : ∃ columns, subscript (.obj obj) "columns" = .ok columns ∧ ∃ items, projectColumns columns = .ok items
  keys : subscript (.obj obj) "keys" = .ok keys

/-- Two values, the first of which a dictionary takes for a key. -/
def IsPair (v : PyJson) : Prop := ∃ key value k, iterate v = .ok [key, value] ∧ hashed key = .ok k

/-- A text, or a list whose first member that is no pair holds more or fewer than two values. -/
def NoPairs : PyJson → Prop
  | .str s => s ≠ []
  | .arr items => ∃ before item after parts, items = before ++ item :: after ∧ (∀ pair ∈ before, IsPair pair) ∧
      iterate item = .ok parts ∧ parts.length ≠ 2
  | _ => False

structure Projection.IsEncodable (p : Projection) : Prop where
  kind : p.kind.isEncodable = true
  schema : p.schema.isEncodable = true
  name : p.name.isEncodable = true
  columns : (PyJson.arr p.columns).isEncodable = true
  keys : ∀ e ∈ p.keys, e.1.toPy.isEncodable = true ∧ e.2.isEncodable = true
  stats : (PyJson.obj p.stats).isEncodable = true

/-- A NaN, an infinity or a lone surrogate is hashed; keys that cannot be sorted are noticed behind the columns. -/
def Projection.Unprintable (p : Projection) : Prop :=
  (PyJson.arr p.columns).isFinite = false ∨
    (∃ entries, sortKeyed (p.keys.map fun e => (e.1.toPy, e)) = .ok entries) ∧ ¬ p.IsEncodable

inductive Escapes (obj : Members) : Prop
  | keys {keys : PyJson} (reaches : ReachesKeys obj keys) (noPairs : NoPairs keys)
  | stats {keys stats : PyJson} (reaches : ReachesKeys obj keys) (ordered : ∃ d, orderedKeys keys = .ok d)
      (present : subscript (.obj obj) "stats" = .ok stats) (noDict : ∀ members, stats ≠ .obj members)
  | text {p : Projection} (projected : structuralProjection obj = .ok p) (unprintable : p.Unprintable)

/-- The object is refused. -/
def HasProblem (sha256 : List UInt8 → PyStr) (obj : Members) : Prop :=
  ∀ computed, schemaHash sha256 obj = .ok computed → suppliedProblems obj computed ++ statsProblems obj ≠ []

/-- No object escapes, and unless one is refused the config names the system and the mode. -/
structure Contained (sha256 : List UInt8 → PyStr) (config : JsonDict) (result : IntrospectionResult) : Prop where
  objects : ∀ obj ∈ result.objects, ¬ Escapes obj.members
  config : (∃ obj ∈ result.objects, HasProblem sha256 obj.members) ∨
    (Dict.get? config.members (py "system")).isSome ∧ (Dict.get? config.members (py "mode")).isSome

/-! ### What is asked of the pipeline -/

/-- The delivery gate takes the snapshot as it stands. -/
def PassesGate (sha256 : List UInt8 → PyStr) (isDateTime : PyStr → Bool) (loads : List UInt8 → Option PyJson)
    (e : EmittedSnapshot) : Prop :=
  ∃ doc a s body, loads e.serialized = some doc ∧ accept sha256 isDateTime doc = some (.valid a e.serialized) ∧
    a.warnings = [] ∧ readSnapshot isDateTime e.document = some s ∧ canonicalBodyBytes s = some body ∧
    a.canonicalBodySha256 = sha256 body

/-- **The gate of the connector implies the one of the core**, and nothing else is raised. -/
def Implied (sha256 : List UInt8 → PyStr) (isDateTime : PyStr → Bool) (loads : List UInt8 → Option PyJson)
    (outcome : Outcome) : Prop :=
  (∀ e, outcome = .emitted e → PassesGate sha256 isDateTime loads e) ∧ ∀ exception, outcome ≠ .raised exception

end ContextLayer.Emission
