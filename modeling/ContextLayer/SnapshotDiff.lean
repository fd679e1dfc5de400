import Mathlib.Data.List.Dedup
import ContextLayer.Snapshot

/-!
# The snapshot diff

An object present in both snapshots is classified by its stored hash and its canonical bytes. What a
structural change consists of is read from indexes instead: columns by name, foreign keys by their
columns, unique keys as a set, everything compared with Python's equality. A difference the indexes
do not show is a change no sub-diff explains.
-/

namespace ContextLayer

open Text StableSort

/-! ### Equality -/

namespace PyJson

/-- A `bool` is an `int`. -/
def asNumber : PyJson → Option ℚ
  | .bool b => some (if b then 1 else 0)
  | .number n => some n.value
  | _ => none

mutual

/-- `v == w`. A NaN is the one constant of the decoder, which a container finds identical. -/
def pyEq : PyJson → PyJson → Bool
  | .null, .null => true
  | .bool b, w => w.asNumber == some (if b then 1 else 0)
  | .number n, w => w.asNumber == some n.value
  | .nonFinite f, .nonFinite g => f == g
  | .str s, .str t => s == t
  | .arr a, .arr b => pyEqItems a b
  | .obj a, .obj b => a.length == b.length && pyEqMembers a b
  | _, _ => false

def pyEqItems : List PyJson → List PyJson → Bool
  | [], [] => true
  | v :: a, w :: b => v.pyEq w && pyEqItems a b
  | _, _ => false

def pyEqMembers : List (PyStr × PyJson) → List (PyStr × PyJson) → Bool
  | [], _ => true
  | (k, v) :: a, b =>
      (match Dict.get? b k with
        | some w => v.pyEq w
        | none => false) && pyEqMembers a b

end

/-- `o is n or o == n`, where `none` is `_ABSENT`. -/
def sameStat : Option PyJson → Option PyJson → Bool
  | none, none => true
  | some v, some w => v.pyEq w
  | _, _ => false

end PyJson

namespace Diff

/-! ### Sub-diffs -/

inductive Severity where
  | additive
  | additiveWithNote
  | breaking
  deriving DecidableEq

/-- `_SEVERITY_RANK`. -/
def Severity.rank : Severity → Nat
  | .additive => 1
  | .additiveWithNote => 2
  | .breaking => 3

/-- `change`, with what `detail` holds of it. -/
inductive Change where
  | columnAdded (column : Column)
  | columnRemoved (column : Column)
  | columnTypeChanged (column old new : PyStr)
  | columnNullableTightened (column : PyStr)
  | columnNullableLoosened (column : PyStr)
  | columnDefaultChanged (column : PyStr) (old new : Option PyStr)
  | columnOrdinalChanged (column : PyStr) (old new : Ordinal)
  | primaryAdded (columns : List PyStr)
  | primaryRemoved (columns : List PyStr)
  | primaryAltered (old new : List PyStr)
  | foreignAdded (key : ForeignKey)
  | foreignRemoved (key : ForeignKey)
  | foreignAltered (columns : List PyStr) (old new : ForeignKey)
  | uniqueAdded (columns : List PyStr)
  | uniqueRemoved (columns : List PyStr)
  | definitionChanged (old new : Option PyJson)
  | statChanged (stat : PyStr) (old new : Option PyJson)

structure SubDiff where
  change : Change
  severity : Severity
  downgradable : Bool

def sub (severity : Severity) (change : Change) : SubDiff := ⟨change, severity, false⟩

structure RenameCandidate where
  fromColumn : PyStr
  toColumn : PyStr
  type : PyStr
  ordinal : Ordinal

/-- `_max_severity`, of at least one sub-diff. -/
def maxSeverity (first : Severity) (rest : List SubDiff) : Severity :=
  rest.foldl (fun m s => if m.rank < s.severity.rank then s.severity else m) first

/-! ### Columns -/

/-- `{c["name"]: c for c in obj["columns"]}`. -/
def columnsByName (o : SourceObject) : List (PyStr × Column) :=
  Dict.ofList (o.columns.map fun c => (c.name, c))

/-- A column of both. -/
def commonColumnSubDiffs (name : PyStr) (o n : Column) : List SubDiff :=
  (if o.type ≠ n.type then [sub .breaking (.columnTypeChanged name o.type n.type)] else []) ++
    (if o.nullable ≠ n.nullable then
      if o.nullable && !n.nullable then [sub .breaking (.columnNullableTightened name)]
      else [sub .additiveWithNote (.columnNullableLoosened name)]
    else []) ++
    (if o.default ≠ n.default then
      [sub .additiveWithNote (.columnDefaultChanged name o.default n.default)] else []) ++
    (if o.ordinal.value ≠ n.ordinal.value then
      [sub .breaking (.columnOrdinalChanged name o.ordinal n.ordinal)] else [])

def addedColumns (old new : SourceObject) : List Column :=
  ((columnsByName new).filter fun e => (Dict.get? (columnsByName old) e.1).isNone).map Prod.snd

def columnSubDiffs (old new : SourceObject) : List SubDiff :=
  (addedColumns old new).map (fun c => sub .additive (.columnAdded c)) ++
    (addedColumns new old).map (fun c => sub .breaking (.columnRemoved c)) ++
    (columnsByName old).flatMap fun e =>
      ((Dict.get? (columnsByName new) e.1).map fun n => commonColumnSubDiffs e.1 e.2 n).getD []

def renameCandidates (old new : SourceObject) : List RenameCandidate :=
  (addedColumns new old).flatMap fun r =>
    ((addedColumns old new).filter fun a => r.type = a.type ∧ r.ordinal.value = a.ordinal.value).map
      fun a => ⟨r.name, a.name, r.type, r.ordinal⟩

/-! ### Keys -/

def primaryOf (o : SourceObject) : List PyStr := o.keys.primary.getD []

def primarySubDiffs (old new : SourceObject) : List SubDiff :=
  if primaryOf old = primaryOf new then []
  else if primaryOf old = [] then [sub .additive (.primaryAdded (primaryOf new))]
  else if primaryOf new = [] then [sub .breaking (.primaryRemoved (primaryOf old))]
  else [sub .breaking (.primaryAltered (primaryOf old) (primaryOf new))]

/-- `{tuple(fk["columns"]): fk for fk in keys.get("foreign") or []}`. -/
def foreignByColumns (o : SourceObject) : List (List PyStr × ForeignKey) :=
  Dict.ofList ((o.keys.foreign.getD []).map fun fk => (fk.columns, fk))

def addedForeign (old new : SourceObject) : List ForeignKey :=
  ((foreignByColumns new).filter fun e => (Dict.get? (foreignByColumns old) e.1).isNone).map Prod.snd

def foreignSubDiffs (old new : SourceObject) : List SubDiff :=
  (addedForeign old new).map (fun fk => sub .additive (.foreignAdded fk)) ++
    (addedForeign new old).map (fun fk => sub .breaking (.foreignRemoved fk)) ++
    (foreignByColumns old).flatMap fun e =>
      ((Dict.get? (foreignByColumns new) e.1).map fun n =>
        if e.2 ≠ n then [sub .breaking (.foreignAltered e.1 e.2 n)] else []).getD []

def uniqueOf (o : SourceObject) : List (List PyStr) := o.keys.unique.getD []

/-- `sorted(new_uq - old_uq)`. -/
def addedUnique (old new : SourceObject) : List (List PyStr) :=
  sortOn id ((uniqueOf new).dedup.filter fun columns => columns ∉ uniqueOf old)

def keySubDiffs (old new : SourceObject) : List SubDiff :=
  primarySubDiffs old new ++ foreignSubDiffs old new ++
    (addedUnique old new).map (fun columns => sub .additive (.uniqueAdded columns)) ++
    (addedUnique new old).map (fun columns => sub .breaking (.uniqueRemoved columns))

/-! ### Stats -/

def statsSubDiffs (spec : KindSpec) (old new : SourceObject) : List SubDiff :=
  (sortOn id spec.hashIncludedStats).flatMap fun stat =>
    let o := Dict.get? old.stats stat
    let n := Dict.get? new.stats stat
    if PyJson.sameStat o n then []
    else if stat = py "definition" then [⟨.definitionChanged o n, .breaking, true⟩]
    else [sub .breaking (.statChanged stat o n)]

/-! ### One object -/

inductive MetadataChange where
  | description
  | columnDescription (column : PyStr)
  | stat (name : PyStr)
  deriving DecidableEq

def MetadataChange.text : MetadataChange → PyStr
  | .description => py "description"
  | .columnDescription column => py "columns." ++ column ++ py ".description"
  | .stat name => py "stats." ++ name

def metadataChanges (spec : KindSpec) (old new : SourceObject) : List MetadataChange :=
  (if old.description ≠ new.description then [.description] else []) ++
    ((sortOn id ((columnsByName old).map Prod.fst)).filter fun name =>
      ((Dict.get? (columnsByName old) name).bind fun o =>
        (Dict.get? (columnsByName new) name).map fun n =>
          decide (o.description ≠ n.description)).getD false).map .columnDescription ++
    ((sortOn id spec.hashExcludedStats).filter fun stat =>
      !PyJson.sameStat (Dict.get? old.stats stat) (Dict.get? new.stats stat)).map .stat

inductive Classification where
  | added
  | removed
  | changedStructural
  | changedMetadataOnly
  | unchanged
  deriving DecidableEq

structure ObjectDiff where
  identity : Identity
  classification : Classification
  severity : Option Severity
  oldHash : Option PyStr
  newHash : Option PyStr
  subDiffs : List SubDiff
  renameCandidates : List RenameCandidate
  metadataChanges : List MetadataChange

def subDiffs (spec : KindSpec) (old new : SourceObject) : List SubDiff :=
  columnSubDiffs old new ++ keySubDiffs old new ++ statsSubDiffs spec old new

def structuralSeverity : List SubDiff → Severity
  | [] => .breaking
  | s :: rest => maxSeverity s.severity rest

/-- `diff_object` of two objects of one known kind; `none` is an exception of the encoding. -/
def diffObject (spec : KindSpec) (old new : SourceObject) : Option ObjectDiff :=
  if old.schemaHash ≠ new.schemaHash then
    some ⟨old.identity, .changedStructural, some (structuralSeverity (subDiffs spec old new)),
      some old.schemaHash, some new.schemaHash, subDiffs spec old new, renameCandidates old new, []⟩
  else do
    let oldBytes ← canonicalObjectBytes old
    let newBytes ← canonicalObjectBytes new
    if oldBytes ≠ newBytes then
      pure ⟨old.identity, .changedMetadataOnly, none, some old.schemaHash, some new.schemaHash, [], [],
        metadataChanges spec old new⟩
    else pure ⟨old.identity, .unchanged, none, none, none, [], [], []⟩

/-! ### What a diff explains -/

inductive ColumnField where
  | type
  | nullable
  | default
  | ordinal
  deriving DecidableEq

/-- The field as the projection has it. -/
def ColumnField.of (c : Column) : ColumnField → PyJson
  | .type => .str c.type
  | .nullable => .bool c.nullable
  | .default => .ofOption c.default
  | .ordinal => .number c.ordinal.number

/-- A component of the projection. -/
inductive Component where
  | column (name : PyStr)
  | field (f : ColumnField) (name : PyStr)
  | primary
  | foreign (columns : List PyStr)
  | unique (columns : List PyStr)
  | stat (name : PyStr)
  deriving DecidableEq

/-- The component a sub-diff names. -/
def Change.component : Change → Component
  | .columnAdded c => .column c.name
  | .columnRemoved c => .column c.name
  | .columnTypeChanged name _ _ => .field .type name
  | .columnNullableTightened name => .field .nullable name
  | .columnNullableLoosened name => .field .nullable name
  | .columnDefaultChanged name _ _ => .field .default name
  | .columnOrdinalChanged name _ _ => .field .ordinal name
  | .primaryAdded _ => .primary
  | .primaryRemoved _ => .primary
  | .primaryAltered _ _ => .primary
  | .foreignAdded fk => .foreign fk.columns
  | .foreignRemoved fk => .foreign fk.columns
  | .foreignAltered columns _ _ => .foreign columns
  | .uniqueAdded columns => .unique columns
  | .uniqueRemoved columns => .unique columns
  | .definitionChanged _ _ => .stat (py "definition")
  | .statChanged stat _ _ => .stat stat

/-- The columns of a name, in the order of the projection. -/
def columnsNamed (o : SourceObject) (name : PyStr) : List Column :=
  (orderedObject o).columns.filter fun c => c.name = name

/-- The foreign keys on some columns, in the order of the projection. -/
def foreignOn (o : SourceObject) (columns : List PyStr) : List ForeignKey :=
  ((orderedKeys o.keys).foreign.getD []).filter fun fk => fk.columns = columns

/-- The stat as its canonical JSON has it. -/
def statOf (o : SourceObject) (stat : PyStr) : Option PyJson :=
  (Dict.get? o.stats stat).map PyJson.sortKeys

section

variable (spec : KindSpec) (old new : SourceObject)

/-- The component of the two projections is not the same. -/
def Component.Differs : Component → Prop
  | .column name => ¬ (columnsNamed old name = [] ↔ columnsNamed new name = [])
  | .field f name => columnsNamed old name ≠ [] ∧ columnsNamed new name ≠ [] ∧
      (columnsNamed old name).map f.of ≠ (columnsNamed new name).map f.of
  | .primary => old.keys.primary ≠ new.keys.primary
  | .foreign columns => foreignOn old columns ≠ foreignOn new columns
  | .unique columns => (uniqueOf old).count columns ≠ (uniqueOf new).count columns
  | .stat name => name ∈ spec.hashIncludedStats ∧ statOf old name ≠ statOf new name

/-- A part of the object outside the projection is not the same. -/
def MetadataChange.Differs : MetadataChange → Prop
  | .description => old.description ≠ new.description
  | .columnDescription name =>
      (columnsNamed old name).map Column.description ≠ (columnsNamed new name).map Column.description
  | .stat name => name ∉ spec.hashIncludedStats ∧ statOf old name ≠ statOf new name

/-- **Complete**: the class says what differs, and all that differs is named. -/
structure ObjectDiff.Complete (d : ObjectDiff) : Prop where
  unchanged : d.classification = .unchanged ↔
    ∃ bytes, canonicalObjectBytes old = some bytes ∧ canonicalObjectBytes new = some bytes
  structural : d.classification = .changedStructural ↔
    (structuralProjection spec old).sortKeys ≠ (structuralProjection spec new).sortKeys
  subDiffs : d.classification = .changedStructural → d.subDiffs ≠ [] ∧
    ∀ c : Component, c.Differs spec old new → ∃ s ∈ d.subDiffs, s.change.component = c
  metadata : d.classification ≠ .unchanged → d.classification ≠ .changedStructural →
    d.classification = .changedMetadataOnly ∧ d.metadataChanges ≠ [] ∧
      ∀ m : MetadataChange, m.Differs spec old new → m ∈ d.metadataChanges

end

/-! ### Where it explains everything -/

/-- Of several columns of one name, the one listed last. -/
def lastNamed (o : SourceObject) (name : PyStr) : Option Column :=
  (o.columns.filter fun c => c.name = name).getLast?

def lastForeignOn (o : SourceObject) (columns : List PyStr) : Option ForeignKey :=
  ((o.keys.foreign.getD []).filter fun fk => fk.columns = columns).getLast?

section

variable (spec : KindSpec) (old new : SourceObject)

/-- The component still differs where a list stands for its last entry, a missing list of keys for an
empty one, and values are compared as Python compares them. -/
def Component.Survives : Component → Prop
  | .column name => ¬ (lastNamed old name = none ↔ lastNamed new name = none)
  | .field f name => ∃ o ∈ lastNamed old name, ∃ n ∈ lastNamed new name, (f.of o).pyEq (f.of n) = false
  | .primary => primaryOf old ≠ primaryOf new
  | .foreign columns => lastForeignOn old columns ≠ lastForeignOn new columns
  | .unique columns => ¬ (columns ∈ uniqueOf old ↔ columns ∈ uniqueOf new)
  | .stat name => name ∈ spec.hashIncludedStats ∧
      PyJson.sameStat (Dict.get? old.stats name) (Dict.get? new.stats name) = false

def MetadataChange.Survives : MetadataChange → Prop
  | .description => old.description ≠ new.description
  | .columnDescription name => ∃ o ∈ lastNamed old name, ∃ n ∈ lastNamed new name,
      o.description ≠ n.description
  | .stat name => name ∈ spec.hashExcludedStats ∧
      PyJson.sameStat (Dict.get? old.stats name) (Dict.get? new.stats name) = false

/-- Nothing that differs is lost to an index, and where the projections differ, that is not only in an
order or in a missing list. -/
structure Distinguishable : Prop where
  structural : (structuralProjection spec old).sortKeys ≠ (structuralProjection spec new).sortKeys →
    (∃ c : Component, c.Survives spec old new) ∧
      ∀ c : Component, c.Differs spec old new → c.Survives spec old new
  metadata : (structuralProjection spec old).sortKeys = (structuralProjection spec new).sortKeys →
    (old.toPy.isEncodable = true ∧ new.toPy.isEncodable = true) ∧
      ∀ m : MetadataChange, m.Differs spec old new → m.Survives spec old new

end

/-! ### Two snapshots -/

structure SnapshotDiff where
  system : PyStr
  added : List ObjectDiff
  removed : List ObjectDiff
  changedStructural : List ObjectDiff
  changedMetadataOnly : List ObjectDiff
  unchanged : List Identity
  skippedUnknownKinds : List Identity
  sourcePropertiesChanged : Bool

def SnapshotDiff.isEmpty (d : SnapshotDiff) : Bool :=
  d.added.isEmpty && d.removed.isEmpty && d.changedStructural.isEmpty && d.changedMetadataOnly.isEmpty

def identityKey (i : Identity) : PyStr ×ₗ (PyStr ×ₗ PyStr) := toLex (i.1, toLex i.2)

/-- `_index_objects`; `none` is `DiffError`. -/
def indexObjects (objects : List SourceObject) (skipped : List Identity) :
    Option (List (Identity × SourceObject) × List Identity) :=
  objects.foldlM (fun (index, skipped) o =>
    if o.kindSpec.isNone then
      some (index, if o.identity ∈ skipped then skipped else skipped ++ [o.identity])
    else if (Dict.get? index o.identity).isSome then none
    else some (Dict.set index o.identity o, skipped)) ([], skipped)

/-- The objects of one index under identities the other lacks, in order. -/
def onlyIn (index other : List (Identity × SourceObject)) : List SourceObject :=
  (sortOn (fun e => identityKey e.1) (index.filter fun e => (Dict.get? other e.1).isNone)).map Prod.snd

def addedObject (o : SourceObject) : ObjectDiff :=
  ⟨o.identity, .added, some .additive, none, some o.schemaHash, [], [], []⟩

def removedObject (o : SourceObject) : ObjectDiff :=
  ⟨o.identity, .removed, some .breaking, some o.schemaHash, none, [], [], []⟩

/-- The diffs of the objects in both, in order. -/
def commonDiffs (oldIndex newIndex : List (Identity × SourceObject)) : Option (List ObjectDiff) :=
  (sortOn (fun e => identityKey e.1) oldIndex).filterMapM fun e =>
    match Dict.get? newIndex e.1, e.2.kindSpec with
    | some new, some spec => (diffObject spec e.2 new).map some
    | _, _ => some none

/-- `diff_snapshots`; `none` is an exception. -/
def diffSnapshots (old new : Snapshot) : Option SnapshotDiff := do
  if old.system ≠ new.system then none
  let (oldIndex, skipped) ← indexObjects old.objects []
  let (newIndex, skipped) ← indexObjects new.objects skipped
  let common ← commonDiffs oldIndex newIndex
  pure {
    system := old.system
    added := (onlyIn newIndex oldIndex).map addedObject
    removed := (onlyIn oldIndex newIndex).map removedObject
    changedStructural := common.filter fun d => d.classification = .changedStructural
    changedMetadataOnly := common.filter fun d => d.classification = .changedMetadataOnly
    unchanged := (common.filter fun d => d.classification = .unchanged).map ObjectDiff.identity
    skippedUnknownKinds := skipped
    sourcePropertiesChanged :=
      !PyJson.pyEq (.obj (old.sourceProperties.getD [])) (.obj (new.sourceProperties.getD [])) }

end Diff

end ContextLayer
