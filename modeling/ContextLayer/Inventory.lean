import ContextLayer.Scan
import ContextLayer.Visibility
import ContextLayer.Proof.PyJson

/-!
# Objects by name

Three readers of a snapshot look its objects up by name: the core when it serves the latest snapshots, the
lineage parser when it resolves a relation, and the contamination scan. The kind is in none of the names.
-/

namespace ContextLayer

open Text StableSort

/-! ### The lineage inventory -/

/-- `RELATION_KINDS`. -/
def relationKinds : List PyStr := [py "table", py "view", py "materialized_view"]

structure Inventory where
  system : PyStr
  byKey : List ((PyStr × PyStr) × SourceObject)
  byName : List (PyStr × List PyStr)

/-- The relations among the objects. -/
def Snapshot.relations (s : Snapshot) : List SourceObject :=
  s.objects.filter fun o => decide (o.kind ∈ relationKinds)

def inventory (s : Snapshot) : Inventory where
  system := s.system
  byKey := Dict.ofList (s.relations.map fun o => ((o.schema, o.name), o))
  byName := s.relations.foldl (fun d o =>
    Dict.set d o.name ((Dict.get? d o.name).getD [] ++ [o.schema])) []

/-- A relation of a `FROM` clause against the inventory. -/
structure Relation where
  fqn : PyStr
  schema : Option PyStr
  name : PyStr
  resolved : Bool
  kind : PyStr
  columns : List PyStr

def Relation.ofObject (system : PyStr) (o : SourceObject) : Relation where
  fqn := Naming.fqn system o.schema o.name
  schema := some o.schema
  name := o.name
  resolved := true
  kind := o.kind
  columns := (sortOn (fun c => c.ordinal.value) o.columns).map Column.name

/-- A reference as it is written. -/
def Relation.dangling (fqn : PyStr) (schema : Option PyStr) (name : PyStr) : Relation :=
  ⟨fqn, schema, name, false, py "external", []⟩

def Inventory.resolve (inv : Inventory) (schema : Option PyStr) (name : PyStr) : Relation :=
  match schema.filter (· ≠ []) with
  | some schema =>
      match Dict.get? inv.byKey (schema, name) with
      | some o => .ofObject inv.system o
      | none => .dangling (Naming.fqn inv.system schema name) (some schema) name
  | none =>
      let dangling := Relation.dangling (inv.system ++ py "." ++ name) none name
      match (Dict.get? inv.byName name).getD [] with
      | [schema] =>
          match Dict.get? inv.byKey (schema, name) with
          | some o => .ofObject inv.system o
          | none => dangling
      | _ => dangling

/-! ### The core's objects -/

/-- What the core reads of an object. -/
def coreObject (system : PyStr) (o : SourceObject) : SnapshotObject where
  system := units system
  schema := units o.schema
  name := units o.name
  kind := units o.kind
  columns := o.columns.map fun c => units c.name

/-- The core's `Map` of the objects of a stored body. -/
def coreObjects (s : Snapshot) : List (Text × SnapshotObject) :=
  Dict.ofList (s.objects.map fun o => ((coreObject s.system o).fqn, coreObject s.system o))

/-! ### No object is lost -/

namespace Snapshot

variable (s : Snapshot)

def fqnOf (o : SourceObject) : PyStr := Naming.fqn s.system o.schema o.name

/-- **One entry per object** in every map. -/
structure KeepsEveryObject : Prop where
  fqn : ∀ o ∈ s.objects, ∀ o' ∈ s.objects, o.identity ≠ o'.identity → s.fqnOf o ≠ s.fqnOf o'
  core : s.body.isEncodable = true → coreObjects s =
    s.objects.map fun o => ((coreObject s.system o).fqn, coreObject s.system o)
  inventory : (inventory s).byKey = s.relations.map fun o => ((o.schema, o.name), o)
  /-- Whatever of the objects a finalized diff has removed or changed. -/
  scan : ∀ diff : Diff.SnapshotDiff, diff.system = s.system →
    ((diff.removed ++ diff.changedStructural).map Diff.ObjectDiff.identity).Nodup →
      (∀ d ∈ diff.removed ++ diff.changedStructural,
        d.identity ∈ s.objects.map SourceObject.identity) →
        (Scan.classify [diff]).breaking = Scan.breakingOf diff ∧
          (Scan.classify [diff]).additive = Scan.additiveOf diff ∧
            ∀ fqn ∈ (Scan.breakingOf diff).map Prod.fst,
              fqn ∉ (Scan.additiveOf diff).map Prod.fst

/-- Objects differ in more than their kind, and no schema goes on with the start of a name. -/
structure NamesApart : Prop where
  kind : ∀ o ∈ s.objects, ∀ o' ∈ s.objects, o.schema = o'.schema → o.name = o'.name → o.kind = o'.kind
  dots : ∀ o ∈ s.objects, ∀ o' ∈ s.objects, ∀ part,
    o'.schema = o.schema ++ py "." ++ part → o.name ≠ part ++ py "." ++ o'.name

end Snapshot

end ContextLayer
