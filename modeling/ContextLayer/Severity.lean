import ContextLayer.Scan

/-!
# Final severities and the additive-only label

A changed definition is breaking until lineage says otherwise: where the columns keep their shape and the
incoming edges their maps, it only carries a note. The label asks one number of the scan, how many names
are broken.
-/

namespace ContextLayer

open Text StableSort

namespace Diff

/-! ### Finalization -/

/-- `_COLUMN_SHAPING`. -/
def columnShaping : List PyStr :=
  [py "column_added", py "column_removed", py "column_type_changed", py "column_ordinal_changed"]

/-- The column maps of an edge, in order. -/
def normalizedColumns (e : GraphEdge) : List (PyStr × List PyStr) :=
  sortOn (fun m => toLex m) (e.columns.map fun m => (m.target, sortOn id m.sources))

/-- `_incoming`. -/
def incoming (graph : LineageGraph) (fqn : PyStr) : List (PyStr × List (PyStr × List PyStr)) :=
  Dict.ofList ((graph.edges.filter fun e => e.target = fqn).map fun e => (e.id, normalizedColumns e))

/-- `a == b`, of dictionaries. -/
def sameEntries {ν : Type} [DecidableEq ν] (a b : List (PyStr × ν)) : Bool :=
  a.length == b.length && a.all fun e => Dict.get? b e.1 == some e.2

section

variable (oldGraph newGraph : LineageGraph) (system : PyStr)

/-- Whether a definition of the object may be downgraded. -/
def keepsOutput (d : ObjectDiff) : Bool :=
  !(d.subDiffs.any fun s => decide (s.change.text ∈ columnShaping)) &&
    sameEntries (incoming oldGraph (Scan.objectFqn system d))
      (incoming newGraph (Scan.objectFqn system d))

def finalizeSub (downgrade : Bool) (s : SubDiff) : SubDiff :=
  if s.downgradable then
    { s with downgradable := false, severity := if downgrade then .additiveWithNote else s.severity }
  else s

/-- One changed object. -/
def finalizeObject (d : ObjectDiff) : ObjectDiff :=
  if d.subDiffs.any SubDiff.downgradable then
    let subs := d.subDiffs.map (finalizeSub (keepsOutput oldGraph newGraph system d))
    { d with subDiffs := subs, severity := some (structuralSeverity subs) }
  else d

end

/-- `finalize_severity`; `none` is `FinalizeError`. -/
def finalizeSeverity (oldGraph newGraph : Option LineageGraph) (diff : SnapshotDiff) :
    Option SnapshotDiff :=
  match oldGraph, newGraph with
  | some oldGraph, some newGraph =>
      some { diff with
        changedStructural := diff.changedStructural.map (finalizeObject oldGraph newGraph diff.system) }
  | _, _ =>
      if diff.changedStructural.any fun d => d.subDiffs.any SubDiff.downgradable then none else some diff

/-- The diffs of the changed systems, with final severities. -/
def finalizedDiffs (oldGraph newGraph : LineageGraph) (systems : List (Snapshot × Snapshot)) :
    Option (List SnapshotDiff) :=
  systems.mapM fun p =>
    (diffSnapshots p.1 p.2).bind (finalizeSeverity (some oldGraph) (some newGraph))

/-- `DEFINITION_KINDS`. -/
def definitionKinds : List PyStr := [py "view", py "materialized_view"]

/-- `lineageRequired`, of the ids of the nodes at HEAD. -/
def lineageRequired (diffs : List SnapshotDiff) (nodeIds : List PyStr) : Bool :=
  diffs.any fun diff =>
    (diff.changedStructural.any fun d => d.subDiffs.any fun s => decide (s.change.text = py "definition_changed")) ||
      (diff.added ++ diff.removed).any fun d =>
        decide (d.identity.1 ∈ definitionKinds) || decide (Scan.objectFqn diff.system d ∈ nodeIds)

end Diff

namespace Scan

/-! ### The label -/

def countBreaking (scan : Option ScanResult) : Nat :=
  match scan with
  | some scan => scan.breaking.length
  | none => 0

def buildLabels (scan : Option ScanResult) : List PyStr :=
  if countBreaking scan = 0 then [py "sync:additive-only"] else []

end Scan

/-! ### What the label promises -/

namespace Diff

/-- The column is still there, with its type and its place, and nullable if it was. -/
def Column.Kept (c c' : Column) : Prop :=
  c'.name = c.name ∧ c'.type = c.type ∧ c'.ordinal.value = c.ordinal.value ∧
    (c.nullable = true → c'.nullable = true)

/-- The two columns are one in the output. -/
def Column.SameOutput (c c' : Column) : Prop :=
  c'.name = c.name ∧ c'.type = c.type ∧ c'.ordinal.value = c.ordinal.value

/-- The edges into a name are the same, and so are their column maps. -/
def SameIncoming (oldGraph newGraph : LineageGraph) (fqn : PyStr) : Prop :=
  ∀ id columns, (∃ e ∈ oldGraph.edges, e.target = fqn ∧ e.id = id ∧ normalizedColumns e = columns) ↔
    ∃ e ∈ newGraph.edges, e.target = fqn ∧ e.id = id ∧ normalizedColumns e = columns

section

variable (oldGraph newGraph : LineageGraph) (system : PyStr) (spec : KindSpec) (o n : SourceObject)

/-- **Only added to.** -/
structure Preserved : Prop where
  columns : ∀ c ∈ o.columns, ∃ c' ∈ n.columns, Column.Kept c c'
  primary : primaryOf o ≠ [] → primaryOf n = primaryOf o
  foreign : ∀ fk ∈ o.keys.foreign.getD [], fk ∈ n.keys.foreign.getD []
  unique : ∀ columns ∈ uniqueOf o, columns ∈ uniqueOf n
  stats : ∀ stat ∈ spec.hashIncludedStats, stat ≠ py "definition" → statOf o stat = statOf n stat
  definition : py "definition" ∈ spec.hashIncludedStats →
    statOf o (py "definition") ≠ statOf n (py "definition") →
      (∀ c ∈ n.columns, ∃ c' ∈ o.columns, Column.SameOutput c c') ∧
        SameIncoming oldGraph newGraph (Naming.fqn system o.schema o.name)

/-- Nothing is hidden from the sub-diffs: what is listed before another entry of the same name or columns
is kept, and what is equal to Python is equal in JSON. -/
structure NothingHidden : Prop where
  columns : ∀ c ∈ o.columns, lastNamed o c.name ≠ some c → ∃ c' ∈ n.columns, Column.Kept c c'
  foreign : ∀ fk ∈ o.keys.foreign.getD [], lastForeignOn o fk.columns ≠ some fk →
    fk ∈ n.keys.foreign.getD []
  stats : ∀ stat ∈ spec.hashIncludedStats, stat ≠ py "definition" →
    PyJson.sameStat (Dict.get? o.stats stat) (Dict.get? n.stats stat) = true →
      statOf o stat = statOf n stat
  definition : py "definition" ∈ spec.hashIncludedStats →
    statOf o (py "definition") ≠ statOf n (py "definition") →
      (∀ c ∈ n.columns, lastNamed n c.name ≠ some c → ∃ c' ∈ o.columns, Column.SameOutput c c') ∧
        (PyJson.sameStat (Dict.get? o.stats (py "definition")) (Dict.get? n.stats (py "definition")) =
          true → (∀ c ∈ n.columns, ∃ c' ∈ o.columns, Column.SameOutput c c') ∧
            SameIncoming oldGraph newGraph (Naming.fqn system o.schema o.name))

end

/-- Of every known object, whatever became of it. -/
def EveryObject (systems : List (Snapshot × Snapshot))
    (P : PyStr → KindSpec → SourceObject → SourceObject → Prop) : Prop :=
  ∀ p ∈ systems, ∀ o ∈ p.1.objects, ∀ spec, o.kindSpec = some spec →
    ∀ n ∈ p.2.objects, n.identity = o.identity → P p.1.system spec o n

/-- No known object is gone. -/
def NoneGone (systems : List (Snapshot × Snapshot)) : Prop :=
  ∀ p ∈ systems, ∀ o ∈ p.1.objects, o.kindSpec.isSome → ∃ n ∈ p.2.objects, n.identity = o.identity

end Diff

end ContextLayer
