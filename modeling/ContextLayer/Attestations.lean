import ContextLayer.Graph
import ContextLayer.Naming
import ContextLayer.Lib.Dict
import ContextLayer.Lib.StableSort
import Mathlib.Data.Prod.Lex
import Mathlib.Data.List.Dedup

/-!
# Merging attestations

Every producer of lineage claims edges one at a time, each claim with the one piece of evidence it rests
on. The graph has one edge for each identity, with the evidence of all its claims.
-/

namespace ContextLayer.Lineage

open Text StableSort

/-- `OPERATIONS`. -/
def operations : List PyStr :=
  [py "ingest", py "join", py "filter", py "aggregate", py "derive", py "cast", py "rename",
    py "dedupe", py "business-rule"]

/-- `TIER_ORDER`, strongest first. -/
def tierOrder : List PyStr := [py "pipeline-tool", py "sql-parse", py "human"]

structure Evidence where
  tier : PyStr
  ref : PyStr
  deriving DecidableEq

/-- What a name resolves to. A producer that resolves a name also gives the object's own. -/
structure NodeMeta where
  resolved : Bool
  kind : PyStr
  schema : Option PyStr
  name : Option PyStr
  named : resolved = true → name.isSome = true
  deriving DecidableEq

structure Attestation where
  source : PyStr
  target : PyStr
  operation : PyStr
  evidence : Evidence
  /-- Empty where the field is absent. -/
  columns : List ColumnMapping
  sourceMeta : Option NodeMeta
  targetMeta : Option NodeMeta
  deriving DecidableEq

structure MergedNode where
  id : PyStr
  nodeKind : PyStr
  resolved : Bool
  doc : Option PyStr
  deriving DecidableEq

structure MergedEdge where
  id : PyStr
  source : PyStr
  target : PyStr
  operation : PyStr
  evidence : List Evidence
  trust : PyStr
  /-- The field is absent where this is empty. -/
  columns : List ColumnMapping
  deriving DecidableEq

structure Merged where
  nodes : List MergedNode
  edges : List MergedEdge
  deriving DecidableEq

inductive MergeError where
  | unknownOperation (operation source target : PyStr)
  | unknownTier (tier : PyStr)
  | notEncodable (payload : PyStr)
  deriving DecidableEq

/-! ### One edge -/

/-- What is hashed of an edge's identity. -/
def payload (source target operation : PyStr) : PyStr :=
  source ++ py "\n" ++ target ++ py "\n" ++ operation

def edgeId (sha256 : List UInt8 → PyStr) (source target operation : PyStr) : Option PyStr :=
  (encodeUtf8 (payload source target operation)).map fun bytes => py "sha256:" ++ sha256 bytes

/-- An entry of `edges`. A set is a list, read without its repeats. -/
structure EdgeDraft where
  id : PyStr
  source : PyStr
  target : PyStr
  operation : PyStr
  evidence : List Evidence
  columns : List (PyStr × List PyStr)
  attested : evidence ≠ []

def addColumn (columns : List (PyStr × List PyStr)) (mapping : ColumnMapping) :
    List (PyStr × List PyStr) :=
  Dict.set columns mapping.target ((Dict.get? columns mapping.target).getD [] ++ mapping.sources)

/-- `edges.setdefault`, and what is added to the entry. -/
def attest (id : PyStr) (att : Attestation) : Option EdgeDraft → EdgeDraft
  | none => ⟨id, att.source, att.target, att.operation, [att.evidence],
      att.columns.foldl addColumn [], List.cons_ne_nil _ _⟩
  | some edge =>
      { edge with
        evidence := edge.evidence ++ [att.evidence]
        columns := att.columns.foldl addColumn edge.columns
        attested := List.append_ne_nil_of_left_ne_nil edge.attested _ }

/-- `TIER_ORDER.index`, then the reference. -/
def evidenceKey (e : Evidence) : Nat ×ₗ PyStr := toLex (tierOrder.idxOf e.tier, e.ref)

/-- `{(e["tier"], e["ref"]) for e in …}`, sorted. -/
def sortedEvidence (evidence : List Evidence) : List Evidence := sortOn evidenceKey evidence.dedup

theorem sortedEvidence_ne_nil {evidence : List Evidence} (h : evidence ≠ []) :
    sortedEvidence evidence ≠ [] := by
  obtain ⟨e, rest, rfl⟩ := List.exists_cons_of_ne_nil h
  exact List.ne_nil_of_mem (mem_sortOn.mpr (List.mem_dedup.mpr List.mem_cons_self))

def sortedColumns (columns : List (PyStr × List PyStr)) : List ColumnMapping :=
  (sortOn Prod.fst columns).map fun c => ⟨sortOn id c.2.dedup, c.1⟩

def EdgeDraft.merged (edge : EdgeDraft) : MergedEdge where
  id := edge.id
  source := edge.source
  target := edge.target
  operation := edge.operation
  evidence := sortedEvidence edge.evidence
  trust := ((sortedEvidence edge.evidence).head (sortedEvidence_ne_nil edge.attested)).tier
  columns := sortedColumns edge.columns

/-! ### One node -/

/-- The default of `node_meta`. -/
def NodeMeta.external : NodeMeta := ⟨false, py "external", none, none, nofun⟩

/-- What is known of a node after one more mention. -/
def learn (seen : Option NodeMeta) (known : NodeMeta) : NodeMeta :=
  match seen with
  | some m => if m.resolved && !known.resolved then m else known
  | none => known

/-- The endpoints of an attestation, each with what is said of it. -/
def Attestation.mentions (att : Attestation) : List (PyStr × Option NodeMeta) :=
  [(att.source, att.sourceMeta), (att.target, att.targetMeta)]

def mention (nodeMeta : List (PyStr × NodeMeta)) (m : PyStr × Option NodeMeta) :
    List (PyStr × NodeMeta) :=
  Dict.set nodeMeta m.1 (learn m.2 ((Dict.get? nodeMeta m.1).getD .external))

/-- `systems/…/….schema.md`. -/
def docPath (fqn schema name : PyStr) : PyStr :=
  py "systems/" ++ Naming.mangle (fqn.takeWhile (· ≠ .unit 0x2E)) ++ py "/" ++ Naming.mangle schema ++
    py "/" ++ Naming.mangle name ++ py ".schema.md"

/-- `_node`. An object without a schema has no machine document. -/
def node (fqn : PyStr) (known : NodeMeta) : MergedNode where
  id := fqn
  nodeKind := known.kind
  resolved := known.resolved
  doc :=
    match known with
    | ⟨true, _, some schema, name, named⟩ =>
        if schema = [] then none else some (docPath fqn schema (name.get (named rfl)))
    | _ => none

/-! ### The merge -/

structure MergeState where
  edges : List (PyStr × EdgeDraft)
  nodeMeta : List (PyStr × NodeMeta)

variable (sha256 : List UInt8 → PyStr)

/-- The body of the loop. -/
def mergeStep (st : MergeState) (att : Attestation) : Except MergeError MergeState :=
  if att.operation ∉ operations then
    .error (.unknownOperation att.operation att.source att.target)
  else if att.evidence.tier ∉ tierOrder then .error (.unknownTier att.evidence.tier)
  else
    match edgeId sha256 att.source att.target att.operation with
    | none => .error (.notEncodable (payload att.source att.target att.operation))
    | some eid => .ok
        ⟨Dict.set st.edges eid (attest eid att (Dict.get? st.edges eid)),
          att.mentions.foldl mention st.nodeMeta⟩

def mergeAttestations (attestations : List Attestation) : Except MergeError Merged := do
  let st ← attestations.foldlM (mergeStep sha256) ⟨[], []⟩
  pure
    { nodes := (sortOn Prod.fst st.nodeMeta).map fun m => node m.1 m.2
      edges := (sortOn Prod.fst st.edges).map fun e => e.2.merged }

end ContextLayer.Lineage
