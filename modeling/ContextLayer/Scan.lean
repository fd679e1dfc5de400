import ContextLayer.SnapshotDiff
import ContextLayer.Frontmatter
import ContextLayer.Graph
import ContextLayer.Naming

/-!
# The contamination scan

What a finalized diff breaks contaminates the documents that depend on it, by declaration or along the
lineage graph. A document without a status of its own, and one the generator owns, is never flagged.
-/

namespace ContextLayer

open Text StableSort

/-! ### Classification -/

namespace Diff

/-- `sub["change"]`. -/
def Change.text : Change → PyStr
  | .columnAdded _ => py "column_added"
  | .columnRemoved _ => py "column_removed"
  | .columnTypeChanged _ _ _ => py "column_type_changed"
  | .columnNullableTightened _ => py "column_nullable_tightened"
  | .columnNullableLoosened _ => py "column_nullable_loosened"
  | .columnDefaultChanged _ _ _ => py "column_default_changed"
  | .columnOrdinalChanged _ _ _ => py "column_ordinal_changed"
  | .primaryAdded _ => py "key_added"
  | .primaryRemoved _ => py "key_removed"
  | .primaryAltered _ _ => py "key_altered"
  | .foreignAdded _ => py "key_added"
  | .foreignRemoved _ => py "key_removed"
  | .foreignAltered _ _ _ => py "key_altered"
  | .uniqueAdded _ => py "key_added"
  | .uniqueRemoved _ => py "key_removed"
  | .definitionChanged _ _ => py "definition_changed"
  | .statChanged _ _ _ => py "stat_changed"

/-- `sub["detail"][label]`, of a change `_SUB_LABELS` has a label for. -/
def Change.label : Change → Option PyStr
  | .columnAdded c => some c.name
  | .columnRemoved c => some c.name
  | .columnTypeChanged column _ _ => some column
  | .columnNullableTightened column => some column
  | .columnNullableLoosened column => some column
  | .columnDefaultChanged column _ _ => some column
  | .columnOrdinalChanged column _ _ => some column
  | .primaryAdded _ => some (py "primary")
  | .primaryRemoved _ => some (py "primary")
  | .primaryAltered _ _ => some (py "primary")
  | .foreignAdded _ => some (py "foreign")
  | .foreignRemoved _ => some (py "foreign")
  | .foreignAltered _ _ _ => some (py "foreign")
  | .uniqueAdded _ => some (py "unique")
  | .uniqueRemoved _ => some (py "unique")
  | .definitionChanged _ _ => none
  | .statChanged stat _ _ => some stat

end Diff

namespace Scan

open Diff

def describeSub (s : SubDiff) : PyStr :=
  match s.change.label with
  | none => s.change.text
  | some label => s.change.text ++ py ": " ++ label

def objectFqn (system : PyStr) (d : ObjectDiff) : PyStr :=
  Naming.fqn system d.identity.2.1 d.identity.2.2

structure Impact where
  change : PyStr
  detail : PyStr
  deriving DecidableEq

def removedImpact : Impact := ⟨py "removed", py "object removed from snapshot"⟩

def breakingSubs (d : ObjectDiff) : List SubDiff := d.subDiffs.filter fun s => s.severity = .breaking

def changedImpact (d : ObjectDiff) : Impact where
  change :=
    let changes := sortOn id ((breakingSubs d).map fun s => s.change.text).dedup
    (py "+").intercalate (if changes = [] then [py "changed"] else changes)
  detail :=
    let detail := (py "; ").intercalate ((breakingSubs d).map describeSub)
    if detail = [] then py "structural change" else detail

def additiveDetail (d : ObjectDiff) : PyStr := (py "; ").intercalate (d.subDiffs.map describeSub)

structure Classified where
  breaking : List (PyStr × Impact)
  additive : List (PyStr × PyStr)
  grep : List PyStr

/-- What `breaking` is assigned, in order. -/
def breakingOf (diff : SnapshotDiff) : List (PyStr × Impact) :=
  diff.removed.map (fun d => (objectFqn diff.system d, removedImpact)) ++
    (diff.changedStructural.filter fun d => d.severity = some .breaking).map fun d =>
      (objectFqn diff.system d, changedImpact d)

def additiveOf (diff : SnapshotDiff) : List (PyStr × PyStr) :=
  (diff.changedStructural.filter fun d => d.severity ≠ some .breaking).map fun d =>
    (objectFqn diff.system d, additiveDetail d)

/-- `classify`, of diffs whose severities are final. -/
def classify (diffs : List SnapshotDiff) : Classified where
  breaking := Dict.ofList (diffs.flatMap breakingOf)
  additive := Dict.ofList (diffs.flatMap additiveOf)
  grep := (diffs.flatMap fun diff =>
    (diff.removed ++ diff.added ++ diff.changedStructural).map (objectFqn diff.system)).dedup

/-! ### Documents -/

/-- The Markdown files of a knowledge base and their texts. -/
structure KbTree where
  files : List (PyStr × PyStr)
  nodup : (files.map Prod.fst).Nodup

/-- `_MACHINE_CLASSES`. -/
def machineClasses : List PyStr := [py "machine-object", py "machine-group", py "machine-index"]

def pathParts (rel : PyStr) : List PyStr := rel.splitOn (.unit 0x2F)

def isMachinePath (parts : List PyStr) : Bool :=
  parts.head? == some (py "systems") &&
    (parts.getLast? == some (py "index.md") || parts.getLast?.any fun name => py ".schema.md" <:+ name)

structure Doc where
  rel : PyStr
  fm : Frontmatter.Members
  body : PyStr
  deps : List PyStr

def Doc.status (doc : Doc) : Option PyJson := Frontmatter.get doc.fm "status"

def Doc.statusable (doc : Doc) : Bool :=
  (doc.status.bind PyJson.asStr).isSome &&
    ((Frontmatter.get doc.fm "doc_class").bind PyJson.asStr).any fun c => c ∉ machineClasses

/-- `_dep_entries`; `none` is a `TypeError`. -/
def depEntries (value : Option PyJson) : Option (List PyStr) :=
  (PyJson.iterateOr value).map fun entries => entries.filterMap fun
    | .str s => some s
    | .obj members =>
        if (Frontmatter.get members "external").any PyJson.truthy then none
        else (Frontmatter.get members "object").bind PyJson.asStr
    | _ => none

/-- `doc_class in _MACHINE_CLASSES`; `none` is a `TypeError`. -/
def isMachineClass : Option PyJson → Option Bool
  | some (.str s) => some (decide (s ∈ machineClasses))
  | some (.arr _) => none
  | some (.obj _) => none
  | _ => some false

structure Loaded where
  machineFm : List (PyStr × Frontmatter.Members)
  docs : List Doc

/-- One file of the loop. -/
def loadFile (yaml : PyStr → Option PyJson) (st : Loaded) (file : PyStr × PyStr) : Option Loaded :=
  let parts := pathParts file.1
  if parts.any fun p => py "." <+: p then some st
  else
    let (fm, body) := Frontmatter.split yaml file.2
    (isMachineClass (fm.bind (Frontmatter.get · "doc_class"))).map fun machine =>
      if machine || (fm.isNone && isMachinePath parts) then
        { st with machineFm := st.machineFm ++ fm.toList.map fun members => (file.1, members) }
      else { st with docs := st.docs ++ [⟨file.1, fm.getD [], body, []⟩] }

/-- The identities in the machine sibling. -/
def siblingDeps (sibling : Frontmatter.Members) : Option (List PyStr) :=
  (PyJson.iterateOr (Frontmatter.get sibling "objects")).map fun entries =>
    ((Frontmatter.get sibling "object").bind PyJson.asStr).toList ++ entries.filterMap fun
      | .obj members => (Frontmatter.get members "object").bind PyJson.asStr
      | _ => none

def depsOf (machineFm : List (PyStr × Frontmatter.Members)) (doc : Doc) : Option (List PyStr) := do
  let dependsOn ← depEntries (Frontmatter.get doc.fm "depends_on")
  let maps ← depEntries (Frontmatter.get doc.fm "maps")
  let own := ((Frontmatter.get doc.fm "object").bind PyJson.asStr).toList
  let roster ← siblingDeps
    ((Dict.get? machineFm (doc.rel.take (doc.rel.length - 3) ++ py ".schema.md")).getD [])
  pure (dependsOn ++ maps ++ own ++ roster)

/-- `load_docs`; `none` is a `TypeError`. -/
def loadDocs (yaml : PyStr → Option PyJson) (kb : KbTree) : Option (List Doc) := do
  let loaded ← (sortOn (fun file => pathParts file.1) kb.files).foldlM (loadFile yaml) ⟨[], []⟩
  loaded.docs.mapM fun doc => (depsOf loaded.machineFm doc).map fun deps => { doc with deps }

/-! ### The walk -/

/-- The nodes downstream of one and the edges to each. -/
def contaminationWalk (graph : LineageGraph) (start : PyStr) : List (PyStr × List PyStr) :=
  BreadthFirst.search ((sortOn GraphEdge.id graph.edges).map GraphEdge.arc) start

/-- `sibling_of`: the node whose machine document is the sibling of a path. -/
def siblingOf (graph : LineageGraph) : List (PyStr × PyStr) :=
  Dict.ofList (graph.nodes.flatMap fun n => n.doc.toList.map fun path =>
    (path.take (path.length - 10) ++ py ".md", n.id))

/-! ### The scan -/

structure Reason where
  object : PyStr
  impact : Impact
  path : List PyStr
  deriving DecidableEq

section

variable (docs : List Doc) (graph : LineageGraph) (breaking : List (PyStr × Impact))

/-- A node that was reached flags a document. -/
def flags (doc : Doc) (reached : PyStr) : Bool :=
  decide (reached ∈ doc.deps) || decide (Dict.get? (siblingOf graph) doc.rel = some reached)

/-- One call of `flag`. -/
def flagged (b : PyStr × Impact) (path : List PyStr) (doc : Doc) :
    Option ((PyStr × PyStr) × Reason) :=
  if doc.statusable then some ((doc.rel, b.1), ⟨b.1, b.2, path⟩) else none

/-- The calls of `flag` for one breaking object, in order. -/
def flaggedBy (b : PyStr × Impact) : List ((PyStr × PyStr) × Reason) :=
  (docs.filter fun doc => decide (b.1 ∈ doc.deps)).filterMap (flagged b []) ++
    if b.1 ∈ graph.nodes.map GraphNode.id then
      ((sortOn (fun reached => toLex (reached.2.length, reached.1))
        (contaminationWalk graph b.1)).filter fun reached => reached.1 ≠ b.1).flatMap fun reached =>
          (docs.filter fun doc => flags graph doc reached.1).filterMap (flagged b reached.2)
    else []

/-- `reasons`, by document and object. -/
def reasons : List ((PyStr × PyStr) × Reason) :=
  ((sortOn Prod.fst breaking).flatMap (flaggedBy docs graph)).foldl
    (fun d p => Dict.setDefault d p.1 p.2) []

end

structure Contaminated where
  doc : PyStr
  statusWas : Option PyJson
  contamination : Reason
  reasons : List Reason

structure Stale where
  doc : PyStr
  statusWas : Option PyJson
  objects : List PyStr

structure ScanResult where
  contaminated : List Contaminated
  stale : List Stale
  undeclaredReferences : List (PyStr × PyStr)
  breaking : List (PyStr × Impact)
  additiveChanged : List PyStr

def Reason.sortKey (r : Reason) : Nat ×ₗ PyStr := toLex (r.path.length, r.object)

/-- The reasons of one document, in order. -/
def reasonsOf (rs : List ((PyStr × PyStr) × Reason)) (rel : PyStr) : List Reason :=
  sortOn Reason.sortKey ((rs.filter fun r => r.1.1 = rel).map Prod.snd)

/-- The entry of a document that has reasons. -/
def contaminatedEntry (docs : List Doc) (rs : List ((PyStr × PyStr) × Reason)) (rel : PyStr) :
    Option Contaminated := do
  let doc ← docs.find? fun doc => doc.rel = rel
  let first ← (reasonsOf rs rel).head?
  pure ⟨rel, doc.status, first, reasonsOf rs rel⟩

/-- The entry of a verified document that additive changes reach. -/
def staleEntry (additive : List (PyStr × PyStr)) (contaminated : List PyStr) (doc : Doc) :
    Option Stale :=
  let hits := sortOn id ((additive.map Prod.fst).filter fun fqn => decide (fqn ∈ doc.deps))
  if doc.rel ∈ contaminated ∨ doc.status.bind PyJson.asStr ≠ some (py "verified") ∨ hits = [] then none
  else some ⟨doc.rel, doc.status, hits⟩

/-- `[a-z_]`. -/
def isKindChar : CodePoint → Bool
  | .pair _ _ _ _ => false
  | .unit u => (0x61 ≤ u && u ≤ 0x7A) || u == 0x5F

/-- ``re.search("`" + re.escape(fqn) + r"(?: \([a-z_]+\))?`", text)``. -/
def mentions (fqn text : PyStr) : Bool :=
  text.tails.any fun rest =>
    decide (py "\x60" ++ fqn <+: rest) &&
      let after := rest.drop (fqn.length + 1)
      let word := (after.drop 2).takeWhile isKindChar
      decide (py "\x60" <+: after) ||
        (decide (py " (" <+: after) && !word.isEmpty &&
          decide (py ")\x60" <+: after.drop (2 + word.length)))

/-- `scan`; `none` is an exception. -/
def scan (yaml : PyStr → Option PyJson) (kb : KbTree) (diffs : List SnapshotDiff)
    (graph : LineageGraph) : Option ScanResult := do
  let c := classify diffs
  let docs ← loadDocs yaml kb
  let rs := reasons docs graph c.breaking
  let rels : List PyStr := sortOn id (rs.map fun r => r.1.1).dedup
  pure {
    contaminated := rels.filterMap (contaminatedEntry docs rs)
    stale := sortOn Stale.doc (docs.filterMap (staleEntry c.additive rels))
    undeclaredReferences := sortOn (fun u => toLex u) (docs.flatMap fun doc =>
      ((sortOn id c.grep).filter fun fqn => decide (fqn ∉ doc.deps) && mentions fqn doc.body).map
        fun fqn => (doc.rel, fqn))
    breaking := sortOn Prod.fst c.breaking
    additiveChanged := sortOn id (c.additive.map Prod.fst) }

/-! ### What contaminates a document -/

/-- The FQN of a removed object, or of one whose change is breaking. -/
def IsBroken (diffs : List SnapshotDiff) (b : PyStr) : Prop :=
  ∃ diff ∈ diffs, (∃ d ∈ diff.removed, objectFqn diff.system d = b) ∨
    ∃ d ∈ diff.changedStructural, d.severity = some .breaking ∧ objectFqn diff.system d = b

section

variable (graph : LineageGraph) (doc : Doc)

/-- The machine document of the node is the sibling of the document. -/
def IsSibling (r : PyStr) : Prop :=
  ∃ n ∈ graph.nodes, n.id = r ∧
    ∃ stem, n.doc = some (stem ++ py ".schema.md") ∧ doc.rel = stem ++ py ".md"

/-- A chain of edge ids leads to a node other than the first that the document depends on. -/
def Reaches (b : PyStr) (path : List PyStr) : Prop :=
  ∃ r, r ≠ b ∧ (r ∈ doc.deps ∨ IsSibling graph doc r) ∧
    BreadthFirst.Walk (graph.edges.map GraphEdge.arc) b path r

def Contaminates (b : PyStr) : Prop :=
  b ∈ doc.deps ∨ (b ∈ graph.nodes.map GraphNode.id ∧ ∃ path, Reaches graph doc b path)

/-- The path a reason records. -/
structure IsReasonPath (b : PyStr) (path : List PyStr) : Prop where
  direct : b ∈ doc.deps → path = []
  downstream : b ∉ doc.deps → Reaches graph doc b path ∧
    ∀ path', Reaches graph doc b path' → path.length ≤ path'.length

end

section

variable (docs : List Doc) (diffs : List SnapshotDiff) (graph : LineageGraph)

/-- **Sound and complete.** -/
structure ScanResult.Exact (result : ScanResult) : Prop where
  contaminated : ∀ rel, rel ∈ result.contaminated.map Contaminated.doc ↔
    ∃ doc ∈ docs, doc.rel = rel ∧ doc.statusable = true ∧
      ∃ b, IsBroken diffs b ∧ Contaminates graph doc b
  reasons : ∀ c ∈ result.contaminated, ∀ doc ∈ docs, doc.rel = c.doc →
    (c.reasons.map Reason.object).Nodup ∧
      (∀ b, b ∈ c.reasons.map Reason.object ↔ IsBroken diffs b ∧ Contaminates graph doc b) ∧
        ∀ r ∈ c.reasons, IsReasonPath graph doc r.object r.path
  first : ∀ c ∈ result.contaminated, c.contamination ∈ c.reasons ∧
    ∀ r ∈ c.reasons, c.contamination.sortKey ≤ r.sortKey

/-- The last of the nodes whose machine document is the sibling. -/
def lastSibling (doc : Doc) : Option PyStr :=
  (graph.nodes.filter fun n => n.doc.any fun path =>
    decide (path.take (path.length - 10) ++ py ".md" = doc.rel)).getLast?.map GraphNode.id

/-- Where nodes share the sibling of a document, one that is not the last is downstream only behind
another that counts. -/
def Unshadowed : Prop :=
  ∀ doc ∈ docs, doc.statusable = true → ∀ b, IsBroken diffs b → b ∉ doc.deps →
    b ∈ graph.nodes.map GraphNode.id → ∀ r, r ≠ b → IsSibling graph doc r →
      ∀ path, BreadthFirst.Walk (graph.edges.map GraphEdge.arc) b path r →
        ∃ r', r' ≠ b ∧ (r' ∈ doc.deps ∨ lastSibling graph doc = some r') ∧
          ∃ path', BreadthFirst.Walk (graph.edges.map GraphEdge.arc) b path' r' ∧
            path'.length ≤ path.length

end

end Scan

end ContextLayer
