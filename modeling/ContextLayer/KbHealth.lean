import ContextLayer.Changelog
import ContextLayer.KbTools
import ContextLayer.Scan
import ContextLayer.Lib.Levels
import ContextLayer.Proof.PyJson

/-!
# The contaminated documents of the KB Health screen

A sync writes what a scan found into the front matter of the documents. The screen lists the documents that are
contaminated and says how the contamination reached each: the path the scan recorded, an edge the document declares,
or a walk of its own over the lineage graph.
-/

namespace ContextLayer.KbHealth

open Text

/-- `HUMAN_CLASSES`. -/
def humanClasses : List Text :=
  ["human-object", "human-group", "entity", "metric", "lineage-note"].map js

/-- What of the workspace the screen reads. -/
structure HealthKb where
  docs : List KbDoc
  keyedByPath : (docs.map KbDoc.path).Nodup
  /-- `graph?.edges`. -/
  edges : List (List (Text × Json))

/-! ### Paths -/

/-- `lineageEdges`. -/
def lineageEdges (kb : HealthKb) : List (Text × Text) :=
  kb.edges.filterMap fun edge => do
    let source ← (member edge "source").bind Json.asString
    let target ← (member edge "target").bind Json.asString
    if source = [] ∨ target = [] then none else some (source, target)

/-- `edges.get(hop) ?? []`. -/
def targets (edges : List (Text × Text)) (hop : Text) : List Text :=
  (edges.filter fun e => decide (e.1 = hop)).map Prod.snd

/-- One round of `shortestPath`. -/
structure Round where
  found : Option (List Text)
  seen : List Text
  next : List (List Text)

def visitHop (goal : Text) (r : Round) (e : List Text × Text) : Round :=
  if r.found.isSome ∨ e.2 ∈ r.seen then r
  else if e.2 = goal then { r with found := some (e.1 ++ [e.2]) }
  else { r with seen := r.seen ++ [e.2], next := r.next ++ [e.1 ++ [e.2]] }

/-- The hops out of the last nodes of the trails. -/
def onward (edges : List (Text × Text)) (frontier : List (List Text)) : List (List Text × Text) :=
  frontier.flatMap fun trail => (targets edges (trail.getLastD [])).map (Prod.mk trail)

def rounds (edges : List (Text × Text)) (goal : Text) : Nat → List Text → List (List Text) → Option (List Text)
  | 0, _, _ => none
  | depth + 1, seen, frontier =>
      if frontier = [] then none
      else
        let r := (onward edges frontier).foldl (visitHop goal) ⟨none, seen, []⟩
        match r.found with
        | some path => some path
        | none => rounds edges goal depth r.seen r.next

def shortestPath (edges : List (Text × Text)) (start goal : Text) : Option (List Text) :=
  if start = goal then some [start] else rounds edges goal 8 [start] [[start]]

/-! ### `contaminationList` -/

inductive PathSource where
  | recorded
  | declared
  | derived
  | self
  | unknown
  deriving DecidableEq

structure ContaminationRow where
  doc : Text
  title : Text
  object : Option Text
  sourceObject : Option Text
  change : Option Text
  detail : Option Text
  path : Option (List Text)
  pathSource : PathSource

/-- `doc.fm.contamination ?? null`. -/
def contaminationOf (doc : KbDoc) : Json := (doc.member "contamination").getD .null

def dependsOn (doc : KbDoc) : List Text :=
  match doc.member "depends_on" with
  | some (.arr entries) => entries.filterMap Json.asString
  | _ => []

/-- The path that was recorded, if it is a list of strings. -/
def recordedPath (contamination : Json) : Option (List Text) :=
  match contamination.field "path" with
  | some (.arr hops) => hops.mapM Json.asString
  | _ => none

/-- How the contamination reached the document. -/
def pathOf (edges : List (Text × Text)) (doc : KbDoc) : Option (List Text) × PathSource :=
  match recordedPath (contaminationOf doc), ((contaminationOf doc).field "object").bind Json.asString, doc.text "object" with
  | some path, _, _ => (some path, .recorded)
  | none, none, _ => (none, .unknown)
  | none, some source, own =>
      if own = some source then (some [source], .self)
      else if source ∈ dependsOn doc then (some (source :: own.toList), .declared)
      else
        match own.bind (shortestPath edges source) with
        | some path => (some path, .derived)
        | none => (none, .unknown)

def rowOf (edges : List (Text × Text)) (doc : KbDoc) : ContaminationRow where
  doc := neutralize doc.path
  title := neutralize doc.title
  object := (doc.text "object").map neutralize
  sourceObject := (((contaminationOf doc).field "object").bind Json.asString).map neutralize
  change := (((contaminationOf doc).field "change").bind Json.asString).map neutralize
  detail := (((contaminationOf doc).field "detail").bind Json.asString).map neutralize
  path := (pathOf edges doc).1.map (List.map neutralize)
  pathSource := (pathOf edges doc).2

def isHuman (doc : KbDoc) : Bool := (doc.text "doc_class").any fun c => decide (c ∈ humanClasses)

def isContaminated (doc : KbDoc) : Bool := decide (doc.text "status" = some (js "contaminated"))

def contaminationList (kb : HealthKb) (scopes : List Scope) : List ContaminationRow :=
  ((kb.docs.filter fun doc => isHuman doc && isContaminated doc && pathVisible scopes doc.path).map
    (rowOf (lineageEdges kb))).insertionSort fun a b => a.doc ≤ b.doc

/-! ### What the sync wrote -/

/-- The contamination of an instruction. -/
def reasonJson (r : Scan.Reason) : PyJson :=
  .obj ([(py "object", .str r.object), (py "change", .str r.impact.change), (py "detail", .str r.impact.detail)] ++
    if r.path = [] then [] else [(py "path", .arr (r.path.map .str))])

/-- The front matter of a document after the sync. -/
def writtenFm (result : Scan.ScanResult) (d : Scan.Doc) : Frontmatter.Members :=
  match result.contaminated.find? fun c => decide (c.doc = d.rel) with
  | some c => Dict.set (Dict.set d.fm (py "status") (.str (py "contaminated"))) (py "contamination") (reasonJson c.contamination)
  | none => d.fm

/-- The tree whose statuses were written from a scan, with the graph the scan went over, as the core reads it. -/
structure Written (docs : List Scan.Doc) (graph : LineageGraph) (result : Scan.ScanResult) (kb : HealthKb) : Prop where
  /-- A path is a name in a file system. -/
  names : ∀ d ∈ docs, d.rel.any CodePoint.isLone = false
  complete : ∀ d ∈ docs, ∃ doc ∈ kb.docs, doc.path = units d.rel
  reads : ∀ d ∈ docs, ∀ doc ∈ kb.docs, doc.path = units d.rel → ∀ key : String,
    doc.member key = (Frontmatter.get (writtenFm result d) key).map PyJson.toJson
  contaminated : ∀ doc ∈ kb.docs, isContaminated doc = true → ∃ c ∈ result.contaminated, doc.path = units c.doc
  edges : lineageEdges kb = (graph.edges.filter fun e => decide (e.source ≠ [] ∧ e.target ≠ [])).map fun e =>
    (units e.source, units e.target)

/-- `edge_id`: a digest behind its name. -/
def HasEdgeIds (graph : LineageGraph) : Prop :=
  ∀ e ∈ graph.edges, ∃ digest : PyStr, e.id = py "sha256:" ++ digest ∧
    ∀ c ∈ digest, c ∈ (List.range 16).map fun n => CodePoint.unit (hexDigit n)

/-! ### What is asked of the list -/

/-- The contaminated documents the viewer may see, in the order of the screen. -/
def shown (kb : HealthKb) (scopes : List Scope) : List KbDoc :=
  (kb.docs.filter fun doc => isContaminated doc && pathVisible scopes doc.path).insertionSort fun a b =>
    neutralize a.path ≤ neutralize b.path

def Edge (kb : HealthKb) (a b : Text) : Prop := (a, b) ∈ lineageEdges kb

/-- A sequence of names, joined by edges, from the broken object to a dependency. -/
structure IsRoute (kb : HealthKb) (broken : Text) (deps : List Text) (hops : List Text) : Prop where
  start : hops.head? = some broken
  joined : hops.IsChain (Edge kb)
  stop : ∃ dep ∈ deps, hops.getLast? = some dep

/-- Each contaminated document has its row, in order, and the row a route to the document. -/
structure Explained (docs : List Scan.Doc) (result : Scan.ScanResult) (kb : HealthKb) (scopes : List Scope)
    (hopsOf : KbDoc → List Text) : Prop where
  rows : (contaminationList kb scopes).map (fun row => (row.doc, row.path)) =
    (shown kb scopes).map fun doc => (neutralize doc.path, some ((hopsOf doc).map neutralize))
  all : ∀ c ∈ result.contaminated, pathVisible scopes (units c.doc) = true → ∃ doc ∈ shown kb scopes, doc.path = units c.doc
  route : ∀ c ∈ result.contaminated, ∀ d ∈ docs, d.rel = c.doc → ∀ doc ∈ shown kb scopes, doc.path = units c.doc →
    IsRoute kb (units c.contamination.object) (d.deps.map units) (hopsOf doc)

/-- The strings of `depends_on`. -/
def declared (d : Scan.Doc) : List PyStr :=
  match Frontmatter.get d.fm "depends_on" with
  | some (.arr entries) => entries.filterMap PyJson.asStr
  | _ => []

def ownObject (d : Scan.Doc) : Option Text := ((Frontmatter.get d.fm "object").bind PyJson.asStr).map units

/-- The object is reached by an edge where it is declared, and within eight hops where it is not. -/
def Routable (kb : HealthKb) (d : Scan.Doc) (broken : Text) : Prop :=
  ownObject d = some broken ∨
    ownObject d ≠ some broken ∧ (broken ∈ (declared d).map units ∧
        (∀ own ∈ ownObject d, ∃ dep ∈ d.deps.map units, neutralize dep = neutralize own ∧ Edge kb broken dep) ∨
      broken ∉ (declared d).map units ∧
        ∃ own ∈ ownObject d, Levels.Within (fun a => (targets (lineageEdges kb) a).map (Prod.mk ())) broken 8 own)

/-- The document is of a class that is listed, the scan recorded no path for it, and it is reached so. -/
structure Explainable (kb : HealthKb) (c : Scan.Contaminated) (d : Scan.Doc) : Prop where
  human : ((Frontmatter.get d.fm "doc_class").bind PyJson.asStr).any (fun cls => decide (units cls ∈ humanClasses)) = true
  direct : c.contamination.path = []
  routable : Routable kb d (units c.contamination.object)

end ContextLayer.KbHealth
