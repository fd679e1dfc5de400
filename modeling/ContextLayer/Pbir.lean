import ContextLayer.Frontmatter
import ContextLayer.PyText
import ContextLayer.SnapshotDiff

/-!
# The parts of a report

What is deployed of an artifact is generated from its layout and the schema of the delivered model: one part for each
page and one for each visual, under names that are hashes, in a dictionary of their paths.
-/

namespace ContextLayer.Pbir

open Text Frontmatter

/-! ### The registry -/

/-- An entry of `REGISTRY_VISUALS`: each encoding with its bucket. -/
structure VisualSpec where
  visualType : PyStr
  buckets : List (String × String)

/-- `REGISTRY_VISUALS`. -/
def registryVisuals : List (PyStr × VisualSpec) :=
  [(py "bar", ⟨py "barChart", [("x", "Category"), ("y", "Y"), ("series", "Series")]⟩),
    (py "line", ⟨py "lineChart", [("x", "Category"), ("y", "Y"), ("series", "Series")]⟩),
    (py "table", ⟨py "tableEx", [("columns", "Values")]⟩),
    (py "scorecard", ⟨py "card", [("y", "Values")]⟩),
    (py "pivot", ⟨py "pivotTable", [("x", "Rows"), ("series", "Columns"), ("y", "Values")]⟩)]

/-- `DEFAULT_BUCKETS`. -/
def defaultBuckets : List (String × String) :=
  [("x", "Category"), ("y", "Y"), ("series", "Series"), ("columns", "Values")]

/-! ### The parts -/

/-- A column as a visual refers to it. -/
structure FieldRef where
  entity : PyStr
  property : PyStr
  deriving DecidableEq

/-- `queryRef`. -/
def FieldRef.queryRef (ref : FieldRef) : PyStr := ref.entity ++ py "." ++ ref.property

structure VisualPart where
  name : PyStr
  visualType : PyStr
  queryState : List (PyStr × List FieldRef)
  title : Option PyStr

inductive Part where
  | definition (connectionString : PyStr)
  | version
  | report
  | page (name displayName : PyStr)
  | visual (visual : VisualPart)
  /-- The visual of the trust notes, by the lines of its text box. -/
  | trust (name : PyStr) (lines : List PyStr)
  | pages (pageOrder : List PyStr) (activePageName : PyStr)

abbrev Parts := List (PyStr × Part)

def pagePath (page : PyStr) : PyStr := py "definition/pages/" ++ page ++ py "/page.json"

def visualPath (page visual : PyStr) : PyStr :=
  py "definition/pages/" ++ page ++ py "/visuals/" ++ visual ++ py "/visual.json"

/-! ### Reading -/

/-- The schema of the delivered model: each table with the set of its columns. -/
abbrev Tables := List (PyStr × List PyStr)

section Build

variable (unicode : Unicode) (sha256 : List UInt8 → PyStr)

/-- `str(value.get(key))`. -/
def textAt (members : Members) (key : String) : PyStr := PyText.str unicode ((get members key).getD .null)

/-- `str(value.get(key, ""))`. -/
def textOrEmpty (members : Members) (key : String) : PyStr := PyText.str unicode ((get members key).getD (.str []))

/-- A value that has `get`; `none` is an `AttributeError`. -/
def dictOf : PyJson → Option Members
  | .obj members => some members
  | _ => none

def deliveredTable (table : PyJson) : Option (PyStr × List PyStr) := do
  let members ← dictOf table
  let columns ← (← PyJson.iterateOr (get members "columns")).mapM fun column =>
    (dictOf column).map fun c => textAt unicode c "name"
  pure (textAt unicode members "name", columns)

def deliveredTables (delivered : Members) : Option Tables := do
  let tables ← (← PyJson.iterateOr (get delivered "tables")).mapM (deliveredTable unicode)
  pure (Dict.ofList tables)

/-- `stable_name`; `none` is a `UnicodeEncodeError`. -/
def stableName (keys : List PyStr) : Option PyStr :=
  (encodeUtf8 ((py "\n").intercalate keys)).map fun bytes => (sha256 bytes).take 20

/-- `value if isinstance(value, list) else [value] if value else []`, each as a text. -/
def namedColumns (visual : Members) (encoding : String) : List PyStr :=
  match get visual encoding with
  | some (.arr items) => items.map (PyText.str unicode)
  | some value => if value.truthy then [PyText.str unicode value] else []
  | none => []

/-- `spec`, with what there is without one. -/
def specOf (visual : Members) : VisualSpec :=
  let kind := textOrEmpty unicode visual "kind"
  ((Dict.get? registryVisuals (textAt unicode visual "registry_kind")).or (Dict.get? registryVisuals kind)).getD
    ⟨kind, defaultBuckets⟩

/-- `query_state`; `none` where a column is not delivered. -/
def queryState (table : PyStr) (columns : List PyStr) (visual : Members) : Option (List (PyStr × List FieldRef)) :=
  let buckets := (specOf unicode visual).buckets
  if buckets.all fun b => (namedColumns unicode visual b.1).all fun column => decide (column ∈ columns) then
    some (Dict.ofList (buckets.filterMap fun b =>
      let projections := (namedColumns unicode visual b.1).map (FieldRef.mk table)
      if projections = [] then none else some (py b.2, projections)))
  else none

/-- A visual of the layout; `none` is an exit. -/
def visualPart (tables : Tables) (artifactId pageDisplay : PyStr) (index : Nat) (visual : PyJson) :
    Option VisualPart := do
  let visual ← dictOf visual
  let name ← stableName sha256 [artifactId, py "visual", pageDisplay, PyText.natText index]
  let table := textOrEmpty unicode visual "table"
  let columns ← Dict.get? tables table
  let state ← queryState unicode table columns visual
  if state = [] then none
  else pure {
    name
    visualType := (specOf unicode visual).visualType
    queryState := state
    title := ((get visual "title").filter PyJson.truthy).map (PyText.str unicode) }

/-! ### `build_parts` -/

/-- What a page of the layout has come to. -/
structure BuiltPage where
  name : PyStr
  display : PyStr
  visuals : List VisualPart
  /-- The name and the lines of the trust visual, on its page. -/
  trust : Option (PyStr × List PyStr)

/-- The assignments to `parts`, in order. -/
def BuiltPage.parts (page : BuiltPage) : Parts :=
  (pagePath page.name, .page page.name page.display) ::
    (page.visuals.map (fun v => (visualPath page.name v.name, Part.visual v)) ++
      page.trust.toList.map fun t => (visualPath page.name t.1, Part.trust t.1 t.2))

/-- `str(page.get("name") or f"Page {page_index + 1}")`. -/
def pageDisplay (page : Members) (index : Nat) : PyStr :=
  match (get page "name").filter PyJson.truthy with
  | some name => PyText.str unicode name
  | none => py "Page " ++ PyText.natText (index + 1)

/-- `trust_element.get("page") == page.get("name")`. -/
def trustHere (trustElement page : Members) : Bool :=
  ((get trustElement "page").getD .null).pyEq ((get page "name").getD .null)

def trustLines (artifactId generatedDate : PyStr) (notes : List PyStr) : List PyStr :=
  (if notes = [] then [py "Trust: no outstanding disclosures for this report's sources."]
    else notes.map fun note => py "Trust: " ++ note) ++
    [py "Context Layer artifact " ++ artifactId ++ py " — generated " ++ generatedDate ++ py "."]

def buildPage (tables : Tables) (artifactId : PyStr) (trustElement : Members) (lines : List PyStr) (page : PyJson)
    (index : Nat) : Option BuiltPage := do
  let page ← dictOf page
  let display := pageDisplay unicode page index
  let name ← stableName sha256 [artifactId, py "page", display]
  let visuals ← PyJson.iterateOr (get page "visuals")
  let parts ← visuals.zipIdx.mapM fun (visual, i) => visualPart unicode sha256 tables artifactId display i visual
  if trustHere trustElement page then
    let trustName ← stableName sha256 [artifactId, py "trust", display]
    pure ⟨name, display, parts, some (trustName, lines)⟩
  else pure ⟨name, display, parts, none⟩

/-- `layout["pages"]`, where it is a list. -/
def layoutPages (artifact : Members) : Option (Members × List PyJson) := do
  let layout ← (get artifact "layout").bind dictOf
  match get layout "pages" with
  | some (.arr pages) => some (layout, pages)
  | _ => none

/-- `(artifact.get("semantics") or {}).get("trust_notes") or []`, each as a text. -/
def trustNotes (artifact : Members) : Option (List PyStr) := do
  let semantics ← match (get artifact "semantics").filter PyJson.truthy with
    | some value => dictOf value
    | none => some []
  (← PyJson.iterateOr (get semantics "trust_notes")).map (PyText.str unicode)

/-- The parts; `none` is an exit or an exception. -/
def buildParts (artifact delivered : Members) (generatedDate : PyStr) : Option Parts := do
  let (layout, pages) ← layoutPages artifact
  let trustElement ← (get layout "trust_element").bind dictOf
  let artifactId := textOrEmpty unicode artifact "id"
  let datasetId := textOrEmpty unicode delivered "dataset_id"
  let tables ← deliveredTables unicode delivered
  let notes ← trustNotes unicode artifact
  if (get trustElement "content_from").bind PyJson.asStr ≠ some (py "trust_notes") ∨ tables = [] ∨ datasetId = [] then
    none
  else do
    let built ← pages.zipIdx.mapM fun (page, i) =>
      buildPage unicode sha256 tables artifactId trustElement (trustLines artifactId generatedDate notes) page i
    if (pages.filterMap dictOf).all fun page => !trustHere trustElement page then none
    else do
      let active ← (built.map BuiltPage.name).head?
      pure (Dict.ofList
        ([(py "definition.pbir", Part.definition (py "semanticmodelid=" ++ datasetId)),
            (py "definition/version.json", .version), (py "definition/report.json", .report)] ++
          built.flatMap BuiltPage.parts ++
          [(py "definition/pages/pages.json", .pages (built.map BuiltPage.name) active)]))

/-! ### The layout in the parts -/

/-- The encodings among the members of a layout visual. -/
def encodingMembers : List String := ["x", "y", "series", "values", "columns"]

def membersOf (value : PyJson) : Members := (dictOf value).getD []

def pagesOfLayout (artifact : Members) : List PyJson := ((layoutPages artifact).map Prod.snd).getD []

def trustElementOf (artifact : Members) : Members :=
  ((layoutPages artifact).bind fun l => (get l.1 "trust_element").bind dictOf).getD []

def visualsOf (page : PyJson) : List PyJson := (PyJson.iterateOr (get (membersOf page) "visuals")).getD []

/-- The page orders that the parts have. -/
def pageOrders (parts : Parts) : List (List PyStr) :=
  parts.filterMap fun
    | (_, .pages order _) => some order
    | _ => none

/-- The page parts, by name and display name. -/
def pageParts (parts : Parts) : List (PyStr × PyStr) :=
  parts.filterMap fun
    | (_, .page name display) => some (name, display)
    | _ => none

/-- The visual parts of a page of the layout. -/
def visualParts (parts : Parts) (page : PyStr) : List VisualPart :=
  parts.filterMap fun
    | (path, .visual v) => if path = visualPath page v.name then some v else none
    | _ => none

/-- The trust visuals, by path and lines. -/
def trustParts (parts : Parts) : List (PyStr × List PyStr) :=
  parts.filterMap fun
    | (path, .trust _ lines) => some (path, lines)
    | _ => none

/-- Every column that a member of the visual names is in the query state. -/
def Shows (visual : PyJson) (v : VisualPart) : Prop :=
  ∀ e ∈ encodingMembers, ∀ column ∈ namedColumns unicode (membersOf visual) e,
    ∃ bucket ∈ v.queryState, ⟨textOrEmpty unicode (membersOf visual) "table", column⟩ ∈ bucket.2

/-- A table that was delivered has the column. -/
def Delivered (delivered : Members) (ref : FieldRef) : Prop :=
  ∃ tables, PyJson.iterateOr (get delivered "tables") = some tables ∧
    ∃ table ∈ tables, textAt unicode (membersOf table) "name" = ref.entity ∧
      ∃ columns, PyJson.iterateOr (get (membersOf table) "columns") = some columns ∧
        ∃ column ∈ columns, textAt unicode (membersOf column) "name" = ref.property

/-- The layout is realised in full. -/
structure Realised (artifact delivered : Members) (parts : Parts) : Prop where
  pages : ∃ order, pageOrders parts = [order] ∧ order.Nodup ∧ (pageParts parts).map Prod.fst = order ∧
    (pageParts parts).map Prod.snd = (pagesOfLayout artifact).map fun page => textAt unicode (membersOf page) "name"
  visuals : ∀ order ∈ pageOrders parts, List.Forall₂
    (fun page name => List.Forall₂ (Shows unicode) (visualsOf page) (visualParts parts name))
    (pagesOfLayout artifact) order
  trust : ∃ page ∈ pageParts parts, page.2 = textAt unicode (trustElementOf artifact) "page" ∧
    ∃ name lines, trustParts parts = [(visualPath page.1 name, lines)] ∧
      ∀ notes, trustNotes unicode artifact = some notes → ∀ note ∈ notes, py "Trust: " ++ note ∈ lines
  refs : ∀ path v, (path, Part.visual v) ∈ parts → ∀ bucket ∈ v.queryState, ∀ ref ∈ bucket.2,
    Delivered unicode delivered ref
  placed : (∀ path name display, (path, Part.page name display) ∈ parts → path = pagePath name) ∧
    ∀ path v, (path, Part.visual v) ∈ parts → ∃ page ∈ pageParts parts, path = visualPath page.1 v.name

/-- What `hexdigest` is. -/
def IsHexDigest (digest : PyStr) : Prop :=
  digest.length = 64 ∧ ∀ p ∈ digest, p ∈ (List.range 16).map fun n => CodePoint.unit (hexDigit n)

/-- The keys of the visuals in the folder of a page. -/
def visualKeys (artifact : Members) (page : PyJson) (index : Nat) : List (List PyStr) :=
  let artifactId := textOrEmpty unicode artifact "id"
  let display := pageDisplay unicode (membersOf page) index
  (visualsOf page).zipIdx.map (fun (_, i) => [artifactId, py "visual", display, PyText.natText i]) ++
    if trustHere (trustElementOf artifact) (membersOf page) then [[artifactId, py "trust", display]] else []

/-- No two pages, and no two visuals of a page, have one stable name. -/
structure NamesApart (artifact : Members) : Prop where
  pages : ((pagesOfLayout artifact).zipIdx.map fun (page, i) => stableName sha256
    [textOrEmpty unicode artifact "id", py "page", pageDisplay unicode (membersOf page) i]).Nodup
  visuals : ∀ page ∈ (pagesOfLayout artifact).zipIdx,
    ((visualKeys unicode artifact page.1 page.2).map (stableName sha256)).Nodup

/-- Each column that a visual names is named by a member that its kind has a bucket for. -/
def Bucketed (artifact : Members) : Prop :=
  ∀ page ∈ pagesOfLayout artifact, ∀ visual ∈ visualsOf page, ∀ e ∈ encodingMembers,
    ∀ column ∈ namedColumns unicode (membersOf visual) e,
      ∃ b ∈ (specOf unicode (membersOf visual)).buckets, column ∈ namedColumns unicode (membersOf visual) b.1

end Build

end ContextLayer.Pbir
