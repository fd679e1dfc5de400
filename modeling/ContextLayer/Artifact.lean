import ContextLayer.Publish
import ContextLayer.Queue

/-!
# What an artifact must have

The findings against the shape of a report artifact, in the order they are found. An artifact without one is
published; the authored layout has a shape of its own, and any other layout is left alone.
-/

namespace ContextLayer

open Text

def nonEmptyText (value : Option Json) : Bool := (nonEmptyString value).isSome

def textOf (value : Option Json) : Text := (value.bind Json.asString).getD []

/-- `JSON.stringify(value)` in a template. -/
def jsonText : Option Json → Text
  | none => js "undefined"
  | some v => stringify v

/-- `Object.keys(value)`. -/
def keysOf (value : Json) : List Text := (spread value).map Prod.fst

/-- The items of an array, with their places. -/
def itemsOf : Option Json → List (Json × Nat)
  | some (.arr items) => items.zipIdx
  | _ => []

def isNonEmptyArray : Option Json → Bool
  | some (.arr (_ :: _)) => true
  | _ => false

/-- `Array.isArray(value) ? value.map(v => v.name) : []`, the texts of it. -/
def queryNames (artifact : List (Text × Json)) : List Text :=
  (itemsOf (member artifact "queries")).filterMap fun (q, _) => (q.field "name").bind Json.asString

/-- `VISUAL_KINDS`. -/
def visualKinds : List Text := [js "table", js "line", js "bar", js "scorecard", js "pivot"]

def isVisualKind (kind : Option Json) : Bool := ((kind.bind Json.asString).any fun k => decide (k ∈ visualKinds))

/-- `BACKING_MODES`. -/
def backingModes : List Text := [js "direct", js "reporting_view", js "dataset_ref"]

/-! ### `layoutProblems` -/

/-- `LAYOUT_KEYS`. -/
def layoutKeys : List Text := [js "designed_by", js "pages", js "trust_element", js "pbir_hash"]

/-- `LAYOUT_VISUAL_KEYS`. -/
def layoutVisualKeys : List Text :=
  [js "kind", js "registry_kind", js "table", js "x", js "y", js "series", js "values", js "columns", js "title",
    js "notes"]

/-- `TRUST_ELEMENT_KEYS`. -/
def trustElementKeys : List Text := [js "page", js "placement", js "content_from"]

/-- The keys a closed schema does not have. -/
def unknownKeys (known : List Text) (label : Text) (suffix : String) (value : Json) : List Text :=
  ((keysOf value).filter (· ∉ known)).map fun key => label ++ js "." ++ key ++ js suffix

def visualProblems (names : List Text) (label : Text) (visual : Json) : List Text :=
  unknownKeys layoutVisualKeys label " is not a §4.7 visual member" visual ++
  problemUnless (nonEmptyText (visual.field "kind")) (label ++ js ".kind is required") ++
  (match nonEmptyString (visual.field "table") with
  | some table => problemUnless (decide (table ∈ names)) (label ++ js ".table " ++ stringify (.str table) ++
      js " names no artifact query — the delivered model's tables are named per result-set alias (formats §4.7)")
  | none => [label ++ js ".table is required"]) ++
  match visual.field "registry_kind" with
  | some kind => problemUnless (isVisualKind (some kind)) (label ++ js ".registry_kind " ++ stringify kind ++
      js " is outside the §4.4 registry (" ++ (js " | ").intercalate visualKinds ++ js ")")
  | none => problemUnless (nonEmptyText (visual.field "notes"))
      (label ++ js (" carries no registry_kind and no notes — a kind outside the five-kind " ++
        "registry needs its one-line justification recorded (authoring §6.1, FM-2)"))

def pageVisualProblems (names : List Text) (label : Text) (page : Json) : List Text :=
  if isNonEmptyArray (page.field "visuals") then
    (itemsOf (page.field "visuals")).flatMap fun (visual, j) =>
      visualProblems names (label ++ js ".visuals[" ++ decimal j ++ js "]") visual
  else [label ++ js ".visuals must be a non-empty array"]

def pageLabel (i : Nat) : Text := js "layout.pages[" ++ decimal i ++ js "]"

/-- The pages from the `i`-th on, behind pages of the names `seen`. -/
def pageProblems (names : List Text) : Nat → List Text → List Json → List Text
  | _, _, [] => []
  | i, seen, page :: pages =>
      match nonEmptyString (page.field "name") with
      | some name =>
          problemUnless (decide (name ∉ seen)) (pageLabel i ++ js ".name " ++ stringify (.str name) ++
            js " is not unique") ++ pageVisualProblems names (pageLabel i) page ++
            pageProblems names (i + 1) (name :: seen) pages
      | none => (pageLabel i ++ js ".name is required") :: (pageVisualProblems names (pageLabel i) page ++
          pageProblems names (i + 1) seen pages)

/-- The pages of a layout, and none where they are not an array. -/
def pagesOf (layout : Json) : List Json :=
  match layout.field "pages" with
  | some (.arr pages) => pages
  | _ => []

/-- `pageNames`. -/
def pageNames (layout : Json) : List Text := (pagesOf layout).filterMap fun page => nonEmptyString (page.field "name")

def trustProblems (layout : Json) : List Text :=
  let present (trust : Json) : List Text :=
    unknownKeys trustElementKeys (js "layout.trust_element") " is not a §4.7 member" trust ++
    problemUnless (((trust.field "page").bind Json.asString).any fun page => decide (page ∈ pageNames layout))
      (js "layout.trust_element.page must name a layout page (formats §4.7)") ++
    problemUnless ((trust.field "content_from").bind Json.asString = some (js "trust_notes"))
      (js ("layout.trust_element.content_from must be exactly \"trust_notes\" — the disclosures " ++
        "render verbatim from the artifact's own semantics.trust_notes (RA-4)"))
  match layout.field "trust_element" with
  | some (.obj trust) => present (.obj trust)
  | some (.arr trust) => present (.arr trust)
  | _ => [js ("layout.trust_element is required — trust disclosures render as a visible element " ++
      "of the report itself (RA-4; formats §4.7)")]

def layoutProblems (artifact : List (Text × Json)) : List Text :=
  match (member artifact "layout").filter isAuthoredLayout with
  | none => []
  | some layout =>
      unknownKeys layoutKeys (js "layout") " is not a §4.7 member (closed schema; unknown keys rejected)" layout ++
      problemUnless (nonEmptyText (layout.field "designed_by"))
        (js "layout.designed_by is required (the deciding skill and version, formats §4.7)") ++
      (if isNonEmptyArray (layout.field "pages") then pageProblems (queryNames artifact) 0 [] (pagesOf layout)
        else [js "layout.pages must be a non-empty array (formats §4.7)"]) ++
      trustProblems layout ++
      problemUnless ((layout.field "pbir_hash").all fun hash => hash.asString.any isDefinitionHash)
        (js "layout.pbir_hash must be 'sha256:' + 64 lowercase hex when present (formats §4.7)")

/-! ### `artifactProblems` -/

def requestProblems (label : Text) (request : Option Json) : List Text :=
  let dialect := (request.bind (·.field "dialect")).bind Json.asString
  if dialect = some (js "sql") then
    problemUnless (((request.bind (·.field "statement")).bind Json.asString).isSome)
      (label ++ js ".request.statement is required for dialect sql")
  else if dialect = some (js "api") then
    problemUnless (((request.bind (·.field "operation")).bind Json.asString).isSome)
      (label ++ js ".request.operation is required for dialect api")
  else [label ++ js ".request.dialect must be \"sql\" or \"api\""]

def backingProblems (label : Text) (backing : Option Json) : List Text :=
  match (backing.bind (·.field "mode")).bind Json.asString with
  | some mode =>
      if mode ∉ backingModes then
        [label ++ js ".backing.mode must be one of direct | reporting_view | dataset_ref"]
      else problemUnless (decide (mode = js "direct") || nonEmptyText (backing.bind (·.field "ref")))
        (label ++ js ".backing.ref is required for mode " ++ mode)
  | none => [label ++ js ".backing.mode must be one of direct | reporting_view | dataset_ref"]

def queryProblems (query : Json) (i : Nat) : List Text :=
  let label := js "queries[" ++ decimal i ++ js "]"
  problemUnless (nonEmptyText (query.field "name")) (label ++ js ".name is required") ++
  problemUnless (nonEmptyText (query.field "system")) (label ++ js ".system is required") ++
  requestProblems label (query.field "request") ++
  problemUnless (((query.field "validated_against").bind Json.asString).any fun pin => decide (js "sha256:" <+: pin))
    (label ++ js ".validated_against (snapshot pin, F-7) is required") ++
  backingProblems label (query.field "backing")

def semanticsProblems (semantics : Option Json) : List Text :=
  ["metrics", "dimensions"].flatMap (fun key =>
    match semantics.bind (·.field key) with
    | none => []
    | some (.arr entries) => entries.zipIdx.flatMap fun (entry, i) =>
        let label := js "semantics." ++ js key ++ js "[" ++ decimal i ++ js "]"
        problemUnless (nonEmptyText (entry.field "column")) (label ++ js ".column is required") ++
          problemUnless (nonEmptyText (entry.field "ref")) (label ++ js ".ref is required")
    | some _ => [js "semantics." ++ js key ++ js " must be an array"]) ++
  match semantics.bind (·.field "trust_notes") with
  | none | some (.arr _) => []
  | some _ => [js "semantics.trust_notes must be an array of strings"]

def visualsProblems (names : List Text) (visuals : Option Json) : List Text :=
  match visuals with
  | none => []
  | some (.arr visuals) => visuals.zipIdx.flatMap fun (visual, i) =>
      let label := js "visuals[" ++ decimal i ++ js "]"
      problemUnless (isVisualKind (visual.field "kind")) (label ++ js ".kind " ++ jsonText (visual.field "kind") ++
        js " is outside the §4.4 registry (" ++ (js " | ").intercalate visualKinds ++ js ")") ++
      problemUnless (((visual.field "query").bind Json.asString).all fun query => decide (query ∈ names))
        (label ++ js ".query " ++ jsonText (visual.field "query") ++ js " names no artifact query")
  | some _ => [js "visuals must be an array"]

def blendProblems (blend : Option Json) : List Text :=
  match blend with
  | none | some .null => []
  | some blend =>
      if isNonEmptyArray (blend.field "keys") then
        (itemsOf (blend.field "keys")).flatMap fun (key, i) =>
          let label := js "blend.keys[" ++ decimal i ++ js "]"
          problemUnless (nonEmptyText (key.field "left_column")) (label ++ js ".left_column is required") ++
          problemUnless (nonEmptyText (key.field "right_column")) (label ++ js ".right_column is required") ++
          problemUnless (nonEmptyText (key.field "entity_ref"))
            (label ++ js (".entity_ref is required — blend keys come from the entity " ++
              "doc's documented mappings, never improvised (formats §4.5)"))
      else [js "blend.keys must be a non-empty array (formats §4.5)"]

def artifactProblems (artifact : List (Text × Json)) : List Text :=
  problemUnless ((member artifact "artifact_version").bind Json.asString = some (js "1"))
    (js "artifact_version must be \"1\"") ++
  problemUnless (((member artifact "id").bind Json.asString).any fun id => decide (8 ≤ id.length))
    (js "id (stable artifact UUID string, formats §4.1/F-5) is required") ++
  problemUnless (nonEmptyText (member artifact "title")) (js "title is required") ++
  (if isNonEmptyArray (member artifact "queries") then
    (itemsOf (member artifact "queries")).flatMap fun (query, i) => queryProblems query i
    else [js "queries must be a non-empty array"]) ++
  semanticsProblems (member artifact "semantics") ++
  visualsProblems (queryNames artifact) (member artifact "visuals") ++
  blendProblems (member artifact "blend") ++
  layoutProblems artifact

end ContextLayer
