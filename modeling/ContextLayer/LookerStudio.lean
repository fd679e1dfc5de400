import Mathlib.Data.Prod.Lex
import ContextLayer.Lib.Dict
import ContextLayer.Lib.Percent
import ContextLayer.PyText

/-!
# The link to a Looker Studio template

A report is published as a link that creates a copy of a template. A source the link can configure is configured by its
parameters; a database cannot be, and a step for a human names the view that its data source is pointed at.
-/

namespace ContextLayer.LookerStudio

open Text PyText PyJson StableSort

/-! ### The tables -/

/-- `LINKING_BASE`. -/
def LINKING_BASE : PyStr := py "https://lookerstudio.google.com/reporting/create"

/-- `VISUAL_KINDS`. -/
def VISUAL_KINDS : List PyStr := [py "table", py "line", py "bar", py "scorecard", py "pivot"]

/-- `_LINKING_API_CONNECTOR_IDS`. -/
def connectorIds : List PyStr :=
  [py "bigQuery", py "cloudSpanner", py "community", py "googleAnalytics", py "googleCloudStorage", py "googleSheets",
    py "looker", py "searchConsole"]

/-- The id of a connector, and its parameters by the keys of the configuration. -/
structure LinkingConnector where
  connector : PyStr
  params : List (String × PyStr)

/-- `_LINKING_API_CONNECTORS`. -/
def linkingConnectors : List (PyStr × LinkingConnector) :=
  [(py "ga4", ⟨py "googleAnalytics", [("property_id", py "propertyId")]⟩),
    (py "gsc", ⟨py "searchConsole", [("site_url", py "siteUrl"), ("table_type", py "tableType")]⟩)]

/-- `_MANUAL_WIRING_KINDS`. -/
def manualWiringKinds : List PyStr := [py "postgres"]

/-! ### Reading the request -/

inductive ConfigError where
  | createReport (effective : PyJson)
  | artifactId
  | noQueries
  | noTemplate
  | noSources
  | crossSource (effective : PyJson)
  | blendKeys
  | blendEntity
  | queryShape
  | querySystem
  | noWiring (name : PyJson) (system : PyStr)
  | kind (system : PyStr) (kind : PyJson)
  | sourceAlias (system : PyStr)
  | backingMode (name mode : PyJson)
  | backingRef (name : PyJson)
  | dialect (name : PyJson) (system kind : PyStr) (dialect : PyJson)
  | connectorId (id kind : PyStr)
  | visualKind (kind : PyStr)

inductive Failure where
  | config (e : ConfigError)
  /-- Another exception. -/
  | raised

/-- `value.get(key)` of a dictionary. -/
def getOr (v : PyJson) (key : String) : PyJson := (v.field key).getD .null

/-- A `str` that is not empty. -/
def nonEmptyText : PyJson → Option PyStr
  | .str s => if s = [] then none else some s
  | _ => none

def isObject : PyJson → Bool
  | .obj _ => true
  | _ => false

def nonEmptyList : PyJson → Option (List PyJson)
  | .arr items => if items = [] then none else some items
  | _ => none

def orConfig {α : Type} (value : Option α) (e : ConfigError) : Except Failure α :=
  match value with
  | some a => .ok a
  | none => .error (.config e)

/-- `if condition: raise ConfigError`. -/
def refuseIf (condition : Prop) [Decidable condition] (e : ConfigError) : Except Failure Unit :=
  if condition then .error (.config e) else .ok ()

/-- How a source is wired. -/
inductive SourceKind where
  | linked (connector : LinkingConnector)
  | manual

/-- The wiring of a kind; a kind that cannot be hashed raises a `TypeError`. -/
def sourceKind (system : PyStr) (kind : PyJson) : Except Failure (PyStr × SourceKind) :=
  match kind with
  | .str s =>
      match Dict.get? linkingConnectors s with
      | some connector => .ok (s, .linked connector)
      | none => if s ∈ manualWiringKinds then .ok (s, .manual) else .error (.config (.kind system kind))
  | .arr _ | .obj _ => .error .raised
  | _ => .error (.config (.kind system kind))

/-- `(query.get("request") or {}).get("dialect")`. -/
def requestDialect (query : PyJson) : Except Failure PyJson :=
  let request := getOr query "request"
  if request.truthy then if isObject request then .ok (getOr request "dialect") else .error .raised
  else .ok .null

def backingInfo (query : PyJson) : PyJson :=
  if isObject (getOr query "backing") then getOr query "backing" else .obj []

/-- The reporting view behind a query. -/
def reportingView (query : PyJson) : Option PyStr :=
  if (getOr (backingInfo query) "mode").asStr = some (py "reporting_view") then
    nonEmptyText (getOr (backingInfo query) "ref")
  else none

section

variable (unicode : Unicode)

/-- The parameters of a source, without `ds.` and the alias. -/
def sourceParams (connector : LinkingConnector) (source : PyJson) : List (PyStr × PyStr) :=
  (py "connector", connector.connector) ::
    connector.params.filterMap fun param =>
      match getOr source param.1 with
      | .null => none
      | value => some (param.2, str unicode value)

/-! ### One query -/

inductive Wiring where
  | linked (params : List (PyStr × PyStr))
  | manual (ref : PyStr)

/-- What is read of a query and of the source of its system. -/
structure QueryRow where
  system : PyStr
  sourceAlias : PyStr
  view : Option PyStr
  wiring : Wiring

/-- `sources.get(system)`. -/
def sourceOf (sources : PyJson) (system : PyStr) : PyJson :=
  (match sources with
    | .obj members => Dict.get? members system
    | _ => none).getD .null

/-- A database is reached through a reporting view only. -/
def manualWiring (name query : PyJson) : Except Failure Wiring := do
  refuseIf ((getOr (backingInfo query) "mode").asStr ≠ some (py "reporting_view"))
    (.backingMode name (getOr (backingInfo query) "mode"))
  let ref ← orConfig (nonEmptyText (getOr (backingInfo query) "ref")) (.backingRef name)
  pure (.manual ref)

def isApiDialect : PyJson → Bool
  | .null => true
  | dialect => decide (dialect.asStr = some (py "api"))

def linkedWiring (name : PyJson) (system kind : PyStr) (connector : LinkingConnector) (source dialect : PyJson) :
    Except Failure Wiring := do
  refuseIf (isApiDialect dialect = false) (.dialect name system kind dialect)
  refuseIf (connector.connector ∉ connectorIds) (.connectorId connector.connector kind)
  pure (.linked (sourceParams unicode connector source))

def readWiring (name : PyJson) (system : PyStr) (kind : PyStr × SourceKind) (source dialect query : PyJson) :
    Except Failure Wiring :=
  match kind.2 with
  | .manual => manualWiring name query
  | .linked connector => linkedWiring unicode name system kind.1 connector source dialect

/-- What one round of the loop checks. -/
def readQuery (sources query : PyJson) : Except Failure QueryRow := do
  refuseIf (isObject query = false) .queryShape
  let system ← orConfig (nonEmptyText (getOr query "system")) .querySystem
  let source := sourceOf sources system
  refuseIf (isObject source = false) (.noWiring (getOr query "name") system)
  let kind ← sourceKind system (getOr source "kind")
  let sourceAlias ← orConfig (nonEmptyText (getOr source "alias")) (.sourceAlias system)
  let dialect ← requestDialect query
  let wiring ← readWiring unicode (getOr query "name") system kind source dialect query
  pure ⟨system, sourceAlias, reportingView query, wiring⟩

end

/-- `f"ds.{alias}.{wire_key}"`. -/
def dsKey (sourceAlias wireKey : PyStr) : PyStr := py "ds." ++ sourceAlias ++ py "." ++ wireKey

/-- The accumulators of the loop. -/
structure WireState where
  dsParams : List (PyStr × PyStr)
  backing : List PyStr
  unwired : List PyStr
  wiredSystems : List PyStr
  manualWiring : List (PyStr × PyStr)

def WireState.start : WireState := ⟨[], [], [], [], []⟩

def appendNew (refs : List PyStr) (ref : PyStr) : List PyStr := if ref ∈ refs then refs else refs ++ [ref]

/-- What one round of the loop does. -/
def wire (st : WireState) (row : QueryRow) : WireState :=
  match row.wiring with
  | .manual ref =>
      let st := { st with backing := appendNew st.backing ref }
      if row.system ∈ st.wiredSystems then
        if (row.sourceAlias, ref) ∈ st.manualWiring then st else { st with unwired := st.unwired ++ [ref] }
      else { st with
        manualWiring := st.manualWiring ++ [(row.sourceAlias, ref)]
        wiredSystems := st.wiredSystems ++ [row.system] }
  | .linked params =>
      if row.system ∈ st.wiredSystems then st
      else { st with
        dsParams := params.foldl (fun ds param => Dict.set ds (dsKey row.sourceAlias param.1) param.2) st.dsParams
        wiredSystems := st.wiredSystems ++ [row.system] }

/-! ### The link -/

/-- The characters `quote` leaves alone. -/
def isSafe (b : UInt8) : Bool :=
  (0x41 ≤ b ∧ b ≤ 0x5A) || (0x61 ≤ b ∧ b ≤ 0x7A) || (0x30 ≤ b ∧ b ≤ 0x39) || b ∈ [0x5F, 0x2E, 0x2D, 0x7E]

/-- `quote(text, safe="")`; `none` is a `UnicodeEncodeError`. -/
def quote (text : PyStr) : Option PyStr :=
  (encodeUtf8 text).map fun bytes => (Percent.encode isSafe bytes).map fun b => .unit b.toUInt16

def equalsSign : CodePoint := .unit 0x3D

def ampersand : CodePoint := .unit 0x26

/-- `urlencode(pairs, quote_via=quote)`. -/
def urlencode (pairs : List (PyStr × PyStr)) : Option PyStr := do
  let parts ← pairs.mapM fun pair => do
    let key ← quote pair.1
    let value ← quote pair.2
    pure (key ++ equalsSign :: value)
  pure ([ampersand].intercalate parts)

/-! ### Publishing -/

inductive Step where
  | openLink
  /-- Point the data source of the alias at the view. -/
  | point (sourceAlias ref : PyStr)
  | verifyBlend (pairs : PyStr)
  /-- Add a data source for the view. -/
  | add (ref : PyStr)
  | copy
  deriving DecidableEq

def Step.text : Step → PyStr
  | .openLink => py "Open the template link and review the prefilled data sources."
  | .point sourceAlias ref => py "Point the " ++ sourceAlias ++ py " data source at " ++ ref ++ py (" in the editor " ++
      "(Resource → manage added data sources), entering the reporting-role password when prompted and enabling SSL — " ++
      "credentials never ride the link, and a database source cannot be prefilled by it either.")
  | .verifyBlend pairs => py "Verify the blend join (" ++ pairs ++ py ") matches the template's blend setup."
  | .add ref => py "Add a data source for " ++ ref ++ py (" in the editor — the template exposes one data source per " ++
      "system and it is already used.")
  | .copy => py ("Click \"Edit and share\" to create your copy of the report. A revised version of this report " ++
      "publishes as a new link and therefore a new copy — the copy you save now is never updated in place.")

structure Substitution where
  kind : PyStr
  substitutedWith : PyStr
  note : PyStr

structure PublishResult where
  id : PyStr
  url : PyStr
  steps : List Step
  /-- The views of the entries, each of type `reporting_view`. -/
  backing : List PyStr
  templateReportId : PyStr
  visualSubstitutions : List Substitution
  unwiredBackings : List PyStr

/-- `pending_human_steps`. -/
def PublishResult.pending (r : PublishResult) : List PyStr := r.steps.map Step.text

section

variable (unicode : Unicode) (sha256 : List UInt8 → PyStr)

/-- `_stable_id`. -/
def stableId (artifactId target : PyStr) : Option PyStr :=
  (encodeUtf8 (artifactId ++ newline :: target)).map fun bytes => py "tl-" ++ (sha256 bytes).take 16

/-- The keys of the blend, if there is one. -/
def readBlend (artifact flags : PyJson) : Except Failure (Option (List PyJson)) :=
  match getOr artifact "blend" with
  | .null => .ok none
  | blend => do
      refuseIf ((getOr flags "cross_source").asStr ≠ some (py "blending")) (.crossSource (getOr flags "cross_source"))
      let keys ← orConfig (nonEmptyList (getOr blend "keys")) .blendKeys
      refuseIf (keys.any (fun entry => !(isObject entry && (getOr entry "entity_ref").truthy)) = true) .blendEntity
      pure (some keys)

/-- The join, as the step for the human names it. -/
def blendPairs (keys : List PyJson) : PyStr :=
  (py ", ").intercalate (keys.map fun k => str unicode (getOr k "left_column") ++ py "×" ++
    str unicode (getOr k "right_column") ++ py " per " ++ str unicode (getOr k "entity_ref"))

/-- The kinds the template exercises. -/
def exercisedKinds (config : PyJson) : List PyStr :=
  match getOr config "template_visual_kinds" with
  | .arr kinds => kinds.filterMap fun k => k.asStr.filter (· ∈ VISUAL_KINDS)
  | _ => VISUAL_KINDS

def substituteVisuals (artifact config : PyJson) : Except Failure (List Substitution) :=
  let visuals := match getOr artifact "visuals" with
    | .arr visuals => visuals
    | _ => []
  let kinds := visuals.filterMap fun visual => (getOr visual "kind").asStr
  match kinds.find? fun kind => decide (kind ∉ VISUAL_KINDS) with
  | some kind => .error (.config (.visualKind kind))
  | none => .ok ((kinds.filter fun kind => decide (kind ∉ exercisedKinds config)).map fun kind =>
      ⟨kind, py "template default", py "the linked template does not exercise " ++ reprStr unicode kind ++
        py "; pick the chart in the Looker Studio editor after creating the report"⟩)

/-- `r.reportName`. -/
def reportName (artifact config : PyJson) : PyStr :=
  let title := (getOr artifact "title").asStr.getD (py "Context Layer report")
  (nonEmptyText (getOr config "report_name_prefix")).getD [] ++ title

/-- The parameters of the link, in their order. -/
def linkParams (templateId name : PyStr) (dsParams : List (PyStr × PyStr)) : List (PyStr × PyStr) :=
  (py "c.reportId", templateId) :: (py "r.reportName", name) :: StableSort.sortOn toLex dsParams

def orRaise {α : Type} (value : Option α) : Except Failure α :=
  match value with
  | some a => .ok a
  | none => .error .raised

/-- `publish`. -/
def publish (config artifact flags : PyJson) (target : PyStr) : Except Failure PublishResult := do
  refuseIf ((getOr flags "create_report").asStr ≠ some (py "template_link"))
    (.createReport (getOr flags "create_report"))
  let artifactId ← orConfig (nonEmptyText (getOr artifact "id")) .artifactId
  let queries ← orConfig (nonEmptyList (getOr artifact "queries")) .noQueries
  let templateId ← orConfig (nonEmptyText (getOr config "template_report_id")) .noTemplate
  refuseIf ((isObject (getOr config "sources") && (getOr config "sources").truthy) = false) .noSources
  let blend ← readBlend artifact flags
  let rows ← queries.mapM (readQuery unicode (getOr config "sources"))
  let st := rows.foldl wire .start
  let visualSubstitutions ← substituteVisuals unicode artifact config
  let query ← orRaise (urlencode (linkParams templateId (reportName artifact config) st.dsParams))
  let id ← orRaise (stableId sha256 artifactId target)
  pure {
    id
    url := LINKING_BASE ++ py "?" ++ query
    steps := .openLink :: st.manualWiring.map (fun pair => .point pair.1 pair.2) ++
      blend.toList.map (fun keys => .verifyBlend (blendPairs unicode keys)) ++ st.unwired.map .add ++ [.copy]
    backing := st.backing
    templateReportId := templateId
    visualSubstitutions
    unwiredBackings := st.unwired }

/-! ### What a link should carry -/

/-- The rows of the queries. -/
def queryRows (config artifact : PyJson) : List QueryRow :=
  ((nonEmptyList (getOr artifact "queries")).getD []).filterMap fun query =>
    (readQuery unicode (getOr config "sources") query).toOption

end

/-- The byte of a character of a link. -/
def linkByte : CodePoint → UInt8
  | .unit u => u.toUInt8
  | .pair _ _ _ _ => 0

/-- `unquote`. -/
def unquote (text : PyStr) : PyStr := codePoints (ofUtf8 (Percent.decode (text.map linkByte)))

/-- The parameters that are read off a link. -/
def readLink (url : PyStr) : List (PyStr × PyStr) :=
  ((url.drop (LINKING_BASE.length + 1)).splitOn ampersand).map fun part =>
    (unquote (part.takeWhile (· != equalsSign)), unquote ((part.dropWhile (· != equalsSign)).drop 1))

/-- Every source is wired: the parameters of a linked one are in the link, and of the views of the queries each is in
`backing` once, and for each system in one step. -/
structure WiresEverySource (rows : List QueryRow) (r : PublishResult) : Prop where
  linked : ∀ row ∈ rows, ∀ params, row.wiring = .linked params →
    ∀ param ∈ params, (dsKey row.sourceAlias param.1, param.2) ∈ readLink r.url
  backed : ∀ row ∈ rows, ∀ ref ∈ row.view, r.backing.count ref = 1
  named : ∀ row ∈ rows, ∀ ref ∈ row.view,
    r.steps.countP (fun step => decide (step = .point row.sourceAlias ref ∨ step = .add ref)) = 1

/-! ### When it does -/

/-- Each row, with those before it. -/
def positionsFrom (before : List QueryRow) : List QueryRow → List (List QueryRow × QueryRow)
  | [] => []
  | row :: rest => (before, row) :: positionsFrom (before ++ [row]) rest

/-- The view of a manual row. -/
def QueryRow.manualView (row : QueryRow) : Option PyStr :=
  match row.wiring with
  | .manual ref => some ref
  | .linked _ => none

/-- The aliases and the views the systems start with. -/
def leadViews (rows : List QueryRow) : List (PyStr × PyStr) :=
  (positionsFrom [] rows).filterMap fun (before, row) =>
    if row.system ∈ before.map QueryRow.system then none else row.manualView.map (Prod.mk row.sourceAlias)

/-- The views of later rows that no system of their alias has started with. -/
def leftViews (rows : List QueryRow) : List PyStr :=
  (positionsFrom [] rows).filterMap fun (before, row) =>
    if row.system ∈ before.map QueryRow.system then
      row.manualView.filter fun ref => decide ((row.sourceAlias, ref) ∉ leadViews before)
    else none

/-- Linked sources of one alias agree on the parameters they share, and each view of a query is started with under its
alias once and never left over, or left over once and never started with there. -/
structure IsUnshared (rows : List QueryRow) : Prop where
  params : ∀ row ∈ rows, ∀ row' ∈ rows, ∀ params params', row.wiring = .linked params → row'.wiring = .linked params' →
    row.sourceAlias = row'.sourceAlias → ∀ param ∈ params, ∀ param' ∈ params', param.1 = param'.1 → param.2 = param'.2
  views : ∀ row ∈ rows, ∀ ref ∈ row.view,
    (leadViews rows).count (row.sourceAlias, ref) + (leftViews rows).count ref = 1

end ContextLayer.LookerStudio
