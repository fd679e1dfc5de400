import ContextLayer.Connections
import ContextLayer.Visibility
import ContextLayer.Vtoken

/-!
# Tables and entities as the gateway serves them

`ServedKb` is the workspace one call reads: the documents of the knowledge base, with those the generator wrote
rendered again, and the latest accepted snapshot of every system. A name is resolved among all objects and all
documents, and visibility is asked about what it resolved to.
-/

namespace ContextLayer

open Text Partition
open Connections (trim isSystemHead)

/-! ### The workspace -/

structure KbDoc where
  path : Text
  fm : Option (List (Text × Json))
  body : Text
  title : Text

def KbDoc.member (doc : KbDoc) (key : String) : Option Json := Dict.get? (doc.fm.getD []) (js key)

def KbDoc.text (doc : KbDoc) (key : String) : Option Text := (doc.member key).bind Json.asString

/-- `doc.docClass === docClass`. -/
def KbDoc.isClass (doc : KbDoc) (docClass : String) : Bool :=
  decide (doc.text "doc_class" = some (js docClass))

structure ServedObject extends SnapshotObject where
  schemaHash : Text
  /-- The `ref` of every foreign key. -/
  foreign : List Text

/-- A system's latest accepted snapshot. -/
structure ServedSystem where
  systemClass : Text
  canonicalBodySha256 : Text
  objects : List ServedObject
  keyedByFqn : (objects.map (·.fqn)).Nodup
  renderLag : Bool

structure ServedKb where
  headSha : Text
  docs : List KbDoc
  keyedByPath : (docs.map KbDoc.path).Nodup
  machineByFqn : List (Text × Text)
  systems : List (Text × ServedSystem)
  guardrails : List (Text × Conventions)

def ServedSystem.toSystemState (state : ServedSystem) : SystemState where
  systemClass := state.systemClass
  canonicalBodySha256 := state.canonicalBodySha256
  objects := state.objects.map (·.toSnapshotObject)
  keyedByFqn := by simpa only [List.map_map, Function.comp_def] using state.keyedByFqn

/-- What the other tools read of it. -/
def ServedKb.toKbState (ws : ServedKb) : KbState where
  machineByFqn := ws.machineByFqn
  systems := ws.systems.map fun entry => (entry.1, entry.2.toSystemState)
  guardrails := ws.guardrails

/-- `state.objects.get(fqn)`. -/
def ServedSystem.object? (state : ServedSystem) (fqn : Text) : Option ServedObject :=
  state.objects.find? fun o => decide (o.fqn = fqn)

/-- `ws.docs.get(path)`. -/
def ServedKb.doc? (ws : ServedKb) (path : Text) : Option KbDoc :=
  ws.docs.find? fun doc => decide (doc.path = path)

def ServedKb.visible (ws : ServedKb) (scopes : List Scope) (o : ServedObject) : Bool :=
  fqnVisible ws.toKbState scopes o.fqn

/-! ### Trust blocks -/

inductive AgentGuidance where
  | useFreely
  | warnUser
  | refuseUnlessOverride

structure TrustBlock where
  status : Text
  lastVerified : Option Text
  writtenAgainst : Option Text
  currentHash : Option Text
  hashMatch : Bool
  contamination : Json
  agentGuidance : AgentGuidance
  snapshotRef : Option Text
  renderLag : Option Bool

def guidance (status : Text) (hashMatch : Bool) : AgentGuidance :=
  if status = js "contaminated" then .refuseUnlessOverride
  else if status = js "draft" ∨ status = js "stale" then .warnUser
  else if status = js "verified" then if hashMatch then .useFreely else .warnUser
  else .useFreely

/-- The hash of the object a document is about, in the latest snapshot of its system. -/
def ServedKb.currentHash (ws : ServedKb) (doc : KbDoc) : Option Text := do
  let object ← (doc.text "object").filter (· ≠ [])
  let state ← Dict.get? ws.systems (object.takeWhile (· ≠ 0x2E))
  (state.object? object).map ServedObject.schemaHash

def humanTrust (ws : ServedKb) (doc : KbDoc) : TrustBlock :=
  let status := (doc.text "status").getD (js "draft")
  let writtenAgainst := doc.text "written_against_schema_hash"
  let currentHash := ws.currentHash doc
  let hashMatch := writtenAgainst.isNone || currentHash.isNone || decide (writtenAgainst = currentHash)
  { status, writtenAgainst, currentHash, hashMatch
    lastVerified := doc.text "last_verified"
    contamination := (doc.member "contamination").getD .null
    agentGuidance := guidance status hashMatch
    snapshotRef := none
    renderLag := none }

/-- The ref a snapshot is cited by. -/
def ServedSystem.snapshotRef (state : ServedSystem) : Text := state.toSystemState.snapshotRef

def machineTrust (state : Option ServedSystem) : TrustBlock :=
  let renderLag := (state.map ServedSystem.renderLag).getD false
  { status := js "machine"
    lastVerified := none
    writtenAgainst := none
    currentHash := none
    hashMatch := !renderLag
    contamination := .null
    agentGuidance := if renderLag then .warnUser else .useFreely
    snapshotRef := state.map ServedSystem.snapshotRef
    renderLag := some renderLag }

structure RefsEnvelope where
  kbRef : Text
  snapshotRef : List (Text × Text)

def refsEnvelope (ws : ServedKb) : RefsEnvelope where
  kbRef := ws.headSha
  snapshotRef := ws.systems.map fun entry => (entry.1, entry.2.snapshotRef)

/-! ### Outcomes -/

inductive ToolError where
  | invalidArgument
  | notFound

/-- The member an error carries beside its code and message. -/
inductive ErrorExtra where
  | nothing
  | candidates (fqns : List Text)
  | suggestions (titles : List Text)

structure EntityPayload where
  path : Text
  title : Text
  frontMatter : List (Text × Json)
  content : Text
  trust : TrustBlock

structure MachinePart where
  path : Option Text
  content : Option Text
  trust : TrustBlock

structure HumanPart where
  path : Option Text
  content : Text
  frontMatter : List (Text × Json)
  trust : TrustBlock

structure TablePayload where
  fqn : Text
  kind : Text
  hot : Bool
  machine : MachinePart
  human : Option HumanPart
  referencedBy : List Text

/-- What a caller is answered, the refs envelope apart. -/
inductive ToolAnswer where
  | error (code : ToolError) (message : Text) (extra : ErrorExtra)
  | entity (payload : EntityPayload)
  | table (payload : TablePayload)

structure ToolOutcome where
  answer : ToolAnswer
  /-- The `refs` of a payload. -/
  refs : Option RefsEnvelope
  /-- `decision: "filtered"`, for the audit record. -/
  filtered : Bool

def err (code : ToolError) (message : Text) (extra : ErrorExtra) : ToolOutcome :=
  ⟨.error code message extra, none, false⟩

/-- A hidden match, which the audit record tells from a missing one. -/
def hiddenMatch (message : Text) : ToolOutcome := { err .notFound message .nothing with filtered := true }

/-! ### `get_entity` -/

/-- `[a-z0-9_-]`. -/
def isSlugUnit (u : UInt16) : Bool := isSystemHead u || decide (u = 0x5F) || decide (u = 0x2D)

/-- `replace(/[^a-z0-9_-]+/g, "-")`. A run is replaced where it begins. -/
def dashRuns (inRun : Bool) : Text → Text
  | [] => []
  | u :: rest =>
    if isSlugUnit u then u :: dashRuns false rest
    else if inRun then dashRuns true rest else 0x2D :: dashRuns true rest

def slug (P : Platform) (name : Text) : Text :=
  strip (fun u => decide (u = 0x2D)) (dashRuns false (P.toLowerCase (trim name)))

def byPath (a b : KbDoc) : Prop := a.path ≤ b.path

instance (a b : KbDoc) : Decidable (byPath a b) := inferInstanceAs (Decidable (a.path ≤ b.path))

/-- The index of a workspace: all its documents, by path. -/
def buildIndex (ws : ServedKb) : List KbDoc := ws.docs.insertionSort byPath

def KbDoc.isEntity (doc : KbDoc) : Bool := doc.isClass "entity"

def KbDoc.aliases (P : Platform) (doc : KbDoc) : List Text :=
  match doc.member "aliases" with
  | some (.arr items) => (items.filterMap Json.asString).map P.toLowerCase
  | _ => []

/-- An entity goes by its aliases and by its title. -/
def KbDoc.goesBy (P : Platform) (lower : Text) (doc : KbDoc) : Bool :=
  doc.isEntity && (decide (lower ∈ doc.aliases P) || decide (P.toLowerCase doc.title = lower))

/-- The document a name stands for: the one at its slug, else the first that goes by it. -/
def entityDoc (P : Platform) (ws : ServedKb) (name : Text) : Option KbDoc :=
  match ws.doc? (js "entities/" ++ slug P name ++ js ".md") with
  | some doc => some doc
  | none => (buildIndex ws).find? (KbDoc.goesBy P (P.toLowerCase (trim name)))

def suggestions (ws : ServedKb) (scopes : List Scope) : List Text :=
  (((buildIndex ws).filter fun doc => doc.isEntity && pathVisible scopes doc.path).map KbDoc.title).take 5

def toolGetEntity (P : Platform) (ws : ServedKb) (scopes : List Scope) (name : Text) : ToolOutcome :=
  if name = [] then err .invalidArgument (js "name (string) required") .nothing
  else
    match entityDoc P ws name with
    | none => err .notFound (js "no entity " ++ name) (.suggestions (suggestions ws scopes))
    | some doc =>
      if pathVisible scopes doc.path then
        ⟨.entity ⟨doc.path, doc.title, doc.fm.getD [], doc.body, humanTrust ws doc⟩,
          some (refsEnvelope ws), false⟩
      else hiddenMatch (js "no entity " ++ name)

/-! ### `get_table` -/

def candidates (state : ServedSystem) (name : Text) : List ServedObject :=
  state.objects.filter fun o => decide (o.name = name)

/-- A name without a schema that several objects have. -/
def Ambiguous (state : ServedSystem) (name : Text) : Prop :=
  0x2E ∉ name ∧ 1 < (candidates state name).length

instance (state : ServedSystem) (name : Text) : Decidable (Ambiguous state name) := by
  unfold Ambiguous
  infer_instance

/-- The object a name stands for. -/
def resolveTable (state : ServedSystem) (system name : Text) : Option ServedObject :=
  if 0x2E ∈ name then state.object? (system ++ js "." ++ name)
  else
    match candidates state name with
    | [o] => some o
    | _ => none

/-- `path.replace(/\.schema\.md$/, ".md")`. -/
def humanSibling (path : Text) : Text :=
  if js ".schema.md" <:+ path then path.take (path.length - 10) ++ js ".md" else path

def ServedKb.machineDoc (ws : ServedKb) (fqn : Text) : Option KbDoc := (fqnPath ws.toKbState fqn).bind ws.doc?

def ServedKb.humanPath (ws : ServedKb) (fqn : Text) : Option Text := (fqnPath ws.toKbState fqn).map humanSibling

def ServedKb.humanDoc (ws : ServedKb) (fqn : Text) : Option KbDoc :=
  ((ws.humanPath fqn).filter (· ≠ [])).bind ws.doc?

/-- The visible objects with a foreign key to an object, once for every such key. -/
def referencedBy (ws : ServedKb) (scopes : List Scope) (state : ServedSystem) (o : ServedObject) : List Text :=
  state.objects.flatMap fun other =>
    (other.foreign.filter fun ref =>
      decide (ref = o.schema ++ js "." ++ o.name) && ws.visible scopes other).map fun _ => other.fqn

def tablePayload (ws : ServedKb) (scopes : List Scope) (state : ServedSystem) (o : ServedObject) : TablePayload where
  fqn := o.fqn
  kind := o.kind
  hot := (ws.humanDoc o.fqn).isSome
  machine := ⟨fqnPath ws.toKbState o.fqn, (ws.machineDoc o.fqn).map KbDoc.body, machineTrust (some state)⟩
  human := (ws.humanDoc o.fqn).map fun doc =>
    ⟨ws.humanPath o.fqn, doc.body, doc.fm.getD [], humanTrust ws doc⟩
  referencedBy := sortTexts (referencedBy ws scopes state o)

def toolGetTable (ws : ServedKb) (scopes : List Scope) (system name : Text) : ToolOutcome :=
  if system = [] ∨ name = [] then
    err .invalidArgument (js "system and name (strings) required") .nothing
  else
    match Dict.get? ws.systems system with
    | none => err .notFound (js "no accepted snapshot for system " ++ system) .nothing
    | some state =>
      let missing := js "no object " ++ name ++ js " in " ++ system
      if Ambiguous state name then
        err .invalidArgument
          (js "name " ++ name ++ js " is ambiguous in " ++ system ++ js "; qualify the schema")
          (.candidates (((candidates state name).filter (ws.visible scopes)).map (·.fqn)))
      else
        match resolveTable state system name with
        | none => err .notFound missing .nothing
        | some o =>
          if ws.visible scopes o then
            ⟨.table (tablePayload ws scopes state o), some (refsEnvelope ws), false⟩
          else hiddenMatch missing

/-! ### What a caller can tell -/

inductive KbCall where
  | getEntity (name : Text)
  | getTable (system name : Text)

def KbCall.outcome (P : Platform) (ws : ServedKb) (scopes : List Scope) : KbCall → ToolOutcome
  | .getEntity name => toolGetEntity P ws scopes name
  | .getTable system name => toolGetTable ws scopes system name

/-- A document the generator writes. It is rendered from the objects of a snapshot, hidden ones included. -/
def KbDoc.isGenerated (doc : KbDoc) : Bool :=
  decide (js "systems/" <+: doc.path) &&
    (doc.isClass "machine-object" || doc.isClass "machine-group" || doc.isClass "machine-index")

/-- The documents a caller may see. Of one the generator wrote only the path is compared. -/
def ServedKb.shownDocs (ws : ServedKb) (scopes : List Scope) : List (Text × Option KbDoc) :=
  (ws.docs.filter fun doc => pathVisible scopes doc.path).map fun doc =>
    (doc.path, if doc.isGenerated then none else some doc)

/-- The objects a caller may see, with the paths of their documents. -/
def ServedKb.shownObjects (ws : ServedKb) (scopes : List Scope) (state : ServedSystem) :
    List (ServedObject × Option Text) :=
  (state.objects.filter (ws.visible scopes)).map fun o => (o, fqnPath ws.toKbState o.fqn)

/-- Two workspaces that differ in what is hidden from a caller: in objects and their documents, in entity documents,
and in what follows from the objects, the hash of a snapshot and the text the generator writes. -/
structure SameView (scopes : List Scope) (ws ws' : ServedKb) : Prop where
  docs : ws.shownDocs scopes = ws'.shownDocs scopes
  systems : ∀ system,
    (Dict.get? ws.systems system).map (fun state => (state.renderLag, ws.shownObjects scopes state)) =
      (Dict.get? ws'.systems system).map fun state => (state.renderLag, ws'.shownObjects scopes state)

/-- A hidden document stands for the name. -/
def HiddenStandsFor (P : Platform) (ws : ServedKb) (scopes : List Scope) (name : Text) : Prop :=
  ∃ doc, entityDoc P ws name = some doc ∧ pathVisible scopes doc.path = false

/-- The document beside a machine document, and the hash of the object it is about. -/
def ServedKb.beside (ws : ServedKb) (fqn : Text) : Option (Text × List (Text × Json) × Option Text) :=
  (ws.humanDoc fqn).map fun doc => (doc.body, doc.fm.getD [], ws.currentHash doc)

/-- What a call reads beyond the caller's view is the same in two workspaces. -/
def KbCall.Undisturbed (P : Platform) (scopes : List Scope) (ws ws' : ServedKb) : KbCall → Prop
  | .getEntity name =>
    name ≠ [] →
      (HiddenStandsFor P ws scopes name ↔ HiddenStandsFor P ws' scopes name) ∧
        ∀ doc, entityDoc P ws name = some doc → pathVisible scopes doc.path = true →
          ws.currentHash doc = ws'.currentHash doc
  | .getTable system name =>
    system ≠ [] → name ≠ [] → ∀ state state', Dict.get? ws.systems system = some state →
      Dict.get? ws'.systems system = some state' →
        (Ambiguous state name ↔ Ambiguous state' name) ∧
          ∀ o, ¬ Ambiguous state name → resolveTable state system name = some o → ws.visible scopes o = true →
            state.snapshotRef = state'.snapshotRef ∧
              (ws.machineDoc o.fqn).map KbDoc.body = (ws'.machineDoc o.fqn).map KbDoc.body ∧
              ws.beside o.fqn = ws'.beside o.fqn

end ContextLayer
