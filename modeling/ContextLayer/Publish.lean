import Mathlib.Logic.Function.Basic
import ContextLayer.Trailers
import ContextLayer.Utf8
import ContextLayer.Lib.Machine
import ContextLayer.Lib.Transaction

/-!
# Revisions of published artifacts

A revision is chosen from what one statement reads and stored by another, with only the primary key
between two callers that choose the same one. A model is delivered and its report attested by two
calls, each with a job in between: what an attestation refers to is the delivery its own call has read.
-/

namespace ContextLayer

open Text Transaction

/-! ### The content hash -/

def eraseKey (key : String) (members : List (Text × Json)) : List (Text × Json) :=
  members.filter fun m => decide (m.1 ≠ js key)

def isAuthoredLayout : Json → Bool
  | .obj l => (member l "pages").isSome || (member l "designed_by").isSome ||
      (member l "trust_element").isSome
  | _ => false

/-- `layout.pbir_hash` is of a later stage than the content. -/
def withoutPbirHash : Json → Json
  | .obj l => if isAuthoredLayout (.obj l) then .obj (eraseKey "pbir_hash" l) else .obj l
  | layout => layout

/-- `body`: the artifact without what the server owns. -/
def canonicalBody (artifact : List (Text × Json)) : List (Text × Json) :=
  (eraseKey "content_hash" (eraseKey "revision" artifact)).map fun m =>
    if m.1 = js "layout" then (m.1, withoutPbirHash m.2) else m

def contentHash (sha256 : List UInt8 → Text) (artifact : List (Text × Json)) : Text :=
  js "sha256:" ++ sha256 (utf8 (canonicalJson (.obj (canonicalBody artifact))))

/-! ### The tables -/

/-- A row of `report_artifacts`. -/
structure ReportArtifact where
  artifactId : Text
  revision : Nat
  contentHash : Text
  body : Text
  createdBy : Text
  kbRef : Option Text
  deriving DecidableEq

def artifactSchema : Schema ReportArtifact (Text × Nat) where
  key r := (r.artifactId, r.revision)
  Holds _ := True
  decideHolds _ := isTrue trivial
  holds_sublist _ _ := trivial

/-- A row of `model_deliveries`, whose key is the artifact and the target. -/
structure ModelDelivery where
  revision : Nat
  contentHash : Text
  workspaceId : Text
  datasetId : Text
  tables : Json
  results : Json

/-- A row of `report_attestations`, whose key is the artifact, the target and the revision. -/
structure ReportAttestation where
  workspaceId : Text
  datasetId : Text
  reportId : Text
  definitionHash : Text

/-- A row of `publish_results`, whose key is the artifact and the target. -/
structure PublishedResult where
  revision : Nat
  contentHash : Text
  result : Json

/-! ### One call -/

inductive PublishMode where
  | singleShot
  | deliverModel
  | attest
  deriving DecidableEq

structure PublishArgs where
  artifact : List (Text × Json)
  target : Text
  mode : Option Text
  attestation : List (Text × Json)
  /-- `identity.subject`. -/
  subject : Text

/-- The mode contract; `none` is a refusal. -/
def PublishArgs.publishMode (apiClass : Bool) (args : PublishArgs) : Option PublishMode :=
  match apiClass, args.mode with
  | false, none => some .singleShot
  | false, some _ => none
  | true, mode =>
      if !((member args.artifact "layout").any isAuthoredLayout) then none
      else if mode = some (js "deliver_model") then some .deliverModel
      else if mode = some (js "attest") then some .attest
      else none

/-- `/^sha256:[0-9a-f]{64}$/`. -/
def isDefinitionHash (s : Text) : Bool :=
  decide (js "sha256:" <+: s) && decide (s.length = 71) &&
    (s.drop 7).all fun u => isDigit u || isLowerHex u

/-- `report_id` and `definition_hash`, unless the attestation is refused for its own sake. -/
def PublishArgs.attested (args : PublishArgs) : Option (Text × Text) := do
  let reportId ← (member args.attestation "report_id").bind Json.asString
  let definitionHash ← (member args.attestation "definition_hash").bind Json.asString
  let layout := (member args.artifact "layout").filter isAuthoredLayout
  let layoutHash := layout.bind fun layout => (layout.field "pbir_hash").bind Json.asString
  if decide (reportId ≠ []) && isDefinitionHash definitionHash &&
      layoutHash.all fun hash => decide (hash = definitionHash) then
    some (reportId, definitionHash)
  else none

/-- What the job of a call is for. -/
inductive ModeWork where
  | singleShot
  | deliverModel (results : Json)
  | attest (delivery : ModelDelivery) (reportId definitionHash : Text)

inductive PublishStage where
  /-- The call has passed every check before its first statement. -/
  | accepted
  /-- No row has the content, and the `INSERT` is still to come. -/
  | chosen (revision : Nat)
  | numbered (revision : Nat)
  /-- The job is enqueued. -/
  | awaiting (revision : Nat) (work : ModeWork)

structure PublishCall where
  artifactId : Text
  args : PublishArgs
  mode : PublishMode
  stage : PublishStage

/-- `artifact.id` is a string. -/
def PublishArgs.call (apiClass : Bool) (args : PublishArgs) : Option PublishCall := do
  let artifactId ← (member args.artifact "id").bind Json.asString
  let mode ← args.publishMode apiClass
  pure ⟨artifactId, args, mode, .accepted⟩

/-! ### Statements -/

/-- `SELECT … WHERE artifact_id = $1 ORDER BY revision`. -/
def priorRevisions (artifactId : Text) (t : Table artifactSchema) : List ReportArtifact :=
  (t.rows.filter fun r => decide (r.artifactId = artifactId)).insertionSort fun r r' =>
    r.revision ≤ r'.revision

/-- The stage after the `SELECT`. -/
def assignRevision (hash : Text) (prior : List ReportArtifact) : PublishStage :=
  match prior.find? fun r => decide (r.contentHash = hash) with
  | some existing => .numbered existing.revision
  | none => .chosen ((prior.getLast?.map ReportArtifact.revision).getD 0 + 1)

/-- What the job has answered, `delivered` being `detail.delivered`. -/
structure JobResult where
  result : Json
  delivered : Option (Text × Text × Json)

/-- A commit of one of the two calls. -/
inductive ModelCommit where
  | delivered (artifactId target : Text) (revision : Nat)
  | attested (artifactId target : Text) (revision : Nat)
  deriving DecidableEq

structure PublishWorld where
  artifacts : Table artifactSchema
  deliveries : List ((Text × Text) × ModelDelivery)
  attestations : List ((Text × Text × Nat) × ReportAttestation)
  results : List ((Text × Text) × PublishedResult)
  calls : Nat → Option PublishCall
  /-- The deliveries and attestations, in the order they were committed. -/
  journal : List ModelCommit

inductive PublishEvent where
  | accept (session : Nat) (args : PublishArgs) (apiClass : Bool)
  | selectRevisions (session : Nat)
  | insertRevision (session : Nat)
  /-- The work of the mode ahead of the job; `executed` are the results of the artifact's queries. -/
  | prepare (session : Nat) (executed : Option Json)
  | record (session : Nat) (job : JobResult)
  /-- A refusal, a job that failed, or an exception. -/
  | abandon (session : Nat)

namespace PublishWorld

def start : PublishWorld := ⟨⟨[], List.nodup_nil, trivial⟩, [], [], [], fun _ => none, []⟩

def atStage (w : PublishWorld) (session : Nat) (call : PublishCall) (stage : PublishStage) :
    PublishWorld :=
  { w with calls := Function.update w.calls session (some { call with stage }) }

def finish (w : PublishWorld) (session : Nat) : PublishWorld :=
  { w with calls := Function.update w.calls session none }

section

variable (sha256 : List UInt8 → Text)

/-- The row of the `INSERT`. -/
def newRevision (call : PublishCall) (revision : Nat) : ReportArtifact where
  artifactId := call.artifactId
  revision := revision
  contentHash := contentHash sha256 call.args.artifact
  body := canonicalJson (.obj (canonicalBody call.args.artifact))
  createdBy := call.args.subject
  kbRef := (member call.args.artifact "kb_ref").bind Json.asString

/-- The calls enqueue their job, or end here. -/
def prepare (w : PublishWorld) (session : Nat) (call : PublishCall) (revision : Nat)
    (executed : Option Json) : PublishWorld :=
  match call.mode with
  | .singleShot =>
      if (Dict.get? w.results (call.artifactId, call.args.target)).any fun prior =>
          decide (prior.contentHash = contentHash sha256 call.args.artifact) then
        w.finish session
      else w.atStage session call (.awaiting revision .singleShot)
  | .deliverModel =>
      match executed with
      | none => w.finish session
      | some results => w.atStage session call (.awaiting revision (.deliverModel results))
  | .attest =>
      match call.args.attested, Dict.get? w.deliveries (call.artifactId, call.args.target) with
      | some (reportId, definitionHash), some delivery =>
          if delivery.revision = revision then
            w.atStage session call (.awaiting revision (.attest delivery reportId definitionHash))
          else w.finish session
      | _, _ => w.finish session

/-- The last statement of the call. -/
def record (w : PublishWorld) (call : PublishCall) (revision : Nat) (job : JobResult) :
    ModeWork → PublishWorld
  | .singleShot => { w with
      results := Dict.set w.results (call.artifactId, call.args.target)
        ⟨revision, contentHash sha256 call.args.artifact, job.result⟩ }
  | .deliverModel results =>
      match job.delivered with
      | none => w
      | some (workspaceId, datasetId, tables) => { w with
          deliveries := Dict.set w.deliveries (call.artifactId, call.args.target)
            ⟨revision, contentHash sha256 call.args.artifact, workspaceId, datasetId, tables, results⟩
          journal := w.journal ++ [.delivered call.artifactId call.args.target revision] }
  | .attest delivery reportId definitionHash => { w with
      attestations := Dict.set w.attestations (call.artifactId, call.args.target, revision)
        ⟨delivery.workspaceId, delivery.datasetId, reportId, definitionHash⟩
      journal := w.journal ++ [.attested call.artifactId call.args.target revision] }

/-- `none` when the event does not come here. -/
def step? (w : PublishWorld) : PublishEvent → Option PublishWorld
  | .accept session args apiClass =>
      match w.calls session, args.call apiClass with
      | none, some call => some { w with calls := Function.update w.calls session (some call) }
      | _, _ => none
  | .selectRevisions session =>
      match w.calls session with
      | some ⟨artifactId, args, mode, .accepted⟩ =>
          some (w.atStage session ⟨artifactId, args, mode, .accepted⟩
            (assignRevision (contentHash sha256 args.artifact)
              (priorRevisions artifactId w.artifacts)))
      | _ => none
  | .insertRevision session =>
      match w.calls session with
      | some ⟨artifactId, args, mode, .chosen revision⟩ =>
          let call : PublishCall := ⟨artifactId, args, mode, .chosen revision⟩
          match w.artifacts.insert (newRevision sha256 call revision) with
          | none => some (w.finish session)
          | some artifacts => some { w.atStage session call (.numbered revision) with artifacts }
      | _ => none
  | .prepare session executed =>
      match w.calls session with
      | some ⟨artifactId, args, mode, .numbered revision⟩ =>
          some (w.prepare sha256 session ⟨artifactId, args, mode, .numbered revision⟩ revision executed)
      | _ => none
  | .record session job =>
      match w.calls session with
      | some ⟨artifactId, args, mode, .awaiting revision work⟩ =>
          some ((w.record sha256 ⟨artifactId, args, mode, .awaiting revision work⟩ revision job
            work).finish session)
      | _ => none
  | .abandon session => if (w.calls session).isSome then some (w.finish session) else none

end

end PublishWorld

def publishMachine (sha256 : List UInt8 → Text) : Machine PublishWorld PublishEvent :=
  .ofStep .start (PublishWorld.step? sha256)

instance (sha256 : List UInt8 → Text) : DecidableRel (publishMachine sha256).May :=
  inferInstanceAs (DecidableRel (Machine.ofStep _ _).May)

/-! ### What the revisions promise -/

/-- The revision a call goes by, once it has one. -/
def PublishStage.revision? : PublishStage → Option Nat
  | .accepted | .chosen _ => none
  | .numbered revision | .awaiting revision _ => some revision

def hasRevision (rows : List ReportArtifact) (artifactId : Text) (n : Nat) : Prop :=
  ∃ r ∈ rows, r.artifactId = artifactId ∧ r.revision = n

/-- **Revisions are assigned**: those of an artifact run from 1 without a gap, one for each content,
every call goes by the revision of its content, and an attestation comes after a delivery of the same
revision to the same target. -/
structure PublishWorld.Assigned (sha256 : List UInt8 → Text) (w : PublishWorld) : Prop where
  consecutive : ∀ artifactId, ∃ k, ∀ n,
    hasRevision w.artifacts.rows artifactId n ↔ 1 ≤ n ∧ n ≤ k
  byContent : ∀ r ∈ w.artifacts.rows, ∀ r' ∈ w.artifacts.rows, r.artifactId = r'.artifactId →
    (r.revision = r'.revision ↔ r.contentHash = r'.contentHash)
  numbered : ∀ session call revision, w.calls session = some call →
    call.stage.revision? = some revision → ∃ r ∈ w.artifacts.rows,
      r.artifactId = call.artifactId ∧ r.revision = revision ∧
        r.contentHash = contentHash sha256 call.args.artifact
  attested : ∀ a ∈ w.attestations, ∃ before after,
    w.journal = before ++ .attested a.1.1 a.1.2.1 a.1.2.2 :: after ∧
      .delivered a.1.1 a.1.2.1 a.1.2.2 ∈ before

/-- At most one revision is stored, and only of content the artifact has no revision of. -/
def PublishWorld.Mints (w w' : PublishWorld) : Prop :=
  w'.artifacts.rows = w.artifacts.rows ∨ ∃ row, w'.artifacts.rows = w.artifacts.rows ++ [row] ∧
    ∀ r ∈ w.artifacts.rows, r.artifactId = row.artifactId → r.contentHash ≠ row.contentHash

end ContextLayer
