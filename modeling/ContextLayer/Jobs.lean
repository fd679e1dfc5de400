import ContextLayer.Lib.ReadCommitted
import ContextLayer.Json

/-!
# The job table

The rows of `jobs` with the two constraints the database keeps on them, the primary key and the
partial unique index that caps queued batch jobs at one per (system, type); the job type registry;
and the tables a job's transaction writes beside its own.
-/

namespace ContextLayer

open Text Transaction

/-! ### The registry -/

inductive JobClass where
  | batch
  | interactive
  deriving DecidableEq

def JobClass.text : JobClass → Text
  | .batch => js "batch"
  | .interactive => js "interactive"

structure JobTypeSpec where
  type : Text
  jobClass : JobClass

def JOB_TYPES : List JobTypeSpec :=
  [⟨js "snapshot", .batch⟩, ⟨js "harvest", .batch⟩, ⟨js "lineage", .batch⟩, ⟨js "usage", .batch⟩,
    ⟨js "test_connection", .interactive⟩, ⟨js "execute", .interactive⟩,
    ⟨js "publish", .interactive⟩]

structure ClassDefaults where
  priority : Nat
  deadlineS : Nat
  maxAttempts : Nat

def CLASS_DEFAULTS : JobClass → ClassDefaults
  | .batch => ⟨50, 3600, 5⟩
  | .interactive => ⟨10, 120, 1⟩

def TRIGGER_KINDS : List Text :=
  [js "schedule", js "webhook", js "manual", js "gateway", js "dashboard"]

/-! ### Rows -/

inductive JobState where
  | queued
  | leased
  | running
  | succeeded
  | deadLettered
  | cancelled
  | coalesced
  deriving DecidableEq

/-- The stored spelling. -/
def JobState.text : JobState → Text
  | .queued => js "queued"
  | .leased => js "leased"
  | .running => js "running"
  | .succeeded => js "succeeded"
  | .deadLettered => js "dead_lettered"
  | .cancelled => js "cancelled"
  | .coalesced => js "coalesced"

/-- `state IN ('leased', 'running')`. -/
def JobState.live : JobState → Bool
  | .leased | .running => true
  | _ => false

def JobState.terminal : JobState → Bool
  | .succeeded | .deadLettered | .cancelled | .coalesced => true
  | _ => false

/-- An entry of a job's `triggers`. -/
structure Trigger where
  kind : Text
  detail : Option Json
  /-- `at`, in milliseconds as every time here. -/
  time : Nat
  mergedFrom : Option Text

/-- `{ ...t, merged_from: jobId }`. -/
def Trigger.mark (jobId : Text) (t : Trigger) : Trigger := { t with mergedFrom := some jobId }

structure ErrorEnvelope where
  code : Text
  message : Text
  retryable : Bool
  detail : Option Json

inductive ResultMeta where
  | snapshot (snapshotId sha256 canonicalBodySha256 : Text) (objectCount : Nat)
  | coalesced (into : Text) (retryAfterS : Nat) (reason : Json)

/-- `result_meta?.snapshot_id`. -/
def ResultMeta.snapshotId : ResultMeta → Option Text
  | .snapshot id _ _ _ => some id
  | .coalesced _ _ _ => none

/-- `result_meta?.coalesced_into`. -/
def ResultMeta.coalescedInto : ResultMeta → Option Text
  | .snapshot _ _ _ _ => none
  | .coalesced into _ _ => some into

structure JobRow where
  jobId : Text
  type : Text
  jobClass : JobClass
  system : Text
  connectorName : Text
  versionConstraint : Text
  payload : Json
  priority : Nat
  attempt : Nat
  maxAttempts : Nat
  deadlineS : Nat
  state : JobState
  notBefore : Nat
  deferrals : Nat
  maxDeferrals : Nat
  leaseToken : Option Text
  leaseExpiresAt : Option Nat
  runnerId : Option Text
  cancelRequested : Bool
  triggers : List Trigger
  progress : Option Json
  error : Option Json
  reenqueuedAs : Option Text
  result : Option Json
  resultMeta : Option ResultMeta
  createdAt : Nat
  startedAt : Option Nat
  finishedAt : Option Nat

namespace JobRow

/-- What the dedupe index and the claim query tell jobs apart by. -/
def dedupeKey (r : JobRow) : Text × Text := (r.system, r.type)

/-- The index predicate `state = 'queued' AND class = 'batch'`, for one key. -/
def QueuedBatch (key : Text × Text) (r : JobRow) : Prop :=
  r.state = .queued ∧ r.jobClass = .batch ∧ r.dedupeKey = key

instance (key : Text × Text) (r : JobRow) : Decidable (r.QueuedBatch key) := by
  unfold QueuedBatch
  infer_instance

def LiveBatch (key : Text × Text) (r : JobRow) : Prop :=
  r.state.live = true ∧ r.jobClass = .batch ∧ r.dedupeKey = key

instance (key : Text × Text) (r : JobRow) : Decidable (r.LiveBatch key) := by
  unfold LiveBatch
  infer_instance

end JobRow

/-- `jobs_dedupe_queued`: no two queued batch jobs have one key. -/
def Deduped (rows : List JobRow) : Prop :=
  rows.Pairwise fun r r' => ¬ (r.QueuedBatch r.dedupeKey ∧ r'.QueuedBatch r.dedupeKey)

instance : DecidablePred Deduped := by
  intro rows
  unfold Deduped
  infer_instance

def jobSchema : Schema JobRow Text where
  key := JobRow.jobId
  Holds := Deduped
  decideHolds := inferInstance
  holds_sublist h := List.Pairwise.sublist h

abbrev JobTable := Table jobSchema

/-! ### The tables beside it -/

structure AcceptedSnapshot where
  snapshotId : Text
  system : Text
  jobId : Text
  snapshotVersion : Text
  sourceMode : Text
  connectorName : Text
  connectorVersion : Text
  capturedAt : Text
  body : List UInt8
  sha256 : Text
  canonicalBodySha256 : Text
  objectCount : Nat
  acceptedAt : Nat

structure HealthEvent where
  kind : Text
  severity : Text
  system : Text
  jobId : Text
  detail : Json

structure Tables where
  snapshots : List AcceptedSnapshot
  healthEvents : List HealthEvent

abbrev Database := Store jobSchema Tables

abbrev Tx := Prog jobSchema Tables

end ContextLayer
