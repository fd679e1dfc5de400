import ContextLayer.Jobs

/-!
# The queue

`queue.ts`. An operation is one statement (`enqueue`) or one transaction; what a run of the program
draws from outside, its clocks, its ULIDs, its backoff jitter and the rows `SKIP LOCKED` passes
over, is an argument. Two transitions hand a job's work to another row. A retry finding a follower
queued behind it absorbs the follower: the follower's triggers move over and its row is deleted. A
deferral finding one coalesces into it: the triggers move over and the deferring row stays behind,
`coalesced`.
-/

namespace ContextLayer

open Text Transaction Prog

/-- What the queue calls and does not define. -/
structure Packages where
  /-- `semver.validRange(range) !== null`. -/
  validRange : Text → Bool
  /-- `semver.satisfies(version, range, { includePrerelease: true })`. -/
  satisfies : Text → Text → Bool
  /-- The credential patterns of `redact.ts`, replaced. -/
  redactString : Text → Text
  /-- `String(value)`. -/
  string : Json → Text

structure CoreConfig where
  leaseTtlS : Nat
  retryBaseS : Nat
  retryCapS : Nat
  maxDeferrals : Nat
  snapshotRetention : Nat

def secs (n : Nat) : Nat := 1000 * n

def jsNat (n : Nat) : Json := .num (.ofNat n)

/-! ### Redaction -/

section

variable (L : Packages)

mutual

def redactDeep : Json → Json
  | .str s => .str (L.redactString s)
  | .arr items => .arr (redactItems items)
  | .obj members => .obj (redactMembers members)
  | v => v

def redactItems : List Json → List Json
  | [] => []
  | v :: rest => redactDeep v :: redactItems rest

def redactMembers : List (Text × Json) → List (Text × Json)
  | [] => []
  | (k, v) :: rest => (k, redactDeep v) :: redactMembers rest

end

def redactError (error : ErrorEnvelope) : ErrorEnvelope :=
  { error with
    message := L.redactString error.message
    detail := error.detail.map (redactDeep L) }

end

def ErrorEnvelope.toJson (e : ErrorEnvelope) : Json :=
  .obj ([(js "code", .str e.code), (js "message", .str e.message),
      (js "retryable", .bool e.retryable)] ++
    (e.detail.map fun d => [(js "detail", d)]).getD [])

/-! ### Enqueue -/

structure EnqueueConnector where
  name : Option Json
  versionConstraint : Option Json

structure EnqueueTrigger where
  kind : Option Json
  detail : Option Json

/-- A request; a field that is `undefined` is `none`. -/
structure EnqueueRequest where
  type : Option Json
  system : Option Json
  connector : Option EnqueueConnector
  payload : Option Json
  priority : Option Json
  maxAttempts : Option Json
  deadlineS : Option Json
  maxDeferrals : Option Json
  trigger : Option EnqueueTrigger

structure ValidEnqueue where
  spec : JobTypeSpec
  system : Text
  connectorName : Text
  constraint : Text
  payload : Json
  priority : Nat
  maxAttempts : Nat
  deadlineS : Nat
  maxDeferrals : Nat
  trigger : Trigger

/-- `Number.isInteger(value) && value > 0`, with the integer. A number printed with a positive
exponent is an integer from `1e21` on; which one is beside the point, no column holds it. -/
def positiveInteger : Json → Option Nat
  | .num n =>
      if n.text.all fun u => decide (0x30 ≤ u) && decide (u ≤ 0x39) then
        if digitsValue n.text = 0 then none else some (digitsValue n.text)
      else if n.text.contains 0x2B && !n.text.contains 0x2D then some (10 ^ 21)
      else none
  | _ => none

/-- A non-empty string. -/
def nonEmptyString (v : Option Json) : Option Text :=
  match v with
  | some (.str s) => if s = [] then none else some s
  | _ => none

def problemUnless (ok : Bool) (problem : Text) : List Text := if ok then [] else [problem]

def orDefault (value : Option Json) (fallback : Nat) : Option Nat :=
  match value with
  | none => some fallback
  | some v => positiveInteger v

section

variable (L : Packages) (cfg : CoreConfig)

def EnqueueRequest.spec (req : EnqueueRequest) : Option JobTypeSpec :=
  (req.type.bind Json.asString).bind fun type => JOB_TYPES.find? fun s => decide (s.type = type)

def EnqueueRequest.constraint (req : EnqueueRequest) : Option Text :=
  match req.connector.bind EnqueueConnector.versionConstraint with
  | none => some (js "*")
  | some (.str range) => if L.validRange range then some range else none
  | some _ => none

/-- `req.trigger?.kind`, when it is one of the kinds; without a trigger it is `manual`. -/
def EnqueueRequest.triggerKind (req : EnqueueRequest) : Option Text :=
  match req.trigger with
  | none => some (js "manual")
  | some t => (t.kind.bind Json.asString).bind fun k => if k ∈ TRIGGER_KINDS then some k else none

/-- `req.payload ?? {}`, when it is an object. -/
def EnqueueRequest.payloadObject (req : EnqueueRequest) : Option Json :=
  match req.payload with
  | none | some .null => some (.obj [])
  | some (.obj members) => some (.obj members)
  | some _ => none

def integerProblem (field : String) (value : Option Json) : List Text :=
  problemUnless (orDefault value 1).isSome (js field ++ js " must be a positive integer")

def enqueueProblems (req : EnqueueRequest) : List Text :=
  problemUnless req.spec.isSome (js "type must be one of: " ++
    (js ", ").intercalate (JOB_TYPES.map JobTypeSpec.type)) ++
  problemUnless (nonEmptyString req.system).isSome (js "system (non-empty string) is required") ++
  problemUnless (nonEmptyString (req.connector.bind EnqueueConnector.name)).isSome
    (js "connector.name (non-empty string) is required") ++
  problemUnless (req.constraint L).isSome
    (js "connector.version_constraint is not a valid semver range") ++
  problemUnless req.triggerKind.isSome
    (js "trigger.kind must be one of: " ++ (js ", ").intercalate TRIGGER_KINDS) ++
  problemUnless req.payloadObject.isSome (js "payload must be an object") ++
  integerProblem "priority" req.priority ++
  integerProblem "max_attempts" req.maxAttempts ++
  integerProblem "deadline_s" req.deadlineS ++
  integerProblem "max_deferrals" req.maxDeferrals

/-- `validateEnqueue`: the request with its defaults, or every problem it has. `clock` is
`Date.now()`. -/
def validateEnqueue (clock : Nat) (req : EnqueueRequest) : Except (List Text) ValidEnqueue :=
  let valid := do
    let spec ← req.spec
    let defaults := CLASS_DEFAULTS spec.jobClass
    pure {
      spec
      system := ← nonEmptyString req.system
      connectorName := ← nonEmptyString (req.connector.bind EnqueueConnector.name)
      constraint := ← req.constraint L
      payload := ← req.payloadObject
      priority := ← orDefault req.priority defaults.priority
      maxAttempts := ← orDefault req.maxAttempts defaults.maxAttempts
      deadlineS := ← orDefault req.deadlineS defaults.deadlineS
      maxDeferrals := ← orDefault req.maxDeferrals cfg.maxDeferrals
      trigger := {
        kind := ← req.triggerKind
        detail := req.trigger.bind EnqueueTrigger.detail
        time := clock
        mergedFrom := none } : ValidEnqueue }
  match valid with
  | some v => .ok v
  | none => .error (enqueueProblems L req)

/-- The row `enqueue` inserts; `now` is the database's clock. -/
def ValidEnqueue.row (v : ValidEnqueue) (jobId : Text) (now : Nat) : JobRow where
  jobId
  type := v.spec.type
  jobClass := v.spec.jobClass
  system := v.system
  connectorName := v.connectorName
  versionConstraint := v.constraint
  payload := v.payload
  priority := v.priority
  attempt := 1
  maxAttempts := v.maxAttempts
  deadlineS := v.deadlineS
  state := .queued
  notBefore := now
  deferrals := 0
  maxDeferrals := v.maxDeferrals
  leaseToken := none
  leaseExpiresAt := none
  runnerId := none
  cancelRequested := false
  triggers := [v.trigger]
  progress := none
  error := none
  reenqueuedAs := none
  result := none
  resultMeta := none
  createdAt := now
  startedAt := none
  finishedAt := none

/-- The largest value of an `integer` column. -/
def INTEGER_MAX : Nat := 2147483647

def ValidEnqueue.fits (v : ValidEnqueue) : Bool :=
  [v.priority, v.maxAttempts, v.deadlineS, v.maxDeferrals].all fun n => decide (n ≤ INTEGER_MAX)

structure Enqueued where
  jobId : Text
  merged : Bool

/-- `SET triggers = jobs.triggers || excluded.triggers`. -/
def appendTriggers (triggers : List Trigger) : Assignment jobSchema where
  apply r := { r with triggers := r.triggers ++ triggers }
  key_apply _ := rfl

/-- `INSERT INTO jobs`, for a batch job with `ON CONFLICT (system, type) … DO UPDATE`. `none` when
the database refuses the statement. -/
def insertJob (row : JobRow) (t : JobTable) : Option (Enqueued × JobTable) :=
  match row.jobClass, t.rows.find? fun r => decide (r.QueuedBatch row.dedupeKey) with
  | .batch, some existing =>
      (t.update existing.jobId (appendTriggers row.triggers)).map (⟨existing.jobId, true⟩, ·)
  | _, _ => (t.insert row).map (⟨row.jobId, false⟩, ·)

inductive EnqueueReply where
  /-- An `EnqueueError`. -/
  | invalid (problems : List Text)
  | enqueued (result : Enqueued)

def enqueue (req : EnqueueRequest) (jobId : Text) (clock now : Nat) (db : Database) :
    Option (EnqueueReply × Database) :=
  match validateEnqueue L cfg clock req with
  | .error problems => some (.invalid problems, db)
  | .ok v =>
      if v.fits then
        (insertJob (v.row jobId now) db.table).map fun (result, t) =>
          (.enqueued result, { db with table := t })
      else none

end

/-! ### Claim -/

structure ClaimDeclaration where
  name : Text
  /-- `none` when it is not a string. -/
  version : Option Text
  types : Option (List Text)

def matchesRow (L : Packages) (row : JobRow) (connectors : List ClaimDeclaration) : Bool :=
  connectors.any fun d =>
    decide (d.name = row.connectorName) &&
      (d.version.any fun version => L.satisfies version row.versionConstraint) &&
      (d.types.all fun types => decide (row.type ∈ types))

structure ClaimArgs where
  runnerId : Text
  connectors : List ClaimDeclaration
  classes : List Text

structure Lease where
  token : Text
  expiresAt : Nat
  ttlS : Nat

/-- The `WHERE` clause of the claim. -/
def claimable (args : ClaimArgs) (now : Nat) (rows : List JobRow) (j : JobRow) : Bool :=
  decide (j.state = .queued) && decide (j.notBefore ≤ now) &&
    decide (j.jobClass.text ∈ args.classes) &&
    decide (j.connectorName ∈ args.connectors.map ClaimDeclaration.name) &&
    !rows.any fun r => decide (r.LiveBatch j.dedupeKey)

/-- `ORDER BY priority, created_at`. -/
def claimOrder (j j' : JobRow) : Prop :=
  j.priority < j'.priority ∨ (j.priority = j'.priority ∧ j.createdAt ≤ j'.createdAt)

instance (j j' : JobRow) : Decidable (claimOrder j j') := by
  unfold claimOrder
  infer_instance

/-- The rows the claim selects; `locked` are those `SKIP LOCKED` passes over. -/
def claimCandidates (args : ClaimArgs) (now : Nat) (locked : Text → Bool) (rows : List JobRow) :
    List JobRow :=
  ((rows.filter fun j => claimable args now rows j && !locked j.jobId).insertionSort
    claimOrder).take 16

def setLeased (cfg : CoreConfig) (now : Nat) (token runnerId : Text) : Assignment jobSchema where
  apply r := { r with
    state := .leased, leaseToken := some token, runnerId := some runnerId
    leaseExpiresAt := some (now + secs cfg.leaseTtlS) }
  key_apply _ := rfl

/-- A claim over the rows its query sees. -/
def claimOnce (L : Packages) (cfg : CoreConfig) (args : ClaimArgs) (now : Nat) (token : Text)
    (locked : Text → Bool) (rows : List JobRow) : Tx (Option (JobRow × Lease)) :=
  if args.connectors.isEmpty || args.classes.isEmpty then pure none
  else
    match (claimCandidates args now locked rows).find? (matchesRow L · args.connectors) with
    | none => pure none
    | some row => do
        let grant := setLeased cfg now token args.runnerId
        updateRow row.jobId grant
        pure (some (grant.apply row, ⟨token, now + secs cfg.leaseTtlS, cfg.leaseTtlS⟩))

/-! ### The lease holder's calls -/

/-- The row, when `leaseToken` is its live lease. -/
def lockLeased (jobId leaseToken : Text) : Tx (Option JobRow) := do
  let rows ← selectForUpdate fun r =>
    decide (r.jobId = jobId) && decide (r.leaseToken = some leaseToken) && r.state.live
  pure rows.head?

def setRunning (cfg : CoreConfig) (now : Nat) : Assignment jobSchema where
  apply r := { r with
    state := .running, startedAt := some (r.startedAt.getD now)
    leaseExpiresAt := some (now + secs cfg.leaseTtlS) }
  key_apply _ := rfl

/-- The reply is `cancelRequested`; `none` is a lost lease, as everywhere below. -/
def startJob (cfg : CoreConfig) (jobId leaseToken : Text) (now : Nat) : Tx (Option Bool) := do
  match ← lockLeased jobId leaseToken with
  | none => pure none
  | some row => do
      updateRow jobId (setRunning cfg now)
      pure (some row.cancelRequested)

/-- One TTL from now, but never past `started_at + deadline_s`. -/
def heartbeatExpiry (cfg : CoreConfig) (now : Nat) (r : JobRow) : Nat :=
  min (now + secs cfg.leaseTtlS)
    ((r.startedAt.map (· + secs r.deadlineS)).getD (now + secs cfg.leaseTtlS))

def setHeartbeat (cfg : CoreConfig) (now : Nat) (progress : Option Json) :
    Assignment jobSchema where
  apply r := { r with
    leaseExpiresAt := some (heartbeatExpiry cfg now r), progress := progress.or r.progress }
  key_apply _ := rfl

def heartbeatJob (cfg : CoreConfig) (jobId leaseToken : Text) (progress : Option Json)
    (now : Nat) : Tx (Option (Lease × Bool)) := do
  match ← lockLeased jobId leaseToken with
  | none => pure none
  | some row => do
      updateRow jobId (setHeartbeat cfg now progress)
      pure (some (⟨leaseToken, heartbeatExpiry cfg now row, cfg.leaseTtlS⟩, row.cancelRequested))

/-! ### Requeue and dead-letter -/

/-- `min(retryBaseS * 2 ** (failedAttempt - 1), retryCapS)` seconds, in milliseconds; `jitter` is
the ±20% draw in thousandths. -/
def backoff (cfg : CoreConfig) (failedAttempt jitter : Nat) : Nat :=
  min (cfg.retryBaseS * 2 ^ (failedAttempt - 1)) cfg.retryCapS * jitter

def recordHealthEvent (L : Packages) (kind severity : String) (row : JobRow)
    (detail : List (Text × Json)) : Tx Unit :=
  onOther fun tables =>
    { tables with
      healthEvents := tables.healthEvents ++
        [⟨js kind, js severity, row.system, row.jobId, redactDeep L (.obj detail)⟩] }

def setDeadLettered (now : Nat) (error : ErrorEnvelope) : Assignment jobSchema where
  apply r := { r with
    state := .deadLettered, error := some error.toJson, finishedAt := some now
    leaseToken := none, leaseExpiresAt := none }
  key_apply _ := rfl

def deadLetter (L : Packages) (now : Nat) (row : JobRow) (error : ErrorEnvelope)
    (healthKind : String) : Tx Unit := do
  updateRow row.jobId (setDeadLettered now error)
  recordHealthEvent L healthKind "error" row
    [(js "error", error.toJson), (js "attempt", jsNat row.attempt),
      (js "max_attempts", jsNat row.maxAttempts), (js "type", .str row.type)]

def setCancelled (now : Nat) (error : ErrorEnvelope) : Assignment jobSchema where
  apply r := { r with
    state := .cancelled, error := some error.toJson, finishedAt := some now
    leaseToken := none, leaseExpiresAt := none }
  key_apply _ := rfl

def cancelTerminal (now : Nat) (row : JobRow) (error : ErrorEnvelope) : Tx Unit :=
  updateRow row.jobId (setCancelled now error)

/-- Queued behind `row`, under its key. -/
def isFollower (row r : JobRow) : Bool :=
  decide (r.QueuedBatch row.dedupeKey) && decide (r.jobId ≠ row.jobId)

/-- The triggers of a job about to be requeued, its follower's included; the follower's row goes. -/
def absorbFollower (row : JobRow) : Tx (List Trigger) :=
  match row.jobClass with
  | .interactive => pure row.triggers
  | .batch => do
      let followers ← selectForUpdate (isFollower row)
      match followers.head? with
      | none => pure row.triggers
      | some follower => do
          deleteRow follower.jobId
          pure (row.triggers ++ follower.triggers.map (Trigger.mark follower.jobId))

def setRequeued (notBefore : Nat) (triggers : List Trigger) (error : ErrorEnvelope) :
    Assignment jobSchema where
  apply r := { r with
    state := .queued, attempt := r.attempt + 1, notBefore, triggers
    error := some error.toJson, leaseToken := none, leaseExpiresAt := none
    runnerId := none, progress := none }
  key_apply _ := rfl

inductive RequeueOutcome where
  | requeued
  | deadLettered
  | cancelled
  deriving DecidableEq

def requeueOrDeadLetter (L : Packages) (cfg : CoreConfig) (now jitter : Nat) (row : JobRow)
    (error : ErrorEnvelope) (healthKind : String) : Tx RequeueOutcome :=
  if row.cancelRequested then do
    cancelTerminal now row
      ⟨js "cancelled", js "cancel requested; job not retried", false, none⟩
    pure .cancelled
  else if row.maxAttempts ≤ row.attempt then do
    deadLetter L now row error healthKind
    pure .deadLettered
  else do
    let triggers ← absorbFollower row
    updateRow row.jobId (setRequeued (now + backoff cfg row.attempt jitter) triggers error)
    pure .requeued

def failJob (L : Packages) (cfg : CoreConfig) (jobId leaseToken : Text) (error : ErrorEnvelope)
    (now jitter : Nat) : Tx (Option RequeueOutcome) := do
  let error := redactError L error
  match ← lockLeased jobId leaseToken with
  | none => pure none
  | some row =>
      if error.code = js "cancelled" then do
        cancelTerminal now row error
        recordHealthEvent L "job_cancelled" "info" row [(js "type", .str row.type)]
        pure (some .cancelled)
      else if error.retryable then
        some <$> requeueOrDeadLetter L cfg now jitter row error "attempts_exhausted"
      else do
        deadLetter L now row error "job_dead_lettered"
        pure (some .deadLettered)

/-! ### Deferral -/

/-- The survivor of a coalesce: the later of the two waits, and the triggers of both. -/
def setSurvivor (notBefore : Nat) (triggers : List Trigger) : Assignment jobSchema where
  apply r := { r with notBefore := max r.notBefore notBefore, triggers }
  key_apply _ := rfl

def setCoalesced (now retryAfterS : Nat) (survivor : Text) (reason : Json) :
    Assignment jobSchema where
  apply r := { r with
    state := .coalesced, finishedAt := some now, leaseToken := none, leaseExpiresAt := none
    runnerId := none, progress := none
    resultMeta := some (.coalesced survivor retryAfterS reason) }
  key_apply _ := rfl

def coalesceIntoQueued (now : Nat) (row : JobRow) (retryAfterS : Nat) (reason : Json) :
    Tx Bool :=
  match row.jobClass with
  | .interactive => pure false
  | .batch => do
      let queued ← selectForUpdate (isFollower row)
      match queued.head? with
      | none => pure false
      | some survivor => do
          updateRow survivor.jobId (setSurvivor (now + secs retryAfterS)
            (survivor.triggers ++ row.triggers.map (Trigger.mark row.jobId)))
          updateRow row.jobId (setCoalesced now retryAfterS survivor.jobId reason)
          pure true

/-- `{ ...reason, via: "defer", retryable: true }`. -/
def deferError (reason : Json) : Json :=
  .obj (Dict.set (Dict.set (spread reason) (js "via") (.str (js "defer")))
    (js "retryable") (.bool true))

def setDeferred (notBefore : Nat) (triggers : List Trigger) (reason : Json) :
    Assignment jobSchema where
  apply r := { r with
    state := .queued, notBefore, deferrals := r.deferrals + 1, triggers
    error := some (deferError reason), leaseToken := none, leaseExpiresAt := none
    runnerId := none, progress := none }
  key_apply _ := rfl

inductive DeferOutcome where
  | deferred
  | requeued
  | deadLettered
  | cancelled
  | coalesced
  deriving DecidableEq

def RequeueOutcome.toDefer : RequeueOutcome → DeferOutcome
  | .requeued => .requeued
  | .deadLettered => .deadLettered
  | .cancelled => .cancelled

/-- `value ?? ""`, as a template prints it. -/
def templateOr (L : Packages) (v : Option Json) : Text :=
  match v with
  | none | some .null => []
  | some v => L.string v

def decimal (n : Nat) : Text := (JsNumber.ofNat n).text

/-- What a deferral past the cap fails with. -/
def deferralCapError (L : Packages) (row : JobRow) (reason : Json) : ErrorEnvelope where
  code := ((reason.field "code").bind Json.asString).getD (js "quota")
  message := js "deferral cap (" ++ decimal row.maxDeferrals ++ js ") reached: " ++
    templateOr L (reason.field "message")
  retryable := true
  detail := none

def deferJob (L : Packages) (cfg : CoreConfig) (jobId leaseToken : Text)
    (retryAfterS : Nat) (reason : Json) (now jitter : Nat) : Tx (Option DeferOutcome) := do
  let reason := redactDeep L reason
  match ← lockLeased jobId leaseToken with
  | none => pure none
  | some row =>
      if row.cancelRequested then do
        cancelTerminal now row
          ⟨js "cancelled", js "cancel requested; deferral not honored", false, none⟩
        pure (some .cancelled)
      else if row.maxDeferrals < row.deferrals + 1 then do
        recordHealthEvent L "deferral_cap_reached" "warning" row
          [(js "max_deferrals", jsNat row.maxDeferrals), (js "reason", reason)]
        let outcome ← requeueOrDeadLetter L cfg now jitter row (deferralCapError L row reason)
          "attempts_exhausted"
        pure (some outcome.toDefer)
      else do
        if ← coalesceIntoQueued now row retryAfterS reason then
          pure (some .coalesced)
        else do
          updateRow jobId (setDeferred (now + secs retryAfterS) row.triggers reason)
          pure (some .deferred)

/-! ### Delivery -/

structure SnapshotVerdict where
  snapshotVersion : Text
  sourceMode : Text
  capturedAt : Text
  connectorName : Text
  connectorVersion : Text
  objectCount : Nat
  sha256 : Text
  canonicalBodySha256 : Text

def SnapshotVerdict.snapshot (v : SnapshotVerdict) (row : JobRow) (snapshotId : Text) (body : List UInt8)
    (now : Nat) : AcceptedSnapshot where
  snapshotId
  system := row.system
  jobId := row.jobId
  snapshotVersion := v.snapshotVersion
  sourceMode := v.sourceMode
  connectorName := v.connectorName
  connectorVersion := v.connectorVersion
  capturedAt := v.capturedAt
  body
  sha256 := v.sha256
  canonicalBodySha256 := v.canonicalBodySha256
  objectCount := v.objectCount
  acceptedAt := now

/-- `ORDER BY accepted_at DESC, snapshot_id DESC`. -/
def newestFirst (a b : AcceptedSnapshot) : Prop :=
  b.acceptedAt < a.acceptedAt ∨ (a.acceptedAt = b.acceptedAt ∧ b.snapshotId ≤ a.snapshotId)

instance (a b : AcceptedSnapshot) : Decidable (newestFirst a b) := by
  unfold newestFirst
  infer_instance

/-- Retention: the newest `keep` snapshots of the system. -/
def pruneSnapshots (system : Text) (keep : Nat) (snapshots : List AcceptedSnapshot) :
    List AcceptedSnapshot :=
  let kept := (((snapshots.filter fun s => decide (s.system = system)).insertionSort
    newestFirst).take keep).map AcceptedSnapshot.snapshotId
  snapshots.filter fun s => decide (s.system ≠ system) || decide (s.snapshotId ∈ kept)

def setSucceeded (now : Nat) (result : Option Json) (resultMeta : Option ResultMeta) :
    Assignment jobSchema where
  apply r := { r with
    state := .succeeded, finishedAt := some now, result := result.or r.result
    resultMeta := resultMeta.or r.resultMeta, leaseToken := none, leaseExpiresAt := none }
  key_apply _ := rfl

/-- The reply is the snapshot id. -/
def succeedSnapshot (cfg : CoreConfig) (jobId leaseToken : Text) (verdict : SnapshotVerdict)
    (body : List UInt8) (snapshotId : Text) (now : Nat) : Tx (Option Text) := do
  match ← lockLeased jobId leaseToken with
  | none => pure none
  | some row => do
      onOther fun tables =>
        { tables with
          snapshots := tables.snapshots ++ [verdict.snapshot row snapshotId body now] }
      onOther fun tables =>
        { tables with
          snapshots := pruneSnapshots row.system cfg.snapshotRetention tables.snapshots }
      updateRow jobId (setSucceeded now none (some (.snapshot snapshotId verdict.sha256
        verdict.canonicalBodySha256 verdict.objectCount)))
      pure (some snapshotId)

def rejectDelivery (L : Packages) (jobId leaseToken : Text) (errors : List Text) (now : Nat) :
    Tx Bool := do
  match ← lockLeased jobId leaseToken with
  | none => pure false
  | some row => do
      deadLetter L now row
        ⟨js "validation_error", js "core rejected delivered result (J-6)", false,
          some (.obj [(js "errors", .arr (errors.map .str))])⟩
        "validation_rejected"
      pure true

/-- `result ?? null`. -/
def succeedInline (jobId leaseToken : Text) (result : Option Json) (now : Nat) : Tx Bool := do
  match ← lockLeased jobId leaseToken with
  | none => pure false
  | some _ => do
      updateRow jobId (setSucceeded now (some (result.getD .null)) none)
      pure true

/-! ### The producer's calls, and the sweep -/

def setCancelRequested : Assignment jobSchema where
  apply r := { r with cancelRequested := true }
  key_apply _ := rfl

/-- The reply is the job's state and `cancelRequested`. -/
def cancelJob (jobId : Text) (now : Nat) : Tx (Option (JobState × Bool)) := do
  let rows ← selectForUpdate fun r => decide (r.jobId = jobId)
  match rows.head? with
  | none => pure none
  | some row =>
      match row.state with
      | .queued => do
          cancelTerminal now row ⟨js "cancelled", js "cancelled while queued", false, none⟩
          pure (some (.cancelled, false))
      | .leased | .running => do
          updateRow jobId setCancelRequested
          pure (some (row.state, true))
      | _ => pure (some (row.state, row.cancelRequested))

def getJob (jobId : Text) (rows : List JobRow) : Option JobRow :=
  rows.find? fun r => decide (r.jobId = jobId)

/-- `state IN ('leased', 'running') AND lease_expires_at < now()`. -/
def isExpired (now : Nat) (r : JobRow) : Bool :=
  r.state.live && r.leaseExpiresAt.any fun t => decide (t < now)

def leaseExpiredError : ErrorEnvelope where
  code := js "internal"
  message := js "lease expired (missed heartbeats) — treated as internal (§6.7)"
  retryable := true
  detail := none

def sweepRow (L : Packages) (cfg : CoreConfig) (now jitter : Nat) (row : JobRow) :
    Tx RequeueOutcome := do
  recordHealthEvent L "lease_expired" "warning" row
    [(js "runner_id", (row.runnerId.map Json.str).getD .null), (js "attempt", jsNat row.attempt),
      (js "type", .str row.type)]
  requeueOrDeadLetter L cfg now jitter row leaseExpiredError "attempts_exhausted"

/-- The reply counts the rows swept; the ids are those dead-lettered. -/
def sweepRows (L : Packages) (cfg : CoreConfig) (now : Nat) (jitter : Text → Nat) :
    List JobRow → Tx (Nat × List Text)
  | [] => pure (0, [])
  | row :: rest => do
      let outcome ← sweepRow L cfg now (jitter row.jobId) row
      let (count, terminal) ← sweepRows L cfg now jitter rest
      pure (count + 1,
        if outcome = .deadLettered then row.jobId :: terminal else terminal)

/-- One transaction over every expired lease that is not `locked` by another. -/
def sweepExpiredLeases (L : Packages) (cfg : CoreConfig) (now : Nat) (jitter : Text → Nat)
    (locked : Text → Bool) : Tx (Nat × List Text) := do
  let rows ← selectForUpdate fun r => isExpired now r && !locked r.jobId
  sweepRows L cfg now jitter rows

end ContextLayer
