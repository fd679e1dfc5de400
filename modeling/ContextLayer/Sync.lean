import ContextLayer.Calls

/-!
# Triggers, re-enqueues and the acquisition loop

Where the ids of queued jobs go. `triggerSystem` enqueues a snapshot job and, in a second statement,
marks its system pending under the id it was given; a sync run consumes the marks, waits for each
mark's job, and may mark the systems pending again; the Ops screen re-enqueues a dead job and, again
in a second statement, points it at its replacement. Between two statements anything else may happen.
-/

namespace ContextLayer

open Text Transaction Prog

/-- A registered connection, `sync_systems`. -/
structure SyncSystem where
  system : Text
  connectorName : Text
  versionConstraint : Text
  payload : Json

structure TriggerRecord where
  kind : Text
  detail : Option Json
  /-- `at`. -/
  time : Nat

/-- A row of `sync_pending`. -/
structure PendingSystem where
  system : Text
  triggers : List TriggerRecord
  jobId : Option Text

/-- What `triggerSystem` and the Ops screen enqueue for a connection. -/
def SyncSystem.request (s : SyncSystem) (type kind : Text) (detail : Option Json) :
    EnqueueRequest where
  type := some (.str type)
  system := some (.str s.system)
  connector := some ⟨some (.str s.connectorName), some (.str s.versionConstraint)⟩
  payload := some s.payload
  priority := none
  maxAttempts := none
  deadlineS := none
  maxDeferrals := none
  trigger := some ⟨some (.str kind), detail⟩

/-- `INSERT INTO sync_pending … ON CONFLICT (system) DO UPDATE SET …`. -/
def upsertPending (row : PendingSystem) (merge : PendingSystem → PendingSystem)
    (pending : List PendingSystem) : List PendingSystem :=
  if pending.any fun p => decide (p.system = row.system) then
    pending.map fun p => if p.system = row.system then merge p else p
  else pending ++ [row]

/-- The mark of a trigger: the latest job id wins. -/
def markPending (row : PendingSystem) : List PendingSystem → List PendingSystem :=
  upsertPending row fun p => { p with triggers := p.triggers ++ row.triggers, jobId := row.jobId }

/-- `remarkPending` for one system: a mark that has come since keeps its job id. -/
def remarkPending (row : PendingSystem) : List PendingSystem → List PendingSystem :=
  upsertPending row fun p =>
    { p with triggers := row.triggers ++ p.triggers, jobId := p.jobId.or row.jobId }

/-! ### The re-enqueue handler -/

def REBUILDABLE_TYPES : List Text := [js "snapshot", js "test_connection"]

/-- The refusals, by their `error`. -/
inductive ReenqueueRefusal where
  | notFound
  | notDeadLettered (state : JobState)
  | alreadyReenqueued (jobId : Text)
  | notReenqueueable (type : Text)
  | noRegistration (system : Text)

/-- The checks on the job the operator pressed on. -/
def checkReenqueue (row : Option JobRow) : Except ReenqueueRefusal JobRow :=
  match row with
  | none => .error .notFound
  | some dead =>
      if dead.state ≠ .deadLettered then .error (.notDeadLettered dead.state)
      else
        match dead.reenqueuedAs with
        | some jobId => .error (.alreadyReenqueued jobId)
        | none =>
            if dead.type ∈ REBUILDABLE_TYPES then .ok dead
            else .error (.notReenqueueable dead.type)

def checkRegistration (dead : JobRow) (registration : Option SyncSystem) :
    Except ReenqueueRefusal SyncSystem :=
  match registration with
  | none => .error (.noRegistration dead.system)
  | some s => .ok s

/-- The request, rebuilt from the registration; the trigger names who pressed and on what. -/
def reenqueueRequest (dead : JobRow) (registration : SyncSystem) (actor : Text) : EnqueueRequest :=
  ({ registration with system := dead.system } : SyncSystem).request dead.type (js "dashboard")
    (some (.obj [(js "actor", .str actor), (js "via", .str (js "dashboard")),
      (js "reenqueue_of", .str dead.jobId)]))

def setReenqueuedAs (jobId : Text) : Assignment jobSchema where
  apply r := { r with reenqueuedAs := some jobId }
  key_apply _ := rfl

/-- `UPDATE jobs SET reenqueued_as = …`. -/
def pointAt (deadId jobId : Text) (db : Database) : Database :=
  match db.table.update deadId (setReenqueuedAs jobId) with
  | none => db
  | some table => { db with table }

/-! ### The whole -/

/-- `triggerSystem` after its enqueue. -/
structure Marking where
  system : Text
  kind : Text
  detail : Option Json
  jobId : Text

/-- The re-enqueue handler after its enqueue. -/
structure Replacing where
  deadId : Text
  jobId : Text

structure SyncState where
  queue : QueueState
  pending : List PendingSystem
  /-- Marks consumed by sync runs. -/
  pinned : List PendingSystem
  marking : List Marking
  /-- Dead jobs a re-enqueue handler has checked. -/
  checked : List JobRow
  replacing : List Replacing

inductive SyncEvent where
  | call (c : Call)
  | trigger (system : SyncSystem) (kind : Text) (detail : Option Json) (jobId : Text)
      (clock now : Nat)
  | mark (i : Nat) (clock : Nat)
  | consume
  | remark (i : Nat)
  | check (jobId : Text)
  | reenqueue (i : Nat) (registration : Option SyncSystem) (actor jobId : Text) (clock now : Nat)
  | point (i : Nat)

def SyncState.start : SyncState := ⟨.start, [], [], [], [], []⟩

section

variable (L : Packages) (cfg : CoreConfig)

/-- The id an enqueue answers with. -/
def Call.enqueuedId (c : Call) (db : Database) : Option Text :=
  match c with
  | .enqueue req jobId clock now =>
      match ContextLayer.enqueue L cfg req jobId clock now db with
      | some (.enqueued result, _) => some result.jobId
      | _ => none
  | _ => none

/-- The event's queue call, if it makes one. -/
def SyncState.callOf (s : SyncState) : SyncEvent → Option Call
  | .call c => some c
  | .trigger system kind detail jobId clock now =>
      some (.enqueue (system.request (js "snapshot") kind detail) jobId clock now)
  | .reenqueue i registration actor jobId clock now => do
      let dead ← s.checked[i]?
      let registration ← (checkRegistration dead registration).toOption
      pure (.enqueue (reenqueueRequest dead registration actor) jobId clock now)
  | _ => none

def SyncState.performed (s : SyncState) (e : SyncEvent) : QueueState :=
  match s.callOf e with
  | none => s.queue
  | some c => s.queue.perform L cfg c

/-- The id the event's enqueue hands to its caller. -/
def SyncState.returned (s : SyncState) (e : SyncEvent) : Option Text :=
  (s.callOf e).bind fun c => c.enqueuedId L cfg s.queue.db

def SyncState.apply (e : SyncEvent) (s : SyncState) : SyncState :=
  let s' := { s with queue := s.performed L cfg e }
  match e with
  | .call _ => s'
  | .trigger system kind detail _ _ _ =>
      match s.returned L cfg e with
      | none => s'
      | some jobId => { s' with marking := s.marking ++ [⟨system.system, kind, detail, jobId⟩] }
  | .mark i clock =>
      match s.marking[i]? with
      | none => s'
      | some m =>
          { s' with
            marking := s.marking.eraseIdx i
            pending := markPending ⟨m.system, [⟨m.kind, m.detail, clock⟩], some m.jobId⟩ s.pending }
  | .consume => { s' with pinned := s.pinned ++ s.pending, pending := [] }
  | .remark i =>
      match s.pinned[i]? with
      | none => s'
      | some p => { s' with pending := remarkPending p s.pending }
  | .check jobId =>
      match checkReenqueue (getJob jobId s.queue.db.table.rows) with
      | .error _ => s'
      | .ok dead => { s' with checked := s.checked ++ [dead] }
  | .reenqueue i _ _ _ _ _ =>
      match s.checked[i]?, s.returned L cfg e with
      | some dead, some jobId =>
          { s' with replacing := s.replacing ++ [⟨dead.jobId, jobId⟩] }
      | _, _ => s'
  | .point i =>
      match s.replacing[i]? with
      | none => s'
      | some r =>
          { s' with
            replacing := s.replacing.eraseIdx i
            queue := { s.queue with db := pointAt r.deadId r.jobId s.queue.db } }

/-- The ULIDs the event draws are new. -/
def SyncState.Draws (s : SyncState) (e : SyncEvent) : Prop :=
  ∀ c, s.callOf e = some c → s.queue.Draws c

inductive SyncState.Reachable : SyncState → Prop where
  | start : Reachable .start
  | event {s : SyncState} (e : SyncEvent) : Reachable s → s.Draws e → Reachable (s.apply L cfg e)

end

/-! ### The acquisition loop -/

/-- What `if (!id)` lets through. -/
def truthy (id : Option Text) : Option Text := id.filter fun t => decide (t ≠ [])

structure AcquiredSystem where
  system : Text
  jobId : Text
  snapshotId : Text
  triggers : List TriggerRecord
  /-- The content of `snapshotFile`. -/
  body : List UInt8

structure ExcludedSystem where
  system : Text
  reason : Text

/-- What the loop does next for the system it is at. -/
inductive Awaiting where
  | job
  /-- The job has succeeded; its snapshot is still to be read. -/
  | snapshot (snapshotId : Text)
  /-- The job was in `state`; the clock is still to be looked at. -/
  | clock (state : JobState)

/-- The loop over `pending`: the systems it is not done with, the first of them its own. -/
structure Acquisition where
  pending : List PendingSystem
  awaiting : Awaiting
  included : List AcquiredSystem
  excluded : List ExcludedSystem

/-- One statement of the loop. -/
inductive Turn where
  | exclude (reason : Text)
  | acquire (system : AcquiredSystem)
  | await (next : Awaiting)

/-- `result_meta?.snapshot_id`, when it is there. -/
def JobRow.snapshotId (r : JobRow) : Option Text :=
  truthy (r.resultMeta.bind ResultMeta.snapshotId)

def getSnapshotBody (snapshotId : Text) (snapshots : List AcceptedSnapshot) :
    Option (List UInt8) :=
  (snapshots.find? fun s => decide (s.snapshotId = snapshotId)).map AcceptedSnapshot.body

def PendingSystem.turn (budgetS deadline : Nat) (db : Database) (clock : Nat) (p : PendingSystem)
    (awaiting : Awaiting) : Turn :=
  match truthy p.jobId with
  | none => .exclude (js "trigger enqueued no snapshot job")
  | some jobId =>
      match awaiting with
      | .job =>
          match getJob jobId db.table.rows with
          | none => .exclude (js "snapshot job " ++ jobId ++ js " vanished")
          | some job =>
              match job.state with
              | .succeeded =>
                  match job.snapshotId with
                  | none => .exclude (js "job succeeded without a snapshot")
                  | some snapshotId => .await (.snapshot snapshotId)
              | .deadLettered | .cancelled => .exclude (js "snapshot job " ++ job.state.text)
              | state => .await (.clock state)
      | .snapshot snapshotId =>
          match getSnapshotBody snapshotId db.rest.snapshots with
          | none => .exclude (js "accepted snapshot " ++ snapshotId ++ js " pruned")
          | some body => .acquire ⟨p.system, jobId, snapshotId, p.triggers, body⟩
      | .clock state =>
          if deadline < clock then
            .exclude (js "acquisition timed out after " ++ decimal budgetS ++ js "s (job " ++
              state.text ++ js ")")
          else .await .job

def Acquisition.poll (budgetS deadline : Nat) (db : Database) (clock : Nat) (a : Acquisition) :
    Acquisition :=
  match a.pending with
  | [] => a
  | p :: rest =>
      match p.turn budgetS deadline db clock a.awaiting with
      | .exclude reason => ⟨rest, .job, a.included, a.excluded ++ [⟨p.system, reason⟩]⟩
      | .acquire system => ⟨rest, .job, a.included ++ [system], a.excluded⟩
      | .await next => { a with awaiting := next }

/-- A sync run in its acquisition stage, beside everything else. -/
structure SyncRun where
  sync : SyncState
  startedAt : Nat
  budgetS : Nat
  clock : Nat
  loop : Acquisition

def SyncRun.deadline (w : SyncRun) : Nat := w.startedAt + secs w.budgetS

/-- `rows.sort(…)` of `consumePending`. -/
def bySystem (p q : PendingSystem) : Prop := p.system ≤ q.system

instance (p q : PendingSystem) : Decidable (bySystem p q) := by
  unfold bySystem
  infer_instance

inductive RunEvent where
  /-- Whatever else happens. -/
  | sync (e : SyncEvent)
  | wait (ms : Nat)
  | poll

section

variable (L : Packages) (cfg : CoreConfig)

/-- The run pins the pending systems and starts on them. -/
def SyncState.executeRun (s : SyncState) (startedAt budgetS : Nat) : SyncRun where
  sync := s.apply L cfg .consume
  startedAt
  budgetS
  clock := startedAt
  loop := ⟨s.pending.insertionSort bySystem, .job, [], []⟩

def SyncRun.apply (w : SyncRun) : RunEvent → SyncRun
  | .sync e => { w with sync := w.sync.apply L cfg e }
  | .wait ms => { w with clock := w.clock + ms }
  | .poll => { w with loop := w.loop.poll w.budgetS w.deadline w.sync.queue.db w.clock }

def SyncRun.Draws (w : SyncRun) : RunEvent → Prop
  | .sync e => w.sync.Draws e
  | _ => True

/-- The run after `i` events of a schedule. -/
def SyncRun.after (w : SyncRun) (schedule : Nat → RunEvent) : Nat → SyncRun
  | 0 => w
  | i + 1 => (after w schedule i).apply L cfg (schedule i)

/-- A schedule draws new ULIDs, and while time goes on the loop goes on polling. -/
structure SyncRun.Schedules (w : SyncRun) (schedule : Nat → RunEvent) : Prop where
  draws : ∀ i, (w.after L cfg schedule i).Draws (schedule i)
  fair : ∀ t, ∃ i, schedule i = .poll ∧ t < (w.after L cfg schedule i).clock

end

end ContextLayer
