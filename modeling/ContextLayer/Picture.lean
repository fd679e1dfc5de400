import ContextLayer.Attempts
import ContextLayer.Sync

/-!
# The picture a run states

`executeRun` from its pins to the end of stage 2, statement by statement, beside everything else
that goes on: producers and runners, triggers and their marks, changes to the connection registry,
merges into the KB. After the pending systems come the registered others: those whose latest accepted
snapshot is not the one HEAD pins ride along on it. Runs are single-flight; one that finds HEAD moved
at its end marks its systems pending again.
-/

namespace ContextLayer

open Text

/-- One system a run has looked at. -/
structure Look where
  system : Text
  /-- `accepted_snapshots` at that moment. -/
  seen : List AcceptedSnapshot
  /-- The entry of `included` it led to. -/
  stated : Option AcquiredSystem

inductive Stage where
  /-- The KB is still to be cloned. -/
  | clone
  | acquire (todo : List PendingSystem) (awaiting : Awaiting)
  /-- `sync_systems` is still to be read. -/
  | configured
  | restate (todo : List Text)
  /-- The body of the latest acceptance is still to be read. -/
  | body (system : Text) (latest : AcceptedSnapshot) (seen : List AcceptedSnapshot)
      (todo : List Text)
  /-- Stage 2 is over, with some system included. -/
  | acquired
  | remark (todo : List PendingSystem)

structure Run where
  marks : List PendingSystem
  startedAt : Nat
  budgetS : Nat
  /-- `.contextlayer/snapshots/<system>.json` in the clone. -/
  pins : Text → Option (List UInt8)
  looks : List Look
  excluded : List ExcludedSystem
  configured : List Text
  stage : Stage

def Run.included (r : Run) : List AcquiredSystem := r.looks.filterMap Look.stated

/-- `ORDER BY accepted_at DESC, snapshot_id DESC LIMIT 1`. -/
def latestSnapshot (system : Text) (snapshots : List AcceptedSnapshot) : Option AcceptedSnapshot :=
  ((snapshots.filter fun s => decide (s.system = system)).insertionSort newestFirst).head?

/-- HEAD already reflects the acceptance. -/
def Run.reflects (sha256 : List UInt8 → Text) (r : Run) (a : AcceptedSnapshot) : Bool :=
  (r.pins a.system).any fun pin => decide (sha256 pin = a.sha256)

structure Estate where
  queue : QueueState
  now : Nat
  /-- `sync_systems`, `ORDER BY system`. -/
  systems : List Text
  /-- The pins at the KB's merged HEAD. -/
  head : Text → Option (List UInt8)
  pending : List PendingSystem
  /-- Calls of `triggerSystem` after their enqueue. -/
  marking : List Marking
  run : Option Run
  /-- Every snapshot accepted so far, the newest first, pruned ones included. -/
  accepted : List AcceptedSnapshot

inductive EstateEvent where
  | call (c : Call)
  | trigger (system : SyncSystem) (kind : Text) (detail : Option Json) (jobId : Text)
      (clock now : Nat)
  | mark (i : Nat) (clock : Nat)
  | register (systems : List Text)
  | merge (head : Text → Option (List UInt8))
  | executeRun (startedAt budgetS : Nat)
  /-- The run's next statement; `clock` is its `Date.now()`. -/
  | turn (clock : Nat)
  /-- The run finds HEAD moved. -/
  | headMoved
  /-- The run ends in any other way, a crash included. -/
  | finish

namespace Estate

def start : Estate := ⟨.start, 0, [], fun _ => none, [], [], none, []⟩

def callOf : EstateEvent → Option Call
  | .call c => some c
  | .trigger system kind detail jobId clock now =>
      some (.enqueue (system.request (js "snapshot") kind detail) jobId clock now)
  | _ => none

section

variable (L : Packages) (cfg : CoreConfig) (sha256 : List UInt8 → Text)

/-- What the call adds to the accepted snapshots. -/
def delivery (c : Call) (db : Database) : List AcceptedSnapshot :=
  match c with
  | .transact (.succeedSnapshot jobId leaseToken verdict body snapshotId now) =>
      ((db.table.rows.filter (isLeased jobId leaseToken)).head?.map fun row =>
        verdict.snapshot row snapshotId body now).toList
  | _ => []

def call (c : Call) (w : Estate) : Estate :=
  { w with
    queue := w.queue.perform L cfg c
    now := c.now
    accepted := delivery c w.queue.db ++ w.accepted }

/-- The run's next statement. -/
def turn (clock : Nat) (w : Estate) (r : Run) : Estate :=
  let snapshots := w.queue.db.rest.snapshots
  let go (r : Run) : Estate := { w with run := some r }
  match r.stage with
  | .clone => go { r with pins := w.head, stage := .acquire r.marks .job }
  | .acquire [] _ =>
      if r.included.isEmpty then { w with run := none } else go { r with stage := .configured }
  | .acquire (p :: todo) awaiting =>
      match p.turn r.budgetS (r.startedAt + secs r.budgetS) w.queue.db clock awaiting with
      | .exclude reason =>
          go { r with
            excluded := r.excluded ++ [⟨p.system, reason⟩], stage := .acquire todo .job }
      | .acquire system =>
          go { r with
            looks := r.looks ++ [⟨p.system, snapshots, some system⟩], stage := .acquire todo .job }
      | .await next => go { r with stage := .acquire (p :: todo) next }
  | .configured => go { r with configured := w.systems, stage := .restate w.systems }
  | .restate [] => go { r with stage := .acquired }
  | .restate (system :: todo) =>
      if r.included.any fun s => decide (s.system = system) then go { r with stage := .restate todo }
      else
        match latestSnapshot system snapshots with
        | none =>
            go { r with looks := r.looks ++ [⟨system, snapshots, none⟩], stage := .restate todo }
        | some latest =>
            if r.reflects sha256 latest then
              go { r with looks := r.looks ++ [⟨system, snapshots, none⟩], stage := .restate todo }
            else go { r with stage := .body system latest snapshots todo }
  | .body system latest seen todo =>
      let stated := (getSnapshotBody latest.snapshotId snapshots).map fun body =>
        (⟨system, [], latest.snapshotId, [], body⟩ : AcquiredSystem)
      go { r with looks := r.looks ++ [⟨system, seen, stated⟩], stage := .restate todo }
  | .acquired => w
  | .remark [] => { w with run := none }
  | .remark (p :: todo) =>
      { w with pending := remarkPending p w.pending, run := some { r with stage := .remark todo } }

def apply (e : EstateEvent) (w : Estate) : Estate :=
  match e with
  | .call c => w.call L cfg c
  | .trigger system kind detail jobId clock now =>
      let c := Call.enqueue (system.request (js "snapshot") kind detail) jobId clock now
      let w' := w.call L cfg c
      match c.enqueuedId L cfg w.queue.db with
      | none => w'
      | some jobId => { w' with marking := w.marking ++ [⟨system.system, kind, detail, jobId⟩] }
  | .mark i clock =>
      match w.marking[i]? with
      | none => w
      | some m =>
          { w with
            marking := w.marking.eraseIdx i
            pending := markPending ⟨m.system, [⟨m.kind, m.detail, clock⟩], some m.jobId⟩ w.pending }
  | .register systems => { w with systems }
  | .merge head => { w with head }
  | .executeRun startedAt budgetS =>
      match w.run with
      | some _ => w
      | none =>
          { w with
            pending := []
            run := some ⟨w.pending.insertionSort bySystem, startedAt, budgetS, fun _ => none, [], [],
              [], .clone⟩ }
  | .turn clock =>
      match w.run with
      | none => w
      | some r => w.turn sha256 clock r
  | .headMoved =>
      match w.run with
      | some r =>
          match r.stage with
          | .acquired => { w with run := some { r with stage := .remark r.marks } }
          | _ => w
      | none => w
  | .finish => { w with run := none }

/-- New ULIDs, and a clock that is never put back. -/
def May (w : Estate) (e : EstateEvent) : Prop :=
  ∀ c ∈ callOf e, w.queue.Draws c ∧ w.now ≤ c.now

/-- The states reached through events that `Allowed` lets happen. -/
inductive Reachable (Allowed : Estate → EstateEvent → Prop) : Estate → Prop where
  | start : Reachable Allowed .start
  | event {w : Estate} (e : EstateEvent) : Reachable Allowed w → w.May e → Allowed w e →
      Reachable Allowed (w.apply L cfg sha256 e)

end

/-- The job that has delivered the system's newest snapshot. -/
def lastDeliverer (w : Estate) (system : Text) : Option Text :=
  (w.accepted.find? fun a => decide (a.system = system)).map AcceptedSnapshot.jobId

/-- A run that reads what its mark's job has delivered does so before another job delivers for the
system, and one that reads the body of an acceptance does so before that is pruned. -/
def InOrder (w : Estate) : EstateEvent → Prop
  | .turn _ =>
      match w.run.map Run.stage with
      | some (.acquire (p :: _) (.snapshot snapshotId)) =>
          (∃ a ∈ w.queue.db.rest.snapshots, a.snapshotId = snapshotId) →
            w.lastDeliverer p.system = p.jobId
      | some (.body _ latest _ _) =>
          ∃ a ∈ w.queue.db.rest.snapshots, a.snapshotId = latest.snapshotId
      | _ => True
  | _ => True

end Estate

/-- No snapshot of the system was accepted later. -/
structure MostRecent (system : Text) (seen : List AcceptedSnapshot) (a : AcceptedSnapshot) :
    Prop where
  mem : a ∈ seen
  own : a.system = system
  latest : ∀ b ∈ seen, b.system = system → b.acceptedAt ≤ a.acceptedAt

/-- Where anything was accepted for the system, the run states the most recent of it, or HEAD pins
that. -/
def Look.Current (sha256 : List UInt8 → Text) (r : Run) (look : Look) : Prop :=
  (∃ a ∈ look.seen, a.system = look.system) → ∃ a, MostRecent look.system look.seen a ∧
    match look.stated with
    | some s => s.system = look.system ∧ s.snapshotId = a.snapshotId ∧ s.body = a.body
    | none => r.reflects sha256 a = true

/-- The run has looked at every registered system, and states the latest picture of each. -/
structure Run.StatesLatest (sha256 : List UInt8 → Text) (r : Run) : Prop where
  current : ∀ look ∈ r.looks, look.Current sha256 r
  looked : ∀ system ∈ r.configured, ∃ look ∈ r.looks, look.system = system

end ContextLayer
