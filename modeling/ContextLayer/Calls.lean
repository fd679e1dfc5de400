import ContextLayer.Queue

/-!
# Runs of the queue

Any number of producers and runners call the queue's operations in any order, with any ids and lease
tokens, right or wrong. A call the database refuses leaves the tables as they were. What a call
draws from the ULID generator has not been drawn before.
-/

namespace ContextLayer

open Text Transaction Prog

/-- The calls that are one transaction over rows found by id, by lease or by expiry. -/
inductive TxCall where
  | startJob (jobId leaseToken : Text) (now : Nat)
  | heartbeatJob (jobId leaseToken : Text) (progress : Option Json) (now : Nat)
  | failJob (jobId leaseToken : Text) (error : ErrorEnvelope) (now jitter : Nat)
  | deferJob (jobId leaseToken : Text) (retryAfterS : Nat) (reason : Json) (now jitter : Nat)
  | succeedSnapshot (jobId leaseToken : Text) (verdict : SnapshotVerdict) (body : List UInt8)
      (snapshotId : Text) (now : Nat)
  | rejectDelivery (jobId leaseToken : Text) (errors : List Text) (now : Nat)
  | succeedInline (jobId leaseToken : Text) (result : Option Json) (now : Nat)
  | cancelJob (jobId : Text) (now : Nat)
  | sweepExpiredLeases (now : Nat) (jitter : Text → Nat) (locked : Text → Bool)

inductive Call where
  | enqueue (req : EnqueueRequest) (jobId : Text) (clock now : Nat)
  | claimOnce (args : ClaimArgs) (now : Nat) (token : Text) (locked : Text → Bool)
  | transact (call : TxCall)

inductive Reply where
  | enqueue (reply : EnqueueReply)
  | claim (reply : Option (JobRow × Lease))
  | start (cancelRequested : Option Bool)
  | heartbeat (reply : Option (Lease × Bool))
  | fail (outcome : Option RequeueOutcome)
  | defer (outcome : Option DeferOutcome)
  | snapshot (snapshotId : Option Text)
  | reject (done : Bool)
  | inline (done : Bool)
  | cancel (reply : Option (JobState × Bool))
  | sweep (reply : Nat × List Text)

section

variable (L : Packages) (cfg : CoreConfig)

def TxCall.tx : TxCall → Tx Reply
  | .startJob jobId leaseToken now => Reply.start <$> ContextLayer.startJob cfg jobId leaseToken now
  | .heartbeatJob jobId leaseToken progress now =>
      Reply.heartbeat <$> ContextLayer.heartbeatJob cfg jobId leaseToken progress now
  | .failJob jobId leaseToken error now jitter =>
      Reply.fail <$> ContextLayer.failJob L cfg jobId leaseToken error now jitter
  | .deferJob jobId leaseToken retryAfterS reason now jitter =>
      Reply.defer <$> ContextLayer.deferJob L cfg jobId leaseToken retryAfterS reason now jitter
  | .succeedSnapshot jobId leaseToken verdict body snapshotId now =>
      Reply.snapshot <$>
        ContextLayer.succeedSnapshot cfg jobId leaseToken verdict body snapshotId now
  | .rejectDelivery jobId leaseToken errors now =>
      Reply.reject <$> ContextLayer.rejectDelivery L jobId leaseToken errors now
  | .succeedInline jobId leaseToken result now =>
      Reply.inline <$> ContextLayer.succeedInline jobId leaseToken result now
  | .cancelJob jobId now => Reply.cancel <$> ContextLayer.cancelJob jobId now
  | .sweepExpiredLeases now jitter locked =>
      Reply.sweep <$> ContextLayer.sweepExpiredLeases L cfg now jitter locked

/-- The call as one atomic step; `none` when the database refuses it. -/
def Call.exec (c : Call) (db : Database) : Option (Reply × Database) :=
  match c with
  | .enqueue req jobId clock now =>
      (ContextLayer.enqueue L cfg req jobId clock now db).map fun (reply, db) =>
        (.enqueue reply, db)
  | .claimOnce args now token locked =>
      (Reply.claim <$> ContextLayer.claimOnce L cfg args now token locked db.table.rows).run db
  | .transact call => (call.tx L cfg).run db

/-- What the call draws from the ULID generator; a lease token is two of them end to end. -/
def Call.ulids : Call → List Text
  | .enqueue _ jobId _ _ => [jobId]
  | .claimOnce _ _ token _ => [token]
  | .transact (.succeedSnapshot _ _ _ _ snapshotId _) => [snapshotId]
  | .transact _ => []

/-- A successful enqueue: the id it returned and the trigger it recorded. -/
def Call.accepted (c : Call) (reply : Reply) : List (Text × Trigger) :=
  match c, reply with
  | .enqueue req _ clock _, .enqueue (.enqueued result) =>
      match validateEnqueue L cfg clock req with
      | .ok v => [(result.jobId, v.trigger)]
      | .error _ => []
  | _, _ => []

/-- The database, and what the callers have seen of it so far. -/
structure QueueState where
  db : Database
  drawn : List Text
  accepted : List (Text × Trigger)

def emptyTable : JobTable where
  rows := []
  nodup := List.nodup_nil
  holds := List.Pairwise.nil

def QueueState.start : QueueState := ⟨⟨emptyTable, ⟨[], []⟩⟩, [], []⟩

def QueueState.perform (c : Call) (s : QueueState) : QueueState :=
  match c.exec L cfg s.db with
  | none => { s with drawn := c.ulids ++ s.drawn }
  | some (reply, db) =>
      { db, drawn := c.ulids ++ s.drawn, accepted := s.accepted ++ c.accepted L cfg reply }

/-- The ULIDs of the call are new. -/
def QueueState.Draws (s : QueueState) (c : Call) : Prop := ∀ u ∈ c.ulids, u ∉ s.drawn

instance (s : QueueState) (c : Call) : Decidable (s.Draws c) := by
  unfold QueueState.Draws
  infer_instance

/-- The states that some interleaving of calls reaches from an empty table. -/
inductive QueueState.Reachable : QueueState → Prop where
  | start : Reachable .start
  | call {s : QueueState} (c : Call) : Reachable s → s.Draws c → Reachable (s.perform L cfg c)

end

end ContextLayer
