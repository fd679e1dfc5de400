import ContextLayer.Calls

/-!
# Attempts

A claim of a job begins an attempt, and the first `start` under that claim starts it. The rows do
not say when: `started_at` is the start of the job's first attempt and survives retries and
deferrals. The run below goes by a clock that is never put back, and notes beside the tables when
each job's current attempt was started.
-/

namespace ContextLayer

open Text Transaction

/-- `now()` of the call's transaction. -/
def TxCall.now : TxCall → Nat
  | .startJob _ _ now | .heartbeatJob _ _ _ now | .failJob _ _ _ now _ | .deferJob _ _ _ _ now _
  | .succeedSnapshot _ _ _ _ _ now | .rejectDelivery _ _ _ now | .succeedInline _ _ _ now
  | .cancelJob _ now | .sweepExpiredLeases now _ _ => now

def Call.now : Call → Nat
  | .enqueue _ _ _ now | .claimOnce _ now _ _ => now
  | .transact call => call.now

/-- The starts, after a call that was answered. -/
def attemptStarts (c : Call) (reply : Reply) (starts : Text → Option Nat) : Text → Option Nat :=
  match c, reply with
  | .claimOnce _ _ _ _, .claim (some (row, _)) => Function.update starts row.jobId none
  | .transact (.startJob jobId _ now), .start (some _) =>
      Function.update starts jobId (some ((starts jobId).getD now))
  | _, _ => starts

structure TimedState where
  queue : QueueState
  now : Nat
  /-- When the current attempt of a job was started. -/
  starts : Text → Option Nat

namespace TimedState

variable (L : Packages) (cfg : CoreConfig)

def start : TimedState := ⟨.start, 0, fun _ => none⟩

def perform (c : Call) (s : TimedState) : TimedState where
  queue := s.queue.perform L cfg c
  now := c.now
  starts :=
    match c.exec L cfg s.queue.db with
    | none => s.starts
    | some (reply, _) => attemptStarts c reply s.starts

inductive Reachable : TimedState → Prop where
  | start : Reachable .start
  | call {s : TimedState} (c : Call) :
      Reachable s → s.queue.Draws c → s.now ≤ c.now → Reachable (s.perform L cfg c)

end TimedState

/-- `lockLeased`'s condition. -/
def isLeased (jobId leaseToken : Text) (r : JobRow) : Bool :=
  decide (r.jobId = jobId) && decide (r.leaseToken = some leaseToken) && r.state.live

section

variable (L : Packages) (cfg : CoreConfig)

/-- The call leaves the job with no lease past `limit`. -/
def ExpiresBy (call : TxCall) (db : Database) (jobId : Text) (limit : Nat) : Prop :=
  ∃ reply db', (call.tx L cfg).run db = some (reply, db') ∧
    ∀ row ∈ db'.table.rows, row.jobId = jobId → ∀ expiry ∈ row.leaseExpiresAt, expiry ≤ limit

/-- The heartbeat is answered with a lease that has time left. -/
def Renews (jobId leaseToken : Text) (progress : Option Json) (now : Nat) (db : Database) : Prop :=
  ∃ lease cancelRequested db', (heartbeatJob cfg jobId leaseToken progress now).run db =
    some (some (lease, cancelRequested), db') ∧ now < lease.expiresAt

/-- What the next call owes a job whose current attempt has been started, if it is the `start` or
the `heartbeat` of the job's lease holder. -/
def TimedState.AttemptLaw (s : TimedState) : Call → Prop
  | .transact (.startJob jobId leaseToken now) =>
      ∀ row ∈ s.queue.db.table.rows, isLeased jobId leaseToken row → ∀ begun ∈ s.starts jobId,
        ExpiresBy L cfg (.startJob jobId leaseToken now) s.queue.db jobId
          (begun + secs row.deadlineS)
  | .transact (.heartbeatJob jobId leaseToken progress now) =>
      ∀ row ∈ s.queue.db.table.rows, isLeased jobId leaseToken row → ∀ begun ∈ s.starts jobId,
        ExpiresBy L cfg (.heartbeatJob jobId leaseToken progress now) s.queue.db jobId
            (begun + secs row.deadlineS) ∧
          (now < begun + secs row.deadlineS →
            Renews cfg jobId leaseToken progress now s.queue.db)
  | _ => True

/-- A repeated `start` comes a whole TTL before the attempt's deadline, and a heartbeat before the
attempt's deadline comes before that of the job's first attempt as well. -/
def TimedState.InTime (s : TimedState) : Call → Prop
  | .transact (.startJob jobId leaseToken now) =>
      ∀ row ∈ s.queue.db.table.rows, isLeased jobId leaseToken row → ∀ begun ∈ s.starts jobId,
        now + secs cfg.leaseTtlS ≤ begun + secs row.deadlineS
  | .transact (.heartbeatJob jobId leaseToken _ now) =>
      ∀ row ∈ s.queue.db.table.rows, isLeased jobId leaseToken row → ∀ begun ∈ s.starts jobId,
        now < begun + secs row.deadlineS → ∀ first ∈ row.startedAt,
          now < first + secs row.deadlineS
  | _ => True

end

end ContextLayer
