import ContextLayer.Calls

/-!
# The queue, statement by statement

The transactions of the queue interleaved under READ COMMITTED with row locks: what happens is that
one of them is opened with its first statement, executes its next one, or ends. An enqueue is one
statement that commits by itself, and so is a claim here; both wait for what they would change or
clash with.
-/

namespace ContextLayer

open Text Transaction

/-- The database and the open transactions. -/
abbrev Backend := World jobSchema Tables Reply

/-- What `SKIP LOCKED` leaves out of a sweep: all but the expired rows that nobody holds. -/
def skipLocked (w : Backend) (now : Nat) (jobId : Text) : Bool :=
  !w.store.table.rows.any fun r =>
    decide (r.jobId = jobId) && isExpired now r && !decide (Held w.sessions r.jobId)

/-- The call as it is opened now. -/
def TxCall.opened (w : Backend) : TxCall → TxCall
  | .sweepExpiredLeases now jitter _ => .sweepExpiredLeases now jitter (skipLocked w now)
  | call => call

inductive BackendEvent where
  | opens (call : TxCall)
  | moves
  | enqueue (req : EnqueueRequest) (jobId : Text) (clock now : Nat)
  | claim (args : ClaimArgs) (now : Nat) (token : Text) (locked : Text → Bool)

section

variable (L : Packages) (cfg : CoreConfig)

inductive Occurs (w : Backend) : BackendEvent → Backend → Prop where
  | opens {call : TxCall} {σ : Session jobSchema Tables Reply} :
      advance w.sessions w.store.table.rows (.start ((call.opened w).tx L cfg)) = .moved σ →
      Occurs w (.opens call) { w with sessions := σ :: w.sessions }
  | moves {w' : Backend} : w.Moves w' → Occurs w .moves w'
  | enqueue {req : EnqueueRequest} {jobId : Text} {clock now : Nat} {reply : EnqueueReply}
      {db : Database} : enqueue L cfg req jobId clock now w.store = some (reply, db) →
      w.Unblocked db.table.rows → Occurs w (.enqueue req jobId clock now) { w with store := db }
  | claim {args : ClaimArgs} {now : Nat} {token : Text} {locked : Text → Bool}
      {reply : Option (JobRow × Lease)} {db : Database} :
      (∀ r ∈ w.store.table.rows, r.leaseToken ≠ some token) →
      (claimOnce L cfg args now token locked w.store.table.rows).run w.store = some (reply, db) →
      w.Unblocked db.table.rows → Occurs w (.claim args now token locked) { w with store := db }

def Backend.start : Backend := ⟨⟨emptyTable, ⟨[], []⟩⟩, []⟩

/-- The states that some interleaving of allowed events reaches from an empty table. -/
inductive Backend.Reachable (Allowed : Backend → BackendEvent → Prop) : Backend → Prop where
  | start : Reachable Allowed .start
  | event {w w' : Backend} {e : BackendEvent} : Reachable Allowed w → Allowed w e →
      Occurs L cfg w e w' → Reachable Allowed w'

/-- The row would answer a follower lookup of an open transaction. -/
def Backend.LookedFor (w : Backend) (row : JobRow) : Prop :=
  ∃ σ ∈ w.sessions, ∃ r, isFollower r ∈ σ.reads ∧ isFollower r row = true

/-- An enqueue under a key for which an open transaction has looked for a follower. -/
def Overtakes (w : Backend) : BackendEvent → Prop
  | .enqueue req jobId clock now =>
      ∃ v, validateEnqueue L cfg clock req = .ok v ∧ w.LookedFor (v.row jobId now)
  | _ => False

end

end ContextLayer
