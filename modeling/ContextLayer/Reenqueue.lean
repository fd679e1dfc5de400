import ContextLayer.Sync
import ContextLayer.Lib.Machine

/-!
# Re-enqueueing

The Ops screen replaces a dead job by a new one and points the dead row at it. `chainOutcomes` walks the pointers.
-/

namespace ContextLayer

open Text Transaction

variable (L : Packages) (cfg : CoreConfig)

/-! ### Chains -/

/-- The walk of `chainOutcomes` from a job, over at most `fuel` links. -/
def chainWalk (rows : List JobRow) : Nat → Text → List JobRow
  | fuel, jobId =>
      match getJob jobId rows with
      | none => []
      | some row =>
          row :: match fuel, row.reenqueuedAs with
            | fuel + 1, some next => chainWalk rows fuel next
            | _, _ => []

structure ChainOutcome where
  finalJobId : Text
  finalState : JobState
  links : Nat

/-- `chainOutcomes`, of one job. -/
def chainOutcome (rows : List JobRow) (jobId : Text) : Option ChainOutcome :=
  let walk := chainWalk rows 20 jobId
  walk.getLast?.map fun row => ⟨row.jobId, row.state, walk.length - 1⟩

/-! ### An act at once -/

/-- The id of the job an enqueue inserts; none, if it merges. -/
def Call.inserted (c : Call) (db : Database) : List Text :=
  match c with
  | .enqueue req jobId clock now =>
      match ContextLayer.enqueue L cfg req jobId clock now db with
      | some (.enqueued result, _) => if result.merged then [] else [result.jobId]
      | _ => []
  | _ => []

structure Chains where
  queue : QueueState
  /-- The ids of all jobs, in the order they were created. -/
  created : List Text

inductive ChainAct where
  | call (c : Call)
  | reenqueue (jobId : Text) (registration : Option SyncSystem) (actor newId : Text) (clock now : Nat)

/-- The queue call of an act, if it comes to one. -/
def Chains.callOf (s : Chains) : ChainAct → Option Call
  | .call c => some c
  | .reenqueue jobId registration actor newId clock now => do
      let dead ← (checkReenqueue (getJob jobId s.queue.db.table.rows)).toOption
      let registration ← (checkRegistration dead registration).toOption
      pure (.enqueue (reenqueueRequest dead registration actor) newId clock now)

def Chains.perform (s : Chains) (c : Call) : Chains :=
  ⟨s.queue.perform L cfg c, s.created ++ c.inserted L cfg s.queue.db⟩

/-- `UPDATE jobs SET reenqueued_as = …`, of the row of a dead job. -/
def Chains.point (s : Chains) (deadId jobId : Text) : Chains :=
  { s with queue := { s.queue with db := pointAt deadId jobId s.queue.db } }

def Chains.next (s : Chains) (a : ChainAct) : Chains :=
  match s.callOf a with
  | none => s
  | some c =>
      match a, c.enqueuedId L cfg s.queue.db with
      | .reenqueue jobId _ _ _ _ _, some id => (s.perform L cfg c).point jobId id
      | _, _ => s.perform L cfg c

def ChainAct.ulids : ChainAct → List Text
  | .call c => c.ulids
  | .reenqueue _ _ _ newId _ _ => [newId]

/-- The states that some interleaving of queue calls and re-enqueues reaches from an empty table. -/
inductive Chains.Reachable : Chains → Prop where
  | start : Reachable ⟨.start, []⟩
  | act {s : Chains} (a : ChainAct) : Reachable s → (∀ u ∈ a.ulids, u ∉ s.queue.drawn) → Reachable (s.next L cfg a)

/-- The first of two jobs was created before the second. -/
def Chains.Before (s : Chains) (id id' : Text) : Prop :=
  id' ∈ s.created ∧ s.created.idxOf id < s.created.idxOf id'

/-! ### Statement by statement -/

inductive ReenqueueAnswer where
  | refused (refusal : ReenqueueRefusal)
  /-- `invalid_enqueue`: the registration does not validate. -/
  | invalid (problems : List Text)
  /-- The database refused the insert. -/
  | failed
  | replaced (jobId : Text)

/-- Which statement of the handler was the last. -/
inductive PressStage where
  | checked (dead : JobRow)
  | registered (dead : JobRow) (registration : SyncSystem)
  | enqueued (dead : JobRow) (jobId : Text)
  | answered (answer : ReenqueueAnswer)

/-- A request to re-enqueue a job. -/
structure Press where
  jobId : Text
  stage : PressStage

/-- `SELECT … FROM jobs WHERE job_id = $1` and the checks on the row. -/
def readDead (jobId : Text) (rows : List JobRow) : PressStage :=
  match checkReenqueue (getJob jobId rows) with
  | .error refusal => .answered (.refused refusal)
  | .ok dead => .checked dead

/-- `getSyncSystem`, which finds `registration`. -/
def PressStage.register (registration : Option SyncSystem) : PressStage → PressStage
  | .checked dead =>
      match checkRegistration dead registration with
      | .error refusal => .answered (.refused refusal)
      | .ok s => .registered dead s
  | stage => stage

/-- What `enqueue` comes to. -/
def enqueuedStage (dead : JobRow) (out : Option (EnqueueReply × Database)) : PressStage :=
  match out with
  | none => .answered .failed
  | some (.invalid problems, _) => .answered (.invalid problems)
  | some (.enqueued result, _) => .enqueued dead result.jobId

/-- The job that was enqueued for the dead one. -/
def PressStage.replacement : PressStage → Option Text
  | .enqueued _ jobId => some jobId
  | .answered (.replaced jobId) => some jobId
  | _ => none

def PressStage.isAnswered : PressStage → Bool
  | .answered _ => true
  | _ => false

structure Presses where
  queue : QueueState
  presses : List Press

inductive PressEvent where
  | call (c : Call)
  | read (jobId : Text)
  | register (i : Nat) (registration : Option SyncSystem)
  | enqueue (i : Nat) (actor newId : Text) (clock now : Nat)
  | point (i : Nat)

namespace Presses

def rows (s : Presses) : List JobRow := s.queue.db.table.rows

/-- The press goes on at `stage`. -/
def goOn (s : Presses) (i : Nat) (stage : PressStage) : Presses :=
  { s with presses := s.presses.modify i fun p => { p with stage } }

def next (s : Presses) : PressEvent → Presses
  | .call c => { s with queue := s.queue.perform L cfg c }
  | .read jobId => { s with presses := s.presses ++ [⟨jobId, readDead jobId s.rows⟩] }
  | .register i registration =>
      match s.presses[i]? with
      | none => s
      | some p => s.goOn i (p.stage.register registration)
  | .enqueue i actor newId clock now =>
      match s.presses[i]? with
      | some ⟨_, .registered dead registration⟩ =>
          let req := reenqueueRequest dead registration actor
          { s with queue := s.queue.perform L cfg (.enqueue req newId clock now) }.goOn i
            (enqueuedStage dead (ContextLayer.enqueue L cfg req newId clock now s.queue.db))
      | _ => s
  | .point i =>
      match s.presses[i]? with
      | some ⟨_, .enqueued dead jobId⟩ =>
          { s with queue := { s.queue with db := pointAt dead.jobId jobId s.queue.db } }.goOn i
            (.answered (.replaced jobId))
      | _ => s

/-- The jobs that presses have enqueued for the dead one. -/
def replacements (s : Presses) (deadId : Text) : List Text :=
  (s.presses.filter fun p => decide (p.jobId = deadId)).filterMap fun p => p.stage.replacement

/-- Where the dead row points. -/
def pointer (s : Presses) (deadId : Text) : Option Text :=
  (getJob deadId s.rows).bind JobRow.reenqueuedAs

/-- The replacements that the dead row does not point at. -/
def outside (s : Presses) (deadId : Text) : List Text :=
  (s.replacements deadId).filter fun id => decide (s.pointer deadId ≠ some id)

/-- Every press on the job has been answered. -/
def Settled (s : Presses) (deadId : Text) : Prop :=
  ∀ p ∈ s.presses, p.jobId = deadId → p.stage.isAnswered = true

structure OneReplacement (s : Presses) (deadId : Text) : Prop where
  agreed : ∀ id ∈ s.replacements deadId, ∀ id' ∈ s.replacements deadId, id' = id
  pointed : s.Settled deadId → s.outside deadId = []
  /-- After a successful press the next one is refused. -/
  refused : ∀ p ∈ s.presses, p.jobId = deadId → ∀ id, p.stage = .answered (.replaced id) →
    readDead deadId s.rows = .answered (.refused (.alreadyReenqueued id))

/-- What an enqueue of the handler is about to insert for which job. -/
def inserts (s : Presses) : PressEvent → Option (Text × ValidEnqueue)
  | .enqueue i actor _ clock _ =>
      match s.presses[i]? with
      | some ⟨_, .registered dead registration⟩ =>
          (validateEnqueue L cfg clock (reenqueueRequest dead registration actor)).toOption.map (dead.jobId, ·)
      | _ => none
  | _ => none

/-- An enqueue for a dead job comes only while whatever was enqueued for it is a batch job that still waits. -/
def Joins (s : Presses) (e : PressEvent) : Prop :=
  ∀ x ∈ s.inserts L cfg e, ∀ id ∈ s.replacements x.1, x.2.spec.jobClass = .batch ∧
    ∃ r ∈ s.rows, r.jobId = id ∧ r.QueuedBatch (x.2.system, x.2.spec.type)

end Presses

def PressEvent.ulids : PressEvent → List Text
  | .call c => c.ulids
  | .enqueue _ _ newId _ _ => [newId]
  | _ => []

/-- Requests to re-enqueue, taking their statements in any order among themselves and among queue calls. -/
def pressing : Machine Presses PressEvent where
  start := ⟨.start, []⟩
  May s e := ∀ u ∈ e.ulids, u ∉ s.queue.drawn
  next := Presses.next L cfg

end ContextLayer
