import ContextLayer.Picture
import ContextLayer.Resolutions

/-!
# Sync pull requests

`executeRun` from its diff on: what differs from the pinned HEAD is written over the pins, pushed on a
branch of the run, and proposed; only then are the sync PRs that were open before closed. A run may end
ahead of that, because it finds nothing to propose or because something fails.
-/

namespace ContextLayer

open Text

/-! ### What a run has to propose -/

/-- `snapshot.diff` of a pin, or of no objects, and a snapshot: whether it is empty. `none` is a stage
that fails. A snapshot does not differ from itself. -/
structure DiffStage where
  empty : Option (List UInt8) → List UInt8 → Option Bool
  self : ∀ body, empty (some body) body ≠ some false

/-- The systems whose snapshot differs from what HEAD pins. -/
def Run.changed (D : DiffStage) (r : Run) : Option (List AcquiredSystem) :=
  if r.included.any fun s => (D.empty (r.pins s.system) s.body).isNone then none
  else some (r.included.filter fun s => decide (D.empty (r.pins s.system) s.body = some false))

/-- The pins the run rewrites, with their content. -/
def Run.drift (D : DiffStage) (r : Run) : Option (List (Text × List UInt8)) :=
  (r.changed D).map fun changed => changed.map fun s => (s.system, s.body)

/-- A trigger of the run is `manual`. -/
def Run.manual (r : Run) : Bool :=
  r.marks.any fun p => p.triggers.any fun t => decide (t.kind = js "manual")

/-! ### The provider -/

structure PullRequest where
  number : Nat
  /-- The run whose branch `sync/<run id>` it is of; `none` for the branch of somebody else. -/
  run : Option Nat
  /-- The pins the branch rewrites. -/
  drift : List (Text × List UInt8)
  deriving DecidableEq

def PullRequest.isSync (pr : PullRequest) : Bool := pr.run.isSome

/-- GitHub answers with a page of a hundred, `per_page=100`; the local provider reads its file from the
beginning. -/
def PrProvider.listOpenSyncPrs (provider : PrProvider) (opened : List PullRequest) : List PullRequest :=
  (match provider with
    | .github => opened.take 100
    | .localFile => opened.reverse).filter PullRequest.isSync

/-! ### The run -/

structure PinnedRun where
  runId : Nat
  run : Run
  /-- The sha HEAD had when it was pinned. -/
  kbRef : Nat

inductive RunPhase where
  | idle
  /-- Stages 1 and 2, on the clone. -/
  | pinned (runId : Nat) (pins : Text → Option (List UInt8)) (kbRef : Nat)
  | acquired (s : PinnedRun)
  /-- Stages 5 to 9. -/
  | writing (s : PinnedRun) (wheelCarry : Bool)
  /-- Before an attempt, `failed` of them having failed. -/
  | opening (s : PinnedRun) (failed : Nat)
  /-- HEAD has been found where it was pinned. -/
  | pushing (s : PinnedRun) (failed : Nat)
  /-- The run's own PR is open. -/
  | opened (s : PinnedRun) (number : Nat)
  | superseding (s : PinnedRun) (number : Nat) (priors : List Nat)

inductive RunOutcome where
  | noOp
  | succeeded
  | failed
  | failedAcquisition
  | retryHeadMoved
  deriving DecidableEq

structure SyncWorld where
  /-- The pins at the KB's merged HEAD, and its sha. -/
  head : Text → Option (List UInt8)
  sha : Nat
  /-- Every snapshot accepted so far. -/
  accepted : List AcceptedSnapshot
  /-- The open PRs, the newest first. -/
  opened : List PullRequest
  nextNumber : Nat
  nextRun : Nat
  phase : RunPhase
  /-- The run that has ended in the last step. -/
  ended : Option (RunOutcome × Run)

/-- How a push and the opening of a PR end. -/
inductive PushOutcome where
  | refused
  /-- The PR is open, but the answer is an error. -/
  | lost
  | done
  deriving DecidableEq

inductive PrEvent where
  | accept (a : AcceptedSnapshot)
  /-- A sync PR is merged. -/
  | mergeSync (number : Nat)
  /-- Somebody else opens a PR. -/
  | openOther
  /-- Somebody else's PR is merged or closed; HEAD may be another. -/
  | mergeOther (number : Nat) (head : Text → Option (List UInt8))
  | executeRun
  /-- Stage 2 has ended as `r` says, but for its pins. -/
  | acquire (r : Run)
  | diff (wheelCarry gatewayPending : Bool)
  /-- Beside the pins, something else may have changed: documents, indexes, the graph. -/
  | commit (otherBytes : Bool)
  /-- A stage or a statement fails, or the process dies. -/
  | fail
  /-- `remoteHeadSha`; `deleted` is whether the branch can be deleted where the last attempt fails. -/
  | readHead (ok deleted : Bool)
  | push (outcome : PushOutcome) (deleted : Bool)
  | list (ok : Bool)
  | close (ok : Bool)
  /-- Stage 11. -/
  | record

namespace SyncWorld

def start (head : Text → Option (List UInt8)) : SyncWorld := ⟨head, 0, [], [], 0, 0, .idle, none⟩

def openSyncPrs (w : SyncWorld) : List PullRequest := w.opened.filter PullRequest.isSync

def finish (w : SyncWorld) (outcome : RunOutcome) (r : Run) : SyncWorld :=
  { w with phase := .idle, ended := some (outcome, r) }

def turn (w : SyncWorld) (phase : RunPhase) : SyncWorld := { w with phase, ended := none }

/-- A merged branch puts its pins over those of HEAD. -/
def mergeInto (head : Text → Option (List UInt8)) (drift : List (Text × List UInt8)) (system : Text) :
    Option (List UInt8) := (Dict.get? drift system).or (head system)

def withoutPr (w : SyncWorld) (number : Nat) : SyncWorld :=
  { w with opened := w.opened.filter fun pr => decide (pr.number ≠ number) }

/-- `deleteRemoteBranch`; a PR whose branch is gone is closed. -/
def withoutBranch (w : SyncWorld) (runId : Nat) : SyncWorld :=
  { w with opened := w.opened.filter fun pr => decide (pr.run ≠ some runId) }

/-- `openPr`. -/
def withPr (w : SyncWorld) (runId : Nat) (drift : List (Text × List UInt8)) : SyncWorld :=
  { w with opened := ⟨w.nextNumber, some runId, drift⟩ :: w.opened, nextNumber := w.nextNumber + 1 }

section

variable (D : DiffStage) (provider : PrProvider) (prRetries : Nat)

/-- One attempt more has failed. -/
def attemptFailed (w : SyncWorld) (s : PinnedRun) (failed : Nat) (deleted : Bool) : SyncWorld :=
  if failed + 1 < prRetries then w.turn (.opening s (failed + 1))
  else (if deleted then w.withoutBranch s.runId else w).finish .failed s.run

/-- `none` when the event does not come here. -/
def step? (w : SyncWorld) : PrEvent → Option SyncWorld
  | .accept a => some { w with accepted := a :: w.accepted, ended := none }
  | .mergeSync number =>
      match w.openSyncPrs.find? fun pr => decide (pr.number = number) with
      | none => none
      | some pr => some { w.withoutPr number with
          head := mergeInto w.head pr.drift, sha := w.sha + 1, ended := none }
  | .openOther => some { w with
      opened := ⟨w.nextNumber, none, []⟩ :: w.opened, nextNumber := w.nextNumber + 1, ended := none }
  | .mergeOther number head =>
      if w.openSyncPrs.any fun pr => decide (pr.number = number) then none
      else some { w.withoutPr number with head, sha := w.sha + 1, ended := none }
  | .executeRun =>
      match w.phase with
      | .idle => some { w with
          phase := .pinned w.nextRun w.head w.sha, nextRun := w.nextRun + 1, ended := none }
      | _ => none
  | .acquire r =>
      match w.phase with
      | .pinned runId pins kbRef =>
          let run := { r with pins }
          if run.included.all fun s => w.accepted.any fun a =>
              decide (a.snapshotId = s.snapshotId ∧ a.system = s.system ∧ a.body = s.body) then
            if run.included.isEmpty then some (w.finish .failedAcquisition run)
            else some (w.turn (.acquired ⟨runId, run, kbRef⟩))
          else none
      | _ => none
  | .diff wheelCarry gatewayPending =>
      match w.phase with
      | .acquired s =>
          match s.run.changed D with
          | none => some (w.finish .failed s.run)
          | some changed =>
              if changed.isEmpty && !(wheelCarry && s.run.manual) && !gatewayPending then
                some (w.finish .noOp s.run)
              else some (w.turn (.writing s wheelCarry))
      | _ => none
  | .commit otherBytes =>
      match w.phase with
      | .writing s wheelCarry =>
          let committed := ((s.run.changed D).getD []).any fun a => decide (s.run.pins a.system ≠ some a.body)
          if !(committed || otherBytes) && !wheelCarry then some (w.finish .noOp s.run)
          else some (w.turn (.opening s 0))
      | _ => none
  | .fail =>
      match w.phase with
      | .idle | .pinned .. => some { w with phase := .idle, ended := none }
      | .acquired s | .writing s _ | .opening s _ | .pushing s _ | .opened s _ | .superseding s _ _ =>
          some (w.finish .failed s.run)
  | .readHead ok deleted =>
      match w.phase with
      | .opening s failed =>
          if failed < prRetries then
            if !ok then some (w.attemptFailed prRetries s failed deleted)
            else if w.sha ≠ s.kbRef then some (w.finish .retryHeadMoved s.run)
            else some (w.turn (.pushing s failed))
          else none
      | _ => none
  | .push outcome deleted =>
      match w.phase, outcome with
      | .pushing s failed, .refused => some (w.attemptFailed prRetries s failed deleted)
      | .pushing s failed, outcome =>
          if w.opened.any fun pr => decide (pr.run = some s.runId) then none
          else
            let opened := w.withPr s.runId ((s.run.drift D).getD [])
            if outcome = .lost then some (opened.attemptFailed prRetries s failed deleted)
            else some (opened.turn (.opened s w.nextNumber))
      | _, _ => none
  | .list ok =>
      match w.phase with
      | .opened s number =>
          if ok then
            some (w.turn (.superseding s number
              (((provider.listOpenSyncPrs w.opened).map PullRequest.number).filter fun n =>
                decide (n ≠ number))))
          else some (w.finish .failed s.run)
      | _ => none
  | .close ok =>
      match w.phase with
      | .superseding s number (prior :: rest) =>
          if ok then some ((w.withoutPr prior).turn (.superseding s number rest))
          else some (w.finish .failed s.run)
      | _ => none
  | .record =>
      match w.phase with
      | .superseding s _ [] => some (w.finish .succeeded s.run)
      | _ => none

def machine (head : Text → Option (List UInt8)) : Machine SyncWorld PrEvent :=
  .ofStep (.start head) (step? D provider prRetries)

instance (head : Text → Option (List UInt8)) : DecidableRel (machine D provider prRetries head).May :=
  inferInstanceAs (DecidableRel (Machine.ofStep _ _).May)

/-! ### What a run promises -/

/-- **At most one sync PR, and it is current**: one that is open has the full difference between the
snapshots the run has looked at and its pinned HEAD. -/
def Current (w : SyncWorld) (r : Run) : Prop :=
  w.openSyncPrs.length ≤ 1 ∧ ∀ pr ∈ w.openSyncPrs, some pr.drift = r.drift D

/-- A run that ended well leaves it so. -/
def EndsCurrent (w : SyncWorld) : Prop :=
  ∀ outcome r, w.ended = some (outcome, r) → outcome = .succeeded ∨ outcome = .noOp → w.Current D r

/-- No sync PR proposes drift, and there are not two of them. -/
def nothingProposed (w : SyncWorld) : Bool :=
  decide (w.openSyncPrs.length ≤ 1) && w.openSyncPrs.all fun pr => pr.drift.isEmpty

/-- A run that has nothing to propose finds nothing proposed, and one that supersedes finds every open
sync PR on the page it reads. -/
def supersedes (w : SyncWorld) : PrEvent → Bool
  | .diff wheelCarry gatewayPending =>
      match w.phase with
      | .acquired s =>
          (wheelCarry && s.run.manual) || gatewayPending || !((s.run.changed D).any List.isEmpty) ||
            w.nothingProposed
      | _ => true
  | .commit otherBytes =>
      match w.phase with
      | .writing s wheelCarry =>
          wheelCarry || otherBytes || !((s.run.changed D).any List.isEmpty) || w.nothingProposed
      | _ => true
  | .list _ => w.openSyncPrs.all fun pr => decide (pr ∈ provider.listOpenSyncPrs w.opened)
  | _ => true

end

end SyncWorld

end ContextLayer
