import ContextLayer.Publish

/-!
# The delivery record

A delivery reads the last one's results as its restore source, enqueues a job, and writes the record
when it has seen the job succeed. The jobs are run by any runners in any order, a caller may give up
while its job is still to run, and each caller writes for itself.
-/

namespace ContextLayer

open Text

/-! ### The state -/

/-- What a model's rows and schema are those of. -/
structure ModelContent where
  revision : Nat
  results : Json

inductive JobStatus where
  /-- Queued, leased or running. -/
  | active
  | succeeded
  /-- Dead-lettered or cancelled. -/
  | failed
  deriving DecidableEq

structure DeliveryJob where
  /-- The artifact and the target. -/
  key : Text × Text
  revision : Nat
  results : Json
  /-- `payload.previous`. -/
  previous : Option Json
  status : JobStatus

structure DeliveryWorld where
  world : PublishWorld
  jobs : Nat → Option DeliveryJob
  /-- The job a call waits for. -/
  waits : Nat → Option Nat
  models : Text × Text → Option ModelContent

def PublishCall.key (call : PublishCall) : Text × Text := (call.artifactId, call.args.target)

def PublishEvent.session : PublishEvent → Nat
  | .accept session _ _ | .selectRevisions session | .insertRevision session | .prepare session _
  | .record session _ | .abandon session => session

/-- The statement that enqueues a delivery. -/
def PublishWorld.preparesDelivery (w : PublishWorld) : PublishEvent → Bool
  | .prepare session _ => (w.calls session).any fun call => decide (call.mode = .deliverModel)
  | _ => false

/-! ### Events -/

inductive DeliveryEvent where
  /-- A statement of a call that does not wait for a delivery. -/
  | publish (e : PublishEvent)
  | enqueue (session : Nat) (executed : Option Json) (jobId : Nat)
  /-- The job ends; a success has written the model. -/
  | settle (jobId : Nat) (success : Bool)
  /-- The caller has seen the success. -/
  | record (session : Nat) (result : Json) (delivered : Text × Text × Json)
  /-- A failure the caller has seen, or its deadline. -/
  | giveUp (session : Nat)

namespace DeliveryWorld

def start : DeliveryWorld := ⟨.start, fun _ => none, fun _ => none, fun _ => none⟩

/-- `previousRows[0].results`. -/
def previous (w : DeliveryWorld) (key : Text × Text) : Option Json :=
  (Dict.get? w.world.deliveries key).map ModelDelivery.results

/-- The job of a call, as it reads it. -/
def awaited (w : DeliveryWorld) (session : Nat) : Option DeliveryJob := (w.waits session).bind w.jobs

def enqueueJob (w : DeliveryWorld) (session jobId : Nat) (job : DeliveryJob) : DeliveryWorld :=
  { w with
    jobs := Function.update w.jobs jobId (some job)
    waits := Function.update w.waits session (some jobId) }

/-- `_revise` or `_create`, as one success or one failure. -/
def settleJob (w : DeliveryWorld) (jobId : Nat) (job : DeliveryJob) : Bool → DeliveryWorld
  | false => { w with jobs := Function.update w.jobs jobId (some { job with status := .failed }) }
  | true => { w with
      jobs := Function.update w.jobs jobId (some { job with status := .succeeded })
      models := Function.update w.models job.key (some ⟨job.revision, job.results⟩) }

/-- The call ends, with what it has written. -/
def stopWaiting (w : DeliveryWorld) (session : Nat) (world : PublishWorld) : DeliveryWorld :=
  { w with world, waits := Function.update w.waits session none }

section

variable (sha256 : List UInt8 → Text)

/-- `none` when the event does not come here. -/
def step? (w : DeliveryWorld) : DeliveryEvent → Option DeliveryWorld
  | .publish e =>
      if (w.waits e.session).isSome || w.world.preparesDelivery e then none
      else (w.world.step? sha256 e).map fun world => { w with world }
  | .enqueue session executed jobId =>
      match w.world.calls session, w.jobs jobId with
      | some ⟨artifactId, args, .deliverModel, .numbered revision⟩, none =>
          let key := (artifactId, args.target)
          (w.world.step? sha256 (.prepare session executed)).map fun world =>
            match executed with
            | none => { w with world }
            | some results => { w with world }.enqueueJob session jobId
                ⟨key, revision, results, w.previous key, .active⟩
      | _, _ => none
  | .settle jobId success =>
      match w.jobs jobId with
      | none => none
      | some job => if job.status = .active then some (w.settleJob jobId job success) else none
  | .record session result delivered =>
      match w.awaited session with
      | none => none
      | some job =>
          if job.status = .succeeded then
            (w.world.step? sha256 (.record session ⟨result, some delivered⟩)).map (w.stopWaiting session)
          else none
  | .giveUp session =>
      match w.awaited session with
      | none => none
      | some job =>
          if job.status = .succeeded then none
          else (w.world.step? sha256 (.abandon session)).map (w.stopWaiting session)

end

end DeliveryWorld

def deliveryMachine (sha256 : List UInt8 → Text) : Machine DeliveryWorld DeliveryEvent :=
  .ofStep .start (DeliveryWorld.step? sha256)

instance (sha256 : List UInt8 → Text) : DecidableRel (deliveryMachine sha256).May :=
  inferInstanceAs (DecidableRel (Machine.ofStep _ _).May)

/-! ### What the record promises -/

namespace DeliveryWorld

/-- No delivery of the artifact to the target is in progress, and no job of one. -/
def Quiescent (w : DeliveryWorld) (key : Text × Text) : Prop :=
  (∀ session call, w.world.calls session = some call → call.mode = .deliverModel → call.key ≠ key) ∧
    ∀ jobId job, w.jobs jobId = some job → job.key = key → job.status ≠ .active

/-- **The record is the model**: the model holds what is recorded, the next delivery restores what it
holds, and an attestation that is not refused is one of the revision it holds. -/
structure RecordIsModel (sha256 : List UInt8 → Text) (w : DeliveryWorld) (key : Text × Text) : Prop where
  held : w.models key = (Dict.get? w.world.deliveries key).map fun d => ⟨d.revision, d.results⟩
  restored : w.previous key = (w.models key).map ModelContent.results
  attested : ∀ session artifactId args revision world,
    w.world.calls session = some ⟨artifactId, args, .attest, .numbered revision⟩ →
      (artifactId, args.target) = key → w.world.step? sha256 (.prepare session none) = some world →
        (world.calls session).isSome → (w.models key).map ModelContent.revision = some revision

/-- A job succeeds while its caller still waits, and not before the success of another delivery of the
artifact to the target is recorded. -/
def OnTime (w : DeliveryWorld) : DeliveryEvent → Prop
  | .settle jobId true => (∃ session, w.waits session = some jobId) ∧
      ∀ job, w.jobs jobId = some job → ∀ session other, w.awaited session = some other →
        other.key = job.key → other.status ≠ .succeeded
  | _ => True

end DeliveryWorld

end ContextLayer
