import ContextLayer.Artifact
import ContextLayer.PyText

/-!
# The datasets of a workspace

A delivery looks for the dataset of its artifact by name, creates it where there is none, and addresses every further
call to the dataset it has found or created. Any number of deliveries may be under way at once.
-/

namespace ContextLayer

open Text

/-- An artifact that is delivered has no finding against its shape. -/
structure AcceptedArtifact where
  members : List (Text × Json)
  shape : artifactProblems members = []

/-- `artifact.get("id")`. -/
def AcceptedArtifact.id (artifact : AcceptedArtifact) : Text := textOf (member artifact.members "id")

/-- The letters and digits of an id, without its leading `ra-`. -/
def lettersOf (isAlnum : CodePoint → Bool) (artifactId : PyStr) : PyStr :=
  (if py "ra-" <+: artifactId then artifactId.drop 3 else artifactId).filter isAlnum

/-- `dataset_name`, or the message of its `ConfigError`. -/
def datasetName (unicode : Unicode) (isAlnum : CodePoint → Bool) (artifactId : PyStr) : Except PyStr PyStr :=
  let short := (lettersOf isAlnum artifactId).take 12
  if short = [] then
    .error (py "artifact id " ++ PyText.reprStr unicode artifactId ++ py " yields no dataset short name")
  else .ok (py "cl-" ++ short)

structure PushDataset where
  id : Text
  name : PyStr
  /-- The artifact whose delivery has created it. The service knows nothing of it. -/
  owner : Text
  deriving DecidableEq

/-- `_find_dataset`. -/
def findDataset (listing : List PushDataset) (name : PyStr) : Option PushDataset :=
  listing.find? fun d => decide (d.name = name)

/-- A delivery under way. -/
structure PushDelivery where
  artifactId : Text
  name : PyStr
  /-- The dataset it works on; `none` before it has created one. -/
  target : Option Text
  created : Bool

structure Workspace where
  datasets : List PushDataset
  /-- Every id the service has given out. -/
  assigned : List Text
  deliveries : Nat → Option PushDelivery
  /-- The artifact that was delivered and the owner of the dataset, for every call to a dataset. -/
  addressed : List (Text × Text)

inductive PushEvent where
  /-- `datasets.list_in_group`. -/
  | locate (delivery : Nat) (artifact : AcceptedArtifact) (listing : List PushDataset)
  /-- `push.create_dataset`, with the id the service gives. -/
  | create (delivery : Nat) (datasetId : Text)
  /-- `push.get_tables`, `push.put_table`, `push.delete_rows` or `push.post_rows`, also those of a restore. -/
  | address (delivery : Nat)
  /-- `datasets.delete`, after rows could not be pushed to a dataset just created. -/
  | remove (delivery : Nat)
  /-- The delivery returns or raises. -/
  | finish (delivery : Nat)

namespace Workspace

def start : Workspace := ⟨[], [], fun _ => none, []⟩

def withDelivery (w : Workspace) (n : Nat) (delivery : Option PushDelivery) : Workspace :=
  { w with deliveries := Function.update w.deliveries n delivery }

/-- A call to a dataset, where it is still there. -/
def addressing (w : Workspace) (delivery : PushDelivery) (datasetId : Text) : Workspace :=
  { w with addressed := w.addressed ++
      (w.datasets.filter fun d => decide (d.id = datasetId)).map fun d => (delivery.artifactId, d.owner) }

def step? (unicode : Unicode) (isAlnum : CodePoint → Bool) (w : Workspace) : PushEvent → Option Workspace
  | .locate n artifact listing =>
      match w.deliveries n, datasetName unicode isAlnum (codePoints artifact.id) with
      | none, .ok name =>
          if listing.Perm w.datasets then
            some (w.withDelivery n (some ⟨artifact.id, name, (findDataset listing name).map PushDataset.id, false⟩))
          else none
      | _, _ => none
  | .create n datasetId =>
      match w.deliveries n with
      | some ⟨artifactId, name, none, _⟩ =>
          if datasetId ∈ w.assigned then none
          else
            let after := w.withDelivery n (some ⟨artifactId, name, some datasetId, true⟩)
            some { after with
              datasets := w.datasets ++ [⟨datasetId, name, artifactId⟩]
              assigned := datasetId :: w.assigned }
      | _ => none
  | .address n =>
      match w.deliveries n with
      | some ⟨artifactId, name, some datasetId, created⟩ =>
          some (w.addressing ⟨artifactId, name, some datasetId, created⟩ datasetId)
      | _ => none
  | .remove n =>
      match w.deliveries n with
      | some ⟨artifactId, name, some datasetId, true⟩ =>
          let after := w.addressing ⟨artifactId, name, some datasetId, true⟩ datasetId
          some { after with datasets := after.datasets.filter fun d => decide (d.id ≠ datasetId) }
      | _ => none
  | .finish n => (w.deliveries n).map fun _ => w.withDelivery n none

end Workspace

/-- Deliveries of these artifacts. -/
def PushEvent.Within (artifacts : Set AcceptedArtifact) : PushEvent → Prop
  | .locate _ artifact _ => artifact ∈ artifacts
  | _ => True

def pushMachine (unicode : Unicode) (isAlnum : CodePoint → Bool) : Machine Workspace PushEvent :=
  .ofStep .start (Workspace.step? unicode isAlnum)

instance (unicode : Unicode) (isAlnum : CodePoint → Bool) : DecidableRel (pushMachine unicode isAlnum).May :=
  inferInstanceAs (DecidableRel (Machine.ofStep _ _).May)

/-- No call has gone to the dataset of another artifact. -/
def Workspace.Apart (w : Workspace) : Prop := ∀ call ∈ w.addressed, call.1 = call.2

/-- Whatever its title by now, an artifact finds its own dataset if there is one, and otherwise none. -/
def Workspace.FindsOwn (unicode : Unicode) (isAlnum : CodePoint → Bool) (w : Workspace)
    (artifact : AcceptedArtifact) : Prop :=
  ∀ listing name, listing.Perm w.datasets → datasetName unicode isAlnum (codePoints artifact.id) = .ok name →
    match findDataset listing name with
    | some d => d.owner = artifact.id
    | none => ∀ d ∈ w.datasets, d.owner ≠ artifact.id

end ContextLayer
