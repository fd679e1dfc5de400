import ContextLayer.Acceptance
import ContextLayer.Loads

/-!
# The job behind the gate

The core hands a delivered body to the gate and reads one verdict line back. A job with a verdict is stored or
dead-lettered; where the gate has raised there is no line, and the job is neither.
-/

namespace ContextLayer

open Text

/-! ### The command -/

/-- The line `main` prints. -/
inductive VerdictLine where
  /-- `body has no 'result' member`. -/
  | noMember
  | accepted (verdict : AcceptVerdict)

inductive DeliveryOutcome where
  | stored (serialized : List UInt8)
  /-- `validation_error`. -/
  | deadLettered
  /-- `delivery_gate_unavailable`: the lease runs on. -/
  | gateUnavailable

section

variable (sha256 : List UInt8 → PyStr) (isDateTime : PyStr → Bool)

/-- `main` with `--key`; `none` is an exception. -/
def acceptMain (key : String) (body : PyJson) : Option VerdictLine :=
  match body.field key with
  | none => some .noMember
  | some document => (accept sha256 isDateTime document).map .accepted

/-- What becomes of a job for the system. -/
def completeSnapshot (system : PyStr) (body : PyJson) : DeliveryOutcome :=
  match acceptMain sha256 isDateTime "result" body with
  | none => .gateUnavailable
  | some (.accepted (.valid verdict serialized)) => if verdict.system = system then .stored serialized else .deadLettered
  | some _ => .deadLettered

/-! ### What the gate should do -/

/-- An invalid verdict says why. -/
def AcceptVerdict.IsReasoned : AcceptVerdict → Prop
  | .invalid errors _ => errors ≠ []
  | _ => True

/-- There is a verdict on the document, and every job that delivers it is settled. -/
structure IsAnswered (document : PyJson) : Prop where
  verdict : ∃ v, accept sha256 isDateTime document = some v ∧ v.IsReasoned
  settled : ∀ system body, body.field "result" = some document →
    completeSnapshot sha256 isDateTime system body ≠ .gateUnavailable

/-! ### Where it does -/

/-- What is hashed has bytes, and so does what is stored. -/
structure Snapshot.IsPrintable (s : Snapshot) : Prop where
  hashed : ∀ o ∈ s.objects, ∀ spec ∈ o.kindSpec, (o.structural spec).isEncodable = true
  stored : (s.objects.map SourceObject.identity).Nodup →
    (∀ o ∈ s.objects, o.kindSpec.isSome → schemaHash sha256 o = some o.schemaHash) → s.document.isEncodable = true

/-- The document has an error of the schema, or can be printed. -/
def IsPresentable (document : PyJson) : Prop :=
  ∀ members, document = .obj members → ∀ s ∈ readSnapshot isDateTime document, s.IsPrintable sha256

end

end ContextLayer
