import ContextLayer.Valsql

/-!
# `execute_sql`

The execution gateway up to the job it enqueues. The token is verified in full against the request
as it stands now, the client's guardrails are dropped for the server's, and the job carries only the
credentials marked for the query capability. Nothing here validates the request again: what makes it
safe to run is that its hash is the one the token binds.
-/

namespace ContextLayer

open Text Sql

section

variable (P : Platform)

/-- What §8 stores for an execute: the statement, and its parameters when there are any. -/
def auditText (request : Request) : Text :=
  let statement := ((member request "statement").bind Json.asString).getD []
  match member request "params" with
  | some (.arr (p :: params)) =>
      statement ++ 0x0A :: js "-- params: " ++ canonicalJson (.arr (p :: params))
  | _ => statement

structure StatementBinding where
  sha256 : Text
  text : Text
  deriving DecidableEq

/-- `{ operation: request.operation, body: request.body }`, without the members that are absent. -/
def requestJson (request : Request) : Json :=
  .obj (optionalMember "operation" (member request "operation") ++
    optionalMember "body" (member request "body"))

/-- The statement bytes the token is bound to. -/
def statementBinding (request : Request) : StatementBinding :=
  match (member request "statement").bind Json.asString with
  | some statement => ⟨P.sha256Hex statement, auditText request⟩
  | none =>
      let canonical := canonicalJson (requestJson request)
      ⟨P.sha256Hex canonical, canonical⟩

/-! ### The call -/

structure ExecuteIdentity where
  subject : Text
  roles : List Text
  display : Option Text

/-- A row of `sync_systems`. -/
structure Registration where
  connectorName : Text
  versionConstraint : Text
  payload : Json

structure ExecuteCall where
  ws : KbState
  identity : ExecuteIdentity
  profile : Profile
  /-- The caller's visibility scopes, resolved this call. -/
  scopes : List Scope
  sessionId : Option Text
  auditId : Text
  intent : Option Text
  system : Text
  request : Request
  validationToken : Text
  now : Nat
  /-- `getSyncSystem(pool, system)`. -/
  registration : Option Registration

/-- A refusal: what the caller sees, and what is audited. -/
structure ExecuteOutcome where
  code : Text
  message : Text
  detail : List (Text × Json)
  audited : List (Text × Json)
  statementText : Text

structure JobPayload where
  config : List (Text × Json)
  credentials : List Json
  identity : List (Text × Json)
  guardrails : List (Text × Json)
  /-- `cleanRequest`. -/
  request : Request

/-- The `execute` job, as it is enqueued. -/
structure ExecuteJob where
  system : Text
  connectorName : Text
  versionConstraint : Text
  payload : JobPayload
  deadlineS : Nat
  /-- `trigger.detail.audit_id`; the kind is `gateway`. -/
  auditId : Text

inductive ExecuteStep where
  | refused (outcome : ExecuteOutcome)
  | threw
  | enqueue (job : ExecuteJob)

/-! ### The envelope -/

/-- `const cleanRequest = { ...request }; delete cleanRequest.guardrails`. -/
def cleanRequest (request : Request) : Request :=
  request.filter fun m => decide (m.1 ≠ js "guardrails")

/-- The credential is marked for the query capability. -/
def requiredForQuery (entry : Json) : Bool :=
  match entry.field "required_for" with
  | some (.arr capabilities) =>
      capabilities.any fun c => c.asString == some (js "query")
  | _ => false

/-- `(payload.credentials ?? []).filter(..)`, `none` when it throws. -/
def executionCredentials (payload : Json) : Option (List Json) :=
  match orElse (payload.field "credentials") (.arr []) with
  | .arr entries => some (entries.filter requiredForQuery)
  | _ => none

/-- The statement timeout plus the margin for claim, connect and delivery. -/
def interactiveDeadlineS (timeoutS : Option Json) : Nat :=
  match (timeoutS.bind Json.asNumber).bind P.ceilPositive with
  | some ceiling => ceiling + 30
  | none => 120

def identityPayload (call : ExecuteCall) : List (Text × Json) :=
  let present (text : Option Text) : Option Json := (text.filter (· ≠ [])).map .str
  [(js "subject", .str call.identity.subject),
    (js "roles", .arr (call.identity.roles.map .str))] ++
    optionalMember "display" (present call.identity.display) ++
    optionalMember "session_id" (present call.sessionId) ++
    optionalMember "intent" (present call.intent)

/-! ### The gateway -/

/-- `fail(code, message, extra)`, over the facts decided by then. -/
def failed (call : ExecuteCall) (decided : List (Text × Json)) (code message : Text)
    (extra : List (Text × Json)) : ExecuteStep :=
  .refused
    { code, message, detail := extra
      audited := Dict.ofList (decided ++ [(js "error", .str code)] ++ extra)
      statementText := (statementBinding P call.request).text }

/-- The refusal for a hidden allow-set member: validation's words for an object that is not there,
and the hidden FQNs for the audit only. -/
def notFoundStep (call : ExecuteCall) (decided : List (Text × Json)) (hidden : List Text) :
    ExecuteStep :=
  .refused
    { code := js "not_found"
      message := js "object " ++ hidden.headD call.system ++
        js " does not exist in the latest accepted snapshot"
      detail := []
      audited := decided ++ [(js "error", .str (js "not_found")),
        (js "stage", .str (js "visibility")), (js "filtered", .bool true),
        (js "hidden_objects", .arr (hidden.map .str))]
      statementText := (statementBinding P call.request).text }

/-- After the token: guardrails, registration, credentials, and the job. -/
def enqueueStep (call : ExecuteCall) (decided : List (Text × Json)) (currentSnapshotRef : Text)
    (validated : Json) : ExecuteStep :=
  let guardrails := effectiveGuardrails call.ws call.system call.profile ++
    optionalMember "validated_against" (validated.field "snapshot_ref")
  let decided := decided ++ [(js "guardrails", .obj guardrails),
    (js "client_guardrails_ignored", .bool (member call.request "guardrails").isSome),
    (js "snapshot_ref", .str currentSnapshotRef)]
  match call.registration with
  | none =>
      failed P call decided (js "config_error") (js "system " ++ call.system ++
        js " has no connection registered; execution needs a configured connector") []
  | some registration =>
    match executionCredentials registration.payload with
    | none => .threw
    | some [] =>
        failed P call decided (js "config_error") (js "system " ++ call.system ++
          js (" has no credential marked for the query capability; mark the execution credential" ++
            " with required_for: [\"query\"] in the connection registration (see" ++
            " deploy/execution-role.sql for provisioning the role itself)")) []
    | some credentials =>
        .enqueue
          { system := call.system
            connectorName := registration.connectorName
            versionConstraint := registration.versionConstraint
            payload :=
              { config := spread (orElse (registration.payload.field "config") (.obj []))
                credentials
                identity := identityPayload call
                guardrails
                request := cleanRequest call.request }
            deadlineS := interactiveDeadlineS P (Dict.get? guardrails (js "timeout_s"))
            auditId := call.auditId }

def ExecuteCall.expected (call : ExecuteCall) (state : SystemState) : Expected where
  statementSha256 := (statementBinding P call.request).sha256
  system := call.system
  subject := call.identity.subject
  currentSnapshotRef := state.snapshotRef
  visible := fqnVisible call.ws call.scopes

/-- `executeRequest`, up to `enqueue`. -/
def executeRequest (table : KeyTable) (call : ExecuteCall) : ExecuteStep :=
  let decided := [(js "system", .str call.system)]
  match Dict.get? call.ws.systems call.system with
  | none =>
      failed P call decided (js "not_found")
        (js "no accepted snapshot for system " ++ call.system) []
  | some state =>
    if call.validationToken = [] then
      failed P call decided (js "revalidate_required")
        (js "execute_sql requires a validation_token from validate_sql") []
    else
      match verifyValidationToken P table call.validationToken (call.expected P state)
          call.now with
      | .threw => .threw
      | .notFound _ hidden => notFoundStep P call decided hidden
      | .revalidateRequired reason =>
          failed P call decided (js "revalidate_required") reason
            [(js "stage", .str (js "token"))]
      | .ok validated => enqueueStep P call decided state.snapshotRef validated

/-! ### Histories -/

/-- A validation that ran to an outcome. -/
structure Validated where
  call : ValidateCall
  outcome : ValidateOutcome

/-- The key table and the validations so far. -/
structure GatewayState where
  table : KeyTable
  validated : List Validated

def GatewayState.empty : GatewayState := ⟨.empty, []⟩

inductive GatewayEvent where
  | insertKey (row : SigningKey)
  | deactivateKey (kid : Text)
  | validate (call : ValidateCall)

namespace GatewayState

/-- A statement or a call that fails changes nothing. -/
def step (S : Sqlglot) (state : GatewayState) : GatewayEvent → GatewayState
  | .insertKey row => { state with table := (state.table.insert row).getD state.table }
  | .deactivateKey kid => { state with table := state.table.deactivate kid }
  | .validate call =>
    match validateRequest P S state.table call with
    | .ok (outcome, after) =>
        { table := after, validated := state.validated ++ [⟨call, outcome⟩] }
    | .error _ => state

def run (S : Sqlglot) (events : List GatewayEvent) : GatewayState := events.foldl (step P S) empty

end GatewayState

end

end ContextLayer
