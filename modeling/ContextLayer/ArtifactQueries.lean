import ContextLayer.Artifact
import ContextLayer.Execute

/-!
# The queries of an artifact

Each query is validated once more and then executed. What the runs give is kept under the names of the queries: the
cited objects in a `Map`, the results in an object.
-/

namespace ContextLayer

open Text Sql

structure PublishDeps where
  ws : KbState
  identity : ExecuteIdentity
  profile : Profile
  sessionId : Option Text
  auditId : Text

inductive Awaited where
  | timeout
  | failed (error : Json)
  | succeeded (result : Option Json)

/-- What the calls made for the query at a place of the list answer. -/
structure QueryCalls where
  /-- An error is thrown. -/
  validateRequest : Nat → Text → Request → Except Text ValidateOutcome
  getSyncSystem : Nat → Text → Option Registration
  /-- The id of the job, or the problems of an `EnqueueError`. -/
  enqueue : Nat → ExecuteJob → Except (List Text) Text
  awaitJobResult : Nat → Text → Awaited

inductive QueryFailure where
  | threw
  | refused (code message : Text) (detail : List (Text × Json)) (findings : List Finding)

/-- `q.request`. -/
def requestOf (query : Json) : Request :=
  match query.field "request" with
  | some (.obj request) => request
  | _ => []

/-- One round of the validation loop. -/
def checkQuery (deps : PublishDeps) (calls : QueryCalls) (i : Nat) (query : Json) :
    Except QueryFailure (List Text) :=
  let name := textOf (query.field "name")
  let system := textOf (query.field "system")
  match Dict.get? deps.ws.systems system with
  | none => .error (.refused (js "config_error")
      (js "no accepted snapshot for system " ++ system ++ js " (query " ++ name ++ js ")") [] [])
  | some state =>
      if textOf (query.field "validated_against") ≠ state.snapshotRef then
        .error (.refused (js "revalidate_required") (js "query " ++ name ++
            js " was validated against a snapshot that is no longer current for " ++ system ++
            js "; re-validate and re-emit the artifact")
          [(js "query", .str name), (js "system", .str system),
            (js "pinned", .str (textOf (query.field "validated_against"))), (js "current", .str state.snapshotRef)] [])
      else
        match calls.validateRequest i system (requestOf query) with
        | .error _ => .error .threw
        | .ok outcome =>
            match outcome.error with
            | some (code, message) => .error (.refused
                (if code = js "invalid_argument" then js "invalid_argument" else js "config_error")
                (js "query " ++ name ++ js ": " ++ message) [] [])
            | none =>
                if outcome.verdict = .pass then .ok outcome.citedObjects
                else .error (.refused (js "revalidate_required")
                  (js "query " ++ name ++ js " no longer validates against the current snapshot: " ++
                    (js "; ").intercalate (outcome.findings.map Finding.message))
                  [(js "query", .str name)] outcome.findings)

section

variable (P : Platform)

/-- The job of one query. Unlike the job of `execute_sql` it has no intent, and its request is as it came. -/
def queryJob (deps : PublishDeps) (system : Text) (state : SystemState) (registration : Registration)
    (credentials : List Json) (request : Request) : ExecuteJob :=
  let guardrails := Dict.set (effectiveGuardrails deps.ws system deps.profile) (js "validated_against")
    (.str state.snapshotRef)
  let present (text : Option Text) : Option Json := (text.filter (· ≠ [])).map .str
  { system
    connectorName := registration.connectorName
    versionConstraint := registration.versionConstraint
    payload :=
      { config := spread (orElse (registration.payload.field "config") (.obj []))
        credentials
        identity := [(js "subject", .str deps.identity.subject),
            (js "roles", .arr (deps.identity.roles.map .str))] ++
          optionalMember "display" (present deps.identity.display) ++
          optionalMember "session_id" (present deps.sessionId)
        guardrails
        request }
    deadlineS := interactiveDeadlineS P (Dict.get? guardrails (js "timeout_s"))
    auditId := deps.auditId }

/-- What a job that did not succeed is answered with. -/
def jobFailure (name jobId : Text) (error : Json) : QueryFailure :=
  let capabilityCode := ((error.field "detail").bind (·.field "capability_code")).bind Json.asString
  .refused (if (error.field "code").bind Json.asString = some (js "guardrail") then js "guardrail"
      else js "upstream_error")
    (js "query " ++ name ++ js ": " ++ ((error.field "message").bind Json.asString).getD (js "execution failed"))
    ((js "job_id", .str jobId) ::
      optionalMember "capability_code" ((capabilityCode.filter (· ≠ [])).map .str)) []

/-- One round of `executeArtifactQueries`. -/
def executeQuery (deps : PublishDeps) (calls : QueryCalls) (i : Nat) (query : Json) : Except QueryFailure Json :=
  let name := textOf (query.field "name")
  let system := textOf (query.field "system")
  let refused (code : String) (message : Text) (detail : List (Text × Json)) : Except QueryFailure Json :=
    .error (.refused (js code) (js "query " ++ name ++ js ": " ++ message) detail [])
  match calls.getSyncSystem i system with
  | none => refused "config_error" (js "system " ++ system ++ js (" has no connection registered; delivery needs a " ++
      "configured connector for every artifact query")) []
  | some registration =>
      match executionCredentials registration.payload, Dict.get? deps.ws.systems system with
      | none, _ => .error .threw
      | some [], _ => refused "config_error" (js "system " ++ system ++ js (" has no credential marked for the query " ++
          "capability; mark the execution credential with required_for: [\"query\"] in the connection registration")) []
      | some _, none => .error .threw
      | some credentials, some state =>
          let job := queryJob P deps system state registration credentials (requestOf query)
          match calls.enqueue i job with
          | .error problems => refused "config_error"
              (js "execute job rejected: " ++ (js "; ").intercalate problems) []
          | .ok jobId =>
              match calls.awaitJobResult i jobId with
              | .timeout => refused "upstream_error"
                  (js "execution did not complete within " ++ decimal job.deadlineS ++ js "s")
                  [(js "job_id", .str jobId)]
              | .failed error => .error (jobFailure name jobId error)
              | .succeeded result =>
                  let result := orElse result (.obj [])
                  let rows := match Dict.get? (effectiveGuardrails deps.ws system deps.profile) (js "row_cap") with
                    | some (.num n) => js " (" ++ n.text ++ js " rows)"
                    | _ => []
                  match result.field "truncated" with
                  | some (.bool true) =>
                      refused "guardrail" (js "the result is truncated at the row cap" ++ rows ++
                          js (" — a capped result must never quietly become the model (CI-7). Narrow the query or " ++
                            "aggregate further in the reporting view, then re-deliver."))
                        [(js "capability_code", .str (js "row_cap")), (js "query", .str name)]
                  | _ => .ok result

/-- Round by round, from the `i`-th query on: what a round gives is stored under the query's name. -/
def overQueries {ν : Type} (run : Nat → Json → Except QueryFailure ν)
    (store : List (Text × ν) → Text → ν → List (Text × ν)) :
    Nat → List Json → List (Text × ν) → Except QueryFailure (List (Text × ν))
  | _, [], entries => .ok entries
  | i, query :: queries, entries => do
      let v ← run i query
      overQueries run store (i + 1) queries (store entries (textOf (query.field "name")) v)

/-- `results[name] = result`: the one name that is no member of an object is `__proto__`. -/
def setOwn (results : List (Text × Json)) (name : Text) (result : Json) : List (Text × Json) :=
  if name = js "__proto__" then results else Dict.set results name result

def queriesOf (artifact : List (Text × Json)) : List Json := (itemsOf (member artifact "queries")).map Prod.fst

/-- `citedByQuery`, at the end of the validation loop. -/
def citedByQuery (deps : PublishDeps) (calls : QueryCalls) (artifact : List (Text × Json)) :
    Except QueryFailure (List (Text × List Text)) :=
  overQueries (checkQuery deps calls) Dict.set 0 (queriesOf artifact) []

def executeArtifactQueries (deps : PublishDeps) (calls : QueryCalls) (artifact : List (Text × Json)) :
    Except QueryFailure (List (Text × Json)) :=
  overQueries (executeQuery P deps calls) setOwn 0 (queriesOf artifact) []

end

end ContextLayer
