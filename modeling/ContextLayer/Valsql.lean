import ContextLayer.Sql.Validate
import ContextLayer.Visibility
import ContextLayer.Vtoken

/-!
# `validate_sql`

One tool for both dialects: a SQL statement goes to the SQL validator, an API request is resolved
against the documented dimensions and metrics. Either way resolution sees the caller's slice of the
snapshot, so a hidden object and an absent one are refused in the same words. A pass issues the token
`execute_sql` asks for.
-/

namespace ContextLayer

open Text Sql

/-- A request: the members of an open JSON object. -/
abbrev Request := List (Text × Json)

/-- The characters `String.prototype.trim` removes. -/
def isJsSpace (u : UInt16) : Bool :=
  (0x09 ≤ u && u ≤ 0x0D) || u == 0x20 || u == 0xA0 || u == 0x1680 || (0x2000 ≤ u && u ≤ 0x200A) ||
    u == 0x2028 || u == 0x2029 || u == 0x202F || u == 0x205F || u == 0x3000 || u == 0xFEFF

/-- `typeof value === "number"`, with the number. -/
def Json.asNumber : Json → Option JsNumber
  | .num n => some n
  | _ => none

/-- `value ?? fallback`. -/
def orElse (value : Option Json) (fallback : Json) : Json :=
  match value with
  | none => fallback
  | some .null => fallback
  | some v => v

/-- The number under a key of the conventions block. -/
def Conventions.number (conventions : Conventions) (key : String) : Option Json :=
  ((member conventions key).bind Json.asNumber).map .num

/-- A member of an object literal that is only there when it has a value. -/
def optionalMember (key : String) (value : Option Json) : List (Text × Json) :=
  (value.map fun v => (js key, v)).toList

/-- Server-side guardrails: profile limits over the conventions row. -/
def effectiveGuardrails (ws : KbState) (system : Text) (profile : Profile) : List (Text × Json) :=
  let conventions := ws.conventions system
  Dict.ofList ([(js "statement_class", .str (js "select-only"))] ++
    optionalMember "timeout_s" (conventions.number "timeout_s") ++
    optionalMember "row_cap" (conventions.number "row_cap") ++
    optionalMember "timeout_s" profile.timeoutS ++ optionalMember "row_cap" profile.rowCap)

structure ValidateOutcome where
  verdict : VerdictKind
  findings : List Finding
  guardrails : List (Text × Json)
  statementSha256 : Option Text
  citedObjects : List Text
  /-- FQNs the request referenced that are hidden from this caller. For the audit record only. -/
  hiddenObjects : List Text
  validationToken : Option IssuedToken
  /-- `code` and `message`. -/
  error : Option (Text × Text)

def ValidateOutcome.base (guardrails : List (Text × Json)) : ValidateOutcome :=
  ⟨.fail, [], guardrails, none, [], [], none, none⟩

/-! ### The caller's slice of a snapshot -/

structure VisibleSurface where
  objects : List SnapshotObject
  /-- lower(fqn) → canonical fqn, over the whole snapshot. -/
  allByLower : List (Text × Text)
  /-- `kind:lower(name)` → canonical fqn, over the whole snapshot. -/
  allByKindName : List (Text × Text)
  /-- Canonical FQNs that exist but are hidden from this caller. -/
  hidden : List Text

section

variable (P : Platform)

def kindName (kind name : Text) : Text := kind ++ js ":" ++ P.toLowerCase name

/-- `kind:lower(name)` → fqn. -/
def byKindName (objects : List SnapshotObject) : List (Text × Text) :=
  Dict.ofList (objects.map fun obj => (kindName P obj.kind obj.name, obj.fqn))

def visibleSurface (ws : KbState) (scopes : List Scope) (state : SystemState) : VisibleSurface where
  objects := state.objects.filter fun obj => fqnVisible ws scopes obj.fqn
  allByLower := Dict.ofList (state.objects.map fun obj => (P.toLowerCase obj.fqn, obj.fqn))
  allByKindName := byKindName P state.objects
  hidden := (state.objects.filter fun obj => !fqnVisible ws scopes obj.fqn).map (·.fqn)

/-- A hidden FQN is noted once. -/
def VisibleSurface.note (surface : VisibleSurface) (found : List Text) (canonical : Option Text) :
    List Text :=
  match canonical with
  | some fqn => if fqn ≠ [] ∧ fqn ∈ surface.hidden ∧ fqn ∉ found then found ++ [fqn] else found
  | none => found

/-- Which of the refusals were hidden objects rather than absent ones. -/
def hiddenAmong (surface : VisibleSurface) (refs : List (Option Text)) : List Text :=
  refs.foldl
    (fun found ref =>
      match ref.filter (· ≠ []) with
      | some ref => surface.note found (Dict.get? surface.allByLower (P.toLowerCase ref))
      | none => found)
    []

/-- The snapshot's spelling of an FQN. -/
def VisibleSurface.canonical (surface : VisibleSurface) (ref : Text) : Text :=
  (Dict.get? surface.allByLower (P.toLowerCase ref)).getD ref

/-! ### The SQL dialect -/

def SnapshotObject.listed (obj : SnapshotObject) : Listed :=
  ⟨obj.schema, obj.name, obj.kind, obj.columns⟩

/-- The engine of a system, `postgres` unless its conventions name a SQL dialect. -/
def engineOf (conventions : Conventions) : Text :=
  match (member conventions "dialect").bind Json.asString with
  | some dialect => if dialect = js "api" then js "postgres" else dialect
  | none => js "postgres"

/-- What is written to the validator's request file. -/
def sqlvalRequest (ws : KbState) (system : Text) (surface : VisibleSurface) (statement : Text) :
    ValidateRequest where
  statement := statement
  engine := engineOf (ws.conventions system)
  system := system
  defaultSchema := js "public"
  objects := surface.objects.map SnapshotObject.listed
  deniedFunctions :=
    match member (ws.conventions system) "denied_functions" with
    | some (.arr names) => names
    | _ => []

/-- The outcome of a verdict. -/
def outcomeOfVerdict (system : Text) (surface : VisibleSurface) (statement : Text)
    (base : ValidateOutcome) (verdict : Verdict) : ValidateOutcome :=
  let refs := verdict.findings.map (·.ref)
  let cited := refs.reduceOption.filter fun ref => (system ++ js ".").isPrefixOf ref
  match verdict.verdict with
  | .pass =>
      { base with
        verdict := .pass
        findings := verdict.findings
        statementSha256 := some (verdict.statementSha256.getD (P.sha256Hex statement))
        citedObjects := (verdict.referencedObjects.getD []).map (surface.canonical P)
        hiddenObjects := [] }
  | .fail =>
      { base with
        verdict := .fail
        findings := verdict.findings
        statementSha256 := none
        citedObjects := cited.map (surface.canonical P)
        hiddenObjects := hiddenAmong P surface refs }

/-- `Except.error` is `SqlValidatorUnavailable`. -/
def validateSqlDialect (S : Sqlglot) (ws : KbState) (system : Text) (surface : VisibleSurface)
    (request : Request) (base : ValidateOutcome) : Except Text ValidateOutcome :=
  match (member request "statement").bind Json.asString with
  | none =>
      .ok { base with
        error := some (js "invalid_argument", js "request.statement (string) required") }
  | some statement =>
    if statement.all isJsSpace then
      .ok { base with
        error := some (js "invalid_argument", js "request.statement (string) required") }
    else
      match validateStatement P S (sqlvalRequest ws system surface statement) with
      | .error message => .error message
      | .ok verdict => .ok (outcomeOfVerdict P system surface statement base verdict)

/-! ### The API dialect -/

/-- The strings of an array and the `name`s of its objects. -/
def identifierNames (value : Option Json) : List Text :=
  match value with
  | some (.arr items) =>
      items.filterMap fun
        | .str s => some s
        | item => (item.field "name").bind Json.asString
  | _ => []

/-- The findings, the citations and the hidden objects so far. -/
structure ApiState where
  findings : List Finding
  cited : List Text
  hiddenObjects : List Text

/-- One name of a `kind` ("dimension" or "metric"), looked up among the visible objects. -/
def resolveName (system : Text) (surface : VisibleSurface) (kind : Text) (acc : ApiState)
    (name : Text) : ApiState :=
  let key := kindName P (js "api_" ++ kind) name
  match (Dict.get? (byKindName P surface.objects) key).filter (· ≠ []) with
  | some fqn => { acc with cited := acc.cited ++ [fqn] }
  | none =>
      { acc with
        hiddenObjects := surface.note acc.hiddenObjects (Dict.get? surface.allByKindName key)
        findings := acc.findings ++
          [⟨js "error", js "unknown_" ++ kind, some (system ++ js "." ++ name),
            kind ++ js " " ++ name ++ js " is not in the documented " ++ system ++
              js " surface"⟩] }

/-- The check of `operation` against the documented one. -/
def operationFindings (system : Text) (conventions : Conventions) (operation : Text) :
    List Finding :=
  if operation = [] then
    [⟨js "error", js "invalid_argument", none, js "request.operation required"⟩]
  else
    match ((member conventions "operation").bind Json.asString).filter (· ≠ []) with
    | some documentedOp =>
        if P.toLowerCase operation ≠ P.toLowerCase documentedOp then
          [⟨js "error", js "unknown_operation", some operation, js "system " ++ system ++
            js " documents operation " ++ documentedOp ++ js ", got " ++ operation⟩]
        else []
    | none => []

/-- `typeof request.operation === "string" ? request.operation : ""`. -/
def operationOf (request : Request) : Text :=
  ((member request "operation").bind Json.asString).getD []

/-- `request.body ?? {}`. -/
def bodyOf (request : Request) : Json := orElse (member request "body") (.obj [])

/-- `{ operation, body }`. -/
def apiJson (operation : Text) (body : Json) : Json :=
  .obj [(js "operation", .str operation), (js "body", body)]

/-- The names of the two arrays, resolved one after the other. -/
def resolveBody (system : Text) (surface : VisibleSurface) (findings : List Finding)
    (body : Json) : ApiState :=
  (identifierNames (body.field "metrics")).foldl (resolveName P system surface (js "metric"))
    ((identifierNames (body.field "dimensions")).foldl
      (resolveName P system surface (js "dimension")) ⟨findings, [], []⟩)

def validateApiDialect (ws : KbState) (system : Text) (surface : VisibleSurface)
    (request : Request) (base : ValidateOutcome) : ValidateOutcome :=
  let operation := operationOf request
  let body := bodyOf request
  let acc := resolveBody P system surface
    (operationFindings P system (ws.conventions system) operation) body
  if acc.findings ≠ [] then
    { base with
      verdict := .fail
      findings := acc.findings
      citedObjects := (acc.findings.map (·.ref)).reduceOption
      hiddenObjects := acc.hiddenObjects }
  else
    { base with
      verdict := .pass
      findings := []
      statementSha256 := some (P.sha256Hex (canonicalJson (apiJson operation body)))
      citedObjects := acc.cited }

/-! ### The tool -/

/-- One call of `validateRequest`. -/
structure ValidateCall where
  ws : KbState
  subject : Text
  profile : Profile
  scopes : List Scope
  system : Text
  request : Request
  issueToken : Bool
  /-- `cfg.mcp.vtokenTtlS`. -/
  ttlS : Nat
  now : Nat
  /-- The row inserted should no signing key be active. -/
  fresh : SigningKey

def expectedDialect (state : SystemState) : Text :=
  if state.systemClass = js "sql" then js "sql" else js "api"

/-- `validateRequest` up to the token. -/
def resolveRequest (S : Sqlglot) (call : ValidateCall) : Except Text ValidateOutcome :=
  let base := ValidateOutcome.base (effectiveGuardrails call.ws call.system call.profile)
  match Dict.get? call.ws.systems call.system with
  | none =>
      .ok { base with
        error := some (js "not_found", js "no accepted snapshot for system " ++ call.system) }
  | some state =>
    let dialect := member call.request "dialect"
    if dialect.bind Json.asString ≠ some (expectedDialect state) then
      .ok { base with
        error := some (js "invalid_argument", js "system " ++ call.system ++ js " takes dialect " ++
          expectedDialect state ++ js ", got " ++ P.string dialect) }
    else
      let surface := visibleSurface P call.ws call.scopes state
      if expectedDialect state = js "sql" then
        validateSqlDialect P S call.ws call.system surface call.request base
      else .ok (validateApiDialect P call.ws call.system surface call.request base)

/-- What the token of a pass binds. -/
def ValidateCall.binding (call : ValidateCall) (state : SystemState) (statementSha256 : Text)
    (citedObjects : List Text) : Binding where
  statementSha256 := statementSha256
  system := call.system
  snapshotRef := state.snapshotRef
  subject := call.subject
  profile := call.profile.name
  objects := citedObjects

/-- `validateRequest`, with the key table after it. An error is the validator unavailable, or the
insert of a signing key failing. -/
def validateRequest (S : Sqlglot) (table : KeyTable) (call : ValidateCall) :
    Except Text (ValidateOutcome × KeyTable) :=
  match resolveRequest P S call with
  | .error message => .error message
  | .ok outcome =>
    match call.issueToken, outcome.verdict, outcome.statementSha256.filter (· ≠ []),
        Dict.get? call.ws.systems call.system with
    | true, .pass, some sha, some state =>
      match issueValidationToken P table call.fresh
          (call.binding state sha outcome.citedObjects) call.ttlS call.now with
      | some (issued, after) => .ok ({ outcome with validationToken := some issued }, after)
      | none => .error (js "duplicate key value violates unique constraint")
    | _, _, _, _ => .ok (outcome, table)

end

end ContextLayer
