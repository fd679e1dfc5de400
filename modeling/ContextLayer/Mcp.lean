import ContextLayer.Profiles
import ContextLayer.Valsql
import ContextLayer.Lib.Machine
import Mathlib.Data.Int.ConditionallyCompleteOrder
import Mathlib.Data.Rat.Floor

/-!
# The gateway

`POST /mcp`: who is calling is asked of the identity provider on every request, the profile of the URL is held
against the roles of the answer, and every call of a tool passes the rate limit, the profile's grants and the
steward gate before the tool runs. Each call ends with a row of the audit. Calls overlap: a tool runs, and its
row is written, while others begin.
-/

namespace ContextLayer.Mcp

open Text

/-! ### Rate limits -/

inductive RateCategory where
  | read
  | validate
  | execute
  | publish
  | flagGap
  deriving DecidableEq

def RateCategory.text : RateCategory → Text
  | .read => js "read"
  | .validate => js "validate"
  | .execute => js "execute"
  | .publish => js "publish"
  | .flagGap => js "flag_gap"

/-- A limit of the environment: `intVar` takes every positive number. -/
abbrev Limit := { limit : ℚ // 0 < limit }

structure RateLimits where
  readPerMin : Limit
  validatePerMin : Limit
  executePerMin : Limit
  publishPerHour : Limit
  flagPerSession : Limit

def minute : Int := 60000

def hour : Int := 3600000

/-- `window`: how many calls, in how many milliseconds. -/
def RateLimits.limit (limits : RateLimits) : RateCategory → Limit
  | .read => limits.readPerMin
  | .validate => limits.validatePerMin
  | .execute => limits.executePerMin
  | .publish => limits.publishPerHour
  | .flagGap => limits.flagPerSession

def RateCategory.ms : RateCategory → Int
  | .read => minute
  | .validate => minute
  | .execute => minute
  | .publish => hour
  | .flagGap => hour

structure RateLimiter where
  limits : RateLimits
  buckets : List (Text × List Int)

def bucketKey (subject : Text) (category : RateCategory) : Text := subject ++ 0x00 :: category.text

def RateLimiter.bucket (limiter : RateLimiter) (subject : Text) (category : RateCategory) : List Int :=
  (Dict.get? limiter.buckets (bucketKey subject category)).getD []

/-- `none` is `allowed: true`; of a refusal, `retryAfterS`. -/
abbrev RateDecision := Option Int

/-- `Math.max(1, Math.ceil((stamps[0]! + ms - now) / 1000))`. -/
def retryAfterS (stamps : List Int) (ms now : Int) : Int :=
  max 1 ((stamps.headD 0 + ms - now + 999) / 1000)

def RateLimiter.check (limiter : RateLimiter) (subject : Text) (category : RateCategory) (now : Int) :
    RateDecision × RateLimiter :=
  let stamps := (limiter.bucket subject category).filter fun t => decide (now - t < category.ms)
  if (limiter.limits.limit category).val ≤ stamps.length then
    (some (retryAfterS stamps category.ms now),
      { limiter with buckets := Dict.set limiter.buckets (bucketKey subject category) stamps })
  else
    (none, { limiter with buckets := Dict.set limiter.buckets (bucketKey subject category) (stamps ++ [now]) })

def categoryForTool (tool : Text) : RateCategory :=
  if tool = js "validate_sql" then .validate
  else if tool = js "execute_sql" then .execute
  else if tool = js "publish_report" then .publish
  else if tool = js "flag_gap" then .flagGap
  else .read

/-! ### Identities -/

structure Identity where
  subject : Text
  roles : List Text
  display : Option Text

/-- What comes of asking the introspection endpoint about a token. -/
inductive Introspection where
  /-- Discovery, the request or the reading of its answer throws. -/
  | fails
  /-- `!response.ok`. -/
  | refused
  | payload (payload : Json)

/-- `cursor[part]`, of an object or an array. -/
def memberAt (part : Text) : Json → Option Json
  | .obj members => Dict.get? members part
  | .arr items =>
      (items.zipIdx.find? fun e => decide ((JsNumber.ofNat e.2).text = part)).map Prod.fst
  | _ => none

def claimPath (payload : Json) (dotted : Text) : Option Json :=
  (dotted.splitOn 0x2E).foldl (fun cursor part => cursor.bind (memberAt part)) (some payload)

def subjectOf (payload : Json) : Option Text :=
  ["preferred_username", "username", "sub"].findSome? fun key =>
    ((payload.field key).bind Json.asString).filter (· ≠ [])

def rolesOf (rolesClaim : Text) (payload : Json) : List Text :=
  match claimPath payload rolesClaim with
  | some (.arr claim) => claim.filterMap Json.asString
  | some (.str claim) => (claim.splitOnP fun u => isJsSpace u || u == 0x2C).filter (· ≠ [])
  | _ => []

/-- The identity a payload says is there: `active` is `true` itself, and a subject is named. -/
def identityOf (rolesClaim : Text) (payload : Json) : Option Identity :=
  match payload.field "active" with
  | some (.bool true) =>
      (subjectOf payload).map fun subject =>
        ⟨subject, rolesOf rolesClaim payload, (payload.field "name").bind Json.asString⟩
  | _ => none

inductive Resolved where
  | throws
  | nobody
  | somebody (identity : Identity)

def resolveIdentity (rolesClaim token : Text) (answer : Introspection) : Resolved :=
  if token = [] then .nobody
  else
    match answer with
    | .fails => .throws
    | .refused => .nobody
    | .payload .null => .throws
    | .payload payload =>
        match identityOf rolesClaim payload with
        | some identity => .somebody identity
        | none => .nobody

/-- The token of an `authorization` header. -/
def bearerToken (authorization : Option Text) : Text :=
  let header := authorization.getD []
  if js "Bearer " <+: header then header.drop 7 else []

/-! ### Audit records -/

inductive Decision where
  | allowed
  | denied
  | filtered
  deriving DecidableEq

structure AuditRecord where
  auditId : Text
  subject : Text
  roles : List Text
  profile : Option Text
  sessionId : Option Text
  tool : Text
  argsDigest : Text
  kbRef : Text
  snapshotRef : List (Text × Text)
  decision : Decision
  decisionReason : Option Text
  durationMs : Int
  resultMeta : Json
  statementText : Option Text
  setupStamp : Text

/-- `UNSTAMPED`. -/
def unstamped : Text := js "unstamped"

/-- `STATEMENT_TEXT_TOOLS`. -/
def statementTextTools : List Text := [js "validate_sql", js "execute_sql", js "publish_report"]

/-! ### A request -/

structure ToolCall where
  tool : Text
  args : List (Text × Json)

structure Request where
  authorization : Option Text
  /-- `profile` and `setup` of the query, where they are one text. -/
  profile : Option Text
  setup : Option Text
  sessionId : Option Text
  /-- The `name` and the `arguments` of a body that is one `tools/call`. -/
  toolCall : Option (Option Text × Option (List (Text × Json)))
  /-- What the transport hands to the handler of `tools/call`. -/
  calls : List ToolCall

structure RoleEntry where
  oidcGroup : Option Text
  visibility : List Text

/-- What a request reads of the workspace. -/
structure Workspace where
  headSha : Text
  snapshotRef : List (Text × Text)
  profiles : List (Text × List (Text × Json))
  roles : Option (List RoleEntry)

def visibilityScopes (roles : Option (List RoleEntry)) (callerRoles : List Text) : List Text :=
  match roles with
  | none => [js "**"]
  | some entries =>
      entries.flatMap fun entry =>
        match entry.oidcGroup with
        | some group => if group ≠ [] ∧ group ∈ callerRoles then entry.visibility else []
        | none => []

/-- What every call of a request sees. -/
structure CallContext where
  identity : Identity
  ws : Workspace
  profile : AgentProfile
  scopes : List Text
  sessionId : Option Text
  setupStamp : Text

inductive Connection where
  | refused (status : Nat) (row : Option AuditRecord)
  | opened (ctx : CallContext)

section

variable (P : Platform)

/-- `argsDigest`. -/
def argsDigest (args : List (Text × Json)) : Text := P.sha256Hex (canonicalJson (.obj args))

def setupStampOf (req : Request) : Text :=
  match req.setup.filter (· ≠ []) with
  | some stamp => stamp
  | none => unstamped

/-- `connectionDenied`'s row, for a body that is a call of a tool. -/
def deniedRow (req : Request) (identity : Identity) (ws : Workspace) (auditId reason : Text) :
    Option AuditRecord :=
  req.toolCall.map fun call =>
    { auditId := auditId
      subject := identity.subject
      roles := identity.roles
      profile := req.profile.filter (· ≠ [])
      sessionId := req.sessionId
      tool := call.1.getD (js "(unknown)")
      argsDigest := argsDigest P (call.2.getD [])
      kbRef := ws.headSha
      snapshotRef := ws.snapshotRef
      decision := .denied
      decisionReason := some reason
      durationMs := 0
      resultMeta := .obj []
      statementText := none
      setupStamp := setupStampOf req }

/-- The request up to the transport. `ws` is `none` where the workspace cannot be had. -/
def connect (rolesClaim : Text) (req : Request) (answer : Introspection) (ws : Option Workspace)
    (auditId : Text) : Connection :=
  match resolveIdentity rolesClaim (bearerToken req.authorization) answer with
  | .throws => .refused 503 none
  | .nobody => .refused 401 none
  | .somebody identity =>
      match ws with
      | none => .refused 503 none
      | some ws =>
          let denied := fun reason => Connection.refused 403 (deniedRow P req identity ws auditId reason)
          match req.profile.filter (· ≠ []) with
          | none => denied (js "profile query parameter required (compiled client config supplies it)")
          | some name =>
              match Dict.get? ws.profiles name with
              | none => denied (js "no profile " ++ name ++ js " in the KB")
              | some raw =>
                  let profile := parseProfile name raw
                  if profilePermitted profile identity.roles then
                    .opened
                      { identity := identity
                        ws := ws
                        profile := profile
                        scopes := visibilityScopes ws.roles identity.roles
                        sessionId := req.sessionId
                        setupStamp := setupStampOf req }
                  else
                    denied (js "roles [" ++ (js ", ").intercalate identity.roles ++
                      js "] do not permit profile " ++ name)

/-! ### A call -/

/-- The keys of `TOOL_IMPLS`. -/
def toolNames : List Text :=
  [js "search_context", js "get_entity", js "get_table", js "get_metric", js "get_lineage",
    js "validate_sql", js "execute_sql", js "publish_report", js "report_freshness", js "flag_gap",
    js "list_gaps", js "return_request"]

/-- What `TOOL_IMPLS[tool]` finds on the prototype of every object. -/
def prototypeNames : List Text :=
  [js "constructor", js "hasOwnProperty", js "isPrototypeOf", js "propertyIsEnumerable",
    js "toLocaleString", js "toString", js "valueOf", js "__defineGetter__", js "__defineSetter__",
    js "__lookupGetter__", js "__lookupSetter__", js "__proto__"]

def isImplemented (tool : Text) : Bool := decide (tool ∈ toolNames) || decide (tool ∈ prototypeNames)

/-- `STEWARD_GATED`. -/
def stewardGated : List Text := [js "list_gaps", js "return_request"]

/-- `STEWARD_PROFILES`. -/
def stewardProfiles : List Text := [js "steward", js "benchmark"]

inductive Verdict where
  | rateLimited (retryAfterS : Int)
  | denied (code reason message : Text)
  | executes

def Verdict.isExecutes : Verdict → Bool
  | .executes => true
  | _ => false

def Verdict.isRateLimited : Verdict → Bool
  | .rateLimited _ => true
  | _ => false

/-- The gates in front of a tool, in their order. -/
def verdict (profile : AgentProfile) (limit : RateDecision) (call : ToolCall) : Verdict :=
  match limit with
  | some retryAfterS => .rateLimited retryAfterS
  | none =>
      if isImplemented call.tool then
        let gate := toolAllowed profile call.tool (qualifierArg call.tool call.args)
        if gate.allowed then
          if call.tool ∈ stewardGated ∧ profile.name ∉ stewardProfiles then
            let reason := js "tool " ++ call.tool ++ js " is steward-gated (server-resolved profile " ++
              profile.name ++ js ")"
            .denied (js "permission_denied") reason reason
          else .executes
        else
          let reason := gate.reason.getD (js "outside profile allow-set")
          .denied (js "permission_denied") reason reason
      else .denied (js "not_found") (js "unknown tool") (js "unknown tool " ++ call.tool)

/-- What becomes of a tool that runs. -/
inductive ToolResult where
  | throws
  | returns (filtered : Bool) (reason : Option Text) (resultMeta : Option Json) (statementText : Option Text)

/-- `resultMeta` of `err`. -/
def errorMeta (code : Text) : Json := .obj [(js "error", .str code)]

structure Ending where
  decision : Decision
  reason : Option Text
  resultMeta : Json
  statementText : Option Text

def ending : Verdict → ToolResult → Ending
  | .rateLimited _, _ => ⟨.denied, some (js "rate_limited"), errorMeta (js "rate_limited"), none⟩
  | .denied code reason _, _ => ⟨.denied, some reason, errorMeta code, none⟩
  | .executes, .throws => ⟨.allowed, none, errorMeta (js "upstream_error"), none⟩
  | .executes, .returns filtered reason resultMeta statementText =>
      ⟨if filtered then .filtered else .allowed, if filtered then reason else none,
        resultMeta.getD (.obj []), statementText⟩

/-- A call that has begun. -/
structure Running where
  auditId : Text
  ctx : CallContext
  call : ToolCall
  started : Int
  verdict : Verdict

def Running.executes (r : Running) : Bool := r.verdict.isExecutes

/-- The call was counted by the rate limit. -/
def Running.admitted (r : Running) : Bool := !r.verdict.isRateLimited

def Running.subject (r : Running) : Text := r.ctx.identity.subject

def Running.category (r : Running) : RateCategory := categoryForTool r.call.tool

/-- The row a call ends with. -/
def Running.row (r : Running) (result : ToolResult) (now : Int) : AuditRecord :=
  let e := ending r.verdict result
  { auditId := r.auditId
    subject := r.ctx.identity.subject
    roles := r.ctx.identity.roles
    profile := some r.ctx.profile.name
    sessionId := r.ctx.sessionId
    tool := r.call.tool
    argsDigest := argsDigest P r.call.args
    kbRef := r.ctx.ws.headSha
    snapshotRef := r.ctx.ws.snapshotRef
    decision := e.decision
    decisionReason := e.reason
    durationMs := now - r.started
    resultMeta := e.resultMeta
    statementText := if r.call.tool ∈ statementTextTools then e.statementText else none
    setupStamp := r.ctx.setupStamp }

/-! ### Runs -/

/-- A request that was let through, with the answers it was let through on. -/
structure Opened where
  request : Request
  answer : Introspection
  ctx : CallContext

/-- A call that was answered: what its row came out as, and whether the row was stored. -/
structure Answered where
  running : Running
  row : AuditRecord
  written : Bool

/-- The process. `opened`, `begun`, `answered` and `drawn` are history. -/
structure State where
  limiter : RateLimiter
  clock : Int
  /-- Calls handed to the handler that have not begun. -/
  waiting : List (CallContext × ToolCall)
  running : List Running
  audit : List AuditRecord
  opened : List Opened
  begun : List Running
  answered : List Answered
  /-- Every `randomUUID()`. -/
  drawn : List Text

inductive Event where
  /-- `written` says whether the row of a refusal could be stored. -/
  | post (req : Request) (answer : Introspection) (ws : Option Workspace) (auditId : Text) (written : Bool)
  /-- The handler, up to the tool. -/
  | start (i : Nat) (auditId : Text) (now : Int)
  | finish (i : Nat) (result : ToolResult) (now : Int) (written : Bool)

/-- The call as it begins, and the limiter behind it. -/
def begin (limiter : RateLimiter) (ctx : CallContext) (call : ToolCall) (auditId : Text) (now : Int) :
    Running × RateLimiter :=
  let (limit, limiter) := limiter.check ctx.identity.subject (categoryForTool call.tool) now
  (⟨auditId, ctx, call, now, verdict ctx.profile limit call⟩, limiter)

/-- One event. Ids are fresh, and the clock does not go back. -/
def step? (rolesClaim : Text) (s : State) : Event → Option State
  | .post req answer ws auditId written =>
      if auditId ∈ s.drawn then none
      else
        match connect P rolesClaim req answer ws auditId with
        | .refused _ row =>
            some { s with audit := s.audit ++ (if written then row.toList else []), drawn := auditId :: s.drawn }
        | .opened ctx =>
            some { s with
              waiting := s.waiting ++ req.calls.map fun call => (ctx, call)
              opened := s.opened ++ [⟨req, answer, ctx⟩]
              drawn := auditId :: s.drawn }
  | .start i auditId now =>
      if auditId ∈ s.drawn ∨ now < s.clock then none
      else
        s.waiting[i]?.map fun (ctx, call) =>
          let (r, limiter) := begin s.limiter ctx call auditId now
          { s with
            limiter := limiter
            clock := now
            waiting := s.waiting.eraseIdx i
            running := s.running ++ [r]
            begun := s.begun ++ [r]
            drawn := auditId :: s.drawn }
  | .finish i result now written =>
      s.running[i]?.map fun r =>
        { s with
          running := s.running.eraseIdx i
          audit := s.audit ++ (if written then [r.row P result now] else [])
          answered := s.answered ++ [⟨r, r.row P result now, written⟩] }

/-- A process that has just started. -/
def initial (limits : RateLimits) (now : Int) : State :=
  ⟨⟨limits, []⟩, now, [], [], [], [], [], [], []⟩

def machine (rolesClaim : Text) (limits : RateLimits) (now : Int) : Machine State Event :=
  .ofStep (initial limits now) (step? P rolesClaim)

instance decidableMay (rolesClaim : Text) (limits : RateLimits) (now : Int) :
    DecidableRel (machine P rolesClaim limits now).May :=
  inferInstanceAs (DecidableRel (Machine.ofStep (initial limits now) (step? P rolesClaim)).May)

end

end ContextLayer.Mcp
