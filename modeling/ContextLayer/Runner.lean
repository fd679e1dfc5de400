import ContextLayer.Frontmatter
import ContextLayer.PyText

/-!
# The runner

`connectors/sdk/service.py`. The credentials of a job are placed in the environment of the runner's process, one
after the other, and the connector is told the names of the variables.
-/

namespace ContextLayer.Sdk

open Text PyText Frontmatter

/-- An exception: the name of its type, and its text. -/
structure Raised where
  type : PyStr
  text : PyStr

inductive Failure where
  /-- A `VaultResolutionError`. -/
  | vault (text : PyStr)
  | error (e : Raised)

def Failure.raised : Failure → Raised
  | .vault text => ⟨py "VaultResolutionError", text⟩
  | .error e => e

structure JobError where
  code : PyStr
  message : PyStr
  retryable : Bool
  detail : Option Members

inductive JobOutcome where
  | snapshot (serialized : List UInt8)
  | result (value : PyJson)
  | deferred (retryAfter : ℤ) (error : JobError)
  | failed (error : JobError)

/-! ### The wire -/

/-- A call of the core, with the secrets its value is scrubbed of. A snapshot goes out as it was serialized. -/
inductive Call where
  | start
  | fail (error : JobError) (secrets : List PyStr)
  | complete (result : PyJson) (secrets : List PyStr)
  | completeSnapshot (serialized : List UInt8)
  | defer (retryAfter : ℤ) (code message : PyStr) (secrets : List PyStr)

/-- The scrub set of an outgoing result or error. -/
def Call.scrubSet : Call → Option (List PyStr)
  | .fail _ secrets | .complete _ secrets | .defer _ _ _ secrets => some secrets
  | .start | .completeSnapshot _ => none

structure Request where
  jobId : PyStr
  leaseToken : PyStr
  call : Call

inductive Reply where
  | ok (cancelRequested : Bool)
  /-- A `ProtocolError`: also a lost lease, or a delivery that is rejected. -/
  | refused
  | raises (failure : Failure)

structure World where
  environ : PyStr → Option PyStr
  requests : List Request
  /-- The variables that were set. -/
  placed : List PyStr
  /-- The values that were resolved. -/
  resolved : List PyStr

/-- What a call of the runner starts from. -/
def World.begin (environ : PyStr → Option PyStr) : World := ⟨environ, [], [], []⟩

/-- `os.environ[var] = value`. -/
def World.place (w : World) (var value : PyStr) : World :=
  { w with environ := Function.update w.environ var (some value), placed := w.placed ++ [var] }

/-- `os.environ.pop(var, None)`, for every `var`. -/
def World.popAll (w : World) (vars : List PyStr) : World :=
  { w with environ := vars.foldl (fun environ var => Function.update environ var none) w.environ }

/-! ### What the runner is given -/

structure JobRecord where
  jobId : PyStr
  leaseToken : PyStr
  connector : PyStr
  type : PyStr
  config : Members
  credentials : Option PyJson
  payload : Members

/-- How the wait for the worker ends, with the lease token the heartbeats left. -/
inductive Watch where
  | finished (token : PyStr) (outcome : Option JobOutcome)
  | lost
  | cancelled (token : PyStr)
  | raises (failure : Failure)

structure Connector where
  /-- The `query` handler's preflight. -/
  query : Option (Members → (PyStr → Option PyStr) → Except Failure PyJson)
  work : JobRecord → Members → (PyStr → Option PyStr) → Watch

structure PreflightEntry where
  connector : PyStr
  config : Members
  credentials : Option PyJson

/-- The process: its generator of names, its vault, and what `os.environ` does not take. The resolutions of the
`n`th injection are numbered. -/
structure Host where
  uuid : Nat → Nat → PyStr
  vault : Nat → Nat → PyJson → Except Failure PyStr
  refuses : PyStr → Option Raised

structure Runner where
  runnerId : PyStr
  connectors : List (PyStr × Connector)
  executionRefused : List (PyStr × PyStr)
  executionPreflight : List PreflightEntry
  redactText : PyStr → PyStr

/-! ### Credentials -/

/-- `CREDENTIAL_CONFIG_KEYS`. -/
def CREDENTIAL_CONFIG_KEYS : List (PyStr × PyStr) :=
  [(py "dsn", py "dsn_env"), (py "execute_dsn", py "execute_dsn_env"),
    (py "service_account", py "credentials_env"), (py "client_secret", py "client_secret_env")]

/-- `key.upper()`, of the keys above. -/
def upper (key : PyStr) : PyStr := key.map fun
  | .unit u => if 0x61 ≤ u ∧ u ≤ 0x7A then .unit (u - 0x20) else .unit u
  | p => p

/-- The name of a job-scoped variable. -/
def credentialVar (uuid key : PyStr) : PyStr := py "CL_CRED_" ++ (uuid ++ (py "_" ++ upper key))

/-- `type(value).__name__`. -/
def typeName : PyJson → PyStr
  | .null => py "NoneType"
  | .bool _ => py "bool"
  | .number n => if n.text.text.all fun u => u != 0x2E && u != 0x65 then py "int" else py "float"
  | .nonFinite _ => py "float"
  | .str _ => py "str"
  | .arr _ => py "list"
  | .obj _ => py "dict"

def unknownKey (unicode : Unicode) (key : PyJson) : Failure :=
  .vault (py "credential key " ++ repr unicode key ++ py " unknown to this runner (known: " ++
    repr unicode (.arr [.str (py "client_secret"), .str (py "dsn"), .str (py "execute_dsn"),
      .str (py "service_account")]) ++ py ")")

/-- The configuration field of a credential's key, with the key. -/
def configKey (unicode : Unicode) : PyJson → Except Failure (PyStr × PyStr)
  | .str key =>
      match Dict.get? CREDENTIAL_CONFIG_KEYS key with
      | some field => .ok (key, field)
      | none => .error (unknownKey unicode (.str key))
  | .arr items => .error (.error ⟨py "TypeError", py "unhashable type: '" ++ typeName (.arr items) ++ py "'"⟩)
  | .obj members => .error (.error ⟨py "TypeError", py "unhashable type: '" ++ typeName (.obj members) ++ py "'"⟩)
  | key => .error (unknownKey unicode key)

/-- One entry, as far as its value: the key, its configuration field and the value. -/
def resolveEntry (unicode : Unicode) (vault : PyJson → Except Failure PyStr) :
    PyJson → Except Failure (PyStr × PyStr × PyStr)
  | .obj members =>
      match get members "ref", get members "key" with
      | some ref, some key =>
          if ref.truthy = true ∧ key.truthy = true then
            match configKey unicode key with
            | .error failure => .error failure
            | .ok (key, field) =>
                match vault ref with
                | .error failure => .error failure
                | .ok value => .ok (key, field, value)
          else .error (.vault (py "credential entry must carry both 'ref' and 'key'"))
      | _, _ => .error (.vault (py "credential entry must carry both 'ref' and 'key'"))
  | entry =>
      .error (.error ⟨py "AttributeError", py "'" ++ typeName entry ++ py "' object has no attribute 'get'"⟩)

/-- What `_inject_credentials` returns, and the configuration it leaves. -/
structure Injected where
  envNames : List PyStr
  secrets : List PyStr
  config : Members

/-- The loop of `_inject_credentials`, from the `k`th entry on. -/
def injectFrom (unicode : Unicode) (host : Host) (n k : Nat) : List PyJson → Injected → World →
    Except Failure Injected × World
  | [], acc, w => (.ok acc, w)
  | entry :: rest, acc, w =>
      match resolveEntry unicode (host.vault n k) entry with
      | .error failure => (.error failure, w)
      | .ok (key, field, value) =>
          let var := credentialVar (host.uuid n k) key
          let w := { w with resolved := w.resolved ++ [value] }
          match host.refuses value with
          | some e => (.error (.error e), w)
          | none =>
              injectFrom unicode host n (k + 1) rest
                ⟨acc.envNames ++ [var], acc.secrets ++ [value], Dict.set acc.config field (.str var)⟩
                (w.place var value)

/-- `_inject_credentials`, the `n`th of the call. -/
def injectCredentials (unicode : Unicode) (host : Host) (n : Nat) (credentials : Option PyJson) (config : Members)
    (w : World) : Except Failure Injected × World :=
  match PyJson.iterateOr credentials with
  | none =>
      (.error (.error ⟨py "TypeError", py "'" ++ typeName (credentials.getD .null) ++ py "' object is not iterable"⟩), w)
  | some entries => injectFrom unicode host n 0 entries ⟨[], [], config⟩ w

/-! ### A job -/

/-- The core, as it answers the `n`th request of the call. -/
abbrev Client := Nat → Reply

def World.request (w : World) (client : Client) (jobId leaseToken : PyStr) (call : Call) : Reply × World :=
  (client w.requests.length, { w with requests := w.requests ++ [⟨jobId, leaseToken, call⟩] })

/-- One call, of which only what is no `ProtocolError` is raised. -/
def send (client : Client) (jobId leaseToken : PyStr) (call : Call) (w : World) : Option Failure × World :=
  match w.request client jobId leaseToken call with
  | (.raises failure, w) => (some failure, w)
  | (_, w) => (none, w)

/-- `_fail`; a failure is what escapes it. -/
def fail (client : Client) (jobId leaseToken : PyStr) (error : JobError) (secrets : List PyStr) (w : World) :
    Option Failure × World :=
  send client jobId leaseToken (.fail error secrets) w

/-- `_CANCELLED_ERROR`. -/
def CANCELLED_ERROR : JobError :=
  ⟨py "cancelled", py "cancelled by producer request", false, none⟩

/-- `_deliver`. -/
def deliver (client : Client) (jobId leaseToken : PyStr) (outcome : Option JobOutcome) (secrets : List PyStr)
    (w : World) : Option Failure × World :=
  match outcome with
  | none =>
      fail client jobId leaseToken ⟨py "internal", py "connector worker produced no outcome", true, none⟩ secrets w
  | some (.snapshot serialized) => send client jobId leaseToken (.completeSnapshot serialized) w
  | some (.result value) => send client jobId leaseToken (.complete value secrets) w
  | some (.deferred retryAfter error) =>
      send client jobId leaseToken (.defer retryAfter error.code error.message secrets) w
  | some (.failed error) => fail client jobId leaseToken error secrets w

/-- The work of a job whose credentials are placed. -/
def serve (client : Client) (connector : Connector) (job : JobRecord) (injected : Injected) (w : World) :
    Option Failure × World :=
  match w.request client job.jobId job.leaseToken .start with
  | (.refused, w) => (none, w)
  | (.raises failure, w) => (some failure, w)
  | (.ok true, w) => fail client job.jobId job.leaseToken CANCELLED_ERROR injected.secrets w
  | (.ok false, w) =>
      match connector.work job injected.config w.environ with
      | .lost => (none, w)
      | .raises failure => (some failure, w)
      | .cancelled token => fail client job.jobId token CANCELLED_ERROR injected.secrets w
      | .finished token outcome => deliver client job.jobId token outcome injected.secrets w

/-- A vault-stage failure: the job is started, and failed. -/
def failVault (client : Client) (job : JobRecord) (text : PyStr) (secrets : List PyStr) (w : World) :
    Option Failure × World :=
  match w.request client job.jobId job.leaseToken .start with
  | (.refused, w) => (none, w)
  | (.raises failure, w) => (some failure, w)
  | (.ok _, w) =>
      fail client job.jobId job.leaseToken
        ⟨py "auth_error", text, false, some [(py "stage", .str (py "vault"))]⟩ secrets w

/-- `except Exception`. -/
def isolate (client : Client) (job : JobRecord) (secrets : List PyStr) :
    Option Failure × World → Option Failure × World
  | (none, w) => (none, w)
  | (some failure, w) =>
      fail client job.jobId job.leaseToken
        ⟨py "internal", py "runner-side failure handling the job (" ++ failure.raised.type ++ py ")", true, none⟩
        secrets w

/-- `finally`. -/
def cleanUp (envNames : List PyStr) (run : Option Failure × World) : Option Failure × World :=
  (run.1, run.2.popAll envNames)

/-- `EXECUTABLE_TYPES`. -/
def EXECUTABLE_TYPES : List PyStr := [py "snapshot", py "execute", py "publish", py "test_connection"]

/-- Why a job is refused before its credentials are looked at. -/
def Runner.refusal (unicode : Unicode) (runner : Runner) (job : JobRecord) : Connector ⊕ JobError :=
  match (if job.type = py "execute" then Dict.get? runner.executionRefused job.connector else none) with
  | some reason =>
      .inr ⟨py "config_error", py "this runner refuses to serve execution for " ++
        reprStr unicode job.connector ++ py ": " ++ reason, false, none⟩
  | none =>
      match Dict.get? runner.connectors job.connector with
      | some connector =>
          if job.type ∈ EXECUTABLE_TYPES then .inl connector
          else .inr ⟨py "config_error", py "runner " ++ runner.runnerId ++ py " cannot execute type=" ++
            reprStr unicode job.type ++ py " connector=" ++ reprStr unicode job.connector, false, none⟩
      | none =>
          .inr ⟨py "config_error", py "runner " ++ runner.runnerId ++ py " cannot execute type=" ++
            reprStr unicode job.type ++ py " connector=" ++ reprStr unicode job.connector, false, none⟩

/-- `Runner.execute`; a failure is what it raises. -/
def Runner.execute (unicode : Unicode) (host : Host) (client : Client) (runner : Runner) (job : JobRecord)
    (w : World) : Option Failure × World :=
  match runner.refusal unicode job with
  | .inr error => fail client job.jobId job.leaseToken error [] w
  | .inl connector =>
      match injectCredentials unicode host 0 job.credentials job.config w with
      -- The assignment of the two lists is not reached.
      | (.error (.vault text), w) => cleanUp [] (isolate client job [] (failVault client job text [] w))
      | (.error failure, w) => cleanUp [] (isolate client job [] (some failure, w))
      | (.ok injected, w) =>
          cleanUp injected.envNames (isolate client job injected.secrets (serve client connector job injected w))

/-! ### The preflight of execution -/

/-- One configured entry, the `n`th: why execution is refused. -/
def Runner.preflightEntry (unicode : Unicode) (host : Host) (runner : Runner) (n : Nat) (entry : PreflightEntry)
    (w : World) : Option PyStr × World :=
  let name := reprStr unicode entry.connector
  match Dict.get? runner.connectors entry.connector with
  | none => (some (py "connector " ++ name ++ py " is not hosted by this runner"), w)
  | some connector =>
      match connector.query with
      | none => (some (py "connector " ++ name ++ py " declares no query capability"), w)
      | some preflight =>
          match injectCredentials unicode host n entry.credentials entry.config w with
          | (.error failure, w) => (some (runner.redactText failure.raised.text), w.popAll [])
          | (.ok injected, w) =>
              match preflight injected.config w.environ with
              | .error failure => (some (runner.redactText failure.raised.text), w.popAll injected.envNames)
              | .ok _ => (none, w.popAll injected.envNames)

/-- The loop of `preflight_execution`, from the `n`th entry on. -/
def Runner.preflightFrom (unicode : Unicode) (host : Host) (runner : Runner) (n : Nat) :
    List PreflightEntry → List (PyStr × PyStr) → World → List (PyStr × PyStr) × World
  | [], refused, w => (refused, w)
  | entry :: rest, refused, w =>
      match runner.preflightEntry unicode host n entry w with
      | (none, w) => runner.preflightFrom unicode host (n + 1) rest refused w
      | (some reason, w) =>
          runner.preflightFrom unicode host (n + 1) rest (Dict.set refused entry.connector reason) w

/-- `preflight_execution`: what is refused, and the runner that refuses it. -/
def Runner.preflightExecution (unicode : Unicode) (host : Host) (runner : Runner) (w : World) :
    List (PyStr × PyStr) × Runner × World :=
  let (refused, w) := runner.preflightFrom unicode host 0 runner.executionPreflight [] w
  (refused, { runner with executionRefused := refused }, w)

/-! ### Credentials that do not outlive the job -/

/-- No variable that was set is set, and every value that was resolved is in each scrub set. -/
structure World.Clean (w : World) : Prop where
  environ : ∀ var ∈ w.placed, w.environ var = none
  scrubbed : ∀ request ∈ w.requests, ∀ secrets, request.call.scrubSet = some secrets →
    ∀ value ∈ w.resolved, value ∈ secrets

/-- The value of an entry is resolved, and the environment takes it. -/
def Places (unicode : Unicode) (host : Host) (n k : Nat) (entry : PyJson) : Prop :=
  ∃ key field value, resolveEntry unicode (host.vault n k) entry = .ok (key, field, value) ∧
    host.refuses value = none

def PlacesAll (unicode : Unicode) (host : Host) (n : Nat) (entries : List PyJson) : Prop :=
  ∀ k entry, entries[k]? = some entry → Places unicode host n k entry

/-- All entries of a job are placed, or the first is not even resolved. -/
def AllOrNone (unicode : Unicode) (host : Host) (credentials : Option PyJson) : Prop :=
  ∀ entries, PyJson.iterateOr credentials = some entries →
    PlacesAll unicode host 0 entries ∨
      ∀ entry ∈ entries.head?, ∃ failure, resolveEntry unicode (host.vault 0 0) entry = .error failure

/-- All entries of the `n`th injection are placed, or the first is not. -/
def AllOrFirst (unicode : Unicode) (host : Host) (n : Nat) (credentials : Option PyJson) : Prop :=
  ∀ entries, PyJson.iterateOr credentials = some entries →
    PlacesAll unicode host n entries ∨ ∀ entry ∈ entries.head?, ¬ Places unicode host n 0 entry

/-- The connector of a configured entry is hosted, and answers queries. -/
def Runner.Preflights (runner : Runner) (entry : PreflightEntry) : Prop :=
  ∃ connector preflight, Dict.get? runner.connectors entry.connector = some connector ∧
    connector.query = some preflight

/-- `uuid4().hex` is of one length, and no two of one call's preflights draw the same. -/
structure Host.Fresh (host : Host) (runner : Runner) : Prop where
  length : ∀ n k, (host.uuid n k).length = 32
  injective : ∀ n k n' k', n < runner.executionPreflight.length → n' < runner.executionPreflight.length →
    host.uuid n k = host.uuid n' k' → n = n'

end ContextLayer.Sdk
