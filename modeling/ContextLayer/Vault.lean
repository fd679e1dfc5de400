import ContextLayer.Frontmatter
import ContextLayer.Lib.Machine
import ContextLayer.References
import Mathlib.Data.Rat.Init

/-!
# The vault behind a runner

A runner resolves the references of all its jobs with one login between them, each job on a thread of its own. The token is kept
for its lease, behind a lock that a thread holds while it logs in. What is read is not kept.
-/

namespace ContextLayer.Vault

open Text PyText Frontmatter

/-! ### Replies -/

/-- `VaultAuth`; what is not set is empty. -/
structure VaultAuth where
  roleId : PyStr
  secretId : PyStr
  /-- Of a dev server. -/
  token : PyStr

def VaultAuth.isApprole (auth : VaultAuth) : Bool := decide (auth.roleId ≠ [] ∧ auth.secretId ≠ [])

structure Config where
  addr : PyStr
  auth : VaultAuth
  unicode : Unicode

/-- What comes back of a login: an exception of the transport by its name, or a status with the token and the lease in seconds
that the body has, if it has them. -/
inductive LoginReply where
  | unreachable (exception : PyStr)
  | answered (status : Nat) (auth : Option (PyStr × ℚ))

/-- What comes back of a read; a body is what `json()` makes of it. -/
inductive ReadReply where
  | unreachable (exception : PyStr)
  | answered (status : Nat) (body : Option PyJson)

/-- The `VaultResolutionError`s. -/
inductive Failure where
  | malformed (message : PyStr)
  | unreachable (exception : PyStr)
  | loginRefused (status : Nat)
  | noClientToken
  | noSecret
  | denied
  | readFailed (status : Nat)
  | notKv2
  | deleted
  | noField
  | empty
  deriving DecidableEq

def Failure.message (cfg : Config) (ref : PyStr) (parsed : VaultRef CodePoint) (failure : Failure) : PyStr :=
  let reference := py "credential reference " ++ reprStr cfg.unicode ref
  let place := parsed.mount ++ py "/" ++ parsed.path
  match failure with
  | .malformed message => message
  | .unreachable exception => py "vault unreachable at " ++ cfg.addr ++ py ": " ++ exception
  | .loginRefused status =>
      py "vault AppRole login refused (HTTP " ++ natText status ++ py ") — the runner's own VAULT_ROLE_ID/VAULT_SECRET_ID, " ++
        py "not a connection credential"
  | .noClientToken => py "vault AppRole login returned no client_token"
  | .noSecret => reference ++ py ": no secret at " ++ place ++ py " (or it is deleted)"
  | .denied => reference ++ py ": denied by vault policy — the runner's identity may not read " ++ place
  | .readFailed status => reference ++ py ": vault read failed (HTTP " ++ natText status ++ py ")"
  | .notKv2 => reference ++ py ": vault response was not a KV v2 secret (is the mount KV version 2?)"
  | .deleted => reference ++ py ": the secret at " ++ place ++ py " has been deleted"
  | .noField => reference ++ py ": the secret at " ++ place ++ py " has no field " ++ reprStr cfg.unicode parsed.field
  | .empty => reference ++ py ": field " ++ reprStr cfg.unicode parsed.field ++ py " is empty"

/-- `value["data"]`; `none` is a `KeyError` or a `TypeError`. -/
def dataOf : PyJson → Option PyJson
  | .obj members => get members "data"
  | _ => none

/-- An expired or revoked token, or one that may not read. -/
def Refused (status : Nat) : Prop := status = 401 ∨ status = 403

instance instDecidableRefused (status : Nat) : Decidable (Refused status) := inferInstanceAs (Decidable (_ ∨ _))

/-- The rest of `resolve`, behind the last read. -/
def valueOf (unicode : Unicode) (field : PyStr) (status : Nat) (body : Option PyJson) : Except Failure PyStr :=
  if status = 404 then .error .noSecret
  else if Refused status then .error .denied
  else if 400 ≤ status then .error (.readFailed status)
  else
    match (body.bind dataOf).bind dataOf with
    | none => .error .notKv2
    | some .null => .error .deleted
    | some (.obj fields) =>
        match Dict.get? fields field with
        | none => .error .noField
        | some .null => .error .empty
        | some (.str []) => .error .empty
        | some value => .ok (str unicode value)
    | some _ => .error .noField

def outcome (cfg : Config) (parsed : VaultRef CodePoint) : ReadReply → Except Failure PyStr
  | .unreachable exception => .error (.unreachable exception)
  | .answered status body => valueOf cfg.unicode parsed.field status body

/-! ### Threads -/

/-- `RENEW_MARGIN_S`. -/
def RENEW_MARGIN_S : ℚ := 30

/-- For how long a token is used. -/
def usable (lease : ℚ) : ℚ := if lease - RENEW_MARGIN_S < 1 then 1 else lease - RENEW_MARGIN_S

/-- `_token` and `_token_expires_at`, which may be infinite. -/
structure Cached where
  token : PyStr
  expiresAt : Option ℚ

deriving instance DecidableEq for VaultRef

/-- Where a call of `resolve` stands. It goes for a token, at first for any and by `force` for a new one. -/
inductive Phase where
  | asks (parsed : VaultRef CodePoint) (force : Bool)
  /-- With the lock. -/
  | logsIn (parsed : VaultRef CodePoint) (force : Bool)
  /-- With a token that was handed out at a time. -/
  | reads (parsed : VaultRef CodePoint) (force : Bool) (token : PyStr) (since : ℚ)
  | done (result : Except Failure PyStr)
  deriving DecidableEq

structure Call where
  ref : PyStr
  phase : Phase
  deriving DecidableEq

/-- What goes over the wire, with its answer. -/
inductive Exchange where
  | login (answeredAt : ℚ) (reply : LoginReply)
  | read (token : PyStr) (since : ℚ) (reply : ReadReply)

structure State where
  now : ℚ
  cached : Option Cached
  /-- Who has the lock. -/
  holder : Option Nat
  calls : List Call
  /-- History: what every call has exchanged. -/
  log : List (Nat × Exchange)

inductive Event where
  | tick (now : ℚ)
  | resolve (ref : PyStr)
  | takeLock (i : Nat)
  | loginAnswered (i : Nat) (reply : LoginReply)
  | readAnswered (i : Nat) (reply : ReadReply)

/-! ### Steps -/

section

variable (cfg : Config)

def begin (ref : PyStr) : Phase :=
  match Sdk.parseVaultRef cfg.unicode ref with
  | .error message => .done (.error (.malformed message))
  | .ok parsed => .asks parsed false

def State.goOn (s : State) (i : Nat) (call : Call) (phase : Phase) : State :=
  { s with calls := s.calls.set i { call with phase := phase } }

/-- `self._now() < self._token_expires_at`. -/
def Cached.alive (now : ℚ) (cached : Cached) : Bool := cached.expiresAt.all fun expiresAt => decide (now < expiresAt)

/-- `_client_token` up to the login, and the login of a token that is set. -/
def State.takeLock (s : State) (i : Nat) (call : Call) (parsed : VaultRef CodePoint) (force : Bool) : State :=
  let cached := if force then none else s.cached
  match cached.filter (Cached.alive s.now) with
  | some c => s.goOn i call (.reads parsed force c.token s.now)
  | none =>
      if cfg.auth.isApprole then { s.goOn i call (.logsIn parsed force) with cached := cached, holder := some i }
      else
        { s.goOn i call (.reads parsed force cfg.auth.token s.now) with
          cached := some ⟨cfg.auth.token, none⟩ }

/-- The rest of `_client_token`. -/
def State.loginAnswered (s : State) (i : Nat) (call : Call) (parsed : VaultRef CodePoint) (force : Bool) (reply : LoginReply) :
    State :=
  let s : State := { s with holder := none, log := s.log ++ [(i, .login s.now reply)] }
  match reply with
  | .unreachable exception => s.goOn i call (.done (.error (.unreachable exception)))
  | .answered status auth =>
      if 400 ≤ status then s.goOn i call (.done (.error (.loginRefused status)))
      else
        match auth with
        | none => s.goOn i call (.done (.error .noClientToken))
        | some (token, lease) =>
            { s.goOn i call (.reads parsed force token s.now) with cached := some ⟨token, some (s.now + usable lease)⟩ }

/-- A refusal is believed the second time. -/
def State.readAnswered (s : State) (i : Nat) (call : Call) (parsed : VaultRef CodePoint) (force : Bool) (token : PyStr)
    (since : ℚ) (reply : ReadReply) : State :=
  let s : State := { s with log := s.log ++ [(i, .read token since reply)] }
  match force, reply with
  | false, .answered status body =>
      if Refused status then s.goOn i call (.asks parsed true)
      else s.goOn i call (.done (valueOf cfg.unicode parsed.field status body))
  | _, reply => s.goOn i call (.done (outcome cfg parsed reply))

/-- One event. The clock does not go back, and the lock is taken when it is free. -/
def step? (s : State) : Event → Option State
  | .tick now => if now < s.now then none else some { s with now := now }
  | .resolve ref => some { s with calls := s.calls ++ [⟨ref, begin cfg ref⟩] }
  | .takeLock i => s.calls[i]?.bind fun call =>
      match call.phase, s.holder with
      | .asks parsed force, none => some (s.takeLock cfg i call parsed force)
      | _, _ => none
  | .loginAnswered i reply => s.calls[i]?.bind fun call =>
      match call.phase with
      | .logsIn parsed force => some (s.loginAnswered i call parsed force reply)
      | _ => none
  | .readAnswered i reply => s.calls[i]?.bind fun call =>
      match call.phase with
      | .reads parsed force token since => some (s.readAnswered cfg i call parsed force token since reply)
      | _ => none

def initial (now : ℚ) : State := ⟨now, none, none, [], []⟩

def machine (now : ℚ) : Machine State Event := .ofStep (initial now) (step? cfg)

instance decidableMay (now : ℚ) : DecidableRel (machine cfg now).May :=
  inferInstanceAs (DecidableRel (Machine.ofStep (initial now) (step? cfg)).May)

end

end ContextLayer.Vault
