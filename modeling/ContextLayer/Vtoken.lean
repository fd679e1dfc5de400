import ContextLayer.Platform

/-!
# Validation tokens

A token is a header naming a signing key, a payload stating what was validated, and an HMAC over
both. `issueValidationToken` writes one, `verifyValidationToken` reads one back against what the
caller is about to execute. The keys are rows of `signing_keys`; rotation inserts a row, and a row
that is no longer active still verifies the tokens it signed.
-/

namespace ContextLayer

open Text

/-- A row of `signing_keys`. -/
structure SigningKey where
  kid : Text
  secret : Text
  active : Bool
  createdAt : Nat
  deriving DecidableEq

/-- The table. `kid` is its primary key. -/
structure KeyTable where
  keys : List SigningKey
  primaryKey : (keys.map (·.kid)).Nodup

namespace KeyTable

def empty : KeyTable := ⟨[], List.nodup_nil⟩

/-- `INSERT INTO signing_keys`, which fails on a `kid` already there. -/
def insert (table : KeyTable) (row : SigningKey) : Option KeyTable :=
  if h : row.kid ∈ table.keys.map (·.kid) then none
  else some
    { keys := table.keys ++ [row]
      primaryKey := by
        rw [List.map_append, List.map_singleton]
        exact List.nodup_append.mpr ⟨table.primaryKey, by simp, by
          intro kid hkid kid' hkid' heq
          obtain rfl : kid' = row.kid := by simpa using hkid'
          exact h (heq ▸ hkid)⟩ }

/-- `UPDATE signing_keys SET active = false WHERE kid = $1`. -/
def deactivate (table : KeyTable) (kid : Text) : KeyTable where
  keys := table.keys.map fun key => if key.kid = kid then { key with active := false } else key
  primaryKey := by
    have hkids : (table.keys.map fun key =>
        if key.kid = kid then { key with active := false } else key).map (·.kid)
        = table.keys.map (·.kid) := by
      rw [List.map_map]
      refine List.map_congr_left fun key _ => ?_
      simp only [Function.comp_apply]
      split <;> rfl
    rw [hkids]
    exact table.primaryKey

end KeyTable

/-- What `validate_sql` vouches for. -/
structure Binding where
  statementSha256 : Text
  system : Text
  snapshotRef : Text
  subject : Text
  profile : Text
  objects : List Text
  deriving DecidableEq

/-- The payload of an issued token. Its version is `1` throughout. -/
@[ext]
structure VtokenPayload where
  statementSha256 : Text
  system : Text
  snapshotRef : Text
  subject : Text
  profile : Text
  objects : List Text
  iat : Nat
  exp : Nat
  deriving DecidableEq

/-! ### Issuing -/

/-- The newest active key. -/
def newestActive (keys : List SigningKey) : Option SigningKey :=
  (keys.filter (·.active)).foldl
    (fun best key =>
      match best with
      | none => some key
      | some b => if b.createdAt < key.createdAt then some key else some b)
    none

/-- The key to sign with and the table after: the newest active key, or else a fresh row, inserted.
`none` when the insert fails. -/
def activeKey (table : KeyTable) (fresh : SigningKey) : Option (SigningKey × KeyTable) :=
  match newestActive table.keys with
  | some key => some (key, table)
  | none => (table.insert fresh).map fun after => (fresh, after)

/-- `[...binding.objects].sort()`. -/
def sortTexts (texts : List Text) : List Text := texts.insertionSort (· ≤ ·)

def Binding.payload (binding : Binding) (ttlS now : Nat) : VtokenPayload where
  statementSha256 := binding.statementSha256
  system := binding.system
  snapshotRef := binding.snapshotRef
  subject := binding.subject
  profile := binding.profile
  objects := sortTexts binding.objects
  iat := now / 1000
  exp := now / 1000 + ttlS

/-- The number `1`. -/
def jsOne : JsNumber := ⟨[0x31], by simp, by simp [isNumeric]⟩

def headerJson (kid : Text) : Json :=
  .obj [(js "alg", .str (js "HS256")), (js "kid", .str kid)]

def VtokenPayload.json (payload : VtokenPayload) : Json :=
  .obj [(js "v", .num jsOne), (js "statement_sha256", .str payload.statementSha256),
    (js "system", .str payload.system), (js "snapshot_ref", .str payload.snapshotRef),
    (js "subject", .str payload.subject), (js "profile", .str payload.profile),
    (js "objects", .arr (payload.objects.map .str)), (js "iat", .num (.ofNat payload.iat)),
    (js "exp", .num (.ofNat payload.exp))]

section

variable (P : Platform)

/-- The HMAC of a signing input. -/
def sign (secret signingInput : Text) : List UInt8 := P.hmac (utf8 secret) (utf8 signingInput)

/-- `header.body.signature`. -/
def makeToken (key : SigningKey) (payload : VtokenPayload) : Text :=
  let header := b64url (stringify (headerJson key.kid))
  let body := b64url (stringify payload.json)
  header ++ js "." ++ body ++ js "." ++ Base64Url.encode (sign P key.secret (header ++ js "." ++ body))

structure IssuedToken where
  token : Text
  /-- `payload.exp * 1000`, the instant `expiresAt` prints. -/
  expiresAt : Nat
  deriving DecidableEq

/-- `issueValidationToken`, with the table after it. `fresh` is the row inserted when no key is
active. -/
def issueValidationToken (table : KeyTable) (fresh : SigningKey) (binding : Binding)
    (ttlS now : Nat) : Option (IssuedToken × KeyTable) :=
  let payload := binding.payload ttlS now
  (activeKey table fresh).map fun (key, after) =>
    ({ token := makeToken P key payload, expiresAt := payload.exp * 1000 }, after)

/-! ### Verifying -/

inductive VerifyResult where
  | ok (payload : Json)
  | revalidateRequired (reason : Text)
  /-- An allow-set member the caller may no longer see. -/
  | notFound (reason : Text) (hidden : List Text)
  /-- A property of `null` or a method of a non-string: the call throws. -/
  | threw

def VerifyResult.isOk : VerifyResult → Bool
  | .ok _ => true
  | _ => false

/-- What the caller is about to execute. -/
structure Expected where
  statementSha256 : Text
  system : Text
  subject : Text
  currentSnapshotRef : Text
  visible : Text → Bool

def keyByKid (table : KeyTable) (kid : Text) : Option Text :=
  (table.keys.find? fun key => decide (key.kid = kid)).map (·.secret)

/-- `value.key === text`. -/
def fieldIs (value : Json) (key : String) (text : Text) : Bool :=
  (value.field key).bind Json.asString == some text

/-- The last check: the allow-set, absent from tokens that predate it. -/
def checkAllowSet (payload : Json) (visible : Text → Bool) : VerifyResult :=
  match payload.field "objects" with
  | some (.arr objects) =>
    match objects.mapM Json.asString with
    | none => .threw
    | some fqns =>
      let hidden := fqns.filter fun fqn => !visible fqn
      if hidden ≠ [] then
        .notFound (js "hidden by visibility map: " ++ (js ", ").intercalate hidden) hidden
      else .ok payload
  | _ => .revalidateRequired (js "token carries no object allow-set")

/-- The checks on a payload whose signature is right. -/
def checkPayload (payload : Json) (expected : Expected) (now : Nat) : VerifyResult :=
  match payload with
  | .null => .threw
  | payload =>
    match payload.field "v" with
    | some (.num n) =>
      if n ≠ jsOne then .revalidateRequired (js "unknown token version")
      else if P.ge (now / 1000) (payload.field "exp") then
        .revalidateRequired (js "token expired")
      else if !fieldIs payload "statement_sha256" expected.statementSha256 then
        .revalidateRequired (js "statement does not match the validated statement")
      else if !fieldIs payload "subject" expected.subject then
        .revalidateRequired (js "token bound to a different subject")
      else if !fieldIs payload "system" expected.system then
        .revalidateRequired (js "token bound to a different system")
      else if !fieldIs payload "snapshot_ref" expected.currentSnapshotRef then
        .revalidateRequired (js "snapshot advanced since validation")
      else checkAllowSet payload expected.visible
    | _ => .revalidateRequired (js "unknown token version")

/-- The three parts, decoded. -/
structure TokenParts where
  part0 : Text
  part1 : Text
  part2 : Text
  header : Json
  payload : Json

/-- The key lookup and the signature check. -/
def checkSignature (table : KeyTable) (parts : TokenParts) (expected : Expected) (now : Nat) :
    VerifyResult :=
  match parts.header with
  | .null => .threw
  | header =>
    match fieldIs header "alg" (js "HS256"), (header.field "kid").bind Json.asString with
    | true, some kid =>
      match (keyByKid table kid).filter (· ≠ []) with
      | none => .revalidateRequired (js "unknown signing key")
      | some secret =>
        if Base64Url.decode parts.part2 = sign P secret (parts.part0 ++ js "." ++ parts.part1) then
          checkPayload P parts.payload expected now
        else .revalidateRequired (js "signature mismatch")
    | _, _ => .revalidateRequired (js "malformed token header")

/-- `token.split(".")` and `JSON.parse` of the first two parts. -/
def tokenParts (token : Text) : Option TokenParts :=
  match token.splitOn 0x2E with
  | [part0, part1, part2] =>
    match P.parse (ofB64url part0), P.parse (ofB64url part1) with
    | some header, some payload => some ⟨part0, part1, part2, header, payload⟩
    | _, _ => none
  | _ => none

def verifyValidationToken (table : KeyTable) (token : Text) (expected : Expected) (now : Nat) :
    VerifyResult :=
  match tokenParts P token with
  | none => .revalidateRequired (js "malformed token")
  | some parts => checkSignature P table parts expected now

/-! ### Histories -/

/-- One successful call of `issueValidationToken`. -/
structure Issue where
  binding : Binding
  ttlS : Nat
  now : Nat
  /-- The key that was active. -/
  key : SigningKey
  token : Text

def Issue.payload (issue : Issue) : VtokenPayload := issue.binding.payload issue.ttlS issue.now

/-- The key table and the tokens handed out so far. -/
structure TokenStore where
  table : KeyTable
  issued : List Issue

def TokenStore.empty : TokenStore := ⟨.empty, []⟩

/-- An issue call, or an operator's statement on `signing_keys`. Keys are never deleted. -/
inductive TokenEvent where
  | insertKey (row : SigningKey)
  | deactivateKey (kid : Text)
  | issue (fresh : SigningKey) (binding : Binding) (ttlS now : Nat)

namespace TokenStore

def issue (store : TokenStore) (fresh : SigningKey) (binding : Binding) (ttlS now : Nat) :
    TokenStore :=
  match activeKey store.table fresh, issueValidationToken P store.table fresh binding ttlS now with
  | some (key, _), some (issued, after) =>
      { table := after, issued := store.issued ++ [⟨binding, ttlS, now, key, issued.token⟩] }
  | _, _ => store

/-- A statement that fails changes nothing. -/
def step (store : TokenStore) : TokenEvent → TokenStore
  | .insertKey row => { store with table := (store.table.insert row).getD store.table }
  | .deactivateKey kid => { store with table := store.table.deactivate kid }
  | .issue fresh binding ttlS now => store.issue P fresh binding ttlS now

def run (events : List TokenEvent) : TokenStore := events.foldl (step P) empty

end TokenStore

end

end ContextLayer
