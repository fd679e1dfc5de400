import ContextLayer.References
import ContextLayer.Valsql

/-!
# Stored connections

`connections.ts`. A registration is a configuration and references to credentials. It is scanned for material
before it is stored.
-/

namespace ContextLayer.Connections

open Text Partition

/-! ### Material -/

/-- `INLINE_SECRET_KEYS`. -/
def INLINE_SECRET_KEYS : List (Text × Text) :=
  [(js "dsn", js "dsn_env"), (js "execute_dsn", js "execute_dsn_env"),
    (js "credentials", js "the payload's credentials[] references"),
    (js "client_secret", js "a credentials[] reference with key: client_secret"),
    (js "password", js "a credentials[] reference"), (js "secret", js "a credentials[] reference"),
    (js "token", js "a credentials[] reference"), (js "api_key", js "a credentials[] reference"),
    (js "private_key", js "a credentials[] reference")]

/-- What every object of the language answers to, and how that is printed. -/
def inherited : List (Text × Text) :=
  [(js "constructor", js "function Object() \x7b [native code] \x7d"), (js "__proto__", js "[object Object]")] ++
    [js "__defineGetter__", js "__defineSetter__", js "hasOwnProperty", js "__lookupGetter__",
      js "__lookupSetter__", js "isPrototypeOf", js "propertyIsEnumerable", js "toString", js "valueOf",
      js "toLocaleString"].map fun name => (name, js "function " ++ name ++ js "() \x7b [native code] \x7d")

/-- `INLINE_SECRET_KEYS[key]`. -/
def alternative (key : Text) : Option Text := Dict.get? (INLINE_SECRET_KEYS ++ inherited) key

def isLetter (u : UInt16) : Bool :=
  (decide (0x41 ≤ u) && decide (u ≤ 0x5A)) || (decide (0x61 ≤ u) && decide (u ≤ 0x7A))

def isSchemeUnit (u : UInt16) : Bool :=
  isLetter u || (decide (0x30 ≤ u) && decide (u ≤ 0x39)) || decide (u = 0x2B) || decide (u = 0x2E) ||
    decide (u = 0x2D)

/-- Neither `/`, `@` nor white space. -/
def isUserinfo (u : UInt16) : Bool := decide (u ≠ 0x2F) && decide (u ≠ 0x40) && !isJsSpace u

/-- A URI with an embedded password: a colon, with something behind it, ahead of the first `@`. -/
def hasUriPassword (s : Text) : Bool :=
  let authority := (s.dropWhile isSchemeUnit).drop 3
  s.head?.any isLetter && decide (js "://" <+: s.dropWhile isSchemeUnit) &&
    decide (((authority.dropWhile isUserinfo).head?) = some 0x40) &&
    decide (0x3A ∈ (authority.takeWhile isUserinfo).dropLast)

/-- Capitals and blanks. -/
def isLabelUnit (u : UInt16) : Bool := (decide (0x41 ≤ u) && decide (u ≤ 0x5A)) || decide (u = 0x20)

def hasPemKey (s : Text) : Bool :=
  s.tails.any fun t => decide (js "-----BEGIN " <+: t) &&
    (let rest := t.drop (js "-----BEGIN ").length
    decide (js "PRIVATE KEY" <:+ rest.takeWhile isLabelUnit) &&
      decide (js "-----" <+: rest.dropWhile isLabelUnit))

def hasKeyMember (s : Text) : Bool :=
  s.tails.any fun t => decide (js "\"private_key\"" <+: t) &&
    decide (((t.drop (js "\"private_key\"").length).dropWhile isJsSpace).head? = some 0x3A)

/-- `SECRET_SHAPES`. -/
def SECRET_SHAPES : List (Text × (Text → Bool)) :=
  [(js "a URI with an embedded password", hasUriPassword), (js "a PEM private key", hasPemKey),
    (js "a service-account key JSON", hasKeyMember)]

mutual

/-- A value under a key that is not material by its name. -/
def scanValue (here : Text) : Json → List Text
  | .str s =>
      ((SECRET_SHAPES.find? fun shape => shape.2 s).map fun shape => here ++ js " looks like " ++ shape.1 ++
        js "; connections hold references, not secrets").toList
  | .obj members => scanConfig here members
  | _ => []

/-- `scanConfig`. -/
def scanConfig (path : Text) : List (Text × Json) → List Text
  | [] => []
  | (key, value) :: rest =>
      (match alternative key with
        | some instead => [path ++ js "." ++ key ++ js " carries credential material inline; use " ++ instead ++
            js " instead"]
        | none => scanValue (path ++ js "." ++ key) value) ++ scanConfig path rest

end

/-! ### A registration -/

structure Credential where
  key : Text
  ref : Text
  requiredFor : Option (List Json)
  description : Option Text

structure ConnectionSpec where
  system : Text
  connectorName : Text
  versionConstraint : Text
  config : List (Text × Json)
  credentials : List Credential

structure PayloadRejected where
  code : Text
  message : Text
  fields : List Text

/-- `value.trim()`. -/
def trim (s : Text) : Text := strip isJsSpace s

/-- `[a-z0-9]`. -/
def isSystemHead (u : UInt16) : Bool :=
  (decide (0x61 ≤ u) && decide (u ≤ 0x7A)) || (decide (0x30 ≤ u) && decide (u ≤ 0x39))

def isSystemName (system : Text) : Bool :=
  (system.head?.any isSystemHead) && decide (system.length ≤ 63) &&
    system.all fun u => isSystemHead u || decide (u = 0x5F) || decide (u = 0x2D)

/-- `payload.credentials[i]`. -/
def credentialAt (i : Nat) : Text := js "payload.credentials[" ++ (JsNumber.ofNat i).text ++ js "]"

def forbiddenMembers : List String := ["value", "secret", "password", "content", "json", "material"]

/-- What is wrong with an entry. -/
def credentialProblems (at_ : Text) (members : List (Text × Json)) : List Text :=
  let key := ((member members "key").bind Json.asString).getD []
  let ref := ((member members "ref").bind Json.asString).getD []
  (if key = [] then [at_ ++ js ".key (the manifest's credential key) is required"] else []) ++
    (if ref = [] then
      [at_ ++ js ".ref is required and must be a reference (vault://<mount>/<path>#<field>, or env://NAME " ++
        js "— pilot-only, A-4)"]
    else if isCredentialRef ref = false then
      [at_ ++ js ".ref is not a credential reference — it must be vault://<mount>/<path>#<field>, or env://NAME " ++
        js "(pilot-only). This product stores the reference; the value lives where the resolver reads it"]
    else []) ++
    ((forbiddenMembers.filter fun name => (member members name).isSome).map fun name =>
      at_ ++ js "." ++ js name ++ js " is not a member of a credential reference") ++
    match member members "required_for" with
    | none => []
    | some (.arr _) => []
    | some _ => [at_ ++ js ".required_for must be an array of capability/mode names"]

def credentialOf (members : List (Text × Json)) : Credential where
  key := ((member members "key").bind Json.asString).getD []
  ref := ((member members "ref").bind Json.asString).getD []
  requiredFor := match member members "required_for" with
    | some (.arr items) => some items
    | _ => none
  description := (member members "description").bind Json.asString

/-- The entries from the `i`th on: what is wrong with them, and what is stored of them. -/
def readCredentials (i : Nat) : List Json → List Text × List Credential
  | [] => ([], [])
  | .obj members :: rest =>
      let (problems, credentials) := readCredentials (i + 1) rest
      (credentialProblems (credentialAt i) members ++ problems, credentialOf members :: credentials)
  | _ :: rest =>
      let (problems, credentials) := readCredentials (i + 1) rest
      ((credentialAt i ++ js " must be an object of the form \x7bkey, ref, required_for?\x7d") :: problems, credentials)

def invalidArgument (message : String) : PayloadRejected := ⟨js "invalid_argument", js message, []⟩

/-- Material, by the wording of the problem. -/
def isSecretish (problem : Text) : Bool :=
  [js "credential material", js "looks like", js "not a credential reference", js "is not a member"].any fun words =>
    decide (words <:+: problem)

/-- `readConnectionSpec`. -/
def readConnectionSpec (system : Text) (body : Json) : Except PayloadRejected ConnectionSpec :=
  if isSystemName system = false then
    .error (invalidArgument
      "system must be lowercase alphanumeric with - or _ (it names a KB directory and a webhook path)")
  else
    let connector := orElse (body.field "connector") (.obj [])
    let name := (((connector.field "name").bind Json.asString).map trim).getD []
    if name = [] then .error (invalidArgument "connector.name (non-empty string) is required")
    else
      let constraint := (((connector.field "version_constraint").bind Json.asString).map trim).getD []
      let payload := orElse (body.field "payload") (.obj [])
      match payload.field "config" with
      | some (.obj config) =>
          match orElse (payload.field "credentials") (.arr []) with
          | .arr entries =>
              let (credentialFaults, credentials) := readCredentials 0 entries
              let problems := scanConfig (js "config") config ++ credentialFaults
              if problems = [] then
                .ok ⟨system, name, if constraint = [] then js "*" else constraint, config, credentials⟩
              else if problems.any isSecretish then
                .error ⟨js "raw_secret_rejected",
                  js "a connection holds credential references only, never credential material (J-4)", problems⟩
              else .error ⟨js "invalid_argument", js "the connection payload is not well-formed", problems⟩
          | _ => .error (invalidArgument "payload.credentials must be an array")
      | _ => .error (invalidArgument "payload.config must be an object")

/-! ### What is stored -/

/-- A value inside a value, at any depth. -/
inductive Within (w : Json) : Json → Prop where
  | here : Within w w
  | item {items : List Json} {v : Json} : v ∈ items → Within w v → Within w (.arr items)
  | member {members : List (Text × Json)} {m : Text × Json} : m ∈ members → Within w m.2 → Within w (.obj members)

def isSecretKey (key : Text) : Prop := key ∈ INLINE_SECRET_KEYS.map Prod.fst

def isSecretText (s : Text) : Prop := ∃ shape ∈ SECRET_SHAPES, shape.2 s = true

/-- No material, at any depth. -/
structure Harmless (v : Json) : Prop where
  keys : ∀ members, Within (.obj members) v → ∀ m ∈ members, ¬ isSecretKey m.1
  texts : ∀ s, Within (.str s) v → ¬ isSecretText s

/-- A stored entry. -/
def Credential.json (c : Credential) : Json :=
  .obj ([(js "key", .str c.key), (js "ref", .str c.ref)] ++
    (c.requiredFor.map fun items => (js "required_for", .arr items)).toList ++
    (c.description.map fun text => (js "description", .str text)).toList)

/-- The values of a specification. -/
def ConnectionSpec.values (spec : ConnectionSpec) : List Json :=
  [.str spec.system, .str spec.connectorName, .str spec.versionConstraint, .obj spec.config] ++
    spec.credentials.map Credential.json

/-- References, never material. -/
structure ConnectionSpec.HoldsReferences (spec : ConnectionSpec) : Prop where
  harmless : ∀ v ∈ spec.values, Harmless v
  refs : ∀ c ∈ spec.credentials, isCredentialRef c.ref = true

/-! ### What is not scanned -/

mutual

/-- The arrays that objects alone lead to. -/
def arraysOf : Json → List Json
  | .arr items => [.arr items]
  | .obj members => arraysOfMembers members
  | _ => []

def arraysOfMembers : List (Text × Json) → List Json
  | [] => []
  | (_, value) :: rest => arraysOf value ++ arraysOfMembers rest

end

/-- What is copied of a credential and not looked at. -/
def unscannedOf : Json → List Json
  | .obj members =>
      let c := credentialOf members
      [.str c.key] ++ (c.requiredFor.map Json.arr).toList ++ (c.description.map Json.str).toList
  | _ => []

/-- What is copied of a registration and not looked at. -/
def unscanned (body : Json) : List Json :=
  let connector := orElse (body.field "connector") (.obj [])
  let payload := orElse (body.field "payload") (.obj [])
  [.str (((connector.field "name").bind Json.asString).map trim |>.getD []),
    .str (((connector.field "version_constraint").bind Json.asString).map trim |>.getD [])] ++
    (match payload.field "config" with
      | some config => arraysOf config
      | none => []) ++
    match orElse (payload.field "credentials") (.arr []) with
    | .arr entries => entries.flatMap unscannedOf
    | _ => []

end ContextLayer.Connections
