import ContextLayer.Lib.Partition
import ContextLayer.PyText

/-!
# Credential references

`vault://<mount>/<path>#<field>` is read in three places: by the core, by a runner, and by the form that stores
a connection.
-/

namespace ContextLayer

open Text Partition

/-- A `VaultRef`, in the core's text or in the runner's. -/
structure VaultRef (α : Type) where
  mount : List α
  path : List α
  field : List α

def VaultRef.map {α β : Type} (f : List α → List β) (r : VaultRef α) : VaultRef β :=
  ⟨f r.mount, f r.path, f r.field⟩

/-! ### In the core -/

/-- `VAULT_SCHEME`. -/
def VAULT_SCHEME : Text := js "vault://"

/-- `parseVaultRef`; an error is the message of the `VaultError`. -/
def parseVaultRef (ref : Text) : Except Text (VaultRef UInt16) :=
  if VAULT_SCHEME <+: ref then
    match cut 0x23 (ref.drop VAULT_SCHEME.length) with
    | none =>
        .error (ref ++ js ": no #field — a KV v2 secret is a map, so the reference has to " ++
          js "say which key it means")
    | some (location, field) =>
        let (mount, path) := ((cut 0x2F location).map fun parts =>
          (parts.1, strip (fun u => decide (u = 0x2F)) parts.2)).getD ([], [])
        if mount = [] ∨ path = [] ∨ field = [] then
          .error (ref ++ js ": expected " ++ VAULT_SCHEME ++ js "<mount>/<path>#<field>")
        else .ok ⟨mount, path, field⟩
  else .error (ref ++ js ": not a " ++ VAULT_SCHEME ++ js " reference")

/-- `[A-Za-z0-9_]`. -/
def isWord (u : UInt16) : Bool :=
  (decide (0x41 ≤ u) && decide (u ≤ 0x5A)) || (decide (0x61 ≤ u) && decide (u ≤ 0x7A)) ||
    (decide (0x30 ≤ u) && decide (u ≤ 0x39)) || decide (u = 0x5F)

/-- `[A-Za-z0-9_.\-]`. -/
def isFieldUnit (u : UInt16) : Bool := isWord u || decide (u = 0x2E) || decide (u = 0x2D)

/-- `[A-Za-z0-9_.\-\x2F]`. -/
def isLocationUnit (u : UInt16) : Bool := isFieldUnit u || decide (u = 0x2F)

/-- What `CREDENTIAL_REF` asks for behind the scheme. -/
def isReferenceBody (body : Text) : Bool :=
  (body.head?.any isWord) &&
    match body.dropWhile isLocationUnit with
    | [] => true
    | u :: field => decide (u = 0x23) && !field.isEmpty && field.all isFieldUnit

/-- `CREDENTIAL_REF.test`. -/
def isCredentialRef (ref : Text) : Bool :=
  (decide (js "env://" <+: ref) && isReferenceBody (ref.drop (js "env://").length)) ||
    (decide (VAULT_SCHEME <+: ref) && isReferenceBody (ref.drop VAULT_SCHEME.length))

/-! ### In a runner -/

namespace Sdk

open PyText

/-- `str.isspace`, of one character. -/
def isSpace : CodePoint → Bool
  | .pair _ _ _ _ => false
  | .unit u =>
      (decide (0x09 ≤ u) && decide (u ≤ 0x0D)) || (decide (0x1C ≤ u) && decide (u ≤ 0x20)) ||
        decide (u = 0x85) || decide (u = 0xA0) || decide (u = 0x1680) ||
        (decide (0x2000 ≤ u) && decide (u ≤ 0x200A)) || decide (u = 0x2028) || decide (u = 0x2029) ||
        decide (u = 0x202F) || decide (u = 0x205F) || decide (u = 0x3000)

/-- `VAULT_SCHEME`. -/
def VAULT_SCHEME : PyStr := py "vault://"

/-- `parse_vault_ref`; an error is the message of the `VaultResolutionError`. -/
def parseVaultRef (unicode : Unicode) (ref : PyStr) : Except PyStr (VaultRef CodePoint) :=
  let malformed := fun text => py "credential reference " ++ reprStr unicode ref ++ text
  if VAULT_SCHEME <+: ref then
    match cut (.unit 0x23) (ref.drop VAULT_SCHEME.length) with
    | none =>
        .error (malformed (py ": no #field — a KV v2 secret is a " ++
          py "map, so the reference has to say which key it means"))
    | some (location, field) =>
        let (mount, path) := (cut (.unit 0x2F) location).getD (location, [])
        if mount = [] ∨ path = [] ∨ field = [] then
          .error (malformed (py ": expected " ++ VAULT_SCHEME ++ py "<mount>/<path>#<field>"))
        else if (∃ part ∈ [mount, path, field], part ≠ strip isSpace part) ∨ .unit 0x23 ∈ field then
          .error (malformed (py ": malformed"))
        else .ok ⟨mount, strip (fun p => decide (p = .unit 0x2F)) path, field⟩
  else
    .error (malformed (py ": unsupported scheme for this resolver (expected " ++ VAULT_SCHEME ++
      py "<mount>/<path>#<field>)"))

end Sdk

/-! ### One grammar -/

/-- The three recognisers agree on a string. -/
structure OneGrammar (unicode : Unicode) (ref : Text) : Prop where
  parsers : (Sdk.parseVaultRef unicode (codePoints ref)).toOption =
    (parseVaultRef ref).toOption.map (VaultRef.map codePoints)
  form : isCredentialRef ref = true → VAULT_SCHEME <+: ref →
    (parseVaultRef ref).toOption.isSome ∧ (Sdk.parseVaultRef unicode (codePoints ref)).toOption.isSome

/-- The parts of a reference, none of them empty. -/
structure Parts (ref mount path field : Text) : Prop where
  eq : ref = VAULT_SCHEME ++ (mount ++ 0x2F :: path ++ 0x23 :: field)
  mount_ne : mount ≠ []
  path_ne : path ≠ []
  field_ne : field ≠ []
  slash_notMem : (0x2F : UInt16) ∉ mount
  hash_notMem : (0x23 : UInt16) ∉ mount ++ path

/-- No white space at either end. -/
def Trimmed (part : Text) : Prop := strip Sdk.isSpace (codePoints part) = codePoints part

/-- A path of more than slashes is one whose parts are trimmed and whose field has no `#`, and what the form
accepts has such a path. -/
structure Unmistakable (ref : Text) : Prop where
  parts : ∀ mount path field, Parts ref mount path field →
    ((∃ u ∈ path, u ≠ 0x2F) ↔
      Trimmed mount ∧ Trimmed path ∧ Trimmed field ∧ (0x23 : UInt16) ∉ field)
  form : isCredentialRef ref = true → VAULT_SCHEME <+: ref →
    ∃ mount path field, Parts ref mount path field ∧ ∃ u ∈ path, u ≠ 0x2F

end ContextLayer
