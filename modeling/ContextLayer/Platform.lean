import ContextLayer.Json
import ContextLayer.Lib.Base64Url
import ContextLayer.Utf8

/-!
# The platform under the core

What the core calls and does not define. Case mapping is Unicode's tables, so it stays a parameter;
of the two hash functions the model keeps what the core relies on, that SHA-256 has no collisions;
`JSON.parse` is known on what `JSON.stringify` printed. Every theorem holds for any such platform.
-/

namespace ContextLayer

open Text

structure Platform where
  /-- `text.toLowerCase()`. -/
  toLowerCase : Text → Text
  /-- Python's `text.lower()`. -/
  lower : Text → Text
  /-- Python's `str(value)`, for a value read from JSON. -/
  str : Json → Text
  /-- `String(value)`. -/
  string : Option Json → Text
  /-- `Math.ceil(n)` of a positive number, `none` for the others. -/
  ceilPositive : JsNumber → Option Nat
  /-- SHA-256, the digest in hex. -/
  sha256 : List UInt8 → Text
  sha256_ne_nil : ∀ bytes, sha256 bytes ≠ []
  /-- No collisions. -/
  sha256_injective : Function.Injective sha256
  /-- HMAC-SHA256 of a message under a secret. -/
  hmac : List UInt8 → List UInt8 → List UInt8
  /-- `JSON.parse`, `none` when it throws. -/
  parse : Text → Option Json
  /-- Printed JSON parses back. -/
  parse_stringify : ∀ v, parse (stringify v) = some v
  /-- `n >= value` for an integer and whatever a payload holds, coercions included. -/
  ge : Nat → Option Json → Bool
  ge_ofNat : ∀ n m, ge n (some (.num (.ofNat m))) = decide (m ≤ n)

namespace Platform

variable (P : Platform)

/-- `createHash("sha256").update(text).digest("hex")`. -/
def sha256Hex (s : Text) : Text := P.sha256 (utf8 s)

theorem sha256Hex_ne_nil (s : Text) : P.sha256Hex s ≠ [] := P.sha256_ne_nil _

theorem sha256Hex_eq_iff {s t : Text} : P.sha256Hex s = P.sha256Hex t ↔ utf8 s = utf8 t :=
  P.sha256_injective.eq_iff

/-- On Unicode text the hash binds the text. -/
theorem eq_of_sha256Hex_eq {s t : Text} (hs : isWellFormed s = true) (ht : isWellFormed t = true)
    (h : P.sha256Hex s = P.sha256Hex t) : s = t :=
  utf8_injective hs ht (P.sha256Hex_eq_iff.mp h)

end Platform

/-- `Buffer.from(text).toString("base64url")`. -/
def b64url (s : Text) : Text := Base64Url.encode (utf8 s)

/-- `Buffer.from(text, "base64url").toString("utf-8")`. -/
def ofB64url (s : Text) : Text := ofUtf8 (Base64Url.decode s)

theorem ofB64url_b64url {s : Text} (h : isWellFormed s = true) : ofB64url (b64url s) = s := by
  rw [ofB64url, b64url, Base64Url.decode_encode, ofUtf8_utf8_of_isWellFormed h]

end ContextLayer
