import ContextLayer.Platform
import ContextLayer.Proof.CanonicalJson

/-!
# A platform exists

What the model assumes of the platform can be met all at once. Printing is injective, so there is a
parser that inverts it, and a digest that keeps every byte has no collisions. Case mapping is the
ASCII part of Unicode's.
-/

namespace ContextLayer

open Text

/-- ASCII lower case, the part of case mapping every locale agrees on. -/
def asciiLower (u : UInt16) : UInt16 := if 0x41 ≤ u ∧ u ≤ 0x5A then u + 0x20 else u

open Classical in
/-- The value a text prints, if it is a printed value. -/
noncomputable def parsePrinted (text : Text) : Option Json :=
  if h : ∃ v, stringify v = text then some h.choose else none

theorem parsePrinted_stringify (v : Json) : parsePrinted (stringify v) = some v := by
  have hprinted : ∃ w, stringify w = stringify v := ⟨v, rfl⟩
  rw [parsePrinted, dif_pos hprinted, stringify_injective hprinted.choose_spec]

/-- `>=` against an integer. -/
def geInteger (n : Nat) : Option Json → Bool
  | some (.num k) => decide (digitsValue k.text ≤ n)
  | _ => false

namespace Platform

noncomputable def ideal : Platform where
  toLowerCase := List.map asciiLower
  lower := List.map asciiLower
  str := fun v => v.asString.getD (stringify v)
  string := fun v => (v.bind Json.asString).getD (js "undefined")
  ceilPositive := fun n => some (digitsValue n.text)
  sha256 := fun bytes => 0x78 :: Base64Url.encode bytes
  sha256_ne_nil := fun _ => List.cons_ne_nil _ _
  sha256_injective := fun _ _ h => Base64Url.encode_injective (List.cons.inj h).2
  hmac := fun secret message => secret ++ message
  parse := parsePrinted
  parse_stringify := parsePrinted_stringify
  ge := geInteger
  ge_ofNat := fun n m => by rw [geInteger, digitsValue_ofNat]

end Platform

end ContextLayer
