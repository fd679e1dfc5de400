import Mathlib.Data.List.Sort
import Mathlib.Data.Nat.Digits.Defs
import ContextLayer.Lib.Dict
import ContextLayer.Text

/-!
# JSON values and their canonical text

A request is JSON, and what a validation token binds is a hash of JSON text. `canonicalJson` is the
text the audit module defines: `JSON.stringify` with the members of every object sorted by key. Two
values have one canonical text exactly when they are the same value up to the order of members, and
that is what makes the hash a binding.
-/

namespace ContextLayer

open Text

/-- The characters of a printed number. -/
def isNumeric (u : UInt16) : Bool :=
  (decide (0x30 ≤ u) && decide (u ≤ 0x39)) || u == 0x2B || u == 0x2D || u == 0x2E || u == 0x65

/-- A finite number, as `JSON.stringify` prints it. Printing round-trips, so the text determines the
number. -/
structure JsNumber where
  text : Text
  nonempty : text ≠ []
  numeric : ∀ u ∈ text, isNumeric u = true
  deriving DecidableEq

theorem isNumeric_digit : ∀ d < 10, isNumeric (UInt16.ofNat (0x30 + d)) = true := by decide

/-- A non-negative integer as a number. -/
def JsNumber.ofNat (n : Nat) : JsNumber where
  text := if n = 0 then [0x30] else (Nat.digits 10 n).reverse.map fun d => UInt16.ofNat (0x30 + d)
  nonempty := by
    split
    · simp
    · simpa [Nat.digits_eq_nil_iff_eq_zero] using ‹_›
  numeric := by
    intro u hu
    split at hu
    · obtain rfl : u = 0x30 := by simpa using hu
      decide
    · obtain ⟨d, hd, rfl⟩ := List.mem_map.mp hu
      exact isNumeric_digit d (Nat.digits_lt_base (by decide) (List.mem_reverse.mp hd))

/-- The value of a run of digits. -/
def digitsValue (text : Text) : Nat := Nat.ofDigits 10 (text.reverse.map fun u => u.toNat - 0x30)

theorem digitsValue_ofNat (n : Nat) : digitsValue (JsNumber.ofNat n).text = n := by
  simp only [digitsValue, JsNumber.ofNat]
  split
  case isTrue h => simp [h]
  case isFalse h =>
    have hdigits : ∀ d ∈ Nat.digits 10 n, (UInt16.ofNat (0x30 + d)).toNat - 0x30 = d := by
      intro d hd
      have hlt : d < 10 := Nat.digits_lt_base (by decide) hd
      simp only [UInt16.toNat_ofNat']
      omega
    have hmap : ((Nat.digits 10 n).map fun d => (UInt16.ofNat (0x30 + d)).toNat - 0x30)
        = Nat.digits 10 n := (List.map_congr_left hdigits).trans (List.map_id' _)
    simp only [List.map_reverse, List.reverse_reverse, List.map_map, Function.comp_def, hmap,
      Nat.ofDigits_digits]

/-- A value of `JSON.parse`. An object is its members in insertion order. -/
inductive Json where
  | null
  | bool (b : Bool)
  | num (n : JsNumber)
  | str (s : Text)
  | arr (items : List Json)
  | obj (members : List (Text × Json))

/-- One member of an object, `none` for `undefined`. -/
def member (members : List (Text × Json)) (key : String) : Option Json := Dict.get? members (js key)

/-- `value.key`: a value that is not an object has none of the members the core reads. -/
def Json.field : Json → String → Option Json
  | .obj members, key => member members key
  | _, _ => none

/-- `typeof value === "string"`, with the string. -/
def Json.asString : Json → Option Text
  | .str s => some s
  | _ => none

/-- `{ ...value }`. -/
def spread : Json → List (Text × Json)
  | .obj members => members
  | .arr items => items.zipIdx.map fun (v, i) => ((JsNumber.ofNat i).text, v)
  | .str s => s.zipIdx.map fun (u, i) => ((JsNumber.ofNat i).text, .str [u])
  | _ => []

/-! ### Printing -/

def hexDigit (n : Nat) : UInt16 := if n < 10 then UInt16.ofNat (0x30 + n) else UInt16.ofNat (0x57 + n)

/-- `\uXXXX`. -/
def unicodeEscape (u : UInt16) : Text :=
  [0x5C, 0x75, hexDigit (u.toNat / 0x1000), hexDigit (u.toNat / 0x100 % 0x10),
    hexDigit (u.toNat / 0x10 % 0x10), hexDigit (u.toNat % 0x10)]

/-- The two-character escapes: the unit and the letter after the backslash. -/
def shortEscapes : List (UInt16 × UInt16) :=
  [(0x22, 0x22), (0x5C, 0x5C), (0x08, 0x62), (0x09, 0x74), (0x0A, 0x6E), (0x0C, 0x66), (0x0D, 0x72)]

def shortEscape (u : UInt16) : Option UInt16 :=
  (shortEscapes.find? fun e => decide (e.1 = u)).map Prod.snd

/-- One code unit that is not half of a pair, inside a JSON string. -/
def escapeUnit (u : UInt16) : Text :=
  match shortEscape u with
  | some c => [0x5C, c]
  | none => if u < 0x20 ∨ isSurrogate u = true then unicodeEscape u else [u]

def escapePoint : CodePoint → Text
  | .pair high low _ _ => [high, low]
  | .unit u => escapeUnit u

/-- `JSON.stringify` of a string. -/
def quote (s : Text) : Text := 0x22 :: ((codePoints s).flatMap escapePoint ++ [0x22])

/-- `parts.join(",")`. -/
def joinComma : List Text → Text
  | [] => []
  | [t] => t
  | t :: ts => t ++ 0x2C :: joinComma ts

def memberText (m : Text × Text) : Text := quote m.1 ++ 0x3A :: m.2

mutual

/-- `JSON.stringify`. -/
def stringify : Json → Text
  | .null => js "null"
  | .bool true => js "true"
  | .bool false => js "false"
  | .num n => n.text
  | .str s => quote s
  | .arr items => 0x5B :: (joinComma (stringifyItems items) ++ [0x5D])
  | .obj members => 0x7B :: (joinComma ((stringifyMembers members).map memberText) ++ [0x7D])

def stringifyItems : List Json → List Text
  | [] => []
  | v :: rest => stringify v :: stringifyItems rest

def stringifyMembers : List (Text × Json) → List (Text × Text)
  | [] => []
  | (k, v) :: rest => (k, stringify v) :: stringifyMembers rest

end

/-- The entries of an object in key order. -/
def sortEntries {α : Type} (entries : List (Text × α)) : List (Text × α) :=
  entries.insertionSort fun a b => a.1 ≤ b.1

mutual

/-- Deterministic JSON: object keys sorted at every level. -/
def canonicalJson : Json → Text
  | .null => js "null"
  | .bool true => js "true"
  | .bool false => js "false"
  | .num n => n.text
  | .str s => quote s
  | .arr items => 0x5B :: (joinComma (canonicalItems items) ++ [0x5D])
  | .obj members =>
      0x7B :: (joinComma ((sortEntries (canonicalMembers members)).map memberText) ++ [0x7D])

def canonicalItems : List Json → List Text
  | [] => []
  | v :: rest => canonicalJson v :: canonicalItems rest

def canonicalMembers : List (Text × Json) → List (Text × Text)
  | [] => []
  | (k, v) :: rest => (k, canonicalJson v) :: canonicalMembers rest

end

mutual

/-- The value with the members of every object in key order. -/
def Json.sorted : Json → Json
  | .null => .null
  | .bool b => .bool b
  | .num n => .num n
  | .str s => .str s
  | .arr items => .arr (sortedItems items)
  | .obj members => .obj (sortEntries (sortedMembers members))

def sortedItems : List Json → List Json
  | [] => []
  | v :: rest => v.sorted :: sortedItems rest

def sortedMembers : List (Text × Json) → List (Text × Json)
  | [] => []
  | (k, v) :: rest => (k, v.sorted) :: sortedMembers rest

end

example : canonicalJson (.obj [(js "b", .null), (js "a", .arr [.str (js "x\n"), .bool true])])
    = js "\x7b\"a\":[\"x\\n\",true],\"b\":null\x7d" := by decide

end ContextLayer
