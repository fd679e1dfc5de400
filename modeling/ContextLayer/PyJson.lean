import Mathlib.Data.Int.Log
import Mathlib.Data.List.Lex
import Mathlib.Data.Rat.Floor
import ContextLayer.Json
import ContextLayer.Utf8
import ContextLayer.Lib.StableSort

/-!
# JSON as the snapshot layer writes it

`canonical_json` is `json.dumps` with sorted keys, on strings of code points rather than of UTF-16
units: keys are ordered by code point, a lone surrogate is printed as it stands, and it is the encoder
behind `.encode("utf-8")` that refuses it. What has no JSON text, a NaN or an infinity, is refused
while it is printed.
-/

namespace ContextLayer

open Text StableSort

/-! ### Strings -/

/-- `ord`. -/
def Text.CodePoint.ord : CodePoint → Nat
  | .pair high low _ _ => 0x10000 + (high.toNat - 0xD800) * 0x400 + (low.toNat - 0xDC00)
  | .unit u => u.toNat

theorem Text.CodePoint.ord_pair_ge {high low : UInt16} {hhigh : isHighSurrogate high = true}
    {hlow : isLowSurrogate low = true} : 0x10000 ≤ (CodePoint.pair high low hhigh hlow).ord :=
  (Nat.le_add_right _ _).trans (Nat.le_add_right _ _)

theorem Text.CodePoint.ord_injective : Function.Injective CodePoint.ord := by
  intro p q h
  cases p with
  | pair high low hhigh hlow =>
      cases q with
      | pair high' low' hhigh' hlow' =>
          have hh := isHighSurrogate_iff.mp hhigh
          have hl := isLowSurrogate_iff.mp hlow
          have hh' := isHighSurrogate_iff.mp hhigh'
          have hl' := isLowSurrogate_iff.mp hlow'
          unfold ord at h
          dsimp only at h
          have hhigh_eq : high = high' := UInt16.toNat_inj.mp (by omega)
          have hlow_eq : low = low' := UInt16.toNat_inj.mp (by omega)
          subst hhigh_eq hlow_eq
          rfl
      | unit u => exact absurd (ord_pair_ge.trans h.le) (Nat.not_le.mpr u.toNat_lt)
  | unit u =>
      cases q with
      | pair high' low' hhigh' hlow' => exact absurd (ord_pair_ge.trans h.ge) (Nat.not_le.mpr u.toNat_lt)
      | unit u' => rw [UInt16.toNat_inj.mp h]

instance : LinearOrder CodePoint := .lift' CodePoint.ord CodePoint.ord_injective

abbrev PyStr := List CodePoint

instance : LawfulBEq PyStr := inferInstanceAs (LawfulBEq (List CodePoint))

instance : LawfulBEq (PyStr × PyStr) := inferInstance

instance : LawfulBEq (PyStr × PyStr × PyStr) := inferInstance

/-- A string literal of the source. -/
def py (s : String) : PyStr := codePoints (js s)

/-! ### Numbers -/

/-- A finite float, as `float.__repr__` prints it: with a point or an exponent. -/
structure PyFloat where
  text : JsNumber
  isFloat : (text.text.any fun u => u == 0x2E || u == 0x65) = true
  deriving DecidableEq

/-- The number a literal stands for before it is rounded. -/
def decimalValue (text : Text) : ℚ :=
  let mantissa := text.takeWhile (· != 0x65)
  let exponent := (text.drop (mantissa.length + 1)).filter (· != 0x2B)
  let fraction := (mantissa.dropWhile (· != 0x2E)).drop 1
  let digits := mantissa.filter (0x30 ≤ ·)
  let power : ℤ := if exponent.head? = some 0x2D then -digitsValue exponent.tail
    else digitsValue exponent
  (if mantissa.head? = some 0x2D then -1 else 1) * digitsValue digits * 10 ^ (power - fraction.length)

/-- Round to the nearest integer, ties to even. -/
def roundHalfEven (x : ℚ) : ℤ :=
  let n := ⌊x⌋
  if x - n < 1 / 2 then n else if 1 / 2 < x - n then n + 1 else if n % 2 = 0 then n else n + 1

/-- The double nearest to a number that is within the range of doubles. -/
def nearestDouble (q : ℚ) : ℚ :=
  if q = 0 then 0
  else
    let ulp : ℚ := 2 ^ max (Int.log 2 |q| - 52) (-1074)
    roundHalfEven (q / ulp) * ulp

inductive PyNumber where
  | int (n : Int)
  | float (f : PyFloat)
  deriving DecidableEq

/-- `int.__repr__`. -/
def JsNumber.ofInt : Int → JsNumber
  | .ofNat n => .ofNat n
  | .negSucc n => ⟨0x2D :: (JsNumber.ofNat (n + 1)).text, List.cons_ne_nil _ _,
      List.forall_mem_cons.mpr ⟨by decide, (JsNumber.ofNat (n + 1)).numeric⟩⟩

namespace PyNumber

/-- What `json.dumps` prints. -/
def text : PyNumber → JsNumber
  | .int n => .ofInt n
  | .float f => f.text

/-- What comparisons go by. -/
def value : PyNumber → ℚ
  | .int n => n
  | .float f => nearestDouble (decimalValue f.text.text)

end PyNumber

/-! ### Printing -/

/-- A float without JSON text. -/
inductive NonFinite where
  | nan
  | infinity
  | negInfinity
  deriving DecidableEq

/-- A value of `json.load`. -/
inductive PyJson where
  | null
  | bool (b : Bool)
  | number (n : PyNumber)
  | nonFinite (f : NonFinite)
  | str (s : PyStr)
  | arr (items : List PyJson)
  | obj (members : List (PyStr × PyJson))

/-- `ESCAPE_DCT`, with what it has no entry for left alone. -/
def pyEscape : CodePoint → PyStr
  | .pair high low hhigh hlow => [.pair high low hhigh hlow]
  | .unit u =>
      match shortEscape u with
      | some c => [.unit 0x5C, .unit c]
      | none => if u < 0x20 then (unicodeEscape u).map .unit else [.unit u]

/-- `encode_basestring`. -/
def pyQuote (s : PyStr) : PyStr := .unit 0x22 :: (s.flatMap pyEscape ++ [.unit 0x22])

def pyJoinComma (parts : List PyStr) : PyStr := [CodePoint.unit 0x2C].intercalate parts

def NonFinite.text : NonFinite → PyStr
  | .nan => py "NaN"
  | .infinity => py "Infinity"
  | .negInfinity => py "-Infinity"

namespace PyJson

mutual

/-- `json.dumps` with `separators=(",", ":")` and `ensure_ascii=False`. -/
def dumps : PyJson → PyStr
  | .null => py "null"
  | .bool true => py "true"
  | .bool false => py "false"
  | .number n => n.text.text.map .unit
  | .nonFinite f => f.text
  | .str s => pyQuote s
  | .arr items => .unit 0x5B :: (pyJoinComma (dumpsItems items) ++ [.unit 0x5D])
  | .obj members => .unit 0x7B :: (pyJoinComma (dumpsMembers members) ++ [.unit 0x7D])

def dumpsItems : List PyJson → List PyStr
  | [] => []
  | v :: rest => v.dumps :: dumpsItems rest

def dumpsMembers : List (PyStr × PyJson) → List PyStr
  | [] => []
  | (k, v) :: rest => (pyQuote k ++ .unit 0x3A :: v.dumps) :: dumpsMembers rest

end

mutual

/-- What `sort_keys=True` prints. -/
def sortKeys : PyJson → PyJson
  | .arr items => .arr (sortKeysItems items)
  | .obj members => .obj (sortOn Prod.fst (sortKeysMembers members))
  | v => v

def sortKeysItems : List PyJson → List PyJson
  | [] => []
  | v :: rest => v.sortKeys :: sortKeysItems rest

def sortKeysMembers : List (PyStr × PyJson) → List (PyStr × PyJson)
  | [] => []
  | (k, v) :: rest => (k, v.sortKeys) :: sortKeysMembers rest

end

mutual

/-- What `allow_nan=False` lets through. -/
def isFinite : PyJson → Bool
  | .nonFinite _ => false
  | .arr items => isFiniteItems items
  | .obj members => isFiniteMembers members
  | _ => true

def isFiniteItems : List PyJson → Bool
  | [] => true
  | v :: rest => v.isFinite && isFiniteItems rest

def isFiniteMembers : List (PyStr × PyJson) → Bool
  | [] => true
  | (_, v) :: rest => v.isFinite && isFiniteMembers rest

end

/-- `canonical_json`; `none` is the exception. -/
def canonicalJson (v : PyJson) : Option PyStr :=
  if v.isFinite then some v.sortKeys.dumps else none

end PyJson

/-- `s.encode("utf-8")`; `none` is the exception. -/
def encodeUtf8 (s : PyStr) : Option (List UInt8) :=
  if s.any CodePoint.isLone then none else some (s.flatMap fun p => utf8Scalar p.scalar)

/-- The bytes of a value. -/
def PyJson.canonicalBytes (v : PyJson) : Option (List UInt8) := v.canonicalJson.bind encodeUtf8

example : (PyJson.obj [(py "b", .null), (py "a", .arr [.str (py "x\n"), .bool true])]).canonicalJson
    = some (py "\x7b\"a\":[\"x\\n\",true],\"b\":null\x7d") := by decide

/-! ### What has bytes -/

namespace PyJson

mutual

/-- Neither a float without JSON text nor a lone surrogate occurs. -/
def isEncodable : PyJson → Bool
  | .nonFinite _ => false
  | .str s => !s.any CodePoint.isLone
  | .arr items => isEncodableItems items
  | .obj members => isEncodableMembers members
  | _ => true

def isEncodableItems : List PyJson → Bool
  | [] => true
  | v :: rest => v.isEncodable && isEncodableItems rest

def isEncodableMembers : List (PyStr × PyJson) → Bool
  | [] => true
  | (k, v) :: rest => !k.any CodePoint.isLone && v.isEncodable && isEncodableMembers rest

end

/-- `value[key]`. -/
def field : PyJson → String → Option PyJson
  | .obj members, key => Dict.get? members (py key)
  | _, _ => none

end PyJson

end ContextLayer
