import ContextLayer.Lib.Base64Url
import ContextLayer.YamlScalars

/-!
# Values of Python beside JSON's own

Dates, times, decimals, UUIDs and bytes, with the texts that `isoformat`, `str` and `b64encode` make of them.
-/

namespace ContextLayer.PyValues

open Text PyText

/-- `{n:0{width}d}`. -/
def padded (width n : Nat) : PyStr :=
  List.replicate (width - (natText n).length) (.unit 0x30) ++ natText n

/-! ### Dates and times -/

/-- `datetime.date`. -/
structure Date where
  year : Nat
  month : Nat
  day : Nat
  year_range : 1 ≤ year ∧ year ≤ 9999
  month_range : 1 ≤ month ∧ month ≤ 12
  day_range : 1 ≤ day ∧ day ≤ YamlScalars.daysInMonth year month
  deriving DecidableEq

/-- `utcoffset()`, by its sign and its size. -/
structure Offset where
  negative : Bool
  seconds : Nat
  microseconds : Nat
  deriving DecidableEq

/-- `datetime.time`. -/
structure Time where
  hour : Fin 24
  minute : Fin 60
  second : Fin 60
  microsecond : Fin 1000000
  offset : Option Offset
  deriving DecidableEq

def Date.isoformat (d : Date) : PyStr := padded 4 d.year ++ py "-" ++ padded 2 d.month ++ py "-" ++ padded 2 d.day

/-- `.ffffff`, if there is a fraction of a second. -/
def fraction (microseconds : Nat) : PyStr := if microseconds = 0 then [] else py "." ++ padded 6 microseconds

/-- `_format_offset`. -/
def Offset.text (o : Offset) : PyStr :=
  py (if o.negative then "-" else "+") ++ padded 2 (o.seconds / 3600) ++ py ":" ++ padded 2 (o.seconds / 60 % 60) ++
    if o.seconds % 60 = 0 ∧ o.microseconds = 0 then []
    else py ":" ++ padded 2 (o.seconds % 60) ++ fraction o.microseconds

def Time.isoformat (t : Time) : PyStr :=
  padded 2 t.hour ++ py ":" ++ padded 2 t.minute ++ py ":" ++ padded 2 t.second ++ fraction t.microsecond ++
    t.offset.elim [] Offset.text

/-- `datetime.datetime`. -/
structure DateTime where
  date : Date
  time : Time
  deriving DecidableEq

def DateTime.isoformat (t : DateTime) : PyStr := t.date.isoformat ++ py "T" ++ t.time.isoformat

/-- `str` of a `datetime`. -/
def DateTime.str (t : DateTime) : PyStr := t.date.isoformat ++ py " " ++ t.time.isoformat

/-! ### Decimals -/

/-- A finite `decimal.Decimal`. -/
structure Decimal where
  negative : Bool
  coefficient : Nat
  exponent : Int
  deriving DecidableEq

namespace Decimal

def value (d : Decimal) : ℚ := (if d.negative then -1 else 1) * d.coefficient * 10 ^ d.exponent

def sign (d : Decimal) : PyStr := if d.negative then py "-" else []

/-- Digits with the point behind `place` of them. -/
def pointed (digits : PyStr) (place : Int) : PyStr :=
  if place ≤ 0 then py "0." ++ List.replicate (-place).toNat (.unit 0x30) ++ digits
  else if (digits.length : Int) ≤ place then
    digits ++ List.replicate (place - digits.length).toNat (.unit 0x30)
  else digits.take place.toNat ++ py "." ++ digits.drop place.toNat

/-- Digits left of the point. -/
def leftDigits (d : Decimal) : Int := d.exponent + (natText d.coefficient).length

/-- `%+d`. -/
def signedText (n : Int) : PyStr := if 0 ≤ n then py "+" ++ Frontmatter.intText n else Frontmatter.intText n

/-- `str`: an exponent where the number is not close to its digits. -/
def str (d : Decimal) : PyStr :=
  if d.exponent ≤ 0 ∧ -6 < d.leftDigits then d.sign ++ pointed (natText d.coefficient) d.leftDigits
  else d.sign ++ pointed (natText d.coefficient) 1 ++
    if d.leftDigits = 1 then [] else py "E" ++ signedText (d.leftDigits - 1)

/-- The digits the default context keeps. -/
def precision : Nat := 28

/-- `_fix`: rounded to the precision, ties to even. -/
def fixed (d : Decimal) : Decimal :=
  let excess := (natText d.coefficient).length - precision
  if excess = 0 then d
  else
    let rounded := (roundHalfEven ((d.coefficient : ℚ) / 10 ^ excess)).toNat
    -- a carry out of the last place leaves a zero behind
    if rounded = 10 ^ precision then ⟨d.negative, rounded / 10, d.exponent + excess + 1⟩
    else ⟨d.negative, rounded, d.exponent + excess⟩

/-- Trailing zeros moved into the exponent; `fuel` is the number of digits. -/
def stripZeros : Nat → Nat → Int → Nat × Int
  | 0, c, e => (c, e)
  | fuel + 1, c, e => if c % 10 = 0 then stripZeros fuel (c / 10) (e + 1) else (c, e)

/-- `normalize`. -/
def normalize (d : Decimal) : Decimal :=
  let f := d.fixed
  if f.coefficient = 0 then ⟨f.negative, 0, 0⟩
  else
    let (c, e) := stripZeros (natText f.coefficient).length f.coefficient f.exponent
    ⟨f.negative, c, e⟩

/-- `format(d, "f")`. -/
def fixedPoint (d : Decimal) : PyStr :=
  d.sign ++ if d.coefficient = 0 ∧ 0 < d.exponent then py "0" else pointed (natText d.coefficient) d.leftDigits

end Decimal

/-- A `Decimal` that is no number. -/
inductive SpecialDecimal where
  | infinity (negative : Bool)
  | nan (negative signaling : Bool) (payload : Option Nat)
  deriving DecidableEq

def SpecialDecimal.str : SpecialDecimal → PyStr
  | .infinity negative => py (if negative then "-Infinity" else "Infinity")
  | .nan negative signaling payload =>
      py (if negative then "-" else "") ++ py (if signaling then "sNaN" else "NaN") ++ payload.elim [] natText

example : (Decimal.mk false 12300 (-4)).str = py "1.2300" ∧
    (Decimal.mk false 12300 (-4)).normalize.fixedPoint = py "1.23" ∧
    (Decimal.mk true 5 7).str = py "-5E+7" ∧ (Decimal.mk true 5 7).normalize.fixedPoint = py "-50000000" := by
  decide +kernel

/-! ### Bytes and UUIDs -/

/-- A character of the standard alphabet of Base64. -/
def base64Unit (d : Base64Url.Digit) : UInt16 :=
  if d = 62 then 0x2B else if d = 63 then 0x2F else Base64Url.digitUnit d

/-- `b64encode`. -/
def b64encode (bytes : List UInt8) : PyStr :=
  (Base64Url.toDigits bytes).map (fun d => .unit (base64Unit d)) ++
    List.replicate ((3 - bytes.length % 3) % 3) (.unit 0x3D)

def reprByte (quote : UInt8) (b : UInt8) : PyStr :=
  if b = quote ∨ b = 0x5C then [.unit 0x5C, .unit b.toUInt16]
  else if b = 0x09 then py "\\t"
  else if b = 0x0A then py "\\n"
  else if b = 0x0D then py "\\r"
  else if b < 0x20 ∨ 0x7F ≤ b then py "\\x" ++ hexDigits 2 b.toNat
  else [.unit b.toUInt16]

/-- `str` of `bytes`. -/
def reprBytes (bytes : List UInt8) : PyStr :=
  let quote : UInt8 := if 0x27 ∈ bytes ∧ 0x22 ∉ bytes then 0x22 else 0x27
  py "b" ++ .unit quote.toUInt16 :: (bytes.flatMap (reprByte quote) ++ [.unit quote.toUInt16])

/-- `str` of a UUID. -/
def uuidText (id : BitVec 128) : PyStr :=
  let digits := hexDigits 32 id.toNat
  (py "-").intercalate
    [digits.take 8, (digits.drop 8).take 4, (digits.drop 12).take 4, (digits.drop 16).take 4, digits.drop 20]

example : b64encode [0xFB, 0xFF] = py "+/8=" ∧ reprBytes [0x61, 0x27, 0x00] = py "b\"a'\\x00\"" := by decide +kernel

end ContextLayer.PyValues
