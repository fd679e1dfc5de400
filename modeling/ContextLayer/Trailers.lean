import ContextLayer.Visibility

/-!
# `CL-Resolves` trailers

`/^CL-Resolves:\s*([0-9a-fA-F-]{36})\s*$/gm` and what becomes of what it captures: the id is compared
with a `uuid` column, whose input function takes a text of 36 hex digits and hyphens only when the
hyphens stand between groups of four digits.
-/

namespace ContextLayer

open Text

/-- `\s`. -/
def isSpace (u : UInt16) : Bool :=
  isLineTerminator u || decide (u = 0x09) || decide (u = 0x0B) || decide (u = 0x0C) ||
    decide (u = 0x20) || decide (u = 0xA0) || decide (u = 0x1680) ||
    (decide (0x2000 ≤ u) && decide (u ≤ 0x200A)) || decide (u = 0x202F) || decide (u = 0x205F) ||
    decide (u = 0x3000) || decide (u = 0xFEFF)

def isDigit (u : UInt16) : Bool := decide (0x30 ≤ u) && decide (u ≤ 0x39)

def isLowerHex (u : UInt16) : Bool := decide (0x61 ≤ u) && decide (u ≤ 0x66)

def isUpperHex (u : UInt16) : Bool := decide (0x41 ≤ u) && decide (u ≤ 0x46)

def isHexDigit (u : UInt16) : Bool := isDigit u || isLowerHex u || isUpperHex u

def isHyphen (u : UInt16) : Bool := decide (u = 0x2D)

def dropPrefix : Text → Text → Option Text
  | [], s => some s
  | _ :: _, [] => none
  | p :: ps, u :: s => if p = u then dropPrefix ps s else none

/-- `\s*$`: the white space runs to the end of the text or over the end of a line. -/
def endsLine (s : Text) : Bool :=
  (s.dropWhile isSpace).isEmpty || (s.takeWhile isSpace).any isLineTerminator

/-- The pattern after its `^`. -/
def matchTrailer (s : Text) : Option Text := do
  let rest ← dropPrefix (js "CL-Resolves:") s
  let rest := rest.dropWhile isSpace
  let id := rest.take 36
  if decide (id.length = 36) && (id.all fun u => isHexDigit u || isHyphen u) &&
      endsLine (rest.drop 36) then
    some id
  else none

/-- Where the lines of a text begin. -/
def lineStarts : Text → List Text
  | [] => [[]]
  | u :: s =>
      match lineStarts s with
      | [] => []
      | first :: others => if isLineTerminator u then (u :: s) :: first :: others
          else (u :: s) :: others

/-- ASCII only, as the pattern captures no other letters. -/
def lowerHex (u : UInt16) : UInt16 := if isUpperHex u then u + 0x20 else u

/-- No match begins inside another one, so all of them count. -/
def parseResolveTrailers (body : Text) : List Text :=
  (lineStarts body).filterMap fun line => (matchTrailer line).map fun id => id.map lowerHex

/-! ### The `uuid` type -/

/-- `n` more bytes: two digits each, and a hyphen may follow every second byte but the last. -/
def uuidDigits : Nat → Text → Option Text
  | 0, [] => some []
  | n + 1, a :: b :: s =>
      if isHexDigit a && isHexDigit b then
        let rest :=
          match s with
          | u :: t => if isHyphen u && n % 2 == 0 && n != 0 then t else s
          | [] => []
        (uuidDigits n rest).map fun digits => lowerHex a :: lowerHex b :: digits
      else none
  | _, _ => none

/-- The value as it is printed, `none` where the input is an error. -/
def uuidIn (s : Text) : Option Text := do
  let digits ← uuidDigits 16 s
  pure (digits.take 8 ++ js "-" ++ (digits.drop 8).take 4 ++ js "-" ++ (digits.drop 12).take 4 ++
    js "-" ++ (digits.drop 16).take 4 ++ js "-" ++ digits.drop 20)

end ContextLayer
