import ContextLayer.PyText

/-!
# Scalars as `safe_load` reads them

A quoted scalar is read in two steps: escapes are replaced, then line breaks are folded together with the blanks
around them. A plain one is resolved by its form, and one that has the form of a day there is not makes the loader
raise what is no `YAMLError`.
-/

namespace ContextLayer.YamlScalars

open Text PyText Frontmatter

/-- What came of a text. -/
inductive Reading (α : Type) where
  | value (a : α)
  | malformed
  | raises
  deriving DecidableEq

def Reading.map {α β : Type} (f : α → β) : Reading α → Reading β
  | .value a => .value (f a)
  | .malformed => .malformed
  | .raises => .raises

/-- Scanning comes before construction, so what is malformed anywhere is found first. -/
def Reading.cons {α : Type} : Reading α → Reading (List α) → Reading (List α)
  | .malformed, _ => .malformed
  | _, .malformed => .malformed
  | .raises, _ => .raises
  | _, .raises => .raises
  | .value a, .value as => .value (a :: as)

def Reading.collect {α : Type} : List (Reading α) → Reading (List α)
  | [] => .value []
  | r :: rest => r.cons (collect rest)

/-! ### Characters -/

/-- What the reader takes: not `NON_PRINTABLE`. -/
def isPrintable : CodePoint → Bool
  | .pair _ _ _ _ => true
  | .unit u => decide (u = 0x09 ∨ u = 0x0A ∨ u = 0x0D ∨ (0x20 ≤ u ∧ u ≤ 0x7E) ∨ u = 0x85 ∨ (0xA0 ≤ u ∧ u ≤ 0xD7FF) ∨
      (0xE000 ≤ u ∧ u ≤ 0xFFFD))

def space : CodePoint := .unit 0x20

def tab : CodePoint := .unit 0x09

/-- `\x85`. -/
def nextLine : CodePoint := .unit 0x85

def isBlank (c : CodePoint) : Bool := decide (c = space ∨ c = tab)

/-- The separators that are kept as they are. -/
def isLineSeparator (c : CodePoint) : Bool := decide (c = .unit 0x2028 ∨ c = .unit 0x2029)

def isScalarBreak (c : CodePoint) : Bool :=
  decide (c = newline ∨ c = carriageReturn ∨ c = nextLine) || isLineSeparator c

/-- `scan_line_break`, of one character. -/
def lineBreakOf (c : CodePoint) : CodePoint := if isLineSeparator c then c else newline

/-! ### Quoted scalars -/

inductive ScalarPiece where
  | text (s : PyStr)
  | blank (c : CodePoint)
  | lineBreak (c : CodePoint)
  /-- An escaped line break. -/
  | joined

/-- `ESCAPE_REPLACEMENTS`. -/
def escapeReplacements : List (UInt16 × UInt16) :=
  [(0x30, 0x00), (0x61, 0x07), (0x62, 0x08), (0x74, 0x09), (0x09, 0x09), (0x6E, 0x0A), (0x76, 0x0B), (0x66, 0x0C),
    (0x72, 0x0D), (0x65, 0x1B), (0x20, 0x20), (0x22, 0x22), (0x5C, 0x5C), (0x2F, 0x2F), (0x4E, 0x85), (0x5F, 0xA0),
    (0x4C, 0x2028), (0x50, 0x2029)]

/-- `ESCAPE_CODES`. -/
def escapeCodes : List (UInt16 × Nat) := [(0x78, 2), (0x75, 4), (0x55, 8)]

def hexValue? : CodePoint → Option Nat
  | .pair _ _ _ _ => none
  | .unit u =>
      if 0x30 ≤ u ∧ u ≤ 0x39 then some (u.toNat - 0x30)
      else if 0x61 ≤ u ∧ u ≤ 0x66 then some (u.toNat - 0x57)
      else if 0x41 ≤ u ∧ u ≤ 0x46 then some (u.toNat - 0x37)
      else none

/-- `chr`; a number beyond Unicode has no character. -/
def chr (n : Nat) : Option PyStr :=
  if n < 0x10000 then some [.unit (UInt16.ofNat n)]
  else if n < 0x110000 then
    some (codePoints [UInt16.ofNat (0xD800 + (n - 0x10000) / 0x400), UInt16.ofNat (0xDC00 + (n - 0x10000) % 0x400)])
  else none

/-- What stands for an escape, and how many characters behind the backslash belong to it. -/
def escape : PyStr → Option (ScalarPiece × Nat)
  | [] => none
  | c :: rest =>
      match c with
      | .pair _ _ _ _ => none
      | .unit u =>
          match Dict.get? escapeReplacements u, Dict.get? escapeCodes u with
          | some v, _ => some (.text [.unit v], 1)
          | none, some width =>
              if rest.length < width then none
              else ((rest.take width).mapM hexValue?).bind fun digits =>
                (chr (Nat.ofDigits 16 digits.reverse)).map fun s => (.text s, width + 1)
          | none, none =>
              if isScalarBreak (.unit u) then
                some (.joined, if c = carriageReturn ∧ rest.head? = some newline then 2 else 1)
              else none

/-- A line that would end the document: a quoted scalar may not hold one. -/
def isDocumentEnd (text : PyStr) : Bool :=
  (decide (py "---" <+: text) || decide (py "..." <+: text)) &&
    (text.drop 3).head?.all fun c => isBlank c || isScalarBreak c || decide (c = .unit 0x00)

/-- The pieces of a quoted scalar behind its opening quote, the first characters skipped. -/
def pieces : Nat → PyStr → Option (List ScalarPiece)
  | _, [] => none
  | skip + 1, _ :: rest => pieces skip rest
  | 0, c :: rest =>
      if c = .unit 0x22 then if rest = [] then some [] else none
      else if c = .unit 0x5C then
        match escape rest with
        | none => none
        | some (.joined, width) =>
            if isDocumentEnd (rest.drop width) then none else (pieces width rest).map (.joined :: ·)
        | some (piece, width) => (pieces width rest).map (piece :: ·)
      else if isBlank c then (pieces 0 rest).map (.blank c :: ·)
      else if isScalarBreak c then
        let width := if c = carriageReturn ∧ rest.head? = some newline then 1 else 0
        if isDocumentEnd (rest.drop width) then none
        else (pieces width rest).map (.lineBreak (lineBreakOf c) :: ·)
      else (pieces 0 rest).map (.text [c] :: ·)

/-- The next thing that is no blank is a line break. -/
def breakAhead : List ScalarPiece → Bool
  | .blank _ :: rest => breakAhead rest
  | .lineBreak _ :: _ => true
  | _ => false

/-- Folding. A first line break that is a newline becomes a space, or nothing where others follow. -/
def fold (inBreaks : Bool) : List ScalarPiece → PyStr
  | [] => []
  | .text s :: rest => s ++ fold false rest
  | .joined :: rest => fold true rest
  | .blank c :: rest => if inBreaks || breakAhead rest then fold inBreaks rest else c :: fold false rest
  | .lineBreak c :: rest =>
      (if inBreaks || decide (c ≠ newline) then [c] else if breakAhead rest then [] else [space]) ++ fold true rest

/-- A scalar in double quotes, all of the text. -/
def readQuoted (text : PyStr) : Option PyStr :=
  if text.head? = some (.unit 0x22) then (pieces 0 text.tail).map (fold false) else none

/-! ### Plain scalars -/

def nullWords : List PyStr := [py "null", py "Null", py "NULL", py "~", []]

def trueWords : List PyStr :=
  [py "yes", py "Yes", py "YES", py "true", py "True", py "TRUE", py "on", py "On", py "ON"]

def falseWords : List PyStr :=
  [py "no", py "No", py "NO", py "false", py "False", py "FALSE", py "off", py "Off", py "OFF"]

/-- The value of a run of digits. -/
def digits? (s : PyStr) : Option Nat :=
  if s ≠ [] ∧ s.all (fun c => decide (CodePoint.unit 0x30 ≤ c ∧ c ≤ .unit 0x39)) = true then
    some (digitsValue (s.flatMap CodePoint.units))
  else none

/-- A run of digits that is no octal number. -/
def natural? (s : PyStr) : Option Nat :=
  if s.head? = some (.unit 0x30) ∧ s.tail ≠ [] then none else digits? s

/-- An integer as it is printed in decimals. -/
def decimal? (s : PyStr) : Option Int :=
  if s.head? = some (.unit 0x2D) then (natural? s.tail).map fun n : Nat => -(n : Int) else (natural? s).map Int.ofNat

def daysInMonth (year month : Nat) : Nat :=
  if month = 2 then if year % 4 = 0 ∧ (year % 100 ≠ 0 ∨ year % 400 = 0) then 29 else 28
  else if month ∈ [4, 6, 9, 11] then 30 else 31

/-- The form of a day, `[0-9]{4}-[0-9]{2}-[0-9]{2}`, and whether there is one: `datetime.date` takes it. -/
def day? (s : PyStr) : Option Bool :=
  match s with
  | [a, b, c, d, dash, e, f, dash', g, h] =>
      if dash = .unit 0x2D ∧ dash' = .unit 0x2D then do
        let year ← digits? [a, b, c, d]
        let month ← digits? [e, f]
        let day ← digits? [g, h]
        some (decide (1 ≤ year ∧ 1 ≤ month ∧ month ≤ 12 ∧ 1 ≤ day ∧ day ≤ daysInMonth year month))
      else none
  | _ => none

/-- A plain scalar, among words, decimals and days: other forms of numbers and times are not emitted. A date is
printed again as it was written. -/
def readPlain (text : PyStr) : Reading PyJson :=
  if text ∈ nullWords then .value .null
  else if text ∈ trueWords then .value (.bool true)
  else if text ∈ falseWords then .value (.bool false)
  else
    match decimal? text, day? text with
    | some n, _ => .value (.number (.int n))
    | none, some true => .value (.str text)
    | none, some false => .raises
    | none, none => .value (.str text)

/-- A scalar on a line; the line breaks behind a plain one are not part of it. -/
def readScalar (text : PyStr) : Reading PyJson :=
  if text.head? = some (.unit 0x22) then
    match readQuoted text with
    | some s => .value (.str s)
    | none => .malformed
  else readPlain (upToNewline text)

end ContextLayer.YamlScalars
