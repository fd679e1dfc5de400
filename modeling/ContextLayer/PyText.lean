import ContextLayer.Frontmatter

/-!
# Text as Python reads and prints it

`read_text` decodes and makes every line break a newline. `str` prints a JSON value as Python writes it,
and a cell of a table keeps a text on its line.
-/

namespace ContextLayer

open Text StableSort

/-- What Python asks the Unicode database of a character. -/
structure Unicode where
  isDecimal : CodePoint → Bool
  isPrintable : CodePoint → Bool
  isDecimal_ascii : ∀ u : UInt16, u < 0x80 → isDecimal (.unit u) = decide (0x30 ≤ u ∧ u ≤ 0x39)

/-- The database of characters, cut down to ASCII. -/
def asciiOnly : Unicode where
  isDecimal := fun p => match p with
    | .unit u => decide (0x30 ≤ u ∧ u ≤ 0x39)
    | .pair _ _ _ _ => false
  isPrintable := fun _ => false
  isDecimal_ascii := fun _ _ => rfl

namespace PyText

/-! ### Reading -/

def newline : CodePoint := .unit 0x0A

def carriageReturn : CodePoint := .unit 0x0D

/-- Behind a carriage return a newline belongs to it. -/
def newlinesAfter (afterReturn : Bool) : PyStr → PyStr
  | [] => []
  | p :: rest =>
      if p = carriageReturn then newline :: newlinesAfter true rest
      else if p = newline ∧ afterReturn = true then newlinesAfter false rest
      else p :: newlinesAfter false rest

/-- Universal newlines. -/
def newlines (s : PyStr) : PyStr := newlinesAfter false s

/-- `path.read_text(encoding="utf-8", errors="replace")`. -/
def readText (bytes : List UInt8) : PyStr := newlines (codePoints (ofUtf8 bytes))

/-! ### `str` and `repr` -/

def hexDigits (width n : Nat) : PyStr :=
  (List.range width).reverse.map fun i => .unit (hexDigit (n / 0x10 ^ i % 0x10))

def reprChar (unicode : Unicode) (quote : UInt16) : CodePoint → PyStr
  | .pair high low hhigh hlow =>
      if unicode.isPrintable (.pair high low hhigh hlow) then [.pair high low hhigh hlow]
      else py "\\U" ++ hexDigits 8 (CodePoint.pair high low hhigh hlow).ord
  | .unit u =>
      if u = quote ∨ u = 0x5C then [.unit 0x5C, .unit u]
      else if u = 0x09 then py "\\t"
      else if u = 0x0A then py "\\n"
      else if u = 0x0D then py "\\r"
      else if u < 0x20 ∨ u = 0x7F then py "\\x" ++ hexDigits 2 u.toNat
      else if u < 0x7F ∨ unicode.isPrintable (.unit u) then [.unit u]
      else if u < 0x100 then py "\\x" ++ hexDigits 2 u.toNat
      else py "\\u" ++ hexDigits 4 u.toNat

/-- `repr(s)`. -/
def reprStr (unicode : Unicode) (s : PyStr) : PyStr :=
  let quote : UInt16 := if CodePoint.unit 0x27 ∈ s ∧ CodePoint.unit 0x22 ∉ s then 0x22 else 0x27
  .unit quote :: (s.flatMap (reprChar unicode quote) ++ [.unit quote])

def nonFiniteRepr : NonFinite → PyStr
  | .nan => py "nan"
  | .infinity => py "inf"
  | .negInfinity => py "-inf"

mutual

/-- `repr(value)`. -/
def repr (unicode : Unicode) : PyJson → PyStr
  | .null => py "None"
  | .bool true => py "True"
  | .bool false => py "False"
  | .number n => n.text.text.map .unit
  | .nonFinite f => nonFiniteRepr f
  | .str s => reprStr unicode s
  | .arr items => py "[" ++ (py ", ").intercalate (reprItems unicode items) ++ py "]"
  | .obj members => py "\x7b" ++ (py ", ").intercalate (reprMembers unicode members) ++ py "\x7d"

def reprItems (unicode : Unicode) : List PyJson → List PyStr
  | [] => []
  | v :: rest => repr unicode v :: reprItems unicode rest

def reprMembers (unicode : Unicode) : List (PyStr × PyJson) → List PyStr
  | [] => []
  | (k, v) :: rest => (reprStr unicode k ++ py ": " ++ repr unicode v) :: reprMembers unicode rest

end

/-- `str(value)`. -/
def str (unicode : Unicode) : PyJson → PyStr
  | .str s => s
  | v => repr unicode v

def natText (n : Nat) : PyStr := (JsNumber.ofNat n).text.map .unit

/-! ### `json.dumps` with an indent -/

/-- A line break and two spaces for each level. -/
def indentation (level : Nat) : PyStr := newline :: List.replicate (2 * level) (.unit 0x20)

/-- The parts of a list or a mapping, each on a line of its own. -/
def block (level : Nat) (opening closing : PyStr) (parts : List PyStr) : PyStr :=
  if parts = [] then opening ++ closing
  else opening ++ indentation (level + 1) ++
    (py "," ++ indentation (level + 1)).intercalate parts ++ indentation level ++ closing

mutual

/-- `indent=2, ensure_ascii=False`. -/
def dumpsIndented (level : Nat) : PyJson → PyStr
  | .arr items => block level (py "[") (py "]") (indentedItems (level + 1) items)
  | .obj members => block level (py "\x7b") (py "\x7d") (indentedMembers (level + 1) members)
  | .null => py "null"
  | .bool true => py "true"
  | .bool false => py "false"
  | .number n => n.text.text.map .unit
  | .nonFinite f => f.text
  | .str s => pyQuote s

def indentedItems (level : Nat) : List PyJson → List PyStr
  | [] => []
  | v :: rest => dumpsIndented level v :: indentedItems level rest

def indentedMembers (level : Nat) : List (PyStr × PyJson) → List PyStr
  | [] => []
  | (k, v) :: rest => (pyQuote k ++ py ": " ++ dumpsIndented level v) :: indentedMembers level rest

end

/-! ### Cells -/

def cellChar (p : CodePoint) : PyStr :=
  if p = .unit 0x5C then py "\\\\"
  else if p = .unit 0x7C then py "\\|"
  else if p = newline then py "<br>"
  else [p]

/-- `cell`: the three line breaks are one. -/
def cell (text : PyStr) : PyStr := (newlines text).flatMap cellChar

def code (text : PyStr) : PyStr := py "\x60" ++ cell text ++ py "\x60"

/-- `DASH`. -/
def dash : PyStr := py "—"

/-- `_opt_cell`. -/
def optCell (value : Option PyStr) : PyStr := value.elim dash cell

/-- `_code_or_dash`. -/
def codeOrDash (value : Option PyStr) : PyStr := value.elim dash code

/-- `", ".join(code(c) for c in columns)`. -/
def codes (columns : List PyStr) : PyStr := (py ", ").intercalate (columns.map code)

end PyText

/-! ### Emission -/

namespace Frontmatter

/-- The match of an expression that ends in `$`, which also matches ahead of a last newline. -/
def upToNewline (s : PyStr) : PyStr := if s.getLast? = some PyText.newline then s.dropLast else s

/-- `_DATE`. -/
def isDate (unicode : Unicode) (s : PyStr) : Bool :=
  match upToNewline s with
  | [a, b, c, d, dash, e, f, dash', g, h] =>
      [a, b, c, d, e, f, g, h].all unicode.isDecimal && dash == .unit 0x2D && dash' == .unit 0x2D
  | _ => false

def isLetter : CodePoint → Bool
  | .pair _ _ _ _ => false
  | .unit u => decide ((0x41 ≤ u ∧ u ≤ 0x5A) ∨ (0x61 ≤ u ∧ u ≤ 0x7A) ∨ u = 0x5F)

/-- A character behind the first of `_PLAIN`. -/
def isPlainChar : CodePoint → Bool
  | .pair _ _ _ _ => false
  | .unit u => isLetter (.unit u) || decide (0x2D ≤ u ∧ u ≤ 0x39)

/-- `_PLAIN`. -/
def isPlain (s : PyStr) : Bool :=
  match upToNewline s with
  | [] => false
  | p :: rest => isLetter p && rest.all isPlainChar

/-- `scalar`, of a string. -/
def scalar (unicode : Unicode) (value : PyStr) : PyStr :=
  if isDate unicode value || isPlain value then value else pyQuote value

structure RosterEntry where
  object : PyStr
  kind : PyStr
  schemaHash : PyStr

inductive FieldValue where
  | null
  | bool (b : Bool)
  | int (n : Int)
  | text (value : PyStr)
  | objects (roster : List RosterEntry)

abbrev Fields := List (PyStr × FieldValue)

def rosterLine (e : RosterEntry) : PyStr :=
  py "  - \x7b object: " ++ pyQuote e.object ++ py ", kind: " ++ e.kind ++ py ", schema_hash: " ++
    pyQuote e.schemaHash ++ py " \x7d\n"

/-- `str(value)`, of an integer. -/
def intText (n : Int) : PyStr := (JsNumber.ofInt n).text.map .unit

def fieldLines (unicode : Unicode) : PyStr × FieldValue → PyStr
  | (key, .null) => key ++ py ": null\n"
  | (key, .bool b) => key ++ py ": " ++ py (if b then "true" else "false") ++ py "\n"
  | (key, .int n) => key ++ py ": " ++ intText n ++ py "\n"
  | (key, .text value) => key ++ py ": " ++ scalar unicode value ++ py "\n"
  | (_, .objects roster) => py "objects:\n" ++ roster.flatMap rosterLine

/-- `emit`. -/
def emit (unicode : Unicode) (fields : Fields) : PyStr :=
  fence ++ fields.flatMap (fieldLines unicode) ++ fence

end Frontmatter

end ContextLayer
