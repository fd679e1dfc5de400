import ContextLayer.Lib.Alignment
import ContextLayer.PyValues

/-!
# The comparison of two results

A result of an agent is held against the golden one. Where the source is stable their canonical CSV must have one
checksum; elsewhere the rows are sorted by what they print and compared cell by cell, numbers within a tolerance.
-/

namespace ContextLayer.Benchmark

open Text StableSort PyValues Alignment

/-- A cell of a result. A float counts as the rational number it is. -/
inductive Cell where
  | null
  | bool (b : Bool)
  | int (n : Int)
  | decimal (d : Decimal)
  | float (f : PyFloat)
  | date (d : Date)
  | datetime (t : DateTime)
  | text (s : PyStr)

/-! ### Rendering -/

def comma : CodePoint := .unit 0x2C

def quoteMark : CodePoint := .unit 0x22

/-- What makes a field need quotes. -/
def isSpecial (p : CodePoint) : Bool :=
  decide (p ∈ [comma, quoteMark, PyText.newline, PyText.carriageReturn])

/-- A quotation mark is doubled. -/
def doubled (p : CodePoint) : PyStr := if p = quoteMark then [quoteMark, quoteMark] else [p]

def quotedField (text : PyStr) : PyStr := quoteMark :: (text.flatMap doubled ++ [quoteMark])

/-- `_csv_escape`. -/
def csvEscape (text : PyStr) : PyStr := if text.any isSpecial then quotedField text else text

/-- `_render_cell`. -/
def renderCell : Cell → PyStr
  | .null => []
  | .bool b => py (if b then "true" else "false")
  | .int n => Frontmatter.intText n
  | .decimal d => d.normalize.fixedPoint
  | .float f => f.text.text.map .unit
  | .date d => d.isoformat
  | .datetime t => t.isoformat
  | .text s => csvEscape s

/-- `_row_key`. -/
def rowKey (row : List Cell) : PyStr := pyJoinComma (row.map renderCell)

def csvLine (line : PyStr) : PyStr := line ++ [PyText.newline]

/-- `canonical_csv`. -/
def canonicalCsv (columns : List PyStr) (rows : List (List Cell)) : PyStr :=
  (pyJoinComma (columns.map csvEscape) :: StableSort.sortOn id (rows.map rowKey)).flatMap csvLine

/-- `csv_checksum`; `none` is a `UnicodeEncodeError`. -/
def csvChecksum (sha256 : List UInt8 → PyStr) (columns : List PyStr) (rows : List (List Cell)) : Option PyStr :=
  (encodeUtf8 (canonicalCsv columns rows)).map fun bytes => py "sha256:" ++ sha256 bytes

/-! ### Equality -/

/-- `FLOAT_REL_TOL`. -/
def FLOAT_REL_TOL : ℚ := 1 / 10 ^ 9

def Cell.isNull : Cell → Bool
  | .null => true
  | _ => false

def Cell.isInt : Cell → Bool
  | .int _ => true
  | _ => false

/-- The number of a cell that `_is_number`. -/
def Cell.number? : Cell → Option ℚ
  | .int n => some n
  | .decimal d => some d.value
  | .float f => some (PyNumber.float f).value
  | _ => none

/-- Within the tolerance of each other. -/
def close (x y : ℚ) : Bool :=
  let scale := max |x| |y|
  decide (x = y) || decide (|x - y| ≤ if scale ≠ 0 then FLOAT_REL_TOL * scale else FLOAT_REL_TOL)

/-- `values_equal`. -/
def valuesEqual (a b : Cell) : Bool :=
  if a.isNull || b.isNull then a.isNull && b.isNull
  else
    match a.number?, b.number? with
    | some x, some y => if a.isInt && b.isInt then decide (x = y) else close x y
    | _, _ => decide (renderCell a = renderCell b)

/-- `_values_multiset_match`: that the values match, and that only integers differ. -/
def valuesMultisetMatch (columns : List PyStr) (rowsG rowsA : List (List Cell)) : Bool × Bool :=
  if rowsG.length ≠ rowsA.length then (false, false)
  else if rowsG.any fun row => row.length != columns.length then (false, false)
  else if rowsA.any fun row => row.length != columns.length then (false, false)
  else
    let pairs := (StableSort.sortOn rowKey rowsG).zip (StableSort.sortOn rowKey rowsA)
    let allMatch := pairs.all fun (rg, ra) => (rg.zip ra).all fun (cg, ca) => valuesEqual cg ca
    let onlyIntDiffs := pairs.all fun (rg, ra) =>
      (rg.zip ra).all fun (cg, ca) => valuesEqual cg ca || (cg.isInt && ca.isInt)
    (allMatch, !allMatch && onlyIntDiffs)

/-! ### The verdict -/

inductive CompareMode where
  | checksum
  | structural
  deriving DecidableEq

inductive CompareNote where
  | aliased
  | drifted
  deriving DecidableEq

def CompareNote.text : CompareNote → PyStr
  | .aliased => py
      "values agree but packet checksum differs (column aliasing or ordering) — data correct, byte form not identical"
  | .drifted => py ("integer counts differ between same-run golden and agent executions on a live-mutating source — " ++
      "drift, not error")

structure ResultComparison where
  mode : CompareMode
  correct : Bool
  shapeMatch : Bool
  goldenShape : Nat × Nat
  agentShape : Nat × Nat
  checksumMatch : Bool
  goldenChecksum : PyStr
  agentChecksum : PyStr
  valuesMatch : Bool
  drift : Bool
  notes : List CompareNote

/-- A result whose rows have the width of its header. -/
structure Table where
  columns : List PyStr
  rows : List (List Cell)
  width : ∀ row ∈ rows, row.length = columns.length

section

variable (sha256 : List UInt8 → PyStr)

/-- `compare_results`; `none` is an exception. -/
def compareResults (byteStable : Bool) (golden agent : Table) : Option ResultComparison := do
  let goldenShape := (golden.columns.length, golden.rows.length)
  let agentShape := (agent.columns.length, agent.rows.length)
  let shapeMatch := decide (goldenShape = agentShape)
  let goldenChecksum ← csvChecksum sha256 golden.columns golden.rows
  let agentChecksum ← csvChecksum sha256 agent.columns agent.rows
  let checksumMatch := decide (goldenChecksum = agentChecksum)
  let (valuesMatch, drift) := valuesMultisetMatch golden.columns golden.rows agent.rows
  pure {
    mode := if byteStable then .checksum else .structural
    correct := if byteStable then checksumMatch else shapeMatch && valuesMatch
    shapeMatch, goldenShape, agentShape, checksumMatch, goldenChecksum, agentChecksum, valuesMatch, drift
    notes :=
      if byteStable then if !checksumMatch && valuesMatch then [.aliased] else []
      else if shapeMatch && !valuesMatch && drift then [.drifted] else [] }

/-! ### What a comparison should say -/

/-- Two rows that are equal cell by cell. -/
def RowsEqual (row row' : List Cell) : Prop := List.Forall₂ (fun a b => valuesEqual a b = true) row row'

/-- The rows are equal one to one. -/
def Agree (golden agent : Table) : Prop := Matchable RowsEqual golden.rows agent.rows

/-- A cell that occurs where a result is stable. -/
def Cell.isPlain : Cell → Bool
  | .null | .int _ | .date _ | .datetime _ | .text _ => true
  | _ => false

def Table.IsPlain (t : Table) : Prop := ∀ row ∈ t.rows, ∀ c ∈ row, c.isPlain = true

/-- The comparison of values is a matching, and a checksum vouches for one. -/
structure Sound (golden agent : Table) : Prop where
  values : (valuesMultisetMatch golden.columns golden.rows agent.rows).1 = true ↔ Agree golden agent
  checksum : golden.IsPlain → agent.IsPlain → ∀ r, compareResults sha256 true golden agent = some r →
    r.correct = true → golden.columns = agent.columns ∧ Agree golden agent

end

/-! ### Where it says so -/

/-- The fields of a line. A line without any shows one that is empty. -/
def fieldsOf (fields : List PyStr) : List PyStr := if fields = [] then [[]] else fields

/-- The header and the rows are printed alike, in any order of the rows. -/
def PrintAlike (golden agent : Table) : Prop :=
  fieldsOf golden.columns = fieldsOf agent.columns ∧
    (golden.rows.map fun row => fieldsOf (row.map renderCell)).Perm
      (agent.rows.map fun row => fieldsOf (row.map renderCell))

/-- What a cell shows, with a null told from a text that is empty. -/
def shown (c : Cell) : PyStr × Bool := (renderCell c, c.isNull)

/-- The rows that are equal are so in the order they are printed in, and tables that are printed alike are alike with
their nulls told from empty texts. -/
structure IsStraight (golden agent : Table) : Prop where
  uncrossed : Agree golden agent → MatchableInOrder RowsEqual rowKey rowKey golden.rows agent.rows
  nulls : golden.IsPlain → agent.IsPlain → (canonicalCsv golden.columns golden.rows).any CodePoint.isLone = false →
    PrintAlike golden agent →
      golden.columns = agent.columns ∧ (golden.rows.map (List.map shown)).Perm (agent.rows.map (List.map shown))

end ContextLayer.Benchmark
