import Mathlib.Data.List.DropRight
import ContextLayer.Trailers

/-!
# The changelog of a sync pull request

`buildBody` pastes what the sources hold into Markdown: the names of their objects, the reasons a
system gives, the paths of documents. A line is a literal the source file begins it with and a
template after it, so a reader of the merged body meets text of a source only after that literal,
as long as no such text ends a line.
-/

namespace ContextLayer

open Text

/-! ### `neutralize` -/

def isBreak (u : UInt16) : Bool := u == 0x0A || u == 0x0D

/-- `replace(/[\r\n]+/g, " ")`: the last unit of a run becomes the blank. -/
def collapseBreaks : Text → Text
  | [] => []
  | u :: s =>
      if isBreak u then
        if s.head?.any isBreak then collapseBreaks s else 0x20 :: collapseBreaks s
      else u :: collapseBreaks s

/-- `replace(/u/g, by)`. -/
def replaceUnit (u : UInt16) (replacement s : Text) : Text :=
  s.flatMap fun v => if v = u then replacement else [v]

/-- The replacements after the first, in their order. -/
def markdownEscapes : List (UInt16 × Text) :=
  [(0x26, js "&amp;"), (0x3C, js "&lt;"), (0x3E, js "&gt;"), (0x60, js "'"), (0x40, js "&#64;"),
    (0x5B, js "&#91;"), (0x5D, js "&#93;"), (0x2A, js "&#42;"), (0x7C, js "&#124;")]

def neutralize (value : Text) : Text :=
  markdownEscapes.foldl (fun s e => replaceUnit e.1 e.2 s) (collapseBreaks value)

/-! ### Lines -/

/-- What a template literal is made of: text of the source file, and values it passes through
`neutralize`. -/
inductive Piece where
  | literal (text : Text) (plain : text.any isLineTerminator = false)
  | shown (value : Text)

def Piece.render : Piece → Text
  | .literal text _ => text
  | .shown value => neutralize value

def lit (s : String) (h : (js s).any isLineTerminator = false := by decide) : Piece :=
  .literal (js s) h

/-- `${n}`. -/
def printed (n : JsNumber) : Piece :=
  .literal n.text <| List.any_eq_false.mpr fun u hu hline => by
    have hnumeric := n.numeric u hu
    simp only [isLineTerminator, Bool.or_eq_true, beq_iff_eq] at hline
    obtain ((rfl | rfl) | rfl) | rfl := hline <;> exact absurd hnumeric (by decide)

/-- `parts.join(separator)`. -/
def joined (separator : String) (h : (js separator).any isLineTerminator = false) :
    List (List Piece) → List Piece
  | [] => []
  | [part] => part
  | part :: parts => part ++ lit separator h :: joined separator h parts

/-- The literals `buildBody` begins a line with. -/
inductive Lead where
  | wheel
  | graphOnly
  | wheelOnly
  | breaking
  | contaminates
  | renameCandidates
  | withNote
  | additive
  | metadataOnly
  | stale
  | excluded
  | undeclared
  | undeclaredNote
  | undeclaredNoteEnd
  | item
  deriving DecidableEq

def Lead.text : Lead → Text
  | .wheel => js "> Leads with a vendored validation wheel update "
  | .graphOnly =>
      js ("Graph-only run: no snapshot drift pending. This PR carries publish " ++
        "attestations recorded since the last regeneration into `lineage/graph.json` " ++
        "— report nodes and their gateway edges (CP-7 F-4). Additive by " ++
        "construction: BI-side nodes cannot contaminate a doc, so no " ++
        "contamination scan and no re-render ran.")
  | .wheelOnly => js "Wheel-only run: no drift pending; carry forced by a manual sync."
  | .breaking => js "## Breaking"
  | .contaminates => js "  - contaminates `"
  | .renameCandidates => js "### Rename candidates"
  | .withNote => js "## Additive (with note)"
  | .additive => js "## Additive"
  | .metadataOnly => js "## Metadata-only (regenerated, never scanned)"
  | .stale => js "## Docs marked stale"
  | .excluded => js "## Systems excluded from this run (SY-6)"
  | .undeclared => js "## Undeclared possible references"
  | .undeclaredNote => js "Body-text mentions of changed objects in docs that do not declare them —"
  | .undeclaredNoteEnd => js "surfaced for review, never auto-flagged (KB §6 step 5)."
  | .item => js "- `"

inductive Line where
  | blank
  | led (lead : Lead) (rest : List Piece)

def renderPieces (pieces : List Piece) : Text := pieces.flatMap Piece.render

def Line.render : Line → Text
  | .blank => []
  | .led lead rest => lead.text ++ renderPieces rest

/-- `lines.join("\n")`. -/
def joinLines : List Line → Text
  | [] => []
  | [line] => line.render
  | line :: lines => line.render ++ 0x0A :: joinLines lines

/-- `lines.sort()`. -/
def sortLines (lines : List Line) : List Line :=
  lines.insertionSort fun a b => a.render ≤ b.render

/-- `sort((a, b) => (a.key < b.key ? -1 : 1))`, which keeps the order of equal keys. -/
def sortOn {α : Type} (key : α → Text) (items : List α) : List α :=
  items.insertionSort fun a b => key a ≤ key b

/-! ### What the Python stages hand over -/

structure ObjectIdentity where
  kind : Text
  schema : Text
  name : Text

/-- `column`, `key` and `stat` are the members of `detail` that are read. -/
structure SubDiff where
  change : Text
  column : Option Text
  key : Option Text
  stat : Option Text
  downgraded : Option Text

structure RenameCandidate where
  fromColumn : Text
  toColumn : Text
  type : Text
  ordinal : JsNumber
  interpretations : List Text

structure DiffObject where
  identity : ObjectIdentity
  severity : Option Text
  subDiffs : List SubDiff
  renameCandidates : List RenameCandidate
  metadataChanges : List Text

structure FinalizedDiff where
  system : Text
  added : List DiffObject
  changedStructural : List DiffObject
  changedMetadataOnly : List DiffObject

structure ContaminationReason where
  object : Text
  path : Option (List Text)

structure ContaminatedDoc where
  doc : Text
  reasons : List ContaminationReason

structure StaleDoc where
  doc : Text
  objects : List Text

/-- `breaking` is keyed by FQN; of its values only `detail` is shown. -/
structure ScanResult where
  contaminated : List ContaminatedDoc
  stale : List StaleDoc
  undeclaredReferences : List (Text × Text)
  breaking : List (Text × Text)

structure WheelUpdate where
  fromVersion : Option Text
  toVersion : Text

structure ChangelogInput where
  diffs : List FinalizedDiff
  scan : Option ScanResult
  wheel : Option WheelUpdate
  excluded : List (Text × Text)
  graphOnly : Bool

/-! ### `buildBody` -/

def fqnOf (system : Text) (o : DiffObject) : Piece :=
  .shown (system ++ js "." ++ o.identity.schema ++ js "." ++ o.identity.name)

def wheelLines (input : ChangelogInput) : List Line :=
  match input.wheel with
  | none => []
  | some wheel =>
      [.led .wheel [.shown (wheel.fromVersion.getD (js "(none)")), lit " → ", .shown wheel.toVersion,
        lit " (sync spec §10); this PR's KB CI already runs the new wheel."], .blank]

/-- `contaminatedByObject.get(fqn) ?? []`. -/
def contaminatedBy (scan : ScanResult) (fqn : Text) : List (Text × Option (List Text)) :=
  scan.contaminated.flatMap fun c =>
    (c.reasons.filter fun reason => decide (reason.object = fqn)).map fun reason =>
      (c.doc, reason.path)

def hitLine (hit : Text × Option (List Text)) : Line :=
  match hit.2 with
  | some path =>
      .led .contaminates <| [.shown hit.1, lit "` (lineage path: "] ++
        joined " → " (by decide) (path.map fun p => [lit "`", .shown (p.take 19), lit "…`"]) ++
        [lit ")"]
  | none => .led .contaminates [.shown hit.1, lit "` (declared dependency)"]

def breakingLines (scan : ScanResult) : List Line :=
  if scan.breaking.isEmpty then []
  else [.led .breaking [], .blank] ++
    (sortOn Prod.fst scan.breaking).flatMap (fun (fqn, detail) =>
      .led .item [.shown fqn, lit "` — ", .shown detail] ::
        (sortOn Prod.fst (contaminatedBy scan fqn)).map hitLine) ++ [.blank]

/-- A section that is left out when it has no line. -/
def sortedSection (heading : Lead) (lines : List Line) : List Line :=
  if lines.isEmpty then [] else [.led heading [], .blank] ++ sortLines lines ++ [.blank]

/-- `neutralize(candidate.interpretations[i])`. -/
def interpretation (candidate : RenameCandidate) (i : Nat) : Piece :=
  .shown (candidate.interpretations[i]?.getD (js "undefined"))

def renameLine (system : Text) (obj : DiffObject) (candidate : RenameCandidate) : Line :=
  .led .item [fqnOf system obj, lit "`: `", .shown candidate.fromColumn, lit "` → `",
    .shown candidate.toColumn, lit "` (type ", .shown candidate.type, lit ", ordinal ",
    printed candidate.ordinal, lit ") — either **", interpretation candidate 0, lit "** or **",
    interpretation candidate 1, lit "**; the removal is breaking under both readings"]

def renameLines (input : ChangelogInput) : List Line :=
  sortedSection .renameCandidates <| (sortOn FinalizedDiff.system input.diffs).flatMap fun diff =>
    diff.changedStructural.flatMap fun obj =>
      obj.renameCandidates.map (renameLine diff.system obj)

def subPieces (s : SubDiff) : List Piece :=
  let target := (s.column.or (s.key.or s.stat)).getD []
  .shown s.change :: (if target = [] then [] else [lit ": ", .shown target]) ++
    if s.downgraded.any (· ≠ []) then
      [lit " (downgraded per §7 note ³: output columns and mappings unchanged)"]
    else []

def addedLine (system : Text) (obj : DiffObject) : Line :=
  .led .item [fqnOf system obj, lit "` — added (", .shown obj.identity.kind, lit ")"]

def structuralLine (system : Text) (obj : DiffObject) : Line :=
  .led .item <| [fqnOf system obj, lit "` — "] ++
    joined "; " (by decide) (obj.subDiffs.map subPieces)

def metadataLine (system : Text) (obj : DiffObject) : Line :=
  .led .item <| [fqnOf system obj, lit "` — "] ++
    joined ", " (by decide) (obj.metadataChanges.map fun change => [.shown change])

def withNoteLines (input : ChangelogInput) : List Line :=
  sortedSection .withNote <| (sortOn FinalizedDiff.system input.diffs).flatMap fun diff =>
    (diff.changedStructural.filter fun obj =>
      decide (obj.severity = some (js "additive-with-note"))).map (structuralLine diff.system)

def additiveLines (input : ChangelogInput) : List Line :=
  sortedSection .additive <| (sortOn FinalizedDiff.system input.diffs).flatMap fun diff =>
    diff.added.map (addedLine diff.system) ++
      (diff.changedStructural.filter fun obj =>
        decide (obj.severity ≠ some (js "breaking")) &&
          decide (obj.severity ≠ some (js "additive-with-note"))).map (structuralLine diff.system)

def metadataOnlyLines (input : ChangelogInput) : List Line :=
  sortedSection .metadataOnly <| (sortOn FinalizedDiff.system input.diffs).flatMap fun diff =>
    diff.changedMetadataOnly.map (metadataLine diff.system)

def staleLines (scan : ScanResult) : List Line :=
  if scan.stale.isEmpty then []
  else [.led .stale [], .blank] ++
    (sortOn StaleDoc.doc scan.stale).map (fun s =>
      .led .item <| [.shown s.doc, lit "` (additive drift on "] ++
        joined ", " (by decide) (s.objects.map fun o => [lit "`", .shown o, lit "`"]) ++
        [lit ")"]) ++ [.blank]

def excludedLines (input : ChangelogInput) : List Line :=
  if input.excluded.isEmpty then []
  else [.led .excluded [], .blank] ++
    (sortOn Prod.fst input.excluded).map (fun (system, reason) =>
      .led .item [.shown system, lit "` — ", .shown reason]) ++ [.blank]

def undeclaredLines (scan : ScanResult) : List Line :=
  if scan.undeclaredReferences.isEmpty then []
  else [.led .undeclared [], .blank, .led .undeclaredNote [], .led .undeclaredNoteEnd [], .blank] ++
    scan.undeclaredReferences.map (fun (doc, object) =>
      .led .item [.shown doc, lit "` mentions `", .shown object, lit "`"]) ++ [.blank]

/-- The array `lines`, before it is joined. -/
def bodyLines (input : ChangelogInput) : List Line :=
  wheelLines input ++
    match input.scan with
    | none => [.led (if input.graphOnly then .graphOnly else .wheelOnly) []]
    | some scan =>
        breakingLines scan ++ renameLines input ++ withNoteLines input ++ additiveLines input ++
          metadataOnlyLines input ++ staleLines scan ++ excludedLines input ++ undeclaredLines scan

def buildBody (input : ChangelogInput) : Text :=
  let joined := joinLines (bodyLines input)
  if input.scan.isSome then joined.rdropWhile (fun u => u == 0x0A) ++ [0x0A] else joined ++ [0x0A]

/-! ### What a reader of the body may meet -/

/-- Blank, or begun by a literal of the source file. -/
def OwnLine (line : Text) : Prop :=
  line.all isSpace = true ∨ ∃ lead : Lead, lead.text <+: line

/-- **The body is inert**: it resolves no issue, and every line of it is the file's own. -/
structure Inert (body : Text) : Prop where
  trailers : parseResolveTrailers body = []
  lines : ∀ line ∈ body.splitOnP isLineTerminator, OwnLine line

/-- The line terminators `neutralize` leaves. -/
def isSeparator (u : UInt16) : Bool := u == 0x2028 || u == 0x2029

/-- What is left of a line. -/
def restOfLine (s : Text) : Text := s.takeWhile fun u => !isLineTerminator u

/-- What follows a separator in a value that is shown, and what the template puts after it, could
stand at the start of a line of the file's own. -/
def Quiet : List Piece → Prop
  | [] => True
  | .literal _ _ :: rest => Quiet rest
  | .shown value :: rest =>
      (∀ a u b, value = a ++ u :: b → isSeparator u = true →
        OwnLine (restOfLine (neutralize b ++ renderPieces rest))) ∧ Quiet rest

def Line.pieces : Line → List Piece
  | .blank => []
  | .led _ rest => rest

def Piece.value? : Piece → Option Text
  | .literal _ _ => none
  | .shown value => some value

/-- Every value of the sources that the body shows. -/
def shownValues (input : ChangelogInput) : List Text :=
  (bodyLines input).flatMap fun line => line.pieces.filterMap Piece.value?

end ContextLayer
