import ContextLayer.Restamp
import ContextLayer.Statuses

/-!
# What a sync renders again

A sync renders the pins that have changed, and those in whose directories it has marked a document. The directories are
told from the paths of the documents, and those of the pins by a second copy of the mangling. What is left should be what
a render of all pins leaves.
-/

namespace ContextLayer.Rerender

open Text PyText Render
open Statuses (Instruction applyAll)

/-! ### Names -/

def isLegalChar : CodePoint → Bool
  | .pair _ _ _ _ => false
  | .unit u => decide ((0x61 ≤ u ∧ u ≤ 0x7A) ∨ (0x30 ≤ u ∧ u ≤ 0x39) ∨ u = 0x5F ∨ u = 0x2D)

/-- The pattern of `readConnectionSpec`. -/
def isLegalSystem (name : PyStr) : Bool :=
  name.all isLegalChar && name.head?.any (fun c => decide (c ≠ .unit 0x5F ∧ c ≠ .unit 0x2D)) && decide (name.length ≤ 63)

/-- `mangle`, of the orchestrator: it works on UTF-16, so a character of two units is replaced twice. -/
def mangleUnits (name : PyStr) : PyStr :=
  name.flatMap fun c =>
    match c with
    | .pair _ _ _ _ => py "--"
    | .unit u => Naming.mangleChar (.unit u)

/-- `/^systems\/([^/]+)\//`. -/
def directoryOf (doc : PyStr) : Option PyStr :=
  if py "systems/" <+: doc then
    let dir := (doc.drop 8).takeWhile (· ≠ slash)
    if dir ≠ [] ∧ dir.length < (doc.drop 8).length then some dir else none
  else none

/-! ### The stages -/

/-- The pin of a system is the file of its name. -/
def updatePins (pins changed : List Snapshot) : List Snapshot :=
  (pins.filter fun s => decide (s.system ∉ changed.map Snapshot.system)) ++ changed

/-- `instructions`. -/
def instructionsOf (scan : Scan.ScanResult) : List Instruction :=
  scan.contaminated.map (fun c => ⟨c.doc, .contaminated, .set c.contamination⟩) ++
    scan.stale.map fun s => ⟨s.doc, .stale, .keep⟩

/-- `statusTouchedDirs`. -/
def touchedDirectories (changed : List Snapshot) (instructions : List Instruction) : List PyStr :=
  (instructions.filterMap fun i => directoryOf i.doc).filter fun dir =>
    decide (dir ∉ changed.map fun s => mangleUnits s.system)

/-- `foreignPins`. -/
def foreignPins (pins changed : List Snapshot) (instructions : List Instruction) : List Snapshot :=
  pins.filter fun s => decide (mangleUnits s.system ∈ touchedDirectories changed instructions)

def renderInputs (pins changed : List Snapshot) (scan : Scan.ScanResult) : List Snapshot :=
  changed ++ foreignPins (updatePins pins changed) changed (instructionsOf scan)

section

variable (unicode : Unicode) (yaml : Yaml)

/-- The status writes, and the renders behind them; `none` is a stage that fails. -/
def rerender (pins changed : List Snapshot) (scan : Scan.ScanResult) (files : Files) : Option Files :=
  match applyAll yaml files (instructionsOf scan) with
  | (marked, .ok _) => renderTree unicode yaml (renderInputs pins changed scan) marked
  | (_, .error _) => none

/-- **Nothing is left to render**: a render of all pins changes no file, and each document shows what the human documents
of the tree say. -/
structure IsComplete (pins : List Snapshot) (files : Files) : Prop where
  settled : renderTree unicode yaml pins files = some files
  current : ∀ s ∈ pins, ∀ plan, expectedDocs s = some plan → ∀ doc ∈ plan, ∃ bytes date,
    files doc.1 = some bytes ∧ Version.Bears unicode ⟨s, doc.2, humanInfo yaml files⟩ bytes date

/-! ### When nothing is -/

/-- The date a document will bear: that of the file, if the file is the document with some texts in its slots. -/
def NextStamp (files : Files) (s : Snapshot) (doc : PyStr × DocEntry) (date : PyStr) : Prop :=
  let v : Version := ⟨s, doc.2, humanInfo yaml files⟩
  let Keeps := fun d => ∃ bytes, files doc.1 = some bytes ∧ oldDate unicode yaml (readText bytes) = some d ∧
    IsFilling (readText bytes) (v.text unicode d .absent) (v.text unicode d .marker)
  Keeps date ∨ (∀ d, ¬ Keeps d) ∧ date = s.capturedAt.take 10

/-- The front matter of a document, ahead of its body. -/
def blockOf (s : Snapshot) (entry : DocEntry) (date : PyStr) : PyStr :=
  (fieldsFor s entry date).flatMap (Frontmatter.fieldLines unicode)

/-- What a body that takes a machine document for a sibling reads of it. -/
def pageInfo (s : Snapshot) (entry : DocEntry) (date : PyStr) : Info :=
  ⟨true, match yaml.load (blockOf unicode s entry date) with
    | some (.obj members) => members
    | _ => []⟩

/-- The index at the path of the human document of an object that is called `index`. -/
def indexDoc (s : Snapshot) (o : SourceObject) : PyStr × DocEntry :=
  (schemaIndexPath s.system o.schema, .schemaIndex o.schema (membersOf s SourceObject.schema o.schema))

/-- The same is printed of an object. -/
structure PrintsSame (o : SourceObject) (i j : Info) : Prop where
  exists? : i.exists? = j.exists?
  status : statusCell i.fm = statusCell j.fm
  purpose : purposeCell (Frontmatter.get i.fm "purpose") .real = purposeCell (Frontmatter.get j.fm "purpose") .real
  columns : ∀ c ∈ o.columns, purposeCell (Dict.get? (fmMap i.fm "column_purposes") c.name) .real =
    purposeCell (Dict.get? (fmMap j.fm "column_purposes") c.name) .real

/-- The loader takes the front matter that is written, and of an object that is called `index` the file at the path of its
human document says what the index will say that is written there. -/
structure Settles (files : Files) (s : Snapshot) : Prop where
  reads : ∀ plan, expectedDocs s = some plan → ∀ doc ∈ plan, ∀ date, NextStamp unicode yaml files s doc date →
    yaml.raises (blockOf unicode s doc.2 date) = false
  same : s.systemClass = .sql → ∀ o ∈ known s, Naming.mangle o.name = py "index" → ∀ date,
    NextStamp unicode yaml files s (indexDoc s o) date →
      PrintsSame o (humanInfo yaml files (objectPath s.system o ".md")) (pageInfo unicode yaml s (indexDoc s o).2 date)

end

end ContextLayer.Rerender
