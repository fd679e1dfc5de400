import ContextLayer.Pages
import ContextLayer.Scan

/-!
# Status writes

The sync marks a human document by rewriting two entries of its front matter, line by line. A line that is there
already is replaced through a template of regular expressions, one that is not is inserted as it is. What was written is
read back before it is kept.
-/

namespace ContextLayer.Statuses

open Text PyText Frontmatter YamlScalars Render
open Scan (Reason)

/-! ### Instructions -/

inductive Mark where
  | contaminated
  | stale
  deriving DecidableEq

def Mark.text : Mark → PyStr
  | .contaminated => py "contaminated"
  | .stale => py "stale"

/-- The `contamination` of an instruction: absent, `null`, or an object. -/
inductive ContaminationEdit where
  | keep
  | clear
  | set (reason : Reason)

structure Instruction where
  doc : PyStr
  status : Mark
  contamination : ContaminationEdit

/-- `_flow_scalar`, of a list of strings. -/
def flowList (items : List PyStr) : PyStr := py "[" ++ (py ", ").intercalate (items.map pyQuote) ++ py "]"

/-- The entries of a reason, in the order of its keys. The path is there when it has edges. -/
def reasonEntries (r : Reason) : List PyStr :=
  [py "object: " ++ pyQuote r.object, py "change: " ++ pyQuote r.impact.change,
    py "detail: " ++ pyQuote r.impact.detail] ++ if r.path = [] then [] else [py "path: " ++ flowList r.path]

/-- `_contamination_line`, ahead of its line break. -/
def contaminationText : Option Reason → PyStr
  | none => py "contamination: null"
  | some r => py "contamination: \x7b" ++ (py ", ").intercalate (reasonEntries r) ++ py "\x7d"

/-! ### Substitution -/

/-- `ESCAPES` and the backslash, of a replacement template. -/
def templateEscapes : List (UInt16 × UInt16) :=
  [(0x61, 0x07), (0x62, 0x08), (0x66, 0x0C), (0x6E, 0x0A), (0x72, 0x0D), (0x74, 0x09), (0x76, 0x0B), (0x5C, 0x5C)]

def isAsciiLetter (u : UInt16) : Bool := decide ((0x41 ≤ u ∧ u ≤ 0x5A) ∨ (0x61 ≤ u ∧ u ≤ 0x7A))

/-- A backslash and the character behind it, in a template; `none` is a bad escape. A group reference is none of what is
substituted here. -/
def expandEscape : CodePoint → Option PyStr
  | .pair high low hhigh hlow => some [.unit 0x5C, .pair high low hhigh hlow]
  | .unit u =>
      match Dict.get? templateEscapes u with
      | some v => some [.unit v]
      | none => if isAsciiLetter u || decide (0x30 ≤ u ∧ u ≤ 0x39) then none else some [.unit 0x5C, .unit u]

/-- What a template stands for. -/
def expand : PyStr → Option PyStr
  | [] => some []
  | [c] => if c = .unit 0x5C then none else some [c]
  | c :: d :: rest =>
      if c = .unit 0x5C then (expandEscape d).bind fun s => (expand rest).map (s ++ ·)
      else (expand (d :: rest)).map (c :: ·)

/-! ### The lines of a front matter -/

/-- The lines of a text that ends with one. -/
def linesOf (s : PyStr) : List PyStr := (s.splitOn newline).dropLast

def unlines (ls : List PyStr) : PyStr := ls.flatMap (· ++ [newline])

def isStatusLine (l : PyStr) : Bool := decide (py "status:" <+: l)

def isContaminationLine (l : PyStr) : Bool := decide (py "contamination:" <+: l)

/-- `[ \t]+[^\n]*`. -/
def isIndented (l : PyStr) : Bool := l.head?.any isBlank

def replaceFirst (p : PyStr → Bool) (f : PyStr → List PyStr) : List PyStr → List PyStr
  | [] => []
  | l :: ls => if p l then f l ++ ls else l :: replaceFirst p f ls

/-- The first contamination line, and the indented lines under it. -/
def replaceBlock (new : List PyStr) : List PyStr → List PyStr
  | [] => []
  | l :: ls => if isContaminationLine l then new ++ ls.dropWhile isIndented else l :: replaceBlock new ls

def setStatus (status : Mark) (ls : List PyStr) : List PyStr :=
  replaceFirst isStatusLine (fun _ => [py "status: " ++ status.text]) ls

/-- The contamination field is replaced through a template, or inserted behind the status. -/
def setContamination (text : PyStr) (ls : List PyStr) : Option (List PyStr) :=
  if ls.any isContaminationLine then (expand (text ++ [newline])).map fun new => replaceBlock (linesOf new) ls
  else some (replaceFirst isStatusLine (fun l => [l, text]) ls)

def editLines (i : Instruction) (ls : List PyStr) : Option (List PyStr) :=
  match i.contamination with
  | .keep => some (setStatus i.status ls)
  | .clear => setContamination (contaminationText none) (setStatus i.status ls)
  | .set r => setContamination (contaminationText (some r)) (setStatus i.status ls)

/-! ### `apply_instruction` -/

inductive Refusal where
  | noFrontMatter
  | unterminated
  | noStatusLine
  | unparsed
  | statusMismatch
  | contaminationMismatch
  | noSuchDoc
  deriving DecidableEq

inductive Applied where
  | edited (text : PyStr)
  | refused (why : Refusal)
  /-- An exception that is no `StatusWriteError`. -/
  | raises
  deriving DecidableEq

/-- `value == path`, of a list of strings. -/
def isPath (path : List PyStr) : PyJson → Bool
  | .arr items => decide (items.map PyJson.asStr = path.map some)
  | _ => false

/-- `value == reason`, as dictionaries are compared. -/
def isReason (r : Reason) : PyJson → Bool
  | .obj members =>
      decide (members.length = (reasonEntries r).length) &&
        decide ((get members "object").bind PyJson.asStr = some r.object) &&
        decide ((get members "change").bind PyJson.asStr = some r.impact.change) &&
        decide ((get members "detail").bind PyJson.asStr = some r.impact.detail) &&
        (r.path.isEmpty || (get members "path").any (isPath r.path))
  | _ => false

def isNull : PyJson → Bool
  | .null => true
  | _ => false

/-- The requested contamination is what the mapping has. -/
def carries (fm : Members) : ContaminationEdit → Bool
  | .keep => true
  | .clear => ((get fm "contamination").getD .null |> isNull)
  | .set r => (get fm "contamination").any (isReason r)

def applyInstruction (yaml : Yaml) (text : PyStr) (i : Instruction) : Applied :=
  if ¬ fence <+: text then .refused .noFrontMatter
  else
    match find? (py "\n---\n") (text.drop 3) with
    | none => .refused .unterminated
    | some n =>
        let ls := linesOf ((text.drop 4).take n)
        if ls.any isStatusLine = false then .refused .noStatusLine
        else
          match editLines i ls with
          | none => .raises
          | some new =>
              let edited := fence ++ unlines new ++ text.drop (n + 4)
              if yaml.refuses edited = true ∨ yaml.refuses text = true then .raises
              else
                match split yaml.load edited with
                | (none, _) => .refused .unparsed
                | (some fm, body) =>
                    if body ≠ (split yaml.load text).2 then .refused .unparsed
                    else if (get fm "status").bind PyJson.asStr ≠ some i.status.text then .refused .statusMismatch
                    else if carries fm i.contamination = false then .refused .contaminationMismatch
                    else .edited edited

/-! ### `apply_all` -/

/-- The characters of a file; `none` is a `UnicodeDecodeError`. -/
def decode (bytes : List UInt8) : Option PyStr :=
  let s := codePoints (ofUtf8 bytes)
  if encodeUtf8 s = some bytes then some s else none

inductive Failure where
  | refused (doc : PyStr) (why : Refusal)
  | raises
  deriving DecidableEq

/-- The edit of one document: its new text, if there is one. -/
def planOne (yaml : Yaml) (files : Files) (i : Instruction) : Except Failure (Option PyStr) :=
  match files i.doc with
  | none => .error (.refused i.doc .noSuchDoc)
  | some bytes =>
      match decode bytes with
      | none => .error .raises
      | some s =>
          match applyInstruction yaml (newlines s) i with
          | .edited text => .ok (if text = newlines s then none else some text)
          | .refused why => .error (.refused i.doc why)
          | .raises => .error .raises

/-- `path.write_text`: a text without an encoding leaves the file empty. -/
def writeText (files : Files) (doc text : PyStr) : Files × Bool :=
  match encodeUtf8 text with
  | some bytes => (fun path => if path = doc then some bytes else files path, true)
  | none => (fun path => if path = doc then some [] else files path, false)

def writeAll (files : Files) : List (PyStr × PyStr) → Files × Bool
  | [] => (files, true)
  | (doc, text) :: rest =>
      match writeText files doc text with
      | (files', true) => writeAll files' rest
      | (files', false) => (files', false)

structure Report where
  edited : List PyStr
  unchanged : List PyStr
  deriving DecidableEq

def planAll (yaml : Yaml) (files : Files) : List Instruction → Except Failure (List (PyStr × Option PyStr))
  | [] => .ok []
  | i :: rest => do
      let text ← planOne yaml files i
      let plans ← planAll yaml files rest
      pure ((i.doc, text) :: plans)

/-- The files afterwards, and what is reported of them. -/
def applyAll (yaml : Yaml) (files : Files) (is : List Instruction) : Files × Except Failure Report :=
  match planAll yaml files is with
  | .error failure => (files, .error failure)
  | .ok plans =>
      let planned := plans.filterMap fun plan => plan.2.map (Prod.mk plan.1)
      match writeAll files planned with
      | (files', false) => (files', .error .raises)
      | (files', true) =>
          (files', .ok ⟨StableSort.sortOn id (planned.map Prod.fst),
            StableSort.sortOn id ((plans.filter fun plan => plan.2.isNone).map Prod.fst)⟩)

/-! ### What is asked of a mark -/

/-- The lines of the front matter, and what follows them. -/
def pageOf (text : PyStr) : Option (List PyStr × PyStr) :=
  if fence <+: text then
    (find? (py "\n---\n") (text.drop 3)).map fun n => (linesOf ((text.drop 4).take n), text.drop (n + 4))
  else none

/-- The lines but the status and the contamination. -/
def others (ls : List PyStr) : List PyStr := replaceBlock [] (replaceFirst isStatusLine (fun _ => []) ls)

/-- Only the two entries differ. -/
def Framed (s s' : PyStr) : Prop :=
  ∃ ls ls' rest, pageOf s = some (ls, rest) ∧ pageOf s' = some (ls', rest) ∧ others ls = others ls'

/-- A tree in which one document is another one. -/
def withDoc (files : Files) (doc : PyStr) (bytes : List UInt8) : Files :=
  fun path => if path = doc then some bytes else files path

/-- The document is marked: what was asked for is read back, the rest of the file is as it was, and marking it again
changes nothing. -/
def Holds (yaml : Yaml) (files : Files) (i : Instruction) (s : PyStr) : Prop :=
  ∃ bytes s' report, applyAll yaml files [i] = (withDoc files i.doc bytes, .ok report) ∧ decode bytes = some s' ∧
    (∃ fm body, split yaml.load (newlines s') = (some fm, body) ∧
      (get fm "status").bind PyJson.asStr = some i.status.text ∧ carries fm i.contamination = true) ∧
    Framed s s' ∧
    applyAll yaml (withDoc files i.doc bytes) [i] = (withDoc files i.doc bytes, .ok ⟨[], [i.doc]⟩)

/-- The instructions are all applied, or none is. -/
def AllOrNothing (yaml : Yaml) (files : Files) (is : List Instruction) : Prop :=
  (∃ failure, applyAll yaml files is = (files, .error failure)) ∨
    ∃ files' report, applyAll yaml files is = (files', .ok report) ∧
      (∀ i ∈ is, ∃ bytes s text, files i.doc = some bytes ∧ decode bytes = some s ∧
        applyInstruction yaml (newlines s) i = .edited text ∧
        files' i.doc = if text = newlines s then some bytes else encodeUtf8 text) ∧
      ∀ path, (∀ i ∈ is, i.doc ≠ path) → files' path = files path

/-! ### Front matter by entries -/

/-- A key, the rest of its line, and the lines under it. -/
structure Entry where
  key : PyStr
  value : PyStr
  more : List PyStr

def Entry.head (e : Entry) : PyStr := e.key ++ py ":" ++ e.value

def Entry.lines (e : Entry) : List PyStr := e.head :: e.more

/-- An empty line or a comment. -/
def IsFiller (l : PyStr) : Prop := newline ∉ l ∧ (l = [] ∨ l.head? = some (.unit 0x23))

/-- A line that belongs to the entry above it. -/
def Continues (l : PyStr) : Prop := newline ∉ l ∧ (l = [] ∨ l.head? = some (.unit 0x23) ∨ isIndented l = true ∨ py "- " <+: l)

structure Entry.Shaped (e : Entry) : Prop where
  key : isPlain e.key = true ∧ newline ∉ e.key
  value : newline ∉ e.value
  more : ∀ l ∈ e.more, Continues l

def Entry.Loads (yaml : Yaml) (e : Entry) (v : PyJson) : Prop :=
  yaml.load (unlines e.lines) = some (.obj [(e.key, v)]) ∧ yaml.raises (unlines e.lines) = false

def statusEntry (status : Mark) (more : List PyStr) : Entry := ⟨py "status", py " " ++ status.text, more⟩

def contaminationEntry (r : Option Reason) (more : List PyStr) : Entry :=
  ⟨py "contamination", (contaminationText r).drop 14, more⟩

/-- What YAML makes of a reason, string by string; `none` where it cannot read one. -/
def readReason (r : Reason) : Option PyJson :=
  if (contaminationText (some r)).all isPrintable then do
    let object ← readQuoted (pyQuote r.object)
    let change ← readQuoted (pyQuote r.impact.change)
    let detail ← readQuoted (pyQuote r.impact.detail)
    let path ← r.path.mapM fun edge => readQuoted (pyQuote edge)
    some (.obj ([(py "object", .str object), (py "change", .str change), (py "detail", .str detail)] ++
      if r.path = [] then [] else [(py "path", .arr (path.map .str))]))
  else none

/-- A block mapping is read entry by entry. -/
structure ReadsEntries (yaml : Yaml) : Prop where
  block : ∀ (preamble : List PyStr) (entries : List Entry) (value : Entry → PyJson), entries ≠ [] →
    (∀ l ∈ preamble, IsFiller l) → (∀ e ∈ entries, e.Shaped ∧ e.Loads yaml (value e)) →
    (entries.map Entry.key).Nodup →
    yaml.load (unlines (preamble ++ entries.flatMap Entry.lines)) =
      some (.obj (entries.map fun e => (e.key, value e))) ∧
    yaml.raises (unlines (preamble ++ entries.flatMap Entry.lines)) = false
  status : ∀ (status : Mark) (more : List PyStr), (∀ l ∈ more, IsFiller l) →
    (statusEntry status more).Loads yaml (.str status.text)
  null : ∀ more : List PyStr, (∀ l ∈ more, IsFiller l) → (contaminationEntry none more).Loads yaml .null
  reason : ∀ (r : Reason) (v : PyJson) (more : List PyStr), (∀ l ∈ more, IsFiller l) → readReason r = some v →
    (contaminationEntry (some r) more).Loads yaml v
  /-- An entry that cannot be read spoils the block. -/
  broken : ∀ (preamble : List PyStr) (before after : List Entry) (r : Reason) (more : List PyStr)
    (value : Entry → PyJson), (∀ l ∈ preamble, IsFiller l) → (∀ l ∈ more, IsFiller l) →
    (∀ e ∈ before ++ after, e.Shaped ∧ e.Loads yaml (value e)) → readReason r = none →
    yaml.load (unlines (preamble ++
      (before ++ contaminationEntry (some r) more :: after).flatMap Entry.lines)) = none

structure Page where
  preamble : List PyStr
  entries : List Entry
  body : PyStr

def Page.lines (p : Page) : List PyStr := p.preamble ++ p.entries.flatMap Entry.lines

def Page.text (p : Page) : PyStr := fence ++ unlines p.lines ++ (fence ++ p.body)

def Page.hasContamination (p : Page) : Prop := ∃ e ∈ p.entries, e.key = py "contamination"

/-- A document whose front matter is read entry by entry, the status on a line of its own, and the contamination, if it
has one, on indented lines. -/
structure Page.Sound (yaml : Yaml) (p : Page) : Prop where
  preamble : ∀ l ∈ p.preamble, IsFiller l
  entries : ∀ e ∈ p.entries, e.Shaped ∧ ∃ v, e.Loads yaml v
  nodup : (p.entries.map Entry.key).Nodup
  status : ∃ e ∈ p.entries, e.key = py "status" ∧ ∀ l ∈ e.more, IsFiller l
  contamination : ∀ e ∈ p.entries, e.key = py "contamination" →
    ∃ indented more, e.more = indented ++ more ∧ (∀ l ∈ indented, isIndented l = true) ∧ ∀ l ∈ more, IsFiller l

/-- The strings of a reason. -/
def strings (r : Reason) : List PyStr := [r.object, r.impact.change, r.impact.detail] ++ r.path

/-- A string that neither YAML nor a template reads as another one. -/
def Calm (s : PyStr) : Prop := Quotable s ∧ ∀ c ∈ s, CodePoint.unit 0x20 ≤ c ∧ c ≠ .unit 0x5C

def ContaminationEdit.Calm : ContaminationEdit → Prop
  | .set r => ∀ s ∈ strings r, Statuses.Calm s
  | _ => True

/-- The contamination can be encoded, as what an accepted snapshot holds. -/
def ContaminationEdit.Encodable : ContaminationEdit → Prop
  | .set r => ∀ s ∈ strings r, s.any CodePoint.isLone = false
  | _ => True

end ContextLayer.Statuses
