import Mathlib.Data.Prod.Lex
import ContextLayer.Loads
import ContextLayer.References

/-!
# Contamination markers

A marker is written as one line of a front matter, a flow mapping with bare keys and quoted strings. The skills read
it without a YAML parser: the bare keys are quoted by a regular expression, which makes the line JSON.
-/

namespace ContextLayer.Triage

open Text PyText Frontmatter StableSort

/-! ### The writer -/

mutual

/-- `_flow_scalar`; `none` is the `StatusWriteError`. -/
def flowScalar : PyJson → Option PyStr
  | .null => some (py "null")
  | .str s => some (pyQuote s)
  | .arr items => (flowItems items).map fun parts => py "[" ++ (py ", ").intercalate parts ++ py "]"
  | _ => none

def flowItems : List PyJson → Option (List PyStr)
  | [] => some []
  | v :: rest => (flowScalar v).bind fun part => (flowItems rest).map (part :: ·)

end

/-- The flow mapping of `_contamination_line`. -/
def flowMapping (members : Members) : Option PyStr :=
  (members.mapM fun m => (flowScalar m.2).map fun v => m.1 ++ py ": " ++ v).map fun parts =>
    py "\x7b" ++ (py ", ").intercalate parts ++ py "\x7d"

/-- `_contamination_line`. -/
def contaminationLine : PyJson → Option PyStr
  | .null => some (py "contamination: null\n")
  | .obj members => (flowMapping members).map fun flow => py "contamination: " ++ flow ++ py "\n"
  | _ => none

/-! ### Quoting the keys -/

def isKeyChar (c : CodePoint) : Bool :=
  isLetter c || decide (.unit 0x30 ≤ c ∧ c ≤ CodePoint.unit 0x39)

def isOpener (c : CodePoint) : Bool := decide (c = .unit 0x2C ∨ c = .unit 0x7B)

/-- `_BARE_KEY`, behind its first character: the blanks and the key. -/
def bareKey? (s : PyStr) : Option (PyStr × PyStr) :=
  let rest := s.dropWhile Sdk.isSpace
  let key := rest.takeWhile isKeyChar
  if key.head?.any isLetter = true ∧ (rest.dropWhile isKeyChar).head? = some (.unit 0x3A) then
    some (s.takeWhile Sdk.isSpace, key)
  else none

/-- `_BARE_KEY.sub`, the first characters skipped. -/
def quoteKeysFrom : Nat → PyStr → PyStr
  | _, [] => []
  | skip + 1, _ :: rest => quoteKeysFrom skip rest
  | 0, c :: rest =>
      match if isOpener c then bareKey? rest else none with
      | some (blanks, key) =>
          c :: (blanks ++ .unit 0x22 :: key ++ py "\":") ++ quoteKeysFrom (blanks.length + key.length + 1) rest
      | none => c :: quoteKeysFrom 0 rest

def quoteKeys (s : PyStr) : PyStr := quoteKeysFrom 0 s

/-! ### The readers -/

section

variable (number : PyStr → Option (PyJson × PyStr))

/-- The value, or the text that has none. -/
def readFlow (raw : PyStr) : PyJson :=
  (PyJson.loads number (quoteKeys raw)).getD (.obj [(py "unparsed", .str raw)])

/-- `_parse_contamination` of the work list; `none` is `None`. -/
def worklistContamination (raw : PyStr) : Option PyJson :=
  if Partition.strip Sdk.isSpace raw ∈ [py "null", py "~", []] then none else some (readFlow number raw)

/-- `_parse_contamination` of the triage. -/
def triageContamination (raw : PyStr) : Option PyJson :=
  if raw = py "null" then none else some (readFlow number raw)

end

/-! ### The front matter -/

/-- `_front_matter`. -/
def frontMatter? (text : PyStr) : Option PyStr :=
  if fence <+: text then (find? (py "\n---\n") (text.drop 3)).map fun n => (text.drop 4).take n else none

/-- A search for what starts a line, behind the start of the text. -/
def searchAfter {α : Type} (here : PyStr → Option α) : PyStr → Option α
  | [] => none
  | c :: rest => if c = newline then (here rest).or (searchAfter here rest) else searchAfter here rest

def search {α : Type} (here : PyStr → Option α) (s : PyStr) : Option α := (here s).or (searchAfter here s)

/-- `_STATUS`, at the start of a line: a word that ends its line. -/
def statusMatch (s : PyStr) : Option PyStr :=
  if py "status:" <+: s then
    let rest := (s.drop 7).dropWhile Sdk.isSpace
    let word := rest.takeWhile fun c => !Sdk.isSpace c
    let blanks := (rest.dropWhile fun c => !Sdk.isSpace c).takeWhile Sdk.isSpace
    if word ≠ [] ∧ (newline ∈ blanks ∨ word ++ blanks = rest) then some word else none
  else none

/-- `_CONTAMINATION`, at the start of a line: the rest of the line, or of the next that is not blank. Where only white
space follows, the last character of it that is no newline. -/
def contaminationMatch (s : PyStr) : Option PyStr :=
  if py "contamination:" <+: s then
    let rest := (s.drop 14).dropWhile Sdk.isSpace
    if rest = [] then ((s.drop 14).filter (· ≠ newline)).getLast?.map fun c => [c]
    else some ((rest.takeWhile (· ≠ newline)).rdropWhile Sdk.isSpace)
  else none

def statusOf (head : PyStr) : Option PyStr := search statusMatch head

def contaminationOf (head : PyStr) : Option PyStr := search contaminationMatch head

/-! ### The triage -/

/-- A Markdown file of the checkout, with its text as it is read. -/
structure File where
  rel : PyStr
  text : PyStr
  deriving DecidableEq

/-- The marker of a document: no line of it, `None`, or a value. -/
structure Entry where
  doc : PyStr
  contamination : Option (Option PyJson)

structure Blast where
  object : PyStr
  docs : List PyStr
  count : Nat
  deriving DecidableEq

structure Report where
  counts : List (PyStr × Nat)
  contaminated : List Entry
  stale : List PyStr
  blast : List Blast

/-- The documents that have a status. -/
def statuses (files : List File) : List (File × PyStr) :=
  (files.filter fun f => ¬ py ".git/" <+: f.rel).filterMap fun f =>
    ((frontMatter? f.text).bind statusOf).map (Prod.mk f)

def withStatus (status : String) (files : List File) : List File :=
  ((statuses files).filter fun d => decide (d.2 = py status)).map Prod.fst

def entryOf (number : PyStr → Option (PyJson × PyStr)) (f : File) : Entry :=
  ⟨f.rel, ((frontMatter? f.text).bind contaminationOf).map (triageContamination number)⟩

/-- `(contamination or {}).get("object")`; `none` is an `AttributeError`. -/
def Entry.object (e : Entry) : Option (Option PyJson) :=
  match e.contamination.join with
  | none => some none
  | some v =>
      match v with
      | .obj members => some (get members "object")
      | v => if v.truthy then none else some none

/-- The object, with the document; without one where it is no string. -/
def Entry.group (e : Entry) : Option (Option (PyStr × PyStr)) :=
  e.object.map fun object => (object.bind PyJson.asStr).map fun o => (o, e.doc)

def addDoc (byObject : List (PyStr × List PyStr)) (e : PyStr × PyStr) : List (PyStr × List PyStr) :=
  Dict.set byObject e.1 ((Dict.get? byObject e.1).getD [] ++ [e.2])

/-- The documents of each object, in the order the objects come in. -/
def byObject (docs : List (PyStr × PyStr)) : List (PyStr × List PyStr) := docs.foldl addDoc []

def Blast.rank (b : Blast) : ℤ ×ₗ PyStr := toLex (-(b.count : ℤ), b.object)

/-- `triage`; `none` is the exception. -/
def triage (number : PyStr → Option (PyJson × PyStr)) (files : List File) : Option Report :=
  let contaminated := (withStatus "contaminated" files).map (entryOf number)
  (contaminated.mapM Entry.group).map fun objects =>
    { counts := (StableSort.sortOn id ((statuses files).map Prod.snd).dedup).map fun status =>
        (status, ((statuses files).map Prod.snd).count status)
      contaminated := contaminated
      stale := (withStatus "stale" files).map File.rel
      blast := StableSort.sortOn Blast.rank
        ((byObject objects.reduceOption).map fun g => ⟨g.1, StableSort.sortOn id g.2, g.2.length⟩) }

/-! ### What is asked of a marker -/

/-- A string or a list of strings. -/
inductive Field where
  | text (s : PyStr)
  | texts (items : List PyStr)

def Field.toJson : Field → PyJson
  | .text s => .str s
  | .texts items => .arr (items.map .str)

def Field.strings : Field → List PyStr
  | .text s => [s]
  | .texts items => items

/-- `[A-Za-z_][A-Za-z0-9_]*`. -/
def IsKey (key : PyStr) : Prop := key.head?.any isLetter = true ∧ key.all isKeyChar = true

instance (key : PyStr) : Decidable (IsKey key) := inferInstanceAs (Decidable (_ ∧ _))

/-- A contamination object. -/
structure Contamination where
  fields : List (PyStr × Field)
  keys : ∀ f ∈ fields, IsKey f.1
  nodup : (fields.map Prod.fst).Nodup

namespace Contamination

def members (c : Contamination) : Members := c.fields.map fun f => (f.1, f.2.toJson)

def toJson (c : Contamination) : PyJson := .obj c.members

def strings (c : Contamination) : List PyStr := c.fields.flatMap fun f => f.2.strings

def object (c : Contamination) : Option PyStr := (get c.members "object").bind PyJson.asStr

end Contamination

/-- A comma or a brace, white space that is printed as it is, a key and a colon. -/
def HasBareKey (s : PyStr) : Prop :=
  ∃ before c blanks key after, s = before ++ c :: (blanks ++ key ++ .unit 0x3A :: after) ∧ isOpener c = true ∧
    (∀ b ∈ blanks, Sdk.isSpace b = true ∧ CodePoint.unit 0x20 ≤ b) ∧ IsKey key

/-- No string of the object holds what the expression takes for a key. -/
def Contamination.Calm (c : Contamination) : Prop := ∀ s ∈ c.strings, ¬ HasBareKey s

/-- The work list reads the object from the line it was written to. -/
def Decoded (number : PyStr → Option (PyJson × PyStr)) (c : Contamination) : Prop :=
  ∃ raw, contaminationLine c.toJson = some (py "contamination: " ++ raw ++ py "\n") ∧
    worklistContamination number raw = some c.toJson

/-- The line is the contamination of the front matter. -/
def Carries (text : PyStr) (c : Contamination) : Prop :=
  ∃ (before : List PyStr) (head line after : PyStr), frontMatter? text = some head ∧ contaminationLine c.toJson = some line ∧
    head = before.flatMap (· ++ [newline]) ++ line ++ after ∧
    ∀ l ∈ before, newline ∉ l ∧ ¬ py "contamination:" <+: l

/-- The triage reports each contaminated document with its object, and groups them by it. -/
structure Reported (number : PyStr → Option (PyJson × PyStr)) (files : List File)
    (mark : PyStr → Contamination) (report : Report) : Prop where
  triage : triage number files = some report
  contaminated : report.contaminated =
    (withStatus "contaminated" files).map fun f => ⟨f.rel, some (some (mark f.rel).toJson)⟩
  blast : ∀ b, b ∈ report.blast ↔ b.docs ≠ [] ∧ b.count = b.docs.length ∧
    b.docs = StableSort.sortOn id (((withStatus "contaminated" files).filter fun f =>
      decide ((mark f.rel).object = some b.object)).map File.rel)
  nodup : (report.blast.map Blast.object).Nodup

end ContextLayer.Triage
