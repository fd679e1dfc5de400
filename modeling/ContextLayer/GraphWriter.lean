import ContextLayer.Loads
import ContextLayer.SnapshotDiff
import ContextLayer.Statuses

/-!
# Writing the graph

The graph is printed with its keys sorted, and a file that holds it already, but for `generated_at`, is left as it is.
What is left is decided on the value that is read of the file, by Python's equality.
-/

namespace ContextLayer.GraphWriter

open Text PyText PyJson Statuses

/-- The members of a graph. -/
abbrev GraphDict := List (PyStr × PyJson)

/-- The graph with its keys sorted. -/
def printed (graph : GraphDict) : PyJson := (PyJson.obj graph).sortKeys

/-- `render_graph`. -/
def renderGraph (graph : GraphDict) : PyStr := dumpsIndented 0 (printed graph) ++ [newline]

/-- `pop("generated_at", None)`; what is no dictionary has no such `pop`. -/
def popGeneratedAt : PyJson → Option PyJson
  | .obj members => some (.obj (members.filter fun m => decide (m.1 ≠ py "generated_at")))
  | _ => none

/-- Equal without `generated_at`, for two dictionaries. -/
def equalWithout (old new : PyJson) : Option Bool := do
  let old ← popGeneratedAt old
  let new ← popGeneratedAt new
  pure (old.pyEq new)

/-- What a call leaves: the file, and what is returned; `none` is an exception. -/
structure Written where
  file : Option (List UInt8)
  changed : Option Bool

section

variable (number : PyStr → Option (PyJson × PyStr))

/-- `_equal_modulo_generated_at`; `none` is an exception. -/
def equalModuloGeneratedAt (existing candidate : PyStr) : Option Bool :=
  if existing = candidate then some true
  else
    match loads number existing with
    | none => some false
    | some old => (loads number candidate).bind (equalWithout old)

/-- `os.replace` of a file that is written whole. A text without bytes is not written. -/
def replaceFile (file : Option (List UInt8)) (candidate : PyStr) : Written :=
  match encodeUtf8 candidate with
  | some bytes => ⟨some bytes, some true⟩
  | none => ⟨file, none⟩

/-- `write_graph`. -/
def writeGraph (file : Option (List UInt8)) (graph : GraphDict) : Written :=
  match file with
  | none => replaceFile file (renderGraph graph)
  | some bytes =>
      match decode bytes with
      | none => ⟨file, none⟩
      | some existing =>
          match equalModuloGeneratedAt number (newlines existing) (renderGraph graph) with
          | none => ⟨file, none⟩
          | some true => ⟨file, some false⟩
          | some false => replaceFile file (renderGraph graph)

/-! ### What a write should leave -/

/-- The value of a file, if it holds one. -/
def readGraph (file : Option (List UInt8)) : Option PyJson :=
  (file.bind decode).bind fun text => loads number (newlines text)

/-- The same JSON but for `generated_at`, in any order of the members. -/
def SameModulo (old : PyJson) (graph : GraphDict) : Prop :=
  ∃ v w, popGeneratedAt old = some v ∧ popGeneratedAt (.obj graph) = some w ∧ v.sortKeys = w.sortKeys

/-- The rule of the write: the file holds the graph, `True` is said of a change, and what holds the graph stands. -/
structure KeepsRule (file : Option (List UInt8)) (graph : GraphDict) : Prop where
  holds : ∃ old, readGraph number (writeGraph number file graph).file = some old ∧ SameModulo old graph
  returns : ∃ changed, (writeGraph number file graph).changed = some changed ∧
    (changed = true ↔ (writeGraph number file graph).file ≠ file)
  stands : ∀ old, readGraph number file = some old → SameModulo old graph → (writeGraph number file graph).file = file
  again : writeGraph number (writeGraph number file graph).file graph = ⟨(writeGraph number file graph).file, some false⟩

/-! ### Where it does -/

/-- The file is text, and no JSON but an object that is the graph where it passes for it; and a graph that is to be
written has bytes. -/
structure IsWritable (file : Option (List UInt8)) (graph : GraphDict) : Prop where
  decoded : ∀ bytes ∈ file, (decode bytes).isSome
  object : ∀ old, readGraph number file = some old → ∃ members, old = .obj members
  same : ∀ old, readGraph number file = some old → equalWithout old (printed graph) = some true → SameModulo old graph
  printable : (∀ old, readGraph number file = some old → equalWithout old (printed graph) ≠ some true) →
    (renderGraph graph).any CodePoint.isLone = false

end

end ContextLayer.GraphWriter
