import Mathlib.Data.List.DropRight
import Mathlib.Logic.Function.Basic
import ContextLayer.Connections

/-!
# The vendored wheel

A knowledge base keeps the wheel its CI validates with, and a manifest that says which one it is. A sync that finds
another version there copies the new wheel and writes the manifest anew: the leading comments stay, the fields are
written as plain text, and the next sync goes by what a YAML parser makes of that text.
-/

namespace ContextLayer.Wheel

open Text

/-! ### Values of a document -/

inductive Yaml where
  | null
  | bool (b : Bool)
  | number (n : JsNumber)
  | nan
  | infinity (negative : Bool)
  | str (s : Text)
  | seq (items : List Yaml)
  | map (entries : List (Text × Yaml))

namespace Yaml

mutual

/-- `String(value)`. -/
def string : Yaml → Text
  | .null => js "null"
  | .bool true => js "true"
  | .bool false => js "false"
  | .number n => n.text
  | .nan => js "NaN"
  | .infinity false => js "Infinity"
  | .infinity true => js "-Infinity"
  | .str s => s
  | .seq items => joinComma (elements items)
  | .map _ => js "[object Object]"

/-- What `Array.prototype.join` takes of the elements. -/
def elements : List Yaml → List Text
  | [] => []
  | .null :: rest => [] :: elements rest
  | v :: rest => v.string :: elements rest

end

/-- `typeof value === "string"`. -/
def asString : Yaml → Option Text
  | .str s => some s
  | _ => none

/-- `Array.isArray(value)`. -/
def asArray : Yaml → Option (List Yaml)
  | .seq items => some items
  | _ => none

def field (v : Yaml) (key : String) : Option Yaml :=
  match v with
  | .map entries => Dict.get? entries (js key)
  | _ => none

end Yaml

/-! ### Files -/

/-- The segments of an absolute path. -/
abbrev Path := List Text

def enter (base : Path) (segment : Text) : Path :=
  if segment = [] ∨ segment = js "." then base
  else if segment = js ".." then base.dropLast
  else base ++ [segment]

/-- `path.join`. -/
def join (base : Path) (name : Text) : Path := (name.splitOn 0x2F).foldl enter base

/-- `path.basename`. -/
def basename (path : Text) : Text := ((path.splitOn 0x2F).filter fun segment => segment ≠ []).getLast?.getD []

/-- Where the code runs, and what it uses there. -/
structure Host (Content : Type) where
  /-- A file read as UTF-8. -/
  text : Content → Text
  ofText : Text → Content
  sha256 : Content → Text
  /-- `parse` of the package `yaml`; `none` is an exception. -/
  parse : Text → Option Yaml
  cwd : Path
  kbDir : Path
  /-- The day the wheel was last changed. -/
  modified : Text

abbrev Files (Content : Type) := Path → Option Content

structure SyncConfig where
  wheelPath : Option Text
  wheelVersion : Option Text
  platformCommit : Option Text
  wheelBuilt : Option Text

structure WheelCarry where
  fromVersion : Option Text
  toVersion : Text
  wheelBasename : Text
  oldWheelBasename : Option Text
  deriving DecidableEq

/-- A value that is neither missing nor empty. -/
def given : Option Text → Option Text
  | some (u :: rest) => some (u :: rest)
  | _ => none

/-! ### The text of a manifest -/

def lineFeed : UInt16 := 0x0A

/-- `line.startsWith("#") || line.trim() === ""`. -/
def isHeaderLine (line : Text) : Bool := decide (line.head? = some 0x23) || (Connections.trim line).isEmpty

def headerLines (raw : Text) : List Text := (raw.splitOn lineFeed).takeWhile isHeaderLine

/-- The leading comments, with one empty line behind them. -/
def header (raw : Text) : Text :=
  if headerLines raw = [] then []
  else ([lineFeed].intercalate (headerLines raw)).rdropWhile (· = lineFeed) ++ [lineFeed, lineFeed]

def fieldLine (f : String × Text) : Text := js f.1 ++ js ": " ++ f.2

def depLine (dep : Text) : Text := js "  - " ++ dep

def depLines : Option (List Text) → List Text
  | none => []
  | some deps => js "runtime_deps:" :: deps.map depLine

def manifestText (raw : Text) (fields : List (String × Text)) (deps : Option (List Text)) : Text :=
  header raw ++ ([lineFeed].intercalate (fields.map fieldLine ++ depLines deps) ++ [lineFeed])

/-! ### The carry -/

/-- The text of a manifest and its fields. -/
structure Manifest where
  raw : Text
  fields : Yaml

def Manifest.string (m : Manifest) (key : String) : Option Text := (m.fields.field key).bind Yaml.asString

def Manifest.deps (m : Manifest) : Option (List Yaml) := (m.fields.field "runtime_deps").bind Yaml.asArray

section

variable {Content : Type} (host : Host Content) (cfg : SyncConfig)

def vendorDir : Path := host.kbDir ++ [js ".github", js "vendor"]

/-- `MANIFEST_PATH`. -/
def manifestPath : Path := vendorDir host ++ [js "VENDOR-MANIFEST.yaml"]

/-- `readManifest`. -/
def readManifest (files : Files Content) : Option Manifest := do
  let content ← files (manifestPath host)
  let value ← host.parse (host.text content)
  pure ⟨host.text content, match value with | .null => .map [] | v => v⟩

/-- `planWheelCarry`. -/
def planWheelCarry (files : Files Content) : Option WheelCarry := do
  let wheelPath ← given cfg.wheelPath
  let wheelVersion ← given cfg.wheelVersion
  let manifest := readManifest host files
  let current := manifest.bind fun m => m.string "version"
  if current = some wheelVersion then none
  else some ⟨current, wheelVersion, basename wheelPath, manifest.bind fun m => m.string "wheel"⟩

/-- Where the configured wheel lies. -/
def wheelFile (wheelPath : Text) : Path := join (if wheelPath.head? = some 0x2F then [] else host.cwd) wheelPath

def wheelDest (carry : WheelCarry) : Path := join (vendorDir host) carry.wheelBasename

/-- The wheel that is taken away. -/
def replaced (carry : WheelCarry) : Option Path :=
  match given carry.oldWheelBasename with
  | some old => if old = carry.wheelBasename then none else some (join (vendorDir host) old)
  | none => none

/-- The new wheel is there, and the old one is not. -/
def placeWheel (carry : WheelCarry) (wheel : Content) (files : Files Content) : Files Content :=
  let copied := Function.update files (wheelDest host carry) (some wheel)
  match replaced host carry with
  | some old => Function.update copied old none
  | none => copied

def keep (manifest : Option Manifest) (key : String) (fallback : Text) : Text :=
  (manifest.bind fun m => m.string key).getD fallback

def manifestFields (carry : WheelCarry) (sha256 built : Text) (manifest : Option Manifest) : List (String × Text) :=
  [("package", keep manifest "package" (js "contextlayer-snapshot")), ("version", carry.toVersion),
    ("wheel", carry.wheelBasename), ("sha256", sha256), ("platform_commit", cfg.platformCommit.getD (js "unknown")),
    ("built", built), ("built_by", js "contextlayer-sync (sync spec §10 wheel carry)"),
    ("source", keep manifest "source" (js "platform repo")),
    ("runtime_deps_pinned_in", keep manifest "runtime_deps_pinned_in" (js "this file (runtime_deps)"))]

/-- The dependencies are written with `String`. -/
def manifestDeps (manifest : Option Manifest) : Option (List Text) :=
  (manifest.bind Manifest.deps).map fun deps => deps.map Yaml.string

/-- `applyWheelCarry`; `none` is an exception. -/
def applyWheelCarry (carry : WheelCarry) (files : Files Content) : Option (Files Content) := do
  let wheelPath ← given cfg.wheelPath
  let wheel ← files (wheelFile host wheelPath)
  let placed := placeWheel host carry wheel files
  let vendored ← placed (wheelDest host carry)
  let manifest := readManifest host placed
  let built ← match cfg.wheelBuilt with
    | some built => some built
    | none => (placed (wheelFile host wheelPath)).map fun _ => host.modified
  let text := manifestText ((manifest.map Manifest.raw).getD [])
    (manifestFields cfg carry (host.sha256 vendored) built manifest) (manifestDeps manifest)
  pure (Function.update placed (manifestPath host) (some (host.ofText text)))

end

/-! ### What is known of the parser -/

/-- The fields of the old manifest that stay, and what stands for one that is missing. -/
def fallbacks : List (String × Text) :=
  [("package", js "contextlayer-snapshot"), ("source", js "platform repo"),
    ("runtime_deps_pinned_in", js "this file (runtime_deps)")]

def fieldNames : List String :=
  ["package", "version", "wheel", "sha256", "platform_commit", "built", "built_by", "source", "runtime_deps_pinned_in"]

def IsMapping (v : Option Yaml) : Prop := ∃ entries, v = some (.map entries)

/-- A key with nothing behind it has the value null. -/
def listed (item : Text → Option Yaml) : List Text → Option Yaml
  | [] => some .null
  | deps => (deps.mapM item).map .seq

/-- The parser on the documents the carry writes: `value` is what a text behind a key reads as if it is a whole value on
its line, and `item` the same of a text behind a dash. -/
structure ReadsManifests (parse : Text → Option Yaml) (value item : Text → Option Yaml) : Prop where
  /-- Comments ahead of a mapping are left out, and a line each makes an entry each. -/
  entries : ∀ raw fields deps, IsMapping (parse raw) → fields.map Prod.fst = fieldNames →
    (∀ f ∈ fields, (value f.2).isSome) → (∀ ds ∈ deps, ∀ dep ∈ ds, (item dep).isSome) →
      ∃ m, parse (manifestText raw fields deps) = some (.map m) ∧
        (∀ f ∈ fields, Dict.get? m (js f.1) = value f.2) ∧ Dict.get? m (js "runtime_deps") = deps.bind (listed item)
  /-- Texts that all come back as they were written are plain ones, if the others are of one line each. -/
  back : ∀ raw fields (deps : Option (List Yaml)) m (asked : List String), IsMapping (parse raw) →
    fields.map Prod.fst = fieldNames → (∀ f ∈ fields, f.1 ∉ asked → lineFeed ∉ f.2) →
      parse (manifestText raw fields (deps.map fun ds => ds.map Yaml.string)) = some (.map m) →
        (∀ f ∈ fields, f.1 ∈ asked → Dict.get? m (js f.1) = some (.str f.2)) →
          (∀ ds ∈ deps, Dict.get? m (js "runtime_deps") = some (.seq ds)) →
            (∀ f ∈ fields, f.1 ∈ asked → value f.2 = some (.str f.2)) ∧
              ∀ ds ∈ deps, ds ≠ [] ∧ ∀ dep ∈ ds, item dep.string = some dep
  digest : ∀ t, t ≠ [] → (∀ u ∈ t, u ∈ js "0123456789abcdef") → (value t).isSome
  constants : (value (js "unknown")).isSome ∧ (value (js "contextlayer-sync (sync spec §10 wheel carry)")).isSome
  fallbacks : ∀ f ∈ fallbacks, value f.2 = some (.str f.2)

structure Host.IsSound {Content : Type} (host : Host Content) : Prop where
  text_wellFormed : ∀ content, isWellFormed (host.text content) = true
  text_ofText : ∀ t, host.text (host.ofText t) = toWellFormed t
  sha256_hex : ∀ content, host.sha256 content ≠ [] ∧ ∀ u ∈ host.sha256 content, u ∈ js "0123456789abcdef"

/-! ### What is asked of a carry -/

section

variable {Content : Type} (host : Host Content) (cfg : SyncConfig) (carry : WheelCarry) (old : Manifest)

/-- **The carry converges**: what it writes is a manifest of the version that was asked for, keeps what it should keep,
and is what a second carry writes. -/
def Converges (files : Files Content) : Prop :=
  ∃ after, applyWheelCarry host cfg carry files = some after ∧
    ∃ new, readManifest host after = some new ∧ planWheelCarry host cfg after = none ∧
      (∀ f ∈ fallbacks, ∀ s, old.string f.1 = some s → new.string f.1 = some s) ∧
      (∀ deps, old.deps = some deps → new.deps = some deps) ∧ applyWheelCarry host cfg carry after = some after

/-- The files that the carry works on are files of their own, the texts it writes are Unicode, and the configured ones
are of one line each. -/
structure Separate (files : Files Content) : Prop where
  wheel : ∃ wheelPath, given cfg.wheelPath = some wheelPath ∧ (files (wheelFile host wheelPath)).isSome = true ∧
    wheelFile host wheelPath ≠ manifestPath host ∧ replaced host carry ≠ some (wheelFile host wheelPath)
  dest : wheelDest host carry ≠ manifestPath host ∧ replaced host carry ≠ some (wheelDest host carry)
  manifest : replaced host carry ≠ some (manifestPath host)
  fields : ∀ f ∈ manifestFields cfg carry [] (cfg.wheelBuilt.getD host.modified) (some old), isWellFormed f.2 = true
  deps : ∀ deps ∈ old.deps, ∀ dep ∈ deps, isWellFormed dep.string = true
  lines : lineFeed ∉ carry.wheelBasename ∧ lineFeed ∉ cfg.platformCommit.getD [] ∧
    lineFeed ∉ cfg.wheelBuilt.getD host.modified

variable (value item : Text → Option Yaml)

/-- The texts that nothing depends on are values. -/
structure Legible : Prop where
  wheel : (value carry.wheelBasename).isSome = true
  commit : ∀ commit ∈ cfg.platformCommit, (value commit).isSome = true
  built : (value (cfg.wheelBuilt.getD host.modified)).isSome = true

/-- The version, the fields that stay and the dependencies are read as they were. -/
structure ReadsBack : Prop where
  version : value carry.toVersion = some (.str carry.toVersion)
  kept : ∀ f ∈ fallbacks, ∀ s, old.string f.1 = some s → value s = some (.str s)
  deps : ∀ deps, old.deps = some deps → deps ≠ [] ∧ ∀ dep ∈ deps, item dep.string = some dep

end

end ContextLayer.Wheel
