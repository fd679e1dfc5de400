import Mathlib.Logic.Function.Basic
import ContextLayer.Templates

/-!
# The generator

`render_tree` makes the machine documents of a tree those of its snapshots. A tree is its files: a path has
bytes or nothing. A document whose text would not change but for its date is left alone, what a system has no
more is deleted, and of the human documents only front matter is read.
-/

namespace ContextLayer.Render

open Text StableSort PyText

/-- The files of a tree by path. -/
abbrev Files := PyStr → Option (List UInt8)

/-! ### Paths -/

def slash : CodePoint := .unit 0x2F

/-- `path.name`. -/
def fileName (path : PyStr) : PyStr := (path.reverse.takeWhile (· ≠ slash)).reverse

/-- `_is_machine_file`. -/
def isMachineFile (path : PyStr) : Bool :=
  decide (fileName path = py "index.md") || decide (py ".schema.md" <:+ fileName path)

def systemDir (system : PyStr) : PyStr := py "systems/" ++ Naming.mangle system

def schemaDir (system schema : PyStr) : PyStr := systemDir system ++ py "/" ++ Naming.mangle schema

/-- A document of an object, machine or human. -/
def objectPath (system : PyStr) (o : SourceObject) (suffix : String) : PyStr :=
  schemaDir system o.schema ++ py "/" ++ Naming.mangle o.name ++ py suffix

def groupPath (system group : PyStr) (suffix : String) : PyStr :=
  systemDir system ++ py "/" ++ group ++ py suffix

def schemaIndexPath (system schema : PyStr) : PyStr := schemaDir system schema ++ py "/index.md"

def systemIndexPath (system : PyStr) : PyStr := systemDir system ++ py "/index.md"

/-! ### The plan -/

inductive DocEntry where
  | object (o : SourceObject)
  | group (group : PyStr) (members : List SourceObject)
  | schemaIndex (schema : PyStr) (members : List SourceObject)
  | systemIndex

/-- `KIND_GROUPS`. -/
def kindGroups : List (PyStr × PyStr) :=
  [(py "api_dimension", py "dimensions"), (py "api_metric", py "metrics"), (py "api_event", py "events")]

/-- `SQL_KINDS`. -/
def sqlKinds : List PyStr := [py "table", py "view", py "materialized_view"]

def family : SystemClass → List PyStr
  | .sql => sqlKinds
  | .api => kindGroups.map Prod.fst

section

variable (s : Snapshot)

/-- The objects of the class's kinds, in canonical order. -/
def known : List SourceObject := (ordered s).objects.filter fun o => decide (o.kind ∈ family s.systemClass)

/-- `KIND_GROUPS[o["kind"]]`. -/
def groupOf (o : SourceObject) : PyStr := (Dict.get? kindGroups o.kind).getD []

/-- The values of a key among the known objects, each once and sorted. -/
def keysOf (key : SourceObject → PyStr) : List PyStr := sortOn id ((known s).map key).dedup

def membersOf (key : SourceObject → PyStr) (k : PyStr) : List SourceObject :=
  (known s).filter fun o => key o = k

/-- The documents of the objects. -/
def objectDocs : List (PyStr × DocEntry) :=
  match s.systemClass with
  | .sql =>
      (known s).map (fun o => (objectPath s.system o ".schema.md", .object o)) ++
        (keysOf s SourceObject.schema).map fun schema =>
          (schemaIndexPath s.system schema, .schemaIndex schema (membersOf s SourceObject.schema schema))
  | .api =>
      (keysOf s groupOf).map fun group =>
        (groupPath s.system group ".schema.md", .group group (membersOf s groupOf group))

/-- `expected_docs`; `none` is the `GeneratorError` of two names with one path. -/
def expectedDocs : Option (List (PyStr × DocEntry)) :=
  let docs := objectDocs s ++ [(systemIndexPath s.system, .systemIndex)]
  if (docs.map Prod.fst).Nodup then some docs else none

/-! ### Human siblings -/

def notesPath (schema : PyStr) : PyStr := schemaDir s.system schema ++ py "/_notes.md"

def systemNotesPath : PyStr := systemDir s.system ++ py "/_notes.md"

/-- The human documents the body of a document asks for. -/
def siblings : DocEntry → List PyStr
  | .object o => [objectPath s.system o ".md"]
  | .group group _ => [groupPath s.system group ".md"]
  | .schemaIndex _ members => members.map fun o => objectPath s.system o ".md"
  | .systemIndex =>
      systemNotesPath s :: match s.systemClass with
        | .sql => (known s).map (fun o => objectPath s.system o ".md") ++
            (keysOf s SourceObject.schema).map (notesPath s)
        | .api => (keysOf s groupOf).map fun group => groupPath s.system group ".md"

end

/-- `safe_load`, with dates as strings and `none` for a `YAMLError`, and where it raises something else: a
scalar may have the form of a day that there is not. -/
structure Yaml where
  load : PyStr → Option PyJson
  raises : PyStr → Bool

/-- `split` raises. -/
def Yaml.refuses (yaml : Yaml) (text : PyStr) : Bool :=
  decide (Frontmatter.fence <+: text) &&
    (Frontmatter.find? (py "\n---\n") (text.drop 3)).elim false fun i => yaml.raises ((text.drop 4).take i)

section

variable (unicode : Unicode) (yaml : Yaml)

/-- `_human_info`, when it is not in the cache. -/
def humanInfo (files : Files) (path : PyStr) : Info :=
  match files path with
  | none => .missing
  | some bytes => ⟨true, (Frontmatter.split yaml.load (readText bytes)).1.getD []⟩

/-- `_human_info` raises. -/
def unreadable (files : Files) (path : PyStr) : Bool :=
  (files path).elim false fun bytes => yaml.refuses (readText bytes)

/-! ### Documents -/

/-- `body_for`, with what is known of the human siblings; `none` is an exception. -/
def bodyFor (s : Snapshot) (info : PyStr → Info) (mode : Mode) : DocEntry → Option PyStr
  | .object o =>
      objectBody unicode s.system (known s)
        (fmMap (info (objectPath s.system o ".md")).fm "column_purposes") mode o
  | .group group members =>
      some (groupBody unicode s.system group
        (fmMap (info (groupPath s.system group ".md")).fm "object_purposes") mode members)
  | .schemaIndex schema members =>
      some (schemaIndexBody s.system schema (fun o => info (objectPath s.system o ".md")) mode members)
  | .systemIndex =>
      let hasNotes := (info (systemNotesPath s)).exists?
      some (match s.systemClass with
        | .sql =>
            sqlIndexBody s (known s).length hasNotes
              ((keysOf s SourceObject.schema).map fun schema =>
                let members := membersOf s SourceObject.schema schema
                ⟨schema, members.length,
                  members.countP fun o => (info (objectPath s.system o ".md")).exists?,
                  info (notesPath s schema)⟩) mode
        | .api =>
            apiIndexBody s (known s).length hasNotes
              ((keysOf s groupOf).map fun group =>
                let members := membersOf s groupOf group
                ⟨group, (members.head?.map SourceObject.kind).getD [], members.length,
                  info (groupPath s.system group ".md")⟩) mode)

def SourceMode.text : SourceMode → PyStr
  | .ddlFile => py "ddl-file"
  | .live => py "live"
  | .api => py "api"

def rosterEntry (system : PyStr) (o : SourceObject) : Frontmatter.RosterEntry :=
  ⟨Naming.fqn system o.schema o.name, o.kind, o.schemaHash⟩

/-- The fields of a class of documents, ahead of the provenance. -/
def identityFields (s : Snapshot) : DocEntry → Frontmatter.Fields
  | .object o =>
      [(py "doc_class", .text (py "machine-object")),
        (py "object", .text (Naming.fqn s.system o.schema o.name)), (py "kind", .text o.kind),
        (py "schema_hash", .text o.schemaHash)]
  | .group _ members =>
      [(py "doc_class", .text (py "machine-group")),
        (py "objects", .objects (members.map (rosterEntry s.system)))]
  | .schemaIndex schema _ =>
      [(py "doc_class", .text (py "machine-index")), (py "system", .text s.system),
        (py "scope", .text (py "schema")), (py "schema", .text schema)]
  | .systemIndex =>
      [(py "doc_class", .text (py "machine-index")), (py "system", .text s.system),
        (py "scope", .text (py "system"))]

/-- `_fields_fn`. -/
def fieldsFor (s : Snapshot) (entry : DocEntry) (date : PyStr) : Frontmatter.Fields :=
  identityFields s entry ++
    [(py "generated_at", .text date), (py "source_mode", .text (SourceMode.text s.sourceMode)),
      (py "snapshot_version", .text (py "1")), (py "status", .text (py "machine"))]

/-- The front matter and the line below it. -/
def headFor (s : Snapshot) (entry : DocEntry) (date : PyStr) : PyStr :=
  Frontmatter.emit unicode (fieldsFor s entry date) ++ py "\n"

/-! ### Writing -/

/-- How far two lines agree. -/
def commonPrefix : PyStr → PyStr → Nat
  | a :: s, b :: t => if a = b then commonPrefix s t + 1 else 0
  | _, _ => 0

/-- A line against the variants of it with the slot empty and marked. -/
def lineConfined (old absent marked : PyStr) : Bool :=
  if absent = marked then decide (old = absent)
  else
    let p := commonPrefix absent marked
    let q := commonPrefix (absent.drop p).reverse (marked.drop p).reverse
    decide (p + q ≤ old.length) && decide (old.take p = absent.take p) &&
      decide (old.drop (old.length - q) = absent.drop (absent.length - q))

def lines (s : PyStr) : List PyStr := s.splitOn newline

/-- `_purpose_confined`. -/
def purposeConfined (oldBody absentBody markedBody : PyStr) : Bool :=
  let old := lines oldBody
  let absent := lines absentBody
  let marked := lines markedBody
  decide (old.length = absent.length) && decide (absent.length = marked.length) &&
    (old.zip (absent.zip marked)).all fun line => lineConfined line.1 line.2.1 line.2.2

/-- `generated_at`, where it is a date. -/
def oldDate (text : PyStr) : Option PyStr :=
  (((Frontmatter.split yaml.load text).1.bind fun fm => Frontmatter.get fm "generated_at").bind
    PyJson.asStr).filter (Frontmatter.isDate unicode)

/-- What `_write_machine` leaves at a path; `none` is an exception. -/
def writeMachine (head : PyStr → PyStr) (body : Mode → Option PyStr) (newDate : PyStr)
    (old : Option (List UInt8)) : Option (List UInt8) := do
  let real ← body .real
  let write := fun date => encodeUtf8 (head date ++ real)
  match old with
  | none => write newDate
  | some bytes =>
      let text := readText bytes
      if yaml.refuses text then none
      else
        match oldDate unicode yaml text with
        | none => write newDate
        | some date =>
            if head date ++ real = text then some bytes
            else if head date <+: text then do
              let absent ← body .absent
              let marked ← body .marker
              if purposeConfined (text.drop (head date).length) absent marked then write date
              else write newDate
            else write newDate

/-! ### One system -/

structure RunState where
  files : Files
  cache : List (PyStr × Info)

def RunState.info (st : RunState) (path : PyStr) : Info := (Dict.get? st.cache path).getD .missing

/-- A sibling is read once in a run, when a body first asks for it. -/
def RunState.read (st : RunState) (paths : List PyStr) : RunState :=
  { st with cache := paths.foldl (fun cache path =>
      Dict.setDefault cache path (humanInfo yaml st.files path)) st.cache }

def renderDoc (s : Snapshot) (st : RunState) (doc : PyStr × DocEntry) : Option RunState :=
  if ∀ path ∈ siblings s doc.2, (Dict.get? st.cache path).isSome ∨ unreadable yaml st.files path = false then do
    let st := st.read yaml (siblings s doc.2)
    let bytes ← writeMachine unicode yaml (headFor unicode s doc.2)
      (fun mode => bodyFor unicode s st.info mode doc.2) (s.capturedAt.take 10) (st.files doc.1)
    pure { st with files := Function.update st.files doc.1 (some bytes) }
  else none

/-- `_prune_system`. -/
def prune (system : PyStr) (keep : List PyStr) (files : Files) : Files := fun path =>
  if (systemDir system ++ py "/") <+: path ∧ isMachineFile path = true ∧ path ∉ keep then none
  else files path

def renderSystem (files : Files) (s : Snapshot) : Option Files := do
  let plan ← expectedDocs s
  let st ← (sortOn Prod.fst plan).foldlM (renderDoc unicode yaml s) ⟨files, []⟩
  pure (prune s.system (plan.map Prod.fst) st.files)

end

/-! ### The tree -/

/-- `root_index.md.j2`. -/
def rootIndex (systems : List PyStr) : PyStr :=
  py "# Knowledge base\n\nEntry point for this estate's knowledge base. Bootstrapped once by the\n" ++
    py "generator (KB ruling K-7) and human-owned from then on: edit freely — the\n" ++
    py "generator never rewrites this file.\n\n## Systems\n\n" ++
    (systems.flatMap fun name =>
      py "- [" ++ name ++ py "](" ++ systemIndexPath name ++ py ")\n") ++
    py "\n## Reference\n\n- [Conventions](conventions.md)\n" ++
    py "- Entities (cross-system business concepts): \x60entities/\x60\n" ++
    py "- Certified metrics: \x60metrics/\x60\n- Lineage: \x60lineage/\x60\n"

/-- `conventions.md.j2`. -/
def conventions : PyStr :=
  py "# Conventions\n\nBootstrapped skeleton (KB ruling K-7): completed at customer bootstrap\n" ++
    py "(task 1.6, playbook step 2) and human-owned from then on — the generator\nnever rewrites this file.\n\n" ++
    py "## System classes & dialects\n\n_Completed at bootstrap: one entry per configured system (system class,\n" ++
    py "dialect, query surface)._\n\n## Query guardrails per system\n\n" ++
    py "_Completed at bootstrap: execution policy per system (HLR §8 P2)._\n\n## Trust-status behaviors\n\n" ++
    py "Machine docs (\x60status: machine\x60) carry introspected facts verbatim.\n" ++
    py "Statuses on human-owned docs (KB spec §5):\n\n- \x60verified\x60 — use freely.\n" ++
    py "- \x60draft\x60 / \x60stale\x60 — use, but warn the user explicitly.\n" ++
    py "- \x60contaminated\x60 — refuse to build on it unless the user explicitly\n" ++
    py "  overrides, and say why (the broken reference is named in front-matter).\n\n## Naming conventions\n\n" ++
    py "FQNs are \x60system.schema.name\x60 (SQL) or \x60system.group.name\x60 (API), always\n" ++
    py "backticked in doc bodies. Entities and metrics are referenced by path\n" ++
    py "(\x60entities/<entity>.md\x60), never by prose title.\n\n## Quota notes for API sources\n\n" ++
    py "_Completed at bootstrap: per-source quota and freshness notes._\n\n## Machine-readable guardrails\n\n" ++
    py "\x60\x60\x60yaml\n# validate_sql per-system checks (MCP §6.6); populated at bootstrap.\n\x60\x60\x60\n"

/-- A file written only when there is none. -/
def bootstrapFile (path text : PyStr) (files : Files) : Option Files :=
  match files path with
  | some _ => some files
  | none => (encodeUtf8 text).map fun bytes => Function.update files path (some bytes)

/-- `_bootstrap`. -/
def bootstrap (systems : List PyStr) (files : Files) : Option Files :=
  (bootstrapFile (py "index.md") (rootIndex systems) files).bind
    (bootstrapFile (py "conventions.md") conventions)

/-- `render_tree`; `none` is a `GeneratorError`, or another exception. What `validate_snapshot` adds to the
schema is S-1. -/
def renderTree (unicode : Unicode) (yaml : Yaml) (snapshots : List Snapshot)
    (files : Files) : Option Files :=
  if (∀ s ∈ snapshots, (s.objects.map SourceObject.identity).Nodup) ∧
      (snapshots.map Snapshot.system).Nodup then
    let sorted := sortOn Snapshot.system snapshots
    (sorted.foldlM (renderSystem unicode yaml) files).bind (bootstrap (sorted.map Snapshot.system))
  else none

/-! ### What a render promises -/

/-- A path of the generator's, below a rendered system. -/
def Generated (snapshots : List Snapshot) (path : PyStr) : Prop :=
  ∃ s ∈ snapshots, systemDir s.system ++ py "/" <+: path ∧ isMachineFile path = true

/-- The objects a document describes. -/
def DocEntry.objects : DocEntry → List SourceObject
  | .object o => [o]
  | .group _ members => members
  | .schemaIndex _ _ => []
  | .systemIndex => []

section

variable (unicode : Unicode) (yaml : Yaml) (snapshots : List Snapshot)
  (files files' : Files)

/-- The text is that of the document, of some date, with what the human documents say. -/
def IsRender (s : Snapshot) (entry : DocEntry) (text : PyStr) : Prop :=
  ∃ info date body, (∀ path, isMachineFile path = false → info path = humanInfo yaml files path) ∧
    bodyFor unicode s info .real entry = some body ∧ text = newlines (headFor unicode s entry date ++ body)

/-- **Its documents, and no one else's.** -/
structure WritesItsOwn : Prop where
  objects : ∀ s ∈ snapshots, ∀ o ∈ known s, ∃ plan, expectedDocs s = some plan ∧
    ∃ doc ∈ plan, o ∈ doc.2.objects ∧
      ∃ bytes, files' doc.1 = some bytes ∧ IsRender unicode yaml files s doc.2 (readText bytes)
  generated : ∀ path, Generated snapshots path → files' path ≠ none →
    ∃ s ∈ snapshots, ∃ plan, expectedDocs s = some plan ∧ path ∈ plan.map Prod.fst
  human : ∀ path, ¬ Generated snapshots path →
    files' path = files path ∨ files path = none ∧ path ∈ [py "index.md", py "conventions.md"]

end

/-- Of systems that share a directory only the last has objects. -/
def DirectoriesApart (snapshots : List Snapshot) : Prop :=
  ∀ s ∈ snapshots, ∀ s' ∈ snapshots, Naming.mangle s.system = Naming.mangle s'.system →
    s.system < s'.system → known s = []

end ContextLayer.Render
