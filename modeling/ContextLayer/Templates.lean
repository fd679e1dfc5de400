import ContextLayer.PyText
import ContextLayer.Naming
import ContextLayer.Snapshot

/-!
# The bodies of the machine documents

The templates print facts verbatim, and of a human sibling its status and its purposes. A purpose has a slot
of its own in a line, which a render fills, leaves empty, or marks.
-/

namespace ContextLayer.Render

open Text StableSort PyText

/-! ### Slots -/

inductive Mode where
  | real
  | absent
  | marker
  deriving DecidableEq

/-- `_purpose_cell`. -/
def purposeCell (value : Option PyJson) : Mode → PyStr
  | .marker => py "purpose-slot"
  | .absent => dash
  | .real =>
      match value with
      | some (.str s) => if s = [] then dash else cell s
      | _ => dash

/-- `_fm_map`. -/
def fmMap (fm : Frontmatter.Members) (key : String) : Frontmatter.Members :=
  match Frontmatter.get fm key with
  | some (.obj members) => members
  | _ => []

/-- `_status_cell`. -/
def statusCell (fm : Frontmatter.Members) : PyStr :=
  match Frontmatter.get fm "status" with
  | some (.str s) => if s = [] then dash else cell s
  | _ => dash

/-! ### Columns -/

/-- A row up to its description. -/
def columnCells (unicode : Unicode) (c : Column) : PyStr :=
  py "| " ++ str unicode (.number c.ordinal.number) ++ py " | \x60" ++ cell c.name ++ py "\x60 | \x60" ++
    cell c.type ++ py "\x60 | " ++ (if c.nullable then py "true" else py "false") ++ py " | " ++
    codeOrDash c.default ++ py " | " ++ optCell c.description ++ py " |"

def columnRow (unicode : Unicode) (purposes : Frontmatter.Members) (mode : Mode) (c : Column) : PyStr :=
  columnCells unicode c ++ py " " ++ purposeCell (Dict.get? purposes c.name) mode ++ py " |\n"

def columnTable (unicode : Unicode) (purposes : Frontmatter.Members) (mode : Mode)
    (columns : List Column) : PyStr :=
  if columns = [] then py "—\n"
  else
    py "| # | Column | Type | Nullable | Default | Description | Purpose |\n|---|---|---|---|---|---|---|\n" ++
      columns.flatMap (columnRow unicode purposes mode)

/-! ### Keys and indexes -/

/-- The two parts of a reference. -/
def splitRef (ref : PyStr) : PyStr × PyStr :=
  (ref.takeWhile (· ≠ .unit 0x2E), (ref.dropWhile (· ≠ .unit 0x2E)).drop 1)

def href (schema targetSchema targetName : PyStr) : PyStr :=
  let stem := Naming.mangle targetName ++ py ".schema.md"
  if targetSchema = schema then stem else py "../" ++ Naming.mangle targetSchema ++ py "/" ++ stem

def foreignRow (schema : PyStr) (identities : List (PyStr × PyStr)) (fk : ForeignKey) : PyStr :=
  let target := splitRef fk.ref
  let ref := if target ∈ identities then
    py "[\x60" ++ cell fk.ref ++ py "\x60](" ++ href schema target.1 target.2 ++ py ")" else code fk.ref
  py "| " ++ codes fk.columns ++ py " | " ++ ref ++ py " | " ++ codes fk.refColumns ++ py " |\n"

def foreignTable (schema : PyStr) (identities : List (PyStr × PyStr)) (fks : List ForeignKey) : PyStr :=
  if fks = [] then py "Foreign keys: —\n"
  else py "Foreign keys:\n\n| Columns | References | Referenced columns |\n|---|---|---|\n" ++
    fks.flatMap (foreignRow schema identities)

/-- A title with a list below it, or with a dash behind it. -/
def titledList (title : PyStr) (items : List PyStr) : PyStr :=
  if items = [] then title ++ py ": —\n"
  else title ++ py ":\n\n" ++ items.flatMap fun item => py "- " ++ item ++ py "\n"

/-- `[cell(i) for i in stats.get(stat, [])]`; `none` is the exception. -/
def statCells (o : SourceObject) (stat : String) : Option (List PyStr) :=
  match Dict.get? o.stats (py stat) with
  | none => some []
  | some value => value.iterate.bind fun items => items.mapM fun item => item.asStr.map cell

def quoted (item : PyStr) : PyStr := py "\x60" ++ item ++ py "\x60"

/-- `str(row_estimate) if row_estimate is not None else DASH`. -/
def rowEstimate (unicode : Unicode) (o : SourceObject) : PyStr :=
  match Dict.get? o.stats (py "row_estimate") with
  | none => dash
  | some .null => dash
  | some value => str unicode value

/-- What is printed of a definition, of the kinds that have one. -/
def definitionText (unicode : Unicode) (o : SourceObject) : Option PyStr :=
  if o.kind = py "view" ∨ o.kind = py "materialized_view" then
    match Dict.get? o.stats (py "definition") with
    | none => none
    | some .null => none
    | some value => some (str unicode value)
  else none

/-- One foreign key of another object on this one. -/
def referenceRow (system schema : PyStr) (other : SourceObject) (fk : ForeignKey) : PyStr :=
  py "| [\x60" ++ cell (Naming.fqn system other.schema other.name) ++ py "\x60](" ++
    href schema other.schema other.name ++ py ") | " ++ codes fk.columns ++ py " |\n"

def referenceRows (system : PyStr) (all : List SourceObject) (o : SourceObject) : List PyStr :=
  all.flatMap fun other =>
    ((other.keys.foreign.getD []).filter fun fk => fk.ref = o.schema ++ py "." ++ o.name).map
      (referenceRow system o.schema other)

/-- A paragraph, if there is one. -/
def paragraph (text : Option PyStr) : PyStr := text.elim [] fun text => py "\n" ++ text ++ py "\n"

/-! ### Documents -/

/-- `object_schema.md.j2`, up to the columns. -/
def objectHead (system : PyStr) (o : SourceObject) : PyStr :=
  py "# \x60" ++ Naming.fqn system o.schema o.name ++
    py "\x60\n\n## Identity\n\n| Fact | Value |\n|---|---|\n| Object | \x60" ++
    Naming.fqn system o.schema o.name ++ py "\x60 |\n| Kind | " ++ o.kind ++ py " |\n| Schema hash | \x60" ++
    o.schemaHash ++ py "\x60 |\n" ++ paragraph o.description ++ py "\n## Columns\n\n"

/-- From the keys to the indexes. -/
def objectKeys (all : List SourceObject) (o : SourceObject) : PyStr :=
  py "\n## Keys & indexes\n\nPrimary key: " ++
    (if o.keys.primary.getD [] = [] then dash else codes (o.keys.primary.getD [])) ++ py "\n\n" ++
    foreignTable o.schema (all.map fun other => (other.schema, other.name)) (o.keys.foreign.getD []) ++
    py "\n" ++ titledList (py "Unique constraints") ((o.keys.unique.getD []).map codes) ++ py "\n"

/-- The references, and the definition. -/
def objectTail (unicode : Unicode) (system : PyStr) (all : List SourceObject) (o : SourceObject) : PyStr :=
  py "\n\nFreshness: facts reflect the snapshot recorded in \x60generated_at\x60 (front-matter).\n\n" ++
    py "## Referenced-by\n\n" ++
    (if referenceRows system all o = [] then py "—\n"
      else py "| Object | Via |\n|---|---|\n" ++ (referenceRows system all o).flatten) ++
    (definitionText unicode o).elim [] fun text =>
      py "\n## View definition\n\n\x60\x60\x60sql\n" ++ text ++ py "\n\x60\x60\x60\n"

/-- The checks of a table. Of another kind they are not looked for. -/
def checksSection (o : SourceObject) : Option PyStr :=
  if o.kind = py "table" then
    (statCells o "checks").map fun checks =>
      py "\n" ++ titledList (py "Check constraints") (checks.map quoted)
  else some []

/-- The object document; `none` is an exception. -/
def objectBody (unicode : Unicode) (system : PyStr) (all : List SourceObject)
    (purposes : Frontmatter.Members) (mode : Mode) (o : SourceObject) : Option PyStr := do
  let indexes ← statCells o "indexes"
  let checks ← checksSection o
  pure (objectHead system o ++ columnTable unicode purposes mode o.columns ++ objectKeys all o ++
    titledList (py "Indexes") (indexes.map quoted) ++ checks ++
    py "\n## Row estimate & freshness\n\nRow estimate: " ++ rowEstimate unicode o ++
    objectTail unicode system all o)

/-- `_FACT_LABELS`, and the key event. -/
def factRows (unicode : Unicode) (o : SourceObject) : List (PyStr × PyStr) :=
  let value (stat : String) := Dict.get? o.stats (py stat)
  ((value "data_type").map fun v => (py "Data type", cell (str unicode v))).toList ++
    ((value "scope").map fun v => (py "Scope", cell (str unicode v))).toList ++
    ((value "formula").map fun v => (py "Formula", code (str unicode v))).toList ++
    ((value "is_key_event").map fun v =>
      (py "Key event", if v.truthy then py "true" else py "false")).toList

def factRow (row : PyStr × PyStr) : PyStr := py "| " ++ row.1 ++ py " | " ++ row.2 ++ py " |\n"

def parameterTable (unicode : Unicode) (columns : List Column) : PyStr :=
  if columns = [] then []
  else
    py "\nParameters:\n\n| # | Parameter | Type | Nullable | Default | Description |\n|---|---|---|---|---|---|\n" ++
      columns.flatMap fun c => columnCells unicode c ++ py "\n"

def memberSection (unicode : Unicode) (system : PyStr) (purposes : Frontmatter.Members) (mode : Mode)
    (o : SourceObject) : PyStr :=
  let fqn := Naming.fqn system o.schema o.name
  py "\n## <a id=\"" ++ Naming.mangle o.schema ++ py "--" ++ Naming.mangle o.name ++ py "\"></a>\x60" ++
    cell o.name ++ py "\x60\n\n| Fact | Value |\n|---|---|\n| Object | \x60" ++ fqn ++ py "\x60 |\n| Kind | " ++
    o.kind ++ py " |\n| Namespace | " ++ cell o.schema ++ py " |\n" ++ (factRows unicode o).flatMap factRow ++
    py "| Schema hash | \x60" ++ o.schemaHash ++ py "\x60 |\n| Purpose | " ++
    purposeCell (Dict.get? purposes fqn) mode ++ py " |\n" ++ paragraph o.description ++
    parameterTable unicode o.columns

/-- `{count} object{'s' if count != 1 else ''}`. -/
def counted (count : Nat) (noun : String) : PyStr :=
  natText count ++ py " " ++ py noun ++ (if count ≠ 1 then py "s" else [])

/-- `group_schema.md.j2`. -/
def groupBody (unicode : Unicode) (system group : PyStr) (purposes : Frontmatter.Members) (mode : Mode)
    (members : List SourceObject) : PyStr :=
  py "# " ++ system ++ py " — " ++ group ++ py "\n\n" ++ counted members.length "object" ++ py ".\n" ++
    members.flatMap (memberSection unicode system purposes mode)

/-! ### Indexes -/

/-- What is known of a human document: that it exists, and its front matter. -/
structure Info where
  exists? : Bool
  fm : Frontmatter.Members

def Info.missing : Info := ⟨false, []⟩

/-- The cells of a human document: its link, its status and its purpose. -/
def humanCells (stem : PyStr) (info : Info) (mode : Mode) : PyStr :=
  (if info.exists? then py "[" ++ stem ++ py ".md](" ++ stem ++ py ".md)" else dash) ++ py " | " ++
    statusCell info.fm ++ py " | " ++ purposeCell (Frontmatter.get info.fm "purpose") mode ++ py " |\n"

/-- A link to the machine document, and what is known of the human one. -/
def documentCells (stem : PyStr) (info : Info) (mode : Mode) : PyStr :=
  py "[" ++ stem ++ py ".schema.md](" ++ stem ++ py ".schema.md) | " ++ humanCells stem info mode

def schemaIndexRow (info : SourceObject → Info) (mode : Mode) (o : SourceObject) : PyStr :=
  py "| \x60" ++ cell o.name ++ py "\x60 | " ++ o.kind ++ py " | " ++
    documentCells (Naming.mangle o.name) (info o) mode

/-- `index_schema.md.j2`. -/
def schemaIndexBody (system schema : PyStr) (info : SourceObject → Info) (mode : Mode)
    (members : List SourceObject) : PyStr :=
  py "# " ++ system ++ py " — schema \x60" ++ cell schema ++ py "\x60\n\n" ++
    counted members.length "object" ++ py " · " ++ natText (members.countP fun o => (info o).exists?) ++
    py " with human docs.\n\n| Object | Kind | Machine doc | Human doc | Status | Purpose |\n|---|---|---|---|---|---|\n" ++
    members.flatMap (schemaIndexRow info mode)

/-- `_source_properties_json`, in its fence. -/
def sourceProperties (s : Snapshot) : PyStr :=
  match s.sourceProperties with
  | none => py "—\n"
  | some [] => py "—\n"
  | some properties =>
      py "\x60\x60\x60json\n" ++ dumpsIndented 0 (PyJson.obj properties).sortKeys ++ py "\n\x60\x60\x60\n"

/-- The common parts of the two system indexes. -/
def systemIndexBody (s : Snapshot) (hasNotes : Bool) (summary table : PyStr) : PyStr :=
  py "# " ++ s.system ++ py "\n\nSystem class: " ++ s.systemClass.text ++ py " · " ++ summary ++ py "\n" ++
    (if hasNotes then py "\nNotes: [_notes.md](_notes.md)\n" else []) ++ table ++
    py "\n## Source properties\n\n" ++ sourceProperties s

structure SchemaRow where
  schema : PyStr
  count : Nat
  humanCount : Nat
  notes : Info

def schemaRow (mode : Mode) (r : SchemaRow) : PyStr :=
  let target := Naming.mangle r.schema ++ py "/index.md"
  py "| \x60" ++ cell r.schema ++ py "\x60 | " ++ natText r.count ++ py " | " ++ natText r.humanCount ++
    py " | [" ++ target ++ py "](" ++ target ++ py ") | " ++
    purposeCell (Frontmatter.get r.notes.fm "purpose") mode ++ py " |\n"

/-- `index_system_sql.md.j2`. -/
def sqlIndexBody (s : Snapshot) (count : Nat) (hasNotes : Bool) (rows : List SchemaRow) (mode : Mode) :
    PyStr :=
  systemIndexBody s hasNotes (counted count "object" ++ py " across " ++ counted rows.length "schema" ++ py ".")
    (py "\n## Schemas\n\n| Schema | Objects | Human docs | Index | Purpose |\n|---|---|---|---|---|\n" ++
      rows.flatMap (schemaRow mode))

structure GroupRow where
  group : PyStr
  kind : PyStr
  count : Nat
  human : Info

def groupRow (mode : Mode) (r : GroupRow) : PyStr :=
  py "| " ++ r.group ++ py " | " ++ r.kind ++ py " | " ++ natText r.count ++ py " | " ++
    documentCells r.group r.human mode

/-- `index_system_api.md.j2`. -/
def apiIndexBody (s : Snapshot) (count : Nat) (hasNotes : Bool) (rows : List GroupRow) (mode : Mode) :
    PyStr :=
  systemIndexBody s hasNotes (counted count "object" ++ py " across " ++ counted rows.length "group" ++ py ".")
    (py "\n## Groups\n\n| Group | Kind | Objects | Machine doc | Human doc | Status | Purpose |\n|---|---|---|---|---|---|---|\n" ++
      rows.flatMap (groupRow mode))

end ContextLayer.Render
