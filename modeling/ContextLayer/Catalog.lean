import ContextLayer.Snapshot
import ContextLayer.Lib.Dict

/-!
# Catalog introspection

What the queries on a PostgreSQL catalog return, and the objects that are made of it. The rows of the queries are
told together by the OIDs of the relations and the attribute numbers of their columns; neither comes into an object.
-/

namespace ContextLayer

/-! ### What the queries return -/

/-- `relkind`. -/
inductive RelKind where
  | ordinary
  | partitioned
  | view
  | materialized
  deriving DecidableEq

/-- `KIND_BY_RELKIND`. -/
def RelKind.kind : RelKind → PyStr
  | .ordinary | .partitioned => py "table"
  | .view => py "view"
  | .materialized => py "materialized_view"

/-- A row of `_OBJECTS_SQL`. -/
structure RelRow where
  oid : Nat
  nspname : PyStr
  relname : PyStr
  relkind : RelKind
  rowEstimate : Option Int
  description : Option PyStr
  definition : Option PyStr
  deriving DecidableEq

/-- What a row of `_COLUMNS_SQL` says of its column. -/
structure ColumnFacts where
  name : PyStr
  type : PyStr
  nullable : Bool
  default : Option PyStr
  description : Option PyStr
  deriving DecidableEq

/-- A row of `_COLUMNS_SQL`. -/
structure ColumnRow where
  attrelid : Nat
  attnum : Int
  facts : ColumnFacts
  deriving DecidableEq

/-- `contype`, with `confrelid` and `confkey` where they are not null. -/
inductive ConType where
  | primary
  | unique
  | foreign (confrelid : Nat) (confkey : List Int)
  deriving DecidableEq

/-- A row of `_CONSTRAINTS_SQL`. -/
structure ConstraintRow where
  conrelid : Nat
  contype : ConType
  conkey : List Int
  deriving DecidableEq

/-- The rows of each query, as PostgreSQL keeps them: its own keys are unique, and a constraint is one of live columns
of relations that are there. -/
structure Catalog where
  rels : List RelRow
  columns : List ColumnRow
  constraints : List ConstraintRow
  /-- The rows of `_REL_NAMES_SQL`. -/
  relNames : List (Nat × PyStr × PyStr)
  /-- The rows of `_ATTNAMES_SQL`, each under its OID and its number. -/
  attNames : List ((Nat × Int) × PyStr)
  indexes : List (Nat × PyStr)
  checks : List (Nat × PyStr)
  oids : (rels.map RelRow.oid).Nodup
  names : (rels.map fun r => (r.nspname, r.relname)).Nodup
  attnums : (columns.map fun c => (c.attrelid, c.attnum)).Nodup
  relNameOids : (relNames.map Prod.fst).Nodup
  attNameNums : (attNames.map Prod.fst).Nodup
  onePrimary : ((constraints.filter fun con => decide (con.contype = .primary)).map ConstraintRow.conrelid).Nodup
  primaryNe : ∀ con ∈ constraints, con.contype = .primary → con.conkey ≠ []
  conkeyLive : ∀ con ∈ constraints, ∀ n ∈ con.conkey, (con.conrelid, n) ∈ attNames.map Prod.fst
  confrelidThere : ∀ con ∈ constraints, ∀ confrelid confkey, con.contype = .foreign confrelid confkey →
    confrelid ∈ relNames.map Prod.fst ∧ ∀ n ∈ confkey, (confrelid, n) ∈ attNames.map Prod.fst

  /-- `= ANY(relids)`. -/
  belong : columns.map ColumnRow.attrelid ++ constraints.map ConstraintRow.conrelid ++ indexes.map Prod.fst ++
    checks.map Prod.fst ⊆ rels.map RelRow.oid

/-! ### The objects -/

structure CatalogColumn extends ColumnFacts where
  ordinal : Nat

structure CatalogForeign where
  columns : List PyStr
  ref : PyStr
  refColumns : List PyStr
  deriving DecidableEq

/-- The entry of a relation in `_keys_by_rel`; an empty list is left out. -/
structure CatalogKeys where
  primary : List PyStr
  unique : List (List PyStr)
  foreign : List CatalogForeign

/-- `stats`; what is left out is `none`. -/
structure CatalogStats where
  definition : Option PyStr
  rowEstimate : Option Int
  indexes : Option (List PyStr)
  checks : Option (List PyStr)

structure CatalogObject where
  kind : PyStr
  schema : PyStr
  name : PyStr
  description : Option PyStr
  columns : List CatalogColumn
  keys : CatalogKeys
  stats : CatalogStats

/-! ### `introspect_connection` -/

/-- The rows of a relation, one after the other: `out[key].append(value)`. -/
def groupRows {α : Type} (rows : List (Nat × α)) : List (Nat × List α) :=
  Dict.collect Prod.fst (fun row values => values.getD [] ++ [row.2]) [] rows

namespace Catalog

/-- Without a relation no query is made. -/
def guarded {α : Type} (c : Catalog) (d : List (Nat × α)) : List (Nat × α) := if c.rels = [] then [] else d

/-- Columns by attribute number, each with its rank. -/
def numberColumns (rows : List (Int × ColumnFacts)) : List CatalogColumn :=
  ((StableSort.sortOn Prod.fst rows).map Prod.snd).zipIdx.map fun (facts, i) => { facts with ordinal := i + 1 }

def columnsByRel (c : Catalog) : List (Nat × List CatalogColumn) :=
  c.guarded ((groupRows (c.columns.map fun row => (row.attrelid, (row.attnum, row.facts)))).map fun entry =>
    (entry.1, numberColumns entry.2))

/-- `[attnames[relid][n] for n in key]`; `none` is the `KeyError`. -/
def keyNames (c : Catalog) (relid : Nat) (key : List Int) : Option (List PyStr) :=
  key.mapM fun n => Dict.get? (Dict.ofList c.attNames) (relid, n)

/-- A constraint with the names of its columns. -/
inductive NamedConstraint where
  | primary (names : List PyStr)
  | unique (names : List PyStr)
  | foreign (fk : CatalogForeign)

def nameConstraint (c : Catalog) (con : ConstraintRow) : Option (Nat × NamedConstraint) := do
  let names ← c.keyNames con.conrelid con.conkey
  match con.contype with
  | .primary => pure (con.conrelid, .primary names)
  | .unique => pure (con.conrelid, .unique names)
  | .foreign confrelid confkey =>
      let ref ← Dict.get? (Dict.ofList c.relNames) confrelid
      let refColumns ← c.keyNames confrelid confkey
      pure (con.conrelid, .foreign ⟨names, ref.1 ++ py "." ++ ref.2, refColumns⟩)

/-- One round of the loop over the constraints of a relation. -/
def addConstraint (keys : CatalogKeys) : NamedConstraint → CatalogKeys
  | .primary names => { keys with primary := names }
  | .unique names => { keys with unique := keys.unique ++ [names] }
  | .foreign fk => { keys with foreign := keys.foreign ++ [fk] }

def noKeys : CatalogKeys := ⟨[], [], []⟩

/-- `(fk["columns"], fk["ref"], fk["ref_columns"])`. -/
def foreignKey (fk : CatalogForeign) : List PyStr ×ₗ PyStr ×ₗ List PyStr :=
  toLex (fk.columns, toLex (fk.ref, fk.refColumns))

def sortKeys (keys : CatalogKeys) : CatalogKeys :=
  { keys with unique := StableSort.sortOn id keys.unique, foreign := StableSort.sortOn foreignKey keys.foreign }

def keysByRel (c : Catalog) : Option (List (Nat × CatalogKeys)) :=
  if c.rels = [] then some []
  else (c.constraints.mapM c.nameConstraint).map fun named =>
    (Dict.collect Prod.fst (fun con keys => addConstraint (keys.getD noKeys) con.2) [] named).map fun entry =>
      (entry.1, sortKeys entry.2)

/-- `_indexes_by_rel` and `_checks_by_rel`. -/
def definitionsByRel (c : Catalog) (rows : List (Nat × PyStr)) : List (Nat × List PyStr) :=
  c.guarded ((groupRows rows).map fun entry => (entry.1, StableSort.sortOn id entry.2))

/-- The objects; `none` is an exception. -/
def introspectConnection (c : Catalog) : Option (List CatalogObject) :=
  c.keysByRel.map fun keys => c.rels.map fun r =>
    let kind := r.relkind.kind
    { kind
      schema := r.nspname
      name := r.relname
      description := r.description
      columns := (Dict.get? c.columnsByRel r.oid).getD []
      keys := (Dict.get? keys r.oid).getD noKeys
      stats := {
        definition := r.definition
        rowEstimate := if kind = py "table" ∨ kind = py "materialized_view" then r.rowEstimate else none
        indexes := if kind = py "table" ∨ kind = py "materialized_view" then
          Dict.get? (c.definitionsByRel c.indexes) r.oid else none
        checks := if kind = py "table" then Dict.get? (c.definitionsByRel c.checks) r.oid else none } }

end Catalog

/-! ### The canonical body -/

def CatalogColumn.toPy (col : CatalogColumn) : PyJson :=
  .obj [(py "name", .str col.name), (py "type", .str col.type), (py "nullable", .bool col.nullable),
    (py "default", .ofOption col.default), (py "ordinal", .number (.int col.ordinal)),
    (py "description", .ofOption col.description)]

def CatalogForeign.toPy (fk : CatalogForeign) : PyJson :=
  .obj [(py "columns", .strings fk.columns), (py "ref", .str fk.ref), (py "ref_columns", .strings fk.refColumns)]

def CatalogKeys.toPy (k : CatalogKeys) : PyJson :=
  .obj ((if k.primary = [] then [] else [(py "primary", .strings k.primary)]) ++
    (if k.unique = [] then [] else [(py "unique", .arr (k.unique.map .strings))]) ++
    if k.foreign = [] then [] else [(py "foreign", .arr (k.foreign.map CatalogForeign.toPy))])

def CatalogStats.toPy (s : CatalogStats) : PyJson :=
  .obj ((s.definition.toList.map fun text => (py "definition", .str text)) ++
    (s.rowEstimate.toList.map fun n => (py "row_estimate", .number (.int n))) ++
    (s.indexes.toList.map fun defs => (py "indexes", .strings defs)) ++
    s.checks.toList.map fun defs => (py "checks", .strings defs))

def CatalogObject.toPy (o : CatalogObject) : PyJson :=
  .obj [(py "kind", .str o.kind), (py "schema", .str o.schema), (py "name", .str o.name),
    (py "description", .ofOption o.description), (py "columns", .arr (o.columns.map CatalogColumn.toPy)),
    (py "keys", o.keys.toPy), (py "stats", o.stats.toPy)]

/-- `(",".join(fk["columns"]), fk["ref"])`. -/
def CatalogForeign.sortKey (fk : CatalogForeign) : PyStr ×ₗ PyStr := toLex (pyJoinComma fk.columns, fk.ref)

/-- `ordered_object`. -/
def CatalogObject.ordered (o : CatalogObject) : CatalogObject :=
  { o with
    columns := StableSort.sortOn CatalogColumn.ordinal o.columns
    keys := { o.keys with
      unique := StableSort.sortOn id o.keys.unique
      foreign := StableSort.sortOn CatalogForeign.sortKey o.keys.foreign } }

def CatalogObject.sortKey (o : CatalogObject) : PyStr ×ₗ PyStr ×ₗ PyStr := toLex (o.kind, toLex (o.schema, o.name))

/-- `body["objects"]`. -/
def canonicalObjects (objects : List CatalogObject) : List CatalogObject :=
  (StableSort.sortOn CatalogObject.sortKey objects).map CatalogObject.ordered

/-- The bytes of the objects in the canonical body; `none` is an exception. -/
def canonicalObjectsBytes (objects : List CatalogObject) : Option (List UInt8) :=
  (PyJson.arr ((canonicalObjects objects).map CatalogObject.toPy)).canonicalBytes

/-! ### The logical schema -/

namespace Catalog

/-- The OID and the number of a column that is not dropped. -/
def Live (c : Catalog) (oid : Nat) (n : Int) : Prop :=
  (oid, n) ∈ c.attNames.map Prod.fst ∨ (oid, n) ∈ c.columns.map fun col => (col.attrelid, col.attnum)

def renumberConType (f : Nat → Nat) (g : Nat → Int → Int) : ConType → ConType
  | .primary => .primary
  | .unique => .unique
  | .foreign confrelid confkey => .foreign (f confrelid) (confkey.map (g confrelid))

/-- The second catalog is the first with other OIDs and other attribute numbers, its rows in any order. -/
structure Renumbered (f : Nat → Nat) (g : Nat → Int → Int) (c c' : Catalog) : Prop where
  injective : Function.Injective f
  ordered : ∀ oid n m, c.Live oid n → c.Live oid m → n < m → g oid n < g oid m
  rels : c'.rels.Perm (c.rels.map fun r => { r with oid := f r.oid })
  columns : c'.columns.Perm
    (c.columns.map fun col => { col with attrelid := f col.attrelid, attnum := g col.attrelid col.attnum })
  constraints : c'.constraints.Perm (c.constraints.map fun con =>
    ⟨f con.conrelid, renumberConType f g con.contype, con.conkey.map (g con.conrelid)⟩)
  relNames : c'.relNames.Perm (c.relNames.map fun e => (f e.1, e.2))
  attNames : c'.attNames.Perm (c.attNames.map fun e => ((f e.1.1, g e.1.1 e.1.2), e.2))
  indexes : c'.indexes.Perm (c.indexes.map fun e => (f e.1, e.2))
  checks : c'.checks.Perm (c.checks.map fun e => (f e.1, e.2))

/-- The constraints an object has. -/
def keyConstraints (keys : CatalogKeys) : List NamedConstraint :=
  (if keys.primary = [] then [] else [NamedConstraint.primary keys.primary]) ++
    keys.unique.map NamedConstraint.unique ++ keys.foreign.map NamedConstraint.foreign

/-- An object has a relation's rows, each of them once. -/
structure Shows (c : Catalog) (r : RelRow) (o : CatalogObject) : Prop where
  relation : (o.kind, o.schema, o.name, o.description, o.stats.definition) =
    (r.relkind.kind, r.nspname, r.relname, r.description, r.definition)
  columns : (o.columns.map CatalogColumn.toColumnFacts).Perm
    ((c.columns.filter fun col => decide (col.attrelid = r.oid)).map ColumnRow.facts)
  constraints : ∃ named, (c.constraints.filter fun con => decide (con.conrelid = r.oid)).mapM c.nameConstraint =
      some named ∧
    (keyConstraints o.keys).Perm (named.map Prod.snd)
  estimate : r.relkind ≠ .view → o.stats.rowEstimate = r.rowEstimate
  indexes : r.relkind ≠ .view → (o.stats.indexes.getD []).Perm
    ((c.indexes.filter fun e => decide (e.1 = r.oid)).map Prod.snd)
  checks : r.relkind.kind = py "table" → (o.stats.checks.getD []).Perm
    ((c.checks.filter fun e => decide (e.1 = r.oid)).map Prod.snd)

end Catalog

end ContextLayer
