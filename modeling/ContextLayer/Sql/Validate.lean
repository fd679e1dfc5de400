import ContextLayer.Platform
import ContextLayer.Sql.Tree

/-!
# The SQL validator

`validate_statement`: parse, refuse everything that is not one plain query, resolve every table
against the listed objects, then let sqlglot resolve the columns. Parsing and column resolution are
sqlglot's and stay parameters; what is decided on the tree is decided here. An exception other than
the two that are caught leaves the process without a verdict.
-/

namespace ContextLayer.Sql

open Text

inductive ParseOutcome where
  | parsed (statements : List (Option Tree))
  | parseError (message : Text)
  | raised (message : Text)

inductive QualifyOutcome where
  | qualified
  | optimizeError (message : Text)
  | raised (message : Text)

/-- Schemas, their tables and the columns of each. -/
abbrev SchemaMap := List (Text × List (Text × List Text))

/-- The two functions of sqlglot the validator calls. -/
structure Sqlglot where
  /-- `sqlglot.parse(statement, read=engine)`. -/
  parse (statement engine : Text) : ParseOutcome
  /-- `qualify(tree, schema, dialect=engine, db)`. -/
  qualify (tree : Tree) (schema : SchemaMap) (engine db : Text) : QualifyOutcome

structure Finding where
  severity : Text
  code : Text
  ref : Option Text
  message : Text
  deriving DecidableEq

/-- An object the caller may resolve against. -/
structure Listed where
  schema : Text
  name : Text
  kind : Text
  columns : List Text
  deriving DecidableEq

structure ValidateRequest where
  statement : Text
  engine : Text
  system : Text
  defaultSchema : Text
  objects : List Listed
  deniedFunctions : List Json

inductive VerdictKind where
  | pass
  | fail
  deriving DecidableEq

structure Verdict where
  verdict : VerdictKind
  findings : List Finding
  statementSha256 : Option Text
  referencedObjects : Option (List Text)

def failing (findings : List Finding) : Verdict := ⟨.fail, findings, none, none⟩

/-- Side-effecting or environment-reaching functions, refused in any statement. -/
def DENIED_FUNCTIONS : List Text :=
  ["pg_read_file", "pg_read_binary_file", "pg_ls_dir", "pg_ls_waldir", "pg_stat_file", "pg_sleep",
    "pg_sleep_for", "pg_sleep_until", "pg_terminate_backend", "pg_cancel_backend",
    "pg_reload_conf", "pg_rotate_logfile", "pg_switch_wal", "pg_create_restore_point",
    "pg_promote", "lo_import", "lo_export", "dblink", "dblink_exec", "dblink_connect",
    "pg_notify", "set_config", "query_to_xml", "query_to_json", "xpath_table"].map js

/-- `text.split("\n")[0]`. -/
def firstLine (text : Text) : Text := text.takeWhile (· ≠ 0x0A)

/-- The characters `str.strip` removes. -/
def isPythonSpace (u : UInt16) : Bool :=
  (0x09 ≤ u && u ≤ 0x0D) || (0x1C ≤ u && u ≤ 0x20) || u == 0x85 || u == 0xA0 || u == 0x1680 ||
    (0x2000 ≤ u && u ≤ 0x200A) || u == 0x2028 || u == 0x2029 || u == 0x202F || u == 0x205F ||
    u == 0x3000

/-- The digits of a count, as a message prints it. -/
def countText (n : Nat) : Text := (JsNumber.ofNat n).text

/-! ### The refusal set -/

/-- `type(node).__name__`. -/
def Label.typeName : Label → Text
  | .table _ => js "Table"
  | .withClause _ => js "With"
  | .cte _ => js "CTE"
  | .select => js "Select"
  | .setOperation typeName => typeName
  | .write typeName => typeName
  | .lock => js "Lock"
  | .func _ typeName => typeName
  | .other typeName => typeName

def Label.isQueryRoot : Label → Bool
  | .select => true
  | .setOperation _ => true
  | _ => false

/-- Root must be a query. -/
def rootFindings (tree : Tree) : List Finding :=
  if tree.label.isQueryRoot then []
  else
    [⟨js "error", js "statement_class", none, js "statement class " ++ tree.label.typeName ++
      js " is not a SELECT query (select-only surface)"⟩]

/-- The first write or utility node anywhere in the tree. -/
def writeFindings (tree : Tree) : List Finding :=
  match tree.walk.find? (fun | .write _ => true | _ => false) with
  | some label =>
      [⟨js "error", js "statement_class", none, label.typeName ++
        js " operation inside the statement; select-only surface refuses it"⟩]
  | none => []

def lockFindings (tree : Tree) : List Finding :=
  if tree.walk.contains .lock then
    [⟨js "error", js "locking_clause", none,
      js "locking clause (FOR UPDATE/SHARE) refused on the read surface"⟩]
  else []

def functionFinding (name : Text) : Finding :=
  ⟨js "error", js "denied_function", some name,
    js "function " ++ name ++ js "() is refused on the read surface"⟩

section

variable (P : Platform)

/-- Every denied function called, once. -/
def functionFindings (denied : List Text) (tree : Tree) : List Finding :=
  let called := tree.walk.filterMap fun
    | .func name _ => some (P.lower name)
    | _ => none
  ((called.filter (· ∈ denied)).foldl (fun seen name => if name ∈ seen then seen else seen ++ [name])
    []).map functionFinding

/-- The parse and the refusal set. `Except.error` is an exception that is not caught. -/
def checkStatementClass (S : Sqlglot) (statement engine : Text) (deniedFunctions : List Json) :
    Except Text (Option Tree × List Finding) :=
  let denied := DENIED_FUNCTIONS ++ deniedFunctions.map fun name => P.lower (P.str name)
  match S.parse statement engine with
  | .raised message => .error message
  | .parseError message =>
      .ok (none, [⟨js "error", js "parse_error", none, firstLine message⟩])
  | .parsed statements =>
    match statements.filterMap id with
    | [tree] =>
        .ok (some tree, rootFindings tree ++ writeFindings tree ++ lockFindings tree ++
          functionFindings P denied tree)
    | found =>
        .ok (none, [⟨js "error", js "multi_statement", none, countText found.length ++
          js " statements found; validate_sql binds exactly one"⟩])

/-! ### Object resolution -/

/-- `_cte_names`: the alias of every CTE anywhere in the tree. -/
def cteNames (tree : Tree) : List Text :=
  tree.walk.filterMap fun
    | .cte name => if name.name = [] then none else some (P.lower name.name)
    | _ => none

/-- `by_key`. A later object replaces an earlier one of the same key. -/
def byKey (objects : List Listed) : List ((Text × Text) × Listed) :=
  Dict.ofList (objects.map fun obj => ((P.lower obj.schema, P.lower obj.name), obj))

/-- The reference is taken for a CTE's, or has no name. -/
def TableRef.isSkipped (ctes : List Text) (t : TableRef) : Bool :=
  t.name.name = [] || (t.dbText = [] && P.lower t.name.name ∈ ctes)

/-- `table.db or default_schema`. -/
def TableRef.schemaName (defaultSchema : Text) (t : TableRef) : Text :=
  if t.dbText = [] then defaultSchema else t.dbText

/-- The FQN of a reference, as the statement spells it. -/
def ValidateRequest.fqn (request : ValidateRequest) (t : TableRef) : Text :=
  let qualified := t.schemaName request.defaultSchema ++ js "." ++ t.name.name
  if request.system = [] then qualified else request.system ++ js "." ++ qualified

def unknownObject (fqn : Text) : Finding :=
  ⟨js "error", js "unknown_object", some fqn,
    js "object " ++ fqn ++ js " does not exist in the latest accepted snapshot"⟩

/-- One round of the loop over the tables: the findings and `referenced` so far. -/
def resolveTable (request : ValidateRequest) (ctes : List Text)
    (acc : List Finding × List Text) (t : TableRef) : List Finding × List Text :=
  if t.isSkipped P ctes then acc
  else
    let key := (P.lower (t.schemaName request.defaultSchema), P.lower t.name.name)
    let fqn := request.fqn t
    if (Dict.get? (byKey P request.objects) key).isNone then (acc.1 ++ [unknownObject fqn], acc.2)
    else if fqn ∈ acc.2 then acc
    else (acc.1, acc.2 ++ [fqn])

/-- `schema_map`. -/
def schemaMap (objects : List Listed) : SchemaMap :=
  (byKey P objects).foldl
    (fun schemas entry =>
      let tables := (Dict.get? schemas entry.1.1).getD []
      Dict.set schemas entry.1.1 (Dict.set tables entry.1.2 entry.2.columns))
    []

/-- The `ref` of an unknown column: the one table referenced, or all of them. -/
def columnRef : List Text → Option Text
  | [] => none
  | [fqn] => some fqn
  | fqns => some ((js ", ").intercalate fqns)

/-- The digest, which `str.encode` refuses for a lone surrogate. -/
def passing (statement : Text) (referenced : List Text) : Except Text Verdict :=
  if isWellFormed statement then
    .ok ⟨.pass, [], some (P.sha256Hex statement), some referenced⟩
  else .error (js "surrogates not allowed")

/-- Steps 7 and 8, on a tree the refusal set let through. -/
def resolveTree (S : Sqlglot) (request : ValidateRequest) (tree : Tree) : Except Text Verdict :=
  let resolved := tree.tables.foldl (resolveTable P request (cteNames P tree)) ([], [])
  if resolved.1 ≠ [] then .ok (failing resolved.1)
  else
    match S.qualify tree (schemaMap P request.objects) request.engine request.defaultSchema with
    | .raised message => .error message
    | .optimizeError message =>
        .ok (failing [⟨js "error", js "unknown_column", columnRef resolved.2, firstLine message⟩])
    | .qualified => passing P request.statement resolved.2

/-- The keys a request may leave empty. -/
def ValidateRequest.defaulted (request : ValidateRequest) : ValidateRequest :=
  { request with
    engine := if request.engine = [] then js "postgres" else request.engine
    defaultSchema := if request.defaultSchema = [] then js "public" else request.defaultSchema }

/-- `validate_statement`, with its defaults filled in. -/
def validateDefaulted (S : Sqlglot) (request : ValidateRequest) : Except Text Verdict :=
  match checkStatementClass P S request.statement request.engine request.deniedFunctions with
  | .error message => .error message
  | .ok (none, findings) => .ok (failing findings)
  | .ok (some tree, findings) =>
    if findings ≠ [] then .ok (failing findings) else resolveTree P S request tree

/-- `validate_statement`. -/
def validateStatement (S : Sqlglot) (request : ValidateRequest) : Except Text Verdict :=
  if request.statement.all isPythonSpace then
    .ok (failing [⟨js "error", js "invalid_argument", none,
      js "statement (non-empty string) required"⟩])
  else validateDefaulted P S request.defaulted

end

end ContextLayer.Sql
