import Mathlib.Logic.Function.Basic
import ContextLayer.Json

/-!
# Re-delivery of a push model

`_revise` writes an artifact's tables over those of the model, one request after the other: first the
schemas that changed, then table by table the rows, which are deleted and pushed in batches. A request
that fails has no effect, and ends the delivery; from the rows on, the tables replaced so far get the
rows of the previous delivery back.
-/

namespace ContextLayer

open Text

/-! ### The model and the plan -/

structure PbiColumn where
  name : Text
  dataType : Text
  deriving DecidableEq

structure TableState (Row : Type) where
  columns : List PbiColumn
  rows : List Row
  deriving DecidableEq

/-- A push model; `table` counts at the names it has. -/
structure SemanticModel (Row : Type) where
  names : List Text
  table : Text → TableState Row

structure TablePlan (Row : Type) where
  name : Text
  columns : List PbiColumn
  rows : List Row
  deriving DecidableEq

/-- The plans of an artifact, one for each of its queries. A plan is made of the result under the
query's name, so queries of one name have one plan. -/
structure DeliveryPlans (Row : Type) where
  plans : List (TablePlan Row)
  agree : ∀ p ∈ plans, ∀ q ∈ plans, p.name = q.name → p = q

/-- The requests of one re-delivery. A table is told by the position of its plan, in a restoration by
its position among the replaced ones. -/
inductive WireCall where
  | getTables
  | putTable (i : Nat)
  | deleteRows (restoring : Bool) (i : Nat)
  | postRows (restoring : Bool) (i start : Nat)
  deriving DecidableEq

/-- `PUSH_LIMITS["max_rows_per_post"]`. -/
def maxRowsPerPost : Nat := 10000

section

variable {Row : Type}

namespace SemanticModel

def setColumns (name : Text) (columns : List PbiColumn) (m : SemanticModel Row) :
    SemanticModel Row :=
  { m with table := Function.update m.table name { m.table name with columns } }

def setRows (name : Text) (f : List Row → List Row) (m : SemanticModel Row) : SemanticModel Row :=
  { m with table := Function.update m.table name { m.table name with rows := f (m.table name).rows } }

end SemanticModel

/-- `range(0, len(plan.rows), batch_size)`, with the batches. -/
def batches (rows : List Row) : List (Nat × List Row) :=
  (List.range ((rows.length + (maxRowsPerPost - 1)) / maxRowsPerPost)).map fun k =>
    (k * maxRowsPerPost, (rows.drop (k * maxRowsPerPost)).take maxRowsPerPost)

/-! ### Requests -/

variable (fails : WireCall → Bool)

def send (c : WireCall) (effect : SemanticModel Row → SemanticModel Row) (m : SemanticModel Row) :
    Except WireCall Unit × SemanticModel Row :=
  if fails c then (.error c, m) else (.ok (), effect m)

/-- `_push_rows`. -/
def pushRows (restoring : Bool) (i : Nat) (name : Text) :
    List (Nat × List Row) → SemanticModel Row → Except WireCall Unit × SemanticModel Row
  | [], m => (.ok (), m)
  | (start, batch) :: rest, m =>
      match send fails (.postRows restoring i start) (fun m => m.setRows name (· ++ batch)) m with
      | (.error c, m) => (.error c, m)
      | (.ok (), m) => pushRows restoring i name rest m

/-- `_replace_rows`. -/
def replaceRows (restoring : Bool) (i : Nat) (name : Text) (rows : List Row)
    (m : SemanticModel Row) : Except WireCall Unit × SemanticModel Row :=
  match send fails (.deleteRows restoring i) (fun m => m.setRows name fun _ => []) m with
  | (.error c, m) => (.error c, m)
  | (.ok (), m) => pushRows fails restoring i name (batches rows) m

/-- The loop of the `PutTable` requests, over the plans whose columns differ from the listed ones. -/
def putTables : List (TablePlan Row × Nat) → SemanticModel Row →
    Except WireCall Unit × SemanticModel Row
  | [], m => (.ok (), m)
  | (plan, i) :: rest, m =>
      match send fails (.putTable i) (fun m => m.setColumns plan.name plan.columns) m with
      | (.error c, m) => (.error c, m)
      | (.ok (), m) => putTables rest m

def changedTables (m : SemanticModel Row) (plans : List (TablePlan Row)) : List (TablePlan Row × Nat) :=
  plans.zipIdx.filter fun (plan, _) => decide ((m.table plan.name).columns ≠ plan.columns)

/-- `set(existing_tables) == planned_names`. -/
def sameTables (m : SemanticModel Row) (plans : List (TablePlan Row)) : Bool :=
  m.names.all (fun name => decide (name ∈ plans.map TablePlan.name)) &&
    plans.all fun plan => decide (plan.name ∈ m.names)

end

/-! ### Previous results -/

/-- A row object of the push API, `none` being a null. -/
abbrev EncodedRow (Cell : Type) := List (Text × Option Cell)

structure QueryResult where
  /-- Names and source types. -/
  columns : List (Text × Text)
  rows : List Json

/-- What one re-delivery is given beside its plans: the type map, and how a value is converted to a
type, `none` where it cannot be. -/
structure Encoding (Cell : Type) where
  pbiType : Text → Text
  convert : Text → Json → Option Cell

section

variable {Cell : Type} (encoding : Encoding Cell)

def Encoding.encodeValue (dataType : Text) : Json → Option (Option Cell)
  | .null => some none
  | value => (encoding.convert dataType value).map some

/-- `_encode_row`, `none` being its error. -/
def Encoding.encodeRow (columns : List PbiColumn) : Json → Option (EncodedRow Cell)
  | .arr values =>
      if values.length = columns.length then do
        let cells ← (columns.zip values).mapM fun (column, value) =>
          (encoding.encodeValue column.dataType value).map fun cell => (column.name, cell)
        pure (Dict.ofList cells)
      else none
  | _ => none

def Encoding.priorColumns (prior : QueryResult) : List PbiColumn :=
  prior.columns.map fun (name, type) => ⟨name, encoding.pbiType type⟩

def Encoding.priorRows (prior : QueryResult) : Option (List (EncodedRow Cell)) :=
  prior.rows.mapM (encoding.encodeRow (encoding.priorColumns prior))

/-! ### `_restore` and `_revise` -/

inductive RestoreState where
  /-- `new-rows (no previous results to restore from)`. -/
  | newRows
  | restoredPrevious
  /-- `unknown (restore failed)`. -/
  | unknown
  deriving DecidableEq

structure RestoreLog where
  states : List (Text × RestoreState)
  problems : List Text

def RestoreLog.restored (log : RestoreLog) (name : Text) : RestoreLog :=
  { log with states := Dict.set log.states name .restoredPrevious }

def RestoreLog.problem (log : RestoreLog) (name : Text) (state : RestoreState) : RestoreLog :=
  ⟨Dict.set log.states name state, log.problems ++ [name]⟩

inductive DeliveryError where
  | wire (c : WireCall)
  /-- `revision changes the table set`. -/
  | tableSet
  /-- `delivery_state_inconsistent`. -/
  | inconsistent (states : List (Text × RestoreState)) (original : WireCall)

variable (fails : WireCall → Bool) (previous : List (Text × QueryResult))

/-- The loop of `_restore`. -/
def restoreTables : List (Text × Nat) → RestoreLog → SemanticModel (EncodedRow Cell) →
    RestoreLog × SemanticModel (EncodedRow Cell)
  | [], log, m => (log, m)
  | (name, i) :: rest, log, m =>
      match Dict.get? previous name with
      | none => restoreTables rest (log.problem name .newRows) m
      | some prior =>
          match encoding.priorRows prior with
          | none => restoreTables rest (log.problem name .unknown) m
          | some rows =>
              match replaceRows fails true i name rows m with
              | (.error _, m) => restoreTables rest (log.problem name .unknown) m
              | (.ok (), m) => restoreTables rest (log.restored name) m

def restore (replaced : List Text) (original : WireCall) (m : SemanticModel (EncodedRow Cell)) :
    Except DeliveryError Unit × SemanticModel (EncodedRow Cell) :=
  if replaced = [] then (.error (.wire original), m)
  else
    match restoreTables encoding fails previous replaced.zipIdx ⟨[], []⟩ m with
    | (log, m) =>
        if log.problems = [] then (.error (.wire original), m)
        else (.error (.inconsistent log.states original), m)

/-- The guarded loop. -/
def replaceTables : List (TablePlan (EncodedRow Cell) × Nat) → List Text →
    SemanticModel (EncodedRow Cell) → Except DeliveryError Unit × SemanticModel (EncodedRow Cell)
  | [], _, m => (.ok (), m)
  | (plan, i) :: rest, replaced, m =>
      match replaceRows fails false i plan.name plan.rows m with
      | (.error c, m) => restore encoding fails previous replaced c m
      | (.ok (), m) => replaceTables rest (replaced ++ [plan.name]) m

def revise (plans : DeliveryPlans (EncodedRow Cell)) (m : SemanticModel (EncodedRow Cell)) :
    Except DeliveryError Unit × SemanticModel (EncodedRow Cell) :=
  match send fails .getTables id m with
  | (.error c, m) => (.error (.wire c), m)
  | (.ok (), m) =>
      if sameTables m plans.plans then
        match putTables fails (changedTables m plans.plans) m with
        | (.error c, m) => (.error (.wire c), m)
        | (.ok (), m) => replaceTables encoding fails previous plans.plans.zipIdx [] m
      else (.error .tableSet, m)

end

/-! ### Complete or previous -/

section

variable {Row Cell : Type}

/-- **Complete or previous**: every table is as planned, or every one as it was, or the error says
that the delivery is inconsistent. -/
def CompleteOrPrevious (m : SemanticModel Row) (plans : DeliveryPlans Row)
    (out : Except DeliveryError Unit × SemanticModel Row) : Prop :=
  (∀ plan ∈ plans.plans, out.2.table plan.name = ⟨plan.columns, plan.rows⟩) ∨
    (∀ name ∈ m.names, out.2.table name = m.table name) ∨
    ∃ states original, out.1 = .error (.inconsistent states original)

/-- `previous` holds the results the model was delivered from. -/
def PreviousIs (encoding : Encoding Cell) (previous : List (Text × QueryResult))
    (m : SemanticModel (EncodedRow Cell)) : Prop :=
  ∀ name ∈ m.names, ∃ prior, Dict.get? previous name = some prior ∧
    encoding.priorColumns prior = (m.table name).columns ∧
    encoding.priorRows prior = some (m.table name).rows

variable (fails : WireCall → Bool)

/-- One of the requests that replace a table's rows by `rows` fails. -/
def rowsFail (restoring : Bool) (i : Nat) (rows : List Row) : Bool :=
  fails (.deleteRows restoring i) ||
    (batches rows).any fun (start, _) => fails (.postRows restoring i start)

/-- The batches before the first one that fails. -/
def rowsPushed (restoring : Bool) (i : Nat) (rows : List Row) : List Row :=
  ((batches rows).takeWhile fun (start, _) => !fails (.postRows restoring i start)).flatMap Prod.snd

/-- What a table is left with where its rows `old` were to be replaced by `rows`. -/
def rowsLeft (restoring : Bool) (i : Nat) (old rows : List Row) : List Row :=
  if fails (.deleteRows restoring i) then old else rowsPushed fails restoring i rows

/-- A `PutTable` request fails: no schema is changed yet, or all of them are and no row is to. -/
def RecoversSchemas (m : SemanticModel Row) (plans : DeliveryPlans Row) : Prop :=
  let changed := changedTables m plans.plans
  let put := changed.takeWhile fun (_, i) => !fails (.putTable i)
  put = [] ∨ (∀ x ∈ changed, x.1.name ∈ put.map fun y => y.1.name) ∧
    ∀ plan ∈ plans.plans, (m.table plan.name).rows = plan.rows

/-- The rows of `plan` are not all replaced, those of the plans before it are: one of them is not
restored, or no schema is changed and the table that failed has its rows still, or what is left is
what was planned. -/
def RecoversRows (m : SemanticModel Row) (plans : DeliveryPlans Row) (replaced : List Text)
    (plan : TablePlan Row) (i : Nat) : Prop :=
  let left name :=
    if name = plan.name ∧ name ∉ replaced then
      rowsLeft fails false i (m.table name).rows plan.rows
    else (m.table name).rows
  (replaced.zipIdx.any fun (name, j) => rowsFail fails true j (m.table name).rows) = true ∨
    changedTables m plans.plans = [] ∧ (∀ name ∈ m.names, left name = (m.table name).rows) ∨
    ∀ q ∈ plans.plans, left q.name = q.rows

/-- No request that replaces the rows of the plan fails. -/
def replaces (x : TablePlan Row × Nat) : Bool := !rowsFail fails false x.2 x.1.rows

/-- The schemas are put. -/
def RecoversTables (m : SemanticModel Row) (plans : DeliveryPlans Row) : Prop :=
  match plans.plans.zipIdx.dropWhile (replaces fails) with
  | [] => True
  | (plan, i) :: _ =>
      RecoversRows fails m plans
        ((plans.plans.zipIdx.takeWhile (replaces fails)).map fun x => x.1.name) plan i

/-- The delivery does not fail, or recovers from the first request of it that does. -/
def Recovers (m : SemanticModel Row) (plans : DeliveryPlans Row) : Prop :=
  fails .getTables = true ∨ sameTables m plans.plans = false ∨
    if (changedTables m plans.plans).any (fun (_, i) => fails (.putTable i)) then
      RecoversSchemas fails m plans
    else RecoversTables fails m plans

end

end ContextLayer
