import ContextLayer.Lib.Capped
import ContextLayer.PyText
import ContextLayer.Runner

/-!
# The executors

`connectors/sdk/providers.py`, `connectors/ga4/executor.py` and the streaming of `connectors/postgres/executor.py`. A
result holds no more rows than the guardrails allow, and says whether there were more.
-/

namespace ContextLayer.Sdk

open Text PyText Frontmatter Capped

/-! ### Guardrails -/

structure Guardrails where
  rowCap : Nat
  timeoutS : Nat
  statementClass : PyStr
  validatedAgainst : Option PyStr
  rowCap_pos : 0 < rowCap
  timeoutS_pos : 0 < timeoutS

namespace Guardrails

/-- `MAX_ROW_CAP`. -/
def maxRowCap : Nat := 1000000

/-- `MAX_TIMEOUT_S`. -/
def maxTimeoutS : Nat := 300

/-- `bounded`, of a positive fallback and ceiling. -/
def bounded (raw : Members) (key : String) (fallback ceiling : {n : Nat // 0 < n}) : {n : Nat // 0 < n} :=
  match get raw key with
  | some (.number (.int n)) =>
      if h : 0 < n then ⟨min n.toNat ceiling, lt_min (Int.lt_toNat.mpr h) ceiling.2⟩ else fallback
  | _ => fallback

/-- `Guardrails()`. -/
def default : Guardrails where
  rowCap := 1000
  timeoutS := 30
  statementClass := py "select-only"
  validatedAgainst := none
  rowCap_pos := by decide
  timeoutS_pos := by decide

/-- `Guardrails.parse`. -/
def parse : PyJson → Guardrails
  | .obj raw =>
      let rowCap := bounded raw "row_cap" ⟨default.rowCap, default.rowCap_pos⟩ ⟨maxRowCap, by decide⟩
      let timeoutS := bounded raw "timeout_s" ⟨default.timeoutS, default.timeoutS_pos⟩ ⟨maxTimeoutS, by decide⟩
      { rowCap := rowCap
        timeoutS := timeoutS
        statementClass := py "select-only"
        validatedAgainst := (get raw "validated_against").bind PyJson.asStr
        rowCap_pos := rowCap.2
        timeoutS_pos := timeoutS.2 }
  | _ => default

end Guardrails

/-! ### Requests and results -/

/-- An `ExecuteRequest` of the API dialect. -/
structure ExecuteRequest where
  dialect : PyStr
  operation : PyJson
  body : Option Members

structure ResultColumn where
  name : PyJson
  type : PyJson

structure ExecuteResult where
  columns : List ResultColumn
  rows : List (List PyJson)
  rowCount : Nat
  truncated : Bool
  durationMs : Nat
  executedOn : PyStr
  engineVersion : PyStr

inductive ExecuteError where
  | config (text : PyStr)
  | guardrail (text capabilityCode : PyStr)
  /-- An `AttributeError`, a `KeyError` or a `TypeError`. -/
  | malformed
  | raised (e : Raised)

/-! ### Pages of a report -/

/-- `value.get(key)`; `none` is an `AttributeError`. -/
def member (v : PyJson) (key : String) : Option (Option PyJson) :=
  match v with
  | .obj members => some (get members key)
  | _ => none

/-- `[f(v) for v in value.get(key, [])]`. -/
def listed {α : Type} (value : PyJson) (key : String) (f : PyJson → Option α) : Option (List α) := do
  let items ← (← member value key).elim (some []) PyJson.iterate
  items.mapM f

/-- `_columns`. -/
def columnsOf (page : Members) : Option (List ResultColumn) := do
  let dimensions ← listed (.obj page) "dimensionHeaders" fun header => do
    some ⟨(← member header "name").getD (.str []), .str (py "string")⟩
  let metrics ← listed (.obj page) "metricHeaders" fun header => do
    some ⟨(← member header "name").getD (.str []), (← member header "type").getD (.str (py "metric"))⟩
  some (dimensions ++ metrics)

/-- `_rows`. -/
def rowsOf (page : Members) : Option (List (List PyJson)) :=
  listed (.obj page) "rows" fun row => do
    let dimensions ← listed row "dimensionValues" fun v => do some ((← member v "value").getD .null)
    let metrics ← listed row "metricValues" fun v => do some ((← member v "value").getD .null)
    some (dimensions ++ metrics)

/-- `page.get("rowCount")`, if it is an `int`. A `bool` is one. -/
def totalOf (page : Members) : Option Int :=
  match get page "rowCount" with
  | some (.number (.int n)) => some n
  | some (.bool b) => some b.toNat
  | _ => none

/-! ### The executor of reports -/

/-- `MAX_PAGE_SIZE`. -/
@[irreducible]
def maxPageSize : Nat := 100000

theorem maxPageSize_pos : 0 < maxPageSize := by
  unfold maxPageSize
  exact Nat.succ_pos 99999

/-- What the API answers: the requests of a client are numbered. -/
abbrev Answer := Nat → Members → Except ExecuteError Members

/-- `_run_report`. -/
def runReport (post : Answer) (i : Nat) (request : Members) : Except ExecuteError Members :=
  match post i request with
  | .error (.config text) =>
      .error (.guardrail (py "GA4 rejected the request (an undocumented or unavailable dimension/metric, or an invalid date range): "
        ++ text) (py "schema_mismatch"))
  | answer => answer

/-- `{**body, "limit": page_size, "offset": offset}`. -/
def pageRequest (body : Members) (limit offset : Nat) : Members :=
  Dict.set (Dict.set body (py "limit") (.number (.int limit))) (py "offset") (.number (.int offset))

/-- One page: the columns, which are read until there are some, the rows, and how many there are in all. -/
def readPage (post : Answer) (i : Nat) (request : Members) (columns : List ResultColumn) :
    Except ExecuteError (List ResultColumn × List (List PyJson) × Option Int) := do
  let page ← runReport post i request
  let columns ← if columns.isEmpty then (columnsOf page).elim (throw .malformed) pure else pure columns
  let rows ← (rowsOf page).elim (throw .malformed) pure
  pure (columns, rows, totalOf page)

/-- The requests that were made, and what came of them. -/
structure Transcript (α : Type) where
  requests : List Members
  outcome : Except ExecuteError α

/-- The rows that are returned. -/
structure Fetched where
  columns : List ResultColumn
  rows : List (List PyJson)
  truncated : Bool

/-- The loop over pages. -/
def fetchPages (post : Answer) (body : Members) (rowCap i : Nat) (columns : List ResultColumn)
    (rows : List (List PyJson)) (offset : Nat) : Transcript Fetched :=
  if _hcap : rows.length < rowCap then
    let pageSize := min (rowCap - rows.length + 1) maxPageSize
    let request := pageRequest body pageSize offset
    match readPage post i request columns with
    | .error e => ⟨[request], .error e⟩
    | .ok (columns, pageRows, total) =>
        let filled := fill rowCap id rows pageRows
        if _hdone : filled.2 = true ∨ pageRows.length < pageSize then ⟨[request], .ok ⟨columns, filled.1, filled.2⟩⟩
        else if total.any fun total => decide (total ≤ ((offset + pageRows.length : Nat) : Int)) then
          ⟨[request], .ok ⟨columns, filled.1, filled.2⟩⟩
        else
          let rest := fetchPages post body rowCap (i + 1) columns filled.1 (offset + pageRows.length)
          ⟨request :: rest.requests, rest.outcome⟩
  else ⟨[], .ok ⟨columns, rows, false⟩⟩
termination_by rowCap - rows.length
decreasing_by
  obtain ⟨hfilled, _⟩ := not_or.mp _hdone
  have hlength := length_fill (Bool.eq_false_iff.mpr hfilled)
  have hmax := maxPageSize_pos
  omega

/-- A `GA4Executor`: how it connects. -/
structure GA4Executor where
  transportFactory : Members → Except ExecuteError (PyStr → Answer)

/-- `{DATA_API}/v1beta/properties/{config['property_id']}:runReport`. -/
def reportUrl (unicode : Unicode) (propertyId : PyJson) : PyStr :=
  py "https://analyticsdata.googleapis.com/v1beta/properties/" ++ str unicode propertyId ++ py ":runReport"

def asksForSomething (body : Members) : Bool :=
  ((get body "metrics").any PyJson.truthy) || ((get body "dimensions").any PyJson.truthy)

/-- `GA4Executor.execute`. -/
def GA4Executor.execute (executor : GA4Executor) (unicode : Unicode) (durationMs : Nat) (config : Members)
    (request : ExecuteRequest) (guardrails : Guardrails) : Transcript ExecuteResult :=
  if request.dialect ≠ py "api" then
    ⟨[], .error (.config (py "ga4 executes the api dialect, got " ++ reprStr unicode request.dialect))⟩
  else if request.operation.asStr ≠ some (py "runReport") then
    ⟨[], .error (.guardrail (py "operation " ++ repr unicode request.operation ++
      py " is not documented for ga4 (documented: runReport)") (py "schema_mismatch"))⟩
  else
    let body := request.body.getD []
    if asksForSomething body = false then
      ⟨[], .error (.guardrail (py "runReport requires at least one dimension or metric") (py "syntax_error"))⟩
    else
      match executor.transportFactory config, get config "property_id" with
      | .error e, _ => ⟨[], .error e⟩
      | .ok _, none => ⟨[], .error .malformed⟩
      | .ok client, some propertyId =>
          let fetched := fetchPages (client (reportUrl unicode propertyId)) body guardrails.rowCap 0 [] [] 0
          ⟨fetched.requests, fetched.outcome.map fun f =>
            { columns := f.columns
              rows := f.rows
              rowCount := f.rows.length
              truncated := f.truncated
              durationMs := durationMs
              executedOn := py "api"
              engineVersion := py "ga4-data-v1beta" }⟩

/-! ### The stream of rows -/

/-- `FETCH_BATCH`. -/
def fetchBatch : Nat := 500

/-- A cursor that has executed a statement: a record has a value for every column. -/
structure Cursor (Value σ : Type) where
  description : List (PyStr × Nat)
  fetchmany : Nat → σ → List {record : List Value // record.length = description.length} × σ

structure Connection (Value σ : Type) where
  execute : PyStr → Option (List PyJson) → Cursor Value σ × σ

/-- What is rendered how. -/
structure Encoders (Value : Type) where
  typeName : Nat → PyStr
  jsonValue : Value → PyJson
  isSequence : Value → Bool
  pgText : Value → PyStr
  isTimedelta : Value → Bool
  pgInterval : Value → PyStr

section

variable {Value σ : Type}

/-- `_PASSTHROUGH_TYPES`. -/
def passthroughTypes : List PyStr := [py "json", py "jsonb"]

/-- One value of `_encode_row`. -/
def encodeValue (encoders : Encoders Value) (value : Value) (native : Bool) : PyJson :=
  if native then encoders.jsonValue value
  else if encoders.isSequence value then .str (encoders.pgText value)
  else if encoders.isTimedelta value then .str (encoders.pgInterval value)
  else encoders.jsonValue value

/-- `_encode_row`. -/
def encodeRow (encoders : Encoders Value) (native : List Bool) (record : List Value) : List PyJson :=
  List.zipWith (encodeValue encoders) record native

/-- The loop over batches; also how the cursor is left. -/
def fetchRows (cur : Cursor Value σ) (encode : List Value → List PyJson) (rowCap : Nat) (rows : List (List PyJson))
    (s : σ) : List (List PyJson) × Bool × σ :=
  if _hcap : rows.length ≤ rowCap then
    let batch := cur.fetchmany (min fetchBatch (rowCap + 1 - rows.length)) s
    if _hempty : batch.1 = [] then (rows, false, batch.2)
    else
      let filled := fill rowCap (fun record => encode record.1) rows batch.1
      if _htruncated : filled.2 = true then (filled.1, true, batch.2)
      else fetchRows cur encode rowCap filled.1 batch.2
  else (rows, false, s)
termination_by rowCap + 1 - rows.length
decreasing_by
  have hlength := length_fill (Bool.eq_false_iff.mpr _htruncated)
  have hbatch := List.length_pos_iff.mpr _hempty
  change rowCap + 1 - filled.1.length < _
  rw [hlength]
  omega

/-- The columns of which the values are JSON as they are. -/
def nativeOf (encoders : Encoders Value) (description : List (PyStr × Nat)) : List Bool :=
  description.map fun desc => decide (encoders.typeName desc.2 ∈ passthroughTypes)

def columnsOfCursor (encoders : Encoders Value) (description : List (PyStr × Nat)) : List ResultColumn :=
  description.map fun desc => ⟨.str desc.1, .str (encoders.typeName desc.2)⟩

/-- `_stream`. -/
def stream (encoders : Encoders Value) (conn : Connection Value σ) (statement : PyStr) (params : List PyJson)
    (rowCap : Nat) : List ResultColumn × List (List PyJson) × Bool × σ :=
  let (cur, s) := conn.execute statement (if params.isEmpty then none else some params)
  (columnsOfCursor encoders cur.description,
    fetchRows cur (encodeRow encoders (nativeOf encoders cur.description)) rowCap [] s)

end

end ContextLayer.Sdk
