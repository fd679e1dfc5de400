import ContextLayer.Inbox
import ContextLayer.Platform
import ContextLayer.Connections
import ContextLayer.Lib.Keyset

/-!
# Reads of the ledger

Two reads list issues and leave out those the caller may not see: `list_gaps`, the first issues of a queue, and
`GET /v1/dashboard/ledger`, page by page. Either asks the database for so many issues and tells afterwards which of
them are visible.
-/

namespace ContextLayer

open Text

def IssueStatus.text : IssueStatus → Text
  | .opened => js "open"
  | .triaged => js "triaged"
  | .resolved => js "resolved"
  | .dismissed => js "dismissed"
  | .approved => js "approved"
  | .rejected => js "rejected"
  | .batched => js "batched"

/-- Whom an answer is for. -/
structure View where
  ws : KbState
  scopes : List Scope

def View.issueVisible (v : View) (r : LedgerIssue) : Bool :=
  match r.objectFqn with
  | none => true
  | some fqn => fqnVisible v.ws v.scopes fqn

/-- `i.kind = $n` and `i.system = $n`, where they are asked for. An empty text asks for nothing. -/
def matchesFilter (kind system : Option Text) (r : LedgerIssue) : Bool :=
  (kind.filter (· ≠ [])).all (fun k => decide (r.kind = k)) &&
    (system.filter (· ≠ [])).all fun s => decide (r.system = some s)

/-! ### `list_gaps` -/

/-- `LIST_GAPS_STATUSES`. -/
def listGapsStatuses : List Text := [js "open", js "triaged", js "approved", js "batched"]

/-- `STEWARD_PROFILES`. -/
def stewardProfiles : List Text := [js "steward", js "benchmark"]

structure GapArgs where
  status : Option Text
  kind : Option Text
  system : Option Text
  /-- `Number(args.limit)`, if it is a number. -/
  limit : Option ℚ

/-- `typeof args.status === "string" ? args.status : "open"`. -/
def GapArgs.queue (args : GapArgs) : Text := args.status.getD (js "open")

/-- `Number(args.limit ?? 20) || 20`. -/
def GapArgs.count (args : GapArgs) : ℚ := ((args.limit.filter (· ≠ 0))).getD 20

/-- `ORDER BY i.occurrences DESC, i.last_seen DESC, i.issue_id`. -/
def gapOrder (r r' : LedgerIssue) : Prop :=
  r'.occurrences < r.occurrences ∨ (r.occurrences = r'.occurrences ∧
    (r'.lastSeen < r.lastSeen ∨ (r.lastSeen = r'.lastSeen ∧ r.issueId ≤ r'.issueId)))

instance (r r' : LedgerIssue) : Decidable (gapOrder r r') := by
  unfold gapOrder
  infer_instance

/-- The issues that match, in the order of the queue. -/
def gapQueue (l : Ledger) (args : GapArgs) : List LedgerIssue :=
  (l.issues.rows.filter fun r => decide (r.status.text = args.queue) &&
    matchesFilter args.kind args.system r).insertionSort gapOrder

/-- The limit of the statement, which takes a number that is an integer and not negative. -/
def GapArgs.clamped (args : GapArgs) : Option Nat :=
  let limit := min args.count 100
  if limit.den = 1 ∧ 0 ≤ limit.num then some limit.num.toNat else none

def listIssues (l : Ledger) (args : GapArgs) : Option (List LedgerIssue) :=
  args.clamped.map fun n => (gapQueue l args).take n

inductive GapOutcome where
  | permissionDenied
  | invalidArgument
  /-- The statement fails. -/
  | raised
  | issues (visible : List LedgerIssue) (filtered : Nat)

def toolListGaps (v : View) (profileName : Text) (l : Ledger) (args : GapArgs) : GapOutcome :=
  if profileName ∉ stewardProfiles then .permissionDenied
  else if args.queue ∉ listGapsStatuses then .invalidArgument
  else
    match listIssues l args with
    | none => .raised
    | some issues =>
        let visible := issues.filter v.issueVisible
        .issues visible (issues.length - visible.length)

/-! ### `GET /v1/dashboard/ledger` -/

/-- `intVar` takes positive numbers only. -/
structure PageConfig where
  pageDefault : Nat
  pageMax : Nat
  positive : 0 < pageDefault
  le : pageDefault ≤ pageMax

/-- What the statement of a page is run by. -/
structure QueueDb where
  ledger : Ledger
  /-- `to_jsonb(ts) #>> '{}'`. -/
  stampText : Nat → Text
  /-- `text::timestamptz`. -/
  readStamp : Text → Option Nat
  readStamp_stampText : ∀ ts, readStamp (stampText ts) = some ts
  /-- `text::uuid`. -/
  readUuid : Text → Option Text
  readUuid_issueId : ∀ r ∈ ledger.issues.rows, readUuid r.issueId = some r.issueId
  /-- `Number(value)`, as the statement takes it for an `integer`. -/
  readInteger : Option Json → Option Int
  readInteger_ofNat : ∀ n, readInteger (some (.num (.ofNat n))) = some n

structure QueueViewer extends View where
  isSteward : Bool
  subject : Text

structure QueueRequest where
  filedBy : Option Text
  status : Option Text
  kind : Option Text
  system : Option Text
  /-- `Number(query.limit)`. -/
  limit : Option Int
  deriving DecidableEq

/-- `str`. -/
def nonEmpty (value : Option Text) : Option Text := value.filter (· ≠ [])

/-- Whose issues; `none` is the refusal. -/
def QueueRequest.scope (q : QueueRequest) (viewer : QueueViewer) : Option (Option Text) :=
  if viewer.isSteward then some (nonEmpty q.filedBy)
  else if (nonEmpty q.filedBy).all (fun s => decide (s = viewer.subject)) then some (some viewer.subject)
  else none

/-- `DEFAULT_QUEUE_STATUSES`. -/
def defaultQueueStatuses : List Text := [js "open", js "triaged", js "approved", js "batched"]

/-- Every status, where the list is empty. -/
def QueueRequest.statuses (q : QueueRequest) : List Text :=
  match nonEmpty q.status with
  | none => defaultQueueStatuses
  | some raw =>
      if raw = js "all" then []
      else ((raw.splitOn 0x2C).map Connections.trim).filter (· ≠ [])

/-- `readPage`; `none` is the `BadRequest`. -/
def QueueRequest.pageLimit (q : QueueRequest) (config : PageConfig) : Option Nat :=
  match q.limit with
  | none => some config.pageDefault
  | some n => if n < 1 then none else some (min n.toNat config.pageMax)

structure QueueKey where
  occurrences : Int
  distinctSubjects : Int
  lastSeen : Nat
  issueId : Text

/-- `(i.occurrences, i.distinct_subjects, i.last_seen, i.issue_id) < (…)`. -/
def QueueKey.precedes (k : QueueKey) (r : LedgerIssue) : Prop :=
  (r.occurrences : Int) < k.occurrences ∨ ((r.occurrences : Int) = k.occurrences ∧
    ((r.distinctSubjects : Int) < k.distinctSubjects ∨ ((r.distinctSubjects : Int) = k.distinctSubjects ∧
      (r.lastSeen < k.lastSeen ∨ (r.lastSeen = k.lastSeen ∧ r.issueId < k.issueId)))))

instance (k : QueueKey) (r : LedgerIssue) : Decidable (k.precedes r) := by
  unfold QueueKey.precedes
  infer_instance

/-- `encodeCursor`. -/
def QueueDb.encodeCursor (db : QueueDb) (last : LedgerIssue) : Text :=
  b64url (stringify (.obj [(js "occurrences", .num (.ofNat last.occurrences)),
    (js "distinct_subjects", .num (.ofNat last.distinctSubjects)),
    (js "last_seen", .str (db.stampText last.lastSeen)), (js "issue_id", .str last.issueId)]))

/-- `String(value)`. -/
def stringOf (P : Platform) : Option Json → Text
  | some (.str s) => s
  | value => P.string value

/-- `decodeCursor`, as the statement takes it: `none` is the refusal, of the cursor or by the database. -/
def QueueDb.decodeCursor (P : Platform) (db : QueueDb) (raw : Text) : Option QueueKey :=
  match P.parse (ofB64url raw) with
  | some (.obj members) => do
      let occurrences ← db.readInteger (Dict.get? members (js "occurrences"))
      let distinctSubjects ← db.readInteger (Dict.get? members (js "distinct_subjects"))
      let lastSeen ← db.readStamp (stringOf P (Dict.get? members (js "last_seen")))
      let issueId ← db.readUuid (stringOf P (Dict.get? members (js "issue_id")))
      pure ⟨occurrences, distinctSubjects, lastSeen, issueId⟩
  | _ => none

/-- The `WHERE` of `listTriageIssues`, its cursor apart. -/
def QueueDb.takes (db : QueueDb) (q : QueueRequest) (filedBy : Option Text) (r : LedgerIssue) : Bool :=
  (q.statuses.isEmpty || decide (r.status.text ∈ q.statuses)) && matchesFilter q.kind q.system r &&
    filedBy.all fun subject => db.ledger.filedBy subject r

def listTriageIssues (db : QueueDb) (q : QueueRequest) (filedBy : Option Text) (after : Option QueueKey)
    (limit : Nat) : List LedgerIssue :=
  ((db.ledger.issues.rows.filter fun r => db.takes q filedBy r &&
    after.all fun k => decide (k.precedes r)).insertionSort demandOrder).take limit

structure LedgerPage where
  issues : List LedgerIssue
  limit : Nat
  nextCursor : Option Text

/-- One request; `none` where it is refused. -/
def ledgerPage (P : Platform) (config : PageConfig) (db : QueueDb) (viewer : QueueViewer) (q : QueueRequest)
    (cursor : Option Text) : Option LedgerPage := do
  let limit ← q.pageLimit config
  let after ← match nonEmpty cursor with
    | none => some none
    | some raw => (db.decodeCursor P raw).map some
  let filedBy ← q.scope viewer
  let issues := listTriageIssues db q filedBy after (limit + 1)
  let window := if limit < issues.length then issues.take limit else issues
  pure ⟨window.filter viewer.issueVisible, limit,
    if limit < issues.length then window.getLast?.map db.encodeCursor else none⟩

/-- Every page from the first on; `none` where that takes more than `fuel` of them. -/
def followPages (P : Platform) (config : PageConfig) (db : QueueDb) (viewer : QueueViewer) (q : QueueRequest)
    (fuel : Nat) : Option (List LedgerIssue) :=
  Keyset.follow (fun cursor => (ledgerPage P config db viewer q cursor).map fun p => ⟨p.issues, p.nextCursor⟩)
    fuel none

/-- The matching issues, in the order of the queue. -/
def triageQueue (db : QueueDb) (q : QueueRequest) (filedBy : Option Text) : List LedgerIssue :=
  (db.ledger.issues.rows.filter (db.takes q filedBy)).insertionSort demandOrder

end ContextLayer
