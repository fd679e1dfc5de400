import ContextLayer.Changelog
import ContextLayer.Ledger

/-!
# The inbox

What happened to the issues a caller filed on. An acknowledgement copies the time the issue's news is
told by, `coalesce(resolved_at, verdict_at)`, and the issue is unread again once that time is a later
one. The times are texts of one session time zone, which order as the times do.

Reads and acknowledgements come between the statements of the ledger, each at a time of its own.
-/

namespace ContextLayer

open Text

/-- A row of `dashboard_inbox_acks`. -/
structure Ack where
  ackedVerdictAt : Option Nat
  ackedAt : Nat
  deriving DecidableEq

/-- By the primary key, `(subject, issue_id)`. -/
abbrev Acks := List ((Text × Text) × Ack)

/-- `status IN ('rejected', 'resolved')`. -/
def IssueStatus.settles : IssueStatus → Bool
  | .rejected | .resolved => true
  | _ => false

/-- `coalesce(resolved_at, verdict_at)`. -/
def LedgerIssue.stamp (r : LedgerIssue) : Option Nat := r.resolvedAt.or r.verdictAt

/-- `EXISTS (SELECT 1 FROM ledger_events …)`. -/
def Ledger.filedBy (l : Ledger) (subject : Text) (r : LedgerIssue) : Bool :=
  l.events.any fun e => decide (e.issueId = r.issueId) && decide (e.subject = some subject)

/-! ### `GET /v1/dashboard/inbox` -/

structure InboxRead where
  subject : Text
  /-- `req.query.subject`. -/
  requested : Option Text
  ws : KbState
  scopes : List Scope
  pageMax : Nat

structure InboxRejection where
  verdictBy : Option Text
  verdictAt : Option Nat

structure InboxResolution where
  resolvedAt : Option Nat
  kind : Option Text
  prUrl : Option Text

structure InboxItem where
  issueId : Text
  kind : Text
  objectFqn : Option Text
  status : IssueStatus
  unread : Bool
  reopenCount : Nat
  rejection : Option InboxRejection
  resolution : Option InboxResolution

def InboxRead.issueVisible (q : InboxRead) (r : LedgerIssue) : Bool :=
  match r.objectFqn with
  | none => true
  | some fqn => fqnVisible q.ws q.scopes fqn

/-- `NULLS LAST`, the order being a descending one. -/
def newsStamp (r : LedgerIssue) : WithBot Nat := r.stamp

/-- `ORDER BY coalesce(i.resolved_at, i.verdict_at) DESC NULLS LAST, i.issue_id DESC`. -/
def newsOrder (r r' : LedgerIssue) : Prop :=
  newsStamp r' < newsStamp r ∨ newsStamp r = newsStamp r' ∧ r'.issueId ≤ r.issueId

instance (r r' : LedgerIssue) : Decidable (newsOrder r r') := by
  unfold newsOrder
  infer_instance

/-- The rows the query finds, before its `ORDER BY` and `LIMIT`. -/
def settledFilings (l : Ledger) (subject : Text) : List LedgerIssue :=
  l.issues.rows.filter fun r => r.status.settles && l.filedBy subject r

def isUnread (stamp : Option Nat) : Option Ack → Bool
  | none => true
  | some ack =>
      match stamp, ack.ackedVerdictAt with
      | some stamp, some acked => decide (acked < stamp)
      | some _, none => true
      | none, _ => false

def Resolution.kind : Resolution → Text
  | .dismissed _ => js "dismissed"
  | .enrichmentPr _ => js "enrichment_pr"

def Resolution.prUrl : Resolution → Option Text
  | .dismissed _ => none
  | .enrichmentPr prUrl => some prUrl

def inboxItem (r : LedgerIssue) (ack : Option Ack) : InboxItem where
  issueId := r.issueId
  kind := r.kind
  objectFqn := (r.objectFqn.filter fun fqn => decide (fqn ≠ [])).map neutralize
  status := r.status
  unread := isUnread r.stamp ack
  reopenCount := r.reopenCount
  rejection := if r.status = .rejected then some ⟨r.verdictBy, r.verdictAt⟩ else none
  resolution :=
    if r.status = .resolved then
      some ⟨r.resolvedAt, r.resolution.map Resolution.kind, r.resolution.bind Resolution.prUrl⟩
    else none

/-- The items, `none` when the caller asks for the inbox of another. -/
def inbox (q : InboxRead) (l : Ledger) (acks : Acks) : Option (List InboxItem) :=
  if (q.requested.filter fun s => decide (s ≠ [])).all fun s => decide (s = q.subject) then
    some <| ((((settledFilings l q.subject).insertionSort newsOrder).take q.pageMax).filter
      q.issueVisible).map fun r => inboxItem r (Dict.get? acks (q.subject, r.issueId))
  else none

/-! ### `POST /v1/dashboard/inbox/ack` -/

/-- The `issue_ids` that go into the statement: `none` is a refusal, or an error of the cast. -/
def ackIds (issueIds : List Text) : Option (List Text) :=
  match issueIds.filter fun id =>
    decide (id.length = 36) && id.all fun u => isHexDigit u || isHyphen u with
  | [] => none
  | id :: rest => (id :: rest).mapM uuidIn

/-- `INSERT … SELECT … ON CONFLICT (subject, issue_id) DO UPDATE`. -/
def ackIssues (subject : Text) (now : Nat) (rows : List LedgerIssue) (acks : Acks) : Acks :=
  rows.foldl (fun acks r => Dict.set acks (subject, r.issueId) ⟨r.stamp, now⟩) acks

def acknowledge (subject : Text) (issueIds : List Text) (now : Nat) (l : Ledger) (acks : Acks) :
    Acks :=
  match ackIds issueIds with
  | none => acks
  | some ids =>
      ackIssues subject now
        (l.issues.rows.filter fun r => decide (r.issueId ∈ ids) && l.filedBy subject r) acks

/-! ### Interleavings -/

structure InboxWorld where
  ledger : LedgerState
  acks : Acks
  clock : Nat
  /-- When each issue last went from one status into another. -/
  turnedAt : Text → Nat

inductive InboxCall where
  | ledger (e : LedgerStep)
  | ack (subject : Text) (issueIds : List Text)

structure InboxEvent where
  time : Nat
  call : InboxCall

def Ledger.statusOf (l : Ledger) (issueId : Text) : Option IssueStatus :=
  (l.getIssue issueId).map LedgerIssue.status

namespace InboxWorld

def start : InboxWorld := ⟨.start, [], 0, fun _ => 0⟩

/-- `new Date()` is the time of the statement it goes into. -/
def May (w : InboxWorld) (e : InboxEvent) : Prop :=
  w.clock < e.time ∧
    match e.call with
    | .ledger (.update a stamp) => a ∈ w.ledger.acts ∧ stamp = e.time
    | _ => True

instance : DecidableRel May := fun w e => by
  unfold May
  split <;> infer_instance

def next (routing : List (Text × Text)) (w : InboxWorld) (e : InboxEvent) : InboxWorld :=
  match e.call with
  | .ledger step =>
      let ledger := w.ledger.apply routing step
      { w with
        ledger
        clock := e.time
        turnedAt := fun issueId =>
          if ledger.ledger.statusOf issueId = w.ledger.ledger.statusOf issueId then
            w.turnedAt issueId
          else e.time }
  | .ack subject issueIds =>
      { w with
        acks := acknowledge subject issueIds e.time w.ledger.ledger w.acks
        clock := e.time }

end InboxWorld

def inboxMachine (routing : List (Text × Text)) : Machine InboxWorld InboxEvent where
  start := .start
  May := InboxWorld.May
  next := InboxWorld.next routing

instance (routing : List (Text × Text)) : DecidableRel (inboxMachine routing).May :=
  inferInstanceAs (DecidableRel InboxWorld.May)

/-! ### What the inbox promises -/

/-- The issue's last change of status came after the subject's latest acknowledgement of it. -/
def InboxWorld.IsNews (w : InboxWorld) (subject : Text) (r : LedgerIssue) : Prop :=
  ∀ ack ∈ Dict.get? w.acks (subject, r.issueId), ack.ackedAt < w.turnedAt r.issueId

/-- The read is of the caller's own inbox, sees the issue's object, and has a page that is not
filled by issues ordered before it. -/
structure InboxRead.Reaches (q : InboxRead) (l : Ledger) (r : LedgerIssue) : Prop where
  own : (q.requested.filter fun s => decide (s ≠ [])).all (fun s => decide (s = q.subject)) = true
  visible : q.issueVisible r = true
  page : ((settledFilings l q.subject).filter fun r' => decide (newsOrder r' r)).length ≤ q.pageMax

/-- **The news law**: an issue that is rejected or resolved is shown unread to one who filed on it
exactly when its status has changed since they last acknowledged it. -/
def InboxWorld.TellsNews (w : InboxWorld) : Prop :=
  ∀ (q : InboxRead), ∀ r ∈ w.ledger.ledger.issues.rows, r.status.settles = true →
    w.ledger.ledger.filedBy q.subject r = true → q.Reaches w.ledger.ledger r →
      ((∃ items, inbox q w.ledger.ledger w.acks = some items ∧
          ∃ item ∈ items, item.issueId = r.issueId ∧ item.unread = true) ↔
        w.IsNews q.subject r)

/-- Later than what anyone has acknowledged of the issue. -/
def Acks.before (acks : Acks) (issueId : Text) (stamp : Nat) : Bool :=
  acks.all fun (key, ack) => decide (key.2 ≠ issueId) || ack.ackedVerdictAt.all fun acked =>
    decide (acked < stamp)

/-- A rejection finds no `resolved_at` on the issue, or one later than what anyone has acknowledged
of it; a sweep resolves an issue by a merge that is later than that. -/
def InboxWorld.Restamps (w : InboxWorld) (e : InboxEvent) : Prop :=
  match e.call with
  | .ledger (.update (.verdict issueId .reject _) _) =>
      ∀ r ∈ w.ledger.ledger.issues.rows, r.issueId = issueId → r.status = .opened →
        (r.resolvedAt.all fun stamp => w.acks.before issueId stamp) = true
  | .ledger (.resolve issueId mergedAt _) =>
      ∀ r ∈ w.ledger.ledger.issues.rows, r.issueId = issueId → r.status ≠ .resolved →
        w.acks.before issueId mergedAt = true
  | _ => True

instance : DecidableRel InboxWorld.Restamps := fun w e => by
  unfold InboxWorld.Restamps
  split <;> infer_instance

end ContextLayer
