import ContextLayer.Utf8
import ContextLayer.Lib.Machine
import ContextLayer.Lib.Transaction

/-!
# The fault ledger

Events are deduplicated into issues by fingerprint, and an issue goes through a lifecycle: a
knowledge request through a verdict and a batch, any other kind through triage. A call that casts a
verdict, triages or returns an issue first reads it and answers from what it read, and then sends
one `UPDATE` with conditions of its own; other calls run in between.
-/

namespace ContextLayer

open Text Transaction

/-! ### The tables -/

/-- `opened` is the status `open`. -/
inductive IssueStatus where
  | opened
  | triaged
  | resolved
  | dismissed
  | approved
  | rejected
  | batched
  deriving DecidableEq

/-- `status IN ('resolved','dismissed','rejected')`. -/
def IssueStatus.reopens : IssueStatus → Bool
  | .resolved | .dismissed | .rejected => true
  | _ => false

inductive Resolution where
  | dismissed (actor : Text)
  | enrichmentPr (prUrl : Text)
  deriving DecidableEq

structure LedgerIssue where
  issueId : Text
  fingerprint : Text
  kind : Text
  system : Option Text
  objectFqn : Option Text
  status : IssueStatus
  routedTo : Text
  firstSeen : Nat
  lastSeen : Nat
  occurrences : Nat
  distinctSubjects : Nat
  reopenCount : Nat
  resolvedAt : Option Nat
  resolvedBy : Option Text
  resolution : Option Resolution
  /-- `links.prs`. -/
  prs : List Text
  verdictBy : Option Text
  verdictAt : Option Nat
  batchId : Option Text
  returnedAt : Option Nat
  deriving DecidableEq

/-- A row of `ledger_events`. -/
structure LedgerEvent where
  ts : Nat
  kind : Text
  fingerprint : Text
  system : Option Text
  objectFqn : Option Text
  subject : Option Text
  issueId : Text

def enrichmentRequest : Text := js "enrichment_request"

/-- The primary key, and the uniqueness of `fingerprint`. -/
def issueSchema : Schema LedgerIssue Text where
  key := LedgerIssue.issueId
  Holds rows := (rows.map LedgerIssue.fingerprint).Nodup
  decideHolds := inferInstance
  holds_sublist h := List.Nodup.sublist (h.map LedgerIssue.fingerprint)

abbrev IssueTable := Table issueSchema

/-- A `SET` clause of the ledger: none of them writes the columns an issue is told by. -/
structure IssueSet extends Assignment issueSchema where
  fingerprint_apply : ∀ r, (apply r).fingerprint = r.fingerprint
  kind_apply : ∀ r, (apply r).kind = r.kind

theorem map_ite_apply {α : Type} (f : LedgerIssue → α) (p : LedgerIssue → Bool) (set : IssueSet)
    (hf : ∀ r, f (set.apply r) = f r) (rows : List LedgerIssue) :
    (rows.map fun r => if p r then set.apply r else r).map f = rows.map f := by
  rw [List.map_map]
  apply List.map_congr_left
  intro r _
  by_cases hp : p r = true
  · simp [hp, hf]
  · simp [hp]

/-- `UPDATE ledger_issues SET … WHERE p`. -/
def updateWhere (p : LedgerIssue → Bool) (set : IssueSet) (t : IssueTable) : IssueTable where
  rows := t.rows.map fun r => if p r then set.apply r else r
  nodup := by
    rw [map_ite_apply issueSchema.key p set set.key_apply]
    exact t.nodup
  holds := by
    change List.Nodup _
    rw [map_ite_apply LedgerIssue.fingerprint p set set.fingerprint_apply]
    exact t.holds

theorem mem_updateWhere {p : LedgerIssue → Bool} {set : IssueSet} {t : IssueTable} {r' : LedgerIssue} :
    r' ∈ (updateWhere p set t).rows ↔
      ∃ r ∈ t.rows, r' = if p r then set.apply r else r := by
  simp only [updateWhere, List.mem_map, eq_comm]

/-- A row version, written over the row it is a version of. -/
def version (row : LedgerIssue) : Assignment issueSchema where
  apply r := if r.issueId = row.issueId then row else r
  key_apply r := by
    by_cases h : r.issueId = row.issueId
    · simp only [h, if_true]
      exact h.symm
    · simp only [h, if_false]

/-- The row version becomes visible: it replaces the version before it, or it is a new row. -/
def putIssue (row : LedgerIssue) (t : IssueTable) : Option IssueTable :=
  if row.issueId ∈ t.rows.map issueSchema.key then t.update row.issueId (version row)
  else t.insert row

structure Ledger where
  issues : IssueTable
  events : List LedgerEvent

/-! ### `recordEvent` -/

def fingerprintOf (sha256 : List UInt8 → Text) (kind scope : Text) : Text :=
  sha256 (utf8 (kind ++ js "‖" ++ scope))

structure LedgerEventInput where
  kind : Text
  scope : Text
  system : Option Text
  objectFqn : Option Text
  subject : Option Text
  ts : Option Nat

def routeFor (routing : List (Text × Text)) (kind : Text) : Text :=
  ((routing.lookup kind).or (routing.lookup (js "__default__"))).getD (js "data-team")

/-- A `recordEvent` with what it has decided before its transaction: the fingerprint, the time, and
the id of the issue in case there is none yet. -/
structure Filing where
  input : LedgerEventInput
  fingerprint : Text
  ts : Nat
  issueId : Text

/-- `now` is `new Date()`, and `issueId` is `randomUUID()`. -/
def LedgerEventInput.filing (sha256 : List UInt8 → Text) (input : LedgerEventInput)
    (issueId : Text) (now : Nat) : Filing where
  input := input
  fingerprint := fingerprintOf sha256 input.kind input.scope
  ts := input.ts.getD now
  issueId := issueId

namespace Filing

/-- The row of the `INSERT`. -/
def newIssue (routing : List (Text × Text)) (f : Filing) : LedgerIssue where
  issueId := f.issueId
  fingerprint := f.fingerprint
  kind := f.input.kind
  system := f.input.system
  objectFqn := f.input.objectFqn
  status := .opened
  routedTo := routeFor routing f.input.kind
  firstSeen := f.ts
  lastSeen := f.ts
  occurrences := 1
  distinctSubjects := 0
  reopenCount := 0
  resolvedAt := none
  resolvedBy := none
  resolution := none
  prs := []
  verdictBy := none
  verdictAt := none
  batchId := none
  returnedAt := none

/-- The `DO UPDATE`. -/
def recur (f : Filing) (r : LedgerIssue) : LedgerIssue :=
  { r with
    occurrences := r.occurrences + 1
    lastSeen := f.ts
    reopenCount := if r.status.reopens then r.reopenCount + 1 else r.reopenCount
    status := if r.status.reopens then .opened else r.status }

/-- `INSERT … ON CONFLICT (fingerprint) DO UPDATE … RETURNING`: the version it leaves of the issue,
`none` when the new row's key is taken. -/
def upsertIssue (routing : List (Text × Text)) (f : Filing) (t : IssueTable) : Option LedgerIssue :=
  match t.rows.find? fun r => decide (r.fingerprint = f.fingerprint) with
  | some r => some (f.recur r)
  | none =>
      if f.issueId ∈ t.rows.map issueSchema.key then none else some (f.newIssue routing)

/-- The row of the second `INSERT`. -/
def event (f : Filing) (issueId : Text) : LedgerEvent where
  ts := f.ts
  kind := f.input.kind
  fingerprint := f.fingerprint
  system := f.input.system
  objectFqn := f.input.objectFqn
  subject := f.input.subject
  issueId := issueId

end Filing

/-- `count(DISTINCT subject)` of the issue's events that have one. -/
def countSubjects (issueId : Text) (events : List LedgerEvent) : Nat :=
  ((events.filter fun e => decide (e.issueId = issueId)).filterMap LedgerEvent.subject).dedup.length

def refreshSubjects (events : List LedgerEvent) (r : LedgerIssue) : LedgerIssue :=
  { r with distinctSubjects := countSubjects r.issueId events }

/-- `recordEvent`'s transaction, alone: the issue it leaves, `none` when it is rolled back. -/
def recordEvent (routing : List (Text × Text)) (f : Filing) (l : Ledger) :
    Option (LedgerIssue × Ledger) := do
  let row ← f.upsertIssue routing l.issues
  let events := l.events ++ [f.event row.issueId]
  let issues ← putIssue (refreshSubjects events row) l.issues
  pure (refreshSubjects events row, ⟨issues, events⟩)

/-! ### Verdicts, triage, returns -/

def Ledger.getIssue (l : Ledger) (issueId : Text) : Option LedgerIssue :=
  l.issues.rows.find? fun r => decide (r.issueId = issueId)

inductive StewardVerdict where
  | approve
  | reject
  deriving DecidableEq

inductive TriageAction where
  | acknowledge
  | dismiss
  deriving DecidableEq

/-- `from`. -/
def TriageAction.applies : TriageAction → IssueStatus → Bool
  | .acknowledge, s => decide (s = .opened)
  | .dismiss, s => decide (s = .opened) || decide (s = .triaged)

/-- The calls that read an issue before they update it. -/
inductive Act where
  /-- `recordVerdict`. -/
  | verdict (issueId : Text) (verdict : StewardVerdict) (actor : Text)
  /-- `recordTriage`. -/
  | triage (issueId : Text) (action : TriageAction) (actor : Text)
  | returnToQueue (issueId : Text)
  deriving DecidableEq

inductive ActRefusal where
  | notFound
  | wrongKind
  | wrongState

namespace Act

def issueId : Act → Text
  | verdict id _ _ | triage id _ _ | returnToQueue id => id

def takesKind : Act → Text → Bool
  | verdict _ _ _, kind => decide (kind = enrichmentRequest)
  | triage _ _ _, kind => decide (kind ≠ enrichmentRequest)
  | returnToQueue _, kind => decide (kind = enrichmentRequest)

def takesStatus : Act → IssueStatus → Bool
  | verdict _ _ _, s => decide (s = .opened)
  | triage _ action _, s => action.applies s
  | returnToQueue _, s => decide (s = .batched)

/-- What the call answers from its first read, if it does not go on. -/
def check (a : Act) (l : Ledger) : Except ActRefusal Unit :=
  match l.getIssue a.issueId with
  | none => .error .notFound
  | some existing =>
      if !a.takesKind existing.kind then .error .wrongKind
      else if !a.takesStatus existing.status then .error .wrongState
      else .ok ()

/-- The `WHERE` clause of the `UPDATE`: triage does not look at the kind again. -/
def selects (a : Act) (r : LedgerIssue) : Bool :=
  decide (r.issueId = a.issueId) && a.takesStatus r.status &&
    match a with
    | triage _ _ _ => true
    | _ => a.takesKind r.kind

/-- The `SET` clause; `stamp` is `input.at ?? new Date()`. -/
def set (stamp : Nat) : Act → IssueSet
  | verdict _ .approve actor =>
      { apply := fun r => { r with
          status := .approved, verdictBy := some actor, verdictAt := some stamp }
        key_apply := fun _ => rfl, fingerprint_apply := fun _ => rfl, kind_apply := fun _ => rfl }
  | verdict _ .reject actor =>
      { apply := fun r => { r with
          status := .rejected, verdictBy := some actor, verdictAt := some stamp }
        key_apply := fun _ => rfl, fingerprint_apply := fun _ => rfl, kind_apply := fun _ => rfl }
  | triage _ .acknowledge _ =>
      { apply := fun r => { r with status := .triaged }
        key_apply := fun _ => rfl, fingerprint_apply := fun _ => rfl, kind_apply := fun _ => rfl }
  | triage _ .dismiss actor =>
      { apply := fun r => { r with
          status := .dismissed, resolvedAt := some stamp, resolvedBy := some actor
          resolution := some (.dismissed actor) }
        key_apply := fun _ => rfl, fingerprint_apply := fun _ => rfl, kind_apply := fun _ => rfl }
  | returnToQueue _ =>
      { apply := fun r => { r with
          status := .approved, batchId := none, returnedAt := some stamp }
        key_apply := fun _ => rfl, fingerprint_apply := fun _ => rfl, kind_apply := fun _ => rfl }

/-- The call's `UPDATE`, and whether it found its row as it was. -/
def update (a : Act) (stamp : Nat) (l : Ledger) : Except ActRefusal Unit × Ledger :=
  (if l.issues.rows.any a.selects then .ok () else .error .wrongState,
    { l with issues := updateWhere a.selects (a.set stamp) l.issues })

end Act

/-! ### `deliverBatch` -/

def deliverable (r : LedgerIssue) : Bool :=
  decide (r.kind = enrichmentRequest) && decide (r.status = .approved) && r.batchId.isNone

/-- `ORDER BY occurrences DESC, distinct_subjects DESC, last_seen DESC, issue_id DESC`. -/
def demandOrder (r r' : LedgerIssue) : Prop :=
  r'.occurrences < r.occurrences ∨ (r.occurrences = r'.occurrences ∧
    (r'.distinctSubjects < r.distinctSubjects ∨ (r.distinctSubjects = r'.distinctSubjects ∧
      (r'.lastSeen < r.lastSeen ∨ (r.lastSeen = r'.lastSeen ∧ r'.issueId ≤ r.issueId)))))

instance (r r' : LedgerIssue) : Decidable (demandOrder r r') := by
  unfold demandOrder
  infer_instance

/-- The rows the batch takes; `locked` are those `SKIP LOCKED` passes over. -/
def batchOf (max : Int) (locked : Text → Bool) (rows : List LedgerIssue) : List LedgerIssue :=
  ((rows.filter fun r => deliverable r && !locked r.issueId).insertionSort demandOrder).take
    (if 1 ≤ max then max.toNat else 1)

def setBatched (batchId : Text) : IssueSet where
  apply r := { r with status := .batched, batchId := some batchId }
  key_apply _ := rfl
  fingerprint_apply _ := rfl
  kind_apply _ := rfl

def deliverBatch (max : Int) (batchId : Text) (locked : Text → Bool) (l : Ledger) : Ledger :=
  { l with
    issues := updateWhere
      (fun r => decide (r.issueId ∈ (batchOf max locked l.issues.rows).map LedgerIssue.issueId))
      (setBatched batchId) l.issues }

/-! ### The `UPDATE` of `sweepResolutions` -/

def setResolved (mergedAt : Nat) (prUrl : Text) : IssueSet where
  apply r := { r with
    status := .resolved, resolvedAt := some mergedAt, resolvedBy := some (js "pr")
    resolution := some (.enrichmentPr prUrl), prs := r.prs ++ [prUrl] }
  key_apply _ := rfl
  fingerprint_apply _ := rfl
  kind_apply _ := rfl

def unresolved (issueId : Text) (r : LedgerIssue) : Bool :=
  decide (r.issueId = issueId) && decide (r.status ≠ .resolved)

def resolveIssue (issueId : Text) (mergedAt : Nat) (prUrl : Text) (l : Ledger) : Ledger :=
  { l with issues := updateWhere (unresolved issueId) (setResolved mergedAt prUrl) l.issues }

/-! ### The calls, interleaved -/

structure LedgerState where
  ledger : Ledger
  /-- The calls whose `UPDATE` is still to come. -/
  acts : List Act

inductive LedgerStep where
  | recordEvent (f : Filing)
  | check (a : Act)
  | update (a : Act) (stamp : Nat)
  | deliverBatch (max : Int) (batchId : Text) (locked : Text → Bool)
  | resolve (issueId : Text) (mergedAt : Nat) (prUrl : Text)

def LedgerStep.records : LedgerStep → Bool
  | .recordEvent _ => true
  | _ => false

namespace LedgerState

def start : LedgerState := ⟨⟨⟨[], List.nodup_nil, List.nodup_nil⟩, []⟩, []⟩

section

variable (routing : List (Text × Text))

/-- Only a call that has passed its check sends its `UPDATE`. -/
def Ready (s : LedgerState) : LedgerStep → Prop
  | .update a _ => a ∈ s.acts
  | _ => True

instance : DecidableRel Ready := fun s e => by
  cases e <;> (unfold Ready; infer_instance)

def apply (s : LedgerState) : LedgerStep → LedgerState
  | .recordEvent f =>
      match recordEvent routing f s.ledger with
      | none => s
      | some (_, l) => { s with ledger := l }
  | .check a =>
      match a.check s.ledger with
      | .error _ => s
      | .ok () => { s with acts := a :: s.acts }
  | .update a stamp => ⟨(a.update stamp s.ledger).2, s.acts.erase a⟩
  | .deliverBatch max batchId locked =>
      { s with ledger := ContextLayer.deliverBatch max batchId locked s.ledger }
  | .resolve issueId mergedAt prUrl =>
      { s with ledger := resolveIssue issueId mergedAt prUrl s.ledger }

end

end LedgerState

/-- The calls, step by step and in any order. -/
def ledgerMachine (routing : List (Text × Text)) : Machine LedgerState LedgerStep where
  start := .start
  May := LedgerState.Ready
  next := LedgerState.apply routing

instance (routing : List (Text × Text)) : DecidableRel (ledgerMachine routing).May :=
  inferInstanceAs (DecidableRel LedgerState.Ready)

/-! ### What the lifecycle promises -/

structure LedgerIssue.Lawful (r : LedgerIssue) : Prop where
  request : r.kind = enrichmentRequest → r.status ≠ .triaged ∧ r.status ≠ .dismissed
  other : r.kind ≠ enrichmentRequest →
    r.status ≠ .approved ∧ r.status ≠ .rejected ∧ r.status ≠ .batched
  batched : r.status = .batched → r.batchId ≠ none
  approved : r.status = .approved → r.batchId = none

/-- Every approved request is one that a later `deliverBatch` can take. -/
def LedgerState.DeliversApproved (routing : List (Text × Text)) (s : LedgerState) : Prop :=
  ∀ r ∈ s.ledger.issues.rows, r.status = .approved → ∃ max batchId locked,
    ∃ r' ∈ (s.apply routing (.deliverBatch max batchId locked)).ledger.issues.rows,
      r'.issueId = r.issueId ∧ r'.status = .batched

/-- An approval of an open request finds no batch on it. -/
def LedgerState.ApprovesUnbatched (s : LedgerState) : LedgerStep → Prop
  | .update (.verdict issueId .approve _) _ => ∀ r ∈ s.ledger.issues.rows,
      r.issueId = issueId → r.status = .opened → r.batchId = none
  | _ => True

instance : DecidableRel LedgerState.ApprovesUnbatched := fun s e => by
  unfold LedgerState.ApprovesUnbatched
  split <;> infer_instance

end ContextLayer
