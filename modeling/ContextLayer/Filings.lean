import ContextLayer.Ledger

/-!
# `recordEvent`, statement by statement

The transactions that record events, interleaved with each other and with the other calls. The
upsert locks the issue, or the entries of the issue it inserts, to the end of the transaction: a
statement that would write what another transaction has written waits. What a transaction writes is
seen by others when it commits.
-/

namespace ContextLayer

open Text Transaction

/-- How far a transaction has come, with what it has written. -/
inductive FilingStage where
  /-- The time is chosen. -/
  | stamped
  | upserted (row : LedgerIssue)
  | inserted (row : LedgerIssue) (event : LedgerEvent)
  | counted (row : LedgerIssue) (event : LedgerEvent)

/-- The version of the issue that the transaction has written. -/
def FilingStage.row : FilingStage → Option LedgerIssue
  | .stamped => none
  | .upserted row | .inserted row _ | .counted row _ => some row

structure OpenFiling where
  session : Nat
  filing : Filing
  stage : FilingStage

/-- One of the two would wait for the other. -/
def OpenFiling.Clash (x y : OpenFiling) : Prop :=
  x.stage.row.isSome = true ∧ y.stage.row.isSome = true ∧
    (x.filing.fingerprint = y.filing.fingerprint ∨ x.filing.issueId = y.filing.issueId)

instance : DecidableRel OpenFiling.Clash := fun x y => by
  unfold OpenFiling.Clash
  infer_instance

/-- The open transactions: a statement that would break the constraint waits. -/
def filingSchema : Schema OpenFiling Nat where
  key := OpenFiling.session
  Holds rows := rows.Pairwise fun x y => ¬ x.Clash y
  decideHolds := inferInstance
  holds_sublist h := List.Pairwise.sublist h

structure FilingWorld where
  state : LedgerState
  pending : Table filingSchema
  /-- The filings committed so far, in the order of their commits. -/
  filed : List Filing

inductive FilingEvent where
  | opens (session : Nat) (f : Filing)
  | upsert (session : Nat)
  | insertEvent (session : Nat)
  | countSubjects (session : Nat)
  | commit (session : Nat)
  | rollback (session : Nat)
  | step (e : LedgerStep)

def setStage (stage : FilingStage) : Assignment filingSchema where
  apply x := { x with stage := stage }
  key_apply _ := rfl

namespace FilingWorld

def start : FilingWorld := ⟨.start, ⟨[], List.nodup_nil, List.Pairwise.nil⟩, []⟩

def open? (w : FilingWorld) (session : Nat) : Option OpenFiling :=
  w.pending.rows.find? fun x => decide (x.session = session)

def enter (w : FilingWorld) (session : Nat) (stage : FilingStage) : Option FilingWorld := do
  let pending ← w.pending.update session (setStage stage)
  pure { w with pending }

def locked (w : FilingWorld) (r : LedgerIssue) : Bool :=
  w.pending.rows.any fun x => x.stage.row.any fun row => decide (row.issueId = r.issueId)

section

variable (routing : List (Text × Text))

/-- A statement of another call, which writes no issue that an open transaction has written. -/
def MayStep (w : FilingWorld) (e : LedgerStep) : Prop :=
  w.state.Ready e ∧ e.records = false ∧ ∀ r ∈ w.state.ledger.issues.rows, w.locked r = true →
    r ∈ (w.state.apply routing e).ledger.issues.rows

instance (w : FilingWorld) (e : LedgerStep) : Decidable (w.MayStep routing e) := by
  unfold MayStep
  infer_instance

/-- `none` when the statement waits or there is none to execute. -/
def step? (w : FilingWorld) : FilingEvent → Option FilingWorld
  | .opens session f => do
      let pending ← w.pending.insert ⟨session, f, .stamped⟩
      pure { w with pending }
  | .upsert session =>
      match w.open? session with
      | some ⟨_, f, .stamped⟩ => do
          let row ← f.upsertIssue routing w.state.ledger.issues
          w.enter session (.upserted row)
      | _ => none
  | .insertEvent session =>
      match w.open? session with
      | some ⟨_, f, .upserted row⟩ => w.enter session (.inserted row (f.event row.issueId))
      | _ => none
  | .countSubjects session =>
      match w.open? session with
      | some ⟨_, _, .inserted row event⟩ =>
          w.enter session
            (.counted (refreshSubjects (w.state.ledger.events ++ [event]) row) event)
      | _ => none
  | .commit session =>
      match w.open? session with
      | some ⟨_, f, .counted row event⟩ => do
          let issues ← putIssue row w.state.ledger.issues
          pure {
            state := { w.state with ledger := ⟨issues, w.state.ledger.events ++ [event]⟩ }
            pending := w.pending.delete session
            filed := w.filed ++ [f] }
      | _ => none
  | .rollback session => some { w with pending := w.pending.delete session }
  | .step e =>
      if w.MayStep routing e then some { w with state := w.state.apply routing e } else none

end

end FilingWorld

def filingMachine (routing : List (Text × Text)) : Machine FilingWorld FilingEvent where
  start := .start
  May w e := (w.step? routing e).isSome = true
  next w e := (w.step? routing e).getD w

instance (routing : List (Text × Text)) : DecidableRel (filingMachine routing).May := fun w e =>
  inferInstanceAs (Decidable ((w.step? routing e).isSome = true))

/-- The filings under a fingerprint, in their order. -/
def under (fingerprint : Text) (filed : List Filing) : List Filing :=
  filed.filter fun f => decide (f.fingerprint = fingerprint)

/-- The counters are those of the events, whatever the order they were recorded in. -/
structure LedgerIssue.Counts (r : LedgerIssue) (filings : Multiset Filing) : Prop where
  occurrences : r.occurrences = filings.card
  distinctSubjects : r.distinctSubjects =
    (filings.filterMap fun f => f.input.subject).toFinset.card
  firstSeen : IsLeast {ts | ∃ f ∈ filings, f.ts = ts} r.firstSeen
  lastSeen : IsGreatest {ts | ∃ f ∈ filings, f.ts = ts} r.lastSeen

/-- The first to commit has the earliest time and the last one the latest. -/
def InOrder (filings : List Filing) : Prop :=
  (∀ first ∈ filings.head?, ∀ f ∈ filings, first.ts ≤ f.ts) ∧
    ∀ last ∈ filings.getLast?, ∀ f ∈ filings, f.ts ≤ last.ts

end ContextLayer
