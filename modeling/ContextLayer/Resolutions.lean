import ContextLayer.Ledger
import ContextLayer.Trailers

/-!
# Loop closure

A sweep reads the cursor, asks the provider for the pull requests merged since, resolves the issues
their bodies name, one `UPDATE` each, and stores the latest merge it was told of. An `UPDATE` that
is given no UUID throws, and the sweep ends there. Sweeps run beside each other, beside the merges
and beside the other calls of the ledger.

Times of merges are the provider's, in seconds; the code compares their texts, which order as they
do.
-/

namespace ContextLayer

open Text Transaction

/-- A closed pull request, `mergedAt` being `none` when it was not merged. -/
structure Pull where
  number : Nat
  url : Text
  body : Text
  mergedAt : Option Nat
  /-- The issues its body names that have not been resolved at any time since it merged. -/
  owes : List Text

inductive PrProvider where
  | github
  | localFile

structure MergedPr where
  number : Nat
  url : Text
  body : Text
  mergedAt : Nat

/-- `mergedAt > since`, for a `since` that may be missing. -/
def isAfter (since : Option Nat) (mergedAt : Nat) : Bool :=
  match since with
  | none => true
  | some since => decide (since < mergedAt)

def Pull.mergedSince (since : Option Nat) (p : Pull) : Option MergedPr := do
  let mergedAt ← p.mergedAt
  if isAfter since mergedAt then some ⟨p.number, p.url, p.body, mergedAt⟩ else none

/-- The pull requests are kept with the last updated first, as GitHub's page of fifty has them; the
local provider reads its file from the beginning. -/
def listMergedPrs (provider : PrProvider) (since : Option Nat) (pulls : List Pull) :
    List MergedPr :=
  match provider with
  | .github => (pulls.take 50).filterMap (Pull.mergedSince since)
  | .localFile =>
      (pulls.insertionSort fun p q => p.number ≤ q.number).filterMap (Pull.mergedSince since)

/-- The page reaches the pull request. -/
def onPage (provider : PrProvider) (pulls : List Pull) (number : Nat) : Bool :=
  match provider with
  | .github => (pulls.take 50).any fun p => decide (p.number = number)
  | .localFile => true

/-- The arguments of one `UPDATE`. -/
structure TrailerUpdate where
  issueId : Text
  mergedAt : Nat
  prUrl : Text

def MergedPr.updates (pr : MergedPr) : List TrailerUpdate :=
  (parseResolveTrailers pr.body).map fun issueId => ⟨issueId, pr.mergedAt, pr.url⟩

/-- `if (pr.mergedAt > maxMergedAt) maxMergedAt = pr.mergedAt`, `none` being the empty text. -/
def laterOf (latest : Option Nat) (pr : MergedPr) : Option Nat :=
  if isAfter latest pr.mergedAt then some pr.mergedAt else latest

structure Sweep where
  session : Nat
  cursor : Option Nat
  maxMergedAt : Option Nat
  /-- `none` before the provider has answered. -/
  todo : Option (List TrailerUpdate)
  /-- The pull requests that had merged when it began. -/
  seen : List Nat

def sweepSchema : Schema Sweep Nat where
  key := Sweep.session
  Holds _ := True
  decideHolds _ := isTrue trivial
  holds_sublist _ _ := trivial

structure LoopState where
  ledger : LedgerState
  pulls : List Pull
  /-- `resolve_cursor`. -/
  cursor : Option Nat
  sweeps : Table sweepSchema
  /-- The pull requests that had merged before some successful sweep began. -/
  swept : List Nat
  /-- Some sweep ended with an exception of the database. -/
  aborted : Bool

inductive LoopEvent where
  | ledger (e : LedgerStep)
  | merge (number : Nat) (url body : Text) (mergedAt : Nat)
  | closeUnmerged (number : Nat) (url body : Text)
  /-- A comment, a label: the pull request is the last updated one. -/
  | touch (number : Nat)
  | begin (session : Nat)
  /-- The provider answers. -/
  | list (session : Nat)
  /-- The provider throws. -/
  | fail (session : Nat)
  | update (session : Nat)
  | finish (session : Nat)

/-- The issues that a body names. -/
def namedIn (body : Text) : List Text := (parseResolveTrailers body).filterMap uuidIn

def Ledger.has (l : Ledger) (issueId : Text) : Bool :=
  l.issues.rows.any fun r => decide (r.issueId = issueId)

def Ledger.isResolved (l : Ledger) (issueId : Text) : Bool :=
  l.issues.rows.any fun r => decide (r.issueId = issueId) && decide (r.status = .resolved)

def Pull.settle (l : Ledger) (p : Pull) : Pull :=
  { p with owes := p.owes.filter fun issueId => !l.isResolved issueId }

namespace LoopState

def start : LoopState := ⟨.start, [], none, ⟨[], List.nodup_nil, trivial⟩, [], false⟩

/-- The issues there are that the body names, and that are not resolved. -/
def owedBy (w : LoopState) (body : Text) : List Text :=
  (namedIn body).filter fun issueId =>
    w.ledger.ledger.has issueId && !w.ledger.ledger.isResolved issueId

def sweep? (w : LoopState) (session : Nat) : Option Sweep :=
  w.sweeps.rows.find? fun s => decide (s.session = session)

def setSweep (f : Sweep → Option Nat × Option (List TrailerUpdate)) : Assignment sweepSchema where
  apply s := { s with maxMergedAt := (f s).1, todo := (f s).2 }
  key_apply _ := rfl

/-- The state of the ledger is another one, and some issues may be resolved in it. -/
def withLedger (w : LoopState) (ledger : LedgerState) : LoopState :=
  { w with ledger, pulls := w.pulls.map (Pull.settle ledger.ledger) }

section

variable (provider : PrProvider) (routing : List (Text × Text))

/-- `none` when the event does not come here. -/
def step? (w : LoopState) : LoopEvent → Option LoopState
  | .ledger e => if w.ledger.Ready e then some (w.withLedger (w.ledger.apply routing e)) else none
  | .merge number url body mergedAt =>
      if number ∈ w.pulls.map Pull.number then none
      else some { w with
        pulls := ⟨number, url, body, some mergedAt, w.owedBy body⟩ :: w.pulls }
  | .closeUnmerged number url body =>
      if number ∈ w.pulls.map Pull.number then none
      else some { w with pulls := ⟨number, url, body, none, []⟩ :: w.pulls }
  | .touch number =>
      some { w with
        pulls := (w.pulls.filter fun p => decide (p.number = number)) ++
          w.pulls.filter fun p => decide (p.number ≠ number) }
  | .begin session => do
      let sweeps ← w.sweeps.insert
        ⟨session, w.cursor, w.cursor, none, w.pulls.map Pull.number⟩
      pure { w with sweeps }
  | .list session =>
      match w.sweep? session with
      | some ⟨_, cursor, _, none, _⟩ => do
          let merged := listMergedPrs provider cursor w.pulls
          let sweeps ← w.sweeps.update session (setSweep fun _ =>
            (merged.foldl laterOf cursor, some (merged.flatMap MergedPr.updates)))
          pure { w with sweeps }
      | _ => none
  | .fail session =>
      match w.sweep? session with
      | some ⟨_, _, _, none, _⟩ => some { w with sweeps := w.sweeps.delete session }
      | _ => none
  | .update session =>
      match w.sweep? session with
      | some ⟨_, _, latest, some (u :: rest), _⟩ =>
          match uuidIn u.issueId with
          | none => some { w with sweeps := w.sweeps.delete session, aborted := true }
          | some issueId => do
              let sweeps ← w.sweeps.update session (setSweep fun _ => (latest, some rest))
              pure { w.withLedger (w.ledger.apply routing
                (.resolve issueId u.mergedAt u.prUrl)) with sweeps }
      | _ => none
  | .finish session =>
      match w.sweep? session with
      | some ⟨_, cursor, latest, some [], seen⟩ => some { w with
          cursor := if latest.isSome && decide (latest ≠ cursor) then latest else w.cursor
          sweeps := w.sweeps.delete session
          swept := seen ++ w.swept }
      | _ => none

end

end LoopState

def loopMachine (provider : PrProvider) (routing : List (Text × Text)) :
    Machine LoopState LoopEvent where
  start := .start
  May w e := (w.step? provider routing e).isSome = true
  next w e := (w.step? provider routing e).getD w

instance (provider : PrProvider) (routing : List (Text × Text)) :
    DecidableRel (loopMachine provider routing).May := fun w e =>
  inferInstanceAs (Decidable ((w.step? provider routing e).isSome = true))

/-- **The loop is closed**: what a pull request names has been resolved once a sweep that began
after its merge has succeeded, and no text in a body has kept a sweep from its work. -/
structure LoopState.Closed (w : LoopState) : Prop where
  resolved : ∀ p ∈ w.pulls, p.number ∈ w.swept → p.owes = []
  applied : w.aborted = false

/-- What is captured in the body of a pull request is a UUID each time. One that still has an issue
to resolve merges in a second that the cursor and the sweeps under way have not come to, and is on
the provider's page whenever a sweep is answered. -/
def LoopState.Orderly (provider : PrProvider) (w : LoopState) : LoopEvent → Prop
  | .merge _ _ body mergedAt =>
      (∀ issueId ∈ parseResolveTrailers body, (uuidIn issueId).isSome = true) ∧
        (w.owedBy body ≠ [] → isAfter w.cursor mergedAt = true ∧
          ∀ s ∈ w.sweeps.rows, isAfter s.maxMergedAt mergedAt = true)
  | .list _ => ∀ p ∈ w.pulls, p.owes ≠ [] → onPage provider w.pulls p.number = true
  | _ => True

instance (provider : PrProvider) : DecidableRel (LoopState.Orderly provider) := fun w e => by
  unfold LoopState.Orderly
  split <;> infer_instance

end ContextLayer
