import ContextLayer.Ledger
import Mathlib.Data.List.Infix

/-!
# Window rules

A sweep counts the audit records of the last hours by what they are about, and records an event for
what comes up often enough. What has been answered before is told by the times of events alone.
Records become visible when their transactions commit, in any order; other calls record events, and
other sweeps run, in between.
-/

namespace ContextLayer.Windows

open Text

/-! ### The audit table -/

/-- The columns of `audit_records` that the rules read, with the fields of `result_meta`. -/
structure AuditRecord where
  auditId : Text
  /-- In microseconds. -/
  ts : Nat
  tool : Text
  verdict : Option Text
  citedObjects : List Text
  system : Option Text
  guardrailCode : Option Text
  deriving DecidableEq

/-- A key of the `GROUP BY` of one of the rules. -/
inductive Group where
  | object (fqn : Text)
  | guardrail (system : Option Text) (code : Text)
  deriving DecidableEq

inductive RuleName where
  | repeatedValidateFail
  | guardrailPattern
  deriving DecidableEq

def ruleNames : List RuleName := [.repeatedValidateFail, .guardrailPattern]

/-- The groups a record counts in, under any configuration. -/
def RuleName.groups : RuleName → AuditRecord → List Group
  | .repeatedValidateFail, r =>
      if r.tool = js "validate_sql" ∧ r.verdict = some (js "fail") then r.citedObjects.map .object
      else []
  | .guardrailPattern, r =>
      if r.tool = js "execute_sql" ∨ r.tool = js "publish_report" then
        r.guardrailCode.toList.map (.guardrail r.system)
      else []

/-! ### The rules -/

structure RuleConfig where
  threshold : Option Int
  windowH : Option Int
  codes : Option (List Text)
  deriving DecidableEq

structure DetectorRule where
  rule : RuleName
  enabled : Bool
  config : RuleConfig
  deriving DecidableEq

namespace DetectorRule

def threshold (d : DetectorRule) : Int := d.config.threshold.getD 3

def windowH (d : DetectorRule) : Int := d.config.windowH.getD 24

def codes (d : DetectorRule) : List Text :=
  d.config.codes.getD [js "timeout", js "row_cap", js "quota_exhausted"]

def takes (d : DetectorRule) : Group → Bool
  | .object _ => true
  | .guardrail _ code => decide (code ∈ d.codes)

def groups (d : DetectorRule) (r : AuditRecord) : List Group := (d.rule.groups r).filter d.takes

end DetectorRule

/-- The enabled rules, in the order a sweep goes through them. -/
def plan (rules : List DetectorRule) : List DetectorRule :=
  ruleNames.filterMap fun name =>
    (rules.find? fun d => decide (d.rule = name)).filter DetectorRule.enabled

/-! ### The query -/

/-- An hour, in microseconds. -/
def hour : Nat := 3600000000

/-- What a `Date` keeps of a timestamp. -/
def millis (ts : Nat) : Nat := ts / 1000

structure WindowRow where
  group : Group
  n : Nat
  latest : Nat
  deriving DecidableEq

namespace DetectorRule

/-- Where the window begins. -/
def horizon (d : DetectorRule) (now : Nat) : Int := now - d.windowH * hour

/-- The rows ahead of the grouping: what each is about, with its time. -/
def hits (d : DetectorRule) (now : Nat) (visible : List AuditRecord) : List (Group × Nat) :=
  (visible.filter fun r => decide (d.horizon now < r.ts)).flatMap fun r =>
    (d.groups r).map fun g => (g, r.ts)

def stamps (d : DetectorRule) (now : Nat) (visible : List AuditRecord) (g : Group) : List Nat :=
  ((d.hits now visible).filter fun h => h.1 = g).map Prod.snd

/-- `GROUP BY … HAVING count(*) >= threshold`, in some order. -/
def rows (d : DetectorRule) (now : Nat) (visible : List AuditRecord) : List WindowRow :=
  (((d.hits now visible).map Prod.fst).dedup.map fun g =>
      ⟨g, (d.stamps now visible g).length, (d.stamps now visible g).foldl max 0⟩).filter fun row =>
    decide (d.threshold ≤ row.n)

end DetectorRule

/-! ### The events -/

/-- `split_part(obj, '.', 1)`. -/
def systemOf (fqn : Text) : Text := fqn.takeWhile (· ≠ 0x2E)

def Group.input : Group → LedgerEventInput
  | .object fqn => ⟨js "doc_schema_mismatch", fqn, some (systemOf fqn), some fqn, none, none⟩
  | .guardrail system code =>
      ⟨js "guardrail_hit", system.getD (js "null") ++ js ":" ++ code, system, none, none, none⟩

def Group.fingerprint (sha256 : List UInt8 → Text) (g : Group) : Text :=
  fingerprintOf sha256 g.input.kind g.input.scope

/-- A row of `ledger_events`, with its `detector_class`. -/
structure ClassedEvent where
  detectorClass : Nat
  row : LedgerEvent

/-- `SELECT max(ts) … WHERE fingerprint = $1 AND detector_class = 1`. -/
def lastEvent (events : List ClassedEvent) (fingerprint : Text) : Option Nat :=
  ((events.filter fun e => decide (e.detectorClass = 1 ∧ e.row.fingerprint = fingerprint)).map
    fun e => e.row.ts).max?

/-- `last[0]?.ts && last[0].ts >= row.latest`. -/
def answered (sha256 : List UInt8 → Text) (events : List ClassedEvent) (row : WindowRow) : Bool :=
  (lastEvent events (row.group.fingerprint sha256)).any fun ts => decide (millis row.latest ≤ ts)

/-! ### Sweeps -/

/-- What a sweep did under one rule: what was visible to its query and to the one before, the rows of
its query, and what it has recorded. -/
structure Pass where
  rule : DetectorRule
  before : List AuditRecord
  now : Nat
  read : List AuditRecord
  rows : List WindowRow
  recorded : List Group

structure ActivePass where
  pass : Pass
  /-- The rows still to come. -/
  left : List WindowRow
  /-- The row of the `recordEvent` under way. -/
  filing : Option (WindowRow × Filing)

structure ActiveSweep where
  session : Nat
  todo : List DetectorRule
  active : Option ActivePass
  emitted : Nat

structure WindowWorld where
  /-- The clock of the database. -/
  now : Nat
  /-- Inserted and not committed. -/
  pending : List AuditRecord
  visible : List AuditRecord
  events : List ClassedEvent
  sweeps : List ActiveSweep
  returned : List Nat
  /-- The passes that have ended, the last one first. -/
  passes : List Pass

inductive WindowEvent where
  | insertRecord (r : AuditRecord)
  | commitRecord (auditId : Text)
  | loadRules (session : Nat) (rules : List DetectorRule)
  | read (session : Nat) (now : Nat) (rows : List WindowRow)
  /-- `clock` is `new Date()`, and `issueId` is `randomUUID()`. -/
  | check (session : Nat) (clock : Nat) (issueId : Text)
  | record (session : Nat) (issueId : Text)
  | endPass (session : Nat)
  | endSweep (session : Nat)
  /-- A query throws. -/
  | fail (session : Nat)
  /-- Another call's event. -/
  | file (e : ClassedEvent)
  /-- `sweepRetention`. -/
  | deleteBefore (ts : Nat)

namespace WindowWorld

def start : WindowWorld := ⟨0, [], [], [], [], [], []⟩

def sweep? (w : WindowWorld) (session : Nat) : Option ActiveSweep :=
  w.sweeps.find? fun x => decide (x.session = session)

def enter (w : WindowWorld) (x : ActiveSweep) : WindowWorld :=
  { w with sweeps := w.sweeps.map fun y => if y.session = x.session then x else y }

def leave (w : WindowWorld) (session : Nat) : WindowWorld :=
  { w with sweeps := w.sweeps.filter fun y => decide (y.session ≠ session) }

def lastPass (w : WindowWorld) (name : RuleName) : Option Pass :=
  w.passes.find? fun p => decide (p.rule.rule = name)

/-- What the sweep before has read. -/
def seen (w : WindowWorld) (name : RuleName) : List AuditRecord :=
  ((w.lastPass name).map Pass.read).getD []

section

variable (sha256 : List UInt8 → Text)

/-- `none` where there is nothing of the kind to do. -/
def step? (w : WindowWorld) : WindowEvent → Option WindowWorld
  | .insertRecord r =>
      if r.auditId ∈ (w.pending ++ w.visible).map AuditRecord.auditId ∨ r.ts < w.now then none
      else some { w with now := r.ts, pending := w.pending ++ [r] }
  | .commitRecord auditId =>
      (w.pending.find? fun r => decide (r.auditId = auditId)).map fun r =>
        { w with pending := w.pending.filter fun q => decide (q.auditId ≠ auditId)
                 visible := w.visible ++ [r] }
  | .loadRules session rules =>
      if (w.sweep? session).isSome then none
      else some { w with sweeps := w.sweeps ++ [⟨session, plan rules, none, 0⟩] }
  | .read session now rows =>
      match w.sweep? session with
      | some ⟨_, d :: rest, none, emitted⟩ =>
          if w.now ≤ now ∧ rows.Perm (d.rows now w.visible) then
            some (enter { w with now := now } ⟨session, rest,
              some ⟨⟨d, w.seen d.rule, now, w.visible, rows, []⟩, rows, none⟩, emitted⟩)
          else none
      | _ => none
  | .check session clock issueId =>
      match w.sweep? session with
      | some ⟨_, todo, some ⟨pass, row :: left, none⟩, emitted⟩ =>
          if answered sha256 w.events row then
            some (w.enter ⟨session, todo, some ⟨pass, left, none⟩, emitted⟩)
          else
            some (w.enter ⟨session, todo,
              some ⟨pass, left, some (row, row.group.input.filing sha256 issueId clock)⟩, emitted⟩)
      | _ => none
  | .record session issueId =>
      match w.sweep? session with
      | some ⟨_, todo, some ⟨pass, left, some (row, f)⟩, emitted⟩ =>
          some (enter { w with events := w.events ++ [⟨1, f.event issueId⟩] } ⟨session, todo,
            some ⟨{ pass with recorded := pass.recorded ++ [row.group] }, left, none⟩, emitted + 1⟩)
      | _ => none
  | .endPass session =>
      match w.sweep? session with
      | some ⟨_, todo, some ⟨pass, [], none⟩, emitted⟩ =>
          some (enter { w with passes := pass :: w.passes } ⟨session, todo, none, emitted⟩)
      | _ => none
  | .endSweep session =>
      match w.sweep? session with
      | some ⟨_, [], none, emitted⟩ => some { w.leave session with returned := w.returned ++ [emitted] }
      | _ => none
  | .fail session =>
      match w.sweep? session with
      | some ⟨_, _, active, _⟩ =>
          some { w.leave session with passes := (active.map ActivePass.pass).toList ++ w.passes }
      | none => none
  | .file e => some { w with events := w.events ++ [e] }
  | .deleteBefore ts => some { w with events := w.events.filter fun e => decide (ts ≤ e.row.ts) }

end

end WindowWorld

def windowMachine (sha256 : List UInt8 → Text) : Machine WindowWorld WindowEvent :=
  .ofStep .start (WindowWorld.step? sha256)

instance (sha256 : List UInt8 → Text) : DecidableRel (windowMachine sha256).May :=
  inferInstanceAs (DecidableRel (Machine.ofStep _ _).May)

/-! ### What the sweeps promise -/

section

variable (sha256 : List UInt8 → Text)

/-- A scope that is often enough and has a record that was not visible before gets an event, and no
other scope does. -/
structure Pass.Lawful (p : Pass) : Prop where
  complete : ∀ row ∈ p.rows, (∃ r ∈ p.read, r ∉ p.before ∧ row.group ∈ p.rule.groups r) →
    ∃ g ∈ p.recorded, g.fingerprint sha256 = row.group.fingerprint sha256
  sparing : ∀ g ∈ p.recorded, ∃ r ∈ p.read, r ∉ p.before ∧ g ∈ p.rule.groups r

/-- An event at the time hides no record: those of its scope that are visible are later, or a sweep has
answered them. -/
def WindowWorld.Spares (w : WindowWorld) (session : Option Nat) (fingerprint : Text) (ts : Nat) : Prop :=
  ∀ name ∈ ruleNames, ∀ r ∈ w.visible, ∀ g ∈ name.groups r, g.fingerprint sha256 = fingerprint →
    ts < millis r.ts ∨ r ∈ w.seen name ∨ ∃ x ∈ w.sweeps, ∃ a ∈ x.active, a.pass.rule.rule = name ∧
      r ∈ a.pass.read ∧ (session = some x.session ∨ g ∉ a.left.map WindowRow.group)

/-- Sweeps come one after the other, to their ends, under the same rules, and the times of events and of
records agree with the order in which they are seen. -/
def WindowWorld.Steady (w : WindowWorld) : WindowEvent → Prop
  | .commitRecord auditId => ∀ r ∈ w.pending, r.auditId = auditId → ∀ name ∈ ruleNames,
      ∀ g ∈ name.groups r, ∀ e ∈ w.events, e.detectorClass = 1 →
        e.row.fingerprint = g.fingerprint sha256 → e.row.ts < millis r.ts
  | .loadRules _ _ => w.sweeps.length = 0
  | .read session _ _ => ∀ x ∈ w.sweep? session, ∀ d ∈ x.todo.head?, ∀ p ∈ w.lastPass d.rule, p.rule = d
  | .record session _ => ∀ x ∈ w.sweep? session, ∀ a ∈ x.active, ∀ f ∈ a.filing,
      millis f.1.latest ≤ f.2.ts ∧ w.Spares sha256 (some session) f.2.fingerprint f.2.ts
  | .fail session => ∀ x ∈ w.sweep? session, ∀ a ∈ x.active, a.left.length = 0 ∧ a.filing.isNone = true
  | .file e => e.detectorClass = 1 → w.Spares sha256 none e.row.fingerprint e.row.ts
  | .deleteBefore ts => (∀ x ∈ w.sweeps, x.active.isNone = true) ∧
      ∀ name ∈ ruleNames, ∀ p ∈ w.lastPass name, (ts * 1000 : Int) ≤ p.rule.horizon w.now
  | _ => True

instance (w : WindowWorld) (session : Option Nat) (fingerprint : Text) (ts : Nat) :
    Decidable (w.Spares sha256 session fingerprint ts) := by
  unfold WindowWorld.Spares
  infer_instance

instance : DecidableRel (WindowWorld.Steady sha256) := fun w e => by
  cases e <;> (unfold WindowWorld.Steady; infer_instance)

end

end ContextLayer.Windows
