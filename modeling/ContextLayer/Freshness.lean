import Mathlib.Data.Rat.Floor
import ContextLayer.Changelog
import ContextLayer.Picture
import ContextLayer.Platform

/-!
# Freshness

What is due, what is stale and what is served are all read from the accepted snapshots, each by a query
of its own. The scheduler asks for the newest capture of a system, `computeFreshness` for its latest
acceptance, and the workspace behind the KB tools is rebuilt when a hash over the latest acceptances
has changed. Warnings are rows that outlive the tick that raised them.
-/

namespace ContextLayer

open Text

namespace Freshness

/-- An entry of `sync-policy.yaml`. Durations are in seconds. -/
structure SystemPolicy where
  system : Text
  freshnessThresholdS : ℚ
  scheduleIntervalS : Option ℚ
  webhook : Bool

structure SyncPolicy where
  systems : List SystemPolicy
  keyed : (systems.map SystemPolicy.system).Nodup

/-- `[...policy.systems.entries()].sort()`, which compares entries as strings. -/
def SyncPolicy.entries (policy : SyncPolicy) : List SystemPolicy :=
  policy.systems.insertionSort fun p q =>
    p.system ++ js ",[object Object]" ≤ q.system ++ js ",[object Object]"

inductive TriggerMode where
  | schedule
  | webhook
  | manual

def SystemPolicy.mode (sp : SystemPolicy) : TriggerMode :=
  if sp.scheduleIntervalS.isSome then .schedule else if sp.webhook then .webhook else .manual

/-- `Math.round`. -/
def jsRound (x : ℚ) : Int := ⌊x + 1 / 2⌋

/-! ### `freshness.ts` -/

structure FreshnessReport where
  system : Text
  ageS : Option ℚ
  thresholdS : ℚ
  warning : Bool
  mode : TriggerMode

/-- A row of `freshness_warnings`. -/
structure WarningRow where
  system : Text
  ageS : Int
  thresholdS : ℚ

inductive HealthKind where
  | freshnessWarning
  | freshnessCleared
  | syncSystemUnregistered

section

/- The instant, in microseconds, that the database reads from a text. -/
variable (timestamptz : Text → Int)

/-- `captured_at` as a `Date`, in whole milliseconds. -/
def capturedMs (a : AcceptedSnapshot) : Int := timestamptz a.capturedAt / 1000

/-- `Math.max(0, …)` of a clock in milliseconds. -/
def ageAt (clock capturedMs : Int) : ℚ := max 0 (((clock - capturedMs : Int) : ℚ) / 1000)

def computeFreshness (policy : SyncPolicy) (snapshots : List AcceptedSnapshot) (clock : Int) :
    List FreshnessReport :=
  policy.entries.map fun sp =>
    let ageS := (latestSnapshot sp.system snapshots).map fun a => ageAt clock (capturedMs timestamptz a)
    { system := sp.system
      ageS
      thresholdS := sp.freshnessThresholdS
      warning := ageS.all fun age => decide (sp.freshnessThresholdS < age)
      mode := sp.mode }

/-- What the reconciliation does for one report. -/
def applyReport (active : List Text) (state : List WarningRow × List (HealthKind × Text))
    (report : FreshnessReport) : List WarningRow × List (HealthKind × Text) :=
  let row : WarningRow := ⟨report.system, jsRound (report.ageS.getD (-1)), report.thresholdS⟩
  let (rows, health) := state
  if report.warning ∧ report.system ∉ active then
    (rows ++ [row], health ++ [(.freshnessWarning, report.system)])
  else if ¬ report.warning ∧ report.system ∈ active then
    (rows.filter fun r => r.system ≠ report.system, health ++ [(.freshnessCleared, report.system)])
  else if report.warning then (rows.map fun r => if r.system = report.system then row else r, health)
  else (rows, health)

/-- `applyFreshness`, which reads the warnings once. -/
def applyFreshness (rows : List WarningRow) (health : List (HealthKind × Text))
    (reports : List FreshnessReport) : List WarningRow × List (HealthKind × Text) :=
  reports.foldl (applyReport (rows.map WarningRow.system)) (rows, health)

/-! ### `scheduler.ts` -/

/-- Seconds between two instants. -/
def secondsSince (now instant : Int) : ℚ := ((now - instant : Int) : ℚ) / 1000000

/-- `max(captured_at)`. -/
def newestCapture (system : Text) (snapshots : List AcceptedSnapshot) : Option Int :=
  ((snapshots.filter fun a => a.system = system).map fun a => timestamptz a.capturedAt).max?

/-- Whether the loop goes past the age of the system. -/
def isDue (now : Int) (snapshots : List AcceptedSnapshot) (sp : SystemPolicy) : Bool :=
  match sp.scheduleIntervalS with
  | none => false
  | some intervalS =>
      match newestCapture timestamptz sp.system snapshots with
      | none => true
      | some captured => !decide (secondsSince now captured ≤ intervalS)

end

/-! ### `kbread.ts` -/

/-- An object of a snapshot as the workspace holds it. -/
structure ObjectView where
  schema : Text
  name : Text
  kind : Text
  schemaHash : Text
  columns : Json
  keys : Json
  raw : Json

structure SystemState where
  systemClass : Option Json
  snapshotId : Text
  canonicalBodySha256 : Text
  capturedAt : Int
  acceptedAt : Nat
  /-- By FQN. -/
  objects : List (Text × ObjectView)

structure Workspace where
  key : Text
  systems : List (Text × SystemState)

section

variable (P : Platform) (timestamptz : Text → Int)

/-- `String(value ?? "")`. -/
def stringOrEmpty : Option Json → Text
  | none | some .null => []
  | some v => P.string (some v)

def objectView (system : Text) (raw : Json) : Text × ObjectView :=
  let schema := stringOrEmpty P (raw.field "schema")
  let name := stringOrEmpty P (raw.field "name")
  (system ++ js "." ++ schema ++ js "." ++ name,
    { schema
      name
      kind := stringOrEmpty P (raw.field "kind")
      schemaHash := stringOrEmpty P (raw.field "schema_hash")
      columns :=
        match raw.field "columns" with
        | some (.arr columns) => .arr columns
        | _ => .arr []
      keys :=
        match raw.field "keys" with
        | none | some .null => .obj []
        | some keys => keys
      raw })

/-- One turn of the loop over `metas`; `none` is an exception. -/
def systemState (a : AcceptedSnapshot) : Option SystemState := do
  let doc ← P.parse (ofUtf8 a.body)
  match doc.field "objects" with
  | some (.arr raws) =>
      pure {
        systemClass := doc.field "system_class"
        snapshotId := a.snapshotId
        canonicalBodySha256 := a.canonicalBodySha256
        capturedAt := capturedMs timestamptz a
        acceptedAt := a.acceptedAt
        objects := Dict.ofList (raws.map (objectView P a.system)) }
  | _ => none

/-- `SELECT DISTINCT ON (system) … ORDER BY system, accepted_at DESC, snapshot_id DESC`. -/
def latestSnapshots (snapshots : List AcceptedSnapshot) : List AcceptedSnapshot :=
  ((snapshots.map AcceptedSnapshot.system).dedup.insertionSort fun s t => s ≤ t).filterMap fun system =>
    latestSnapshot system snapshots

def workspaceKey (headSha : Text) (metas : List AcceptedSnapshot) : Text :=
  (P.sha256Hex (headSha ++ js "|" ++
    joinComma (metas.map fun m => m.system ++ js ":" ++ m.canonicalBodySha256))).take 16

def build (key : Text) (metas : List AcceptedSnapshot) : Option Workspace := do
  let systems ← metas.mapM fun m => (systemState P timestamptz m).map fun state => (m.system, state)
  pure ⟨key, Dict.ofList systems⟩

/-- `rebuildIfChanged`; `none` is an exception, after which the old workspace stays. -/
def rebuildIfChanged (headSha : Text) (snapshots : List AcceptedSnapshot) (served : Option Workspace) :
    Option Workspace :=
  let metas := latestSnapshots snapshots
  let key := workspaceKey P headSha metas
  match served with
  | some ws => if ws.key = key then some ws else build P timestamptz key metas
  | none => build P timestamptz key metas

end

/-! ### `kbhealth.ts` -/

structure SourceRow where
  system : Text
  inPolicy : Bool
  lastSnapshotAt : Option Int
  acceptedAt : Option Nat
  ageS : Option Int
  thresholdS : Option ℚ
  triggerMode : Option TriggerMode
  scheduleIntervalS : Option ℚ
  stale : Bool

/-- The row of one system. -/
def sourceRow (ws : Workspace) (policy : Option SyncPolicy) (clock : Int) (system : Text) : SourceRow :=
  let state := Dict.get? ws.systems system
  let sp := policy.bind fun policy => policy.systems.find? fun sp => sp.system = system
  let ageS := state.map fun state => max 0 (jsRound (((clock - state.capturedAt : Int) : ℚ) / 1000))
  { system := neutralize system
    inPolicy := sp.isSome
    lastSnapshotAt := state.map SystemState.capturedAt
    acceptedAt := state.map SystemState.acceptedAt
    ageS
    thresholdS := sp.map SystemPolicy.freshnessThresholdS
    triggerMode := sp.map SystemPolicy.mode
    scheduleIntervalS := sp.bind SystemPolicy.scheduleIntervalS
    stale := sp.any fun sp => ageS.all fun age => decide (sp.freshnessThresholdS < (age : ℚ)) }

/-- The systems of either list, sorted. -/
def sourceSystems (ws : Workspace) (policy : Option SyncPolicy) : List Text :=
  (ws.systems.map Prod.fst ++ (policy.map fun p => p.systems.map SystemPolicy.system).getD []).dedup.insertionSort
    fun s t => s ≤ t

def freshnessRows (ws : Workspace) (policy : Option SyncPolicy) (clock : Int) : List SourceRow :=
  (sourceSystems ws policy).map (sourceRow ws policy clock)

/-! ### The whole -/

structure World where
  /-- `accepted_snapshots`. -/
  snapshots : List AcceptedSnapshot
  /-- Every snapshot accepted so far, pruned ones included. -/
  history : List AcceptedSnapshot
  /-- `sync_systems`. -/
  registered : List Text
  /-- The policy at the KB's HEAD. -/
  policy : SyncPolicy
  headSha : Text
  warnings : List WarningRow
  health : List (HealthKind × Text)
  /-- The workspace behind the KB tools. -/
  served : Option Workspace

inductive Event where
  | accept (a : AcceptedSnapshot)
  | register (systems : List Text)
  /-- HEAD moves, and what it holds as the policy may be another one. -/
  | moveHead (headSha : Text) (policy : SyncPolicy)
  /-- `now` is the database's clock in microseconds, `clock` the core's in milliseconds. -/
  | tick (now clock : Int)
  /-- A tick that fails after some of its reports. -/
  | failedTick (clock : Int) (done : Nat)
  | recheck

namespace World

def start (policy : SyncPolicy) (headSha : Text) : World := ⟨[], [], [], policy, headSha, [], [], none⟩

section

variable (P : Platform) (timestamptz : Text → Int) (retention : Nat)

/-- The systems whose age the tick's loop goes past. -/
def due (w : World) (now : Int) : List SystemPolicy :=
  w.policy.entries.filter (isDue timestamptz now w.snapshots)

/-- What `schedulerTick` returns as `triggered`. -/
def triggered (w : World) (now : Int) : List Text :=
  ((w.due timestamptz now).map SystemPolicy.system).filter fun system => system ∈ w.registered

/-- A tick without its enqueues. -/
def schedulerTick (w : World) (now clock : Int) : World :=
  let unregistered := ((w.due timestamptz now).map SystemPolicy.system).filter fun system =>
    system ∉ w.registered
  let (warnings, health) := applyFreshness w.warnings
    (w.health ++ unregistered.map fun system => (.syncSystemUnregistered, system))
    (computeFreshness timestamptz w.policy w.snapshots clock)
  { w with warnings, health }

def apply (w : World) : Event → World
  | .accept a =>
      { w with
        snapshots := pruneSnapshots a.system retention (w.snapshots ++ [a])
        history := a :: w.history }
  | .register systems => { w with registered := systems }
  | .moveHead headSha policy => { w with headSha, policy }
  | .tick now clock => w.schedulerTick timestamptz now clock
  | .failedTick clock done =>
      let (warnings, health) := applyFreshness w.warnings w.health
        ((computeFreshness timestamptz w.policy w.snapshots clock).take done)
      { w with warnings, health }
  | .recheck =>
      { w with served := (rebuildIfChanged P timestamptz w.headSha w.snapshots w.served).or w.served }

def run (w : World) (events : List Event) : World := events.foldl (apply P timestamptz retention) w

/-- A snapshot id is drawn once, and what the delivery gate lets in can be read. -/
def May (w : World) : Event → Prop
  | .accept a =>
      a.snapshotId ∉ w.history.map AcceptedSnapshot.snapshotId ∧ (systemState P timestamptz a).isSome
  | _ => True

inductive Reachable (w₀ : World) : World → Prop where
  | start : Reachable w₀ w₀
  | event {w : World} (e : Event) : Reachable w₀ w → w.May P timestamptz e →
      Reachable w₀ (w.apply P timestamptz retention e)

end

/-! ### What a tick promises -/

section

variable (timestamptz : Text → Int) (w : World) (now clock : Int)

/-- The latest acceptance of the system is older than its interval, or there is none. -/
def Overdue (sp : SystemPolicy) : Prop :=
  ∃ intervalS ∈ sp.scheduleIntervalS, ∀ a ∈ latestSnapshot sp.system w.snapshots,
    intervalS < secondsSince now (timestamptz a.capturedAt)

/-- **A tick acts on the latest acceptance.** -/
structure ActsOnLatest : Prop where
  triggered : ∀ system, system ∈ w.triggered timestamptz now ↔
    system ∈ w.registered ∧ ∃ sp ∈ w.policy.systems, sp.system = system ∧ w.Overdue timestamptz now sp
  warnings : ∀ system, system ∈ (w.schedulerTick timestamptz now clock).warnings.map WarningRow.system ↔
    ∃ report ∈ computeFreshness timestamptz w.policy w.snapshots clock,
      report.system = system ∧ report.warning = true

/-- No older acceptance of a registered system that is overdue was captured within its interval, and every
warning is of a system of the policy. -/
structure InOrder : Prop where
  captures : ∀ sp ∈ w.policy.systems, sp.system ∈ w.registered → w.Overdue timestamptz now sp →
    ∀ intervalS ∈ sp.scheduleIntervalS, ∀ a ∈ w.snapshots, a.system = sp.system →
      intervalS < secondsSince now (timestamptz a.capturedAt)
  warnings : ∀ row ∈ w.warnings, ∃ sp ∈ w.policy.systems, sp.system = row.system

end

/-! ### What a re-check promises -/

section

variable (P : Platform) (timestamptz : Text → Int) (snapshots : List AcceptedSnapshot) (ws : Workspace)

/-- Every system is served as its latest accepted snapshot has it. -/
def ServesLatest : Prop :=
  ∀ system, Dict.get? ws.systems system = (latestSnapshot system snapshots).bind (systemState P timestamptz)

/-- The two verdicts on every system of a policy are the same, ages rounded to seconds. -/
def OneDefinition : Prop :=
  ∀ (policy : SyncPolicy) (clock : Int), ∀ report ∈ computeFreshness timestamptz policy snapshots clock,
    (sourceRow ws (some policy) clock report.system).stale =
      (report.ageS.map jsRound).all fun age => decide (report.thresholdS < (age : ℚ))

/-- **After a re-check** of the world `w`. -/
def ServedIsLatest (w : World) : Prop :=
  ∀ ws, rebuildIfChanged P timestamptz w.headSha w.snapshots w.served = some ws →
    ServesLatest P timestamptz w.snapshots ws ∧ OneDefinition timestamptz w.snapshots ws

/-- The key has changed, or no system has been accepted again since the workspace was built. -/
def NothingReaccepted (w : World) : Prop :=
  ∀ ws ∈ w.served, ws.key = workspaceKey P w.headSha (latestSnapshots w.snapshots) →
    ∀ system, (Dict.get? ws.systems system).map SystemState.snapshotId =
      (latestSnapshot system w.snapshots).map AcceptedSnapshot.snapshotId

end

end World

end Freshness

end ContextLayer
