import ContextLayer.Freshness
import ContextLayer.Proof.Picture
import ContextLayer.Proof.Platform

/-!
# When freshness is read from the latest acceptance

What a tick raises and clears is decided system by system, so a warning outlives its system exactly when
the policy drops it. A workspace that is not rebuilt still serves what it was built from: an acceptance
that leaves every key as it was is not seen.
-/

namespace ContextLayer

open Text

namespace Freshness

/-! ### Warnings -/

theorem mem_entries {policy : SyncPolicy} {sp : SystemPolicy} : sp ∈ policy.entries ↔ sp ∈ policy.systems :=
  List.mem_insertionSort _

theorem keyed_entries (policy : SyncPolicy) : (policy.entries.map SystemPolicy.system).Nodup :=
  ((List.perm_insertionSort _ _).map _).nodup_iff.mpr policy.keyed

section

variable {timestamptz : Text → Int} {policy : SyncPolicy} {snapshots : List AcceptedSnapshot} {clock : Int}

theorem map_system_computeFreshness : (computeFreshness timestamptz policy snapshots clock).map
    FreshnessReport.system = policy.entries.map SystemPolicy.system := by
  rw [computeFreshness, List.map_map]
  rfl

theorem keyed_computeFreshness :
    ((computeFreshness timestamptz policy snapshots clock).map FreshnessReport.system).Nodup := by
  rw [map_system_computeFreshness]
  exact keyed_entries policy

end

/-- What one report leaves of the warnings of a system. -/
theorem mem_applyReport {active : List Text} {state : List WarningRow × List (HealthKind × Text)}
    {report : FreshnessReport} (hactive : report.system ∈ active ↔ report.system ∈ state.1.map WarningRow.system)
    (system : Text) : system ∈ (applyReport active state report).1.map WarningRow.system ↔
      if system = report.system then report.warning = true else system ∈ state.1.map WarningRow.system := by
  obtain ⟨rows, health⟩ := state
  dsimp only at hactive
  have hupdate : (rows.map fun r => if r.system = report.system then
      (⟨report.system, jsRound (report.ageS.getD (-1)), report.thresholdS⟩ : WarningRow) else r).map
        WarningRow.system = rows.map WarningRow.system := by
    rw [List.map_map]
    refine List.map_congr_left fun r _ => ?_
    by_cases hr : r.system = report.system
    · simp [hr]
    · simp [hr]
  unfold applyReport
  dsimp only
  by_cases hwarning : report.warning = true
  · by_cases hmem : report.system ∈ active
    · rw [if_neg fun h => h.2 hmem, if_neg fun h => h.1 hwarning, if_pos hwarning]
      dsimp only
      rw [hupdate]
      by_cases hsystem : system = report.system
      · rw [if_pos hsystem, hsystem]
        exact iff_of_true (hactive.mp hmem) hwarning
      · rw [if_neg hsystem]
    · rw [if_pos ⟨hwarning, hmem⟩]
      by_cases hsystem : system = report.system
      · simp [hsystem, hwarning]
      · simp [hsystem]
  · by_cases hmem : report.system ∈ active
    · rw [if_neg fun h => hwarning h.1, if_pos ⟨hwarning, hmem⟩]
      by_cases hsystem : system = report.system
      · simp [hsystem, hwarning]
      · simp only [List.mem_map, List.mem_filter, decide_eq_true_eq, if_neg hsystem]
        refine exists_congr fun r => and_congr_left ?_
        rintro rfl
        exact and_iff_left hsystem
    · rw [if_neg fun h => hwarning h.1, if_neg fun h => hmem h.2, if_neg hwarning]
      by_cases hsystem : system = report.system
      · rw [if_pos hsystem, hsystem]
        exact iff_of_false (fun h => hmem (hactive.mpr h)) hwarning
      · rw [if_neg hsystem]

/-- **The warnings after a reconciliation**, system by system. -/
theorem mem_applyReports {active : List Text} {reports : List FreshnessReport}
    {state : List WarningRow × List (HealthKind × Text)}
    (hkeyed : (reports.map FreshnessReport.system).Nodup)
    (hactive : ∀ r ∈ reports, r.system ∈ active ↔ r.system ∈ state.1.map WarningRow.system) (system : Text) :
    system ∈ (reports.foldl (applyReport active) state).1.map WarningRow.system ↔
      (∃ r ∈ reports, r.system = system ∧ r.warning = true) ∨
        (system ∉ reports.map FreshnessReport.system ∧ system ∈ state.1.map WarningRow.system) := by
  induction reports generalizing state with
  | nil => simp
  | cons report rest ih =>
      rw [List.map_cons, List.nodup_cons] at hkeyed
      obtain ⟨hown, hrest⟩ := List.forall_mem_cons.mp hactive
      have hstep := mem_applyReport hown
      -- The other reports are of other systems, whose rows this one leaves alone.
      have hother : ∀ r ∈ rest, r.system ≠ report.system := fun r hr heq =>
        hkeyed.1 (heq ▸ List.mem_map_of_mem hr)
      rw [List.foldl_cons, ih hkeyed.2 fun r hr => ?_]
      · by_cases hsystem : system = report.system
        · subst hsystem
          rw [hstep, if_pos rfl, and_iff_right hkeyed.1]
          constructor
          · rintro (⟨r, hr, heq, -⟩ | hwarning)
            · exact absurd heq (hother r hr)
            · exact .inl ⟨report, List.mem_cons_self, rfl, hwarning⟩
          · rintro (⟨r, hr, heq, hwarning⟩ | ⟨hnot, -⟩)
            · obtain rfl | hr := List.mem_cons.mp hr
              · exact .inr hwarning
              · exact absurd heq (hother r hr)
            · exact absurd List.mem_cons_self hnot
        · rw [hstep, if_neg hsystem]
          simp only [List.mem_cons, List.map_cons, exists_eq_or_imp, ne_comm.mp hsystem, false_and, false_or, hsystem]
      · rw [hrest r hr, hstep, if_neg (hother r hr)]

theorem mem_applyFreshness {rows : List WarningRow} {health : List (HealthKind × Text)}
    {reports : List FreshnessReport} (hkeyed : (reports.map FreshnessReport.system).Nodup) (system : Text) :
    system ∈ (applyFreshness rows health reports).1.map WarningRow.system ↔
      (∃ r ∈ reports, r.system = system ∧ r.warning = true) ∨
        (system ∉ reports.map FreshnessReport.system ∧ system ∈ rows.map WarningRow.system) :=
  @mem_applyReports (rows.map WarningRow.system) reports (rows, health) hkeyed (fun _ _ => Iff.rfl) system

/-! ### What is due -/

section

variable {timestamptz : Text → Int} {now : Int} {snapshots : List AcceptedSnapshot}

/-- The loop goes past the age of a system none of whose captures is within the interval. -/
theorem isDue_iff {sp : SystemPolicy} : isDue timestamptz now snapshots sp = true ↔
    ∃ intervalS ∈ sp.scheduleIntervalS, ∀ a ∈ snapshots, a.system = sp.system →
      intervalS < secondsSince now (timestamptz a.capturedAt) := by
  have hmono : ∀ {s t : Int}, s ≤ t → secondsSince now t ≤ secondsSince now s := by
    intro s t hle
    have hcast : ((now - t : Int) : ℚ) ≤ ((now - s : Int) : ℚ) := by exact_mod_cast (by omega)
    exact div_le_div_of_nonneg_right hcast (by norm_num)
  cases hinterval : sp.scheduleIntervalS with
  | none => simp [isDue, hinterval]
  | some intervalS =>
      simp only [isDue, hinterval, Option.mem_def, Option.some.injEq, exists_eq_left']
      cases hnewest : newestCapture timestamptz sp.system snapshots with
      | none =>
          rw [newestCapture, List.max?_eq_none_iff, List.map_eq_nil_iff, List.filter_eq_nil_iff] at hnewest
          refine iff_of_true rfl fun a ha hsystem => absurd hsystem ?_
          simpa using hnewest a ha
      | some captured =>
          rw [newestCapture, List.max?_eq_some_iff] at hnewest
          obtain ⟨hmem, hmax⟩ := hnewest
          obtain ⟨newest, hnewest, rfl⟩ := List.mem_map.mp hmem
          obtain ⟨hsnapshot, hsystem⟩ := List.mem_filter.mp hnewest
          simp only [Bool.not_eq_true', decide_eq_false_iff_not, not_le]
          constructor
          · intro hlt a ha hown
            exact hlt.trans_le (hmono (hmax _ (List.mem_map_of_mem
              (List.mem_filter.mpr ⟨ha, decide_eq_true hown⟩))))
          · exact fun h => h newest hsnapshot (of_decide_eq_true hsystem)

end

namespace World

variable {timestamptz : Text → Int} {w : World} {now clock : Int}

theorem mem_triggered {system : Text} : system ∈ w.triggered timestamptz now ↔
    system ∈ w.registered ∧ ∃ sp ∈ w.policy.systems, sp.system = system ∧
      isDue timestamptz now w.snapshots sp = true := by
  simp only [triggered, due, List.mem_filter, List.mem_map, mem_entries, decide_eq_true_eq]
  constructor
  · rintro ⟨⟨sp, ⟨hsp, hdue⟩, rfl⟩, hregistered⟩
    exact ⟨hregistered, sp, hsp, rfl, hdue⟩
  · rintro ⟨hregistered, sp, hsp, rfl, hdue⟩
    exact ⟨⟨sp, ⟨hsp, hdue⟩, rfl⟩, hregistered⟩

/-- What is due by its newest capture is due by its latest acceptance. -/
theorem overdue_of_isDue {sp : SystemPolicy} (h : isDue timestamptz now w.snapshots sp = true) :
    w.Overdue timestamptz now sp := by
  obtain ⟨intervalS, hinterval, hall⟩ := isDue_iff.mp h
  refine ⟨intervalS, hinterval, fun a ha => ?_⟩
  have hmost := mostRecent_latestSnapshot ha
  exact hall a hmost.mem hmost.own

theorem eq_of_policy {policy : SyncPolicy} {sp sp' : SystemPolicy} (hsp : sp ∈ policy.systems)
    (hsp' : sp' ∈ policy.systems) (h : sp.system = sp'.system) : sp = sp' :=
  List.inj_on_of_nodup_map policy.keyed hsp hsp' h

/-- **A tick** acts on the latest acceptance exactly in order. -/
theorem actsOnLatest_iff : w.ActsOnLatest timestamptz now clock ↔ w.InOrder timestamptz now := by
  have hwarnings := fun system => @mem_applyFreshness w.warnings
    (w.health ++ (((w.due timestamptz now).map SystemPolicy.system).filter fun system =>
      system ∉ w.registered).map fun system => (.syncSystemUnregistered, system)) _
    (@keyed_computeFreshness timestamptz w.policy w.snapshots clock) system
  have hreports : ∀ system, system ∈ (computeFreshness timestamptz w.policy w.snapshots clock).map
      FreshnessReport.system ↔ ∃ sp ∈ w.policy.systems, sp.system = system := by
    intro system
    rw [map_system_computeFreshness, List.mem_map]
    simp only [mem_entries]
  constructor
  · rintro ⟨htriggered, hrows⟩
    constructor
    · intro sp hsp hregistered hoverdue intervalS hinterval a ha hsystem
      obtain ⟨-, sp', hsp', heq, hdue⟩ :=
        mem_triggered.mp ((htriggered sp.system).mpr ⟨hregistered, sp, hsp, rfl, hoverdue⟩)
      obtain rfl := eq_of_policy hsp' hsp heq
      obtain ⟨intervalS', hinterval', hall⟩ := isDue_iff.mp hdue
      obtain rfl : intervalS' = intervalS := Option.some.inj (hinterval'.symm.trans hinterval)
      exact hall a ha hsystem
    · intro row hrow
      by_contra hnot
      have hafter : row.system ∈ (w.schedulerTick timestamptz now clock).warnings.map WarningRow.system := by
        refine (hwarnings row.system).mpr (.inr ⟨fun hmem => hnot ((hreports _).mp hmem), ?_⟩)
        exact List.mem_map_of_mem hrow
      obtain ⟨report, hreport, heq, -⟩ := (hrows _).mp hafter
      exact hnot ((hreports _).mp (heq ▸ List.mem_map_of_mem hreport))
  · rintro ⟨hcaptures, hrows⟩
    constructor
    · intro system
      rw [mem_triggered]
      refine and_congr_right fun hregistered => exists_congr fun sp => and_congr_right fun hsp =>
        and_congr_right ?_
      rintro rfl
      refine ⟨overdue_of_isDue, fun hoverdue => isDue_iff.mpr ?_⟩
      obtain ⟨intervalS, hinterval, -⟩ := id hoverdue
      exact ⟨intervalS, hinterval, hcaptures sp hsp hregistered hoverdue intervalS hinterval⟩
    · intro system
      refine (hwarnings system).trans (or_iff_left ?_)
      rintro ⟨hnot, hmem⟩
      obtain ⟨row, hrow, rfl⟩ := List.mem_map.mp hmem
      exact hnot ((hreports _).mpr (hrows row hrow))

section

variable {P : Platform} {retention : Nat}

/-- **Every tick of a run** acts on the latest acceptance exactly when each of them comes in order. -/
theorem ticks_iff (P : Platform) (timestamptz : Text → Int) (retention : Nat) (policy : SyncPolicy)
    (headSha : Text) (events : List Event) :
    (∀ before now clock after, events = before ++ .tick now clock :: after →
      ((start policy headSha).run P timestamptz retention before).ActsOnLatest timestamptz now clock) ↔
    ∀ before now clock after, events = before ++ .tick now clock :: after →
      ((start policy headSha).run P timestamptz retention before).InOrder timestamptz now := by
  constructor
  · intro h before now clock after heq
    exact actsOnLatest_iff.mp (h before now clock after heq)
  · intro h before now clock after heq
    exact actsOnLatest_iff.mpr (h before now clock after heq)

/-! ### The workspace -/

theorem mem_latestSnapshots {snapshots : List AcceptedSnapshot} {a : AcceptedSnapshot} :
    a ∈ latestSnapshots snapshots ↔ latestSnapshot a.system snapshots = some a := by
  simp only [latestSnapshots, List.mem_filterMap, List.mem_insertionSort, List.mem_dedup, List.mem_map]
  constructor
  · rintro ⟨system, -, h⟩
    rw [(mostRecent_latestSnapshot h).own]
    exact h
  · exact fun h => ⟨a.system, ⟨a, (mostRecent_latestSnapshot h).mem, rfl⟩, h⟩

theorem keyed_latestSnapshots (snapshots : List AcceptedSnapshot) :
    ((latestSnapshots snapshots).map AcceptedSnapshot.system).Nodup := by
  have hsystems : ((snapshots.map AcceptedSnapshot.system).dedup.insertionSort fun s t => s ≤ t).Nodup :=
    (List.perm_insertionSort _ _).nodup_iff.mpr (List.nodup_dedup _)
  rw [latestSnapshots]
  generalize (snapshots.map AcceptedSnapshot.system).dedup.insertionSort (fun s t => s ≤ t) = systems at hsystems
  refine hsystems.sublist ?_
  clear hsystems
  induction systems with
  | nil => exact List.Sublist.slnil
  | cons system rest ih =>
      cases h : latestSnapshot system snapshots with
      | none =>
          rw [List.filterMap_cons, h]
          exact ih.cons _
      | some a =>
          rw [List.filterMap_cons, h, List.map_cons, (mostRecent_latestSnapshot h).own]
          exact ih.cons_cons _

/-- A loop without an exception, entry by entry. -/
theorem get?_mapM {f : AcceptedSnapshot → Option SystemState} {metas : List AcceptedSnapshot}
    {systems : List (Text × SystemState)}
    (h : metas.mapM (fun m => (f m).map fun state => (m.system, state)) = some systems) :
    systems.map Prod.fst = metas.map AcceptedSnapshot.system ∧ ∀ e, e ∈ systems ↔
      ∃ m ∈ metas, m.system = e.1 ∧ f m = some e.2 := by
  induction metas generalizing systems with
  | nil =>
      obtain rfl := Option.some.inj h
      simp
  | cons m rest ih =>
      rw [List.mapM_cons] at h
      obtain ⟨first, hfirst, h⟩ := Option.bind_eq_some_iff.mp h
      obtain ⟨others, hothers, h⟩ := Option.bind_eq_some_iff.mp h
      obtain rfl := Option.some.inj h
      obtain ⟨state, hstate, rfl⟩ := Option.map_eq_some_iff.mp hfirst
      obtain ⟨hkeys, hmem⟩ := ih hothers
      refine ⟨by rw [List.map_cons, List.map_cons, hkeys], fun e => ?_⟩
      rw [List.mem_cons, hmem, List.exists_mem_cons_iff, hstate, Option.some.injEq]
      refine or_congr_left ?_
      rw [Prod.ext_iff, eq_comm (a := e.1), eq_comm (a := e.2)]

theorem servesLatest_of_build {key : Text} {snapshots : List AcceptedSnapshot} {ws : Workspace}
    (h : build P timestamptz key (latestSnapshots snapshots) = some ws) :
    ServesLatest P timestamptz snapshots ws := by
  obtain ⟨systems, hsystems, h⟩ := Option.bind_eq_some_iff.mp h
  obtain rfl := Option.some.inj h
  obtain ⟨hkeys, hmem⟩ := get?_mapM hsystems
  have hnodup : (systems.map Prod.fst).Nodup := hkeys ▸ keyed_latestSnapshots snapshots
  intro system
  dsimp only
  rw [Dict.ofList_eq_self hnodup]
  have hentry : ∀ state, Dict.get? systems system = some state ↔
      ∃ a, latestSnapshot system snapshots = some a ∧ systemState P timestamptz a = some state := by
    intro state
    rw [← Dict.mem_iff_get? hnodup, hmem]
    constructor
    · rintro ⟨m, hm, rfl, hstate⟩
      exact ⟨m, mem_latestSnapshots.mp hm, hstate⟩
    · rintro ⟨a, ha, hstate⟩
      have hown := (mostRecent_latestSnapshot ha).own
      exact ⟨a, mem_latestSnapshots.mpr (hown ▸ ha), hown, hstate⟩
  ext state
  rw [hentry, Option.bind_eq_some_iff]

/-! ### One definition of stale -/

theorem max_jsRound (x : ℚ) : max 0 (jsRound x) = jsRound (max 0 x) := by
  have hmono : Monotone jsRound := fun x y hle => Int.floor_le_floor (by linarith)
  have hzero : jsRound 0 = 0 := by
    rw [jsRound, Int.floor_eq_iff]
    norm_num
  rw [hmono.map_max, hzero]

theorem oneDefinition_of_servesLatest {snapshots : List AcceptedSnapshot} {ws : Workspace}
    (hreadable : ∀ a ∈ snapshots, (systemState P timestamptz a).isSome)
    (h : ServesLatest P timestamptz snapshots ws) : OneDefinition timestamptz snapshots ws := by
  intro policy clock report hreport
  obtain ⟨sp, hsp, rfl⟩ := List.mem_map.mp hreport
  rw [mem_entries] at hsp
  have hfind : policy.systems.find? (fun sp' => sp'.system = sp.system) = some sp := by
    cases hfound : policy.systems.find? (fun sp' => sp'.system = sp.system) with
    | none =>
        have hnot := List.find?_eq_none.mp hfound sp hsp
        simp at hnot
    | some sp' =>
        have heq : sp'.system = sp.system := by simpa using List.find?_some hfound
        rw [eq_of_policy (List.mem_of_find?_eq_some hfound) hsp heq]
  have hage : (Dict.get? ws.systems sp.system).map (fun state =>
      max 0 (jsRound (((clock - state.capturedAt : Int) : ℚ) / 1000))) =
        ((latestSnapshot sp.system snapshots).map fun a => ageAt clock (capturedMs timestamptz a)).map jsRound := by
    rw [h sp.system]
    cases hlatest : latestSnapshot sp.system snapshots with
    | none => rfl
    | some a =>
        obtain ⟨state, hstate⟩ :=
          Option.isSome_iff_exists.mp (hreadable a (mostRecent_latestSnapshot hlatest).mem)
        have hcaptured : state.capturedAt = capturedMs timestamptz a := by
          obtain ⟨doc, -, hdoc⟩ := Option.bind_eq_some_iff.mp hstate
          split at hdoc
          · obtain rfl := Option.some.inj hdoc
            rfl
          · cases hdoc
        simp only [Option.bind_some, hstate, Option.map_some, hcaptured, max_jsRound, ageAt]
  simp only [sourceRow, Option.bind_some, hfind, Option.any_some]
  rw [hage]

/-! ### Runs -/

/-- What holds of every reachable world. -/
structure Sound (P : Platform) (timestamptz : Text → Int) (w : World) : Prop where
  kept : ∀ a ∈ w.snapshots, a ∈ w.history
  ids : (w.history.map AcceptedSnapshot.snapshotId).Nodup
  readable : ∀ a ∈ w.history, (systemState P timestamptz a).isSome
  /-- What is served of a system was accepted for it once. -/
  served : ∀ ws ∈ w.served, ∀ system state, Dict.get? ws.systems system = some state →
    ∃ a ∈ w.history, a.system = system ∧ systemState P timestamptz a = some state

theorem snapshotId_of_systemState {a : AcceptedSnapshot} {state : SystemState}
    (h : systemState P timestamptz a = some state) : state.snapshotId = a.snapshotId := by
  obtain ⟨doc, -, hdoc⟩ := Option.bind_eq_some_iff.mp h
  split at hdoc
  · obtain rfl := Option.some.inj hdoc
    rfl
  · cases hdoc

/-- A re-check leaves the workspace or builds one. -/
theorem rebuildIfChanged_cases {headSha : Text} {snapshots : List AcceptedSnapshot}
    {served : Option Workspace} {ws : Workspace}
    (h : rebuildIfChanged P timestamptz headSha snapshots served = some ws) :
    (served = some ws ∧ ws.key = workspaceKey P headSha (latestSnapshots snapshots)) ∨
      ((∀ old ∈ served, old.key ≠ workspaceKey P headSha (latestSnapshots snapshots)) ∧
        build P timestamptz (workspaceKey P headSha (latestSnapshots snapshots)) (latestSnapshots snapshots) =
          some ws) := by
  unfold rebuildIfChanged at h
  dsimp only at h
  split at h
  · rename_i old
    split at h
    · rename_i hkey
      obtain rfl := Option.some.inj h
      exact .inl ⟨rfl, hkey⟩
    · rename_i hkey
      refine .inr ⟨fun old' hold' => ?_, h⟩
      obtain rfl := Option.some.inj hold'
      exact hkey
  · exact .inr ⟨nofun, h⟩

theorem served_of_servesLatest {ws : Workspace} (hkept : ∀ a ∈ w.snapshots, a ∈ w.history)
    (h : ServesLatest P timestamptz w.snapshots ws) {system : Text} {state : SystemState}
    (hstate : Dict.get? ws.systems system = some state) :
    ∃ a ∈ w.history, a.system = system ∧ systemState P timestamptz a = some state := by
  rw [h system, Option.bind_eq_some_iff] at hstate
  obtain ⟨a, ha, hstate⟩ := hstate
  have hmost := mostRecent_latestSnapshot ha
  exact ⟨a, hkept a hmost.mem, hmost.own, hstate⟩

theorem Sound.step (hw : w.Sound P timestamptz) {e : Event} (hmay : w.May P timestamptz e) :
    (w.apply P timestamptz retention e).Sound P timestamptz := by
  cases e with
  | accept a =>
      obtain ⟨hfresh, hreadable⟩ := hmay
      refine ⟨fun b hb => ?_, List.nodup_cons.mpr ⟨hfresh, hw.ids⟩,
        List.forall_mem_cons.mpr ⟨hreadable, hw.readable⟩, fun ws hws system state hstate => ?_⟩
      · obtain hb | hb := List.mem_append.mp (List.mem_filter.mp hb).1
        · exact List.mem_cons_of_mem _ (hw.kept b hb)
        · exact List.mem_singleton.mp hb ▸ List.mem_cons_self
      · obtain ⟨b, hb, hown⟩ := hw.served ws hws system state hstate
        exact ⟨b, List.mem_cons_of_mem _ hb, hown⟩
  | register systems => exact ⟨hw.kept, hw.ids, hw.readable, hw.served⟩
  | moveHead headSha policy => exact ⟨hw.kept, hw.ids, hw.readable, hw.served⟩
  | tick now clock => exact ⟨hw.kept, hw.ids, hw.readable, hw.served⟩
  | failedTick clock done => exact ⟨hw.kept, hw.ids, hw.readable, hw.served⟩
  | recheck =>
      refine ⟨hw.kept, hw.ids, hw.readable, fun ws hws system state hstate => ?_⟩
      cases hrebuilt : rebuildIfChanged P timestamptz w.headSha w.snapshots w.served with
      | none =>
          change (rebuildIfChanged P timestamptz w.headSha w.snapshots w.served).or w.served = some ws at hws
          rw [hrebuilt, Option.none_or] at hws
          exact hw.served ws hws system state hstate
      | some ws' =>
          change (rebuildIfChanged P timestamptz w.headSha w.snapshots w.served).or w.served = some ws at hws
          rw [hrebuilt, Option.some_or] at hws
          obtain rfl := Option.some.inj hws
          obtain ⟨hserved, -⟩ | ⟨-, hbuild⟩ := rebuildIfChanged_cases hrebuilt
          · exact hw.served ws' hserved system state hstate
          · exact served_of_servesLatest hw.kept (servesLatest_of_build hbuild) hstate

theorem Reachable.sound {policy : SyncPolicy} {headSha : Text}
    (h : Reachable P timestamptz retention (World.start policy headSha) w) : w.Sound P timestamptz := by
  induction h with
  | start => exact ⟨List.forall_mem_nil _, List.nodup_nil, List.forall_mem_nil _, fun ws hws => nomatch hws⟩
  | event e _ hmay ih => exact ih.step hmay

/-- **A re-check** of any run serves the latest acceptances exactly when nothing was accepted again under
the same key. -/
theorem servedIsLatest_iff {policy : SyncPolicy} {headSha : Text}
    (h : Reachable P timestamptz retention (World.start policy headSha) w) :
    w.ServedIsLatest P timestamptz ↔ w.NothingReaccepted P := by
  have hw := h.sound
  have hreadable : ∀ a ∈ w.snapshots, (systemState P timestamptz a).isSome :=
    fun a ha => hw.readable a (hw.kept a ha)
  constructor
  · intro hlatest ws hws hkey system
    have hsame : rebuildIfChanged P timestamptz w.headSha w.snapshots w.served = some ws := by
      unfold rebuildIfChanged
      rw [Option.mem_def.mp hws]
      exact if_pos hkey
    rw [(hlatest ws hsame).1 system]
    cases ha : latestSnapshot system w.snapshots with
    | none => rfl
    | some a =>
        obtain ⟨state, hstate⟩ := Option.isSome_iff_exists.mp (hreadable a (mostRecent_latestSnapshot ha).mem)
        rw [Option.bind_some, hstate, Option.map_some, Option.map_some, snapshotId_of_systemState hstate]
  · intro hnothing ws hws
    have hserves : ServesLatest P timestamptz w.snapshots ws := by
      obtain ⟨hserved, hkey⟩ | ⟨-, hbuild⟩ := rebuildIfChanged_cases hws
      · intro system
        have hids := hnothing ws hserved hkey system
        cases ha : latestSnapshot system w.snapshots with
        | none =>
            rw [ha, Option.map_none, Option.map_eq_none_iff] at hids
            exact hids
        | some a =>
            rw [ha, Option.map_some, Option.map_eq_some_iff] at hids
            obtain ⟨state, hstate, hid⟩ := hids
            obtain ⟨b, hb, -, hown⟩ := hw.served ws hserved system state hstate
            have hmem := hw.kept a (mostRecent_latestSnapshot ha).mem
            have heq : b = a := List.inj_on_of_nodup_map hw.ids hb hmem
              ((snapshotId_of_systemState hown).symm.trans hid)
            rw [hstate, Option.bind_some, ← heq, hown]
      · exact servesLatest_of_build hbuild
    exact ⟨hserves, oneDefinition_of_servesLatest hreadable hserves⟩

end

/-! ### A capture that arrives late -/

/-- An acceptance of the `crm` system without objects. -/
def crmSnapshot (snapshotId capturedAt : Text) (acceptedAt : Nat) : AcceptedSnapshot where
  snapshotId := snapshotId
  system := js "crm"
  jobId := js "01J"
  snapshotVersion := js "1"
  sourceMode := js "live"
  connectorName := js "static-demo"
  connectorVersion := js "0.1.0"
  capturedAt := capturedAt
  body := utf8 (stringify (.obj [(js "objects", .arr [])]))
  sha256 := js "5e"
  canonicalBodySha256 := js "5e"
  objectCount := 0
  acceptedAt := acceptedAt

/-- Two days of January 2026. -/
def instants (t : Text) : Int :=
  if t = js "2026-01-10T00:00:00Z" then 1768003200000000 else 1767225600000000

/-- Every three days, and a warning after thirty. -/
def crmPolicy : SyncPolicy where
  systems := [⟨js "crm", 2592000, some 259200, false⟩]
  keyed := List.nodup_singleton _

/-- The newer capture first, the older one after it. -/
def lateCapture : List Event :=
  [.register [js "crm"], .accept (crmSnapshot (js "01A") (js "2026-01-10T00:00:00Z") 1),
    .accept (crmSnapshot (js "01B") (js "2026-01-01T00:00:00Z") 2)]

/-- The older capture is the latest acceptance. -/
theorem latestSnapshot_lateCapture :
    latestSnapshot (js "crm") ((start crmPolicy []).run .ideal instants 10 lateCapture).snapshots =
      some (crmSnapshot (js "01B") (js "2026-01-01T00:00:00Z") 2) := rfl

/-- On January 11 the latest acceptance is ten days old, and nothing is triggered. -/
theorem not_actsOnLatest_lateCapture : ¬ ∀ (P : Platform) (timestamptz : Text → Int) (retention : Nat)
    (policy : SyncPolicy) (headSha : Text) (events : List Event), ∀ before now clock after,
      events = before ++ .tick now clock :: after →
        ((start policy headSha).run P timestamptz retention before).ActsOnLatest timestamptz now clock := by
  intro hlaw
  have hacts := hlaw .ideal instants 10 crmPolicy [] _ lateCapture 1768089600000000 1768089600000 [] rfl
  have hoverdue : Overdue instants ((start crmPolicy []).run .ideal instants 10 lateCapture)
      1768089600000000 ⟨js "crm", 2592000, some 259200, false⟩ := by
    refine ⟨259200, rfl, fun a ha => ?_⟩
    obtain rfl := Option.some.inj (latestSnapshot_lateCapture.symm.trans ha)
    have hinstant : instants (js "2026-01-01T00:00:00Z") = 1767225600000000 := by decide
    norm_num [secondsSince, crmSnapshot, hinstant]
  have hage := (actsOnLatest_iff.mp hacts).captures _ List.mem_cons_self List.mem_cons_self hoverdue 259200 rfl
    (crmSnapshot (js "01A") (js "2026-01-10T00:00:00Z") 1) List.mem_cons_self rfl
  have hinstant : instants (js "2026-01-10T00:00:00Z") = 1768003200000000 := by decide
  revert hage
  norm_num [secondsSince, crmSnapshot, hinstant]

/-! ### A source that delivers the same again -/

def firstDelivery : AcceptedSnapshot := crmSnapshot (js "01A") (js "2026-01-01T00:00:00Z") 1

def secondDelivery : AcceptedSnapshot := crmSnapshot (js "01B") (js "2026-01-10T00:00:00Z") 2

/-- The two deliveries have one key. -/
theorem workspaceKey_secondDelivery (P : Platform) :
    workspaceKey P [] [secondDelivery] = workspaceKey P [] [firstDelivery] := by
  simp only [workspaceKey, firstDelivery, secondDelivery, crmSnapshot, List.map]

theorem systemState_crmSnapshot (snapshotId capturedAt : Text) (acceptedAt : Nat) :
    systemState .ideal instants (crmSnapshot snapshotId capturedAt acceptedAt) =
      some ⟨none, snapshotId, js "5e", instants capturedAt / 1000, acceptedAt, []⟩ := by
  have htext : ofUtf8 (utf8 (stringify (.obj [(js "objects", .arr [])]))) =
      stringify (.obj [(js "objects", .arr [])]) := ofUtf8_utf8_of_isWellFormed (by decide)
  have hparse : Platform.ideal.parse (ofUtf8 (crmSnapshot snapshotId capturedAt acceptedAt).body) =
      some (.obj [(js "objects", .arr [])]) := by
    rw [crmSnapshot, htext]
    exact Platform.ideal.parse_stringify _
  rw [systemState, hparse]
  rfl

/-- The workspace built from the first delivery. -/
noncomputable def servedFirst : Workspace :=
  ⟨workspaceKey .ideal [] [firstDelivery], [(js "crm", ⟨none, js "01A", js "5e", 1767225600000, 1, []⟩)]⟩

theorem build_firstDelivery :
    build .ideal instants (workspaceKey .ideal [] [firstDelivery]) [firstDelivery] = some servedFirst := by
  have hinstant : instants (js "2026-01-01T00:00:00Z") / 1000 = 1767225600000 := by decide
  simp only [build, List.mapM_cons, List.mapM_nil, firstDelivery, systemState_crmSnapshot, hinstant]
  rfl

/-- A delivery, a re-check, and the same delivered again nine days later. -/
noncomputable def redelivered : World :=
  (start crmPolicy []).run .ideal instants 10 [.accept firstDelivery, .recheck, .accept secondDelivery]

theorem redelivered_eq : redelivered =
    { start crmPolicy [] with
      snapshots := [firstDelivery, secondDelivery]
      history := [secondDelivery, firstDelivery]
      served := some servedFirst } := by
  have hlatest : latestSnapshots [firstDelivery] = [firstDelivery] := rfl
  have hrebuilt : rebuildIfChanged .ideal instants [] [firstDelivery] none = some servedFirst := by
    unfold rebuildIfChanged
    rw [hlatest]
    exact build_firstDelivery
  have hsecond : pruneSnapshots (js "crm") 10 ([firstDelivery] ++ [secondDelivery]) =
      [firstDelivery, secondDelivery] := rfl
  change { start crmPolicy [] with
      snapshots := pruneSnapshots (js "crm") 10 ([firstDelivery] ++ [secondDelivery])
      history := [secondDelivery, firstDelivery]
      served := (rebuildIfChanged .ideal instants [] [firstDelivery] none).or none } = _
  rw [hrebuilt, hsecond]
  rfl

theorem reachable_redelivered : Reachable .ideal instants 10 (start crmPolicy []) redelivered := by
  have hreadable : ∀ snapshotId capturedAt acceptedAt,
      (systemState .ideal instants (crmSnapshot snapshotId capturedAt acceptedAt)).isSome := by
    intro snapshotId capturedAt acceptedAt
    rw [systemState_crmSnapshot]
    rfl
  refine .event (.accept secondDelivery) (.event .recheck (.event (.accept firstDelivery) .start ?_) trivial) ?_
  · exact ⟨List.not_mem_nil, hreadable _ _ _⟩
  · exact ⟨by decide, hreadable _ _ _⟩

theorem servedIsLatest_redelivered : redelivered.ServedIsLatest .ideal instants ↔
    redelivered.NothingReaccepted .ideal :=
  servedIsLatest_iff reachable_redelivered

/-- The key is that of the first delivery, and so is the snapshot that is served. -/
theorem not_servedIsLatest_redelivered : ¬ ∀ (P : Platform) (timestamptz : Text → Int) (retention : Nat)
    (policy : SyncPolicy) (headSha : Text) (w : World),
      Reachable P timestamptz retention (start policy headSha) w → w.ServedIsLatest P timestamptz := by
  intro hlaw
  have hlatest := hlaw .ideal instants 10 crmPolicy [] redelivered reachable_redelivered
  have hmetas : latestSnapshots [firstDelivery, secondDelivery] = [secondDelivery] := rfl
  rw [redelivered_eq] at hlatest
  have hserves : rebuildIfChanged .ideal instants [] [firstDelivery, secondDelivery] (some servedFirst) =
      some servedFirst := by
    unfold rebuildIfChanged
    rw [hmetas]
    exact if_pos (workspaceKey_secondDelivery .ideal).symm
  have hcrm := (hlatest servedFirst hserves).1 (js "crm")
  have hsecond : latestSnapshot (js "crm") [firstDelivery, secondDelivery] = some secondDelivery := rfl
  dsimp only at hcrm
  rw [hsecond, Option.bind_some, secondDelivery, systemState_crmSnapshot] at hcrm
  have hids := congrArg (Option.map SystemState.snapshotId) hcrm
  revert hids
  decide

end World

end Freshness

end ContextLayer
