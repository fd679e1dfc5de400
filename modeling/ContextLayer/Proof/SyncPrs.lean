import ContextLayer.SyncPrs

/-!
# When the open sync PR is current

Only a run opens a sync PR, and runs do not overlap. From the listing on, what is open beside the run's
own PR is what it still has to close, so at its end there is nothing beside it; a run that has nothing
to propose leaves what it finds.
-/

namespace ContextLayer

open Text

/-! ### Difference -/

variable {D : DiffStage}

theorem Run.drift_of_changed_nil {r : Run} (h : r.changed D = some []) : r.drift D = some [] := by
  rw [drift, h]
  rfl

/-- Where the pins are left as they are, nothing has changed. -/
theorem Run.changed_eq_nil {r : Run} {changed : List AcquiredSystem} (h : r.changed D = some changed)
    (hpins : ∀ s ∈ changed, r.pins s.system = some s.body) : changed = [] := by
  refine List.eq_nil_iff_forall_not_mem.mpr fun s hs => ?_
  have hempty : D.empty (r.pins s.system) s.body = some false := by
    unfold Run.changed at h
    split at h
    · cases h
    · obtain rfl := Option.some.inj h
      exact of_decide_eq_true (List.mem_filter.mp hs).2
  rw [hpins s hs] at hempty
  exact D.self s.body hempty

namespace SyncWorld

variable {provider : PrProvider} {prRetries : Nat} {w w' : SyncWorld}

/-! ### Numbers of PRs -/

structure Numbered (w : SyncWorld) : Prop where
  distinct : (w.opened.map PullRequest.number).Nodup
  fresh : ∀ pr ∈ w.opened, pr.number < w.nextNumber

theorem Numbered.of_sublist (h : w.Numbered) (hopened : w'.opened.Sublist w.opened)
    (hnext : w'.nextNumber = w.nextNumber) : w'.Numbered where
  distinct := h.distinct.sublist (hopened.map _)
  fresh pr hpr := hnext ▸ h.fresh pr (hopened.subset hpr)

theorem Numbered.cons (h : w.Numbered) {pr : PullRequest} (hpr : pr.number = w.nextNumber)
    (hopened : w'.opened = pr :: w.opened) (hnext : w'.nextNumber = w.nextNumber + 1) : w'.Numbered := by
  refine ⟨?_, fun other hother => ?_⟩
  · rw [hopened, List.map_cons, List.nodup_cons]
    refine ⟨fun hmem => ?_, h.distinct⟩
    obtain ⟨other, hother, hnumber⟩ := List.mem_map.mp hmem
    exact absurd (h.fresh other hother) (by omega)
  · rw [hnext]
    rw [hopened] at hother
    obtain rfl | hother := List.mem_cons.mp hother
    · omega
    · exact Nat.lt_succ_of_lt (h.fresh other hother)

theorem Numbered.length_le_one (h : w.Numbered) {number : Nat}
    (hall : ∀ pr ∈ w.openSyncPrs, pr.number = number) : w.openSyncPrs.length ≤ 1 := by
  have hnodup : (w.openSyncPrs.map PullRequest.number).Nodup := h.distinct.sublist (List.filter_sublist.map _)
  have hmap : w.openSyncPrs.map PullRequest.number = List.replicate w.openSyncPrs.length number := by
    rw [List.eq_replicate_iff, List.length_map]
    exact ⟨rfl, List.forall_mem_map.mpr hall⟩
  rw [hmap, List.nodup_replicate] at hnodup
  exact hnodup

theorem mem_openSyncPrs {pr : PullRequest} : pr ∈ w.openSyncPrs ↔ pr ∈ w.opened ∧ pr.isSync = true :=
  List.mem_filter

theorem openSyncPrs_subset (h : w'.opened.Sublist w.opened) {pr : PullRequest} (hpr : pr ∈ w'.openSyncPrs) :
    pr ∈ w.openSyncPrs :=
  mem_openSyncPrs.mpr ⟨h.subset (mem_openSyncPrs.mp hpr).1, (mem_openSyncPrs.mp hpr).2⟩

/-! ### The run and its PR -/

/-- What holds of the open sync PRs while a run is under way. -/
def PhaseSound (D : DiffStage) (prs : List PullRequest) : RunPhase → Prop
  | .writing s _ | .opening s _ | .pushing s _ => (s.run.changed D).isSome
  | .opened s number => ∀ pr ∈ prs, pr.number = number → some pr.drift = s.run.drift D
  | .superseding s number priors =>
      (∀ pr ∈ prs, pr.number = number → some pr.drift = s.run.drift D) ∧
        ∀ pr ∈ prs, pr.number = number ∨ pr.number ∈ priors
  | _ => True

theorem PhaseSound.of_subset {prs prs' : List PullRequest} {phase : RunPhase} (h : PhaseSound D prs phase)
    (hsubset : ∀ pr ∈ prs', pr ∈ prs) : PhaseSound D prs' phase := by
  cases phase with
  | opened s number => exact fun pr hpr => h pr (hsubset pr hpr)
  | superseding s number priors =>
      exact ⟨fun pr hpr => h.1 pr (hsubset pr hpr), fun pr hpr => h.2 pr (hsubset pr hpr)⟩
  | _ => exact h

structure Sound (D : DiffStage) (w : SyncWorld) : Prop where
  numbered : w.Numbered
  phase : PhaseSound D w.openSyncPrs w.phase
  ended : w.EndsCurrent D

theorem endsCurrent_of_none (h : w.ended = none) : w.EndsCurrent D := by
  intro outcome r hended
  rw [h] at hended
  cases hended

theorem Sound.turn (h : w.Numbered) {phase : RunPhase} (hphase : PhaseSound D w.openSyncPrs phase) :
    (w.turn phase).Sound D := ⟨⟨h.distinct, h.fresh⟩, hphase, endsCurrent_of_none rfl⟩

theorem Sound.finish (h : w.Numbered) {outcome : RunOutcome} {r : Run}
    (hcurrent : outcome = .succeeded ∨ outcome = .noOp → w.Current D r) : (w.finish outcome r).Sound D := by
  refine ⟨⟨h.distinct, h.fresh⟩, trivial, fun outcome' r' hended hgood => ?_⟩
  obtain ⟨rfl, rfl⟩ := Prod.mk.inj (Option.some.inj hended)
  exact hcurrent hgood

theorem Sound.fails (h : w.Numbered) {outcome : RunOutcome} {r : Run} (hsucceeded : outcome ≠ .succeeded)
    (hnoOp : outcome ≠ .noOp) : (w.finish outcome r).Sound D :=
  Sound.finish h fun hgood => absurd hgood (not_or.mpr ⟨hsucceeded, hnoOp⟩)

/-- A step beside the run that opens no sync PR. -/
theorem Sound.aside (h : w.Sound D) (hnumbered : w'.Numbered) (hphase : w'.phase = w.phase)
    (hsubset : ∀ pr ∈ w'.openSyncPrs, pr ∈ w.openSyncPrs) (hended : w'.ended = none) : w'.Sound D :=
  ⟨hnumbered, hphase ▸ h.phase.of_subset hsubset, endsCurrent_of_none hended⟩

theorem Sound.attemptFailed (h : w.Numbered) {s : PinnedRun} (hchanged : (s.run.changed D).isSome)
    (failed : Nat) (deleted : Bool) : (w.attemptFailed prRetries s failed deleted).Sound D := by
  unfold SyncWorld.attemptFailed
  by_cases hmore : failed + 1 < prRetries
  · rw [if_pos hmore]
    exact Sound.turn h hchanged
  · rw [if_neg hmore]
    refine Sound.fails ?_ (by decide) (by decide)
    cases deleted with
    | false => exact h
    | true => exact h.of_sublist List.filter_sublist rfl

/-- A run that has nothing to propose, where nothing is proposed. -/
theorem current_of_nothingProposed {r : Run} (h : w.nothingProposed = true) (hchanged : r.changed D = some []) :
    w.Current D r := by
  obtain ⟨hlength, hdrift⟩ := Bool.and_eq_true_iff.mp h
  refine ⟨of_decide_eq_true hlength, fun pr hpr => ?_⟩
  rw [Run.drift_of_changed_nil hchanged, List.isEmpty_iff.mp (List.all_eq_true.mp hdrift pr hpr)]

/-- **One step** of a run that supersedes, or of what goes on beside it. -/
theorem Sound.step (h : w.Sound D) {e : PrEvent} (hstep : w.step? D provider prRetries e = some w')
    (hsupersedes : w.supersedes D provider e = true) : w'.Sound D := by
  cases e with
  | accept a =>
      obtain rfl := Option.some.inj hstep
      exact h.aside ⟨h.numbered.distinct, h.numbered.fresh⟩ rfl (fun _ hpr => hpr) rfl
  | mergeSync number =>
      simp only [step?] at hstep
      split at hstep
      · cases hstep
      · obtain rfl := Option.some.inj hstep
        exact h.aside (h.numbered.of_sublist List.filter_sublist rfl) rfl
          (fun _ => openSyncPrs_subset List.filter_sublist) rfl
  | openOther =>
      obtain rfl := Option.some.inj hstep
      refine h.aside (h.numbered.cons rfl rfl rfl) rfl (fun pr hpr => ?_) rfl
      obtain ⟨hmem, hsync⟩ := mem_openSyncPrs.mp hpr
      obtain rfl | hmem := List.mem_cons.mp hmem
      · cases hsync
      · exact mem_openSyncPrs.mpr ⟨hmem, hsync⟩
  | mergeOther number head =>
      simp only [step?] at hstep
      split at hstep
      · cases hstep
      · obtain rfl := Option.some.inj hstep
        exact h.aside (h.numbered.of_sublist List.filter_sublist rfl) rfl
          (fun _ => openSyncPrs_subset List.filter_sublist) rfl
  | executeRun =>
      simp only [step?] at hstep
      split at hstep
      · obtain rfl := Option.some.inj hstep
        exact ⟨⟨h.numbered.distinct, h.numbered.fresh⟩, trivial, endsCurrent_of_none rfl⟩
      · cases hstep
  | acquire r =>
      simp only [step?] at hstep
      split at hstep
      · split at hstep
        · split at hstep
          · obtain rfl := Option.some.inj hstep
            exact Sound.fails h.numbered (by decide) (by decide)
          · obtain rfl := Option.some.inj hstep
            exact Sound.turn h.numbered trivial
        · cases hstep
      · cases hstep
  | diff wheelCarry gatewayPending =>
      simp only [step?] at hstep
      split at hstep
      · rename_i s hphase
        split at hstep
        · obtain rfl := Option.some.inj hstep
          exact Sound.fails h.numbered (by decide) (by decide)
        · rename_i changed hchanged
          split at hstep
          · rename_i hnothing
            obtain rfl := Option.some.inj hstep
            simp only [Bool.and_eq_true, Bool.not_eq_true', List.isEmpty_iff] at hnothing
            obtain ⟨⟨rfl, hwheel⟩, hgateway⟩ := hnothing
            refine Sound.finish h.numbered fun _ => current_of_nothingProposed ?_ hchanged
            simpa [supersedes, hphase, hchanged, hwheel, hgateway] using hsupersedes
          · obtain rfl := Option.some.inj hstep
            exact Sound.turn h.numbered (by rw [PhaseSound, hchanged]; rfl)
      · cases hstep
  | commit otherBytes =>
      simp only [step?] at hstep
      split at hstep
      · rename_i s wheelCarry hphase
        have hsome : (s.run.changed D).isSome := by
          have hsound := h.phase
          rw [hphase] at hsound
          exact hsound
        obtain ⟨changed, hchanged⟩ := Option.isSome_iff_exists.mp hsome
        split at hstep
        · rename_i hnothing
          obtain rfl := Option.some.inj hstep
          rw [hchanged, Option.getD_some] at hnothing
          simp only [Bool.and_eq_true, Bool.not_eq_true', Bool.or_eq_false_iff] at hnothing
          obtain ⟨⟨hcommitted, hbytes⟩, hwheel⟩ := hnothing
          obtain rfl : changed = [] := Run.changed_eq_nil hchanged fun s hs => by
            have := List.any_eq_false.mp hcommitted s hs
            rwa [decide_eq_true_eq, not_not] at this
          refine Sound.finish h.numbered fun _ => current_of_nothingProposed ?_ hchanged
          simpa [supersedes, hphase, hchanged, hwheel, hbytes] using hsupersedes
        · obtain rfl := Option.some.inj hstep
          exact Sound.turn h.numbered hsome
      · cases hstep
  | fail =>
      simp only [step?] at hstep
      split at hstep
      · obtain rfl := Option.some.inj hstep
        exact ⟨⟨h.numbered.distinct, h.numbered.fresh⟩, trivial, endsCurrent_of_none rfl⟩
      · obtain rfl := Option.some.inj hstep
        exact ⟨⟨h.numbered.distinct, h.numbered.fresh⟩, trivial, endsCurrent_of_none rfl⟩
      all_goals
        obtain rfl := Option.some.inj hstep
        exact Sound.fails h.numbered (by decide) (by decide)
  | readHead ok deleted =>
      simp only [step?] at hstep
      split at hstep
      · rename_i s failed hphase
        have hsome : (s.run.changed D).isSome := by
          have hsound := h.phase
          rw [hphase] at hsound
          exact hsound
        split at hstep
        · split at hstep
          · obtain rfl := Option.some.inj hstep
            exact Sound.attemptFailed h.numbered hsome failed deleted
          · split at hstep
            · obtain rfl := Option.some.inj hstep
              exact Sound.fails h.numbered (by decide) (by decide)
            · obtain rfl := Option.some.inj hstep
              exact Sound.turn h.numbered hsome
        · cases hstep
      · cases hstep
  | push outcome deleted =>
      simp only [step?] at hstep
      split at hstep
      · rename_i s failed hphase
        have hsome : (s.run.changed D).isSome := by
          have hsound := h.phase
          rw [hphase] at hsound
          exact hsound
        obtain rfl := Option.some.inj hstep
        exact Sound.attemptFailed h.numbered hsome failed deleted
      · rename_i s failed hphase _
        have hsome : (s.run.changed D).isSome := by
          have hsound := h.phase
          rw [hphase] at hsound
          exact hsound
        have hnumbered : (w.withPr s.runId ((s.run.drift D).getD [])).Numbered := h.numbered.cons rfl rfl rfl
        split at hstep
        · cases hstep
        · split at hstep
          · obtain rfl := Option.some.inj hstep
            exact Sound.attemptFailed hnumbered hsome failed deleted
          · obtain rfl := Option.some.inj hstep
            refine Sound.turn hnumbered fun pr hpr hnumber => ?_
            obtain rfl | hmem := List.mem_cons.mp (mem_openSyncPrs.mp hpr).1
            · obtain ⟨changed, hchanged⟩ := Option.isSome_iff_exists.mp hsome
              rw [Run.drift, hchanged]
              rfl
            · exact absurd (h.numbered.fresh pr hmem) (by omega)
      · cases hstep
  | list ok =>
      simp only [step?] at hstep
      split at hstep
      · rename_i s number hphase
        have hsound := h.phase
        rw [hphase] at hsound
        split at hstep
        · obtain rfl := Option.some.inj hstep
          refine Sound.turn h.numbered ⟨hsound, fun pr hpr => ?_⟩
          by_cases hnumber : pr.number = number
          · exact .inl hnumber
          · have hlisted := of_decide_eq_true (List.all_eq_true.mp hsupersedes pr hpr)
            exact .inr (List.mem_filter.mpr ⟨List.mem_map_of_mem hlisted, decide_eq_true hnumber⟩)
        · obtain rfl := Option.some.inj hstep
          exact Sound.fails h.numbered (by decide) (by decide)
      · cases hstep
  | close ok =>
      simp only [step?] at hstep
      split at hstep
      · rename_i s number prior rest hphase
        have hsound := h.phase
        rw [hphase] at hsound
        split at hstep
        · obtain rfl := Option.some.inj hstep
          have hnumbered : (w.withoutPr prior).Numbered := h.numbered.of_sublist List.filter_sublist rfl
          refine Sound.turn hnumbered (⟨fun pr hpr => ?_, fun pr hpr => ?_⟩ :
            PhaseSound D (w.withoutPr prior).openSyncPrs (.superseding s number rest))
          · exact hsound.1 pr (openSyncPrs_subset List.filter_sublist hpr)
          · have hne : pr.number ≠ prior :=
              of_decide_eq_true (List.mem_filter.mp (mem_openSyncPrs.mp hpr).1).2
            obtain hnumber | hprior := hsound.2 pr (openSyncPrs_subset List.filter_sublist hpr)
            · exact .inl hnumber
            · exact .inr ((List.mem_cons.mp hprior).resolve_left hne)
        · obtain rfl := Option.some.inj hstep
          exact Sound.fails h.numbered (by decide) (by decide)
      · cases hstep
  | record =>
      simp only [step?] at hstep
      split at hstep
      · rename_i s number hphase
        have hsound := h.phase
        rw [hphase] at hsound
        obtain rfl := Option.some.inj hstep
        have hown : ∀ pr ∈ w.openSyncPrs, pr.number = number := fun pr hpr =>
          (hsound.2 pr hpr).resolve_right List.not_mem_nil
        exact Sound.finish h.numbered fun _ =>
          ⟨h.numbered.length_le_one hown, fun pr hpr => hsound.1 pr hpr (hown pr hpr)⟩
      · cases hstep

theorem sound_start (head : Text → Option (List UInt8)) : (start head).Sound D :=
  ⟨⟨List.nodup_nil, List.forall_mem_nil _⟩, trivial, endsCurrent_of_none rfl⟩

/-- **At most one sync PR, and it is current**, at the end of every run that ends well. -/
theorem endsCurrent {head : Text → Option (List UInt8)}
    (h : ((machine D provider prRetries head).restrict fun w e =>
      w.supersedes D provider e = true).Reachable w) : w.EndsCurrent D := by
  refine (h.invariant (I := Sound D) (sound_start head) fun w e _ hmay hsound => ?_).ended
  obtain ⟨w', hw'⟩ := Option.isSome_iff_exists.mp hmay.1
  have hnext : ((machine D provider prRetries head).restrict fun w e =>
      w.supersedes D provider e = true).next w e = w' := by
    change (w.step? D provider prRetries e).getD w = w'
    rw [hw', Option.getD_some]
  rw [hnext]
  exact hsound.step hw' hmay.2

end SyncWorld

/-! ### Runs of it -/

/-- A stage that tells snapshots by their bytes. -/
def bytesDiff : DiffStage where
  empty pin body := some (decide (pin = some body))
  self body h := by
    rw [decide_eq_true rfl] at h
    cases h

def crmPinned (system : Text) : Option (List UInt8) := if system = js "crm" then some [0] else none

def crmSnapshot (body : List UInt8) : AcceptedSnapshot where
  snapshotId := js "snapshot"
  system := js "crm"
  jobId := js "job"
  snapshotVersion := js "1"
  sourceMode := js "live"
  connectorName := js "postgres"
  connectorVersion := js "1.0.0"
  capturedAt := js "2026-07-10T00:00:00Z"
  body := body
  sha256 := []
  canonicalBodySha256 := []
  objectCount := 0
  acceptedAt := 0

/-- A run that was triggered for one system, and has read this of it. -/
def crmRun (body : List UInt8) : Run where
  marks := [⟨js "crm", [], some (js "job")⟩]
  startedAt := 0
  budgetS := 0
  pins _ := none
  looks := [⟨js "crm", [], some ⟨js "crm", js "job", js "snapshot", [], body⟩⟩]
  excluded := []
  configured := []
  stage := .acquired

/-- A run up to the listing of the open PRs. -/
def upToListing (body : List UInt8) : List PrEvent :=
  [.accept (crmSnapshot body), .executeRun, .acquire (crmRun body), .diff false false, .commit true,
    .readHead true false, .push .done false, .list true]

/-- The second run cannot close the PR of the first, and the third closes both. -/
def supersededTwo : List PrEvent :=
  upToListing [1] ++ [.record] ++ upToListing [2] ++ [.close false] ++ upToListing [3] ++
    [.close true, .close true, .record]

def supersedingMachine : Machine SyncWorld PrEvent :=
  (SyncWorld.machine bytesDiff .github 3 crmPinned).restrict fun w e =>
    w.supersedes bytesDiff .github e = true

instance : DecidableRel supersedingMachine.May := fun w e =>
  inferInstanceAs (Decidable ((SyncWorld.machine bytesDiff .github 3 crmPinned).May w e ∧ _ = true))

theorem endsCurrent_supersededTwo :
    let w := supersedingMachine.run supersededTwo
    (w.ended.map Prod.fst = some .succeeded ∧ w.openSyncPrs = [⟨2, some 2, [(js "crm", [3])]⟩]) ∧
      w.EndsCurrent bytesDiff :=
  ⟨by decide +kernel, SyncWorld.endsCurrent (supersedingMachine.reachable_run supersededTwo)⟩

/-- What the first run proposes is taken back at the source, and the second finds nothing to propose. -/
def takenBack : List PrEvent :=
  upToListing [1] ++ [.record, .accept (crmSnapshot [0]), .executeRun, .acquire (crmRun [0]), .diff false false]

theorem not_endsCurrent_takenBack : ¬ ∀ (D : DiffStage) (provider : PrProvider) (prRetries : Nat)
    (head : Text → Option (List UInt8)) (w : SyncWorld),
      (SyncWorld.machine D provider prRetries head).Reachable w → w.EndsCurrent D := by
  intro hlaw
  have hreachable := (SyncWorld.machine bytesDiff .github 3 crmPinned).reachable_run takenBack
  have hnoOp : ((SyncWorld.machine bytesDiff .github 3 crmPinned).run takenBack).ended.map Prod.fst =
    some .noOp := by decide
  obtain ⟨⟨outcome, r⟩, hended, rfl⟩ := Option.map_eq_some_iff.mp hnoOp
  have hcurrent := hlaw _ _ _ _ _ hreachable _ _ hended (.inr rfl)
  have hdrift : (((SyncWorld.machine bytesDiff .github 3 crmPinned).run takenBack).ended.bind
    fun e => e.2.drift bytesDiff) = some [] := by decide
  rw [hended, Option.bind_some] at hdrift
  have hopen : ⟨0, some 0, [(js "crm", [1])]⟩ ∈
    ((SyncWorld.machine bytesDiff .github 3 crmPinned).run takenBack).openSyncPrs := by decide
  have hsame := hcurrent.2 _ hopen
  rw [hdrift] at hsame
  cases hsame

end ContextLayer
