import ContextLayer.DeliveryRecord
import ContextLayer.Proof.Publish

/-!
# When the record is the model

A call that waits for its delivery is told from the others by its job, and only such a call writes the
record. As long as a job succeeds in time, the model is ahead of the record by at most one success, whose
caller still waits; once it has written, the two agree.
-/

namespace ContextLayer

open Text

/-! ### The statements of a call -/

def PublishStage.delivering : PublishStage → Bool
  | .awaiting _ (.deliverModel _) => true
  | _ => false

namespace PublishWorld

variable {sha256 : List UInt8 → Text} {w w' : PublishWorld} {e : PublishEvent}

theorem calls_atStage_ne {session session' : Nat} (hne : session' ≠ session) (call : PublishCall)
    (stage : PublishStage) : (w.atStage session call stage).calls session' = w.calls session' :=
  Function.update_of_ne hne _ _

theorem calls_finish_ne {session session' : Nat} (hne : session' ≠ session) :
    (w.finish session).calls session' = w.calls session' := Function.update_of_ne hne _ _

theorem calls_atStage_self (session : Nat) (call : PublishCall) (stage : PublishStage) :
    (w.atStage session call stage).calls session = some { call with stage } :=
  Function.update_self _ _ _

theorem calls_finish_self (session : Nat) : (w.finish session).calls session = none :=
  Function.update_self _ _ _

/-- A call is prepared for its mode, or refused. -/
theorem prepare_cases (sha256 : List UInt8 → Text) (w : PublishWorld) (session : Nat) (call : PublishCall)
    (revision : Nat) (executed : Option Json) :
    w.prepare sha256 session call revision executed = w.finish session ∨ ∃ stage,
      w.prepare sha256 session call revision executed = w.atStage session call stage ∧
        (stage.delivering = true → call.mode = .deliverModel) := by
  unfold prepare
  split
  · split
    · exact .inl rfl
    · exact .inr ⟨_, rfl, fun h => by cases h⟩
  · rename_i hmode
    split
    · exact .inl rfl
    · exact .inr ⟨_, rfl, fun _ => hmode⟩
  · split
    · split
      · exact .inr ⟨_, rfl, fun h => by cases h⟩
      · exact .inl rfl
    · exact .inl rfl

/-- What a statement of one call leaves to the others, and to the record. -/
structure Frame (w w' : PublishWorld) (e : PublishEvent) : Prop where
  others : ∀ session, session ≠ e.session → w'.calls session = w.calls session
  waiting : w.preparesDelivery e = false →
    (∀ call, w.calls e.session = some call → call.stage.delivering = false) →
      ∀ call, w'.calls e.session = some call → call.stage.delivering = false
  record : (∀ call, w.calls e.session = some call → call.stage.delivering = false) →
    w'.deliveries = w.deliveries

theorem Frame.finish (hdeliveries : w'.deliveries = w.deliveries) (hcalls : w'.calls = w.calls) :
    Frame w (w'.finish e.session) e where
  others session hne := by rw [calls_finish_ne hne, hcalls]
  waiting _ _ call hcall := by
    rw [calls_finish_self] at hcall
    cases hcall
  record _ := hdeliveries

theorem Frame.atStage (e : PublishEvent) (call : PublishCall) {stage : PublishStage}
    (hstage : w.preparesDelivery e = false → stage.delivering = false) :
    Frame w (w.atStage e.session call stage) e where
  others session hne := calls_atStage_ne hne call stage
  waiting hprepares _ call' hcall' := by
    rw [calls_atStage_self] at hcall'
    obtain rfl := Option.some.inj hcall'
    exact hstage hprepares
  record _ := rfl

theorem frame_of_step? (h : w.step? sha256 e = some w') : Frame w w' e := by
  cases e with
  | accept session args apiClass =>
      simp only [step?] at h
      split at h
      · rename_i call _ hcall
        obtain rfl := Option.some.inj h
        obtain ⟨artifactId, _, mode, _, rfl⟩ : ∃ artifactId,
            (member args.artifact "id").bind Json.asString = some artifactId ∧ ∃ mode,
              args.publishMode apiClass = some mode ∧ ⟨artifactId, args, mode, .accepted⟩ = call := by
          simpa [PublishArgs.call, Option.bind_eq_some_iff] using hcall
        exact Frame.atStage (.accept session args apiClass) ⟨artifactId, args, mode, .accepted⟩ fun _ => rfl
      · cases h
  | selectRevisions session =>
      simp only [step?] at h
      split at h
      · rename_i artifactId args mode hcall
        obtain rfl := Option.some.inj h
        refine Frame.atStage (.selectRevisions session) _ fun _ => ?_
        unfold assignRevision
        split <;> rfl
      · cases h
  | insertRevision session =>
      simp only [step?] at h
      split at h
      · rename_i artifactId args mode n hcall
        split at h
        · obtain rfl := Option.some.inj h
          exact Frame.finish (e := .insertRevision session) rfl rfl
        · obtain rfl := Option.some.inj h
          have hframe : Frame w (w.atStage session ⟨artifactId, args, mode, .chosen n⟩ (.numbered n))
            (.insertRevision session) := Frame.atStage (.insertRevision session) _ fun _ => rfl
          exact ⟨hframe.others, hframe.waiting, hframe.record⟩
      · cases h
  | prepare session executed =>
      simp only [step?] at h
      split at h
      · rename_i artifactId args mode n hcall
        obtain rfl := Option.some.inj h
        obtain hfinish | ⟨stage, hstage, hmode⟩ := prepare_cases sha256 w session
          ⟨artifactId, args, mode, .numbered n⟩ n executed
        · rw [hfinish]
          exact Frame.finish (e := .prepare session executed) rfl rfl
        · rw [hstage]
          refine Frame.atStage (.prepare session executed) _ fun hprepares => ?_
          rw [← Bool.not_eq_true]
          intro hdelivering
          rw [preparesDelivery, hcall] at hprepares
          exact Bool.false_ne_true (hprepares.symm.trans (decide_eq_true (hmode hdelivering)))
      · cases h
  | record session job =>
      simp only [step?] at h
      split at h
      · rename_i artifactId args mode n work hcall
        obtain rfl := Option.some.inj h
        have hcalls : ∀ call, (w.record sha256 call n job work).calls = w.calls := by
          intro call
          unfold record
          split
          · rfl
          · split <;> rfl
          · rfl
        refine ⟨fun session' hne => ?_, fun _ _ call hcall' => ?_, fun hnot => ?_⟩
        · rw [calls_finish_ne (show session' ≠ session from hne), hcalls]
        · rw [PublishEvent.session, calls_finish_self] at hcall'
          cases hcall'
        · have hwork := hnot _ hcall
          cases work with
          | deliverModel results => cases hwork
          | singleShot => rfl
          | attest => rfl
      · cases h
  | abandon session =>
      simp only [step?] at h
      split at h
      · obtain rfl := Option.some.inj h
        exact Frame.finish (e := .abandon session) rfl rfl
      · cases h

end PublishWorld

/-! ### Calls and their jobs -/

namespace DeliveryWorld

variable {sha256 : List UInt8 → Text} {w w' : DeliveryWorld}

/-- A call waits for a job exactly when it delivers, and the job is its own. -/
structure Waits (w : DeliveryWorld) : Prop where
  call : ∀ session jobId, w.waits session = some jobId → ∃ artifactId args job,
    w.world.calls session = some ⟨artifactId, args, .deliverModel,
      .awaiting job.revision (.deliverModel job.results)⟩ ∧
      w.jobs jobId = some job ∧ job.key = (artifactId, args.target)
  only : ∀ session call, w.world.calls session = some call → call.stage.delivering = true →
    (w.waits session).isSome
  apart : ∀ session session' jobId, w.waits session = some jobId → w.waits session' = some jobId →
    session = session'

theorem Waits.not_delivering (h : w.Waits) {session : Nat} (hwaits : w.waits session = none)
    (call : PublishCall) (hcall : w.world.calls session = some call) : call.stage.delivering = false := by
  rw [← Bool.not_eq_true]
  intro hdelivering
  have := h.only session call hcall hdelivering
  rw [hwaits] at this
  cases this

/-- A call that does not wait, and goes on without. -/
theorem Waits.publish (h : w.Waits) {e : PublishEvent} {world : PublishWorld}
    (hwaits : w.waits e.session = none) (hframe : PublishWorld.Frame w.world world e)
    (hcalls : ∀ call, world.calls e.session = some call → call.stage.delivering = false) :
    ({ w with world } : DeliveryWorld).Waits where
  call session jobId hwait := by
    obtain ⟨artifactId, args, job, hcall, hjob⟩ := h.call session jobId hwait
    have hne : session ≠ e.session := by
      rintro rfl
      rw [hwaits] at hwait
      cases hwait
    exact ⟨artifactId, args, job, (hframe.others session hne).trans hcall, hjob⟩
  only session call hcall hdelivering := by
    by_cases hsession : session = e.session
    · subst hsession
      rw [hcalls call hcall] at hdelivering
      cases hdelivering
    · exact h.only session call ((hframe.others session hsession).symm.trans hcall) hdelivering
  apart := h.apart

theorem Waits.enqueue (h : w.Waits) {session jobId : Nat} {artifactId : Text} {args : PublishArgs}
    (job : DeliveryJob) {call : PublishCall} (hfresh : w.jobs jobId = none)
    (hstage : { call with stage := .awaiting job.revision (.deliverModel job.results) } =
      (⟨artifactId, args, .deliverModel, .awaiting job.revision (.deliverModel job.results)⟩ : PublishCall))
    (hkey : job.key = (artifactId, args.target)) :
    ({ w with world := w.world.atStage session call (.awaiting job.revision (.deliverModel job.results)) } :
      DeliveryWorld).enqueueJob session jobId job |>.Waits := by
  have hother : ∀ {session' jobId'}, w.waits session' = some jobId' → jobId' ≠ jobId := by
    rintro session' jobId' hwait rfl
    obtain ⟨_, _, _, _, hjob, _⟩ := h.call session' jobId' hwait
    rw [hfresh] at hjob
    cases hjob
  refine ⟨fun session' jobId' hwait => ?_, fun session' call' hcall' hdelivering => ?_, fun s s' id hs hs' => ?_⟩
  · by_cases hsession : session' = session
    · subst hsession
      change Function.update w.waits session' (some jobId) session' = some jobId' at hwait
      rw [Function.update_self] at hwait
      obtain rfl := Option.some.inj hwait
      refine ⟨artifactId, args, job, ?_, Function.update_self _ _ _, hkey⟩
      exact (PublishWorld.calls_atStage_self _ _ _).trans (congrArg some hstage)
    · change Function.update w.waits session (some jobId) session' = some jobId' at hwait
      rw [Function.update_of_ne hsession] at hwait
      obtain ⟨artifactId', args', job', hcall, hjob, hkey'⟩ := h.call session' jobId' hwait
      refine ⟨artifactId', args', job', ?_, ?_, hkey'⟩
      · exact (PublishWorld.calls_atStage_ne hsession _ _).trans hcall
      · exact (Function.update_of_ne (hother hwait) _ _).trans hjob
  · by_cases hsession : session' = session
    · subst hsession
      change (Function.update w.waits session' (some jobId) session').isSome
      rw [Function.update_self]
      rfl
    · change (Function.update w.waits session (some jobId) session').isSome
      rw [Function.update_of_ne hsession]
      exact h.only session' call' ((PublishWorld.calls_atStage_ne hsession _ _).symm.trans hcall') hdelivering
  · change Function.update w.waits session (some jobId) s = some id at hs
    change Function.update w.waits session (some jobId) s' = some id at hs'
    by_cases hsession : s = session
    · by_cases hsession' : s' = session
      · exact hsession.trans hsession'.symm
      · subst hsession
        rw [Function.update_self] at hs
        rw [Function.update_of_ne hsession'] at hs'
        exact absurd (Option.some.inj hs).symm (hother hs')
    · by_cases hsession' : s' = session
      · subst hsession'
        rw [Function.update_self] at hs'
        rw [Function.update_of_ne hsession] at hs
        exact absurd (Option.some.inj hs').symm (hother hs)
      · rw [Function.update_of_ne hsession] at hs
        rw [Function.update_of_ne hsession'] at hs'
        exact h.apart s s' id hs hs'

theorem jobs_settleJob (w : DeliveryWorld) (jobId : Nat) (job : DeliveryJob) (success : Bool) :
    (w.settleJob jobId job success).jobs = Function.update w.jobs jobId
      (some { job with status := if success then .succeeded else .failed }) := by
  cases success <;> rfl

theorem waits_settleJob (w : DeliveryWorld) (jobId : Nat) (job : DeliveryJob) (success : Bool) :
    (w.settleJob jobId job success).waits = w.waits := by
  cases success <;> rfl

theorem world_settleJob (w : DeliveryWorld) (jobId : Nat) (job : DeliveryJob) (success : Bool) :
    (w.settleJob jobId job success).world = w.world := by
  cases success <;> rfl

theorem Waits.settle (h : w.Waits) {jobId : Nat} {job : DeliveryJob} (hjob : w.jobs jobId = some job)
    (success : Bool) : (w.settleJob jobId job success).Waits := by
  refine ⟨fun session jobId' hwait => ?_, fun session call hcall hdelivering => ?_, fun s s' id hs hs' => ?_⟩
  · rw [waits_settleJob] at hwait
    obtain ⟨artifactId, args, job', hcall, hjob', hkey⟩ := h.call session jobId' hwait
    rw [world_settleJob, jobs_settleJob]
    by_cases hid : jobId' = jobId
    · subst hid
      obtain rfl := Option.some.inj (hjob.symm.trans hjob')
      exact ⟨artifactId, args, { job with status := if success then .succeeded else .failed }, hcall,
        Function.update_self _ _ _, hkey⟩
    · exact ⟨artifactId, args, job', hcall, (Function.update_of_ne hid _ _).trans hjob', hkey⟩
  · rw [world_settleJob] at hcall
    rw [waits_settleJob]
    exact h.only session call hcall hdelivering
  · rw [waits_settleJob] at hs hs'
    exact h.apart s s' id hs hs'

theorem Waits.stopWaiting (h : w.Waits) (session : Nat) {world : PublishWorld}
    (hcalls : world.calls = Function.update w.world.calls session none) :
    (w.stopWaiting session world).Waits := by
  have hwaits : ∀ {session' jobId}, (w.stopWaiting session world).waits session' = some jobId →
      session' ≠ session ∧ w.waits session' = some jobId := by
    intro session' jobId hwait
    change Function.update w.waits session none session' = some jobId at hwait
    by_cases hsession : session' = session
    · subst hsession
      rw [Function.update_self] at hwait
      cases hwait
    · rw [Function.update_of_ne hsession] at hwait
      exact ⟨hsession, hwait⟩
  refine ⟨fun session' jobId hwait => ?_, fun session' call hcall hdelivering => ?_, fun s s' id hs hs' => ?_⟩
  · obtain ⟨hne, hwait⟩ := hwaits hwait
    obtain ⟨artifactId, args, job, hcall, hjob⟩ := h.call session' jobId hwait
    refine ⟨artifactId, args, job, ?_, hjob⟩
    change world.calls session' = _
    rw [hcalls, Function.update_of_ne hne]
    exact hcall
  · change world.calls session' = some call at hcall
    rw [hcalls] at hcall
    change (Function.update w.waits session none session').isSome
    by_cases hsession : session' = session
    · subst hsession
      rw [Function.update_self] at hcall
      cases hcall
    · rw [Function.update_of_ne hsession] at hcall ⊢
      exact h.only session' call hcall hdelivering
  · exact h.apart s s' id (hwaits hs).2 (hwaits hs').2

/-! ### One step -/

/-- What an event can do. -/
inductive Steps (sha256 : List UInt8 → Text) (w : DeliveryWorld) : DeliveryEvent → DeliveryWorld → Prop where
  | publish {e : PublishEvent} {world : PublishWorld} (hwaits : w.waits e.session = none)
      (hprepares : w.world.preparesDelivery e = false) (hworld : w.world.step? sha256 e = some world) :
      Steps sha256 w (.publish e) { w with world }
  | refused {session jobId : Nat} {call : PublishCall} {revision : Nat}
      (hcall : w.world.calls session = some call) (hstage : call.stage = .numbered revision) :
      Steps sha256 w (.enqueue session none jobId) { w with world := w.world.finish session }
  | enqueue {session jobId : Nat} {artifactId : Text} {args : PublishArgs} {revision : Nat} {results : Json}
      (hfresh : w.jobs jobId = none)
      (hcall : w.world.calls session = some ⟨artifactId, args, .deliverModel, .numbered revision⟩) :
      Steps sha256 w (.enqueue session (some results) jobId) (({ w with
        world := w.world.atStage session ⟨artifactId, args, .deliverModel, .numbered revision⟩
          (.awaiting revision (.deliverModel results)) } : DeliveryWorld).enqueueJob session jobId
            ⟨(artifactId, args.target), revision, results, w.previous (artifactId, args.target), .active⟩)
  | settle {jobId : Nat} {job : DeliveryJob} (success : Bool) (hjob : w.jobs jobId = some job)
      (hactive : job.status = .active) : Steps sha256 w (.settle jobId success) (w.settleJob jobId job success)
  | record {session : Nat} {job : DeliveryJob} {world : PublishWorld} {result : Json}
      {delivered : Text × Text × Json} (hjob : w.awaited session = some job) (hstatus : job.status = .succeeded)
      (hworld : w.world.step? sha256 (.record session ⟨result, some delivered⟩) = some world) :
      Steps sha256 w (.record session result delivered) (w.stopWaiting session world)
  | giveUp {session : Nat} {job : DeliveryJob} (hjob : w.awaited session = some job)
      (hstatus : job.status ≠ .succeeded) :
      Steps sha256 w (.giveUp session) (w.stopWaiting session (w.world.finish session))

theorem steps_of_step? {e : DeliveryEvent} (h : w.step? sha256 e = some w') : Steps sha256 w e w' := by
  cases e with
  | publish e =>
      simp only [step?] at h
      split at h
      · cases h
      · rename_i hnot
        rw [Bool.or_eq_true, not_or, Bool.not_eq_true, Bool.not_eq_true, Option.isSome_eq_false_iff,
          Option.isNone_iff_eq_none] at hnot
        obtain ⟨world, hworld, rfl⟩ := Option.map_eq_some_iff.mp h
        exact .publish hnot.1 hnot.2 hworld
  | enqueue session executed jobId =>
      simp only [step?] at h
      split at h
      · rename_i artifactId args revision hcall hfresh
        obtain ⟨world, hworld, rfl⟩ := Option.map_eq_some_iff.mp h
        simp only [PublishWorld.step?, hcall, Option.some.injEq] at hworld
        subst hworld
        cases executed with
        | none => exact .refused hcall rfl
        | some results => exact .enqueue hfresh hcall
      · cases h
  | settle jobId success =>
      simp only [step?] at h
      split at h
      · cases h
      · rename_i job hjob
        split at h
        · rename_i hactive
          obtain rfl := Option.some.inj h
          exact .settle success hjob hactive
        · cases h
  | record session result delivered =>
      simp only [step?] at h
      split at h
      · cases h
      · rename_i job hjob
        split at h
        · rename_i hstatus
          obtain ⟨world, hworld, rfl⟩ := Option.map_eq_some_iff.mp h
          exact .record hjob hstatus hworld
        · cases h
  | giveUp session =>
      simp only [step?] at h
      split at h
      · cases h
      · rename_i job hjob
        split at h
        · cases h
        · rename_i hstatus
          obtain ⟨world, hworld, rfl⟩ := Option.map_eq_some_iff.mp h
          simp only [PublishWorld.step?] at hworld
          split at hworld
          · obtain rfl := Option.some.inj hworld
            exact .giveUp hjob hstatus
          · cases hworld

/-- What is recorded. -/
def recorded (w : DeliveryWorld) (key : Text × Text) : Option ModelContent :=
  (Dict.get? w.world.deliveries key).map fun d => ⟨d.revision, d.results⟩

/-- The statement of a call that has seen its job succeed. -/
structure Writes (w : DeliveryWorld) (session : Nat) (job : DeliveryJob) (world : PublishWorld) : Prop where
  calls : world.calls = Function.update w.world.calls session none
  record : ∃ d : ModelDelivery, d.revision = job.revision ∧ d.results = job.results ∧
    world.deliveries = Dict.set w.world.deliveries job.key d

theorem Waits.writes (h : w.Waits) {session : Nat} {job : DeliveryJob} (hjob : w.awaited session = some job)
    {result : Json} {delivered : Text × Text × Json} {world : PublishWorld}
    (hworld : w.world.step? sha256 (.record session ⟨result, some delivered⟩) = some world) :
    Writes w session job world := by
  obtain ⟨jobId, hwait, hjobId⟩ := Option.bind_eq_some_iff.mp hjob
  obtain ⟨artifactId, args, job', hcall, hjob', hkey⟩ := h.call session jobId hwait
  obtain rfl := Option.some.inj (hjobId.symm.trans hjob')
  obtain ⟨workspaceId, datasetId, tables⟩ := delivered
  simp only [PublishWorld.step?, hcall, Option.some.injEq] at hworld
  subst hworld
  refine ⟨rfl, ⟨job.revision, contentHash sha256 args.artifact, workspaceId, datasetId, tables, job.results⟩,
    rfl, rfl, ?_⟩
  rw [hkey]
  rfl

theorem Waits.step (h : w.Waits) {e : DeliveryEvent} (hstep : Steps sha256 w e w') : w'.Waits := by
  cases hstep with
  | publish hwaits hprepares hworld =>
      have hframe := PublishWorld.frame_of_step? hworld
      exact h.publish hwaits hframe (hframe.waiting hprepares (h.not_delivering hwaits))
  | @refused session jobId call revision hcall hstage =>
      have hwaits : w.waits session = none := by
        cases hwait : w.waits session with
        | none => rfl
        | some id =>
            obtain ⟨_, _, _, hcall', _⟩ := h.call session id hwait
            obtain rfl := Option.some.inj (hcall.symm.trans hcall')
            cases hstage
      have hframe : PublishWorld.Frame w.world (w.world.finish session) (.abandon session) :=
        PublishWorld.Frame.finish (e := .abandon session) rfl rfl
      refine h.publish (e := .abandon session) hwaits hframe fun call' hcall' => ?_
      rw [PublishEvent.session, PublishWorld.calls_finish_self] at hcall'
      cases hcall'
  | enqueue hfresh hcall => exact h.enqueue ⟨_, _, _, _, .active⟩ hfresh rfl rfl
  | settle success hjob hactive => exact h.settle hjob success
  | record hjob hstatus hworld => exact h.stopWaiting _ (h.writes hjob hworld).calls
  | giveUp hjob hstatus => exact h.stopWaiting _ rfl

/-! ### The model and its record -/

/-- The model is what is recorded, or what a caller is about to record. -/
structure Recorded (w : DeliveryWorld) : Prop where
  settled : ∀ key, (∀ session job, w.awaited session = some job → job.key = key → job.status ≠ .succeeded) →
    w.models key = w.recorded key
  pending : ∀ session job, w.awaited session = some job → job.status = .succeeded →
    w.models job.key = some ⟨job.revision, job.results⟩

/-- A step after which the calls wait for the same jobs, or for others that have not succeeded. -/
theorem Recorded.of_awaited (h : w.Recorded) (hmodels : w'.models = w.models)
    (hrecorded : w'.recorded = w.recorded)
    (hawaited : ∀ session job, job.status = .succeeded →
      (w'.awaited session = some job ↔ w.awaited session = some job)) : w'.Recorded where
  settled key hnone := by
    rw [hmodels, hrecorded]
    refine h.settled key fun session job hjob hkey hstatus => ?_
    exact hnone session job ((hawaited session job hstatus).mpr hjob) hkey hstatus
  pending session job hjob hstatus := by
    rw [hmodels]
    exact h.pending session job ((hawaited session job hstatus).mp hjob) hstatus

theorem recorded_congr {world : PublishWorld} (h : world.deliveries = w.world.deliveries) :
    ({ w with world } : DeliveryWorld).recorded = w.recorded := by
  funext key
  change (Dict.get? world.deliveries key).map _ = _
  rw [h]
  rfl

theorem awaited_enqueueJob (hw : w.Waits) {session jobId : Nat} (hfresh : w.jobs jobId = none)
    (job : DeliveryJob) (world : PublishWorld) (session' : Nat) :
    (({ w with world } : DeliveryWorld).enqueueJob session jobId job).awaited session' =
      if session' = session then some job else w.awaited session' := by
  change (Function.update w.waits session (some jobId) session').bind (Function.update w.jobs jobId (some job)) = _
  by_cases hsession : session' = session
  · rw [if_pos hsession, hsession, Function.update_self]
    exact Function.update_self _ _ _
  · rw [if_neg hsession, Function.update_of_ne hsession, awaited]
    cases hwait : w.waits session' with
    | none => rfl
    | some id =>
        have hid : id ≠ jobId := by
          rintro rfl
          obtain ⟨_, _, _, _, hjob, _⟩ := hw.call session' id hwait
          rw [hfresh] at hjob
          cases hjob
        exact Function.update_of_ne hid _ _

theorem awaited_stopWaiting (session : Nat) (world : PublishWorld) (session' : Nat) :
    (w.stopWaiting session world).awaited session' =
      if session' = session then none else w.awaited session' := by
  change (Function.update w.waits session none session').bind w.jobs = _
  by_cases hsession : session' = session
  · rw [if_pos hsession, hsession, Function.update_self]
    rfl
  · rw [if_neg hsession, Function.update_of_ne hsession]
    rfl

theorem awaited_settleJob (jobId : Nat) (job : DeliveryJob) (success : Bool) (session : Nat) :
    (w.settleJob jobId job success).awaited session =
      if w.waits session = some jobId then
        some { job with status := if success then .succeeded else .failed }
      else w.awaited session := by
  rw [awaited, jobs_settleJob, waits_settleJob]
  by_cases hwait : w.waits session = some jobId
  · rw [if_pos hwait, hwait]
    exact Function.update_self _ _ _
  · rw [if_neg hwait, awaited]
    cases hid : w.waits session with
    | none => rfl
    | some id =>
        rw [hid] at hwait
        exact Function.update_of_ne (fun h => hwait (congrArg some h)) _ _

/-- A job that succeeds in time is the only one that is about to be recorded. -/
theorem Recorded.succeed (h : w.Recorded) {jobId : Nat} {job : DeliveryJob} (hjob : w.jobs jobId = some job)
    (htime : w.OnTime (.settle jobId true)) : (w.settleJob jobId job true).Recorded := by
  obtain ⟨⟨caller, hcaller⟩, halone⟩ := htime
  have hmodels : (w.settleJob jobId job true).models =
    Function.update w.models job.key (some ⟨job.revision, job.results⟩) := rfl
  have hrecorded : (w.settleJob jobId job true).recorded = w.recorded := rfl
  refine ⟨fun key hnone => ?_, fun session job' hjob' hstatus => ?_⟩
  · have hkey : key ≠ job.key := by
      intro hkey
      refine hnone caller { job with status := .succeeded } ?_ hkey.symm rfl
      rw [awaited_settleJob, if_pos hcaller]
      rfl
    rw [hmodels, hrecorded, Function.update_of_ne hkey]
    refine h.settled key fun session job' hjob' hkey' => hnone session job' ?_ hkey'
    rw [awaited_settleJob, if_neg, hjob']
    intro hwait
    rw [awaited, hwait, Option.bind_some, hjob] at hjob'
    exact hkey (hkey'.symm.trans (congrArg DeliveryJob.key (Option.some.inj hjob')).symm)
  · rw [awaited_settleJob] at hjob'
    rw [hmodels]
    by_cases hwait : w.waits session = some jobId
    · rw [if_pos hwait] at hjob'
      obtain rfl := Option.some.inj hjob'
      exact Function.update_self _ _ _
    · rw [if_neg hwait] at hjob'
      have hkey : job'.key ≠ job.key := fun hkey => halone job hjob session job' hjob' hkey hstatus
      rw [Function.update_of_ne hkey]
      exact h.pending session job' hjob' hstatus

theorem Recorded.record (h : w.Recorded) {session : Nat} {job : DeliveryJob} {world : PublishWorld}
    (hjob : w.awaited session = some job) (hstatus : job.status = .succeeded)
    (hwrites : Writes w session job world) : (w.stopWaiting session world).Recorded := by
  obtain ⟨-, d, hrevision, hresults, hdeliveries⟩ := hwrites
  have hrecorded : ∀ key, (w.stopWaiting session world).recorded key =
      if job.key = key then some ⟨job.revision, job.results⟩ else w.recorded key := by
    intro key
    change (Dict.get? world.deliveries key).map _ = _
    rw [hdeliveries, Dict.get?_set]
    by_cases hkey : job.key = key
    · rw [if_pos hkey, if_pos hkey, Option.map_some, hrevision, hresults]
    · rw [if_neg hkey, if_neg hkey]
      rfl
  refine ⟨fun key hnone => ?_, fun session' job' hjob' hstatus' => ?_⟩
  · rw [hrecorded]
    by_cases hkey : job.key = key
    · rw [if_pos hkey, ← hkey]
      exact h.pending session job hjob hstatus
    · rw [if_neg hkey]
      refine h.settled key fun session' job' hjob' hkey' => hnone session' job' ?_ hkey'
      rw [awaited_stopWaiting, if_neg, hjob']
      rintro rfl
      exact hkey ((congrArg DeliveryJob.key (Option.some.inj (hjob.symm.trans hjob'))).trans hkey')
  · rw [awaited_stopWaiting] at hjob'
    by_cases hsession : session' = session
    · rw [if_pos hsession] at hjob'
      cases hjob'
    · rw [if_neg hsession] at hjob'
      exact h.pending session' job' hjob' hstatus'

theorem Recorded.step (h : w.Recorded) (hw : w.Waits) {e : DeliveryEvent} (hstep : Steps sha256 w e w')
    (htime : w.OnTime e) : w'.Recorded := by
  cases hstep with
  | publish hwaits hprepares hworld =>
      have hframe := PublishWorld.frame_of_step? hworld
      exact h.of_awaited rfl (recorded_congr (hframe.record (hw.not_delivering hwaits))) fun _ _ _ => Iff.rfl
  | refused hcall hstage => exact h.of_awaited rfl rfl fun _ _ _ => Iff.rfl
  | @enqueue session jobId artifactId args revision results hfresh hcall =>
      refine h.of_awaited rfl rfl fun session' job hstatus => ?_
      rw [awaited_enqueueJob hw hfresh]
      by_cases hsession : session' = session
      · have hnone : w.awaited session' = none := by
          rw [awaited]
          cases hwait : w.waits session' with
          | none => rfl
          | some id =>
              obtain ⟨_, _, _, hcall', _⟩ := hw.call session' id hwait
              rw [hsession, hcall] at hcall'
              cases hcall'
        rw [if_pos hsession, hnone]
        refine iff_of_false (fun hjob => ?_) fun hjob => by cases hjob
        obtain rfl := Option.some.inj hjob
        cases hstatus
      · rw [if_neg hsession]
  | @settle jobId job success hjob hactive =>
      cases success with
      | true => exact h.succeed hjob htime
      | false =>
          refine h.of_awaited rfl rfl fun session job' hstatus => ?_
          rw [awaited_settleJob]
          by_cases hwait : w.waits session = some jobId
          · rw [if_pos hwait, awaited, hwait, Option.bind_some, hjob]
            constructor
            · intro heq
              obtain rfl := Option.some.inj heq
              cases hstatus
            · intro heq
              obtain rfl := Option.some.inj heq
              rw [hactive] at hstatus
              cases hstatus
          · rw [if_neg hwait]
  | record hjob hstatus hworld => exact h.record hjob hstatus (hw.writes hjob hworld)
  | @giveUp session job hjob hstatus =>
      refine h.of_awaited rfl rfl fun session' job' hstatus' => ?_
      rw [awaited_stopWaiting]
      by_cases hsession : session' = session
      · rw [if_pos hsession, hsession, hjob]
        refine iff_of_false (fun heq => by cases heq) fun heq => ?_
        obtain rfl := Option.some.inj heq
        exact hstatus hstatus'
      · rw [if_neg hsession]

theorem waits_and_recorded (h : ((deliveryMachine sha256).restrict OnTime).Reachable w) :
    w.Waits ∧ w.Recorded := by
  induction h with
  | start =>
      have hwaits : ((deliveryMachine sha256).restrict OnTime).start.Waits :=
        ⟨fun _ _ h => (nomatch h), fun _ _ h => (nomatch h), fun _ _ _ h => (nomatch h)⟩
      exact ⟨hwaits, fun _ _ => rfl, fun _ _ h => (nomatch h)⟩
  | @step w e _ hmay ih =>
      obtain ⟨w', hw'⟩ := Option.isSome_iff_exists.mp hmay.1
      have hnext : ((deliveryMachine sha256).restrict OnTime).next w e = w' := by
        change (w.step? sha256 e).getD w = w'
        rw [hw', Option.getD_some]
      have hsteps := steps_of_step? hw'
      rw [hnext]
      exact ⟨ih.1.step hsteps, ih.2.step ih.1 hsteps hmay.2⟩

/-- **The delivery record is the model**, in every run whose jobs succeed in time. -/
theorem recordIsModel (h : ((deliveryMachine sha256).restrict OnTime).Reachable w) (key : Text × Text)
    (hquiescent : w.Quiescent key) : w.RecordIsModel sha256 key := by
  obtain ⟨hwaits, hrecorded⟩ := waits_and_recorded h
  have hheld : w.models key = w.recorded key := by
    refine hrecorded.settled key fun session job hjob hkey _ => ?_
    obtain ⟨jobId, hwait, hjobId⟩ := Option.bind_eq_some_iff.mp hjob
    obtain ⟨artifactId, args, job', hcall, hjob', hkey'⟩ := hwaits.call session jobId hwait
    obtain rfl := Option.some.inj (hjobId.symm.trans hjob')
    exact hquiescent.1 session _ hcall rfl (hkey'.symm.trans hkey)
  refine ⟨hheld, ?_, fun session artifactId args revision world hcall hkey hworld haccepted => ?_⟩
  · rw [hheld, previous, recorded, Option.map_map]
    rfl
  · rw [hheld, recorded, Option.map_map]
    simp only [PublishWorld.step?, hcall, Option.some.injEq] at hworld
    subst hworld
    unfold PublishWorld.prepare at haccepted
    dsimp only at haccepted
    rw [hkey] at haccepted
    split at haccepted
    · rename_i reportId definitionHash delivery hattested hdelivery
      split at haccepted
      · rename_i hrevision
        rw [hdelivery, ← hrevision]
        rfl
      · rw [PublishWorld.calls_finish_self] at haccepted
        cases haccepted
    · rw [PublishWorld.calls_finish_self] at haccepted
      cases haccepted

end DeliveryWorld

/-! ### Runs of it -/

section

variable {sha256 : List UInt8 → Text} {w : DeliveryWorld}

/-- An event that may not happen here is left out. -/
def DeliveryWorld.advance (sha256 : List UInt8 → Text) (w : DeliveryWorld) (e : DeliveryEvent) : DeliveryWorld :=
  (w.step? sha256 e).getD w

theorem reachable_advance (h : ((deliveryMachine sha256).restrict DeliveryWorld.OnTime).Reachable w)
    {e : DeliveryEvent} (he : w.OnTime e) :
    ((deliveryMachine sha256).restrict DeliveryWorld.OnTime).Reachable (w.advance sha256 e) := by
  by_cases hmay : (w.step? sha256 e).isSome = true
  · exact h.step e ⟨hmay, he⟩
  · rw [Bool.not_eq_true, Option.isSome_eq_false_iff, Option.isNone_iff_eq_none] at hmay
    rw [DeliveryWorld.advance, hmay]
    exact h

/-- Events that do not depend on being in time. -/
theorem reachable_foldl (h : ((deliveryMachine sha256).restrict DeliveryWorld.OnTime).Reachable w)
    {es : List DeliveryEvent} (hes : ∀ e ∈ es, ∀ w : DeliveryWorld, w.OnTime e) :
    ((deliveryMachine sha256).restrict DeliveryWorld.OnTime).Reachable
      (es.foldl (DeliveryWorld.advance sha256) w) := by
  induction es generalizing w with
  | nil => exact h
  | cons e es ih =>
      obtain ⟨he, hes⟩ := List.forall_mem_cons.mp hes
      exact ih (reachable_advance h (he w)) hes

end

/-- A call up to its job. -/
def deliveryUpToJob (session jobId : Nat) (pages : List Json) (results : Json) : List DeliveryEvent :=
  [.publish (.accept session (delivering pages) true), .publish (.selectRevisions session),
    .publish (.insertRevision session), .enqueue session (some results) jobId]

def sawSuccess (session : Nat) : DeliveryEvent :=
  .record session .null (js "workspace", js "dataset", .arr [])

/-- The first delivery waits for its job. -/
def firstWaits : DeliveryWorld :=
  (deliveryUpToJob 0 0 [] .null).foldl (DeliveryWorld.advance bytesHash) .start

/-- It succeeds and is recorded; the caller of a second one gives up, and its job fails. -/
def secondGivenUp : DeliveryWorld :=
  (sawSuccess 0 :: deliveryUpToJob 1 1 [.null] (.bool true) ++
      [DeliveryEvent.giveUp 1, DeliveryEvent.settle 1 false]).foldl (DeliveryWorld.advance bytesHash)
    (firstWaits.advance bytesHash (.settle 0 true))

theorem recordIsModel_secondGivenUp :
    (secondGivenUp.models (js "sales", js "fabric")).map ModelContent.revision = some 1 ∧
      secondGivenUp.RecordIsModel bytesHash (js "sales", js "fabric") := by
  have hfirst : ((deliveryMachine bytesHash).restrict DeliveryWorld.OnTime).Reachable firstWaits :=
    reachable_foldl .start (by simp [deliveryUpToJob, DeliveryWorld.OnTime])
  have htime : firstWaits.OnTime (.settle 0 true) := by
    refine ⟨⟨0, rfl⟩, fun job hjob session other hother _ => ?_⟩
    match session with
    | 0 =>
        obtain rfl := Option.some.inj hother
        decide
    | n + 1 => cases hother
  have hsecond : ((deliveryMachine bytesHash).restrict DeliveryWorld.OnTime).Reachable secondGivenUp :=
    reachable_foldl (reachable_advance hfirst htime)
      (by simp [sawSuccess, deliveryUpToJob, DeliveryWorld.OnTime])
  refine ⟨by decide, DeliveryWorld.recordIsModel hsecond _ ⟨fun session call hcall => ?_, fun jobId job hjob _ => ?_⟩⟩
  · match session with
    | 0 => cases hcall
    | 1 => cases hcall
    | n + 2 => cases hcall
  · match jobId with
    | 0 =>
        obtain rfl := Option.some.inj hjob
        decide
    | 1 =>
        obtain rfl := Option.some.inj hjob
        decide
    | n + 2 => cases hjob

/-- Two deliveries succeed one after the other, and are recorded the other way round. -/
def recordedLate : List DeliveryEvent :=
  deliveryUpToJob 0 0 [] .null ++ deliveryUpToJob 1 1 [.null] (.bool true) ++
    [DeliveryEvent.settle 0 true, DeliveryEvent.settle 1 true, sawSuccess 1, sawSuccess 0]

theorem not_recordIsModel_recordedLate : ¬ ∀ (sha256 : List UInt8 → Text) (w : DeliveryWorld),
    (deliveryMachine sha256).Reachable w → ∀ key, w.Quiescent key → w.RecordIsModel sha256 key := by
  intro hlaw
  have hreachable : (deliveryMachine bytesHash).Reachable ((deliveryMachine bytesHash).run recordedLate) :=
    Machine.reachable_run _ _
  have hquiescent : ((deliveryMachine bytesHash).run recordedLate).Quiescent (js "sales", js "fabric") := by
    refine ⟨fun session call hcall => ?_, fun jobId job hjob _ => ?_⟩
    · match session with
      | 0 => cases hcall
      | 1 => cases hcall
      | n + 2 => cases hcall
    · match jobId with
      | 0 =>
          obtain rfl := Option.some.inj hjob
          decide
      | 1 =>
          obtain rfl := Option.some.inj hjob
          decide
      | n + 2 => cases hjob
  have hheld := congrArg (Option.map ModelContent.revision)
    (hlaw bytesHash _ hreachable _ hquiescent).held
  revert hheld
  decide

end ContextLayer
