import ContextLayer.Proof.JobIds
import ContextLayer.Reenqueue

/-!
# Chains go forward

An enqueue can answer with a job that was queued already, and that job may be old. It is not older than the dead
job it replaces: behind a live batch job the younger ones of its key wait, and when it goes back to the queue it
takes over the one that still does. None of them has been dead by then.
-/

namespace ContextLayer

open Text Transaction

variable {ulids : List Text} {accepted : Multiset Trigger} {jobs jobs' rest : Multiset JobRow}
  {row row' : JobRow} {Before : Text → Text → Prop}

/-! ### The younger ones wait -/

/-- What an older batch job says of a younger one of its key. -/
def Waits (Before : Text → Text → Prop) (e d : JobRow) : Prop :=
  Before e.jobId d.jobId → e.jobClass = .batch → d.jobClass = .batch → d.dedupeKey = e.dedupeKey →
    (e.state = .queued → d.state = .cancelled) ∧
      (e.state.live = true → d.state = .queued ∨ d.state = .cancelled)

def AllWait (Before : Text → Text → Prop) (jobs : Multiset JobRow) : Prop :=
  ∀ e ∈ jobs, ∀ d ∈ jobs, Waits Before e d

theorem allWait_cons (hirrefl : ∀ id, ¬ Before id id) : AllWait Before (row ::ₘ rest) ↔
    (∀ q ∈ rest, Waits Before row q ∧ Waits Before q row) ∧ AllWait Before rest := by
  constructor
  · intro h
    have hself := Multiset.mem_cons_self row rest
    refine ⟨fun q hq => ?_, fun e he d hd => h e (Multiset.mem_cons_of_mem he) d (Multiset.mem_cons_of_mem hd)⟩
    exact ⟨h row hself q (Multiset.mem_cons_of_mem hq), h q (Multiset.mem_cons_of_mem hq) row hself⟩
  · rintro ⟨hrow, hrest⟩ e he d hd
    rcases Multiset.mem_cons.mp he with heq | he'
    · rcases Multiset.mem_cons.mp hd with heq' | hd'
      · intro hbefore
        rw [heq, heq'] at hbefore
        exact absurd hbefore (hirrefl _)
      · exact heq ▸ (hrow d hd').1
    · rcases Multiset.mem_cons.mp hd with heq' | hd'
      · exact heq' ▸ (hrow e he').2
      · exact hrest e he' d hd'

/-- A job that has neither waited nor run says nothing of the younger ones. -/
theorem Waits.of_ended {e d : JobRow} (hqueued : e.state ≠ .queued) (hlive : e.state.live = false) :
    Waits Before e d := by
  intro _ _ _ _
  exact ⟨fun h => absurd h hqueued, fun h => absurd (hlive.symm.trans h) Bool.false_ne_true⟩

/-- A live job has no older one of its key that waits or runs. -/
theorem Waits.of_live {e : JobRow} (h : Waits Before e row) (hlive : row.state.live = true)
    (hsame : SameJob row row') : Waits Before e row' := by
  intro hbefore he hd hkey
  rw [hsame.jobId] at hbefore
  rw [hsame.jobClass] at hd
  rw [hsame.key] at hkey
  obtain ⟨hqueued, hlive'⟩ := h hbefore he hd hkey
  constructor
  · intro hstate
    rw [hqueued hstate] at hlive
    cases hlive
  · intro hstate
    rcases hlive' hstate with heq | heq
    · rw [heq] at hlive
      cases hlive
    · rw [heq] at hlive
      cases hlive

theorem Waits.congr {e e' d d' : JobRow} (h : Waits Before e d) (he : SameJob e e') (hd : SameJob d d')
    (hestate : e'.state = e.state) (hdstate : d'.state = d.state) : Waits Before e' d' := by
  intro hbefore hebatch hdbatch hkey
  rw [he.jobId, hd.jobId] at hbefore
  rw [he.jobClass] at hebatch
  rw [hd.jobClass] at hdbatch
  rw [hd.key, he.key] at hkey
  rw [hestate, hdstate]
  exact h hbefore hebatch hdbatch hkey

theorem RowStep.waits (hstep : RowStep ulids rest row row') (hsame : SameJob row row') {q : JobRow} (hq : q ∈ rest)
    (h : Waits Before row q ∧ Waits Before q row) : Waits Before row' q ∧ Waits Before q row' := by
  cases hstep with
  | claim token _ hqueued _ hidle hlive _ =>
      constructor
      · intro hbefore hrow hbatch hkey
        rw [hsame.jobId] at hbefore
        rw [hsame.jobClass] at hrow
        rw [hsame.key] at hkey
        refine ⟨fun hstate => ?_, fun _ => Or.inr ((h.1 hbefore hrow hbatch hkey).1 hqueued)⟩
        rw [hstate] at hlive
        cases hlive
      · intro hbefore hbatch hrow hkey
        rw [hsame.jobId] at hbefore
        rw [hsame.jobClass] at hrow
        rw [hsame.key] at hkey
        obtain ⟨hq_queued, -⟩ := h.2 hbefore hbatch hrow hkey
        constructor
        · intro hstate
          cases hqueued.symm.trans (hq_queued hstate)
        · intro hstate
          exact absurd ⟨hstate, hbatch, hkey.symm⟩ (hidle q hq)
  | work hlive hlive' _ =>
      refine ⟨?_, h.2.of_live hlive hsame⟩
      intro hbefore hrow hbatch hkey
      rw [hsame.jobId] at hbefore
      rw [hsame.jobClass] at hrow
      rw [hsame.key] at hkey
      refine ⟨fun hstate => ?_, fun _ => (h.1 hbefore hrow hbatch hkey).2 hlive⟩
      rw [hstate] at hlive'
      cases hlive'
  | requeue hlive hqueued _ hfree =>
      refine ⟨?_, h.2.of_live hlive hsame⟩
      intro hbefore hrow hbatch hkey
      rw [hsame.jobId] at hbefore
      rw [hsame.jobClass] at hrow
      rw [hsame.key] at hkey
      constructor
      · intro _
        refine ((h.1 hbefore hrow hbatch hkey).2 hlive).resolve_left fun hq_queued => ?_
        exact hfree hrow q hq ⟨hq_queued, hbatch, hkey⟩
      · intro hlive'
        rw [hqueued] at hlive'
        cases hlive'
  | finish _ hterminal _ _ hserved =>
      constructor
      · refine Waits.of_ended ?_ (JobState.live_of_terminal hterminal)
        intro hqueued
        rw [hqueued] at hterminal
        cases hterminal
      · by_cases hcancelled : row'.state = .cancelled
        · intro _ _ _ _
          exact ⟨fun _ => hcancelled, fun _ => Or.inr hcancelled⟩
        · exact h.2.of_live (hserved hcancelled) hsame
  | annotate hstate _ _ =>
      exact ⟨h.1.congr hsame (.refl q) hstate rfl, h.2.congr (.refl q) hsame rfl hstate⟩

/-- **The younger ones wait** through every rule that accepts nothing new. -/
theorem JobStep.allWait (hirrefl : ∀ id, ¬ Before id id) (hstep : JobStep ulids accepted jobs jobs')
    (hnone : accepted = 0) (h : AllWait Before jobs) : AllWait Before jobs' := by
  cases hstep with
  | insert => cases Multiset.singleton_ne_zero _ hnone
  | merge => cases Multiset.singleton_ne_zero _ hnone
  | change hsame _ hrow =>
      rw [allWait_cons hirrefl] at h ⊢
      exact ⟨fun q hq => hrow.waits hsame.toSameJob hq (h.1 q hq), h.2⟩
  | @absorb rest row row' follower hsame hlive _ hfree hqueued htoken _ =>
      rw [allWait_cons hirrefl, allWait_cons hirrefl] at h
      rw [allWait_cons hirrefl]
      refine ⟨fun q hq => ?_, h.2.2⟩
      have hstep : RowStep ulids rest row row' := .requeue hlive.1 hqueued htoken fun _ => hfree
      exact hstep.waits hsame.toSameJob hq (h.2.1 q hq)
  | @coalesce rest row row' survivor survivor' hsame hsame' hlive hsurvivor hstate _ _ hqueued _ _ _ =>
      rw [allWait_cons hirrefl, allWait_cons hirrefl] at h ⊢
      obtain ⟨hsurvivorWaits, hrowWaits, hrest⟩ := h
      have hsurvivorState : survivor'.state = survivor.state := hqueued.trans hsurvivor.1.symm
      have hended : ∀ q, Waits Before row' q := fun q =>
        Waits.of_ended (by rw [hstate]; decide) (by rw [hstate]; rfl)
      refine ⟨fun q hq => ?_, fun q hq => ⟨hended q, (hrowWaits q hq).2.of_live hlive.1 hsame.toSameJob⟩, hrest⟩
      rcases Multiset.mem_cons.mp hq with rfl | hq
      · refine ⟨?_, hended survivor'⟩
        have hback := (hsurvivorWaits row (Multiset.mem_cons_self row rest)).1.of_live hlive.1 hsame.toSameJob
        exact hback.congr hsame'.toSameJob (.refl _) hsurvivorState rfl
      · obtain ⟨hwaits, hwaits'⟩ := hsurvivorWaits q (Multiset.mem_cons_of_mem hq)
        exact ⟨hwaits.congr hsame'.toSameJob (.refl q) hsurvivorState rfl,
          hwaits'.congr (.refl q) hsame'.toSameJob rfl hsurvivorState⟩

theorem JobRun.allWait (hirrefl : ∀ id, ¬ Before id id) (hrun : JobRun ulids accepted jobs jobs')
    (hnone : accepted = 0) (h : AllWait Before jobs) : AllWait Before jobs' := by
  induction hrun with
  | refl _ => exact h
  | step _ hstep ih =>
      obtain ⟨hnone₁, hnone₂⟩ := add_eq_zero.mp hnone
      exact hstep.allWait hirrefl hnone₂ (ih hnone₁ h)

/-! ### What an enqueue does to the jobs -/

/-- An enqueue adds its trigger to a job queued under its key, or its row behind the others. -/
theorem insertJob_spec {t t' : JobTable} {row : JobRow} {result : Enqueued}
    (h : insertJob row t = some (result, t')) :
    (∃ existing rest, t.bag = existing ::ₘ rest ∧ existing.QueuedBatch row.dedupeKey ∧ row.jobClass = .batch ∧
        result = ⟨existing.jobId, true⟩ ∧ t'.bag = (appendTriggers row.triggers).apply existing ::ₘ rest) ∨
      (result = ⟨row.jobId, false⟩ ∧ t'.bag = row ::ₘ t.bag ∧
        (row.jobClass = .batch → Free row.dedupeKey t.bag)) := by
  have hinsert : (t.insert row).map (fun t => (⟨row.jobId, false⟩, t)) = some (result, t') →
      result = ⟨row.jobId, false⟩ ∧ t'.bag = row ::ₘ t.bag := by
    intro hmap
    obtain ⟨t₁, ht₁, heq⟩ := Option.map_eq_some_iff.mp hmap
    obtain ⟨rfl, rfl⟩ := Prod.mk.inj heq
    exact ⟨rfl, Table.bag_insert ht₁⟩
  unfold insertJob at h
  split at h
  case h_1 existing hclass hfind =>
    left
    obtain ⟨t₁, ht₁, heq⟩ := Option.map_eq_some_iff.mp h
    obtain ⟨rfl, rfl⟩ := Prod.mk.inj heq
    have hkey : existing.QueuedBatch row.dedupeKey := by simpa using List.find?_some hfind
    obtain ⟨rest, hbag⟩ := exists_bag (List.mem_of_find?_eq_some hfind)
    exact ⟨existing, rest, hbag, hkey, hclass, rfl, Table.bag_update ht₁ hbag⟩
  case h_2 hother =>
    right
    obtain ⟨hresult, hbag⟩ := hinsert h
    refine ⟨hresult, hbag, fun hbatch r hr hr_queued => ?_⟩
    cases hfind : t.rows.find? fun r => decide (r.QueuedBatch row.dedupeKey) with
    | none => exact List.find?_eq_none.mp hfind r (Table.mem_bag.mp hr) (decide_eq_true hr_queued)
    | some existing => exact hother existing hbatch hfind

variable {L : Packages} {cfg : CoreConfig}

theorem validateEnqueue_spec {clock : Nat} {req : EnqueueRequest} {v : ValidEnqueue}
    (h : validateEnqueue L cfg clock req = .ok v) : req.spec = some v.spec := by
  unfold validateEnqueue at h
  simp only [Option.pure_def, Option.bind_eq_bind] at h
  split at h
  · rename_i v' hv
    obtain rfl := Except.ok.inj h
    simp only [Option.bind_eq_some_iff, Option.some.injEq] at hv
    obtain ⟨_, hspec, _, _, _, _, _, _, _, _, _, _, _, _, _, _, _, _, _, _, rfl⟩ := hv
    exact hspec
  · cases h

/-- What is enqueued for a dead job is of its type and system. -/
theorem key_of_reenqueueRequest {dead : JobRow} {registration : SyncSystem} {actor : Text} {clock : Nat}
    {v : ValidEnqueue} (h : validateEnqueue L cfg clock (reenqueueRequest dead registration actor) = .ok v)
    (jobId : Text) (now : Nat) : (v.row jobId now).dedupeKey = dead.dedupeKey := by
  have hsystem := validateEnqueue_system L cfg h
  have hspec := validateEnqueue_spec h
  have htype : v.spec.type = dead.type := by
    have hfind : JOB_TYPES.find? (fun s => decide (s.type = dead.type)) = some v.spec := hspec
    simpa using List.find?_some hfind
  have hsame : v.system = dead.system := by
    have hstr : (if dead.system = [] then none else some dead.system) = some v.system := hsystem
    by_cases hempty : dead.system = []
    · rw [if_pos hempty] at hstr
      cases hstr
    · rw [if_neg hempty] at hstr
      exact (Option.some.inj hstr).symm
  exact Prod.ext hsame htype

/-! ### The invariant -/

/-- The class of a job is that of its type. -/
def JobRow.Classed (r : JobRow) : Prop := ⟨r.type, r.jobClass⟩ ∈ JOB_TYPES

theorem JobRow.Classed.jobClass_eq {r r' : JobRow} (h : r.Classed) (h' : r'.Classed) (htype : r.type = r'.type) :
    r.jobClass = r'.jobClass := by
  have hfunctional : ∀ spec ∈ JOB_TYPES, ∀ spec' ∈ JOB_TYPES, spec.type = spec'.type →
      spec.jobClass = spec'.jobClass := by decide
  exact hfunctional _ h _ h' htype

theorem Keeps.classed {r r' : JobRow} (h : Keeps r r') (hr : r.Classed) : r'.Classed := by
  unfold JobRow.Classed
  rw [h.jobClass, show r'.type = r.type from (Prod.mk.inj h.key).2]
  exact hr

namespace Chains

structure Sound (s : Chains) : Prop where
  queue : s.queue.Sound
  drawn : ∀ id ∈ s.created, id ∈ s.queue.drawn
  created : ∀ r ∈ s.queue.jobs, r.jobId ∈ s.created
  classed : ∀ r ∈ s.queue.jobs, r.Classed
  waits : AllWait s.Before s.queue.jobs
  forward : ∀ r ∈ s.queue.jobs, ∀ id, r.reenqueuedAs = some id → s.Before r.jobId id

variable {s : Chains}

theorem not_before_self (s : Chains) (id : Text) : ¬ s.Before id id := fun h => lt_irrefl _ h.2

/-- The order of what is created does not change when more is. -/
theorem before_append {queue : QueueState} {new : List Text} {id id' : Text} (hid' : id' ∈ s.created) :
    (⟨queue, s.created ++ new⟩ : Chains).Before id id' ↔ s.Before id id' := by
  unfold Before
  dsimp only
  rw [List.idxOf_append_of_mem hid']
  by_cases hid : id ∈ s.created
  · rw [List.idxOf_append_of_mem hid]
    exact and_congr_left fun _ => iff_of_true (List.mem_append_left _ hid') hid'
  · have hlt := List.idxOf_lt_length_of_mem hid'
    refine iff_of_false (fun h => ?_) fun h => ?_
    · have hlast := h.2
      rw [List.idxOf_append_of_notMem hid] at hlast
      omega
    · have hlast := h.2
      rw [List.idxOf_eq_length hid] at hlast
      omega

theorem before_new {queue : QueueState} {id new : Text} (hid : id ∈ s.created) (hnew : new ∉ s.created) :
    (⟨queue, s.created ++ [new]⟩ : Chains).Before id new := by
  refine ⟨List.mem_append_right _ (List.mem_singleton_self _), ?_⟩
  dsimp only
  rw [List.idxOf_append_of_mem hid, List.idxOf_append_of_notMem hnew]
  exact (List.idxOf_lt_length_of_mem hid).trans_le (Nat.le_add_right _ _)

theorem not_before_old {queue : QueueState} {id new : Text} (hid : id ∈ s.created) (hnew : new ∉ s.created) :
    ¬ (⟨queue, s.created ++ [new]⟩ : Chains).Before new id := by
  rintro ⟨-, hlt⟩
  have hbefore : (⟨queue, s.created ++ [new]⟩ : Chains).Before id new := before_new hid hnew
  exact lt_asymm hlt hbefore.2

/-! ### One step -/

/-- What creates no job and only keeps the old ones keeps the invariant. -/
theorem Sound.of_keeps (h : s.Sound) {queue : QueueState} (hqueue : queue.Sound)
    (hdrawn : ∀ id ∈ s.queue.drawn, id ∈ queue.drawn) (hkept : ∀ r' ∈ queue.jobs, ∃ r ∈ s.queue.jobs, Keeps r r')
    (hwaits : AllWait s.Before queue.jobs) : (⟨queue, s.created⟩ : Chains).Sound where
  queue := hqueue
  drawn id hid := hdrawn id (h.drawn id hid)
  created r' hr' := by
    obtain ⟨r, hr, hkeeps⟩ := hkept r' hr'
    rw [hkeeps.jobId]
    exact h.created r hr
  classed r' hr' := by
    obtain ⟨r, hr, hkeeps⟩ := hkept r' hr'
    exact hkeeps.classed (h.classed r hr)
  waits := hwaits
  forward r' hr' id hpointer := by
    obtain ⟨r, hr, hkeeps⟩ := hkept r' hr'
    rw [hkeeps.pointer] at hpointer
    rw [hkeeps.jobId]
    exact h.forward r hr id hpointer

/-- A job that keeps its state keeps the others waiting. -/
theorem allWait_of_same (hwaits : AllWait s.Before (row ::ₘ rest)) (hsame : SameJob row row')
    (hstate : row'.state = row.state) : AllWait s.Before (row' ::ₘ rest) := by
  rw [allWait_cons s.not_before_self] at hwaits ⊢
  refine ⟨fun q hq => ?_, hwaits.2⟩
  obtain ⟨hrow, hrow'⟩ := hwaits.1 q hq
  exact ⟨hrow.congr hsame (.refl q) hstate rfl, hrow'.congr (.refl q) hsame rfl hstate⟩

theorem accepted_eq_nil {c : Call} (hc : ∀ reply, c.accepted L cfg reply = []) (s : QueueState) :
    (s.perform L cfg c).accepted = s.accepted := by
  unfold QueueState.perform
  split
  · rfl
  · rw [hc, List.append_nil]

/-- A call that is no enqueue. -/
theorem Sound.perform_other (h : s.Sound) {c : Call} (hdraws : s.queue.Draws c)
    (hc : ∀ reply, c.accepted L cfg reply = []) (hinserted : c.inserted L cfg s.queue.db = []) :
    (s.perform L cfg c).Sound := by
  have hfresh : ∀ r ∈ s.queue.db.table.rows, ∀ u ∈ c.ulids, r.leaseToken ≠ some u := by
    intro r hr u hu htoken
    exact hdraws u hu (h.queue.drawn r (Table.mem_bag.mpr hr) u htoken)
  obtain ⟨new, haccepted, hrun, -⟩ := s.queue.perform_run L cfg c hfresh
  have hnew : new = [] := by
    rw [accepted_eq_nil hc] at haccepted
    exact List.self_eq_append_right.mp haccepted
  subst hnew
  have hperform : s.perform L cfg c = ⟨s.queue.perform L cfg c, s.created⟩ := by
    unfold Chains.perform
    rw [hinserted, List.append_nil]
  rw [hperform]
  refine h.of_keeps (h.queue.perform L cfg hdraws) (fun id hid => ?_) (fun r' hr' => hrun.origin rfl hr') ?_
  · rw [QueueState.perform_drawn]
    exact List.mem_append_right _ hid
  · exact hrun.allWait s.not_before_self rfl h.waits

/-- An enqueue. -/
theorem Sound.perform_enqueue (h : s.Sound) {req : EnqueueRequest} {newId : Text} {clock now : Nat}
    (hdraws : newId ∉ s.queue.drawn) :
    (s.perform L cfg (.enqueue req newId clock now)).Sound ∧
      ∀ id, (Call.enqueue req newId clock now).enqueuedId L cfg s.queue.db = some id →
        ∃ v, validateEnqueue L cfg clock req = .ok v ∧
          ((id = newId ∧ (s.perform L cfg (.enqueue req newId clock now)).created = s.created ++ [newId]) ∨
            ∃ r ∈ s.queue.jobs, r.QueuedBatch (v.row newId now).dedupeKey ∧ v.spec.jobClass = .batch ∧
              r.jobId = id) := by
  have hdraws' : s.queue.Draws (.enqueue req newId clock now) := by
    intro u hu
    obtain rfl := List.mem_singleton.mp hu
    exact hdraws
  have hsound := h.queue.perform L cfg hdraws'
  have hdrawn : ∀ id ∈ s.queue.drawn, id ∈ (s.queue.perform L cfg (.enqueue req newId clock now)).drawn := by
    intro id hid
    rw [QueueState.perform_drawn]
    exact List.mem_append_right _ hid
  have hnotNew : newId ∉ s.created := fun hid => hdraws (h.drawn newId hid)
  rcases enqueue_cases L cfg req newId clock now s.queue.db with
    hnone | ⟨problems, hinvalid⟩ | ⟨v, result, t', hvalid, hinsert, henqueued⟩
  · have hperform : s.perform L cfg (.enqueue req newId clock now) =
        ⟨s.queue.perform L cfg (.enqueue req newId clock now), s.created⟩ := by
      simp only [Chains.perform, Call.inserted, hnone, List.append_nil]
    have hjobs : (s.queue.perform L cfg (.enqueue req newId clock now)).jobs = s.queue.jobs := by
      rw [QueueState.perform_of_none (by rw [exec_enqueue, hnone]; rfl)]
      rfl
    refine ⟨?_, fun id hid => ?_⟩
    · rw [hperform]
      exact h.of_keeps hsound hdrawn (fun r hr => ⟨r, hjobs ▸ hr, .refl r⟩) (hjobs ▸ h.waits)
    · simp only [Call.enqueuedId, hnone, reduceCtorEq] at hid
  · have hperform : s.perform L cfg (.enqueue req newId clock now) =
        ⟨s.queue.perform L cfg (.enqueue req newId clock now), s.created⟩ := by
      simp only [Chains.perform, Call.inserted, hinvalid, List.append_nil]
    have hjobs : (s.queue.perform L cfg (.enqueue req newId clock now)).jobs = s.queue.jobs := by
      rw [QueueState.perform_of_some (by rw [exec_enqueue, hinvalid]; rfl)]
      rfl
    refine ⟨?_, fun id hid => ?_⟩
    · rw [hperform]
      exact h.of_keeps hsound hdrawn (fun r hr => ⟨r, hjobs ▸ hr, .refl r⟩) (hjobs ▸ h.waits)
    · simp only [Call.enqueuedId, hinvalid, reduceCtorEq] at hid
  · have hjobs : (s.queue.perform L cfg (.enqueue req newId clock now)).jobs = t'.bag := by
      rw [QueueState.perform_of_some (by rw [exec_enqueue, henqueued]; rfl)]
      rfl
    have hreturned : ∀ id, (Call.enqueue req newId clock now).enqueuedId L cfg s.queue.db = some id →
        id = result.jobId := by
      intro id hid
      simp only [Call.enqueuedId, henqueued, Option.some.injEq] at hid
      exact hid.symm
    rcases insertJob_spec hinsert with
      ⟨existing, rest, hbag, hkey, hclass, rfl, hbag'⟩ | ⟨rfl, hbag', hfree⟩
    · have hperform : s.perform L cfg (.enqueue req newId clock now) =
          ⟨s.queue.perform L cfg (.enqueue req newId clock now), s.created⟩ := by
        simp only [Chains.perform, Call.inserted, henqueued, if_true, List.append_nil]
      have hold : s.queue.jobs = existing ::ₘ rest := hbag
      have hkeeps : Keeps existing ((appendTriggers (v.row newId now).triggers).apply existing) :=
        ⟨⟨rfl, rfl, rfl⟩, rfl⟩
      refine ⟨?_, fun id hid => ⟨v, hvalid, Or.inr ⟨existing, ?_, hkey, hclass, (hreturned id hid).symm⟩⟩⟩
      · rw [hperform]
        refine h.of_keeps hsound hdrawn (fun r hr => ?_) ?_
        · rw [hjobs, hbag'] at hr
          rcases Multiset.mem_cons.mp hr with rfl | hr
          · exact ⟨existing, hold ▸ Multiset.mem_cons_self existing rest, hkeeps⟩
          · exact ⟨r, hold ▸ Multiset.mem_cons_of_mem hr, .refl r⟩
        · rw [hjobs, hbag']
          exact allWait_of_same (hold ▸ h.waits) hkeeps.toSameJob rfl
      · rw [hold]
        exact Multiset.mem_cons_self existing rest
    · have hperform : s.perform L cfg (.enqueue req newId clock now) =
          ⟨s.queue.perform L cfg (.enqueue req newId clock now), s.created ++ [newId]⟩ := by
        simp only [Chains.perform, Call.inserted, henqueued, Bool.false_eq_true, if_false]
        rfl
      refine ⟨?_, fun id hid => ⟨v, hvalid, Or.inl ⟨hreturned id hid, by rw [hperform]⟩⟩⟩
      rw [hperform]
      have hspec : v.spec ∈ JOB_TYPES := by
        have hfind := validateEnqueue_spec hvalid
        unfold EnqueueRequest.spec at hfind
        obtain ⟨type, -, hfind⟩ := Option.bind_eq_some_iff.mp hfind
        exact List.mem_of_find?_eq_some hfind
      have hnew : ∀ r ∈ (s.queue.perform L cfg (.enqueue req newId clock now)).jobs,
          r = v.row newId now ∨ r ∈ s.queue.jobs := by
        intro r hr
        rw [hjobs, hbag'] at hr
        exact Multiset.mem_cons.mp hr
      constructor
      · exact hsound
      · intro id hid
        rcases List.mem_append.mp hid with hid | hid
        · exact hdrawn id (h.drawn id hid)
        · rw [QueueState.perform_drawn]
          exact List.mem_append_left _ hid
      · intro r hr
        rcases hnew r hr with rfl | hr
        · exact List.mem_append_right _ (List.mem_singleton_self _)
        · exact List.mem_append_left _ (h.created r hr)
      · intro r hr
        rcases hnew r hr with rfl | hr
        · exact hspec
        · exact h.classed r hr
      · intro e he d hd
        rcases hnew e he with rfl | he
        · rcases hnew d hd with rfl | hd
          · exact fun hbefore => absurd hbefore (not_before_self _ _)
          · exact fun hbefore => absurd hbefore (not_before_old (h.created d hd) hnotNew)
        · rcases hnew d hd with rfl | hd
          · intro _ hebatch hdbatch hkey
            refine ⟨fun hqueued => ?_, fun _ => Or.inl rfl⟩
            exact absurd ⟨hqueued, hebatch, hkey.symm⟩ (hfree hdbatch e he)
          · intro hbefore
            exact h.waits e he d hd ((before_append (h.created d hd)).mp hbefore)
      · intro r hr id hpointer
        rcases hnew r hr with rfl | hr
        · cases hpointer
        · have hbefore := h.forward r hr id hpointer
          exact (before_append hbefore.1).mpr hbefore

/-- Pointing a job at a younger one. -/
theorem Sound.point (h : s.Sound) {deadId id : Text} (hbefore : s.Before deadId id) : (s.point deadId id).Sound := by
  have hqueue := h.queue.pointAt deadId id
  rcases pointAt_cases deadId id s.queue.db with hsame | ⟨row, rest, hid, hbag, hpoint⟩
  · have hjobs : (s.point deadId id).queue.jobs = s.queue.jobs := hsame
    exact h.of_keeps hqueue (fun _ h => h) (fun r hr => ⟨r, hjobs ▸ hr, .refl r⟩) (hjobs ▸ h.waits)
  · have hold : s.queue.jobs = row ::ₘ rest := hbag
    have hjobs : (s.point deadId id).queue.jobs = (setReenqueuedAs id).apply row ::ₘ rest := hpoint
    have hrowSame : SameJob row ((setReenqueuedAs id).apply row) := ⟨rfl, rfl, rfl⟩
    have hmem : ∀ r ∈ (s.point deadId id).queue.jobs,
        r = (setReenqueuedAs id).apply row ∨ r ∈ s.queue.jobs := by
      intro r hr
      rw [hjobs] at hr
      rcases Multiset.mem_cons.mp hr with rfl | hr
      · exact Or.inl rfl
      · exact Or.inr (hold ▸ Multiset.mem_cons_of_mem hr)
    have hrow : row ∈ s.queue.jobs := hold ▸ Multiset.mem_cons_self row rest
    constructor
    · exact hqueue
    · exact h.drawn
    · intro r hr
      rcases hmem r hr with rfl | hr
      · exact h.created row hrow
      · exact h.created r hr
    · intro r hr
      rcases hmem r hr with rfl | hr
      · exact h.classed row hrow
      · exact h.classed r hr
    · have hwaits := h.waits
      rw [hold] at hwaits
      rw [hjobs]
      exact allWait_of_same hwaits hrowSame rfl
    · intro r hr id' hpointer
      rw [hjobs] at hr
      rcases Multiset.mem_cons.mp hr with rfl | hr
      · obtain rfl := Option.some.inj hpointer
        show s.Before row.jobId id
        rw [hid]
        exact hbefore
      · exact h.forward r (hold ▸ Multiset.mem_cons_of_mem hr) id' hpointer

theorem checkReenqueue_eq_ok {row : Option JobRow} {dead : JobRow} (h : checkReenqueue row = .ok dead) :
    row = some dead ∧ dead.state = .deadLettered ∧ dead.reenqueuedAs = none ∧ dead.type ∈ REBUILDABLE_TYPES := by
  unfold checkReenqueue at h
  cases row with
  | none => cases h
  | some row =>
      dsimp only at h
      by_cases hstate : row.state ≠ .deadLettered
      · rw [if_pos hstate] at h
        cases h
      · rw [if_neg hstate] at h
        cases hpointer : row.reenqueuedAs with
        | some id =>
            rw [hpointer] at h
            cases h
        | none =>
            rw [hpointer] at h
            dsimp only at h
            by_cases htype : row.type ∈ REBUILDABLE_TYPES
            · rw [if_pos htype] at h
              obtain rfl := Except.ok.inj h
              exact ⟨rfl, not_not.mp hstate, hpointer, htype⟩
            · rw [if_neg htype] at h
              cases h

/-- **The replacement is younger**, also where it was queued already. -/
theorem Sound.before_enqueued (h : s.Sound) {dead : JobRow} (hdead : dead ∈ s.queue.jobs)
    (hstate : dead.state = .deadLettered) {registration : SyncSystem} {actor newId id : Text} {clock now : Nat}
    (hdraws : newId ∉ s.queue.drawn)
    (hid : (Call.enqueue (reenqueueRequest dead registration actor) newId clock now).enqueuedId L cfg s.queue.db =
      some id) :
    (s.perform L cfg (.enqueue (reenqueueRequest dead registration actor) newId clock now)).Before dead.jobId id := by
  have hcreated := h.created dead hdead
  have hnotNew : newId ∉ s.created := fun hmem => hdraws (h.drawn newId hmem)
  obtain ⟨v, hvalid, ⟨rfl, happend⟩ | ⟨existing, hexisting, hqueued, hbatch, rfl⟩⟩ :=
    (h.perform_enqueue hdraws).2 id hid
  · have hnew : (⟨s.queue, s.created ++ [id]⟩ : Chains).Before dead.jobId id := before_new hcreated hnotNew
    unfold Before at hnew ⊢
    rwa [happend]
  · have hkey := key_of_reenqueueRequest hvalid newId now
    have hclass : dead.jobClass = .batch := by
      have htype : dead.type = existing.type := by
        have := hqueued.2.2.trans hkey
        exact (Prod.mk.inj this).2.symm
      rw [(h.classed dead hdead).jobClass_eq (h.classed existing hexisting) htype]
      exact hqueued.2.1
    have hne : dead.jobId ≠ existing.jobId := by
      intro heq
      have := s.queue.db.table.eq_of_key (Table.mem_bag.mp hdead) (Table.mem_bag.mp hexisting) heq
      rw [this, hqueued.1] at hstate
      cases hstate
    have hexistingCreated := h.created existing hexisting
    have hbefore : s.Before dead.jobId existing.jobId := by
      refine ⟨hexistingCreated, lt_of_le_of_ne (not_lt.mp fun hlt => ?_) fun heq => ?_⟩
      · have hwaits := h.waits existing hexisting dead hdead ⟨hcreated, hlt⟩ hqueued.2.1 hclass
          (hkey.symm.trans hqueued.2.2.symm)
        rw [hwaits.1 hqueued.1] at hstate
        cases hstate
      · exact hne (List.idxOf_inj hcreated |>.mp heq)
    exact (before_append hexistingCreated).mpr hbefore

/-- **One act.** -/
theorem Sound.next (h : s.Sound) {a : ChainAct} (hdraws : ∀ u ∈ a.ulids, u ∉ s.queue.drawn) :
    (s.next L cfg a).Sound := by
  have henqueue : ∀ {req : EnqueueRequest} {newId : Text} {clock now : Nat}, newId ∉ s.queue.drawn →
      (s.perform L cfg (.enqueue req newId clock now)).Sound := fun h' => (h.perform_enqueue h').1
  cases a with
  | call c =>
      show (s.perform L cfg c).Sound
      cases c with
      | enqueue req jobId clock now => exact henqueue (hdraws jobId (List.mem_singleton_self _))
      | claimOnce args now token locked => exact h.perform_other hdraws (fun _ => rfl) rfl
      | transact call => exact h.perform_other hdraws (fun _ => rfl) rfl
  | reenqueue jobId registration actor newId clock now =>
      unfold Chains.next
      cases hcall : s.callOf (.reenqueue jobId registration actor newId clock now) with
      | none => exact h
      | some c =>
          simp only [callOf, Option.bind_eq_bind, Option.bind_eq_some_iff, Option.pure_def,
            Option.some.injEq] at hcall
          obtain ⟨dead, hcheck, registration', -, rfl⟩ := hcall
          have hok : checkReenqueue (getJob jobId s.queue.db.table.rows) = .ok dead := by
            cases hrow : checkReenqueue (getJob jobId s.queue.db.table.rows) with
            | error refusal =>
                rw [hrow] at hcheck
                cases hcheck
            | ok row =>
                rw [hrow] at hcheck
                rw [Option.some.inj hcheck]
          obtain ⟨hrow, hstate, -, -⟩ := checkReenqueue_eq_ok hok
          obtain ⟨hdead, rfl⟩ := mem_of_getJob hrow
          have hnew := hdraws newId (List.mem_singleton_self _)
          dsimp only
          cases hid : (Call.enqueue (reenqueueRequest dead registration' actor) newId clock now).enqueuedId L cfg
              s.queue.db with
          | none => exact henqueue hnew
          | some id =>
              exact (henqueue hnew).point (h.before_enqueued (Table.mem_bag.mpr hdead) hstate hnew hid)

theorem sound_start : Sound ⟨.start, []⟩ where
  queue := QueueState.sound_start
  drawn _ hid := absurd hid List.not_mem_nil
  created _ hr := absurd hr (Multiset.notMem_zero _)
  classed _ hr := absurd hr (Multiset.notMem_zero _)
  waits _ he := absurd he (Multiset.notMem_zero _)
  forward _ hr := absurd hr (Multiset.notMem_zero _)

theorem Reachable.sound (h : Reachable L cfg s) : s.Sound := by
  induction h with
  | start => exact sound_start
  | act a _ hdraws ih => exact ih.next hdraws

/-! ### Walks -/

/-- What a walk visits is the job it starts from, or younger. -/
theorem Sound.le_of_mem_walk (h : s.Sound) (fuel : Nat) (id : Text) :
    ∀ r ∈ chainWalk s.queue.db.table.rows fuel id, s.created.idxOf id ≤ s.created.idxOf r.jobId := by
  induction fuel generalizing id with
  | zero =>
      intro r hr
      unfold chainWalk at hr
      cases hrow : getJob id s.queue.db.table.rows with
      | none =>
          rw [hrow] at hr
          cases hr
      | some row =>
          rw [hrow] at hr
          obtain rfl := List.mem_singleton.mp hr
          rw [(mem_of_getJob hrow).2]
  | succ fuel ih =>
      intro r hr
      unfold chainWalk at hr
      cases hrow : getJob id s.queue.db.table.rows with
      | none =>
          rw [hrow] at hr
          cases hr
      | some row =>
          obtain ⟨hmem, hid⟩ := mem_of_getJob hrow
          rw [hrow] at hr
          rcases List.mem_cons.mp hr with rfl | hr
          · rw [hid]
          · cases hpointer : row.reenqueuedAs with
            | none =>
                rw [hpointer] at hr
                cases hr
            | some next =>
                rw [hpointer] at hr
                have hbefore := (h.forward row (Table.mem_bag.mpr hmem) next hpointer).2
                rw [hid] at hbefore
                exact hbefore.le.trans (ih next r hr)

theorem Sound.nodup_walk (h : s.Sound) (fuel : Nat) (id : Text) :
    ((chainWalk s.queue.db.table.rows fuel id).map JobRow.jobId).Nodup := by
  induction fuel generalizing id with
  | zero =>
      unfold chainWalk
      cases getJob id s.queue.db.table.rows with
      | none => exact List.nodup_nil
      | some row => exact List.nodup_singleton _
  | succ fuel ih =>
      unfold chainWalk
      cases hrow : getJob id s.queue.db.table.rows with
      | none => exact List.nodup_nil
      | some row =>
          obtain ⟨hmem, hid⟩ := mem_of_getJob hrow
          dsimp only
          cases hpointer : row.reenqueuedAs with
          | none => exact List.nodup_singleton _
          | some next =>
              refine List.nodup_cons.mpr ⟨fun hvisited => ?_, ih next⟩
              obtain ⟨r, hr, heq⟩ := List.mem_map.mp hvisited
              have hle := h.le_of_mem_walk fuel next r hr
              have hlt := (h.forward row (Table.mem_bag.mpr hmem) next hpointer).2
              rw [← heq] at hlt
              exact absurd hlt (not_lt.mpr hle)

end Chains

/-- **Chains go forward.** Whatever is called and re-enqueued in whatever order, a dead job points at one created
after it, and no walk along the pointers comes back to a job. -/
theorem chains_forward {s : Chains} (h : s.Reachable L cfg) :
    (∀ dead ∈ s.queue.db.table.rows, ∀ id, dead.reenqueuedAs = some id → s.Before dead.jobId id) ∧
      ∀ fuel id, ((chainWalk s.queue.db.table.rows fuel id).map JobRow.jobId).Nodup :=
  ⟨fun dead hdead => h.sound.forward dead (Table.mem_bag.mpr hdead), h.sound.nodup_walk⟩

/-! ### One replacement -/

def Chains.acts (L : Packages) (cfg : CoreConfig) (acts : List ChainAct) : Chains :=
  acts.foldl (fun s a => s.next L cfg a) ⟨.start, []⟩

theorem reachable_acts {acts : List ChainAct} (h : (acts.flatMap ChainAct.ulids).Nodup) :
    (Chains.acts L cfg acts).Reachable L cfg := by
  refine foldl_of_fresh (fun s : Chains => s.queue.drawn) (fun s a hs hdraws => .act a hs hdraws) ?_
    .start h fun u _ => List.not_mem_nil
  intro s a u hu
  have hperform : ∀ {c : Call}, c.ulids = a.ulids → u ∈ (s.queue.perform L cfg c).drawn →
      u ∈ a.ulids ∨ u ∈ s.queue.drawn := by
    intro c hc hmem
    rw [QueueState.perform_drawn, hc] at hmem
    exact List.mem_append.mp hmem
  cases a with
  | call c => exact hperform rfl hu
  | reenqueue jobId registration actor newId clock now =>
      unfold Chains.next at hu
      cases hcall : s.callOf (.reenqueue jobId registration actor newId clock now) with
      | none =>
          rw [hcall] at hu
          exact Or.inr hu
      | some c =>
          rw [hcall] at hu
          simp only [Chains.callOf, Option.bind_eq_bind, Option.bind_eq_some_iff, Option.pure_def,
            Option.some.injEq] at hcall
          obtain ⟨dead, -, registration', -, rfl⟩ := hcall
          dsimp only at hu
          cases hid : (Call.enqueue (reenqueueRequest dead registration' actor) newId clock now).enqueuedId L cfg
              s.queue.db with
          | none =>
              rw [hid] at hu
              exact hperform rfl hu
          | some id =>
              rw [hid] at hu
              exact hperform rfl hu

/-- A snapshot job that fails for good, and its replacement. -/
def replaced : List ChainAct :=
  [.call (.enqueue (snapshotRequest "crm" "schedule") (js "J1") 0 0),
    .call (.claimOnce snapshotRunner 1 (js "T1") fun _ => false),
    .call (.transact (.failJob (js "J1") (js "T1") { timeout with retryable := false } 2 1000)),
    .reenqueue (js "J1") (some crm) (js "ops") (js "J2") 3 3]

theorem chains_forward_replaced :
    (Chains.acts plainPackages defaultConfig replaced).Before (js "J1") (js "J2") := by
  have hpointer : ∃ dead ∈ (Chains.acts plainPackages defaultConfig replaced).queue.db.table.rows,
      dead.jobId = js "J1" ∧ dead.reenqueuedAs = some (js "J2") := by decide
  obtain ⟨dead, hdead, hid, hnext⟩ := hpointer
  rw [← hid]
  exact (chains_forward (reachable_acts (by decide))).1 dead hdead (js "J2") hnext

end ContextLayer
