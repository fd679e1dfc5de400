import ContextLayer.Proof.Chains

/-!
# One replacement

Between the check of a dead job and the update of its pointer another press may come as far. While what was enqueued
for the job still waits, the next enqueue joins it. Once a runner has claimed it, or where the class of the job never
merges, the next one is a second replacement, and the pointer goes to whichever press updates it last.
-/

namespace ContextLayer

open Text Transaction

variable {L : Packages} {cfg : CoreConfig}

/-! ### Joining what waits -/

theorem insertJob_joins {t t' : JobTable} {row existing : JobRow} {result : Enqueued}
    (h : insertJob row t = some (result, t')) (hexisting : existing ∈ t.rows)
    (hqueued : existing.QueuedBatch row.dedupeKey) (hbatch : row.jobClass = .batch) :
    result.jobId = existing.jobId := by
  rcases insertJob_spec h with ⟨other, rest, hbag, hother, -, rfl, -⟩ | ⟨-, -, hfree⟩
  · have hmem : other ∈ t.rows := Table.mem_bag.mp (hbag ▸ Multiset.mem_cons_self other rest)
    by_contra hne
    exact free_of_queued hexisting hqueued other hmem hne hother
  · exact absurd hqueued (hfree hbatch existing (Table.mem_bag.mpr hexisting))

theorem QueueState.Sound.endsStay {s : QueueState} (h : s.Sound) {c : Call} (hdraws : s.Draws c) :
    EndsStay s.jobs (s.perform L cfg c).jobs := by
  have hfresh : ∀ r ∈ s.db.table.rows, ∀ u ∈ c.ulids, r.leaseToken ≠ some u := by
    intro r hr u hu htoken
    exact hdraws u hu (h.drawn r (Table.mem_bag.mpr hr) u htoken)
  obtain ⟨new, -, hrun, -⟩ := s.perform_run L cfg c hfresh
  exact hrun.endsStay

/-! ### What a press holds -/

def DeadAt (jobs : Multiset JobRow) (jobId : Text) : Prop :=
  ∃ r ∈ jobs, r.jobId = jobId ∧ r.state = .deadLettered

def PointsAt (jobs : Multiset JobRow) (jobId id : Text) : Prop :=
  ∃ r ∈ jobs, r.jobId = jobId ∧ r.state = .deadLettered ∧ r.reenqueuedAs = some id

theorem DeadAt.stay {jobs jobs' : Multiset JobRow} {jobId : Text} (h : DeadAt jobs jobId)
    (hstay : EndsStay jobs jobs') : DeadAt jobs' jobId := by
  obtain ⟨r, hr, rfl, hdead⟩ := h
  obtain ⟨r', hr', hkeeps, hstate, -⟩ := hstay r hr (by rw [hdead]; rfl)
  exact ⟨r', hr', hkeeps.jobId, hstate.trans hdead⟩

theorem PointsAt.stay {jobs jobs' : Multiset JobRow} {jobId id : Text} (h : PointsAt jobs jobId id)
    (hstay : EndsStay jobs jobs') : PointsAt jobs' jobId id := by
  obtain ⟨r, hr, rfl, hdead, hpointer⟩ := h
  obtain ⟨r', hr', hkeeps, hstate, -⟩ := hstay r hr (by rw [hdead]; rfl)
  exact ⟨r', hr', hkeeps.jobId, hstate.trans hdead, hkeeps.pointer.trans hpointer⟩

/-- Pointing a job at another sets its pointer and no other. -/
theorem mem_pointAt (deadId id : Text) {db : Database} {r : JobRow} (hr : r ∈ db.table.bag) :
    ∃ r' ∈ (pointAt deadId id db).table.bag, r'.jobId = r.jobId ∧ r'.state = r.state ∧
      r'.reenqueuedAs = if r.jobId = deadId then some id else r.reenqueuedAs := by
  by_cases hid : r.jobId = deadId
  · rw [if_pos hid]
    obtain rfl := hid
    have hrow := Table.mem_bag.mp hr
    obtain ⟨t', ht'⟩ := update_isSome hrow (setReenqueuedAs id) fun key hkey => free_of_queued hrow hkey
    obtain ⟨rest, hbag⟩ := exists_bag hrow
    refine ⟨(setReenqueuedAs id).apply r, ?_, rfl, rfl, rfl⟩
    have hpoint : (pointAt r.jobId id db).table = t' := by
      unfold pointAt
      rw [ht']
    rw [hpoint, Table.bag_update ht' hbag]
    exact Multiset.mem_cons_self _ rest
  · rw [if_neg hid]
    refine ⟨r, ?_, rfl, rfl, rfl⟩
    rcases pointAt_cases deadId id db with hsame | ⟨row, rest, hrow, hbag, hpoint⟩
    · rw [hsame]
      exact hr
    · rw [hbag] at hr
      rw [hpoint]
      rcases Multiset.mem_cons.mp hr with rfl | hr
      · exact absurd hrow hid
      · exact Multiset.mem_cons_of_mem hr

/-- The job of a press is dead, and once the press is done the job points at the replacement. -/
def Press.Holds (jobs : Multiset JobRow) (p : Press) : Prop :=
  match p.stage with
  | .checked dead | .registered dead _ | .enqueued dead _ => dead.jobId = p.jobId ∧ DeadAt jobs p.jobId
  | .answered (.replaced id) => PointsAt jobs p.jobId id
  | .answered _ => True

namespace Press

variable {jobs jobs' : Multiset JobRow} {p : Press}

theorem Holds.stay (h : p.Holds jobs) (hstay : EndsStay jobs jobs') : p.Holds jobs' := by
  unfold Holds at h ⊢
  split at h
  · exact ⟨h.1, h.2.stay hstay⟩
  · exact ⟨h.1, h.2.stay hstay⟩
  · exact ⟨h.1, h.2.stay hstay⟩
  · exact PointsAt.stay h hstay
  · trivial

/-- Pointing a job at the replacement of every press on it. -/
theorem Holds.point {deadId id : Text} {db : Database} (h : p.Holds db.table.bag)
    (hagree : p.jobId = deadId → ∀ id' ∈ p.stage.replacement, id' = id) :
    p.Holds (pointAt deadId id db).table.bag := by
  have hdead : DeadAt db.table.bag p.jobId → DeadAt (pointAt deadId id db).table.bag p.jobId := by
    rintro ⟨r, hr, hid, hstate⟩
    obtain ⟨r', hr', hid', hstate', -⟩ := mem_pointAt deadId id hr
    exact ⟨r', hr', hid'.trans hid, hstate'.trans hstate⟩
  unfold Holds at h ⊢
  split at h
  · exact ⟨h.1, hdead h.2⟩
  · exact ⟨h.1, hdead h.2⟩
  · exact ⟨h.1, hdead h.2⟩
  · rename_i id' hstage
    obtain ⟨r, hr, hid, hstate, hpointer⟩ := h
    obtain ⟨r', hr', hid', hstate', hpointer'⟩ := mem_pointAt deadId id hr
    refine ⟨r', hr', hid'.trans hid, hstate'.trans hstate, ?_⟩
    rw [hpointer']
    by_cases heq : r.jobId = deadId
    · rw [if_pos heq, hagree (hid.symm.trans heq) id' (by rw [hstage]; exact rfl)]
    · rw [if_neg heq, hpointer]
  · trivial

end Press

/-! ### The invariant -/

namespace Presses

structure Sound (s : Presses) : Prop where
  queue : s.queue.Sound
  holds : ∀ p ∈ s.presses, p.Holds s.queue.jobs
  agree : ∀ p ∈ s.presses, ∀ p' ∈ s.presses, p'.jobId = p.jobId → ∀ id ∈ p.stage.replacement,
    ∀ id' ∈ p'.stage.replacement, id' = id

variable {s : Presses} {i : Nat} {p : Press} {stage : PressStage}

theorem mem_replacements {deadId id : Text} :
    id ∈ s.replacements deadId ↔ ∃ p ∈ s.presses, p.jobId = deadId ∧ id ∈ p.stage.replacement := by
  simp only [replacements, List.mem_filterMap, List.mem_filter, decide_eq_true_eq, and_assoc]
  rfl

theorem mem_goOn {q : Press} (hp : s.presses[i]? = some p) (hq : q ∈ (s.goOn i stage).presses) :
    q = { p with stage } ∨ q ∈ s.presses := by
  obtain ⟨j, hj⟩ := List.mem_iff_getElem?.mp hq
  unfold goOn at hj
  rw [List.getElem?_modify] at hj
  by_cases hij : i = j
  · subst hij
    rw [hp, Option.map_eq_map, Option.map_some, if_pos rfl] at hj
    exact Or.inl (Option.some.inj hj).symm
  · cases hrow : s.presses[j]? with
    | none =>
        rw [hrow] at hj
        cases hj
    | some r =>
        rw [hrow, Option.map_eq_map, Option.map_some, if_neg hij] at hj
        obtain rfl := Option.some.inj hj
        exact Or.inr (List.mem_of_getElem? hrow)

/-- A press goes on, with a replacement the others know. -/
theorem Sound.goOn (h : s.Sound) (hp : s.presses[i]? = some p) (hholds : Press.Holds s.queue.jobs { p with stage })
    (hagree : ∀ q ∈ s.presses, q.jobId = p.jobId → ∀ id ∈ stage.replacement, ∀ id' ∈ q.stage.replacement, id' = id) :
    (s.goOn i stage).Sound where
  queue := h.queue
  holds q hq := by
    rcases mem_goOn hp hq with rfl | hq
    · exact hholds
    · exact h.holds q hq
  agree q hq q' hq' heq id hid id' hid' := by
    rcases mem_goOn hp hq with rfl | hq
    · rcases mem_goOn hp hq' with rfl | hq'
      · exact Option.mem_unique hid' hid
      · exact hagree q' hq' heq id hid id' hid'
    · rcases mem_goOn hp hq' with rfl | hq'
      · exact (hagree q hq heq.symm id' hid' id hid).symm
      · exact h.agree q hq q' hq' heq id hid id' hid'

theorem Sound.perform (h : s.Sound) {c : Call} (hdraws : s.queue.Draws c) :
    ({ s with queue := s.queue.perform L cfg c } : Presses).Sound where
  queue := h.queue.perform L cfg hdraws
  holds p hp := (h.holds p hp).stay (h.queue.endsStay hdraws)
  agree := h.agree

theorem replacement_readDead (jobId : Text) (rows : List JobRow) : (readDead jobId rows).replacement = none := by
  unfold readDead
  cases checkReenqueue (getJob jobId rows) with
  | error refusal => rfl
  | ok dead => rfl

theorem Sound.read (h : s.Sound) (jobId : Text) :
    ({ s with presses := s.presses ++ [⟨jobId, readDead jobId s.rows⟩] } : Presses).Sound where
  queue := h.queue
  holds p hp := by
    rcases List.mem_append.mp hp with hp | hp
    · exact h.holds p hp
    · obtain rfl := List.mem_singleton.mp hp
      unfold Press.Holds readDead
      cases hcheck : checkReenqueue (getJob jobId s.rows) with
      | error refusal => trivial
      | ok dead =>
          obtain ⟨hrow, hstate, -, -⟩ := Chains.checkReenqueue_eq_ok hcheck
          obtain ⟨hmem, hid⟩ := mem_of_getJob hrow
          exact ⟨hid, dead, Table.mem_bag.mpr hmem, hid, hstate⟩
  agree p hp p' hp' heq id hid id' hid' := by
    have hold : ∀ q ∈ s.presses ++ [⟨jobId, readDead jobId s.rows⟩], ∀ x ∈ q.stage.replacement, q ∈ s.presses := by
      intro q hq x hx
      refine (List.mem_append.mp hq).resolve_right fun hq => ?_
      obtain rfl := List.mem_singleton.mp hq
      rw [replacement_readDead] at hx
      cases hx
    exact h.agree p (hold p hp id hid) p' (hold p' hp' id' hid') heq id hid id' hid'

theorem Sound.register (h : s.Sound) (hp : s.presses[i]? = some p) (registration : Option SyncSystem) :
    (s.goOn i (p.stage.register registration)).Sound := by
  have hmem := List.mem_of_getElem? hp
  have hholds := h.holds p hmem
  obtain ⟨jobId, stage⟩ := p
  cases stage with
  | checked dead =>
      cases registration with
      | none => exact h.goOn hp trivial fun _ _ _ _ hid => nomatch hid
      | some registration => exact h.goOn hp hholds fun _ _ _ _ hid => nomatch hid
  | registered dead registration => exact h.goOn hp hholds (fun q hq heq => h.agree _ hmem q hq heq)
  | enqueued dead jobId => exact h.goOn hp hholds (fun q hq heq => h.agree _ hmem q hq heq)
  | answered answer => exact h.goOn hp hholds (fun q hq heq => h.agree _ hmem q hq heq)

/-- The enqueue of a press joins what was enqueued for its job before. -/
theorem Sound.enqueue (h : s.Sound) {jobId actor newId : Text} {dead : JobRow} {registration : SyncSystem}
    {clock now : Nat} (hp : s.presses[i]? = some ⟨jobId, .registered dead registration⟩)
    (hdraws : newId ∉ s.queue.drawn) (hjoins : s.Joins L cfg (.enqueue i actor newId clock now)) :
    (s.next L cfg (.enqueue i actor newId clock now)).Sound := by
  have hdraws' : s.queue.Draws (.enqueue (reenqueueRequest dead registration actor) newId clock now) := by
    intro u hu
    obtain rfl := List.mem_singleton.mp hu
    exact hdraws
  have hqueue : ({ s with queue := s.queue.perform L cfg (.enqueue (reenqueueRequest dead registration actor) newId
      clock now) } : Presses).Sound := h.perform hdraws'
  obtain ⟨hid, hdead⟩ := h.holds _ (List.mem_of_getElem? hp)
  have hdead' := hdead.stay (h.queue.endsStay (L := L) hdraws' : EndsStay _ (s.queue.perform L cfg _).jobs)
  simp only [next, hp]
  rcases enqueue_cases L cfg (reenqueueRequest dead registration actor) newId clock now s.queue.db with
    hnone | ⟨problems, hinvalid⟩ | ⟨v, result, t', hvalid, hinsert, henqueued⟩
  · rw [hnone]
    exact hqueue.goOn hp trivial fun _ _ _ _ hx => nomatch hx
  · rw [hinvalid]
    exact hqueue.goOn hp trivial fun _ _ _ _ hx => nomatch hx
  · rw [henqueued]
    refine hqueue.goOn hp ⟨hid, hdead'⟩ ?_
    intro q hq heq id hid' id' hid''
    obtain rfl := Option.some.inj hid'
    have hinserts : s.inserts L cfg (.enqueue i actor newId clock now) = some (dead.jobId, v) := by
      simp only [inserts, hp, hvalid]
      rfl
    have hknown : id' ∈ s.replacements dead.jobId := mem_replacements.mpr ⟨q, hq, heq.trans hid.symm, hid''⟩
    obtain ⟨hbatch, existing, hexisting, rfl, hqueued⟩ := hjoins _ hinserts id' hknown
    exact (insertJob_joins hinsert hexisting hqueued hbatch).symm

theorem Sound.point (h : s.Sound) {jobId id : Text} {dead : JobRow}
    (hp : s.presses[i]? = some ⟨jobId, .enqueued dead id⟩) : (s.next L cfg (.point i)).Sound := by
  have hmem := List.mem_of_getElem? hp
  obtain ⟨hdeadId, r, hr, hid, hstate⟩ := h.holds _ hmem
  simp only [next, hp]
  have hpointed : ({ s with queue := { s.queue with db := pointAt dead.jobId id s.queue.db } } : Presses).Sound := by
    refine ⟨h.queue.pointAt dead.jobId id, fun q hq => ?_, h.agree⟩
    exact (h.holds q hq).point fun heq => h.agree _ hmem q hq (heq.trans hdeadId) id rfl
  refine hpointed.goOn hp ?_ fun q hq heq => h.agree _ hmem q hq heq
  obtain ⟨r', hr', hid', hstate', hpointer⟩ := mem_pointAt dead.jobId id hr
  rw [if_pos (hid.trans hdeadId.symm)] at hpointer
  exact ⟨r', hr', hid'.trans hid, hstate'.trans hstate, hpointer⟩

/-- **One statement.** -/
theorem Sound.next (h : s.Sound) {e : PressEvent} (hdraws : ∀ u ∈ e.ulids, u ∉ s.queue.drawn)
    (hjoins : s.Joins L cfg e) : (s.next L cfg e).Sound := by
  cases e with
  | call c => exact h.perform hdraws
  | read jobId => exact h.read jobId
  | register i registration =>
      cases hp : s.presses[i]? with
      | none =>
          simp only [Presses.next, hp]
          exact h
      | some p =>
          simp only [Presses.next, hp]
          exact h.register hp registration
  | enqueue i actor newId clock now =>
      cases hp : s.presses[i]? with
      | none =>
          simp only [Presses.next, hp]
          exact h
      | some p =>
          obtain ⟨jobId, stage⟩ := p
          cases stage with
          | registered dead registration => exact h.enqueue hp (hdraws newId (List.mem_singleton_self _)) hjoins
          | checked | enqueued | answered =>
              simp only [Presses.next, hp]
              exact h
  | point i =>
      cases hp : s.presses[i]? with
      | none =>
          simp only [Presses.next, hp]
          exact h
      | some p =>
          obtain ⟨jobId, stage⟩ := p
          cases stage with
          | enqueued dead id => exact h.point hp
          | checked | registered | answered =>
              simp only [Presses.next, hp]
              exact h

theorem sound_start : Sound ⟨.start, []⟩ where
  queue := QueueState.sound_start
  holds _ hp := absurd hp List.not_mem_nil
  agree _ hp := absurd hp List.not_mem_nil

theorem Sound.of_reachable (h : ((pressing L cfg).restrict (Presses.Joins L cfg)).Reachable s) : s.Sound := by
  refine h.invariant sound_start ?_
  rintro s e - ⟨hdraws, hjoins⟩ hs
  exact hs.next hdraws hjoins

/-! ### What the operators see -/

theorem Sound.getJob_of_pointsAt {deadId id : Text} (h : PointsAt s.queue.jobs deadId id) :
    ∃ r, getJob deadId s.rows = some r ∧ r.state = .deadLettered ∧ r.reenqueuedAs = some id := by
  obtain ⟨r, hr, rfl, hstate, hpointer⟩ := h
  cases hrow : getJob r.jobId s.rows with
  | none => exact absurd hrow (getJob_of_mem (Table.mem_bag.mp hr))
  | some r' =>
      obtain ⟨hmem, hid⟩ := mem_of_getJob hrow
      obtain rfl := s.queue.db.table.eq_of_key hmem (Table.mem_bag.mp hr) hid
      exact ⟨r', rfl, hstate, hpointer⟩

theorem Sound.oneReplacement (h : s.Sound) (deadId : Text) : s.OneReplacement deadId where
  agreed id hid id' hid' := by
    obtain ⟨p, hp, hjob, hid⟩ := mem_replacements.mp hid
    obtain ⟨p', hp', hjob', hid'⟩ := mem_replacements.mp hid'
    exact h.agree p hp p' hp' (hjob'.trans hjob.symm) id hid id' hid'
  pointed hsettled := by
    refine List.filter_eq_nil_iff.mpr fun id hmem => ?_
    obtain ⟨p, hp, rfl, hid⟩ := mem_replacements.mp hmem
    clear hmem
    have hanswered := hsettled p hp rfl
    have hholds := h.holds p hp
    obtain ⟨jobId, stage⟩ := p
    cases stage with
    | checked dead => cases hanswered
    | registered dead registration => cases hanswered
    | enqueued dead jobId => cases hanswered
    | answered answer =>
        cases answer with
        | refused refusal => cases hid
        | invalid problems => cases hid
        | failed => cases hid
        | replaced id' =>
            obtain rfl := Option.some.inj hid
            obtain ⟨r, hrow, -, hpointer⟩ := getJob_of_pointsAt hholds
            have hpoints : s.pointer jobId = some id' := by
              unfold pointer
              rw [hrow]
              exact hpointer
            simpa using hpoints
  refused p hp hjob id hstage := by
    have hholds := h.holds p hp
    unfold Press.Holds at hholds
    rw [hstage, hjob] at hholds
    obtain ⟨r, hrow, hstate, hpointer⟩ := getJob_of_pointsAt hholds
    have hcheck : checkReenqueue (some r) = .error (.alreadyReenqueued id) := by
      unfold checkReenqueue
      dsimp only
      rw [if_neg (not_not.mpr hstate), hpointer]
    unfold readDead
    rw [hrow, hcheck]

end Presses

/-! ### Presses that join and presses that fork -/

instance (s : Presses) (e : PressEvent) : Decidable (s.Joins L cfg e) := by
  unfold Presses.Joins
  infer_instance

instance (s : Presses) (deadId : Text) : Decidable (s.Settled deadId) := by
  unfold Presses.Settled
  infer_instance

instance : DecidableRel (pressing L cfg).May :=
  fun s e => inferInstanceAs (Decidable (∀ u ∈ e.ulids, u ∉ s.queue.drawn))

instance : DecidableRel (Presses.Joins L cfg) := fun _ _ => inferInstance

def anyRunner : ClaimArgs := { snapshotRunner with classes := [js "batch", js "interactive"] }

/-- Three presses on one dead job, each of which has checked it before the first one enqueues. -/
def pressedThrice (type : String) : List PressEvent :=
  [.call (.enqueue (crm.request (js type) (js "schedule") none) (js "J1") 0 0),
    .call (.claimOnce anyRunner 1 (js "T1") fun _ => false),
    .call (.transact (.failJob (js "J1") (js "T1") { timeout with retryable := false } 2 1000)),
    .read (js "J1"), .read (js "J1"), .read (js "J1"),
    .register 0 (some crm), .register 1 (some crm), .register 2 (some crm),
    .enqueue 0 (js "ops") (js "J2") 3 3, .enqueue 1 (js "ops") (js "J3") 3 3,
    .enqueue 2 (js "ops") (js "J4") 3 3, .point 0, .point 1, .point 2]

/-- A connection test never merges: its three replacements are three jobs, and two of them are left outside. -/
theorem not_oneReplacement_tested :
    ¬ ∀ (L : Packages) (cfg : CoreConfig) (s : Presses), (pressing L cfg).Reachable s →
      ∀ deadId, s.Settled deadId → (s.outside deadId).length ≤ 1 := by
  intro hone
  let s := (pressing plainPackages defaultConfig).run (pressedThrice "test_connection")
  have hreach : (pressing plainPackages defaultConfig).Reachable s := Machine.reachable_run _ _
  have hsettled : s.Settled (js "J1") := by decide
  have houtside : (s.outside (js "J1")).length = 2 := by decide
  have hle := hone _ _ s hreach (js "J1") hsettled
  omega

/-- **One replacement.** Where every enqueue for a dead job comes while what was enqueued for it before still waits
as a batch job, all presses on it get one replacement, the row ends up pointing there, and the next press after a
successful one is refused. -/
theorem oneReplacement_of_joins {s : Presses} (h : ((pressing L cfg).restrict (Presses.Joins L cfg)).Reachable s)
    (deadId : Text) : s.OneReplacement deadId :=
  (Presses.Sound.of_reachable h).oneReplacement deadId

theorem oneReplacement_of_joins_snapshot :
    let s := ((pressing plainPackages defaultConfig).restrict (Presses.Joins plainPackages defaultConfig)).run
      (pressedThrice "snapshot")
    s.replacements (js "J1") = [js "J2", js "J2", js "J2"] ∧ s.OneReplacement (js "J1") :=
  ⟨by decide, oneReplacement_of_joins (Machine.reachable_run _ _) (js "J1")⟩

end ContextLayer
