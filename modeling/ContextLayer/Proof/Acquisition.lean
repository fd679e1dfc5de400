import ContextLayer.Proof.JobIds

/-!
# What the acquisition loop waits for

The loop knows the work of a system by one job id. While that job keeps its row and its work, the
loop follows it: an ended job stays as it ended, so whenever the loop comes to read a job that has
succeeded it goes on to its snapshot. When the queue hands the work to another job the loop does not
follow. A job absorbed by a retry has no row any more, and its system is excluded at the next poll; a
coalesced job keeps its row in a state the loop waits on until the budget is spent.
-/

namespace ContextLayer

open Text Transaction Prog

variable {L : Packages} {cfg : CoreConfig}

/-! ### One statement of the loop -/

namespace Acquisition

variable {budgetS deadline clock : Nat} {db : Database} {p : PendingSystem} {awaiting : Awaiting}

theorem turn_exclude {jobId reason : Text} (hjob : truthy p.jobId = some jobId)
    (h : p.turn budgetS deadline db clock awaiting = .exclude reason) :
    (awaiting = .job ∧ (getJob jobId db.table.rows = none ∨
      ∃ job, getJob jobId db.table.rows = some job ∧ job.state.terminal = true ∧
        job.state ≠ .coalesced ∧ (job.state = .succeeded → job.snapshotId = none))) ∨
    (∃ x, awaiting = .snapshot x ∧ getSnapshotBody x db.rest.snapshots = none) ∨
    ∃ state, awaiting = .clock state ∧ deadline < clock := by
  simp only [PendingSystem.turn, hjob] at h
  cases awaiting with
  | job =>
      refine Or.inl ⟨rfl, ?_⟩
      cases hget : getJob jobId db.table.rows with
      | none => exact Or.inl rfl
      | some job =>
          refine Or.inr ⟨job, rfl, ?_⟩
          simp only [hget] at h
          cases hstate : job.state with
          | succeeded =>
              simp only [hstate] at h
              cases hsnapshot : job.snapshotId with
              | none => exact ⟨rfl, JobState.noConfusion, fun _ => rfl⟩
              | some x =>
                  simp only [hsnapshot] at h
                  cases h
          | deadLettered | cancelled =>
              exact ⟨rfl, JobState.noConfusion, JobState.noConfusion⟩
          | queued | leased | running | coalesced =>
              simp only [hstate] at h
              cases h
  | snapshot x =>
      refine Or.inr (Or.inl ⟨x, rfl, ?_⟩)
      cases hbody : getSnapshotBody x db.rest.snapshots with
      | none => rfl
      | some body =>
          simp only [hbody] at h
          cases h
  | clock state =>
      refine Or.inr (Or.inr ⟨state, rfl, ?_⟩)
      by_contra hclock
      simp only [hclock, if_false] at h
      cases h

/-- What a turn comes to where it does not exclude. -/
theorem turn_cases (budgetS deadline : Nat) (db : Database) (clock : Nat) (p : PendingSystem)
    (awaiting : Awaiting) :
    (∃ reason, p.turn budgetS deadline db clock awaiting = .exclude reason) ∨
    (∃ jobId x body, p.turn budgetS deadline db clock awaiting =
        .acquire ⟨p.system, jobId, x, p.triggers, body⟩ ∧
      awaiting = .snapshot x ∧ getSnapshotBody x db.rest.snapshots = some body) ∨
    (∃ jobId job x, p.turn budgetS deadline db clock awaiting = .await (.snapshot x) ∧
      awaiting = .job ∧ truthy p.jobId = some jobId ∧ getJob jobId db.table.rows = some job ∧
      job.state = .succeeded ∧ job.snapshotId = some x) ∨
    (∃ state, p.turn budgetS deadline db clock awaiting = .await (.clock state) ∧ awaiting = .job) ∨
    p.turn budgetS deadline db clock awaiting = .await .job ∧ ¬ deadline < clock := by
  cases hjob : truthy p.jobId with
  | none =>
      left
      simp only [PendingSystem.turn, hjob]
      exact ⟨_, rfl⟩
  | some jobId =>
      cases awaiting with
      | job =>
          cases hget : getJob jobId db.table.rows with
          | none =>
              left
              simp only [PendingSystem.turn, hjob, hget]
              exact ⟨_, rfl⟩
          | some job =>
              cases hstate : job.state with
              | succeeded =>
                  cases hsnapshot : job.snapshotId with
                  | none =>
                      left
                      simp only [PendingSystem.turn, hjob, hget, hstate, hsnapshot]
                      exact ⟨_, rfl⟩
                  | some x =>
                      refine Or.inr (Or.inr (Or.inl ⟨jobId, job, x, ?_, rfl, rfl, hget, hstate, hsnapshot⟩))
                      simp only [PendingSystem.turn, hjob, hget, hstate, hsnapshot]
              | deadLettered | cancelled =>
                  left
                  simp only [PendingSystem.turn, hjob, hget, hstate]
                  exact ⟨_, rfl⟩
              | queued | leased | running | coalesced =>
                  refine Or.inr (Or.inr (Or.inr (Or.inl ?_)))
                  simp only [PendingSystem.turn, hjob, hget, hstate]
                  exact ⟨_, rfl, trivial⟩
      | snapshot x =>
          cases hbody : getSnapshotBody x db.rest.snapshots with
          | none =>
              left
              simp only [PendingSystem.turn, hjob, hbody]
              exact ⟨_, rfl⟩
          | some body =>
              refine Or.inr (Or.inl ⟨jobId, x, body, ?_, rfl, hbody⟩)
              simp only [PendingSystem.turn, hjob, hbody]
      | clock state =>
          by_cases hclock : deadline < clock
          · left
            simp only [PendingSystem.turn, hjob, if_pos hclock]
            exact ⟨_, rfl⟩
          · refine Or.inr (Or.inr (Or.inr (Or.inr ⟨?_, hclock⟩)))
            simp only [PendingSystem.turn, hjob, if_neg hclock]

theorem turn_acquire {acquired : AcquiredSystem}
    (h : p.turn budgetS deadline db clock awaiting = .acquire acquired) :
    acquired.system = p.system ∧ awaiting = .snapshot acquired.snapshotId ∧
      getSnapshotBody acquired.snapshotId db.rest.snapshots = some acquired.body := by
  rcases turn_cases budgetS deadline db clock p awaiting with ⟨_, hturn⟩ |
    ⟨_, x, body, hturn, hawaiting, hbody⟩ | ⟨_, _, _, hturn, -⟩ | ⟨_, hturn, -⟩ | ⟨hturn, -⟩
  all_goals cases hturn.symm.trans h
  exact ⟨rfl, hawaiting, hbody⟩

theorem turn_snapshot {x : Text}
    (h : p.turn budgetS deadline db clock awaiting = .await (.snapshot x)) :
    ∃ jobId job, truthy p.jobId = some jobId ∧ getJob jobId db.table.rows = some job ∧
      job.state = .succeeded ∧ job.snapshotId = some x := by
  rcases turn_cases budgetS deadline db clock p awaiting with ⟨_, hturn⟩ | ⟨_, _, _, hturn, -⟩ |
    ⟨jobId, job, _, hturn, -, hfound⟩ | ⟨_, hturn, -⟩ | ⟨hturn, -⟩
  all_goals cases hturn.symm.trans h
  exact ⟨jobId, job, hfound⟩

/-- Past the deadline nothing is waited for twice. -/
theorem turn_late {next : Awaiting} (hlate : deadline < clock)
    (h : p.turn budgetS deadline db clock awaiting = .await next) :
    awaiting = .job ∧ next ≠ .job := by
  rcases turn_cases budgetS deadline db clock p awaiting with ⟨_, hturn⟩ | ⟨_, _, _, hturn, -⟩ |
    ⟨_, _, _, hturn, hawaiting, -⟩ | ⟨_, hturn, hawaiting⟩ | ⟨_, hclock⟩
  · cases hturn.symm.trans h
  · cases hturn.symm.trans h
  · cases hturn.symm.trans h
    exact ⟨hawaiting, Awaiting.noConfusion⟩
  · cases hturn.symm.trans h
    exact ⟨hawaiting, Awaiting.noConfusion⟩
  · exact absurd hlate hclock

variable {a : Acquisition}

/-- What a poll does. -/
theorem poll_cases (budgetS deadline clock : Nat) (db : Database) (a : Acquisition) :
    (a.pending = [] ∧ a.poll budgetS deadline db clock = a) ∨
    ∃ p rest, a.pending = p :: rest ∧
      ((∃ reason, p.turn budgetS deadline db clock a.awaiting = .exclude reason ∧
        a.poll budgetS deadline db clock =
          ⟨rest, .job, a.included, a.excluded ++ [⟨p.system, reason⟩]⟩) ∨
      (∃ acquired, p.turn budgetS deadline db clock a.awaiting = .acquire acquired ∧
        a.poll budgetS deadline db clock = ⟨rest, .job, a.included ++ [acquired], a.excluded⟩) ∨
      ∃ next, p.turn budgetS deadline db clock a.awaiting = .await next ∧
        a.poll budgetS deadline db clock = { a with awaiting := next }) := by
  unfold poll
  cases hpending : a.pending with
  | nil => exact Or.inl ⟨rfl, rfl⟩
  | cons p rest =>
      refine Or.inr ⟨p, rest, rfl, ?_⟩
      cases hturn : p.turn budgetS deadline db clock a.awaiting with
      | exclude reason => exact Or.inl ⟨reason, rfl, by simp only [hturn]⟩
      | acquire acquired => exact Or.inr (Or.inl ⟨acquired, rfl, by simp only [hturn]⟩)
      | await next => exact Or.inr (Or.inr ⟨next, rfl, by simp only [hturn]⟩)

def waiting (a : Acquisition) : List Text := a.pending.map PendingSystem.system

def includedSystems (a : Acquisition) : List Text := a.included.map AcquiredSystem.system

def excludedSystems (a : Acquisition) : List Text := a.excluded.map ExcludedSystem.system

/-- The systems the loop was given, wherever they are by now. -/
def systems (a : Acquisition) : Multiset Text :=
  (a.waiting : Multiset Text) + a.includedSystems + a.excludedSystems

theorem systems_poll (budgetS deadline clock : Nat) (db : Database) (a : Acquisition) :
    (a.poll budgetS deadline db clock).systems = a.systems := by
  rcases poll_cases budgetS deadline clock db a with ⟨_, hpoll⟩ | ⟨p, rest, hpending,
    ⟨reason, _, hpoll⟩ | ⟨acquired, hturn, hpoll⟩ | ⟨next, _, hpoll⟩⟩
  · rw [hpoll]
  · simp only [systems, waiting, includedSystems, excludedSystems, hpoll, hpending, List.map_cons,
      List.map_append, ← Multiset.cons_coe, ← Multiset.coe_add, List.map_nil, Multiset.coe_nil,
      ← Multiset.singleton_add, add_zero]
    ac_rfl
  · have hsystem := (turn_acquire hturn).1
    simp only [systems, waiting, includedSystems, excludedSystems, hpoll, hpending, List.map_cons,
      List.map_append, ← Multiset.cons_coe, ← Multiset.coe_add, List.map_nil, Multiset.coe_nil,
      ← Multiset.singleton_add, add_zero, hsystem]
    ac_rfl
  · rw [hpoll]
    rfl

theorem pending_poll (budgetS deadline clock : Nat) (db : Database) (a : Acquisition) :
    (a.poll budgetS deadline db clock).pending <:+ a.pending := by
  rcases poll_cases budgetS deadline clock db a with ⟨_, hpoll⟩ | ⟨p, rest, hpending,
    ⟨reason, _, hpoll⟩ | ⟨acquired, _, hpoll⟩ | ⟨next, _, hpoll⟩⟩
  · rw [hpoll]
  · rw [hpoll, hpending]
    exact List.suffix_cons p rest
  · rw [hpoll, hpending]
    exact List.suffix_cons p rest
  · rw [hpoll]

/-- The statements the loop has left once the budget is spent. -/
def left (a : Acquisition) : Nat :=
  match a.awaiting with
  | .job => 2 * a.pending.length
  | _ => 2 * a.pending.length - 1

theorem left_le (a : Acquisition) : a.left ≤ 2 * a.pending.length := by
  unfold left
  split <;> omega

theorem left_of_ne_job (h : a.awaiting ≠ .job) : a.left = 2 * a.pending.length - 1 := by
  unfold left
  split
  · contradiction
  · rfl

theorem pending_of_left (h : a.left = 0) : a.pending = [] := by
  apply List.eq_nil_of_length_eq_zero
  unfold left at h
  split at h <;> omega

theorem left_removed {rest : List PendingSystem} (hpending : a.pending = p :: rest) :
    2 * rest.length < a.left := by
  unfold left
  rw [hpending, List.length_cons]
  split <;> omega

/-- Past the deadline a poll leaves less to do. -/
theorem left_poll (budgetS : Nat) (db : Database) (hlate : deadline < clock) (hleft : 0 < a.left) :
    (a.poll budgetS deadline db clock).left < a.left := by
  rcases poll_cases budgetS deadline clock db a with ⟨hpending, _⟩ | ⟨p, rest, hpending,
    ⟨reason, _, hpoll⟩ | ⟨acquired, _, hpoll⟩ | ⟨next, hturn, hpoll⟩⟩
  · have hle := a.left_le
    simp only [hpending, List.length_nil] at hle
    omega
  · rw [hpoll]
    exact left_removed hpending
  · rw [hpoll]
    exact left_removed hpending
  · obtain ⟨hjob, hnext⟩ := turn_late hlate hturn
    rw [hpoll, left_of_ne_job hnext, left, hjob]
    simp only [hpending, List.length_cons]
    omega

theorem left_poll_le (budgetS : Nat) (db : Database) (hlate : deadline < clock) :
    (a.poll budgetS deadline db clock).left ≤ a.left := by
  by_cases hleft : 0 < a.left
  · exact (left_poll budgetS db hlate hleft).le
  · have hpending := pending_of_left (Nat.eq_zero_of_not_pos hleft)
    rw [poll, hpending]

end Acquisition

/-! ### Ended jobs -/

theorem EndsKept.pointAt (deadId jobId : Text) (db : Database) :
    EndsKept db.table.bag (ContextLayer.pointAt deadId jobId db).table.bag := by
  rcases pointAt_cases deadId jobId db with hsame | ⟨row, rest, -, hbag, hpoint⟩
  · rw [hsame]
    exact .refl _
  · rw [hbag, hpoint]
    intro r hr _
    rcases Multiset.mem_cons.mp hr with rfl | hr
    · exact ⟨_, Multiset.mem_cons_self _ rest, ⟨rfl, rfl, rfl⟩, rfl, rfl⟩
    · exact ⟨r, Multiset.mem_cons_of_mem hr, .refl r, rfl, rfl⟩

theorem SyncState.Sound.endsKept {s : SyncState} (h : s.Sound) {e : SyncEvent}
    (hdraws : s.Draws e) : EndsKept s.queue.jobs (s.apply L cfg e).queue.jobs := by
  rcases SyncState.queue_apply L cfg s e with hqueue | ⟨deadId, jobId, hqueue⟩
  · obtain ⟨_, _, hrun⟩ := h.performed_run L cfg hdraws
    rw [hqueue]
    exact hrun.endsKept
  · rw [hqueue]
    exact .pointAt deadId jobId s.queue.db

/-- The job succeeded with the snapshot. -/
def HasSucceeded (rows : List JobRow) (jobId snapshotId : Text) : Prop :=
  ∃ r ∈ rows, r.jobId = jobId ∧ r.state = .succeeded ∧ r.snapshotId = some snapshotId

instance (rows : List JobRow) (jobId snapshotId : Text) :
    Decidable (HasSucceeded rows jobId snapshotId) := by
  unfold HasSucceeded
  infer_instance

theorem HasSucceeded.eq {t : JobTable} {jobId x : Text} (h : HasSucceeded t.rows jobId x)
    {r : JobRow} (hr : r ∈ t.rows) (hid : r.jobId = jobId) :
    r.state = .succeeded ∧ r.snapshotId = some x := by
  obtain ⟨r', hr', hid', hstate, hsnapshot⟩ := h
  obtain rfl := t.eq_of_key hr hr' (hid.trans hid'.symm)
  exact ⟨hstate, hsnapshot⟩

/-! ### Runs -/

namespace SyncRun

variable {w : SyncRun} {schedule : Nat → RunEvent} {i m : Nat}

def rows (w : SyncRun) : List JobRow := w.sync.queue.db.table.rows

theorem after_zero : w.after L cfg schedule 0 = w := rfl

theorem after_succ (i : Nat) :
    w.after L cfg schedule (i + 1) = (w.after L cfg schedule i).apply L cfg (schedule i) := rfl

/-- Only a poll moves the loop, and it moves nothing else. -/
theorem apply_cases (w : SyncRun) (e : RunEvent) :
    (w.apply L cfg e).loop = w.loop ∨
      e = .poll ∧ (w.apply L cfg e).loop =
        w.loop.poll w.budgetS w.deadline w.sync.queue.db w.clock := by
  cases e with
  | sync e => exact Or.inl rfl
  | wait ms => exact Or.inl rfl
  | poll => exact Or.inr ⟨rfl, rfl⟩

theorem deadline_after (i : Nat) : (w.after L cfg schedule i).deadline = w.deadline := by
  induction i with
  | zero => rfl
  | succ i ih =>
      rw [← ih, after_succ]
      cases schedule i <;> rfl

theorem clock_mono (h : i ≤ m) :
    (w.after L cfg schedule i).clock ≤ (w.after L cfg schedule m).clock := by
  apply monotone_nat_of_le_succ (f := fun i => (w.after L cfg schedule i).clock) ?_ h
  intro i
  simp only [after_succ]
  cases schedule i with
  | sync e => exact Nat.le_refl _
  | wait ms => exact Nat.le_add_right _ ms
  | poll => exact Nat.le_refl _

theorem pending_suffix (h : i ≤ m) :
    (w.after L cfg schedule m).loop.pending <:+ (w.after L cfg schedule i).loop.pending := by
  induction m, h using Nat.le_induction with
  | base => exact List.suffix_refl _
  | succ m _ ih =>
      rcases (w.after L cfg schedule m).apply_cases (schedule m) with hloop | ⟨_, hloop⟩
      · rw [after_succ, hloop]
        exact ih
      · rw [after_succ, hloop]
        exact (Acquisition.pending_poll ..).trans ih

theorem systems_after (i : Nat) : (w.after L cfg schedule i).loop.systems = w.loop.systems := by
  induction i with
  | zero => rfl
  | succ i ih =>
      rcases (w.after L cfg schedule i).apply_cases (schedule i) with hloop | ⟨_, hloop⟩
      · rw [after_succ, hloop, ih]
      · rw [after_succ, hloop, Acquisition.systems_poll, ih]

namespace Schedules

theorem sound (h : w.Schedules L cfg schedule) (hw : w.sync.Sound) (i : Nat) :
    (w.after L cfg schedule i).sync.Sound := by
  induction i with
  | zero => exact hw
  | succ i ih =>
      have hdraws := h.draws i
      rw [after_succ]
      cases hevent : schedule i with
      | sync e =>
          rw [hevent] at hdraws
          exact ih.apply hdraws
      | wait ms => exact ih
      | poll => exact ih

theorem endsKept (h : w.Schedules L cfg schedule) (hw : w.sync.Sound) (him : i ≤ m) :
    EndsKept (w.after L cfg schedule i).sync.queue.jobs (w.after L cfg schedule m).sync.queue.jobs := by
  induction m, him using Nat.le_induction with
  | base => exact .refl _
  | succ m _ ih =>
      refine ih.trans ?_
      have hdraws := h.draws m
      rw [after_succ]
      cases hevent : schedule m with
      | sync e =>
          rw [hevent] at hdraws
          exact (h.sound hw m).endsKept hdraws
      | wait ms => exact .refl _
      | poll => exact .refl _

/-- A job that has ended is found as it ended. -/
theorem ended (h : w.Schedules L cfg schedule) (hw : w.sync.Sound) (him : i ≤ m) {r : JobRow}
    (hr : r ∈ (w.after L cfg schedule i).rows) (hterminal : r.state.terminal = true) :
    ∃ r' ∈ (w.after L cfg schedule m).rows, r'.jobId = r.jobId ∧ r'.state = r.state ∧
      r'.snapshotId = r.snapshotId := by
  obtain ⟨r', hr', hsame, hstate, hmeta⟩ := h.endsKept hw him r (Table.mem_bag.mpr hr) hterminal
  refine ⟨r', Table.mem_bag.mp hr', hsame.jobId, hstate, ?_⟩
  rw [JobRow.snapshotId, JobRow.snapshotId, hmeta]

theorem hasSucceeded (h : w.Schedules L cfg schedule) (hw : w.sync.Sound) (him : i ≤ m)
    {jobId x : Text} (hsucceeded : HasSucceeded (w.after L cfg schedule i).rows jobId x) :
    HasSucceeded (w.after L cfg schedule m).rows jobId x := by
  obtain ⟨r, hr, hid, hstate, hsnapshot⟩ := hsucceeded
  obtain ⟨r', hr', hid', hstate', hsnapshot'⟩ := h.ended hw him hr (by rw [hstate]; rfl)
  exact ⟨r', hr', hid'.trans hid, hstate'.trans hstate, hsnapshot'.trans hsnapshot⟩

/-- The loop goes to a snapshot for a job that has succeeded with it. -/
theorem awaits_snapshot (h : w.Schedules L cfg schedule) (hw : w.sync.Sound)
    (hstart : w.loop.awaiting = .job) {p : PendingSystem} {rest : List PendingSystem} {x : Text}
    (hpending : (w.after L cfg schedule i).loop.pending = p :: rest)
    (hawaiting : (w.after L cfg schedule i).loop.awaiting = .snapshot x) :
    ∃ jobId, truthy p.jobId = some jobId ∧ HasSucceeded (w.after L cfg schedule i).rows jobId x := by
  induction i generalizing p rest x with
  | zero =>
      rw [after_zero, hstart] at hawaiting
      cases hawaiting
  | succ i ih =>
      have hkept : ∀ jobId, HasSucceeded (w.after L cfg schedule i).rows jobId x →
          HasSucceeded (w.after L cfg schedule (i + 1)).rows jobId x :=
        fun jobId => h.hasSucceeded hw (Nat.le_succ i)
      rw [after_succ] at hpending hawaiting
      rcases (w.after L cfg schedule i).apply_cases (schedule i) with hloop | ⟨_, hloop⟩
      · rw [hloop] at hpending hawaiting
        obtain ⟨jobId, hjob, hsucceeded⟩ := ih hpending hawaiting
        exact ⟨jobId, hjob, hkept jobId hsucceeded⟩
      rw [hloop] at hpending hawaiting
      rcases Acquisition.poll_cases _ _ _ _ _ with ⟨hnil, hpoll⟩ | ⟨q, others, hq,
        ⟨_, _, hpoll⟩ | ⟨_, _, hpoll⟩ | ⟨next, hturn, hpoll⟩⟩
      · rw [hpoll] at hpending hawaiting
        obtain ⟨jobId, hjob, hsucceeded⟩ := ih hpending hawaiting
        exact ⟨jobId, hjob, hkept jobId hsucceeded⟩
      · rw [hpoll] at hawaiting
        cases hawaiting
      · rw [hpoll] at hawaiting
        cases hawaiting
      · rw [hpoll] at hpending hawaiting
        obtain ⟨rfl, rfl⟩ := List.cons.inj (hq.symm.trans hpending)
        obtain rfl : next = .snapshot x := hawaiting
        obtain ⟨jobId, job, hjob, hget, hstate, hsnapshot⟩ := Acquisition.turn_snapshot hturn
        obtain ⟨hmem, hid⟩ := mem_of_getJob hget
        exact ⟨jobId, hjob, hkept jobId ⟨job, hmem, hid, hstate, hsnapshot⟩⟩

/-- Once the budget is spent the loop never has more to do. -/
theorem left_after
    (hlate : w.deadline < (w.after L cfg schedule i).clock) (him : i ≤ m) :
    (w.after L cfg schedule m).loop.left ≤ (w.after L cfg schedule i).loop.left := by
  induction m, him using Nat.le_induction with
  | base => exact Nat.le_refl _
  | succ m him ih =>
      have hlate' : (w.after L cfg schedule m).deadline < (w.after L cfg schedule m).clock := by
        rw [deadline_after]
        exact hlate.trans_le (clock_mono him)
      rcases (w.after L cfg schedule m).apply_cases (schedule m) with hloop | ⟨_, hloop⟩
      · rw [after_succ, hloop]
        exact ih
      · rw [after_succ, hloop]
        exact (Acquisition.left_poll_le _ _ hlate').trans ih

/-- The budget is spent some day, and then the loop comes to an end. -/
theorem finishes (h : w.Schedules L cfg schedule) :
    ∃ i, (w.after L cfg schedule i).loop.pending = [] := by
  -- Induction on the statements that are left.
  have hleft : ∀ n i, w.deadline < (w.after L cfg schedule i).clock →
      (w.after L cfg schedule i).loop.left = n →
      ∃ m, (w.after L cfg schedule m).loop.pending = [] := by
    intro n
    induction n using Nat.strong_induction_on with
    | _ n ih =>
        rintro i hlate rfl
        obtain ⟨m, hpoll, hm⟩ := h.fair (w.after L cfg schedule i).clock
        have him : i ≤ m := by
          by_contra hlt
          exact absurd (clock_mono (w := w) (Nat.le_of_not_le hlt)) (Nat.not_le.mpr hm)
        by_cases hzero : (w.after L cfg schedule m).loop.left = 0
        · exact ⟨m, Acquisition.pending_of_left hzero⟩
        have hlate' := hlate.trans hm
        have hless : (w.after L cfg schedule (m + 1)).loop.left <
            (w.after L cfg schedule i).loop.left := by
          have hdrop : (w.after L cfg schedule (m + 1)).loop.left <
              (w.after L cfg schedule m).loop.left := by
            rw [after_succ, hpoll]
            apply Acquisition.left_poll _ _ _ (Nat.pos_of_ne_zero hzero)
            rwa [deadline_after]
          exact hdrop.trans_le (left_after hlate him)
        exact ih _ hless (m + 1) (hlate'.trans_le (clock_mono (Nat.le_succ m))) rfl
  obtain ⟨i, _, hlate⟩ := h.fair w.deadline
  exact hleft _ i hlate rfl

end Schedules

/-- An exclusion happens at a poll, for the system the loop is at. -/
theorem exists_exclusion {system : Text}
    (hstart : w.loop.excluded = [])
    (h : system ∈ (w.after L cfg schedule m).loop.excludedSystems) :
    ∃ i, i < m ∧ ∃ p rest reason, (w.after L cfg schedule i).loop.pending = p :: rest ∧
      p.system = system ∧
      p.turn (w.after L cfg schedule i).budgetS (w.after L cfg schedule i).deadline
        (w.after L cfg schedule i).sync.queue.db (w.after L cfg schedule i).clock
        (w.after L cfg schedule i).loop.awaiting = .exclude reason := by
  induction m with
  | zero =>
      rw [after_zero, Acquisition.excludedSystems, hstart] at h
      cases h
  | succ m ih =>
      have hearlier : system ∈ (w.after L cfg schedule m).loop.excludedSystems →
          ∃ i, i < m + 1 ∧ _ := fun hmem => by
        obtain ⟨i, hi, hexcluded⟩ := ih hmem
        exact ⟨i, Nat.lt_succ_of_lt hi, hexcluded⟩
      rw [after_succ] at h
      rcases (w.after L cfg schedule m).apply_cases (schedule m) with hloop | ⟨_, hloop⟩
      · rw [hloop] at h
        exact hearlier h
      rw [hloop] at h
      rcases Acquisition.poll_cases _ _ _ _ _ with ⟨_, hpoll⟩ | ⟨p, rest, hpending,
        ⟨reason, hturn, hpoll⟩ | ⟨_, _, hpoll⟩ | ⟨_, _, hpoll⟩⟩
      · rw [hpoll] at h
        exact hearlier h
      · rw [hpoll, Acquisition.excludedSystems, List.map_append] at h
        rcases List.mem_append.mp h with h | h
        · exact hearlier h
        · refine ⟨m, Nat.lt_succ_self m, p, rest, reason, hpending, ?_, hturn⟩
          exact (List.mem_singleton.mp h).symm
      · rw [hpoll] at h
        exact hearlier h
      · rw [hpoll] at h
        exact hearlier h

end SyncRun

/-! ### Following the work -/

/-- Where the work of a job is: with the job itself, with the one that absorbed it, or with the one
it was coalesced into, and so on. -/
inductive Carries (rows : List JobRow) : Text → Text → Prop where
  | self {r : JobRow} : r ∈ rows → r.state ≠ .coalesced → Carries rows r.jobId r.jobId
  | absorbed {jobId carrier : Text} {r : JobRow} : (∀ r ∈ rows, r.jobId ≠ jobId) → r ∈ rows →
      (∃ t ∈ r.triggers, t.mergedFrom = some jobId) → Carries rows r.jobId carrier →
      Carries rows jobId carrier
  | coalesced {into carrier : Text} {r : JobRow} : r ∈ rows → r.state = .coalesced →
      (r.resultMeta.bind ResultMeta.coalescedInto) = some into → Carries rows into carrier →
      Carries rows r.jobId carrier

/-- A job that has its row and has not been coalesced has its work. -/
theorem Carries.eq_of_mem {t : JobTable} {jobId carrier : Text} (h : Carries t.rows jobId carrier)
    {r : JobRow} (hr : r ∈ t.rows) (hid : r.jobId = jobId) (hstate : r.state ≠ .coalesced) :
    carrier = jobId := by
  cases h with
  | self => rfl
  | absorbed hgone => exact absurd hid (hgone r hr)
  | coalesced hr' hcoalesced =>
      obtain rfl := t.eq_of_key hr hr' hid
      exact absurd hcoalesced hstate

namespace SyncRun

variable {w : SyncRun} {schedule : Nat → RunEvent}

def Waits (w : SyncRun) (system : Text) : Prop := system ∈ w.loop.waiting

/-- The loop is at the system and about to look at the clock. -/
def AtClock (w : SyncRun) (system : Text) : Prop :=
  w.loop.waiting.head? = some system ∧ ∃ state, w.loop.awaiting = .clock state

def snapshotBody (w : SyncRun) (snapshotId : Text) : Option (List UInt8) :=
  getSnapshotBody snapshotId w.sync.queue.db.rest.snapshots

/-- Acquisition follows the work of the job: if it succeeds within the budget, wherever it is by
then, with a snapshot that is not pruned before the loop is done with the system, the system is
included, and never excluded. -/
def Follows (L : Packages) (cfg : CoreConfig) (w : SyncRun) (schedule : Nat → RunEvent)
    (system jobId : Text) : Prop :=
  ∀ d carrier snapshotId, (w.after L cfg schedule d).clock ≤ w.deadline →
    Carries (w.after L cfg schedule d).rows jobId carrier →
    HasSucceeded (w.after L cfg schedule d).rows carrier snapshotId →
    (∀ i, (w.after L cfg schedule i).Waits system →
      HasSucceeded (w.after L cfg schedule i).rows carrier snapshotId →
      ((w.after L cfg schedule i).snapshotBody snapshotId).isSome) →
    (∃ i, system ∈ (w.after L cfg schedule i).loop.includedSystems) ∧
      ∀ i, system ∉ (w.after L cfg schedule i).loop.excludedSystems

/-- While the loop waits the job keeps its row and its work, and the clock does not run out between
the job's success and the loop's next look at it. -/
structure Undisturbed (L : Packages) (cfg : CoreConfig) (w : SyncRun)
    (schedule : Nat → RunEvent) (system jobId : Text) : Prop where
  stays : ∀ i, (w.after L cfg schedule i).Waits system →
    ∃ r ∈ (w.after L cfg schedule i).rows, r.jobId = jobId ∧ r.state ≠ .coalesced
  inTime : ∀ d i snapshotId, d ≤ i → (w.after L cfg schedule d).clock ≤ w.deadline →
    HasSucceeded (w.after L cfg schedule d).rows jobId snapshotId →
    (w.after L cfg schedule i).AtClock system → (w.after L cfg schedule i).clock ≤ w.deadline

theorem waits_of_le {i m : Nat} (him : i ≤ m) {system : Text}
    (h : (w.after L cfg schedule m).Waits system) : (w.after L cfg schedule i).Waits system := by
  obtain ⟨p, hp, rfl⟩ := List.mem_map.mp h
  exact List.mem_map_of_mem ((pending_suffix him).subset hp)

/-- The job is known to have succeeded at any time after it did, and where it is known to have
ended before. -/
theorem Undisturbed.hasSucceeded {system jobId carrier x : Text} {d i : Nat}
    (h : w.Undisturbed L cfg schedule system jobId) (hschedule : w.Schedules L cfg schedule)
    (hw : w.sync.Sound) (hcarries : Carries (w.after L cfg schedule d).rows jobId carrier)
    (hsucceeded : HasSucceeded (w.after L cfg schedule d).rows carrier x)
    (hwaits : (w.after L cfg schedule i).Waits system)
    (hended : d ≤ i ∨ ∃ r ∈ (w.after L cfg schedule i).rows, r.jobId = jobId ∧
      r.state.terminal = true ∧ r.state ≠ .coalesced) :
    carrier = jobId ∧ HasSucceeded (w.after L cfg schedule i).rows jobId x := by
  by_cases hdi : d ≤ i
  · obtain ⟨r, hr, hid, hstate⟩ := h.stays d (waits_of_le hdi hwaits)
    obtain rfl := hcarries.eq_of_mem hr hid hstate
    exact ⟨rfl, hschedule.hasSucceeded hw hdi hsucceeded⟩
  · obtain ⟨r, hr, hid, hterminal, hstate⟩ := hended.resolve_left hdi
    obtain ⟨r', hr', hid', hstate', hsnapshot'⟩ :=
      hschedule.ended hw (Nat.le_of_not_le hdi) hr hterminal
    obtain rfl := hcarries.eq_of_mem hr' (hid'.trans hid) (hstate' ▸ hstate)
    obtain ⟨hdone, hsnapshot⟩ := hsucceeded.eq hr' (hid'.trans hid)
    exact ⟨rfl, r, hr, hid, hstate'.symm.trans hdone, hsnapshot'.symm.trans hsnapshot⟩

/-- How a sync run begins. -/
structure Starts (w : SyncRun) : Prop where
  sound : w.sync.Sound
  awaiting : w.loop.awaiting = .job
  excluded : w.loop.excluded = []
  nodup : w.loop.waiting.Nodup

/-- Each way the loop may exclude a system is one that an undisturbed job has not come to. -/
theorem Starts.not_excluded (hw : w.Starts) (hschedule : w.Schedules L cfg schedule)
    {p : PendingSystem} (hp : p ∈ w.loop.pending) {jobId : Text} (hjob : truthy p.jobId = some jobId)
    (h : w.Undisturbed L cfg schedule p.system jobId) {d : Nat} {carrier x : Text}
    (hd : (w.after L cfg schedule d).clock ≤ w.deadline)
    (hcarries : Carries (w.after L cfg schedule d).rows jobId carrier)
    (hsucceeded : HasSucceeded (w.after L cfg schedule d).rows carrier x)
    (hkept : ∀ i, (w.after L cfg schedule i).Waits p.system →
      HasSucceeded (w.after L cfg schedule i).rows carrier x →
      ((w.after L cfg schedule i).snapshotBody x).isSome) (m : Nat) :
    p.system ∉ (w.after L cfg schedule m).loop.excludedSystems := by
  intro hexcluded
  obtain ⟨i, _, q, rest, reason, hpending, hsystem, hturn⟩ := exists_exclusion hw.excluded hexcluded
  have hq : q ∈ w.loop.pending :=
    (pending_suffix (Nat.zero_le i)).subset (hpending ▸ List.mem_cons_self)
  obtain rfl : q = p := List.inj_on_of_nodup_map hw.nodup hq hp hsystem
  have hwaits : (w.after L cfg schedule i).Waits q.system := by
    unfold Waits Acquisition.waiting
    rw [hpending]
    exact List.mem_cons_self
  have hknown := fun hended =>
    h.hasSucceeded hschedule hw.sound hcarries hsucceeded hwaits (i := i) hended
  rcases Acquisition.turn_exclude hjob hturn with ⟨_, hnone | ⟨job, hget, hterminal, hstate, hno⟩⟩ |
    ⟨y, hawaiting, hpruned⟩ | ⟨state, hawaiting, hlate⟩
  · -- The job has vanished.
    obtain ⟨r, hr, rfl, _⟩ := h.stays i hwaits
    exact getJob_of_mem hr hnone
  · -- It has ended without a snapshot.
    obtain ⟨hmem, hid⟩ := mem_of_getJob hget
    obtain ⟨_, hdone⟩ := hknown (Or.inr ⟨job, hmem, hid, hterminal, hstate⟩)
    obtain ⟨hsucc, hsnapshot⟩ := hdone.eq hmem hid
    cases (hno hsucc).symm.trans hsnapshot
  · -- Its snapshot has been pruned.
    obtain ⟨jobId', hjob', r, hr, hid, hsucc, hsnapshot⟩ :=
      hschedule.awaits_snapshot hw.sound hw.awaiting hpending hawaiting
    obtain rfl := Option.some.inj (hjob'.symm.trans hjob)
    obtain ⟨rfl, hdone⟩ := hknown (Or.inr ⟨r, hr, hid, by rw [hsucc]; rfl, by
      rw [hsucc]
      exact JobState.noConfusion⟩)
    obtain rfl : x = y := Option.some.inj ((hdone.eq hr hid).2.symm.trans hsnapshot)
    have hbody := hkept i hwaits hdone
    rw [snapshotBody, hpruned] at hbody
    cases hbody
  · -- The budget is spent.
    rw [deadline_after] at hlate
    by_cases hdi : d ≤ i
    · have hatClock : (w.after L cfg schedule i).AtClock q.system := by
        refine ⟨?_, state, hawaiting⟩
        rw [Acquisition.waiting, hpending]
        rfl
      obtain ⟨rfl, _⟩ := hknown (Or.inl hdi)
      exact absurd (h.inTime d i x hdi hd hsucceeded hatClock) (Nat.not_le.mpr hlate)
    · have hclock : (w.after L cfg schedule i).clock ≤ (w.after L cfg schedule d).clock :=
        clock_mono (Nat.le_of_not_le hdi)
      omega

/-- **An undisturbed job is followed.** -/
theorem Starts.follows (hw : w.Starts) (hschedule : w.Schedules L cfg schedule)
    {p : PendingSystem} (hp : p ∈ w.loop.pending) {jobId : Text} (hjob : truthy p.jobId = some jobId)
    (h : w.Undisturbed L cfg schedule p.system jobId) :
    w.Follows L cfg schedule p.system jobId := by
  intro d carrier x hd hcarries hsucceeded hkept
  have hnot := hw.not_excluded hschedule hp hjob h hd hcarries hsucceeded hkept
  refine ⟨?_, hnot⟩
  -- The loop ends, and then the system is somewhere.
  obtain ⟨i, hdone⟩ := hschedule.finishes
  refine ⟨i, ?_⟩
  have hmem : p.system ∈ w.loop.systems :=
    Multiset.mem_add.mpr (Or.inl (Multiset.mem_add.mpr (Or.inl (List.mem_map_of_mem hp))))
  have hsystems : (w.after L cfg schedule i).loop.systems = w.loop.systems := systems_after i
  rw [← hsystems, Acquisition.systems, Acquisition.waiting, hdone] at hmem
  rcases Multiset.mem_add.mp hmem with hmem | hmem
  · rcases Multiset.mem_add.mp hmem with hmem | hmem
    · cases hmem
    · exact hmem
  · exact absurd hmem (hnot i)

end SyncRun

theorem SyncState.Reachable.starts {s : SyncState} (hs : s.Reachable L cfg)
    (startedAt budgetS : Nat) : (s.executeRun L cfg startedAt budgetS).Starts where
  sound := hs.sound.apply (e := .consume) fun _ hcall => by cases hcall
  awaiting := rfl
  excluded := rfl
  nodup := by
    have hperm : ((s.pending.insertionSort bySystem).map PendingSystem.system).Perm
        (s.pending.map PendingSystem.system) := (List.perm_insertionSort bySystem s.pending).map _
    exact hperm.nodup_iff.mpr hs.sound.systems

/-- **Acquisition follows the work**, in every run in which the job named by the mark stays where it
is until the loop is done with its system. -/
theorem acquisition_follows {s : SyncState} (hs : s.Reachable L cfg) {startedAt budgetS : Nat}
    {schedule : Nat → RunEvent}
    (hschedule : (s.executeRun L cfg startedAt budgetS).Schedules L cfg schedule)
    {p : PendingSystem} (hp : p ∈ s.pending) {jobId : Text} (hjob : truthy p.jobId = some jobId)
    (h : (s.executeRun L cfg startedAt budgetS).Undisturbed L cfg schedule p.system jobId) :
    (s.executeRun L cfg startedAt budgetS).Follows L cfg schedule p.system jobId :=
  (hs.starts startedAt budgetS).follows hschedule ((List.mem_insertionSort bySystem).mpr hp) hjob h

/-! ### Scripts -/

instance (s : SyncState) (e : SyncEvent) : Decidable (s.Draws e) :=
  match h : s.callOf e with
  | none => isTrue fun c hcall => by cases h.symm.trans hcall
  | some c => decidable_of_iff (s.queue.Draws c) (by simp [SyncState.Draws, h])

instance (w : SyncRun) (e : RunEvent) : Decidable (w.Draws e) :=
  match e with
  | .sync e => inferInstanceAs (Decidable (w.sync.Draws e))
  | .wait _ => isTrue trivial
  | .poll => isTrue trivial

/-- The events in a row, and from then on the loop sleeps and polls. -/
def script (es : List RunEvent) (i : Nat) : RunEvent :=
  es.getD i (if i % 2 = 0 then .wait 1000 else .poll)

theorem script_of_le {es : List RunEvent} {i : Nat} (h : es.length ≤ i) :
    script es i = if i % 2 = 0 then .wait 1000 else .poll := by
  rw [script, List.getD_eq_getElem?_getD, List.getElem?_eq_none h, Option.getD_none]

namespace SyncRun

variable {w : SyncRun} {es : List RunEvent}

variable (L cfg) in
theorem clock_script (w : SyncRun) (es : List RunEvent) (k : Nat) :
    k ≤ (w.after L cfg (script es) (2 * (es.length + k))).clock := by
  induction k with
  | zero => exact Nat.zero_le _
  | succ k ih =>
      have hwait : script es (2 * (es.length + k)) = .wait 1000 := by
        rw [script_of_le (by omega), if_pos (by omega)]
      have hnext : (w.after L cfg (script es) (2 * (es.length + k) + 1)).clock =
          (w.after L cfg (script es) (2 * (es.length + k))).clock + 1000 := by
        rw [after_succ, hwait]
        rfl
      have hmono : (w.after L cfg (script es) (2 * (es.length + k) + 1)).clock ≤
          (w.after L cfg (script es) (2 * (es.length + (k + 1)))).clock := clock_mono (by omega)
      omega

theorem schedules_script (h : ∀ i < es.length, (w.after L cfg (script es) i).Draws (script es i)) :
    w.Schedules L cfg (script es) where
  draws i := by
    by_cases hi : i < es.length
    · exact h i hi
    · rw [script_of_le (Nat.le_of_not_lt hi)]
      split <;> trivial
  fair t := by
    refine ⟨2 * (es.length + (t + 1)) + 1, ?_, ?_⟩
    · rw [script_of_le (by omega), if_neg (by omega)]
    · have hclock := clock_script L cfg w es (t + 1)
      exact hclock.trans (clock_mono (Nat.le_succ _))

theorem sync_script {i : Nat} (h : es.length ≤ i) :
    (w.after L cfg (script es) i).sync = (w.after L cfg (script es) es.length).sync := by
  induction i, h using Nat.le_induction with
  | base => rfl
  | succ i hi ih =>
      rw [after_succ, script_of_le hi, ← ih]
      split <;> rfl

/-- A loop that is done waits for nothing any more. -/
theorem not_waits_of_le {schedule : Nat → RunEvent} {n i : Nat}
    (hdone : (w.after L cfg schedule n).loop.waiting = []) (h : n ≤ i) (system : Text) :
    ¬ (w.after L cfg schedule i).Waits system := by
  intro hwaits
  have hearlier := waits_of_le h hwaits
  rw [Waits, hdone] at hearlier
  cases hearlier

end SyncRun

def delivered : SnapshotVerdict where
  snapshotVersion := js "1"
  sourceMode := js "live"
  capturedAt := js "2026-08-01T00:00:00Z"
  connectorName := js "supabase"
  connectorVersion := js "1.0.0"
  objectCount := 0
  sha256 := js "e3b0"
  canonicalBodySha256 := js "e3b0"

/-- Trigger, mark, and a run that starts while a runner works on the job. -/
def acquiring : SyncRun :=
  (SyncState.events plainPackages defaultConfig
    [.trigger crm (js "schedule") none (js "J1") 0 0, .mark 0 0]).executeRun plainPackages
      defaultConfig 0 60

def acquiringEvents : List RunEvent :=
  [.sync (.call (.claimOnce snapshotRunner 1 (js "T1") fun _ => false)), .poll,
    .sync (.call (.transact (.succeedSnapshot (js "J1") (js "T1") delivered [] (js "S1") 5))),
    .poll, .poll, .poll]

theorem acquiring_undisturbed :
    acquiring.Undisturbed plainPackages defaultConfig (script acquiringEvents) (js "crm")
      (js "J1") := by
  have hdone : (acquiring.after plainPackages defaultConfig (script acquiringEvents)
      6).loop.waiting = [] := by decide
  have hstays : ∀ i < 6, ∃ r ∈ (acquiring.after plainPackages defaultConfig
      (script acquiringEvents) i).rows, r.jobId = js "J1" ∧ r.state ≠ .coalesced := by decide
  have hclock : ∀ i < 6, (acquiring.after plainPackages defaultConfig
      (script acquiringEvents) i).clock ≤ acquiring.deadline := by decide
  constructor
  · intro i hwaits
    by_cases hi : i < 6
    · exact hstays i hi
    · exact absurd hwaits (SyncRun.not_waits_of_le hdone (Nat.le_of_not_lt hi) _)
  · intro d i x _ _ _ hatClock
    by_cases hi : i < 6
    · exact hclock i hi
    · exact absurd (List.mem_of_mem_head? hatClock.1)
        (SyncRun.not_waits_of_le hdone (Nat.le_of_not_lt hi) _)

theorem acquisition_follows_acquiring :
    (∃ i, js "crm" ∈ (acquiring.after plainPackages defaultConfig (script acquiringEvents)
        i).loop.includedSystems) ∧
      ∀ i, js "crm" ∉ (acquiring.after plainPackages defaultConfig (script acquiringEvents)
        i).loop.excludedSystems := by
  obtain ⟨p, hp, hsystem, hjob⟩ : ∃ p ∈ (SyncState.events plainPackages defaultConfig
      [.trigger crm (js "schedule") none (js "J1") 0 0, .mark 0 0]).pending,
      p.system = js "crm" ∧ truthy p.jobId = some (js "J1") := by decide
  have hfollows := acquisition_follows (SyncState.reachable_events (by decide))
    (SyncRun.schedules_script (by decide)) hp hjob (hsystem ▸ acquiring_undisturbed)
  rw [hsystem] at hfollows
  have hdone : (acquiring.after plainPackages defaultConfig (script acquiringEvents)
      6).loop.waiting = [] := by decide
  have hstored : ∀ i < 6, HasSucceeded (acquiring.after plainPackages defaultConfig
      (script acquiringEvents) i).rows (js "J1") (js "S1") →
      ((acquiring.after plainPackages defaultConfig (script acquiringEvents) i).snapshotBody
        (js "S1")).isSome := by decide
  have hself : Carries (acquiring.after plainPackages defaultConfig (script acquiringEvents)
      3).rows (js "J1") (js "J1") := by
    obtain ⟨r, hr, hid, hstate⟩ : ∃ r ∈ (acquiring.after plainPackages defaultConfig
        (script acquiringEvents) 3).rows, r.jobId = js "J1" ∧ r.state ≠ .coalesced := by decide
    exact hid ▸ .self hr hstate
  refine hfollows 3 (js "J1") (js "S1") (by decide) hself (by decide) ?_
  intro i hwaits hsucceeded
  by_cases hi : i < 6
  · exact hstored i hi hsucceeded
  · exact absurd hwaits (SyncRun.not_waits_of_le hdone (Nat.le_of_not_lt hi) _)

/-- A run that starts with the system pending under the id of a job queued behind a live one. -/
def behind : SyncRun :=
  (SyncState.events plainPackages defaultConfig (triggeredTwice.take 5)).executeRun plainPackages
    defaultConfig 2 60

/-- The live job fails and takes over the queued one's work; half a minute later it succeeds. -/
def behindEvents : List RunEvent :=
  [.sync (.call (.transact (.failJob (js "J1") (js "T1") timeout 3 1000))), .poll, .wait 31000,
    .sync (.call (.claimOnce snapshotRunner 31002 (js "T2") fun _ => false)),
    .sync (.call (.transact (.succeedSnapshot (js "J1") (js "T2") delivered [] (js "S1") 31003)))]

/-- Every accepted snapshot of the run is kept. -/
def SyncRun.Unpruned (L : Packages) (cfg : CoreConfig) (w : SyncRun)
    (schedule : Nat → RunEvent) : Prop :=
  ∀ i, ∀ r ∈ (w.after L cfg schedule i).rows, ∀ x, r.state = .succeeded → r.snapshotId = some x →
    ((w.after L cfg schedule i).snapshotBody x).isSome

theorem behind_unpruned : behind.Unpruned plainPackages defaultConfig (script behindEvents) := by
  have hearly : ∀ i < 5, ∀ r ∈ (behind.after plainPackages defaultConfig (script behindEvents)
      i).rows, r.state ≠ .succeeded := by decide
  have hlate : ∀ r ∈ (behind.after plainPackages defaultConfig (script behindEvents) 5).rows,
      ∀ x ∈ r.snapshotId, ((behind.after plainPackages defaultConfig (script behindEvents)
        5).snapshotBody x).isSome := by decide
  intro i r hr x hstate hsnapshot
  by_cases hi : i < 5
  · exact absurd hstate (hearly i hi r hr)
  · have hsync : (behind.after plainPackages defaultConfig (script behindEvents) i).sync =
        (behind.after plainPackages defaultConfig (script behindEvents) 5).sync :=
      SyncRun.sync_script (Nat.le_of_not_lt hi)
    rw [SyncRun.rows, hsync] at hr
    rw [SyncRun.snapshotBody, hsync]
    exact hlate r hr x hsnapshot

/-- The loop polls for the absorbed job, finds no row, and excludes the system for good, although
the job that absorbed it succeeds in time and nothing is pruned. -/
theorem not_follows_behind :
    ¬ ∀ (L : Packages) (cfg : CoreConfig) (s : SyncState) (startedAt budgetS : Nat)
      (schedule : Nat → RunEvent) (p : PendingSystem) (jobId : Text), s.Reachable L cfg →
      (s.executeRun L cfg startedAt budgetS).Schedules L cfg schedule →
      (s.executeRun L cfg startedAt budgetS).Unpruned L cfg schedule → p ∈ s.pending →
      truthy p.jobId = some jobId →
      (s.executeRun L cfg startedAt budgetS).Follows L cfg schedule p.system jobId := by
  intro hall
  obtain ⟨p, hp, hsystem, hjob⟩ : ∃ p ∈ (SyncState.events plainPackages defaultConfig
      (triggeredTwice.take 5)).pending,
      p.system = js "crm" ∧ truthy p.jobId = some (js "J2") := by decide
  have hfollows := hall plainPackages defaultConfig _ 2 60 (script behindEvents) p (js "J2")
    (SyncState.reachable_events (by decide)) (SyncRun.schedules_script (by decide)) behind_unpruned
    hp hjob
  rw [hsystem] at hfollows
  have hcarries : Carries (behind.after plainPackages defaultConfig (script behindEvents) 5).rows
      (js "J2") (js "J1") := by
    obtain ⟨r, hr, hid, hstate, hmark⟩ : ∃ r ∈ (behind.after plainPackages defaultConfig
        (script behindEvents) 5).rows, r.jobId = js "J1" ∧ r.state ≠ .coalesced ∧
        ∃ t ∈ r.triggers, t.mergedFrom = some (js "J2") := by decide
    exact .absorbed (by decide) hr hmark (hid ▸ .self hr hstate)
  obtain ⟨_, hnot⟩ := hfollows 5 (js "J1") (js "S1") (by decide) hcarries (by decide) (by
    rintro i _ ⟨r, hr, _, hstate, hsnapshot⟩
    exact behind_unpruned i r hr _ hstate hsnapshot)
  exact hnot 2 (by decide)

end ContextLayer
