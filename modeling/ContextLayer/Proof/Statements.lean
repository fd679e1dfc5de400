import ContextLayer.Attempts
import ContextLayer.Sync

/-!
# What the statements of the queue ask and set

A transaction of the queue looks for rows by id, by lease or by expiry, and then at most for the
followers of jobs it has found. No statement moves a job to another system. Apart from `startJob`
none touches a start or gives a job a lease, and apart from `succeedSnapshot` none stores a snapshot.
-/

namespace ContextLayer

open Text Transaction Prog

variable {L : Packages} {cfg : CoreConfig}

def TxCall.isStart : TxCall → Bool
  | .startJob _ _ _ => true
  | _ => false

/-- The snapshot id the call stores its delivery under. -/
def TxCall.delivers : TxCall → Option Text
  | .succeedSnapshot _ _ _ _ snapshotId _ => some snapshotId
  | _ => none

/-- What the statements of a call may do to a job. -/
structure Worked (call : TxCall) (row row' : JobRow) : Prop where
  jobId : row'.jobId = row.jobId
  system : row'.system = row.system
  startedAt : call.isStart = false → row'.startedAt = row.startedAt
  live : call.isStart = false → row'.state.live = true → row.state.live = true
  snapshotId : ∀ id ∈ row'.snapshotId, call.delivers = some id ∨ id ∈ row.snapshotId

variable {call : TxCall}

theorem Worked.refl (row : JobRow) : Worked call row row :=
  ⟨rfl, rfl, fun _ => rfl, fun _ => id, fun _ => Or.inr⟩

theorem Worked.trans {row row' row'' : JobRow} (h : Worked call row row')
    (h' : Worked call row' row'') : Worked call row row'' where
  jobId := h'.jobId.trans h.jobId
  system := h'.system.trans h.system
  startedAt hcall := (h'.startedAt hcall).trans (h.startedAt hcall)
  live hcall hlive := h.live hcall (h'.live hcall hlive)
  snapshotId id hid := (h'.snapshotId id hid).elim Or.inl (h.snapshotId id)

def Works (call : TxCall) (set : Assignment jobSchema) : Prop :=
  ∀ row, Worked call row (set.apply row)

/-- What the statements of a call do, `asks` apart. -/
def TxCall.footprint (call : TxCall) (asks : (JobRow → Bool) → Prop) : Footprint jobSchema Tables where
  asks
  sets := Works call
  writes write := call.delivers = none → ∀ tables, (write tables).snapshots = tables.snapshots

/-- What sets a state without a lease. -/
theorem works_of_not_live {set : Assignment jobSchema} (hid : ∀ row, (set.apply row).jobId = row.jobId)
    (hsystem : ∀ row, (set.apply row).system = row.system)
    (hstarted : ∀ row, (set.apply row).startedAt = row.startedAt)
    (hsnapshot : ∀ row, ∀ id ∈ (set.apply row).snapshotId, id ∈ row.snapshotId)
    (hstate : ∀ row, (set.apply row).state.live = false) : Works call set := by
  intro row
  refine ⟨hid row, hsystem row, fun _ => hstarted row, ?_, fun id h => Or.inr (hsnapshot row id h)⟩
  intro _ hlive
  rw [hstate row] at hlive
  cases hlive

section

variable {asks : (JobRow → Bool) → Prop} {row : JobRow}

theorem recordHealthEvent_every (kind severity : String) (detail : List (Text × Json)) :
    (recordHealthEvent L kind severity row detail).Every (call.footprint asks) :=
  every_other fun _ _ => rfl

theorem cancelTerminal_every (now : Nat) (error : ErrorEnvelope) :
    (cancelTerminal now row error).Every (call.footprint asks) :=
  every_update _ (works_of_not_live (fun _ => rfl) (fun _ => rfl) (fun _ => rfl) (fun _ _ h => h)
    fun _ => rfl)

theorem deadLetter_every (now : Nat) (error : ErrorEnvelope) (kind : String) :
    (deadLetter L now row error kind).Every (call.footprint asks) := by
  apply every_bind
  · apply every_update
    exact works_of_not_live (fun _ => rfl) (fun _ => rfl) (fun _ => rfl) (fun _ _ h => h) fun _ => rfl
  · exact fun _ => recordHealthEvent_every ..

theorem absorbFollower_every (hasks : row.jobClass = .batch → asks (isFollower row)) :
    (absorbFollower row).Every (call.footprint asks) := by
  unfold absorbFollower
  split
  · exact every_pure _
  · rename_i hclass
    apply every_bind (every_select (hasks hclass))
    intro followers
    cases followers.head? with
    | none => exact every_pure _
    | some follower => exact every_bind (every_delete _) fun _ => every_pure _

theorem requeueOrDeadLetter_every (now jitter : Nat) (error : ErrorEnvelope) (kind : String)
    (hasks : row.jobClass = .batch → asks (isFollower row)) :
    (requeueOrDeadLetter L cfg now jitter row error kind).Every (call.footprint asks) := by
  unfold requeueOrDeadLetter
  split
  · exact every_bind (cancelTerminal_every _ _) fun _ => every_pure _
  split
  · exact every_bind (deadLetter_every _ _ _) fun _ => every_pure _
  · apply every_bind (absorbFollower_every hasks)
    intro triggers
    refine every_bind (every_update _ ?_) fun _ => every_pure _
    exact works_of_not_live (fun _ => rfl) (fun _ => rfl) (fun _ => rfl) (fun _ _ h => h) fun _ => rfl

theorem coalesceIntoQueued_every (now retryAfterS : Nat) (reason : Json)
    (hasks : row.jobClass = .batch → asks (isFollower row)) :
    (coalesceIntoQueued now row retryAfterS reason).Every (call.footprint asks) := by
  unfold coalesceIntoQueued
  split
  · exact every_pure _
  · rename_i hclass
    apply every_bind (every_select (hasks hclass))
    intro queued
    cases queued.head? with
    | none => exact every_pure _
    | some survivor =>
        refine every_bind (every_update _ fun row => ?_) fun _ =>
          every_bind (every_update _ ?_) fun _ => every_pure _
        · exact ⟨rfl, rfl, fun _ => rfl, fun _ => id, fun _ => Or.inr⟩
        · exact works_of_not_live (fun _ => rfl) (fun _ => rfl) (fun _ => rfl) (fun _ _ h => nomatch h)
            fun _ => rfl

theorem sweepRows_every (now : Nat) (jitter : Text → Nat) (rows : List JobRow)
    (hasks : ∀ r ∈ rows, r.jobClass = .batch → asks (isFollower r)) :
    (sweepRows L cfg now jitter rows).Every (call.footprint asks) := by
  induction rows with
  | nil => exact every_pure _
  | cons row rest ih =>
      have hsweep : (sweepRow L cfg now (jitter row.jobId) row).Every (call.footprint asks) :=
        every_bind (recordHealthEvent_every ..) fun _ =>
          requeueOrDeadLetter_every _ _ _ _ (hasks row List.mem_cons_self)
      apply every_bind hsweep
      intro outcome
      exact every_bind (ih fun r hr => hasks r (List.mem_cons_of_mem _ hr)) fun _ => every_pure _

end

/-! ### How the calls begin -/

/-- After its first `SELECT`, by `p`, the transaction is over if that finds nothing. Otherwise it
looks for followers of live batch jobs it has found, and does what `footprint` allows. -/
structure Begins {α : Type} (call : TxCall) (p : JobRow → Bool) (next : List JobRow → Tx α) :
    Prop where
  idle : ∃ a, next [] = .done a
  every : ∀ (asks : (JobRow → Bool) → Prop) rows,
    (∀ r ∈ rows, p r = true → r.LiveBatch r.dedupeKey → asks (isFollower r)) →
    (∀ r ∈ rows, p r = true) → (next rows).Every (call.footprint asks)

theorem Begins.map {α β : Type} {p : JobRow → Bool} {next : List JobRow → Tx α}
    (h : Begins call p next) (f : α → β) : Begins call p fun rows => f <$> next rows where
  idle := by
    obtain ⟨a, ha⟩ := h.idle
    refine ⟨f a, ?_⟩
    rw [ha]
    rfl
  every asks rows hasks hrows := every_map f (h.every asks rows hasks hrows)

theorem leased_begins {α : Type} {jobId leaseToken : Text}
    {body : Option JobRow → Tx α} (hnone : ∃ a, body none = .done a)
    (hsome : ∀ (asks : (JobRow → Bool) → Prop) row,
      (row.jobClass = .batch → asks (isFollower row)) → (body (some row)).Every (call.footprint asks)) :
    Begins call (isLeased jobId leaseToken) fun rows => body rows.head? where
  idle := hnone
  every asks rows hasks hrows := by
    cases rows with
    | nil =>
        obtain ⟨a, ha⟩ := hnone
        change (body none).Every _
        rw [ha]
        exact trivial
    | cons row rest =>
        have hrow := hrows row List.mem_cons_self
        apply hsome
        intro hclass
        refine hasks row List.mem_cons_self hrow ⟨?_, hclass, rfl⟩
        simp only [isLeased, Bool.and_eq_true] at hrow
        exact hrow.2

/-- The conditions the transactions begin with: they find one job by its id, or expired ones. -/
def FirstAsks (call : TxCall) (p : JobRow → Bool) : Prop :=
  (∃ jobId, ∀ r, p r = true → r.jobId = jobId) ∨
    ∃ now jitter locked, call = .sweepExpiredLeases now jitter locked ∧
      p = fun r => isExpired now r && !locked r.jobId

theorem firstAsks_leased (call : TxCall) (jobId leaseToken : Text) :
    FirstAsks call (isLeased jobId leaseToken) := by
  refine Or.inl ⟨jobId, ?_⟩
  intro r hr
  simp only [isLeased, Bool.and_eq_true, decide_eq_true_eq] at hr
  exact hr.1.1

/-- A call that does nothing but for the row it holds a lease of. -/
theorem leased_call {α : Type} {f : α → Reply} {jobId leaseToken : Text}
    {body : Option JobRow → Tx α} (hnone : ∃ a, body none = .done a)
    (hsome : ∀ (asks : (JobRow → Bool) → Prop) row,
      (row.jobClass = .batch → asks (isFollower row)) →
        (body (some row)).Every (call.footprint asks)) :
    ∃ p next, f <$> (lockLeased jobId leaseToken >>= body) = .select p next ∧
      Begins call p next ∧ FirstAsks call p :=
  ⟨_, _, rfl, (leased_begins hnone hsome).map f, firstAsks_leased call jobId leaseToken⟩

theorem select_call {α : Type} {f : α → Reply} {p : JobRow → Bool}
    {body : List JobRow → Tx α} (hbegins : Begins call p body) (hfirst : FirstAsks call p) :
    ∃ q next, f <$> (selectForUpdate p >>= body) = .select q next ∧
      Begins call q next ∧ FirstAsks call q :=
  ⟨p, _, rfl, hbegins.map f, hfirst⟩

variable (L cfg) in
theorem TxCall.begins (call : TxCall) :
    ∃ p next, call.tx L cfg = .select p next ∧ Begins call p next ∧ FirstAsks call p := by
  cases call with
  | startJob jobId leaseToken now =>
      refine leased_call ⟨_, rfl⟩ ?_
      exact fun asks row _ =>
        ⟨fun _ => ⟨rfl, rfl, (nomatch ·), (nomatch ·), fun _ => Or.inr⟩, trivial⟩
  | heartbeatJob jobId leaseToken progress now =>
      refine leased_call ⟨_, rfl⟩ ?_
      exact fun asks row _ => ⟨fun _ => ⟨rfl, rfl, fun _ => rfl, fun _ => id, fun _ => Or.inr⟩, trivial⟩
  | failJob jobId leaseToken error now jitter =>
      refine leased_call ⟨_, rfl⟩ ?_
      intro asks row hasks
      dsimp only
      split
      · exact every_bind (cancelTerminal_every _ _) fun _ =>
          every_bind (recordHealthEvent_every ..) fun _ => every_pure _
      split
      · exact every_map _ (requeueOrDeadLetter_every _ _ _ _ hasks)
      · exact every_bind (deadLetter_every _ _ _) fun _ => every_pure _
  | deferJob jobId leaseToken retryAfterS reason now jitter =>
      refine leased_call ⟨_, rfl⟩ ?_
      intro asks row hasks
      dsimp only
      split
      · exact every_bind (cancelTerminal_every _ _) fun _ => every_pure _
      split
      · exact every_bind (recordHealthEvent_every ..) fun _ =>
          every_bind (requeueOrDeadLetter_every _ _ _ _ hasks) fun _ => every_pure _
      · apply every_bind (coalesceIntoQueued_every _ _ _ hasks)
        intro done
        split
        · exact every_pure _
        · refine every_bind (every_update _ ?_) fun _ => every_pure _
          exact works_of_not_live (fun _ => rfl) (fun _ => rfl) (fun _ => rfl) (fun _ _ h => h) fun _ => rfl
  | succeedSnapshot jobId leaseToken verdict body snapshotId now =>
      refine leased_call ⟨_, rfl⟩ ?_
      intro asks row _
      refine ⟨(nomatch ·), (nomatch ·), ?_, trivial⟩
      intro row
      refine ⟨rfl, rfl, fun _ => rfl, fun _ hlive => (nomatch hlive), ?_⟩
      intro id hid
      change truthy (some snapshotId) = some id at hid
      exact Or.inl (Option.filter_eq_some_iff.mp hid).1
  | rejectDelivery jobId leaseToken errors now =>
      refine leased_call ⟨_, rfl⟩ ?_
      exact fun asks row _ => every_bind (deadLetter_every _ _ _) fun _ => every_pure _
  | succeedInline jobId leaseToken result now =>
      refine leased_call ⟨_, rfl⟩ ?_
      intro asks row _
      refine ⟨?_, trivial⟩
      exact works_of_not_live (fun _ => rfl) (fun _ => rfl) (fun _ => rfl) (fun _ _ h => h) fun _ => rfl
  | cancelJob jobId now =>
      refine select_call ?_ (Or.inl ⟨jobId, fun r hr => of_decide_eq_true hr⟩)
      refine ⟨⟨_, rfl⟩, ?_⟩
      intro asks rows _ _
      have hrequested : Works (.cancelJob jobId now) setCancelRequested := fun _ =>
        ⟨rfl, rfl, fun _ => rfl, fun _ => id, fun _ => Or.inr⟩
      cases rows.head? with
      | none => exact every_pure _
      | some row =>
          dsimp only
          split
          · exact every_bind (cancelTerminal_every _ _) fun _ => every_pure _
          · exact every_bind (every_update _ hrequested) fun _ => every_pure _
          · exact every_bind (every_update _ hrequested) fun _ => every_pure _
          · exact every_pure _
  | sweepExpiredLeases now jitter locked =>
      refine select_call ?_ (Or.inr ⟨now, jitter, locked, rfl, rfl⟩)
      refine ⟨⟨_, rfl⟩, ?_⟩
      intro asks rows hasks hrows
      apply sweepRows_every
      intro r hr hclass
      have hexpired := hrows r hr
      refine hasks r hr hexpired ⟨?_, hclass, rfl⟩
      simp only [isExpired, Bool.and_eq_true] at hexpired
      exact hexpired.1.1

/-! ### What a whole call does -/

section

variable {db db' : Database} {reply : Reply}

theorem TxCall.run_next (hrun : (call.tx L cfg).run db = some (reply, db')) :
    ∃ p : Tx Reply, p.Every (call.footprint fun _ => True) ∧ p.run db = some (reply, db') := by
  obtain ⟨p, next, htx, hbegins, _⟩ := call.begins L cfg
  rw [htx] at hrun
  refine ⟨next (db.table.rows.filter p), ?_, hrun⟩
  exact hbegins.every _ _ (fun _ _ _ _ => trivial) fun r hr => (List.mem_filter.mp hr).2

variable (call) in
theorem TxCall.worked (hrun : (call.tx L cfg).run db = some (reply, db')) {row' : JobRow}
    (hrow' : row' ∈ db'.table.rows) : ∃ row ∈ db.table.rows, Worked call row row' := by
  obtain ⟨p, hevery, hrun⟩ := call.run_next hrun
  exact hevery.rows_related Worked.refl Worked.trans (fun _ h => h) hrun hrow'

theorem TxCall.snapshots_eq (hrun : (call.tx L cfg).run db = some (reply, db'))
    (hcall : call.delivers = none) : db'.rest.snapshots = db.rest.snapshots := by
  obtain ⟨p, hevery, hrun⟩ := call.run_next hrun
  exact hevery.rest_eq (fun write (h : call.delivers = none → _) => h hcall) hrun

end

end ContextLayer
