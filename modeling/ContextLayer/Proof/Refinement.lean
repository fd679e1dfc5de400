import ContextLayer.Calls
import ContextLayer.Proof.Handover

/-!
# The queue's operations are runs of the rules

Run alone, an operation commits, whatever it is called with, and what it does to the job table is a
run of the rules. So the uniqueness index refuses none of them: where one returns a job to the queue
its follower has just been taken out of the way.
-/

namespace ContextLayer

open Text Transaction Prog

/-! ### The index -/

theorem deduped_iff {rows : List JobRow} (hnodup : (rows.map JobRow.jobId).Nodup) :
    Deduped rows ↔ ∀ r ∈ rows, ∀ r' ∈ rows, ∀ key, r.QueuedBatch key → r'.QueuedBatch key → r = r' := by
  constructor
  · intro h r hr r' hr' key hkey hkey'
    by_contra hne
    have hsymm : Std.Symm fun a b : JobRow =>
        ¬ (a.QueuedBatch a.dedupeKey ∧ b.QueuedBatch a.dedupeKey) := by
      refine ⟨?_⟩
      rintro a b hab ⟨hb, ha⟩
      have hkeys : a.dedupeKey = b.dedupeKey := ha.2.2
      exact hab ⟨hkeys ▸ ha, hkeys ▸ hb⟩
    obtain rfl : r.dedupeKey = key := hkey.2.2
    exact List.Pairwise.forall h hr hr' hne ⟨hkey, hkey'⟩
  · intro h
    have hkeys : rows.Pairwise fun r r' => r.jobId ≠ r'.jobId := List.pairwise_map.mp hnodup
    refine List.Pairwise.imp_of_mem ?_ hkeys
    rintro r r' hr hr' hne ⟨hkey, hkey'⟩
    exact hne (congrArg JobRow.jobId (h r hr r' hr' _ hkey hkey'))

/-- What a statement sets on one row is accepted where no other row is queued under its key. -/
theorem update_isSome {t : JobTable} {row : JobRow} (hrow : row ∈ t.rows)
    (set : Assignment jobSchema)
    (hfree : ∀ key, (set.apply row).QueuedBatch key →
      ∀ r ∈ t.rows, r.jobId ≠ row.jobId → ¬ r.QueuedBatch key) :
    ∃ t', t.update row.jobId set = some t' := by
  have hset : ∀ r ∈ t.rows, r.jobId = row.jobId → r = row := fun r hr => t.eq_of_key hr hrow
  have hnodup : ((updateRows jobSchema row.jobId set t.rows).map JobRow.jobId).Nodup := by
    have hkeys := map_key_updateRows (S := jobSchema) row.jobId set t.rows
    exact hkeys ▸ t.nodup
  have hholds : Deduped (updateRows jobSchema row.jobId set t.rows) := by
    rw [deduped_iff hnodup]
    intro r hr r' hr' key hkey hkey'
    rcases mem_updateRows.mp hr with ⟨r₀, hr₀, hid, rfl⟩ | ⟨hr, hne⟩ <;>
      rcases mem_updateRows.mp hr' with ⟨r₁, hr₁, hid', rfl⟩ | ⟨hr', hne'⟩
    · rw [hset r₀ hr₀ hid, hset r₁ hr₁ hid']
    · rw [hset r₀ hr₀ hid] at hkey
      exact absurd hkey' (hfree key hkey r' hr' hne')
    · rw [hset r₁ hr₁ hid'] at hkey'
      exact absurd hkey (hfree key hkey' r hr hne)
    · exact (deduped_iff t.nodup).mp t.holds r hr r' hr' key hkey hkey'
  exact Table.exists_update hholds

/-- Of the jobs of a key, at most one is queued. -/
theorem free_of_queued {t : JobTable} {row : JobRow} {key : Text × Text} (hrow : row ∈ t.rows)
    (hqueued : row.QueuedBatch key) : ∀ r ∈ t.rows, r.jobId ≠ row.jobId → ¬ r.QueuedBatch key := by
  intro r hr hne hr_queued
  exact hne (congrArg JobRow.jobId
    ((deduped_iff t.nodup).mp t.holds r hr row hrow key hr_queued hqueued))

theorem free_rest {t : JobTable} {row : JobRow} {rest : Multiset JobRow}
    (hbag : t.bag = row ::ₘ rest) {key : Text × Text}
    (hfree : ∀ r ∈ t.rows, r.jobId ≠ row.jobId → ¬ r.QueuedBatch key) : Free key rest := by
  intro r hr
  have hmem : r ∈ t.bag := by
    rw [hbag]
    exact Multiset.mem_cons_of_mem hr
  exact hfree r (Table.mem_bag.mp hmem) (Table.key_ne_of_bag hbag hr)

/-! ### Statements -/

/-- The jobs go from `db` to `db'` by the rules. -/
def Advances (ulids : List Text) (db db' : Database) : Prop :=
  JobRun ulids 0 db.table.bag db'.table.bag

theorem Advances.refl (ulids : List Text) (db : Database) : Advances ulids db db := JobRun.refl _

theorem Advances.trans {ulids : List Text} {db db' db'' : Database} (h : Advances ulids db db')
    (h' : Advances ulids db' db'') : Advances ulids db db'' :=
  JobRun.trans h h'

variable {ulids : List Text} {db : Database}

theorem exists_bag {t : JobTable} {row : JobRow} (hrow : row ∈ t.rows) :
    ∃ rest, t.bag = row ::ₘ rest :=
  Multiset.exists_cons_of_mem (Table.mem_bag.mpr hrow)

/-- A transaction on `row` moves the jobs by the rules, and leaves every other live job alone. -/
def Serves (ulids : List Text) (row : JobRow) (db db' : Database) : Prop :=
  Advances ulids db db' ∧
    ∀ r ∈ db.table.rows, r.state.live = true → r.jobId ≠ row.jobId → r ∈ db'.table.rows

theorem Serves.of_table {row : JobRow} {db' db'' : Database} (h : Serves ulids row db db')
    (htable : db''.table = db'.table) : Serves ulids row db db'' := by
  unfold Serves Advances at h ⊢
  rwa [htable]

/-- An `UPDATE` of one job, when what it sets is a transition. -/
theorem updateRow_commits {row : JobRow} (hrow : row ∈ db.table.rows) {set : Assignment jobSchema}
    (hsame : Keeps row (set.apply row)) (htriggers : (set.apply row).triggers = row.triggers)
    (hfree : ∀ key, (set.apply row).QueuedBatch key →
      ∀ r ∈ db.table.rows, r.jobId ≠ row.jobId → ¬ r.QueuedBatch key)
    (hstep : ∀ rest, db.table.bag = row ::ₘ rest → RowStep ulids rest row (set.apply row)) :
    (updateRow row.jobId set : Tx Unit).Commits db fun _ db' => Serves ulids row db db' := by
  obtain ⟨t', ht'⟩ := update_isSome hrow set hfree
  obtain ⟨rest, hbag⟩ := exists_bag hrow
  apply commits_update ht'
  constructor
  · unfold Advances
    rw [Table.bag_update ht' hbag, hbag]
    exact .single (.change hsame htriggers (hstep rest hbag))
  · intro r hr _ hne
    rw [Table.update_eq_some.mp ht']
    exact mem_updateRows.mpr (Or.inr ⟨hr, hne⟩)

/-- A job that leaves the queue is in nobody's way. -/
theorem updateRow_commits_of_ne {row : JobRow} (hrow : row ∈ db.table.rows)
    {set : Assignment jobSchema} (hsame : Keeps row (set.apply row))
    (htriggers : (set.apply row).triggers = row.triggers)
    (hstate : (set.apply row).state ≠ .queued)
    (hstep : ∀ rest, db.table.bag = row ::ₘ rest → RowStep ulids rest row (set.apply row)) :
    (updateRow row.jobId set : Tx Unit).Commits db fun _ db' => Serves ulids row db db' :=
  updateRow_commits hrow hsame htriggers (fun _ hqueued => absurd hqueued.1 hstate) hstep

variable (db) in
theorem recordHealthEvent_commits (L : Packages) (kind severity : String) (row : JobRow)
    (detail : List (Text × Json)) :
    (recordHealthEvent L kind severity row detail).Commits db fun _ db' => db'.table = db.table :=
  commits_other rfl

variable (ulids) in
theorem cancelTerminal_commits (now : Nat) (error : ErrorEnvelope) {row : JobRow}
    (hrow : row ∈ db.table.rows) (hstate : row.state = .queued ∨ row.state.live = true) :
    (cancelTerminal now row error).Commits db fun _ db' => Serves ulids row db db' := by
  apply updateRow_commits_of_ne hrow ⟨⟨rfl, rfl, rfl⟩, rfl⟩ rfl
  · exact JobState.noConfusion
  · intro rest _
    exact .finish hstate rfl JobState.noConfusion rfl fun hne => absurd rfl hne

theorem deadLetter_commits (L : Packages) (now : Nat) (error : ErrorEnvelope) (kind : String)
    {row : JobRow} (hrow : row ∈ db.table.rows) (hlive : row.state.live = true) :
    (deadLetter L now row error kind).Commits db fun _ db' => Serves ulids row db db' := by
  have hupdate : (updateRow row.jobId (setDeadLettered now error) : Tx Unit).Commits db
      fun _ db' => Serves ulids row db db' := by
    apply updateRow_commits_of_ne hrow ⟨⟨rfl, rfl, rfl⟩, rfl⟩ rfl
    · exact JobState.noConfusion
    · intro rest _
      exact .finish (Or.inr hlive) rfl JobState.noConfusion rfl fun _ => hlive
  refine commits_bind hupdate ?_
  intro _ db' h
  exact commits_mono (recordHealthEvent_commits _ ..) fun _ _ htable => h.of_table htable

/-! ### Returning to the queue -/

/-- What the follower query finds: nothing, and then nothing of the key is queued, or the follower,
and its row goes. -/
theorem absorbFollower_commits {row : JobRow} :
    (absorbFollower row).Commits db fun triggers db' =>
      (db' = db ∧ triggers = row.triggers ∧
        (row.jobClass = .batch →
          ∀ r ∈ db.table.rows, r.jobId ≠ row.jobId → ¬ r.QueuedBatch row.dedupeKey)) ∨
      ∃ follower ∈ db.table.rows, follower.jobId ≠ row.jobId ∧ row.jobClass = .batch ∧
        follower.QueuedBatch row.dedupeKey ∧
        db' = { db with table := db.table.delete follower.jobId } ∧
        triggers = row.triggers ++ follower.triggers.map (Trigger.mark follower.jobId) := by
  unfold absorbFollower
  split
  case h_1 hclass =>
    apply commits_pure
    refine Or.inl ⟨rfl, rfl, ?_⟩
    intro hbatch
    cases hclass.symm.trans hbatch
  case h_2 hclass =>
    refine commits_bind (commits_select (Q := fun followers db' => db' = db ∧
      followers = db.table.rows.filter (isFollower row)) ⟨rfl, rfl⟩) ?_
    rintro followers db' ⟨hdb, hfollowers⟩
    subst db'
    cases followers with
    | nil =>
        apply commits_pure
        refine Or.inl ⟨rfl, rfl, ?_⟩
        intro _ r hr hne hqueued
        have hmem : r ∈ ([] : List JobRow) := by
          rw [hfollowers]
          exact List.mem_filter.mpr ⟨hr, by simp [isFollower, hqueued, hne]⟩
        cases hmem
    | cons follower others =>
        have hmem : follower ∈ db.table.rows.filter (isFollower row) :=
          hfollowers ▸ List.mem_cons_self
        simp only [List.mem_filter, isFollower, Bool.and_eq_true, decide_eq_true_eq] at hmem
        obtain ⟨hfollower, hqueued, hne⟩ := hmem
        refine commits_bind (commits_delete (Q := fun _ db' =>
          db' = { db with table := db.table.delete follower.jobId }) rfl) ?_
        rintro _ db' hdb'
        subst db'
        apply commits_pure
        exact Or.inr ⟨follower, hfollower, hne, hclass, hqueued, rfl, rfl⟩

variable (ulids) in
theorem requeueOrDeadLetter_commits (L : Packages) (cfg : CoreConfig) (now jitter : Nat)
    (error : ErrorEnvelope) (kind : String) {row : JobRow} (hrow : row ∈ db.table.rows)
    (hlive : row.state.live = true) :
    (requeueOrDeadLetter L cfg now jitter row error kind).Commits db
      fun _ db' => Serves ulids row db db' := by
  unfold requeueOrDeadLetter
  by_cases hcancel : row.cancelRequested = true
  · rw [if_pos hcancel]
    exact commits_then_pure (cancelTerminal_commits ulids now _ hrow (Or.inr hlive))
  rw [if_neg hcancel]
  by_cases hattempts : row.maxAttempts ≤ row.attempt
  · rw [if_pos hattempts]
    exact commits_then_pure (deadLetter_commits L now error kind hrow hlive)
  rw [if_neg hattempts]
  refine commits_bind absorbFollower_commits ?_
  rintro triggers db' (⟨hdb', htriggers, hfree⟩ | ⟨follower, hfollower, hne, hclass, hqueued, hdb',
    htriggers⟩)
  · -- Nothing is queued behind the job: it goes back as it is.
    subst db'
    have hset : ∀ key, (JobRow.QueuedBatch key
        ((setRequeued (now + backoff cfg row.attempt jitter) triggers error).apply row)) →
        ∀ r ∈ db.table.rows, r.jobId ≠ row.jobId → ¬ r.QueuedBatch key := by
      rintro key ⟨_, hbatch, rfl⟩
      exact hfree hbatch
    apply commits_then_pure
    apply updateRow_commits hrow ⟨⟨rfl, rfl, rfl⟩, rfl⟩ htriggers hset
    intro rest hbag
    exact .requeue hlive rfl rfl fun hbatch => free_rest hbag (hfree hbatch)
  · -- The follower's row is gone, and with it the only other queued job of the key.
    subst db'
    have hfree : ∀ r ∈ (db.table.delete follower.jobId).rows, r.jobId ≠ row.jobId →
        ¬ r.QueuedBatch row.dedupeKey := by
      intro r hr _
      obtain ⟨hr, hr_ne⟩ := mem_deleteRows.mp hr
      exact free_of_queued hfollower hqueued r hr hr_ne
    have hrow' : row ∈ (db.table.delete follower.jobId).rows :=
      mem_deleteRows.mpr ⟨hrow, fun heq => hne heq.symm⟩
    obtain ⟨t', ht'⟩ := update_isSome (t := db.table.delete follower.jobId) hrow'
      (setRequeued (now + backoff cfg row.attempt jitter) triggers error) (by
        rintro key ⟨_, _, rfl⟩
        exact hfree)
    apply commits_then_pure
    apply commits_update ht'
    constructor
    · obtain ⟨others, hothers⟩ := exists_bag hfollower
      have hdelete : (db.table.delete follower.jobId).bag = others := Table.bag_delete hothers
      obtain ⟨rest, hrest⟩ := exists_bag hrow'
      unfold Advances
      rw [Table.bag_update ht' hrest, hothers, ← hdelete, hrest]
      exact .single (.absorb ⟨⟨rfl, rfl, rfl⟩, rfl⟩ ⟨hlive, hclass, rfl⟩ hqueued (free_rest hrest hfree) rfl
        rfl htriggers)
    · intro r hr hr_live hr_ne
      rw [Table.update_eq_some.mp ht']
      refine mem_updateRows.mpr (Or.inr ⟨mem_deleteRows.mpr ⟨hr, ?_⟩, hr_ne⟩)
      intro heq
      have hr_eq : r = follower := db.table.eq_of_key hr hfollower heq
      rw [hr_eq, hqueued.1] at hr_live
      cases hr_live

/-! ### The lease holder's calls -/

/-- A call that holds no lease does nothing; one that does works on its live job. -/
theorem leased_commits {α : Type} {jobId leaseToken : Text} {body : Option JobRow → Tx α}
    {Q : α → Database → Prop} (hnone : (body none).Commits db Q)
    (hsome : ∀ row ∈ db.table.rows, row.jobId = jobId → row.state.live = true →
      (body (some row)).Commits db Q) : (lockLeased jobId leaseToken >>= body).Commits db Q := by
  have hlock : (lockLeased jobId leaseToken).Commits db fun found db' => db' = db ∧
      ∀ row, found = some row → row ∈ db.table.rows ∧ row.jobId = jobId ∧ row.state.live = true := by
    unfold lockLeased
    apply commits_bind (commits_select (Q := fun rows db' => db' = db ∧
      rows = db.table.rows.filter _) ⟨rfl, rfl⟩)
    rintro rows db' ⟨hdb', hrows⟩
    subst db'
    apply commits_pure
    refine ⟨rfl, ?_⟩
    intro row hhead
    have hmem := List.mem_of_mem_head? hhead
    rw [hrows] at hmem
    simp only [List.mem_filter, Bool.and_eq_true, decide_eq_true_eq] at hmem
    exact ⟨hmem.1, hmem.2.1.1, hmem.2.2⟩
  refine commits_bind hlock ?_
  rintro found db' ⟨hdb', hfound⟩
  subst db'
  cases found with
  | none => exact hnone
  | some row =>
      obtain ⟨hrow, hid, hlive⟩ := hfound row rfl
      exact hsome row hrow hid hlive

theorem JobState.ne_queued_of_live {state : JobState} (h : state.live = true) : state ≠ .queued := by
  rintro rfl
  cases h

theorem startJob_commits (cfg : CoreConfig) (jobId leaseToken : Text) (now : Nat) :
    (startJob cfg jobId leaseToken now).Commits db fun _ => Advances ulids db := by
  apply leased_commits
  · exact commits_pure (.refl ulids db)
  · rintro row hrow rfl hlive
    apply commits_then_pure
    refine commits_mono (updateRow_commits_of_ne hrow ⟨⟨rfl, rfl, rfl⟩, rfl⟩ rfl JobState.noConfusion ?_)
      fun _ _ h => h.1
    exact fun _ _ => .work hlive rfl rfl

theorem heartbeatJob_commits (cfg : CoreConfig) (jobId leaseToken : Text) (progress : Option Json)
    (now : Nat) :
    (heartbeatJob cfg jobId leaseToken progress now).Commits db fun _ => Advances ulids db := by
  apply leased_commits
  · exact commits_pure (.refl ulids db)
  · rintro row hrow rfl hlive
    apply commits_then_pure
    refine commits_mono (updateRow_commits_of_ne hrow ⟨⟨rfl, rfl, rfl⟩, rfl⟩ rfl
      (JobState.ne_queued_of_live hlive) ?_) fun _ _ h => h.1
    exact fun _ _ => .work hlive hlive rfl

theorem failJob_commits (L : Packages) (cfg : CoreConfig) (jobId leaseToken : Text)
    (error : ErrorEnvelope) (now jitter : Nat) :
    (failJob L cfg jobId leaseToken error now jitter).Commits db fun _ => Advances ulids db := by
  apply leased_commits
  · exact commits_pure (.refl ulids db)
  · rintro row hrow rfl hlive
    by_cases hcode : (redactError L error).code = js "cancelled"
    · simp only [hcode, if_true]
      refine commits_bind (cancelTerminal_commits ulids now _ hrow (Or.inr hlive)) ?_
      intro _ db' h
      apply commits_then_pure
      exact commits_mono (recordHealthEvent_commits _ ..) fun _ _ htable => (h.of_table htable).1
    simp only [hcode, if_false]
    by_cases hretry : (redactError L error).retryable = true
    · rw [if_pos hretry]
      apply commits_map
      exact commits_mono (requeueOrDeadLetter_commits ulids L cfg now jitter _ _ hrow hlive) fun _ _ h => h.1
    · rw [if_neg hretry]
      apply commits_then_pure
      exact commits_mono (deadLetter_commits L now _ _ hrow hlive) fun _ _ h => h.1

variable (ulids) in
/-- A deferral finds nothing queued under its key, or hands its work over. -/
theorem coalesceIntoQueued_commits (now retryAfterS : Nat) (reason : Json) {row : JobRow}
    (hrow : row ∈ db.table.rows) (hlive : row.state.live = true) :
    (coalesceIntoQueued now row retryAfterS reason).Commits db fun done db' =>
      (done = true ∧ Advances ulids db db') ∨
      (done = false ∧ db' = db ∧ (row.jobClass = .batch →
        ∀ r ∈ db.table.rows, r.jobId ≠ row.jobId → ¬ r.QueuedBatch row.dedupeKey)) := by
  unfold coalesceIntoQueued
  split
  case h_1 hclass =>
    apply commits_pure
    refine Or.inr ⟨rfl, rfl, ?_⟩
    intro hbatch
    cases hclass.symm.trans hbatch
  case h_2 hclass =>
    refine commits_bind (commits_select (Q := fun queued db' => db' = db ∧
      queued = db.table.rows.filter (isFollower row)) ⟨rfl, rfl⟩) ?_
    rintro queued db' ⟨hdb', hqueued_rows⟩
    subst db'
    cases queued with
    | nil =>
        apply commits_pure
        refine Or.inr ⟨rfl, rfl, ?_⟩
        intro _ r hr hne hqueued
        have hmem : r ∈ ([] : List JobRow) := by
          rw [hqueued_rows]
          exact List.mem_filter.mpr ⟨hr, by simp [isFollower, hqueued, hne]⟩
        cases hmem
    | cons survivor others =>
        have hmem : survivor ∈ db.table.rows.filter (isFollower row) :=
          hqueued_rows ▸ List.mem_cons_self
        simp only [List.mem_filter, isFollower, Bool.and_eq_true, decide_eq_true_eq] at hmem
        obtain ⟨hsurvivor, hqueued, hne⟩ := hmem
        obtain ⟨t₁, ht₁⟩ := update_isSome hsurvivor (setSurvivor (now + secs retryAfterS)
          (survivor.triggers ++ row.triggers.map (Trigger.mark row.jobId))) (by
            intro key hkey
            exact free_of_queued hsurvivor ⟨hqueued.1, hqueued.2.1, hkey.2.2⟩)
        have hrow₁ : row ∈ t₁.rows := by
          rw [Table.update_eq_some.mp ht₁]
          exact mem_updateRows.mpr (Or.inr ⟨hrow, fun heq => hne heq.symm⟩)
        obtain ⟨t₂, ht₂⟩ := update_isSome hrow₁
          (setCoalesced now retryAfterS survivor.jobId reason)
          (fun _ hkey => JobState.noConfusion hkey.1)
        refine commits_bind (commits_update ht₁ (Q := fun _ db' => db' = { db with table := t₁ })
          rfl) ?_
        rintro _ db' hdb'
        subst db'
        refine commits_bind (commits_update ht₂ (Q := fun _ db' => Advances ulids db db') ?_)
          fun _ db' h => commits_pure (Or.inl ⟨rfl, h⟩)
        obtain ⟨others, hothers⟩ := exists_bag hsurvivor
        have hrow_mem : row ∈ survivor ::ₘ others := hothers ▸ Table.mem_bag.mpr hrow
        have hrow_others : row ∈ others :=
          (Multiset.mem_cons.mp hrow_mem).resolve_left fun heq => hne (heq ▸ rfl)
        obtain ⟨rest, rfl⟩ := Multiset.exists_cons_of_mem hrow_others
        have hbag₁ := Table.bag_update ht₁ hothers
        rw [Multiset.cons_swap] at hbag₁
        unfold Advances
        rw [Table.bag_update ht₂ hbag₁, hothers, Multiset.cons_swap _ (Assignment.apply _ survivor)]
        exact .single (.coalesce ⟨⟨rfl, rfl, rfl⟩, rfl⟩ ⟨⟨rfl, rfl, rfl⟩, rfl⟩ ⟨hlive, hclass, rfl⟩ hqueued rfl rfl rfl
          hqueued.1 rfl rfl rfl)

theorem deferJob_commits (L : Packages) (cfg : CoreConfig) (jobId leaseToken : Text)
    (retryAfterS : Nat) (reason : Json) (now jitter : Nat) :
    (deferJob L cfg jobId leaseToken retryAfterS reason now jitter).Commits db
      fun _ => Advances ulids db := by
  apply leased_commits
  · exact commits_pure (.refl ulids db)
  · rintro row hrow rfl hlive
    by_cases hcancel : row.cancelRequested = true
    · simp only [hcancel, if_true]
      apply commits_then_pure
      exact commits_mono (cancelTerminal_commits ulids now _ hrow (Or.inr hlive)) fun _ _ h => h.1
    simp only [hcancel]
    by_cases hcap : row.maxDeferrals < row.deferrals + 1
    · -- Past the cap the deferral is a retryable failure.
      simp only [hcap, if_true]
      refine commits_bind (recordHealthEvent_commits db ..) ?_
      intro _ db' htable
      apply commits_then_pure
      have hrow' : row ∈ db'.table.rows := htable ▸ hrow
      refine commits_mono (requeueOrDeadLetter_commits ulids L cfg now jitter _ _ hrow'
        hlive) ?_
      intro _ db'' h
      unfold Serves Advances at h
      rw [htable] at h
      exact h.1
    simp only [hcap, if_false]
    refine commits_bind (coalesceIntoQueued_commits ulids now retryAfterS _ hrow hlive) ?_
    rintro done db' (⟨rfl, hadvances⟩ | ⟨rfl, hdb', hfree⟩)
    · exact commits_pure hadvances
    · subst db'
      apply commits_then_pure
      refine commits_mono (updateRow_commits hrow ⟨⟨rfl, rfl, rfl⟩, rfl⟩ rfl ?_ ?_) fun _ _ h => h.1
      · rintro key ⟨_, hbatch, rfl⟩
        exact hfree hbatch
      · intro rest hbag
        exact .requeue hlive rfl rfl fun hbatch => free_rest hbag (hfree hbatch)

/-! ### Delivery, and the producer's calls -/

variable (ulids) in
theorem setSucceeded_commits (now : Nat) (result : Option Json) (resultMeta : Option ResultMeta)
    {row : JobRow} (hrow : row ∈ db.table.rows) (hlive : row.state.live = true) :
    (updateRow row.jobId (setSucceeded now result resultMeta) : Tx Unit).Commits db
      fun _ => Advances ulids db := by
  refine commits_mono (updateRow_commits_of_ne hrow ⟨⟨rfl, rfl, rfl⟩, rfl⟩ rfl JobState.noConfusion ?_)
    fun _ _ h => h.1
  exact fun _ _ => .finish (Or.inr hlive) rfl JobState.noConfusion rfl fun _ => hlive

theorem succeedSnapshot_commits (cfg : CoreConfig) (jobId leaseToken : Text) (verdict : SnapshotVerdict)
    (body : List UInt8) (snapshotId : Text) (now : Nat) :
    (succeedSnapshot cfg jobId leaseToken verdict body snapshotId now).Commits db
      fun _ => Advances ulids db := by
  apply leased_commits
  · exact commits_pure (.refl ulids db)
  · rintro row hrow rfl hlive
    refine commits_bind (commits_other (Q := fun _ db' => db'.table = db.table) rfl) ?_
    intro _ db₁ htable₁
    refine commits_bind (commits_other (Q := fun _ db' => db'.table = db.table) htable₁) ?_
    intro _ db₂ htable₂
    apply commits_then_pure
    have hrow₂ : row ∈ db₂.table.rows := htable₂ ▸ hrow
    refine commits_mono (setSucceeded_commits ulids now _ _ hrow₂ hlive) ?_
    intro _ db' h
    unfold Advances at h ⊢
    rwa [htable₂] at h

theorem rejectDelivery_commits (L : Packages) (jobId leaseToken : Text) (errors : List Text)
    (now : Nat) : (rejectDelivery L jobId leaseToken errors now).Commits db
      fun _ => Advances ulids db := by
  apply leased_commits
  · exact commits_pure (.refl ulids db)
  · rintro row hrow rfl hlive
    apply commits_then_pure
    exact commits_mono (deadLetter_commits L now _ _ hrow hlive) fun _ _ h => h.1

theorem succeedInline_commits (jobId leaseToken : Text) (result : Option Json) (now : Nat) :
    (succeedInline jobId leaseToken result now).Commits db fun _ => Advances ulids db := by
  apply leased_commits
  · exact commits_pure (.refl ulids db)
  · rintro row hrow rfl hlive
    exact commits_then_pure (setSucceeded_commits ulids now _ _ hrow hlive)

theorem cancelJob_commits (jobId : Text) (now : Nat) :
    (cancelJob jobId now).Commits db fun _ => Advances ulids db := by
  unfold cancelJob
  refine commits_bind (commits_select (Q := fun rows db' => db' = db ∧
    rows = db.table.rows.filter fun r => decide (r.jobId = jobId)) ⟨rfl, rfl⟩) ?_
  rintro rows db' ⟨hdb', hrows⟩
  subst db'
  cases rows with
  | nil => exact commits_pure (.refl ulids db)
  | cons row others =>
      have hmem : row ∈ db.table.rows.filter fun r => decide (r.jobId = jobId) :=
        hrows ▸ List.mem_cons_self
      obtain ⟨hrow, hid⟩ := List.mem_filter.mp hmem
      obtain rfl : row.jobId = jobId := of_decide_eq_true hid
      have hlive_case : row.state.live = true → (updateRow row.jobId setCancelRequested :
          Tx Unit).Commits db fun _ => Advances ulids db := by
        intro hlive
        refine commits_mono (updateRow_commits_of_ne hrow ⟨⟨rfl, rfl, rfl⟩, rfl⟩ rfl
          (JobState.ne_queued_of_live hlive) ?_) fun _ _ h => h.1
        exact fun _ _ => .annotate rfl rfl rfl
      cases hstate : row.state with
      | queued =>
          simp only [List.head?_cons, hstate]
          apply commits_then_pure
          exact commits_mono (cancelTerminal_commits ulids now _ hrow (Or.inl hstate)) fun _ _ h => h.1
      | leased | running =>
          simp only [List.head?_cons, hstate]
          exact commits_then_pure (hlive_case (by rw [hstate]; rfl))
      | succeeded | deadLettered | cancelled | coalesced =>
          simp only [List.head?_cons, hstate]
          exact commits_pure (.refl ulids db)

/-! ### The sweep -/

variable (ulids) in
theorem sweepRow_commits (L : Packages) (cfg : CoreConfig) (now jitter : Nat) {row : JobRow}
    (hrow : row ∈ db.table.rows) (hlive : row.state.live = true) :
    (sweepRow L cfg now jitter row).Commits db fun _ db' => Serves ulids row db db' := by
  refine commits_bind (recordHealthEvent_commits db ..) ?_
  intro _ db' htable
  have hrow' : row ∈ db'.table.rows := htable ▸ hrow
  refine commits_mono (requeueOrDeadLetter_commits ulids L cfg now jitter _ _ hrow' hlive)
    ?_
  intro _ db'' h
  unfold Serves Advances at h ⊢
  rwa [htable] at h

/-- Sweeping one expired lease leaves the others to be swept, since a follower is never live. -/
theorem sweepRows_commits (L : Packages) (cfg : CoreConfig) (now : Nat) (jitter : Text → Nat)
    (rows : List JobRow) (hnodup : (rows.map JobRow.jobId).Nodup)
    (hrows : ∀ r ∈ rows, r ∈ db.table.rows ∧ r.state.live = true) :
    (sweepRows L cfg now jitter rows).Commits db fun _ => Advances ulids db := by
  induction rows generalizing db with
  | nil => exact commits_pure (.refl ulids db)
  | cons row rest ih =>
      obtain ⟨hrow, hlive⟩ := hrows row List.mem_cons_self
      obtain ⟨hnotin, hnodup⟩ := List.nodup_cons.mp hnodup
      refine commits_bind (sweepRow_commits ulids L cfg now _ hrow hlive) ?_
      rintro _ db₁ ⟨hadvances, hkept⟩
      have hrest : ∀ r ∈ rest, r ∈ db₁.table.rows ∧ r.state.live = true := by
        intro r hr
        obtain ⟨hr_mem, hr_live⟩ := hrows r (List.mem_cons_of_mem row hr)
        have hne : r.jobId ≠ row.jobId := by
          intro heq
          exact hnotin (heq ▸ List.mem_map_of_mem hr)
        exact ⟨hkept r hr_mem hr_live hne, hr_live⟩
      apply commits_then_pure
      exact commits_mono (ih hnodup hrest) fun _ _ h => hadvances.trans h

theorem sweepExpiredLeases_commits (L : Packages) (cfg : CoreConfig) (now : Nat)
    (jitter : Text → Nat) (locked : Text → Bool) :
    (sweepExpiredLeases L cfg now jitter locked).Commits db fun _ => Advances ulids db := by
  refine commits_bind (commits_select (Q := fun rows db' => db' = db ∧
    rows = db.table.rows.filter fun r => isExpired now r && !locked r.jobId) ⟨rfl, rfl⟩) ?_
  rintro rows db' ⟨hdb', hrows⟩
  subst db'
  apply sweepRows_commits
  · rw [hrows]
    exact db.table.nodup.sublist (List.filter_sublist.map JobRow.jobId)
  · intro r hr
    rw [hrows] at hr
    simp only [List.mem_filter, isExpired, Bool.and_eq_true] at hr
    exact ⟨hr.1, hr.2.1.1⟩

variable (ulids db) in
/-- **Every transaction of the queue commits, and is a run of the rules.** -/
theorem TxCall.commits (L : Packages) (cfg : CoreConfig) (call : TxCall) :
    (call.tx L cfg).Commits db fun _ => Advances ulids db := by
  cases call with
  | startJob jobId leaseToken now => exact commits_map (startJob_commits ..)
  | heartbeatJob jobId leaseToken progress now => exact commits_map (heartbeatJob_commits ..)
  | failJob jobId leaseToken error now jitter => exact commits_map (failJob_commits ..)
  | deferJob jobId leaseToken retryAfterS reason now jitter =>
      exact commits_map (deferJob_commits ..)
  | succeedSnapshot jobId leaseToken verdict body snapshotId now =>
      exact commits_map (succeedSnapshot_commits ..)
  | rejectDelivery jobId leaseToken errors now => exact commits_map (rejectDelivery_commits ..)
  | succeedInline jobId leaseToken result now => exact commits_map (succeedInline_commits ..)
  | cancelJob jobId now => exact commits_map (cancelJob_commits ..)
  | sweepExpiredLeases now jitter locked => exact commits_map (sweepExpiredLeases_commits ..)

/-! ### Claim and enqueue -/

theorem mem_claimCandidates {args : ClaimArgs} {now : Nat} {locked : Text → Bool}
    {rows : List JobRow} {row : JobRow} (h : row ∈ claimCandidates args now locked rows) :
    row ∈ rows ∧ row.state = .queued ∧ ∀ r ∈ rows, ¬ r.LiveBatch row.dedupeKey := by
  have hmem := (List.mem_insertionSort claimOrder).mp (List.mem_of_mem_take h)
  simp only [List.mem_filter, claimable, Bool.and_eq_true, decide_eq_true_eq, Bool.not_eq_true',
    List.any_eq_false] at hmem
  obtain ⟨hrow, ⟨⟨⟨⟨hqueued, _⟩, _⟩, _⟩, hidle⟩, _⟩ := hmem
  exact ⟨hrow, hqueued, hidle⟩

/-- A claim grants its token to a job whose key has no live batch job. -/
theorem claimOnce_commits (L : Packages) (cfg : CoreConfig) (args : ClaimArgs) (now : Nat)
    {token : Text} (locked : Text → Bool)
    (hfresh : ∀ r ∈ db.table.rows, r.leaseToken ≠ some token) :
    (claimOnce L cfg args now token locked db.table.rows).Commits db
      fun _ => Advances [token] db := by
  unfold claimOnce
  split
  · exact commits_pure (.refl _ db)
  split
  · exact commits_pure (.refl _ db)
  · rename_i row hfind
    obtain ⟨hrow, hqueued, hidle⟩ := mem_claimCandidates (List.mem_of_find?_eq_some hfind)
    apply commits_then_pure
    refine commits_mono (updateRow_commits_of_ne hrow ⟨⟨rfl, rfl, rfl⟩, rfl⟩ rfl JobState.noConfusion ?_)
      fun _ _ h => h.1
    intro rest hbag
    have hrest : ∀ r ∈ rest, r ∈ db.table.rows := by
      intro r hr
      apply Table.mem_bag.mp
      rw [hbag]
      exact Multiset.mem_cons_of_mem hr
    exact .claim token List.mem_cons_self hqueued (fun r hr => hfresh r (hrest r hr))
      (fun r hr => hidle r (hrest r hr)) rfl rfl

variable (ulids) in
/-- An enqueue inserts its job, or adds its trigger to the one already queued. -/
theorem insertJob_step {t t' : JobTable} {row : JobRow} {trigger : Trigger} {result : Enqueued}
    (h : insertJob row t = some (result, t')) (hqueued : row.state = .queued)
    (htoken : row.leaseToken = none) (hpointer : row.reenqueuedAs = none)
    (htriggers : row.triggers = [trigger]) (hnew : trigger.mergedFrom = none) :
    JobStep ulids {trigger} t.bag t'.bag ∧
      ∃ r ∈ t'.rows, r.jobId = result.jobId ∧ r.dedupeKey = row.dedupeKey := by
  have hinsert : (t.insert row).map (fun t => (⟨row.jobId, false⟩, t)) = some (result, t') →
      (row.jobClass = .batch → Free row.dedupeKey t.bag) →
      JobStep ulids {trigger} t.bag t'.bag ∧
      ∃ r ∈ t'.rows, r.jobId = result.jobId ∧ r.dedupeKey = row.dedupeKey := by
    intro hmap hfree
    obtain ⟨t₁, ht₁, heq⟩ := Option.map_eq_some_iff.mp hmap
    obtain ⟨rfl, rfl⟩ := Prod.mk.inj heq
    refine ⟨?_, row, ?_, rfl, rfl⟩
    · rw [Table.bag_insert ht₁]
      exact .insert hqueued htoken hpointer hfree htriggers hnew
    · rw [Table.insert_eq_some.mp ht₁]
      exact List.mem_append_right _ List.mem_cons_self
  unfold insertJob at h
  split at h
  case h_1 existing _ hfind =>
    obtain ⟨t₁, ht₁, heq⟩ := Option.map_eq_some_iff.mp h
    obtain ⟨rfl, rfl⟩ := Prod.mk.inj heq
    have hexisting := List.mem_of_find?_eq_some hfind
    have hkey : existing.QueuedBatch row.dedupeKey := by simpa using List.find?_some hfind
    obtain ⟨rest, hbag⟩ := exists_bag hexisting
    refine ⟨?_, (appendTriggers row.triggers).apply existing, ?_, rfl, hkey.2.2⟩
    · rw [Table.bag_update ht₁ hbag, hbag]
      exact .merge ⟨⟨rfl, rfl, rfl⟩, rfl⟩ hkey.1 hkey.1 rfl (congrArg (existing.triggers ++ ·) htriggers)
        hnew
    · rw [Table.update_eq_some.mp ht₁]
      exact mem_updateRows.mpr (Or.inl ⟨existing, hexisting, rfl, rfl⟩)
  case h_2 hother =>
    apply hinsert h
    intro hbatch r hr hr_queued
    cases hfind : t.rows.find? fun r => decide (r.QueuedBatch row.dedupeKey) with
    | none =>
        have hnot := List.find?_eq_none.mp hfind r (Table.mem_bag.mp hr)
        exact hnot (decide_eq_true hr_queued)
    | some existing => exact hother existing hbatch hfind

end ContextLayer
