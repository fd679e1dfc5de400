import ContextLayer.Proof.QueueRuns
import ContextLayer.Proof.Statements

/-!
# The time an attempt has

A heartbeat reads the deadline off `started_at`, which is the start of the first attempt. That is
never later than the start of the current one, so no heartbeat carries a lease past the attempt's
deadline; but once the first attempt's deadline is over, every heartbeat of a later attempt is
answered with a lease that has run out. A repeated `start` reads no deadline at all.
-/

namespace ContextLayer

open Text Transaction Prog

variable {L : Packages} {cfg : CoreConfig} {db : Database} {jobId leaseToken : Text} {now : Nat}

/-! ### The lease holder's row -/

theorem head?_leased {row : JobRow} (hrow : row ∈ db.table.rows)
    (hleased : isLeased jobId leaseToken row = true) :
    (db.table.rows.filter (isLeased jobId leaseToken)).head? = some row := by
  have hid : ∀ r, isLeased jobId leaseToken r = true → r.jobId = jobId := by
    intro r hr
    simp only [isLeased, Bool.and_eq_true, decide_eq_true_eq] at hr
    exact hr.1.1
  cases hhead : (db.table.rows.filter (isLeased jobId leaseToken)).head? with
  | none =>
      rw [List.head?_eq_none_iff] at hhead
      have hmem := List.mem_filter.mpr ⟨hrow, hleased⟩
      rw [hhead] at hmem
      cases hmem
  | some found =>
      obtain ⟨hfound, hleased'⟩ := List.mem_filter.mp (List.mem_of_mem_head? hhead)
      rw [db.table.eq_of_key hfound hrow ((hid _ hleased').trans (hid _ hleased).symm)]

/-- What the lease holder sets on its job is set, unless it were to queue the job. -/
theorem leased_update_run {α : Type} {set : Assignment jobSchema} (reply : JobRow → α)
    {row : JobRow} (hrow : row ∈ db.table.rows) (hleased : isLeased jobId leaseToken row = true)
    (hstate : (set.apply row).state ≠ .queued) :
    ∃ t', (lockLeased jobId leaseToken >>= fun found => match found with
        | none => pure none
        | some row => do
            updateRow jobId set
            pure (some (reply row))).run db = some (some (reply row), { db with table := t' }) ∧
      t'.rows = updateRows jobSchema jobId set db.table.rows := by
  have hid : row.jobId = jobId := by
    simp only [isLeased, Bool.and_eq_true, decide_eq_true_eq] at hleased
    exact hleased.1.1
  subst hid
  obtain ⟨t', ht'⟩ := update_isSome hrow set fun _ hqueued => absurd hqueued.1 hstate
  refine ⟨t', ?_, Table.update_eq_some.mp ht'⟩
  change (match (db.table.rows.filter (isLeased row.jobId leaseToken)).head? with
    | none => _
    | some row => _ : Prog jobSchema Tables (Option α)).run db = _
  rw [head?_leased hrow hleased]
  change ((db.table.update row.jobId set).bind fun t => _) = _
  rw [ht']
  rfl

/-- Nobody else's call does anything. -/
theorem leased_run_of_none {α : Type} {body : Option JobRow → Tx α} {a : α}
    (hnone : body none = .done a)
    (hrows : ∀ row ∈ db.table.rows, isLeased jobId leaseToken row = false) :
    (lockLeased jobId leaseToken >>= body).run db = some (a, db) := by
  change (body (db.table.rows.filter (isLeased jobId leaseToken)).head?).run db = _
  have hnil : db.table.rows.filter (isLeased jobId leaseToken) = [] := by
    rw [List.filter_eq_nil_iff]
    intro row hrow
    rw [hrows row hrow]
    exact Bool.false_ne_true
  rw [hnil, List.head?_nil, hnone]
  rfl

theorem startJob_run (cfg : CoreConfig) (now : Nat) {row : JobRow} (hrow : row ∈ db.table.rows)
    (hleased : isLeased jobId leaseToken row = true) :
    ∃ t', (startJob cfg jobId leaseToken now).run db =
        some (some row.cancelRequested, { db with table := t' }) ∧
      t'.rows = updateRows jobSchema jobId (setRunning cfg now) db.table.rows :=
  leased_update_run JobRow.cancelRequested hrow hleased JobState.noConfusion

theorem heartbeatJob_run (cfg : CoreConfig) (now : Nat) (progress : Option Json) {row : JobRow}
    (hrow : row ∈ db.table.rows)
    (hleased : isLeased jobId leaseToken row = true) :
    ∃ t', (heartbeatJob cfg jobId leaseToken progress now).run db =
        some (some (⟨leaseToken, heartbeatExpiry cfg now row, cfg.leaseTtlS⟩, row.cancelRequested),
          { db with table := t' }) ∧
      t'.rows = updateRows jobSchema jobId (setHeartbeat cfg now progress) db.table.rows := by
  have hlive : row.state.live = true := by
    simp only [isLeased, Bool.and_eq_true] at hleased
    exact hleased.2
  have hstate : ((setHeartbeat cfg now progress).apply row).state ≠ .queued :=
    JobState.ne_queued_of_live hlive
  exact leased_update_run (fun row : JobRow => ((⟨leaseToken, heartbeatExpiry cfg now row,
    cfg.leaseTtlS⟩ : Lease), row.cancelRequested)) hrow hleased hstate

/-- After one `UPDATE` of the job, its lease is the one that sets. -/
theorem expiresBy_iff {call : TxCall} {reply : Reply} {t' : JobTable} {set : Assignment jobSchema}
    (hrun : (call.tx L cfg).run db = some (reply, { db with table := t' }))
    (hrows : t'.rows = updateRows jobSchema jobId set db.table.rows) {row : JobRow}
    (hrow : row ∈ db.table.rows) (hid : row.jobId = jobId) {limit : Nat} :
    ExpiresBy L cfg call db jobId limit ↔
      ∀ expiry ∈ (set.apply row).leaseExpiresAt, expiry ≤ limit := by
  subst hid
  constructor
  · rintro ⟨reply', db', hrun', hexpires⟩
    obtain ⟨_, rfl⟩ := Prod.mk.inj (Option.some.inj (hrun.symm.trans hrun'))
    have hmem : set.apply row ∈ t'.rows := by
      rw [hrows]
      exact mem_updateRows.mpr (Or.inl ⟨row, hrow, rfl, rfl⟩)
    exact hexpires _ hmem (set.key_apply row)
  · intro hset
    refine ⟨reply, _, hrun, ?_⟩
    intro row' hrow' hid'
    change row' ∈ t'.rows at hrow'
    rw [hrows] at hrow'
    rcases mem_updateRows.mp hrow' with ⟨r, hr, hkey, rfl⟩ | ⟨_, hne⟩
    · rw [db.table.eq_of_key hr hrow hkey]
      exact hset
    · exact absurd hid' hne

theorem jobId_of_leased {row : JobRow} (hleased : isLeased jobId leaseToken row = true) :
    row.jobId = jobId ∧ row.state.live = true := by
  simp only [isLeased, Bool.and_eq_true, decide_eq_true_eq] at hleased
  exact ⟨hleased.1.1, hleased.2⟩

theorem startJob_expiresBy {row : JobRow} (hrow : row ∈ db.table.rows)
    (hleased : isLeased jobId leaseToken row = true) {limit : Nat} :
    ExpiresBy L cfg (.startJob jobId leaseToken now) db jobId limit ↔
      now + secs cfg.leaseTtlS ≤ limit := by
  obtain ⟨t', hrun, hrows⟩ := startJob_run cfg now hrow hleased
  have htx : ((TxCall.startJob jobId leaseToken now).tx L cfg).run db =
      some (.start (some row.cancelRequested), { db with table := t' }) :=
    run_map_eq_some.mpr ⟨_, hrun, rfl⟩
  rw [expiresBy_iff htx hrows hrow (jobId_of_leased hleased).1]
  simp only [setRunning, Option.mem_def, Option.some.injEq, forall_eq']

theorem heartbeatJob_expiresBy {progress : Option Json} {row : JobRow} (hrow : row ∈ db.table.rows)
    (hleased : isLeased jobId leaseToken row = true) {limit : Nat} :
    ExpiresBy L cfg (.heartbeatJob jobId leaseToken progress now) db jobId limit ↔
      heartbeatExpiry cfg now row ≤ limit := by
  obtain ⟨t', hrun, hrows⟩ :=
    heartbeatJob_run cfg now progress hrow hleased
  have htx : ((TxCall.heartbeatJob jobId leaseToken progress now).tx L cfg).run db =
      some (.heartbeat (some (⟨leaseToken, heartbeatExpiry cfg now row, cfg.leaseTtlS⟩,
        row.cancelRequested)), { db with table := t' }) :=
    run_map_eq_some.mpr ⟨_, hrun, rfl⟩
  rw [expiresBy_iff htx hrows hrow (jobId_of_leased hleased).1]
  simp only [setHeartbeat, Option.mem_def, Option.some.injEq, forall_eq']

theorem heartbeatJob_renews {progress : Option Json} {row : JobRow} (hrow : row ∈ db.table.rows)
    (hleased : isLeased jobId leaseToken row = true) :
    Renews cfg jobId leaseToken progress now db ↔ now < heartbeatExpiry cfg now row := by
  obtain ⟨t', hrun, _⟩ :=
    heartbeatJob_run cfg now progress hrow hleased
  constructor
  · rintro ⟨lease, cancelRequested, db', hrun', hexpires⟩
    obtain ⟨hreply, _⟩ := Prod.mk.inj (Option.some.inj (hrun.symm.trans hrun'))
    obtain ⟨rfl, _⟩ := Prod.mk.inj (Option.some.inj hreply)
    exact hexpires
  · exact fun hexpires => ⟨_, _, _, hrun, hexpires⟩

/-! ### The first start and the current one -/

/-- No start lies ahead, and the job's first is no later than that of its current attempt. -/
def Dated (now : Nat) (starts : Text → Option Nat) (row : JobRow) : Prop :=
  (∀ first ∈ row.startedAt, first ≤ now) ∧
    (row.state.live = true → ∀ begun ∈ starts row.jobId, ∃ first ∈ row.startedAt, first ≤ begun)

theorem Dated.later {starts : Text → Option Nat} {row : JobRow} {now' : Nat}
    (h : Dated now starts row) (hnow : now ≤ now') : Dated now' starts row :=
  ⟨fun first hfirst => (h.1 first hfirst).trans hnow, h.2⟩

theorem Dated.worked {starts : Text → Option Nat} {call : TxCall} {row row' : JobRow}
    (h : Dated now starts row) (hworked : Worked call row row') (hcall : call.isStart = false) :
    Dated now starts row' := by
  obtain ⟨hpast, hbegun⟩ := h
  unfold Dated
  rw [hworked.startedAt hcall, hworked.jobId]
  exact ⟨hpast, fun hlive => hbegun (hworked.live hcall hlive)⟩

/-- A claim that is answered with a job has leased it. -/
theorem claimOnce_run {args : ClaimArgs} {token : Text} {locked : Text → Bool}
    {reply : Option (JobRow × Lease)} {db' : Database}
    (hrun : (claimOnce L cfg args now token locked db.table.rows).run db = some (reply, db')) :
    (reply = none ∧ db' = db) ∨ ∃ row lease, reply = some (row, lease) ∧ db'.rest = db.rest ∧
      db'.table.rows =
        updateRows jobSchema row.jobId (setLeased cfg now token args.runnerId) db.table.rows := by
  unfold claimOnce at hrun
  split at hrun
  · obtain ⟨rfl, rfl⟩ := Prod.mk.inj (Option.some.inj hrun)
    exact Or.inl ⟨rfl, rfl⟩
  split at hrun
  · obtain ⟨rfl, rfl⟩ := Prod.mk.inj (Option.some.inj hrun)
    exact Or.inl ⟨rfl, rfl⟩
  · rename_i row _
    obtain ⟨t', ht', hdone⟩ := Option.bind_eq_some_iff.mp hrun
    obtain ⟨rfl, rfl⟩ := Prod.mk.inj (Option.some.inj hdone)
    exact Or.inr ⟨_, _, rfl, rfl, Table.update_eq_some.mp ht'⟩

section

variable {starts : Text → Option Nat} {reply : Reply} {db' : Database}

theorem dated_enqueue {req : EnqueueRequest} {clock now' : Nat}
    (hdated : ∀ row ∈ db.table.rows, Dated now starts row) (hnow : now ≤ now')
    {answer : EnqueueReply} (hrun : enqueue L cfg req jobId clock now' db = some (answer, db')) :
    ∀ row ∈ db'.table.rows, Dated now' starts row := by
  intro row' hrow'
  rcases enqueue_cases L cfg req jobId clock now' db with
    hnone | ⟨problems, hinvalid⟩ | ⟨v, result, t', _, hinsert, henqueued⟩
  · cases hnone.symm.trans hrun
  · obtain ⟨_, rfl⟩ := Prod.mk.inj (Option.some.inj (hinvalid.symm.trans hrun))
    exact (hdated row' hrow').later hnow
  · obtain ⟨_, rfl⟩ := Prod.mk.inj (Option.some.inj (henqueued.symm.trans hrun))
    rcases insertJob_cases hinsert hrow' with rfl | ⟨row, hrow, triggers, rfl⟩
    · exact ⟨fun _ hfirst => (nomatch hfirst), fun hlive => nomatch hlive⟩
    · exact (hdated row hrow).later hnow

theorem dated_claim {args : ClaimArgs} {now' : Nat} {token : Text} {locked : Text → Bool}
    (hdated : ∀ row ∈ db.table.rows, Dated now starts row) (hnow : now ≤ now')
    {answer : Option (JobRow × Lease)}
    (hrun : (claimOnce L cfg args now' token locked db.table.rows).run db = some (answer, db')) :
    ∀ row ∈ db'.table.rows,
      Dated now' (attemptStarts (.claimOnce args now' token locked) (.claim answer) starts) row := by
  intro row' hrow'
  rcases claimOnce_run hrun with ⟨rfl, rfl⟩ | ⟨row, lease, rfl, _, hrows⟩
  · exact (hdated row' hrow').later hnow
  · change Dated now' (Function.update starts row.jobId none) row'
    rw [hrows] at hrow'
    rcases mem_updateRows.mp hrow' with ⟨r, hr, hid, rfl⟩ | ⟨hmem, hne⟩
    · obtain ⟨hpast, _⟩ := hdated r hr
      refine ⟨fun first hfirst => (hpast first hfirst).trans hnow, ?_⟩
      intro _ begun hbegun
      change begun ∈ Function.update starts row.jobId none r.jobId at hbegun
      change r.jobId = row.jobId at hid
      rw [hid, Function.update_self] at hbegun
      cases hbegun
    · obtain ⟨hpast, hbegun⟩ := hdated row' hmem
      refine ⟨fun first hfirst => (hpast first hfirst).trans hnow, ?_⟩
      have hne' : row'.jobId ≠ _ := hne
      rw [Function.update_of_ne hne']
      exact hbegun

/-- The first `start` of a claim sets the attempt's start, and the job's if it has none. -/
theorem dated_start {now' : Nat} (hdated : ∀ row ∈ db.table.rows, Dated now starts row)
    (hnow : now ≤ now') {answer : Option Bool}
    (hrun : (startJob cfg jobId leaseToken now').run db = some (answer, db')) :
    ∀ row ∈ db'.table.rows, Dated now'
      (attemptStarts (.transact (.startJob jobId leaseToken now')) (.start answer) starts) row := by
  intro row' hrow'
  by_cases hheld : ∃ row ∈ db.table.rows, isLeased jobId leaseToken row = true
  · obtain ⟨row, hrow, hleased⟩ := hheld
    obtain ⟨t', hrun', hrows⟩ := startJob_run cfg now' hrow hleased
    obtain ⟨rfl, rfl⟩ := Prod.mk.inj (Option.some.inj (hrun'.symm.trans hrun))
    change Dated now' (Function.update starts jobId (some ((starts jobId).getD now'))) row'
    change row' ∈ t'.rows at hrow'
    rw [hrows] at hrow'
    rcases mem_updateRows.mp hrow' with ⟨r, hr, hid, rfl⟩ | ⟨hmem, hne⟩
    · obtain ⟨hid', hlive⟩ := jobId_of_leased hleased
      obtain rfl : r = row := db.table.eq_of_key hr hrow (hid.trans hid'.symm)
      obtain ⟨hpast, hbegun⟩ := hdated r hr
      have hfirst : r.startedAt.getD now' ≤ now' := by
        cases hstarted : r.startedAt with
        | none => exact le_rfl
        | some first => exact (hpast first hstarted).trans hnow
      refine ⟨fun first hset => Option.some.inj hset ▸ hfirst, ?_⟩
      intro _ begun hset
      refine ⟨_, rfl, ?_⟩
      change begun ∈ Function.update starts jobId _ r.jobId at hset
      rw [hid', Function.update_self] at hset
      obtain rfl : (starts jobId).getD now' = begun := Option.some.inj hset
      cases hbefore : starts jobId with
      | none => exact hfirst
      | some before =>
          obtain ⟨first, hstarted, hle⟩ := hbegun hlive before (hid' ▸ hbefore)
          rw [Option.mem_def.mp hstarted]
          exact hle
    · obtain ⟨hpast, hbegun⟩ := hdated row' hmem
      refine ⟨fun first hfirst => (hpast first hfirst).trans hnow, ?_⟩
      have hne' : row'.jobId ≠ _ := hne
      rw [Function.update_of_ne hne']
      exact hbegun
  · have hnone : (startJob cfg jobId leaseToken now').run db = some (none, db) :=
      leased_run_of_none rfl fun row hrow =>
        Bool.eq_false_iff.mpr fun hleased => hheld ⟨row, hrow, hleased⟩
    obtain ⟨rfl, rfl⟩ := Prod.mk.inj (Option.some.inj (hnone.symm.trans hrun))
    exact (hdated row' hrow').later hnow

theorem dated_exec {c : Call} (hdated : ∀ row ∈ db.table.rows, Dated now starts row)
    (hnow : now ≤ c.now) (hexec : c.exec L cfg db = some (reply, db')) :
    ∀ row ∈ db'.table.rows, Dated c.now (attemptStarts c reply starts) row := by
  have hother : ∀ call : TxCall, call.isStart = false →
      (call.tx L cfg).run db = some (reply, db') → now ≤ call.now →
      ∀ row ∈ db'.table.rows, Dated call.now starts row := by
    intro call hcall hrun hnow row' hrow'
    obtain ⟨row, hrow, hworked⟩ := call.worked hrun hrow'
    exact ((hdated row hrow).later hnow).worked hworked hcall
  cases c with
  | enqueue req jobId clock now' =>
      obtain ⟨⟨answer, _⟩, hrun, heq⟩ := Option.map_eq_some_iff.mp hexec
      obtain ⟨rfl, rfl⟩ := Prod.mk.inj heq
      exact dated_enqueue hdated hnow hrun
  | claimOnce args now' token locked =>
      obtain ⟨answer, hrun, rfl⟩ := run_map_eq_some.mp hexec
      exact dated_claim hdated hnow hrun
  | transact call =>
      cases call with
      | startJob jobId leaseToken now' =>
          obtain ⟨answer, hrun, rfl⟩ := run_map_eq_some.mp hexec
          exact dated_start hdated hnow hrun
      | _ =>
          refine hother _ ?_ hexec hnow
          rfl

end

theorem TimedState.Reachable.dated {s : TimedState} (h : s.Reachable L cfg) :
    ∀ row ∈ s.queue.db.table.rows, Dated s.now s.starts row := by
  induction h with
  | start => exact fun _ hrow => nomatch hrow
  | @call s c _ _ hnow ih =>
      unfold perform QueueState.perform
      cases hexec : c.exec L cfg s.queue.db with
      | none => exact fun row hrow => (ih row hrow).later hnow
      | some out => exact dated_exec ih hnow hexec

theorem heartbeatExpiry_le (cfg : CoreConfig) (now : Nat) {starts : Text → Option Nat} {row : JobRow} {begun now' : Nat}
    (hdated : Dated now' starts row) (hlive : row.state.live = true)
    (hbegun : begun ∈ starts row.jobId) :
    heartbeatExpiry cfg now row ≤ begun + secs row.deadlineS := by
  obtain ⟨first, hfirst, hle⟩ := hdated.2 hlive begun hbegun
  calc
    heartbeatExpiry cfg now row ≤ first + secs row.deadlineS := by
      unfold heartbeatExpiry
      rw [Option.mem_def.mp hfirst]
      exact min_le_right _ _
    _ ≤ begun + secs row.deadlineS := Nat.add_le_add_right hle _

theorem lt_heartbeatExpiry (httl : 0 < cfg.leaseTtlS) (row : JobRow) :
    now < heartbeatExpiry cfg now row ↔
      ∀ first ∈ row.startedAt, now < first + secs row.deadlineS := by
  have hpos : 0 < secs cfg.leaseTtlS := by
    unfold secs
    omega
  unfold heartbeatExpiry
  cases row.startedAt with
  | none =>
      simp only [Option.map_none, Option.getD_none, min_self, Option.not_mem_none, false_imp_iff,
        implies_true, iff_true]
      omega
  | some first =>
      simp only [Option.map_some, Option.getD_some, lt_min_iff, Option.mem_def,
        Option.some.injEq, forall_eq']
      omega

/-- **The time of an attempt.** The `start`s and heartbeats of a lease holder keep to the deadline
of the attempt, and the heartbeats within it are answered with time left, exactly when the call
comes in time. -/
theorem attempt_law {s : TimedState} (h : s.Reachable L cfg) (httl : 0 < cfg.leaseTtlS) (c : Call) :
    s.AttemptLaw L cfg c ↔ s.InTime cfg c := by
  have hdated := h.dated
  cases c with
  | enqueue | claimOnce => exact Iff.rfl
  | transact call =>
      cases call with
      | startJob jobId leaseToken now =>
          refine forall_congr' fun row => forall_congr' fun hrow => forall_congr' fun hleased =>
            forall_congr' fun begun => forall_congr' fun hbegun => ?_
          exact startJob_expiresBy hrow hleased
      | heartbeatJob jobId leaseToken progress now =>
          refine forall_congr' fun row => forall_congr' fun hrow => forall_congr' fun hleased =>
            forall_congr' fun begun => forall_congr' fun hbegun => ?_
          obtain ⟨hid, hlive⟩ := jobId_of_leased hleased
          have hbound := heartbeatExpiry_le cfg now (hdated row hrow) hlive
            (hid.symm ▸ hbegun)
          rw [heartbeatJob_expiresBy hrow hleased, heartbeatJob_renews hrow hleased,
            lt_heartbeatExpiry httl]
          exact and_iff_right hbound
      | _ => exact Iff.rfl

/-! ### A second attempt -/

namespace TimedState

/-- The calls in a row, as long as each may follow. -/
def calls (L : Packages) (cfg : CoreConfig) (calls : List Call) : TimedState :=
  calls.foldl (fun s c => if s.queue.Draws c ∧ s.now ≤ c.now then s.perform L cfg c else s) .start

theorem reachable_calls (calls : List Call) : (TimedState.calls L cfg calls).Reachable L cfg := by
  unfold TimedState.calls
  induction calls using List.reverseRecOn with
  | nil => exact .start
  | append_singleton calls c ih =>
      rw [List.foldl_append, List.foldl_cons, List.foldl_nil]
      split
      · rename_i hnext
        exact .call c ih hnext.1 hnext.2
      · exact ih

end TimedState

/-- The job is started, and its runner is not heard of again. -/
def firstAttempt : List Call :=
  [.enqueue (snapshotRequest "crm" "schedule") (js "J1") 0 0,
    .claimOnce snapshotRunner 1 (js "T1") fun _ => false,
    .transact (.startJob (js "J1") (js "T1") 2)]

/-- Its lease is swept, and it is started again when the first attempt's hour is over. -/
def secondAttempt : List Call :=
  firstAttempt ++
    [.transact (.sweepExpiredLeases 100000 (fun _ => 1000) fun _ => false),
      .claimOnce snapshotRunner 3600010 (js "T2") fun _ => false,
      .transact (.startJob (js "J1") (js "T2") 3600011)]

/-- A heartbeat a millisecond into the second attempt. -/
def secondHeartbeat : Call := .transact (.heartbeatJob (js "J1") (js "T2") none 3600012)

theorem attempt_law_firstAttempt :
    (TimedState.calls plainPackages defaultConfig firstAttempt).starts (js "J1") = some 2 ∧
      (TimedState.calls plainPackages defaultConfig firstAttempt).AttemptLaw plainPackages
        defaultConfig (.transact (.heartbeatJob (js "J1") (js "T1") none 3)) := by
  refine ⟨by decide, (attempt_law (TimedState.reachable_calls _) (by decide) _).mpr ?_⟩
  unfold TimedState.InTime
  decide

theorem attempt_law_not_secondAttempt :
    ¬ ∀ (L : Packages) (cfg : CoreConfig) (s : TimedState) (c : Call), s.Reachable L cfg →
      0 < cfg.leaseTtlS → s.now ≤ c.now → s.AttemptLaw L cfg c := by
  intro hlaw
  have hsecond := hlaw plainPackages defaultConfig
    (TimedState.calls plainPackages defaultConfig secondAttempt) secondHeartbeat
    (TimedState.reachable_calls _) (by decide) (by decide)
  have hheld : ∃ row ∈ (TimedState.calls plainPackages defaultConfig
      secondAttempt).queue.db.table.rows, isLeased (js "J1") (js "T2") row = true ∧
        3600012 < 3600011 + secs row.deadlineS ∧
        ¬ 3600012 < heartbeatExpiry defaultConfig 3600012 row := by
    decide
  obtain ⟨row, hrow, hleased, hearly, hlate⟩ := hheld
  obtain ⟨_, hrenews⟩ := hsecond row hrow hleased 3600011 (by decide)
  exact hlate ((heartbeatJob_renews hrow hleased).mp (hrenews hearly))

end ContextLayer
