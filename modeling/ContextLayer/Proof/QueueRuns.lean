import ContextLayer.Proof.Refinement

/-!
# What holds in every state of the queue

One invariant for all runs: jobs exclude one another as the index and the claim query mean them to,
every lease token was drawn, and every accepted trigger is held exactly once.
-/

namespace ContextLayer

open Text Transaction Prog

variable (L : Packages) (cfg : CoreConfig)

namespace QueueState

def jobs (s : QueueState) : Multiset JobRow := s.db.table.bag

/-- The triggers of the successful enqueues. -/
def acceptedTriggers (s : QueueState) : Multiset Trigger := (s.accepted.map Prod.snd : List Trigger)

end QueueState

theorem validateEnqueue_trigger {clock : Nat} {req : EnqueueRequest} {v : ValidEnqueue}
    (h : validateEnqueue L cfg clock req = .ok v) : v.trigger.mergedFrom = none := by
  unfold validateEnqueue at h
  simp only [Option.pure_def, Option.bind_eq_bind] at h
  split at h
  · rename_i v' hv
    obtain rfl := Except.ok.inj h
    simp only [Option.bind_eq_some_iff, Option.some.injEq] at hv
    obtain ⟨_, _, _, _, _, _, _, _, _, _, _, _, _, _, _, _, _, _, _, _, rfl⟩ := hv
    rfl
  · cases h

theorem validateEnqueue_system {clock : Nat} {req : EnqueueRequest} {v : ValidEnqueue}
    (h : validateEnqueue L cfg clock req = .ok v) : nonEmptyString req.system = some v.system := by
  unfold validateEnqueue at h
  simp only [Option.pure_def, Option.bind_eq_bind] at h
  split at h
  · rename_i v' hv
    obtain rfl := Except.ok.inj h
    simp only [Option.bind_eq_some_iff, Option.some.injEq] at hv
    obtain ⟨_, _, _, hsystem, _, _, _, _, _, _, _, _, _, _, _, _, _, _, _, _, rfl⟩ := hv
    exact hsystem
  · cases h

/-- An enqueue is refused, rejected, or answered with the job that holds its trigger. -/
theorem enqueue_cases (req : EnqueueRequest) (jobId : Text) (clock now : Nat) (db : Database) :
    enqueue L cfg req jobId clock now db = none ∨
    (∃ problems, enqueue L cfg req jobId clock now db = some (.invalid problems, db)) ∨
    ∃ v result t', validateEnqueue L cfg clock req = .ok v ∧
      insertJob (v.row jobId now) db.table = some (result, t') ∧
      enqueue L cfg req jobId clock now db = some (.enqueued result, { db with table := t' }) := by
  unfold enqueue
  cases hvalid : validateEnqueue L cfg clock req with
  | error problems => exact Or.inr (Or.inl ⟨problems, rfl⟩)
  | ok v =>
      by_cases hfits : v.fits = true
      · cases hinsert : insertJob (v.row jobId now) db.table with
        | none => exact Or.inl (by simp only [hfits, if_true, hinsert, Option.map_none])
        | some out =>
            refine Or.inr (Or.inr ⟨v, out.1, out.2, rfl, hinsert, ?_⟩)
            simp only [hfits, if_true, hinsert, Option.map_some]
      · exact Or.inl (if_neg hfits)

/-- An enqueue adds its own row or a trigger to a queued one. -/
theorem insertJob_cases {row : JobRow} {t t' : JobTable} {result : Enqueued}
    (h : insertJob row t = some (result, t')) {r' : JobRow} (hr' : r' ∈ t'.rows) :
    r' = row ∨ ∃ r ∈ t.rows, ∃ triggers, r' = { r with triggers } := by
  unfold insertJob at h
  split at h
  · obtain ⟨t₁, ht₁, heq⟩ := Option.map_eq_some_iff.mp h
    obtain ⟨_, rfl⟩ := Prod.mk.inj heq
    rw [Table.update_eq_some.mp ht₁] at hr'
    rcases mem_updateRows.mp hr' with ⟨r, hr, _, rfl⟩ | ⟨hr, _⟩
    · exact Or.inr ⟨r, hr, _, rfl⟩
    · exact Or.inr ⟨r', hr, _, rfl⟩
  · obtain ⟨t₁, ht₁, heq⟩ := Option.map_eq_some_iff.mp h
    obtain ⟨_, rfl⟩ := Prod.mk.inj heq
    rw [Table.insert_eq_some.mp ht₁] at hr'
    rcases List.mem_append.mp hr' with hr | hr
    · exact Or.inr ⟨r', hr, _, rfl⟩
    · exact Or.inl (List.mem_singleton.mp hr)

theorem exec_enqueue (req : EnqueueRequest) (jobId : Text) (clock now : Nat) (db : Database) :
    (Call.enqueue req jobId clock now).exec L cfg db =
      (enqueue L cfg req jobId clock now db).map fun out => (.enqueue out.1, out.2) := rfl

namespace QueueState

variable {L cfg} {s : QueueState} {c : Call}

theorem perform_of_none (h : c.exec L cfg s.db = none) :
    s.perform L cfg c = { s with drawn := c.ulids ++ s.drawn } := by
  unfold perform
  rw [h]

theorem perform_of_some {reply : Reply} {db : Database}
    (h : c.exec L cfg s.db = some (reply, db)) :
    s.perform L cfg c =
      { db, drawn := c.ulids ++ s.drawn, accepted := s.accepted ++ c.accepted L cfg reply } := by
  unfold perform
  rw [h]

/-- A step of the run: the jobs move by the rules, and what is newly accepted has a job. -/
def Performs (s s' : QueueState) (ulids : List Text) (new : List (Text × Trigger)) : Prop :=
  s'.accepted = s.accepted ++ new ∧
    JobRun ulids (new.map Prod.snd : List Trigger) s.jobs s'.jobs ∧
    ∀ a ∈ new, ∃ r ∈ s'.jobs, r.jobId = a.1

theorem performs_of_advances {reply : Reply} {db : Database}
    (h : c.exec L cfg s.db = some (reply, db)) (haccepted : c.accepted L cfg reply = [])
    (hadvances : Advances c.ulids s.db db) : s.Performs (s.perform L cfg c) c.ulids [] := by
  rw [perform_of_some h, haccepted]
  exact ⟨rfl, hadvances, fun a ha => absurd ha List.not_mem_nil⟩

variable (L cfg) in
/-- **One call is a run of the rules** that accepts the triggers it enqueues. -/
theorem perform_run (s : QueueState) (c : Call)
    (hfresh : ∀ r ∈ s.db.table.rows, ∀ u ∈ c.ulids, r.leaseToken ≠ some u) :
    ∃ new, s.Performs (s.perform L cfg c) c.ulids new := by
  cases c with
  | enqueue req jobId clock now =>
      rcases enqueue_cases L cfg req jobId clock now s.db with
        hnone | ⟨problems, hinvalid⟩ | ⟨v, result, t', hvalid, hinsert, henqueued⟩
      · have hexec : (Call.enqueue req jobId clock now).exec L cfg s.db = none := by
          rw [exec_enqueue, hnone]
          rfl
        rw [perform_of_none hexec]
        exact ⟨[], (List.append_nil _).symm, .refl _, fun a ha => absurd ha List.not_mem_nil⟩
      · have hexec : (Call.enqueue req jobId clock now).exec L cfg s.db =
            some (.enqueue (.invalid problems), s.db) := by
          rw [exec_enqueue, hinvalid]
          rfl
        exact ⟨[], performs_of_advances hexec rfl (.refl _ _)⟩
      · have hexec : (Call.enqueue req jobId clock now).exec L cfg s.db =
            some (.enqueue (.enqueued result), { s.db with table := t' }) := by
          rw [exec_enqueue, henqueued]
          rfl
        obtain ⟨hstep, r, hr, hid, _⟩ := insertJob_step [jobId] hinsert rfl rfl rfl rfl
          (validateEnqueue_trigger L cfg hvalid)
        rw [perform_of_some hexec]
        refine ⟨[(result.jobId, v.trigger)], ?_, .single hstep, ?_⟩
        · simp only [Call.accepted, hvalid]
        · intro a ha
          obtain rfl := List.mem_singleton.mp ha
          exact ⟨r, Table.mem_bag.mpr hr, hid⟩
  | claimOnce args now token locked =>
      obtain ⟨reply, db', hrun, hadvances⟩ := commits_map (f := Reply.claim)
        (Q := fun _ => Advances [token] s.db) (claimOnce_commits L cfg args now locked fun r hr => hfresh r hr token List.mem_cons_self)
      exact ⟨[], performs_of_advances hrun rfl hadvances⟩
  | transact call =>
      obtain ⟨reply, db', hrun, hadvances⟩ :=
        call.commits (Call.transact call).ulids s.db L cfg
      exact ⟨[], performs_of_advances hrun rfl hadvances⟩

end QueueState

/-- The invariant of a run. -/
structure QueueState.Sound (s : QueueState) : Prop where
  exclusive : Exclusive s.jobs
  marked : Marked s.jobs
  drawn : ∀ r ∈ s.jobs, ∀ token, r.leaseToken = some token → token ∈ s.drawn
  records : ContextLayer.records s.jobs = s.acceptedTriggers
  accounted : ∀ a ∈ s.accepted, Accounted s.jobs a.1

namespace QueueState

theorem perform_drawn (s : QueueState) (c : Call) :
    (s.perform L cfg c).drawn = c.ulids ++ s.drawn := by
  unfold perform
  split <;> rfl

theorem sound_start : Sound .start where
  exclusive := .zero
  marked := .zero
  drawn r hr := absurd hr (Multiset.notMem_zero r)
  records := rfl
  accounted _ ha := absurd ha List.not_mem_nil

theorem Sound.perform {s : QueueState} (h : s.Sound) {c : Call} (hdraws : s.Draws c) :
    (s.perform L cfg c).Sound := by
  have hfresh : ∀ r ∈ s.db.table.rows, ∀ u ∈ c.ulids, r.leaseToken ≠ some u := by
    intro r hr u hu htoken
    exact hdraws u hu (h.drawn r (Table.mem_bag.mpr hr) u htoken)
  obtain ⟨new, hnew, hrun, hids⟩ := s.perform_run L cfg c hfresh
  obtain ⟨hE, hM, haccounted⟩ := hrun.accounted h.exclusive h.marked
  refine ⟨hE, hM, ?_, ?_, ?_⟩
  · intro r hr token htoken
    rw [perform_drawn]
    rcases hrun.token_mem hr htoken with hfresh | ⟨r₀, hr₀, htoken₀⟩
    · exact List.mem_append_left _ hfresh
    · exact List.mem_append_right _ (h.drawn r₀ hr₀ token htoken₀)
  · rw [hrun.records, h.records, acceptedTriggers, acceptedTriggers, hnew, List.map_append]
    rfl
  · intro a ha
    rw [hnew] at ha
    rcases List.mem_append.mp ha with ha | ha
    · exact haccounted a.1 (h.accounted a ha)
    · obtain ⟨r, hr, hid⟩ := hids a ha
      exact ⟨r, hr, Or.inl hid⟩

theorem Reachable.sound {s : QueueState} (h : Reachable L cfg s) : s.Sound := by
  induction h with
  | start => exact sound_start
  | call c _ hdraws ih => exact ih.perform L cfg hdraws

end QueueState

variable {L cfg}

/-! ### Calls in a row -/

/-- Events that draw pairwise different ULIDs, none of them drawn yet, may follow one another. -/
theorem foldl_of_fresh {State Event : Type} {R : State → Prop} {step : State → Event → State}
    (drawn : State → List Text) {draws : Event → List Text}
    (hstep : ∀ s e, R s → (∀ u ∈ draws e, u ∉ drawn s) → R (step s e))
    (hdrawn : ∀ s e, ∀ u ∈ drawn (step s e), u ∈ draws e ∨ u ∈ drawn s) {s : State} (hs : R s)
    {events : List Event} (hnodup : (events.flatMap draws).Nodup)
    (hfresh : ∀ u ∈ events.flatMap draws, u ∉ drawn s) : R (events.foldl step s) := by
  induction events generalizing s with
  | nil => exact hs
  | cons e events ih =>
      rw [List.flatMap_cons, List.nodup_append] at hnodup
      rw [List.flatMap_cons] at hfresh
      obtain ⟨_, hnodup, hdisjoint⟩ := hnodup
      have hnext : R (step s e) :=
        hstep s e hs fun u hu => hfresh u (List.mem_append_left _ hu)
      refine ih hnext hnodup ?_
      intro u hu hold
      rcases hdrawn s e u hold with hu' | hold
      · exact hdisjoint u hu' u hu rfl
      · exact hfresh u (List.mem_append_right _ hu) hold

def QueueState.calls (L : Packages) (cfg : CoreConfig) (calls : List Call) : QueueState :=
  calls.foldl (fun s c => s.perform L cfg c) .start

/-- Calls whose ULIDs are pairwise different are an interleaving. -/
theorem reachable_calls {calls : List Call} (h : (calls.flatMap Call.ulids).Nodup) :
    (QueueState.calls L cfg calls).Reachable L cfg := by
  refine foldl_of_fresh QueueState.drawn (fun s c hs hdraws => .call c hs hdraws) ?_
    .start h fun u _ => List.not_mem_nil
  intro s c u hu
  rw [QueueState.perform_drawn] at hu
  exact List.mem_append.mp hu

/-- The packages on a range like `*` and a message without credentials. -/
def plainPackages : Packages := ⟨fun _ => true, fun _ _ => true, id, stringify⟩

def defaultConfig : CoreConfig := ⟨60, 30, 1800, 20, 10⟩

def snapshotRequest (system kind : String) : EnqueueRequest where
  type := some (.str (js "snapshot"))
  system := some (.str (js system))
  connector := some ⟨some (.str (js "supabase")), none⟩
  payload := none
  priority := none
  maxAttempts := none
  deadlineS := none
  maxDeferrals := none
  trigger := some ⟨some (.str (js kind)), none⟩

def snapshotRunner : ClaimArgs where
  runnerId := js "runner-1"
  connectors := [⟨js "supabase", some (js "1.0.0"), none⟩]
  classes := [js "batch"]

/-- A job claimed, and a follower queued behind it. -/
def leasedAndQueued : List Call :=
  [.enqueue (snapshotRequest "crm" "schedule") (js "J1") 0 0,
    .claimOnce snapshotRunner 1 (js "T1") fun _ => false,
    .enqueue (snapshotRequest "crm" "webhook") (js "J2") 2 2]

def timeout : ErrorEnvelope := ⟨js "source_unavailable", js "connection timed out", true, none⟩

/-- The claimed job fails: it absorbs its follower and waits for its second attempt. -/
def absorbed : List Call :=
  leasedAndQueued ++ [.transact (.failJob (js "J1") (js "T1") timeout 3 1000)]

/-! ### Exclusivity -/

/-- **Queue exclusivity.** Whatever producers and runners call in whatever order, one batch job at
most is queued for a key and one at most is live, each live job has a lease token that no other job
has, and no other job has any. -/
theorem queue_exclusive {s : QueueState} (h : s.Reachable L cfg) : Exclusive s.jobs :=
  h.sound.exclusive

theorem queue_exclusive_leasedAndQueued :
    (QueueState.calls plainPackages defaultConfig leasedAndQueued).db.table.rows.map JobRow.state =
        [.leased, .queued] ∧
      Exclusive (QueueState.calls plainPackages defaultConfig leasedAndQueued).jobs :=
  ⟨by decide, queue_exclusive (reachable_calls (by decide))⟩

/-! ### Triggers -/

/-- **No accepted trigger is lost.** Some job holds each, with or without a mark, and the jobs that
have not handed theirs over hold as many of each as enqueues recorded it. -/
theorem triggers_kept {s : QueueState} (h : s.Reachable L cfg) :
    (∀ a ∈ s.accepted, ∃ r ∈ s.db.table.rows, ∃ t ∈ r.triggers, t.strip = a.2) ∧
      records s.jobs = s.acceptedTriggers := by
  have hrecords := h.sound.records
  refine ⟨?_, hrecords⟩
  intro a ha
  have hmem : a.2 ∈ records s.jobs := by
    rw [hrecords]
    exact Multiset.mem_coe.mpr (List.mem_map_of_mem ha)
  obtain ⟨r, hr, t, ht, hstrip⟩ := exists_trigger_of_mem_records hmem
  exact ⟨r, Table.mem_bag.mp hr, t, ht, hstrip⟩

theorem triggers_kept_absorbed :
    (QueueState.calls plainPackages defaultConfig absorbed).accepted.length = 2 ∧
      records (QueueState.calls plainPackages defaultConfig absorbed).jobs =
        (QueueState.calls plainPackages defaultConfig absorbed).acceptedTriggers :=
  ⟨by decide, (triggers_kept (reachable_calls (by decide))).2⟩

end ContextLayer
