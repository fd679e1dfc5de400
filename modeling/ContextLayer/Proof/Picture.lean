import ContextLayer.Picture
import ContextLayer.Proof.Acquisition
import ContextLayer.Proof.Attempts
import ContextLayer.Proof.JobIds

/-!
# When a run states the latest picture

A registered system that is not pending rides along on its latest acceptance, so nothing can be
newer. A pending one is stated on the snapshot its mark's job delivered, and in the time between the
delivery and the run's look at it another job may have delivered for the system.
-/

namespace ContextLayer

open Text Transaction Prog

variable {L : Packages} {cfg : CoreConfig} {sha256 : List UInt8 → Text}

/-! ### The latest acceptance -/

instance : Std.Total newestFirst := by
  constructor
  intro a b
  rcases lt_trichotomy a.acceptedAt b.acceptedAt with h | h | h
  · exact Or.inr (Or.inl h)
  · rcases List.le_total a.snapshotId b.snapshotId with hid | hid
    · exact Or.inr (Or.inr ⟨h.symm, hid⟩)
    · exact Or.inl (Or.inr ⟨h, hid⟩)
  · exact Or.inl (Or.inl h)

instance : IsTrans AcceptedSnapshot newestFirst := by
  constructor
  rintro a b c (hab | ⟨hab, hid⟩) (hbc | ⟨hbc, hid'⟩)
  · exact Or.inl (hbc.trans hab)
  · exact Or.inl (hbc ▸ hab)
  · exact Or.inl (hab ▸ hbc)
  · exact Or.inr ⟨hab.trans hbc, List.le_trans hid' hid⟩

theorem latestSnapshot_eq_none {system : Text} {snapshots : List AcceptedSnapshot}
    (h : latestSnapshot system snapshots = none) : ∀ a ∈ snapshots, a.system ≠ system := by
  intro a ha hsystem
  have hmem : a ∈ (snapshots.filter fun s => decide (s.system = system)).insertionSort newestFirst :=
    (List.mem_insertionSort newestFirst).mpr (List.mem_filter.mpr ⟨ha, decide_eq_true hsystem⟩)
  unfold latestSnapshot at h
  rw [List.head?_eq_none_iff] at h
  rw [h] at hmem
  cases hmem

theorem mostRecent_latestSnapshot {system : Text} {snapshots : List AcceptedSnapshot}
    {a : AcceptedSnapshot} (h : latestSnapshot system snapshots = some a) :
    MostRecent system snapshots a := by
  unfold latestSnapshot at h
  have hsorted := List.pairwise_insertionSort newestFirst
    (snapshots.filter fun s => decide (s.system = system))
  have hmem : ∀ b, b ∈ (snapshots.filter fun s => decide (s.system = system)).insertionSort
      newestFirst ↔ b ∈ snapshots ∧ b.system = system := by
    intro b
    rw [List.mem_insertionSort, List.mem_filter, decide_eq_true_eq]
  obtain ⟨rest, hrest⟩ := List.head?_eq_some_iff.mp h
  rw [hrest] at hsorted hmem
  obtain ⟨hlater, _⟩ := List.pairwise_cons.mp hsorted
  obtain ⟨ha, hsystem⟩ := (hmem a).mp List.mem_cons_self
  refine ⟨ha, hsystem, ?_⟩
  intro b hb hb_system
  rcases List.mem_cons.mp ((hmem b).mpr ⟨hb, hb_system⟩) with rfl | hb
  · exact le_rfl
  · rcases hlater b hb with hlt | ⟨heq, _⟩
    · exact hlt.le
    · exact heq.ge

theorem getSnapshotBody_eq_some {snapshotId : Text} {snapshots : List AcceptedSnapshot}
    {body : List UInt8} (h : getSnapshotBody snapshotId snapshots = some body) :
    ∃ a ∈ snapshots, a.snapshotId = snapshotId ∧ a.body = body := by
  obtain ⟨a, hfind, hbody⟩ := Option.map_eq_some_iff.mp h
  exact ⟨a, List.mem_of_find?_eq_some hfind, by simpa using List.find?_some hfind, hbody⟩

theorem exists_getSnapshotBody {snapshotId : Text} {snapshots : List AcceptedSnapshot}
    {a : AcceptedSnapshot} (ha : a ∈ snapshots) (hid : a.snapshotId = snapshotId) :
    ∃ body, getSnapshotBody snapshotId snapshots = some body := by
  unfold getSnapshotBody
  cases hfind : snapshots.find? fun s => decide (s.snapshotId = snapshotId) with
  | none => exact absurd (decide_eq_true hid) (List.find?_eq_none.mp hfind a ha)
  | some b => exact ⟨b.body, rfl⟩

/-! ### What a call does to jobs and snapshots -/

section

variable {c : Call} {db db' : Database} {reply : Reply}

theorem mem_pruneSnapshots {system : Text} {keep : Nat} {snapshots : List AcceptedSnapshot}
    {a : AcceptedSnapshot} (h : a ∈ pruneSnapshots system keep snapshots) : a ∈ snapshots :=
  (List.mem_filter.mp h).1

theorem succeedSnapshot_run (cfg : CoreConfig) (snapshotId : Text) (verdict : SnapshotVerdict)
    (body : List UInt8) (now : Nat) {jobId leaseToken : Text} {row : JobRow}
    (hrow : row ∈ db.table.rows)
    (hleased : isLeased jobId leaseToken row = true) :
    ∃ t', (succeedSnapshot cfg jobId leaseToken verdict body snapshotId now).run db =
        some (some snapshotId, ⟨t', { db.rest with
          snapshots := pruneSnapshots row.system cfg.snapshotRetention
            (db.rest.snapshots ++ [verdict.snapshot row snapshotId body now]) }⟩) ∧
      t'.rows = updateRows jobSchema jobId (setSucceeded now none (some (.snapshot snapshotId
        verdict.sha256 verdict.canonicalBodySha256 verdict.objectCount))) db.table.rows := by
  obtain ⟨hid, _⟩ := jobId_of_leased hleased
  subst hid
  obtain ⟨t', ht'⟩ := update_isSome hrow (setSucceeded now none (some (.snapshot snapshotId
    verdict.sha256 verdict.canonicalBodySha256 verdict.objectCount)))
    fun _ hqueued => absurd hqueued.1 JobState.noConfusion
  refine ⟨t', ?_, Table.update_eq_some.mp ht'⟩
  have hlock : (lockLeased row.jobId leaseToken).run db = some (some row, db) := by
    rw [← head?_leased hrow hleased]
    rfl
  refine (run_bind (lockLeased row.jobId leaseToken) _ db).trans ?_
  rw [hlock, Option.bind_some]
  change ((db.table.update row.jobId _).bind fun t => _) = _
  rw [ht']
  rfl

/-- What is accepted was delivered for a live job. -/
theorem mem_delivery {a : AcceptedSnapshot} (h : a ∈ Estate.delivery c db) :
    Estate.delivery c db = [a] ∧ a.snapshotId ∈ c.ulids ∧ a.acceptedAt = c.now ∧
      ∃ row ∈ db.table.rows, row.state.live = true ∧ a.jobId = row.jobId ∧
        a.system = row.system := by
  unfold Estate.delivery at h ⊢
  split at h
  · rename_i jobId leaseToken verdict body snapshotId now
    cases hhead : (db.table.rows.filter (isLeased jobId leaseToken)).head? with
    | none =>
        rw [hhead] at h
        cases h
    | some row =>
        rw [hhead] at h
        obtain rfl := List.mem_singleton.mp h
        obtain ⟨hrow, hleased⟩ := List.mem_filter.mp (List.mem_of_mem_head? hhead)
        exact ⟨rfl, List.mem_singleton_self _, rfl, row, hrow, (jobId_of_leased hleased).2, rfl, rfl⟩
  · cases h

theorem delivery_pairwise (R : AcceptedSnapshot → AcceptedSnapshot → Prop) (c : Call)
    (db : Database) : (Estate.delivery c db).Pairwise R := by
  cases hdelivery : Estate.delivery c db with
  | nil => exact List.Pairwise.nil
  | cons a rest =>
      obtain ⟨hsingle, _⟩ := mem_delivery (hdelivery ▸ List.mem_cons_self : a ∈ Estate.delivery c db)
      rw [← hdelivery, hsingle]
      exact List.pairwise_singleton R a

/-- A delivery is stored, and its job has succeeded. -/
theorem exec_delivery (hexec : c.exec L cfg db = some (reply, db')) {a : AcceptedSnapshot}
    (ha : a ∈ Estate.delivery c db) :
    ∃ r ∈ db'.table.rows, r.jobId = a.jobId ∧ r.state = .succeeded := by
  unfold Estate.delivery at ha
  split at ha
  · rename_i jobId leaseToken verdict body snapshotId now
    cases hhead : (db.table.rows.filter (isLeased jobId leaseToken)).head? with
    | none =>
        rw [hhead] at ha
        cases ha
    | some row =>
        rw [hhead] at ha
        obtain rfl := List.mem_singleton.mp ha
        obtain ⟨hrow, hleased⟩ := List.mem_filter.mp (List.mem_of_mem_head? hhead)
        obtain ⟨t', hrun, hrows⟩ := succeedSnapshot_run cfg snapshotId verdict body now hrow hleased
        obtain ⟨_, hrun', _⟩ := run_map_eq_some.mp hexec
        obtain ⟨_, rfl⟩ := Prod.mk.inj (Option.some.inj (hrun.symm.trans hrun'))
        obtain ⟨hid, _⟩ := jobId_of_leased hleased
        refine ⟨(setSucceeded now none (some (.snapshot snapshotId verdict.sha256
          verdict.canonicalBodySha256 verdict.objectCount))).apply row, ?_, rfl, rfl⟩
        change _ ∈ t'.rows
        rw [hrows]
        exact mem_updateRows.mpr (Or.inl ⟨row, hrow, hid, rfl⟩)
  · cases ha

theorem TxCall.delivers_cases (call : TxCall) :
    call.delivers = none ∨ ∃ jobId leaseToken verdict body snapshotId now,
      call = .succeedSnapshot jobId leaseToken verdict body snapshotId now := by
  cases call with
  | succeedSnapshot jobId leaseToken verdict body snapshotId now =>
      exact Or.inr ⟨jobId, leaseToken, verdict, body, snapshotId, now, rfl⟩
  | _ => exact Or.inl rfl

/-- A job after the call: one from before, or a new one. -/
def Follows (c : Call) (db : Database) (r' : JobRow) : Prop :=
  (∃ r ∈ db.table.rows, r'.jobId = r.jobId ∧ r'.system = r.system ∧
    ∀ id ∈ r'.snapshotId, id ∈ r.snapshotId ∨
      ∃ a ∈ Estate.delivery c db, a.snapshotId = id ∧ a.jobId = r.jobId ∧ a.system = r.system) ∨
  (r'.jobId ∈ c.ulids ∧ r'.snapshotId = none)

theorem follows_of_mem {r : JobRow} (hr : r ∈ db.table.rows) : Follows c db r :=
  Or.inl ⟨r, hr, rfl, rfl, fun _ => Or.inl⟩

/-- A delivery is the only call that stores a snapshot or notes one on a job. -/
theorem succeedSnapshot_effect {jobId leaseToken snapshotId : Text} {verdict : SnapshotVerdict}
    {body : List UInt8} {now : Nat}
    (hexec : (Call.transact (.succeedSnapshot jobId leaseToken verdict body snapshotId now)).exec L
      cfg db = some (reply, db')) :
    (∀ a ∈ db'.rest.snapshots,
      a ∈ Estate.delivery (.transact (.succeedSnapshot jobId leaseToken verdict body snapshotId
        now)) db ++ db.rest.snapshots) ∧
    ∀ r' ∈ db'.table.rows,
      Follows (.transact (.succeedSnapshot jobId leaseToken verdict body snapshotId now)) db r' := by
  obtain ⟨_, hrun, _⟩ := run_map_eq_some.mp hexec
  by_cases hheld : ∃ row ∈ db.table.rows, isLeased jobId leaseToken row = true
  · obtain ⟨row, hrow, hleased⟩ := hheld
    obtain ⟨hid, _⟩ := jobId_of_leased hleased
    have hdelivery : Estate.delivery (.transact (.succeedSnapshot jobId leaseToken verdict body
        snapshotId now)) db = [verdict.snapshot row snapshotId body now] := by
      change ((db.table.rows.filter (isLeased jobId leaseToken)).head?.map _).toList = _
      rw [head?_leased hrow hleased]
      rfl
    obtain ⟨t', hrun', hrows⟩ := succeedSnapshot_run cfg snapshotId verdict body now hrow hleased
    obtain ⟨_, rfl⟩ := Prod.mk.inj (Option.some.inj (hrun'.symm.trans hrun))
    constructor
    · intro a ha
      rw [hdelivery]
      rcases List.mem_append.mp (mem_pruneSnapshots ha) with ha | ha
      · exact List.mem_append_right _ ha
      · exact List.mem_append_left _ ha
    · intro r' hr'
      change r' ∈ t'.rows at hr'
      rw [hrows] at hr'
      rcases mem_updateRows.mp hr' with ⟨r, hr, hkey, rfl⟩ | ⟨hr, _⟩
      · obtain rfl : r = row := db.table.eq_of_key hr hrow (hkey.trans hid.symm)
        refine Or.inl ⟨r, hr, rfl, rfl, ?_⟩
        intro id hsnapshot
        change truthy (some snapshotId) = some id at hsnapshot
        obtain ⟨hsome, _⟩ := Option.filter_eq_some_iff.mp hsnapshot
        right
        rw [hdelivery]
        exact ⟨_, List.mem_singleton_self _, Option.some.inj hsome, rfl, rfl⟩
      · exact follows_of_mem hr
  · have hnone : (succeedSnapshot cfg jobId leaseToken verdict body snapshotId now).run db =
        some (none, db) :=
      leased_run_of_none rfl fun row hrow =>
        Bool.eq_false_iff.mpr fun hleased => hheld ⟨row, hrow, hleased⟩
    obtain ⟨_, rfl⟩ := Prod.mk.inj (Option.some.inj (hnone.symm.trans hrun))
    exact ⟨fun a ha => List.mem_append_right _ ha, fun r' hr' => follows_of_mem hr'⟩

theorem exec_effect (hexec : c.exec L cfg db = some (reply, db')) :
    (∀ a ∈ db'.rest.snapshots, a ∈ Estate.delivery c db ++ db.rest.snapshots) ∧
      ∀ r' ∈ db'.table.rows, Follows c db r' := by
  cases c with
  | enqueue req jobId clock now =>
      obtain ⟨⟨answer, _⟩, hrun, heq⟩ := Option.map_eq_some_iff.mp hexec
      obtain ⟨_, rfl⟩ := Prod.mk.inj heq
      rcases enqueue_cases L cfg req jobId clock now db with
        hnone | ⟨problems, hinvalid⟩ | ⟨v, result, t', _, hinsert, henqueued⟩
      · cases hnone.symm.trans hrun
      · obtain ⟨_, rfl⟩ := Prod.mk.inj (Option.some.inj (hinvalid.symm.trans hrun))
        exact ⟨fun a ha => ha, fun r' hr' => follows_of_mem hr'⟩
      · obtain ⟨_, rfl⟩ := Prod.mk.inj (Option.some.inj (henqueued.symm.trans hrun))
        refine ⟨fun a ha => ha, ?_⟩
        intro r' hr'
        rcases insertJob_cases hinsert hr' with rfl | ⟨r, hr, triggers, rfl⟩
        · exact Or.inr ⟨List.mem_singleton_self _, rfl⟩
        · exact Or.inl ⟨r, hr, rfl, rfl, fun _ => Or.inl⟩
  | claimOnce args now token locked =>
      obtain ⟨answer, hrun, _⟩ := run_map_eq_some.mp hexec
      rcases claimOnce_run hrun with ⟨_, rfl⟩ | ⟨row, lease, _, hrest, hrows⟩
      · exact ⟨fun a ha => ha, fun r' hr' => follows_of_mem hr'⟩
      · refine ⟨fun a ha => hrest ▸ ha, ?_⟩
        intro r' hr'
        rw [hrows] at hr'
        rcases mem_updateRows.mp hr' with ⟨r, hr, _, rfl⟩ | ⟨hr, _⟩
        · exact Or.inl ⟨r, hr, rfl, rfl, fun _ => Or.inl⟩
        · exact follows_of_mem hr
  | transact call =>
      rcases call.delivers_cases with hnone | ⟨jobId, leaseToken, verdict, body, snapshotId, now, rfl⟩
      · refine ⟨fun a ha => List.mem_append_right _ (call.snapshots_eq hexec hnone ▸ ha), ?_⟩
        intro r' hr'
        obtain ⟨r, hr, hworked⟩ := call.worked hexec hr'
        refine Or.inl ⟨r, hr, hworked.jobId, hworked.system, ?_⟩
        intro id hid
        refine (hworked.snapshotId id hid).elim (fun hcall => ?_) Or.inl
        cases hnone.symm.trans hcall
      · exact succeedSnapshot_effect hexec

end

/-! ### The record of acceptances -/

namespace Estate

/-- Every acceptance is the only one of a job that has succeeded, was recorded in its order, and is
what the jobs and the store refer to. -/
structure Records (w : Estate) : Prop where
  queue : w.queue.Sound
  rowIds : ∀ r ∈ w.queue.db.table.rows, r.jobId ∈ w.queue.drawn
  past : ∀ a ∈ w.accepted, a.snapshotId ∈ w.queue.drawn ∧ a.acceptedAt ≤ w.now
  done : ∀ a ∈ w.accepted, ∃ r ∈ w.queue.db.table.rows, r.jobId = a.jobId ∧ r.state = .succeeded
  ids : (w.accepted.map AcceptedSnapshot.snapshotId).Nodup
  jobs : (w.accepted.map AcceptedSnapshot.jobId).Nodup
  order : w.accepted.Pairwise fun newer older => older.acceptedAt ≤ newer.acceptedAt
  stored : ∀ a ∈ w.queue.db.rest.snapshots, a ∈ w.accepted
  noted : ∀ r ∈ w.queue.db.table.rows, ∀ id ∈ r.snapshotId, ∃ a ∈ w.accepted,
    a.snapshotId = id ∧ a.jobId = r.jobId ∧ a.system = r.system

/-- The id was drawn for a job of the system. -/
def Names (w : Estate) (system id : Text) : Prop :=
  id ∈ w.queue.drawn ∧ ∀ r ∈ w.queue.db.table.rows, r.jobId = id → r.system = system

theorem records_start : Records .start where
  queue := QueueState.sound_start
  rowIds _ h := nomatch h
  past _ h := nomatch h
  done _ h := nomatch h
  ids := List.nodup_nil
  jobs := List.nodup_nil
  order := List.Pairwise.nil
  stored _ h := nomatch h
  noted _ h := nomatch h

variable {w : Estate} {c : Call}

theorem delivery_of_refused {db : Database} (h : c.exec L cfg db = none) : delivery c db = [] := by
  cases c with
  | enqueue | claimOnce => rfl
  | transact call =>
      obtain ⟨reply, db', hrun, _⟩ := call.commits [] db L cfg
      cases h.symm.trans hrun

theorem call_of_refused (h : c.exec L cfg w.queue.db = none) :
    w.call L cfg c = { w with
      queue := { w.queue with drawn := c.ulids ++ w.queue.drawn }, now := c.now } := by
  unfold call
  rw [QueueState.perform_of_none h, delivery_of_refused h]
  rfl

theorem Records.refused (h : w.Records) (hnow : w.now ≤ c.now)
    (hexec : c.exec L cfg w.queue.db = none) (hsound : (w.call L cfg c).queue.Sound) :
    (w.call L cfg c).Records := by
  rw [call_of_refused hexec] at hsound ⊢
  exact ⟨hsound, fun r hr => List.mem_append_right _ (h.rowIds r hr),
    fun a ha => ⟨List.mem_append_right _ (h.past a ha).1, (h.past a ha).2.trans hnow⟩, h.done,
    h.ids, h.jobs, h.order, h.stored, h.noted⟩

/-- A job delivers once: it is live when it does, and has succeeded then. -/
theorem Records.new_job (h : w.Records) {a : AcceptedSnapshot} (ha : a ∈ delivery c w.queue.db) :
    a.jobId ∉ w.accepted.map AcceptedSnapshot.jobId := by
  intro hmem
  obtain ⟨b, hb, hjob⟩ := List.mem_map.mp hmem
  obtain ⟨_, _, _, row, hrow, hlive, hid, _⟩ := mem_delivery ha
  obtain ⟨r, hr, hr_id, hstate⟩ := h.done b hb
  obtain rfl : r = row :=
    w.queue.db.table.eq_of_key hr hrow ((hr_id.trans hjob).trans hid)
  rw [hstate] at hlive
  cases hlive

theorem Records.answered (h : w.Records) (hdraws : w.queue.Draws c) (hnow : w.now ≤ c.now)
    {reply : Reply} {db' : Database} (hexec : c.exec L cfg w.queue.db = some (reply, db')) :
    (w.call L cfg c).Records := by
  have hqueue : (w.call L cfg c).queue.db = db' := by
    unfold call
    rw [QueueState.perform_of_some hexec]
  have hdrawn : (w.call L cfg c).queue.drawn = c.ulids ++ w.queue.drawn := by
    unfold call
    rw [QueueState.perform_drawn]
  have haccepted : (w.call L cfg c).accepted = delivery c w.queue.db ++ w.accepted := rfl
  obtain ⟨hsnapshots, hrows⟩ := exec_effect hexec
  have hfresh : ∀ r ∈ w.queue.db.table.rows, ∀ u ∈ c.ulids, r.leaseToken ≠ some u := by
    intro r hr u hu htoken
    exact hdraws u hu (h.queue.drawn r (Table.mem_bag.mpr hr) u htoken)
  obtain ⟨_, _, hrun, _⟩ := w.queue.perform_run L cfg c hfresh
  have hkept := hrun.endsKept
  rw [QueueState.perform_of_some hexec] at hkept
  refine ⟨h.queue.perform L cfg hdraws, ?_, ?_, ?_, ?_, ?_, ?_, ?_, ?_⟩
  · rw [hqueue, hdrawn]
    intro r' hr'
    rcases hrows r' hr' with ⟨r, hr, hid, _⟩ | ⟨hid, _⟩
    · exact List.mem_append_right _ (hid ▸ h.rowIds r hr)
    · exact List.mem_append_left _ hid
  · rw [haccepted, hdrawn]
    intro a ha
    rcases List.mem_append.mp ha with ha | ha
    · obtain ⟨_, hid, hat, _⟩ := mem_delivery ha
      exact ⟨List.mem_append_left _ hid, hat.le⟩
    · exact ⟨List.mem_append_right _ (h.past a ha).1, (h.past a ha).2.trans hnow⟩
  · rw [haccepted, hqueue]
    intro a ha
    rcases List.mem_append.mp ha with ha | ha
    · exact exec_delivery hexec ha
    · obtain ⟨r, hr, hid, hstate⟩ := h.done a ha
      obtain ⟨r', hr', hsame, hstate', _⟩ :=
        hkept r (Table.mem_bag.mpr hr) (by rw [hstate]; rfl)
      exact ⟨r', Table.mem_bag.mp hr', hsame.jobId.trans hid, hstate'.trans hstate⟩
  · rw [haccepted, List.map_append, List.nodup_append]
    refine ⟨List.pairwise_map.mpr (delivery_pairwise _ _ _), h.ids, ?_⟩
    · rintro id hnew _ hold rfl
      obtain ⟨a, ha, rfl⟩ := List.mem_map.mp hnew
      obtain ⟨b, hb, hsame⟩ := List.mem_map.mp hold
      obtain ⟨_, hid, _⟩ := mem_delivery ha
      exact hdraws _ hid (hsame ▸ (h.past b hb).1)
  · rw [haccepted, List.map_append, List.nodup_append]
    refine ⟨List.pairwise_map.mpr (delivery_pairwise _ _ _), h.jobs, ?_⟩
    · rintro id hnew _ hold rfl
      obtain ⟨a, ha, rfl⟩ := List.mem_map.mp hnew
      exact h.new_job ha hold
  · rw [haccepted, List.pairwise_append]
    refine ⟨delivery_pairwise _ _ _, h.order, ?_⟩
    · intro a ha b hb
      obtain ⟨_, _, hat, _⟩ := mem_delivery ha
      rw [hat]
      exact (h.past b hb).2.trans hnow
  · rw [haccepted, hqueue]
    intro a ha
    rcases List.mem_append.mp (hsnapshots a ha) with ha | ha
    · exact List.mem_append_left _ ha
    · exact List.mem_append_right _ (h.stored a ha)
  · rw [haccepted, hqueue]
    intro r' hr' id hid
    rcases hrows r' hr' with ⟨r, hr, hjob, hsystem, hsnapshot⟩ | ⟨_, hnone⟩
    · rw [hjob, hsystem]
      rcases hsnapshot id hid with hid | ⟨a, ha, hnew⟩
      · obtain ⟨a, ha, hnoted⟩ := h.noted r hr id hid
        exact ⟨a, List.mem_append_right _ ha, hnoted⟩
      · exact ⟨a, List.mem_append_left _ ha, hnew⟩
    · rw [hnone] at hid
      cases hid

theorem Records.call (L : Packages) (cfg : CoreConfig) (h : w.Records) (hdraws : w.queue.Draws c) (hnow : w.now ≤ c.now) :
    (w.call L cfg c).Records := by
  cases hexec : c.exec L cfg w.queue.db with
  | none => exact h.refused hnow hexec (h.queue.perform L cfg hdraws)
  | some out => exact h.answered hdraws hnow hexec

/-- Ids go on naming what they named: no new job is given an old one. -/
theorem Names.call {system id : Text} (h : w.Names system id) (hdraws : w.queue.Draws c) :
    (w.call L cfg c).Names system id := by
  obtain ⟨hdrawn, hnames⟩ := h
  constructor
  · change id ∈ (w.queue.perform L cfg c).drawn
    rw [QueueState.perform_drawn]
    exact List.mem_append_right _ hdrawn
  · intro r' hr' hid
    change r' ∈ (w.queue.perform L cfg c).db.table.rows at hr'
    cases hexec : c.exec L cfg w.queue.db with
    | none =>
        rw [QueueState.perform_of_none hexec] at hr'
        exact hnames r' hr' hid
    | some out =>
        rw [QueueState.perform_of_some hexec] at hr'
        rcases (exec_effect hexec).2 r' hr' with ⟨r, hr, hjob, hsystem, _⟩ | ⟨hnew, _⟩
        · exact hsystem.trans (hnames r hr (hjob.symm.trans hid))
        · exact absurd hdrawn (hid ▸ hdraws _ hnew)

/-- The id an enqueue returns is that of a job of the system it was for. -/
theorem names_enqueued (h : w.Records) {req : EnqueueRequest} {jobId id system : Text}
    {clock now : Nat} (hdraws : w.queue.Draws (.enqueue req jobId clock now)) (hnow : w.now ≤ now)
    (hsystem : req.system = some (.str system))
    (hid : (Call.enqueue req jobId clock now).enqueuedId L cfg w.queue.db = some id) :
    (w.call L cfg (.enqueue req jobId clock now)).Names system id := by
  have hrecords := h.call L cfg hdraws hnow
  rcases enqueue_cases L cfg req jobId clock now w.queue.db with
    hnone | ⟨problems, hinvalid⟩ | ⟨v, result, t', hvalid, hinsert, henqueued⟩
  · simp only [Call.enqueuedId, hnone, reduceCtorEq] at hid
  · simp only [Call.enqueuedId, hinvalid, reduceCtorEq] at hid
  · simp only [Call.enqueuedId, henqueued, Option.some.injEq] at hid
    subst hid
    have hv : v.system = system := by
      have hsome := validateEnqueue_system L cfg hvalid
      rw [hsystem] at hsome
      unfold nonEmptyString at hsome
      split at hsome <;> simp_all
    have hexec : (Call.enqueue req jobId clock now).exec L cfg w.queue.db =
        some (.enqueue (.enqueued result), { w.queue.db with table := t' }) := by
      rw [exec_enqueue, henqueued]
      rfl
    obtain ⟨_, r, hr, hr_id, hkey⟩ := insertJob_step [jobId] hinsert rfl rfl rfl rfl
      (validateEnqueue_trigger L cfg hvalid)
    have htable : (w.call L cfg (.enqueue req jobId clock now)).queue.db.table = t' := by
      unfold Estate.call
      rw [QueueState.perform_of_some hexec]
    unfold Names
    rw [htable]
    refine ⟨hr_id ▸ hrecords.rowIds r (htable ▸ hr), ?_⟩
    intro r' hr' hr'_id
    obtain rfl : r' = r := t'.eq_of_key hr' hr (hr'_id.trans hr_id.symm)
    have hr_system : r'.system = v.system := congrArg Prod.fst hkey
    exact hr_system.trans hv

/-! ### The run -/

def MarkSound (w : Estate) (p : PendingSystem) : Prop := ∀ id ∈ p.jobId, w.Names p.system id

/-- The snapshot was accepted from the mark's job, for the mark's system. -/
def Delivered (w : Estate) (p : PendingSystem) (snapshotId : Text) : Prop :=
  ∃ a ∈ w.accepted, a.snapshotId = snapshotId ∧ a.system = p.system ∧ p.jobId = some a.jobId

def Looked (r : Run) (system : Text) : Prop := ∃ look ∈ r.looks, look.system = system

def StageSound (w : Estate) (r : Run) : Prop :=
  match r.stage with
  | .clone => r.looks = []
  | .acquire todo awaiting => (∀ p ∈ todo, w.MarkSound p) ∧
      ∀ p rest snapshotId, todo = p :: rest → awaiting = .snapshot snapshotId →
        w.Delivered p snapshotId
  | .configured => True
  | .restate todo => ∀ system ∈ r.configured, system ∈ todo ∨ Looked r system
  | .body system latest seen todo => latest ∈ w.accepted ∧ MostRecent system seen latest ∧
      ∀ s ∈ r.configured, s = system ∨ s ∈ todo ∨ Looked r s
  | .acquired => ∀ system ∈ r.configured, Looked r system
  | .remark todo => ∀ p ∈ todo, w.MarkSound p

structure RunSound (sha256 : List UInt8 → Text) (w : Estate) (r : Run) : Prop where
  marks : ∀ p ∈ r.marks, w.MarkSound p
  stated : ∀ look ∈ r.looks, ∀ s ∈ look.stated, s.system = look.system
  current : ∀ look ∈ r.looks, look.Current sha256 r
  stage : w.StageSound r

/-- The invariant. -/
structure Sound (sha256 : List UInt8 → Text) (w : Estate) : Prop where
  records : w.Records
  pending : ∀ p ∈ w.pending, w.MarkSound p
  marking : ∀ m ∈ w.marking, w.Names m.system m.jobId
  run : ∀ r ∈ w.run, RunSound sha256 w r

section

variable {w' : Estate} {r : Run}

theorem StageSound.mono (hnames : ∀ system id, w.Names system id → w'.Names system id)
    (haccepted : ∀ a ∈ w.accepted, a ∈ w'.accepted) (h : w.StageSound r) :
    w'.StageSound r := by
  have hmark : ∀ p, w.MarkSound p → w'.MarkSound p := fun p hp id hid => hnames _ _ (hp id hid)
  unfold StageSound at h ⊢
  split at h
  · exact h
  · refine ⟨fun p hp => hmark p (h.1 p hp), ?_⟩
    intro p rest snapshotId htodo hawaiting
    obtain ⟨a, ha, hdelivered⟩ := h.2 p rest snapshotId htodo hawaiting
    exact ⟨a, haccepted a ha, hdelivered⟩
  · exact h
  · exact h
  · exact ⟨haccepted _ h.1, h.2⟩
  · exact h
  · exact fun p hp => hmark p (h p hp)

/-- What goes on beside a run leaves it sound. -/
theorem RunSound.mono (hnames : ∀ system id, w.Names system id → w'.Names system id)
    (haccepted : ∀ a ∈ w.accepted, a ∈ w'.accepted) (h : RunSound sha256 w r) :
    RunSound sha256 w' r where
  marks p hp id hid := hnames _ _ (h.marks p hp id hid)
  stated := h.stated
  current := h.current
  stage := h.stage.mono hnames haccepted

theorem Sound.call (h : w.Sound sha256) (hdraws : w.queue.Draws c) (hnow : w.now ≤ c.now) :
    (w.call L cfg c).Sound sha256 := by
  have hnames : ∀ system id, w.Names system id → (w.call L cfg c).Names system id :=
    fun _ _ hname => hname.call hdraws
  refine ⟨h.records.call L cfg hdraws hnow, ?_, ?_, ?_⟩
  · exact fun p hp id hid => hnames _ _ (h.pending p hp id hid)
  · exact fun m hm => hnames _ _ (h.marking m hm)
  · exact fun r hr => (h.run r hr).mono hnames fun a ha => List.mem_append_right _ ha

/-- Marks are sound where each names a job of its system. -/
theorem markSound_upsert {row p : PendingSystem} {merge : PendingSystem → PendingSystem}
    {pending : List PendingSystem} (hrow : w.MarkSound row)
    (hpending : ∀ p ∈ pending, w.MarkSound p)
    (hmerge : ∀ q, q.system = row.system → w.MarkSound q → w.MarkSound (merge q))
    (hp : p ∈ upsertPending row merge pending) : w.MarkSound p := by
  rcases SyncState.mem_upsertPending hp with rfl | hold | ⟨q, hq, hsystem, rfl⟩
  · exact hrow
  · exact hpending p hold
  · exact hmerge q hsystem (hpending q hq)

theorem markSound_mark {row p : PendingSystem} {pending : List PendingSystem}
    (hrow : w.MarkSound row) (hpending : ∀ p ∈ pending, w.MarkSound p)
    (hp : p ∈ markPending row pending) : w.MarkSound p := by
  refine markSound_upsert hrow hpending ?_ hp
  intro q hsystem _ id hid
  change w.Names q.system id
  rw [hsystem]
  exact hrow id hid

theorem markSound_remark {row p : PendingSystem} {pending : List PendingSystem}
    (hrow : w.MarkSound row) (hpending : ∀ p ∈ pending, w.MarkSound p)
    (hp : p ∈ remarkPending row pending) : w.MarkSound p := by
  refine markSound_upsert hrow hpending ?_ hp
  intro q hsystem hq id hid
  change w.Names q.system id
  rcases Option.or_eq_some_iff.mp hid with hid | ⟨_, hid⟩
  · exact hq id hid
  · rw [hsystem]
    exact hrow id hid

/-- The marks and the run are beside the record. -/
theorem Records.beside (h : w.Records) (hqueue : w'.queue = w.queue) (hnow : w'.now = w.now)
    (haccepted : w'.accepted = w.accepted) : w'.Records := by
  cases w
  cases w'
  subst hqueue hnow haccepted
  exact ⟨h.queue, h.rowIds, h.past, h.done, h.ids, h.jobs, h.order, h.stored, h.noted⟩

theorem Sound.go (h : w.Sound sha256) (hr : RunSound sha256 w r) :
    Sound sha256 { w with run := some r } where
  records := h.records.beside rfl rfl rfl
  pending := h.pending
  marking := h.marking
  run r' hr' := by
    obtain rfl : r = r' := Option.some.inj hr'
    exact RunSound.mono (w := w) (fun _ _ h => h) (fun _ h => h) hr

theorem Sound.over (h : w.Sound sha256) : Sound sha256 { w with run := none } where
  records := h.records.beside rfl rfl rfl
  pending := h.pending
  marking := h.marking
  run _ hr := nomatch hr

/-- Two acceptances under one id are one. -/
theorem Records.eq_of_id (h : w.Records) {a b : AcceptedSnapshot} (ha : a ∈ w.accepted)
    (hb : b ∈ w.accepted) (hid : a.snapshotId = b.snapshotId) : a = b :=
  List.inj_on_of_nodup_map h.ids ha hb hid

/-- The newest acceptance of a system, if it is still stored, is the most recent stored one. -/
theorem Records.mostRecent (h : w.Records) {a : AcceptedSnapshot} {system : Text}
    (ha : a ∈ w.queue.db.rest.snapshots)
    (hlast : w.accepted.find? (fun a => decide (a.system = system)) = some a) :
    MostRecent system w.queue.db.rest.snapshots a := by
  obtain ⟨hsystem, newer, older, hsplit, hnewer⟩ := List.find?_eq_some_iff_append.mp hlast
  refine ⟨ha, of_decide_eq_true hsystem, ?_⟩
  intro b hb hb_system
  have hmem := h.stored b hb
  have horder := h.order
  rw [hsplit] at hmem horder
  rcases List.mem_append.mp hmem with hnew | hold
  · have hnot := hnewer b hnew
    simp [hb_system] at hnot
  rcases List.mem_cons.mp hold with rfl | hold
  · exact le_rfl
  · obtain ⟨_, htail, _⟩ := List.pairwise_append.mp horder
    exact (List.pairwise_cons.mp htail).1 b hold

/-- What the run reads for a mark is current, if the mark's job was the last to deliver. -/
theorem Records.current_acquired (h : w.Records) {p : PendingSystem} {s : AcquiredSystem}
    (hdelivered : w.Delivered p s.snapshotId) (hsystem : s.system = p.system)
    (hbody : getSnapshotBody s.snapshotId w.queue.db.rest.snapshots = some s.body)
    (horder : (∃ a ∈ w.queue.db.rest.snapshots, a.snapshotId = s.snapshotId) →
      w.lastDeliverer p.system = p.jobId) :
    Look.Current sha256 r ⟨p.system, w.queue.db.rest.snapshots, some s⟩ := by
  obtain ⟨a, ha, hid, hbody⟩ := getSnapshotBody_eq_some hbody
  obtain ⟨b, hb, hb_id, _, hjob⟩ := hdelivered
  have hlast := horder ⟨a, ha, hid⟩
  rw [hjob] at hlast
  obtain ⟨last, hfind, hlast_job⟩ := Option.map_eq_some_iff.mp hlast
  have hmem := List.mem_of_find?_eq_some hfind
  obtain rfl : last = b := List.inj_on_of_nodup_map h.jobs hmem hb hlast_job
  obtain rfl : a = last := h.eq_of_id (h.stored a ha) hb (hid.trans hb_id.symm)
  exact fun _ => ⟨a, h.mostRecent ha hfind, hsystem, hid.symm, hbody.symm⟩

theorem RunSound.look (h : RunSound sha256 w r) {look : Look}
    (hstated : ∀ s ∈ look.stated, s.system = look.system) (hcurrent : look.Current sha256 r)
    {stage : Stage} (hstage : w.StageSound { r with looks := r.looks ++ [look], stage }) :
    RunSound sha256 w { r with looks := r.looks ++ [look], stage } where
  marks := h.marks
  stated look' hlook := by
    rcases List.mem_append.mp hlook with hold | hnew
    · exact h.stated look' hold
    · obtain rfl := List.mem_singleton.mp hnew
      exact hstated
  current look' hlook := by
    rcases List.mem_append.mp hlook with hold | hnew
    · exact h.current look' hold
    · obtain rfl := List.mem_singleton.mp hnew
      exact hcurrent
  stage := hstage

theorem Looked.mono {r' : Run} (hlooks : ∀ look ∈ r.looks, look ∈ r'.looks) {system : Text}
    (h : Looked r system) : Looked r' system := by
  obtain ⟨look, hlook, hsystem⟩ := h
  exact ⟨look, hlooks look hlook, hsystem⟩

theorem looked_of_included (h : RunSound sha256 w r) {s : AcquiredSystem} (hs : s ∈ r.included) :
    Looked r s.system := by
  obtain ⟨look, hlook, hstated⟩ := List.mem_filterMap.mp hs
  exact ⟨look, hlook, (h.stated look hlook s hstated).symm⟩

/-- The run's next statement, in order. -/
theorem Sound.turn (h : w.Sound sha256) (hrun : w.run = some r) {clock : Nat}
    (horder : w.InOrder (.turn clock)) : (w.turn sha256 clock r).Sound sha256 := by
  have hr := h.run r hrun
  have hstage := hr.stage
  unfold InOrder at horder
  rw [hrun] at horder
  unfold StageSound at hstage
  unfold Estate.turn
  cases hcase : r.stage with
  | clone =>
      simp only [hcase] at hstage ⊢
      refine h.go ⟨hr.marks, ?_, ?_, hr.marks, ?_⟩
      · exact hr.stated
      · rw [hstage]
        exact fun look hlook => nomatch hlook
      · exact fun _ _ _ _ hawaiting => nomatch hawaiting
  | acquire todo awaiting =>
      simp only [hcase, Option.map_some] at hstage horder
      obtain ⟨hmarks, hdelivered⟩ := hstage
      cases todo with
      | nil =>
          simp only
          split
          · exact h.over
          · exact h.go ⟨hr.marks, hr.stated, hr.current, trivial⟩
      | cons p todo =>
          have hrest : ∀ q ∈ todo, w.MarkSound q := fun q hq => hmarks q (List.mem_cons_of_mem _ hq)
          simp only
          cases hturn : p.turn r.budgetS (r.startedAt + secs r.budgetS) w.queue.db clock awaiting with
          | exclude reason =>
              refine h.go ⟨hr.marks, hr.stated, hr.current, hrest, ?_⟩
              exact fun _ _ _ _ hawaiting => nomatch hawaiting
          | acquire s =>
              obtain ⟨hsystem, rfl, hbody⟩ := Acquisition.turn_acquire hturn
              refine h.go (hr.look ?_ ?_ ⟨hrest, fun _ _ _ _ hawaiting => nomatch hawaiting⟩)
              · rintro _ ⟨⟩
                exact hsystem
              · exact h.records.current_acquired (hdelivered p todo s.snapshotId rfl rfl) hsystem hbody
                  horder
          | await next =>
              refine h.go ⟨hr.marks, hr.stated, hr.current, hmarks, ?_⟩
              rintro _ _ snapshotId ⟨⟩ rfl
              obtain ⟨jobId, job, hjob, hget, _, hsnapshot⟩ := Acquisition.turn_snapshot hturn
              obtain ⟨hjob, _⟩ := Option.filter_eq_some_iff.mp hjob
              obtain ⟨hmem, hid⟩ := mem_of_getJob hget
              obtain ⟨a, ha, ha_id, ha_job, ha_system⟩ := h.records.noted job hmem snapshotId hsnapshot
              have hsystem := (hmarks p List.mem_cons_self jobId hjob).2 job hmem hid
              refine ⟨a, ha, ha_id, ha_system.trans hsystem, ?_⟩
              rw [hjob, ha_job, hid]
  | configured =>
      exact h.go ⟨hr.marks, hr.stated, hr.current, fun system hsystem => Or.inl hsystem⟩
  | restate todo =>
      simp only [hcase] at hstage
      cases todo with
      | nil =>
          refine h.go ⟨hr.marks, hr.stated, hr.current, ?_⟩
          exact fun system hsystem => (hstage system hsystem).resolve_left List.not_mem_nil
      | cons system todo =>
          simp only
          have hnext : ∀ look : Look, look.system = system →
              w.StageSound { r with looks := r.looks ++ [look], stage := .restate todo } := by
            intro look hlook s hs
            rcases hstage s hs with hmem | hlooked
            · rcases List.mem_cons.mp hmem with rfl | hmem
              · exact Or.inr ⟨look, List.mem_append_right _ (List.mem_singleton_self _), hlook⟩
              · exact Or.inl hmem
            · exact Or.inr (hlooked.mono fun look' hlook' => List.mem_append_left _ hlook')
          split
          · rename_i hany
            obtain ⟨s, hs, hs_system⟩ := List.any_eq_true.mp hany
            have hlooked := looked_of_included hr hs
            rw [of_decide_eq_true hs_system] at hlooked
            refine h.go ⟨hr.marks, hr.stated, hr.current, ?_⟩
            intro s' hs'
            rcases hstage s' hs' with hmem | hlooked'
            · rcases List.mem_cons.mp hmem with rfl | hmem
              · exact Or.inr hlooked
              · exact Or.inl hmem
            · exact Or.inr hlooked'
          · cases hlatest : latestSnapshot system w.queue.db.rest.snapshots with
            | none =>
                refine h.go (hr.look ?_ ?_ (hnext _ rfl))
                · exact fun _ hs => nomatch hs
                · rintro ⟨a, ha, hsystem⟩
                  exact absurd hsystem (latestSnapshot_eq_none hlatest a ha)
            | some latest =>
                have hmost := mostRecent_latestSnapshot hlatest
                simp only
                split
                · rename_i hreflects
                  refine h.go (hr.look ?_ ?_ (hnext _ rfl))
                  · exact fun _ hs => nomatch hs
                  · exact fun _ => ⟨latest, hmost, hreflects⟩
                · refine h.go ⟨hr.marks, hr.stated, hr.current,
                    h.records.stored latest hmost.mem, hmost, ?_⟩
                  intro s hs
                  rcases hstage s hs with hmem | hlooked
                  · rcases List.mem_cons.mp hmem with rfl | hmem
                    · exact Or.inl rfl
                    · exact Or.inr (Or.inl hmem)
                  · exact Or.inr (Or.inr hlooked)
  | body system latest seen todo =>
      simp only [hcase, Option.map_some] at hstage horder
      obtain ⟨hlatest, hmost, hlooked⟩ := hstage
      obtain ⟨a, ha, hid⟩ := horder
      obtain ⟨body, hbody⟩ := exists_getSnapshotBody ha hid
      obtain ⟨b, hb, hb_id, rfl⟩ := getSnapshotBody_eq_some hbody
      obtain rfl : b = latest := h.records.eq_of_id (h.records.stored b hb) hlatest hb_id
      simp only [hbody, Option.map_some]
      refine h.go (hr.look ?_ ?_ ?_)
      · rintro _ ⟨⟩
        rfl
      · exact fun _ => ⟨b, hmost, rfl, rfl, rfl⟩
      · intro s hs
        rcases hlooked s hs with rfl | hmem | hlooked
        · exact Or.inr ⟨_, List.mem_append_right _ (List.mem_singleton_self _), rfl⟩
        · exact Or.inl hmem
        · exact Or.inr (hlooked.mono fun look hlook => List.mem_append_left _ hlook)
  | acquired => exact h
  | remark todo =>
      simp only [hcase] at hstage
      cases todo with
      | nil => exact h.over
      | cons p todo =>
          have hnext : RunSound sha256 w { r with stage := .remark todo } :=
            ⟨hr.marks, hr.stated, hr.current, fun q hq => hstage q (List.mem_cons_of_mem _ hq)⟩
          refine ⟨h.records.beside rfl rfl rfl, ?_, h.marking, ?_⟩
          · exact fun q hq => markSound_remark (w := w) (hstage p List.mem_cons_self) h.pending hq
          · intro r' hr'
            obtain rfl := Option.some.inj hr'
            exact RunSound.mono (w := w) (fun _ _ h => h) (fun _ h => h) hnext

end

/-- **Every event keeps the invariant**, as long as the run's statements come in order. -/
theorem Sound.apply (h : w.Sound sha256) {e : EstateEvent} (hmay : w.May e) (horder : w.InOrder e) :
    (w.apply L cfg sha256 e).Sound sha256 := by
  cases e with
  | call c =>
      obtain ⟨hdraws, hnow⟩ := hmay c rfl
      exact h.call hdraws hnow
  | trigger system kind detail jobId clock now =>
      obtain ⟨hdraws, hnow⟩ := hmay _ rfl
      have hcall : (w.call L cfg _).Sound sha256 := h.call hdraws hnow
      unfold Estate.apply
      simp only
      cases hid : (Call.enqueue (system.request (js "snapshot") kind detail) jobId clock
          now).enqueuedId L cfg w.queue.db with
      | none => exact hcall
      | some id =>
          refine ⟨hcall.records.beside rfl rfl rfl, hcall.pending, ?_, ?_⟩
          · intro m hm
            rcases List.mem_append.mp hm with hm | hm
            · exact hcall.marking m hm
            · obtain rfl := List.mem_singleton.mp hm
              exact names_enqueued h.records hdraws hnow rfl hid
          · exact fun r hr => RunSound.mono (w := w.call L cfg _) (fun _ _ h => h) (fun _ h => h)
              (hcall.run r hr)
  | mark i clock =>
      unfold Estate.apply
      simp only
      cases hm : w.marking[i]? with
      | none => exact h
      | some m =>
          have hname := h.marking m (List.mem_of_getElem? hm)
          refine ⟨h.records.beside rfl rfl rfl, ?_, ?_, ?_⟩
          · intro p hp
            refine markSound_mark (w := w) ?_ h.pending hp
            rintro _ ⟨⟩
            exact hname
          · exact fun m' hm' => h.marking m' (List.mem_of_mem_eraseIdx hm')
          · exact fun r hr => RunSound.mono (w := w) (fun _ _ h => h) (fun _ h => h) (h.run r hr)
  | register systems =>
      exact ⟨h.records.beside rfl rfl rfl, h.pending, h.marking,
        fun r hr => RunSound.mono (w := w) (fun _ _ h => h) (fun _ h => h) (h.run r hr)⟩
  | merge head =>
      exact ⟨h.records.beside rfl rfl rfl, h.pending, h.marking,
        fun r hr => RunSound.mono (w := w) (fun _ _ h => h) (fun _ h => h) (h.run r hr)⟩
  | executeRun startedAt budgetS =>
      unfold Estate.apply
      cases hrun : w.run with
      | some r => exact h
      | none =>
          have hmarks : ∀ p ∈ w.pending.insertionSort bySystem, w.MarkSound p := fun p hp =>
            h.pending p ((List.mem_insertionSort bySystem).mp hp)
          have hnew : RunSound sha256 w ⟨w.pending.insertionSort bySystem, startedAt, budgetS,
              fun _ => none, [], [], [], .clone⟩ :=
            ⟨hmarks, fun _ hlook => (nomatch hlook), fun _ hlook => (nomatch hlook), rfl⟩
          refine ⟨h.records.beside rfl rfl rfl, fun _ hp => (nomatch hp), h.marking, ?_⟩
          intro r hr
          obtain rfl := Option.some.inj hr
          exact RunSound.mono (w := w) (fun _ _ h => h) (fun _ h => h) hnew
  | turn clock =>
      unfold Estate.apply
      cases hrun : w.run with
      | none => exact h
      | some r => exact h.turn hrun horder
  | headMoved =>
      unfold Estate.apply
      cases hrun : w.run with
      | none => exact h
      | some r =>
          have hr := h.run r hrun
          simp only
          split
          · exact h.go ⟨hr.marks, hr.stated, hr.current, hr.marks⟩
          · exact h
  | finish => exact h.over

theorem Reachable.sound (h : w.Reachable L cfg sha256 InOrder) : w.Sound sha256 := by
  induction h with
  | start =>
      exact ⟨records_start, fun _ h => (nomatch h), fun _ h => (nomatch h), fun _ h => (nomatch h)⟩
  | event e _ hmay horder ih => exact ih.apply hmay horder

end Estate

/-- **A run states the latest picture.** However deliveries, triggers, re-runs, merges and the runs'
own statements interleave, if no statement comes too late, a run at the end of its acquisition has
looked at every registered system, and goes on with the most recent of what was accepted for it then
unless HEAD pins that. -/
theorem states_latest {w : Estate} (h : w.Reachable L cfg sha256 Estate.InOrder) {r : Run}
    (hrun : w.run = some r) (hstage : r.stage = .acquired) : r.StatesLatest sha256 := by
  have hr := h.sound.run r hrun
  refine ⟨hr.current, ?_⟩
  have hlooked := hr.stage
  unfold Estate.StageSound at hlooked
  rw [hstage] at hlooked
  exact hlooked

/-! ### A run overtaken -/

namespace Estate

instance (w : Estate) (e : EstateEvent) : Decidable (w.May e) := by
  unfold May
  infer_instance

instance (w : Estate) (e : EstateEvent) : Decidable (w.InOrder e) := by
  unfold InOrder
  split
  · split <;> infer_instance
  · infer_instance

section

variable (L cfg sha256) (Allowed : Estate → EstateEvent → Prop) [DecidableRel Allowed]

/-- The events in a row, as long as each may follow. -/
def events (es : List EstateEvent) : Estate :=
  es.foldl (fun w e => if w.May e ∧ Allowed w e then w.apply L cfg sha256 e else w) .start

theorem reachable_events (es : List EstateEvent) :
    (events L cfg sha256 Allowed es).Reachable L cfg sha256 Allowed := by
  unfold events
  induction es using List.reverseRecOn with
  | nil => exact .start
  | append_singleton es e ih =>
      rw [List.foldl_append, List.foldl_cons, List.foldl_nil]
      split
      · rename_i hnext
        exact .event e ih hnext.1 hnext.2
      · exact ih

end

end Estate

def crmVerdict : SnapshotVerdict where
  snapshotVersion := js "1"
  sourceMode := js "live"
  capturedAt := js "2026-01-01T00:00:00Z"
  connectorName := js "supabase"
  connectorVersion := js "1.0.0"
  objectCount := 1
  sha256 := js "d1"
  canonicalBodySha256 := js "d2"

def crmTriggered (jobId : String) (now : Nat) : List EstateEvent :=
  [.trigger crm (js "webhook") none (js jobId) now now, .mark 0 now]

def crmDelivered (jobId token snapshotId : String) (body : List UInt8) (now : Nat) :
    List EstateEvent :=
  [.call (.claimOnce snapshotRunner now (js token) fun _ => false),
    .call (.transact (.succeedSnapshot (js jobId) (js token) crmVerdict body (js snapshotId) now))]

/-- A run that pinned one job's mark, and reads its snapshot to the end of the acquisition. -/
def crmAcquired : List EstateEvent :=
  [.turn 100, .turn 100, .turn 100, .turn 100, .turn 100, .turn 100]

/-- One delivery, and a run. -/
def oneDelivery : List EstateEvent :=
  .register [js "crm"] :: crmTriggered "J1" 1 ++ [.executeRun 2 7200, .turn 2] ++
    crmDelivered "J1" "T1" "S1" [0x31] 3 ++ crmAcquired

/-- A second job delivers before the run looks at the first one's delivery. -/
def twoDeliveries : List EstateEvent :=
  .register [js "crm"] :: crmTriggered "J1" 1 ++ [.executeRun 2 7200, .turn 2] ++
    crmDelivered "J1" "T1" "S1" [0x31] 3 ++ crmTriggered "J2" 4 ++
    crmDelivered "J2" "T2" "S2" [0x32] 5 ++ crmAcquired

/-- Stage 2 is over, with these snapshots. -/
def Run.acquired (r : Run) (snapshotIds : List Text) : Bool :=
  match r.stage with
  | .acquired => decide (r.included.map AcquiredSystem.snapshotId = snapshotIds)
  | _ => false

theorem Run.stage_of_acquired {r : Run} {snapshotIds : List Text} (h : r.acquired snapshotIds = true) :
    r.stage = .acquired ∧ r.included.map AcquiredSystem.snapshotId = snapshotIds := by
  unfold Run.acquired at h
  split at h
  · rename_i hstage
    exact ⟨hstage, of_decide_eq_true h⟩
  · cases h

theorem states_latest_oneDelivery :
    ∃ r, (Estate.events plainPackages defaultConfig (fun _ => []) Estate.InOrder oneDelivery).run =
        some r ∧ r.included.map AcquiredSystem.snapshotId = [js "S1"] ∧
      r.StatesLatest fun _ => [] := by
  have hacquired : (Estate.events plainPackages defaultConfig (fun _ => []) Estate.InOrder
      oneDelivery).run.any (Run.acquired · [js "S1"]) = true := by
    decide
  obtain ⟨r, hrun, hr⟩ := (Option.any_eq_true _ _).mp hacquired
  obtain ⟨hstage, hids⟩ := Run.stage_of_acquired hr
  exact ⟨r, hrun, hids, states_latest (Estate.reachable_events _ _ _ _ _) hrun hstage⟩

/-- Something newer than what is stated was there to be seen. -/
def Look.Overtaken (look : Look) : Prop :=
  ∃ s ∈ look.stated, ∃ b ∈ look.seen, b.system = look.system ∧
    ∀ a ∈ look.seen, a.snapshotId = s.snapshotId → a.acceptedAt < b.acceptedAt

instance (look : Look) : Decidable look.Overtaken := by
  unfold Look.Overtaken
  infer_instance

theorem Look.Overtaken.not_current {look : Look} (h : look.Overtaken) {r : Run} :
    ¬ look.Current sha256 r := by
  obtain ⟨s, hs, b, hb, hsystem, holder⟩ := h
  intro hcurrent
  obtain ⟨a, hmost, hstated⟩ := hcurrent ⟨b, hb, hsystem⟩
  rw [Option.mem_def.mp hs] at hstated
  obtain ⟨_, hid, _⟩ := hstated
  exact absurd (hmost.latest b hb hsystem) (not_le.mpr (holder a hmost.mem hid.symm))

/-- The run states the first snapshot, although the second was accepted before it looked. -/
theorem states_latest_not_twoDeliveries :
    ¬ ∀ (L : Packages) (cfg : CoreConfig) (sha256 : List UInt8 → Text) (w : Estate),
      w.Reachable L cfg sha256 (fun _ _ => True) → ∀ r, w.run = some r → r.stage = .acquired →
        r.StatesLatest sha256 := by
  intro hstates
  have hrun : (Estate.events plainPackages defaultConfig (fun _ => []) (fun _ _ => True)
      twoDeliveries).run.any (fun r => r.acquired [js "S1"] && r.looks.any fun look =>
        decide look.Overtaken) = true := by
    decide
  obtain ⟨r, hrun, hr⟩ := (Option.any_eq_true _ _).mp hrun
  obtain ⟨hacquired, hlooks⟩ := Bool.and_eq_true_iff.mp hr
  obtain ⟨look, hlook, hovertaken⟩ := List.any_eq_true.mp hlooks
  have hlatest := hstates plainPackages defaultConfig (fun _ => []) _
    (Estate.reachable_events _ _ _ (fun _ _ => True) twoDeliveries) r hrun
    (Run.stage_of_acquired hacquired).1
  exact (of_decide_eq_true hovertaken).not_current (hlatest.current look hlook)

end ContextLayer
