import ContextLayer.Proof.QueueRuns
import ContextLayer.Sync

/-!
# Where job ids lead

An id that `enqueue` has returned may be in its caller's hands, in a pending mark, or in the pointer
of a dead job. It is the id of a job, unless its job was queued behind a failing one and was
absorbed: then the job that absorbed it holds its triggers, marked with the id.
-/

namespace ContextLayer

open Text Transaction Prog

variable {L : Packages} {cfg : CoreConfig}

/-- The ids `enqueue` has returned. -/
def QueueState.returnedIds (s : QueueState) : List Text := s.accepted.map Prod.fst

/-! ### Pointing at a replacement -/

theorem pointAt_cases (deadId jobId : Text) (db : Database) :
    (pointAt deadId jobId db).table.bag = db.table.bag ∨
      ∃ row rest, row.jobId = deadId ∧ db.table.bag = row ::ₘ rest ∧
        (pointAt deadId jobId db).table.bag = (setReenqueuedAs jobId).apply row ::ₘ rest := by
  unfold pointAt
  cases hupdate : db.table.update deadId (setReenqueuedAs jobId) with
  | none => exact Or.inl rfl
  | some table =>
      by_cases hrow : ∃ row ∈ db.table.rows, row.jobId = deadId
      · obtain ⟨row, hrow, rfl⟩ := hrow
        obtain ⟨rest, hbag⟩ := exists_bag hrow
        exact Or.inr ⟨row, rest, rfl, hbag, Table.bag_update hupdate hbag⟩
      · left
        have hrows : table.rows = db.table.rows := by
          rw [Table.update_eq_some.mp hupdate, updateRows]
          conv_rhs => rw [← List.map_id db.table.rows]
          apply List.map_congr_left
          intro row hmem
          exact if_neg fun hid => hrow ⟨row, hmem, hid⟩
        exact congrArg (fun rows : List JobRow => (rows : Multiset JobRow)) hrows

/-- Pointing a job at its replacement changes nothing a run relies on. -/
theorem QueueState.Sound.pointAt {s : QueueState} (h : s.Sound) (deadId jobId : Text) :
    ({ s with db := ContextLayer.pointAt deadId jobId s.db } : QueueState).Sound := by
  have hjobs : s.jobs = s.db.table.bag := rfl
  rcases pointAt_cases deadId jobId s.db with hsame | ⟨row, rest, -, hbag, hpoint⟩
  · have heq : ({ s with db := ContextLayer.pointAt deadId jobId s.db } : QueueState).jobs = s.jobs :=
      hsame
    obtain ⟨hE, hM, hdrawn, hrecords, haccounted⟩ := h
    exact ⟨heq ▸ hE, heq ▸ hM, heq ▸ hdrawn, heq ▸ hrecords, heq ▸ haccounted⟩
  · have hold : s.jobs = row ::ₘ rest := hbag
    have heq : ({ s with db := ContextLayer.pointAt deadId jobId s.db } : QueueState).jobs =
      (setReenqueuedAs jobId).apply row ::ₘ rest := hpoint
    have hrowSame : SameJob row ((setReenqueuedAs jobId).apply row) := ⟨rfl, rfl, rfl⟩
    have hstep : RowStep [] rest row ((setReenqueuedAs jobId).apply row) := .annotate rfl rfl rfl
    obtain ⟨hE, hM, hdrawn, hrecords, haccounted⟩ := h
    rw [hold] at hE hM hdrawn hrecords haccounted
    refine ⟨?_, ?_, ?_, ?_, ?_⟩ <;> rw [heq]
    · exact hE.change hrowSame hstep
    · exact hM.change hE hrowSame rfl hstep
    · intro r hr
      rcases Multiset.mem_cons.mp hr with rfl | hr
      · exact hdrawn row (Multiset.mem_cons_self row rest)
      · exact hdrawn r (Multiset.mem_cons_of_mem hr)
    · rw [ContextLayer.records, Multiset.cons_bind, hstep.records rfl, ← Multiset.cons_bind]
      exact hrecords
    · intro a ha
      obtain ⟨r, hr, hid⟩ := haccounted a ha
      rcases Multiset.mem_cons.mp hr with rfl | hr
      · exact ⟨_, Multiset.mem_cons_self _ _, hid⟩
      · exact ⟨r, Multiset.mem_cons_of_mem hr, hid⟩

theorem reenqueuedAs_pointAt {deadId jobId id : Text} {db : Database} {r : JobRow}
    (hr : r ∈ (pointAt deadId jobId db).table.bag) (hpointer : r.reenqueuedAs = some id) :
    id = jobId ∨ ∃ r₀ ∈ db.table.bag, r₀.reenqueuedAs = some id := by
  rcases pointAt_cases deadId jobId db with hsame | ⟨row, rest, -, hbag, hpoint⟩
  · exact Or.inr ⟨r, hsame ▸ hr, hpointer⟩
  · rw [hpoint] at hr
    rcases Multiset.mem_cons.mp hr with rfl | hr
    · exact Or.inl (Option.some.inj hpointer).symm
    · refine Or.inr ⟨r, ?_, hpointer⟩
      rw [hbag]
      exact Multiset.mem_cons_of_mem hr

/-! ### Rows by their id -/

theorem mem_of_getJob {jobId : Text} {rows : List JobRow} {job : JobRow}
    (h : getJob jobId rows = some job) : job ∈ rows ∧ job.jobId = jobId := by
  unfold getJob at h
  have hid := List.find?_some h
  exact ⟨List.mem_of_find?_eq_some h, of_decide_eq_true hid⟩

theorem getJob_of_mem {rows : List JobRow} {job : JobRow} (h : job ∈ rows) :
    getJob job.jobId rows ≠ none := by
  intro hnone
  have hnot := List.find?_eq_none.mp hnone job h
  exact hnot (decide_eq_true rfl)

/-! ### What an enqueue returns -/

theorem enqueuedId_mem {s : QueueState} {c : Call} {id : Text}
    (h : c.enqueuedId L cfg s.db = some id) : id ∈ (s.perform L cfg c).returnedIds := by
  cases c with
  | claimOnce args now token locked => cases h
  | transact call => cases h
  | enqueue req jobId clock now =>
      unfold Call.enqueuedId at h
      rcases enqueue_cases L cfg req jobId clock now s.db with
        hnone | ⟨problems, hinvalid⟩ | ⟨v, result, t', hvalid, _, henqueued⟩
      · simp only [hnone, reduceCtorEq] at h
      · simp only [hinvalid, reduceCtorEq] at h
      · simp only [henqueued, Option.some.injEq] at h
        have hexec : (Call.enqueue req jobId clock now).exec L cfg s.db =
            some (.enqueue (.enqueued result), { s.db with table := t' }) := by
          rw [exec_enqueue, henqueued]
          rfl
        rw [QueueState.perform_of_some hexec]
        simp [QueueState.returnedIds, Call.accepted, hvalid, h]

theorem returnedIds_perform {s : QueueState} (c : Call) {id : Text} (h : id ∈ s.returnedIds) :
    id ∈ (s.perform L cfg c).returnedIds := by
  unfold QueueState.returnedIds QueueState.perform at *
  split
  · exact h
  · rw [List.map_append]
    exact List.mem_append_left _ h

/-! ### The invariant -/

/-- Every id that is held somewhere was returned by an enqueue, and a system is pending once. -/
structure SyncState.Sound (s : SyncState) : Prop where
  queue : s.queue.Sound
  systems : (s.pending.map PendingSystem.system).Nodup
  pending : ∀ p ∈ s.pending, ∀ id, p.jobId = some id → id ∈ s.queue.returnedIds
  pinned : ∀ p ∈ s.pinned, ∀ id, p.jobId = some id → id ∈ s.queue.returnedIds
  marking : ∀ m ∈ s.marking, m.jobId ∈ s.queue.returnedIds
  replacing : ∀ r ∈ s.replacing, r.jobId ∈ s.queue.returnedIds
  pointers : ∀ r ∈ s.queue.jobs, ∀ id, r.reenqueuedAs = some id → id ∈ s.queue.returnedIds

namespace SyncState

theorem sound_start : Sound .start where
  queue := QueueState.sound_start
  systems := List.nodup_nil
  pending _ hp := absurd hp List.not_mem_nil
  pinned _ hp := absurd hp List.not_mem_nil
  marking _ hm := absurd hm List.not_mem_nil
  replacing _ hr := absurd hr List.not_mem_nil
  pointers _ hr := absurd hr (Multiset.notMem_zero _)

variable (L cfg) in
/-- The queue part of an event is a run of the rules. -/
theorem Sound.performed_run {s : SyncState} (h : s.Sound) {e : SyncEvent} (hdraws : s.Draws e) :
    ∃ ulids accepted, JobRun ulids accepted s.queue.jobs (s.performed L cfg e).jobs := by
  unfold SyncState.performed
  cases hcall : s.callOf e with
  | none => exact ⟨[], 0, .refl _⟩
  | some c =>
      have hfresh : ∀ r ∈ s.queue.db.table.rows, ∀ u ∈ c.ulids, r.leaseToken ≠ some u :=
        fun r hr u hu htoken =>
          hdraws c hcall u hu (h.queue.drawn r (Table.mem_bag.mpr hr) u htoken)
      obtain ⟨_, _, hrun, _⟩ := s.queue.perform_run L cfg c hfresh
      exact ⟨_, _, hrun⟩

variable (L cfg) in
theorem Sound.performed {s : SyncState} (h : s.Sound) {e : SyncEvent} (hdraws : s.Draws e) :
    ({ s with queue := s.performed L cfg e } : SyncState).Sound ∧
      ∀ id, s.returned L cfg e = some id → id ∈ (s.performed L cfg e).returnedIds := by
  obtain ⟨_, _, hrun⟩ := h.performed_run L cfg hdraws
  have hqueue : (s.performed L cfg e).Sound := by
    unfold SyncState.performed
    cases hcall : s.callOf e with
    | none => exact h.queue
    | some c => exact h.queue.perform L cfg (hdraws c hcall)
  have hkept : ∀ id, id ∈ s.queue.returnedIds → id ∈ (s.performed L cfg e).returnedIds := by
    intro id hid
    unfold SyncState.performed
    cases hcall : s.callOf e with
    | none => exact hid
    | some c => exact returnedIds_perform c hid
  refine ⟨⟨hqueue, h.systems, ?_, ?_, ?_, ?_, ?_⟩, ?_⟩
  · exact fun p hp id hid => hkept id (h.pending p hp id hid)
  · exact fun p hp id hid => hkept id (h.pinned p hp id hid)
  · exact fun m hm => hkept _ (h.marking m hm)
  · exact fun r hr => hkept _ (h.replacing r hr)
  · intro r hr id hpointer
    obtain ⟨r₀, hr₀, hpointer₀⟩ := hrun.pointer hr hpointer
    exact hkept id (h.pointers r₀ hr₀ id hpointer₀)
  · intro id hid
    unfold SyncState.returned at hid
    obtain ⟨c, hcall, hid⟩ := Option.bind_eq_some_iff.mp hid
    simp only [SyncState.performed, hcall]
    exact enqueuedId_mem hid

/-- A system is upserted where it is, or behind the others. -/
theorem nodup_upsertPending {row : PendingSystem} {merge : PendingSystem → PendingSystem}
    (hmerge : ∀ p, (merge p).system = p.system) {pending : List PendingSystem}
    (h : (pending.map PendingSystem.system).Nodup) :
    ((upsertPending row merge pending).map PendingSystem.system).Nodup := by
  unfold upsertPending
  split
  · have hsame : (PendingSystem.system ∘ fun p : PendingSystem =>
        if p.system = row.system then merge p else p) = PendingSystem.system := by
      funext p
      by_cases hp : p.system = row.system
      · simp [hp, hmerge]
      · simp [hp]
    rwa [List.map_map, hsame]
  · rename_i hnew
    rw [List.map_append, List.nodup_append]
    refine ⟨h, List.nodup_singleton _, ?_⟩
    rintro system hsystem _ hrow rfl
    obtain rfl := List.mem_singleton.mp hrow
    obtain ⟨p, hp, hsame⟩ := List.mem_map.mp hsystem
    exact hnew (List.any_eq_true.mpr ⟨p, hp, decide_eq_true hsame⟩)

theorem mem_upsertPending {row p : PendingSystem} {merge : PendingSystem → PendingSystem}
    {pending : List PendingSystem} (h : p ∈ upsertPending row merge pending) :
    p = row ∨ p ∈ pending ∨ ∃ q ∈ pending, q.system = row.system ∧ p = merge q := by
  unfold upsertPending at h
  split at h
  · obtain ⟨q, hq, rfl⟩ := List.mem_map.mp h
    by_cases hsystem : q.system = row.system
    · exact Or.inr (Or.inr ⟨q, hq, hsystem, if_pos hsystem⟩)
    · exact Or.inr (Or.inl (by rwa [if_neg hsystem]))
  · rcases List.mem_append.mp h with h | h
    · exact Or.inr (Or.inl h)
    · exact Or.inl (List.mem_singleton.mp h)

theorem nodup_markPending {row : PendingSystem} {pending : List PendingSystem}
    (h : (pending.map PendingSystem.system).Nodup) :
    ((markPending row pending).map PendingSystem.system).Nodup := by
  unfold markPending
  apply nodup_upsertPending _ h
  exact fun _ => rfl

theorem nodup_remarkPending {row : PendingSystem} {pending : List PendingSystem}
    (h : (pending.map PendingSystem.system).Nodup) :
    ((remarkPending row pending).map PendingSystem.system).Nodup := by
  unfold remarkPending
  apply nodup_upsertPending _ h
  exact fun _ => rfl

theorem jobId_markPending {row p : PendingSystem} {pending : List PendingSystem} {id : Text}
    (h : p ∈ markPending row pending) (hid : p.jobId = some id) :
    row.jobId = some id ∨ ∃ q ∈ pending, q.jobId = some id := by
  rcases mem_upsertPending h with rfl | hold | ⟨q, _, _, rfl⟩
  · exact Or.inl hid
  · exact Or.inr ⟨p, hold, hid⟩
  · exact Or.inl hid

theorem jobId_remarkPending {row p : PendingSystem} {pending : List PendingSystem} {id : Text}
    (h : p ∈ remarkPending row pending) (hid : p.jobId = some id) :
    row.jobId = some id ∨ ∃ q ∈ pending, q.jobId = some id := by
  rcases mem_upsertPending h with rfl | hold | ⟨q, hq, _, rfl⟩
  · exact Or.inl hid
  · exact Or.inr ⟨p, hold, hid⟩
  · rcases Option.or_eq_some_iff.mp hid with hid | ⟨_, hid⟩
    · exact Or.inr ⟨q, hq, hid⟩
    · exact Or.inl hid

/-- **The invariant is kept by every event**, between any two statements of any caller. -/
theorem Sound.apply {s : SyncState} (h : s.Sound) {e : SyncEvent} (hdraws : s.Draws e) :
    (s.apply L cfg e).Sound := by
  obtain ⟨hs', hreturned⟩ := h.performed L cfg hdraws
  cases e with
  | call c => exact hs'
  | trigger system kind detail jobId clock now =>
      simp only [SyncState.apply]
      split
      · exact hs'
      · rename_i id hid
        refine { hs' with marking := ?_ }
        intro m hm
        rcases List.mem_append.mp hm with hm | hm
        · exact hs'.marking m hm
        · obtain rfl := List.mem_singleton.mp hm
          exact hreturned id hid
  | mark i clock =>
      simp only [SyncState.apply]
      split
      · exact hs'
      · rename_i m hm
        have hmem := List.mem_of_getElem? hm
        refine { hs' with
          systems := nodup_markPending h.systems, pending := ?_, marking := ?_ }
        · intro p hp id hid
          rcases jobId_markPending hp hid with hid | ⟨q, hq, hid⟩
          · obtain rfl := Option.some.inj hid
            exact hs'.marking m hmem
          · exact hs'.pending q hq id hid
        · exact fun m' hm' => hs'.marking m' (List.mem_of_mem_eraseIdx hm')
  | consume =>
      refine { hs' with
        systems := List.nodup_nil, pending := fun _ hp => absurd hp List.not_mem_nil, pinned := ?_ }
      intro p hp id hid
      rcases List.mem_append.mp hp with hp | hp
      · exact hs'.pinned p hp id hid
      · exact hs'.pending p hp id hid
  | remark i =>
      simp only [SyncState.apply]
      split
      · exact hs'
      · rename_i p hp
        have hmem := List.mem_of_getElem? hp
        refine { hs' with systems := nodup_remarkPending h.systems, pending := ?_ }
        intro p' hp' id hid
        rcases jobId_remarkPending hp' hid with hid | ⟨q, hq, hid⟩
        · exact hs'.pinned p hmem id hid
        · exact hs'.pending q hq id hid
  | check jobId =>
      simp only [SyncState.apply]
      split
      · exact hs'
      · exact { hs' with }
  | reenqueue i registration actor jobId clock now =>
      simp only [SyncState.apply]
      split
      · rename_i dead id _ hid
        refine { hs' with replacing := ?_ }
        intro r hr
        rcases List.mem_append.mp hr with hr | hr
        · exact hs'.replacing r hr
        · obtain rfl := List.mem_singleton.mp hr
          exact hreturned id hid
      · exact hs'
  | point i =>
      simp only [SyncState.apply]
      split
      · exact hs'
      · rename_i r hr
        have hmem := List.mem_of_getElem? hr
        refine { hs' with queue := h.queue.pointAt r.deadId r.jobId, replacing := ?_, pointers := ?_ }
        · exact fun r' hr' => hs'.replacing r' (List.mem_of_mem_eraseIdx hr')
        · intro r' hr' id hid
          rcases reenqueuedAs_pointAt hr' hid with rfl | ⟨r₀, hr₀, hid₀⟩
          · exact hs'.replacing r hmem
          · exact h.pointers r₀ hr₀ id hid₀

theorem Reachable.sound {s : SyncState} (h : Reachable L cfg s) : s.Sound := by
  induction h with
  | start => exact sound_start
  | event e _ hdraws ih => exact ih.apply hdraws

/-! ### Events in a row -/

end SyncState

/-- What the event draws from the ULID generator. -/
def SyncEvent.ulids : SyncEvent → List Text
  | .call c => c.ulids
  | .trigger _ _ _ jobId _ _ => [jobId]
  | .reenqueue _ _ _ jobId _ _ => [jobId]
  | _ => []

namespace SyncState

def events (L : Packages) (cfg : CoreConfig) (events : List SyncEvent) : SyncState :=
  events.foldl (fun s e => s.apply L cfg e) .start

theorem ulids_callOf {s : SyncState} {e : SyncEvent} {c : Call} (h : s.callOf e = some c) :
    c.ulids = e.ulids := by
  cases e with
  | call c' =>
      obtain rfl := Option.some.inj h
      rfl
  | trigger system kind detail jobId clock now =>
      obtain rfl := Option.some.inj h
      rfl
  | reenqueue i registration actor jobId clock now =>
      simp only [callOf, Option.bind_eq_bind, Option.bind_eq_some_iff, Option.pure_def,
        Option.some.injEq] at h
      obtain ⟨_, _, _, _, rfl⟩ := h
      rfl
  | mark | consume | remark | check | point => cases h

variable (L cfg) in
/-- An event performs its call, if it makes one, or points a job at its replacement. -/
theorem queue_apply (s : SyncState) (e : SyncEvent) :
    (s.apply L cfg e).queue = s.performed L cfg e ∨
      ∃ deadId jobId, (s.apply L cfg e).queue =
        { s.queue with db := pointAt deadId jobId s.queue.db } := by
  cases e with
  | call | consume => exact Or.inl rfl
  | trigger | mark | remark | check | reenqueue =>
      left
      simp only [SyncState.apply]
      split <;> rfl
  | point i =>
      simp only [SyncState.apply]
      split
      · exact Or.inl rfl
      · exact Or.inr ⟨_, _, rfl⟩

theorem drawn_apply (s : SyncState) (e : SyncEvent) {u : Text}
    (hu : u ∈ (s.apply L cfg e).queue.drawn) : u ∈ e.ulids ∨ u ∈ s.queue.drawn := by
  rcases queue_apply L cfg s e with hqueue | ⟨deadId, jobId, hqueue⟩
  · rw [hqueue, performed] at hu
    cases hcall : s.callOf e with
    | none =>
        rw [hcall] at hu
        exact Or.inr hu
    | some c =>
        rw [hcall] at hu
        simp only [QueueState.perform_drawn, ulids_callOf hcall] at hu
        exact List.mem_append.mp hu
  · rw [hqueue] at hu
    exact Or.inr hu

/-- Events whose ULIDs are pairwise different are an interleaving. -/
theorem reachable_events {es : List SyncEvent} (h : (es.flatMap SyncEvent.ulids).Nodup) :
    (events L cfg es).Reachable L cfg := by
  refine foldl_of_fresh (fun s => s.queue.drawn) ?_ ?_ .start h fun u _ => List.not_mem_nil
  · intro s e hs hfresh
    refine .event e hs ?_
    intro c hcall u hu
    exact hfresh u (ulids_callOf hcall ▸ hu)
  · intro s e u hu
    exact drawn_apply s e hu

end SyncState

/-! ### Resolving ids -/

/-- The ids outside the table's own key: those enqueues returned, those pending marks name, and those
jobs point at. -/
def SyncState.Escaped (s : SyncState) (id : Text) : Prop :=
  id ∈ s.queue.returnedIds ∨ (∃ p ∈ s.pending, p.jobId = some id) ∨
    ∃ r ∈ s.queue.db.table.rows, r.reenqueuedAs = some id

theorem SyncState.Sound.returned_of_escaped {s : SyncState} (h : s.Sound) {id : Text}
    (hid : s.Escaped id) : id ∈ s.queue.returnedIds := by
  rcases hid with hid | ⟨p, hp, hid⟩ | ⟨r, hr, hid⟩
  · exact hid
  · exact h.pending p hp id hid
  · exact h.pointers r (Table.mem_bag.mpr hr) id hid

def crm : SyncSystem := ⟨js "crm", js "supabase", js "*", .obj []⟩

/-- Two triggers, the second while the first one's job is running; then that job fails. -/
def triggeredTwice : List SyncEvent :=
  [.trigger crm (js "schedule") none (js "J1") 0 0, .mark 0 0,
    .call (.claimOnce snapshotRunner 1 (js "T1") fun _ => false),
    .trigger crm (js "webhook") none (js "J2") 2 2, .mark 0 2,
    .call (.transact (.failJob (js "J1") (js "T1") timeout 3 1000))]

/-- A job queued behind a failing one is absorbed, and its row deleted while the system is still
pending under its id. -/
theorem not_resolvable_absorbed :
    ¬ ∀ (L : Packages) (cfg : CoreConfig) (s : SyncState), s.Reachable L cfg →
      ∀ id, s.Escaped id → ∃ r ∈ s.queue.db.table.rows, r.jobId = id := by
  intro hresolvable
  have hescaped : (SyncState.events plainPackages defaultConfig triggeredTwice).Escaped (js "J2") :=
    Or.inl (by decide)
  obtain ⟨r, hr, hid⟩ := hresolvable plainPackages defaultConfig _
    (SyncState.reachable_events (by decide)) _ hescaped
  have hrows : (SyncState.events plainPackages defaultConfig
      triggeredTwice).queue.db.table.rows.map JobRow.jobId = [js "J1"] := by decide
  have hmem := List.mem_map_of_mem (f := JobRow.jobId) hr
  rw [hrows, hid] at hmem
  exact absurd hmem (by decide)

/-- **Ids lead to a job.** Whatever the queue, the triggers and the re-enqueues do in whatever order,
an id that has been handed out is the id of a job, or of one that was absorbed, and then some job
holds triggers marked as merged from it. -/
theorem ids_accounted {s : SyncState} (h : s.Reachable L cfg) {id : Text} (hid : s.Escaped id) :
    (∃ r ∈ s.queue.db.table.rows, r.jobId = id) ∨
      ∃ r ∈ s.queue.db.table.rows, ∃ t ∈ r.triggers, t.mergedFrom = some id := by
  have hsound := h.sound
  obtain ⟨a, ha, rfl⟩ := List.mem_map.mp (hsound.returned_of_escaped hid)
  obtain ⟨r, hr, hjob | hmark⟩ := hsound.queue.accounted a ha
  · exact Or.inl ⟨r, Table.mem_bag.mp hr, hjob⟩
  · exact Or.inr ⟨r, Table.mem_bag.mp hr, hmark⟩

theorem ids_accounted_absorbed :
    (SyncState.events plainPackages defaultConfig triggeredTwice).pending.map PendingSystem.jobId =
        [some (js "J2")] ∧
      ((∃ r ∈ (SyncState.events plainPackages defaultConfig triggeredTwice).queue.db.table.rows,
          r.jobId = js "J2") ∨
        ∃ r ∈ (SyncState.events plainPackages defaultConfig triggeredTwice).queue.db.table.rows,
          ∃ t ∈ r.triggers, t.mergedFrom = some (js "J2")) :=
  have hreach : (SyncState.events plainPackages defaultConfig triggeredTwice).Reachable
      plainPackages defaultConfig := SyncState.reachable_events (by decide)
  ⟨by decide, ids_accounted hreach (Or.inl (by decide))⟩

end ContextLayer
