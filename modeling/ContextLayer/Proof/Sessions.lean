import ContextLayer.Proof.QueueRuns
import ContextLayer.Proof.Statements
import ContextLayer.Sessions

/-!
# No transaction is refused, short of an overtaking enqueue

Between the lookup of a follower and the `UPDATE` that returns a job to the queue, the only thing
that can put another job into the queue under the same key is an enqueue. The other transactions
cannot: the job to be returned is the live one of its key and is locked, and whatever they queue was
live or queued before. So as long as no enqueue comes in between, every open transaction can be
replayed on the database as it is, and commits.
-/

namespace ContextLayer

open Text Transaction Prog

variable {L : Packages} {cfg : CoreConfig}

/-! ### How the calls begin -/

/-- A lookup of the follower of one of the jobs, a live batch job. -/
def LooksFor (known : List JobRow) (p : JobRow → Bool) : Prop :=
  ∃ row ∈ known, row.LiveBatch row.dedupeKey ∧ p = isFollower row

def looking (known : List JobRow) : Footprint jobSchema Tables :=
  ⟨LooksFor known, fun _ => True, fun _ => True⟩

variable {w : Backend}

/-- A `SELECT` by id. -/
theorem pinned_of_id {p : JobRow → Bool} {jobId : Text} (hp : ∀ r, p r = true → r.jobId = jobId)
    (rows : List JobRow) {r : JobRow} (hr : p r = true) (hne : rows.filter p ≠ []) :
    r.jobId ∈ (rows.filter p).map JobRow.jobId := by
  obtain ⟨r', hr'⟩ := List.exists_mem_of_ne_nil _ hne
  rw [hp r hr, ← hp r' (List.mem_filter.mp hr').2]
  exact List.mem_map_of_mem hr'

/-- The sweep takes every row it could take. -/
theorem pinned_of_expired {now : Nat} {r : JobRow}
    (hr : (isExpired now r && !skipLocked w now r.jobId) = true) :
    r.jobId ∈ (w.store.table.rows.filter fun r =>
      isExpired now r && !skipLocked w now r.jobId).map JobRow.jobId := by
  simp only [skipLocked, Bool.not_not, Bool.and_eq_true, List.any_eq_true, decide_eq_true_eq] at hr
  obtain ⟨_, r', hr', ⟨hid, hexpired⟩, hfree⟩ := hr
  rw [← hid]
  refine List.mem_map_of_mem (List.mem_filter.mpr ⟨hr', ?_⟩)
  simp only [skipLocked, Bool.not_not, Bool.and_eq_true, List.any_eq_true, decide_eq_true_eq]
  exact ⟨hexpired, r', hr', ⟨rfl, hexpired⟩, hfree⟩

variable (L cfg w) in
/-- The transaction begins with a `SELECT`: of nothing, and then it is over, or of rows that no
other row can come to answer for. It goes on to look for followers of those rows only. -/
theorem TxCall.opens (call : TxCall) :
    ∃ p next, (call.opened w).tx L cfg = .select p next ∧ (∃ a, next [] = .done a) ∧
      (∀ rows, (∀ r ∈ rows, p r = true) → (next rows).Every (looking rows)) ∧
      ∀ r, p r = true → w.store.table.rows.filter p ≠ [] →
        r.jobId ∈ (w.store.table.rows.filter p).map JobRow.jobId := by
  obtain ⟨p, next, htx, hbegins, hfirst⟩ := (call.opened w).begins L cfg
  refine ⟨p, next, htx, hbegins.idle, ?_, ?_⟩
  · intro rows hrows
    have hevery := hbegins.every (LooksFor rows) rows (fun r hr _ hlive => ⟨r, hr, hlive, rfl⟩) hrows
    exact hevery.mono (fun _ h => h) (fun _ _ => trivial) fun _ _ => trivial
  · intro r hr hne
    rcases hfirst with ⟨jobId, hp⟩ | ⟨now, jitter, locked, hcall, rfl⟩
    · exact pinned_of_id hp _ hr hne
    · obtain rfl : locked = skipLocked w now := by
        cases call with
        | sweepExpiredLeases now' jitter' locked' =>
            obtain ⟨rfl, _, rfl⟩ := TxCall.sweepExpiredLeases.inj hcall
            rfl
        | _ => cases hcall
      exact pinned_of_expired hr

/-! ### Open transactions -/

/-- Every row that may answer a question of the transaction is locked, or is a follower of a live
job it has locked. -/
def Watched (rows : List JobRow) (σ : Session jobSchema Tables Reply) : Prop :=
  ∃ known, (∀ row ∈ known, row ∈ rows ∧ row.jobId ∈ σ.locks) ∧ σ.prog.Every (looking known) ∧
    ∀ p ∈ σ.reads, (∀ r, p r = true → r.jobId ∈ σ.locks) ∨ LooksFor known p

/-- A call of the queue, begun at some time. -/
def IsCall (L : Packages) (cfg : CoreConfig) (tx : Tx Reply) : Prop :=
  ∃ call : TxCall, tx = call.tx L cfg

/-- The transaction is as good as over, or can be replayed. -/
def OpenSound (L : Packages) (cfg : CoreConfig) (rows : List JobRow)
    (σ : Session jobSchema Tables Reply) : Prop :=
  σ.Idle ∨ σ.Replays (IsCall L cfg) rows ∧ Watched rows σ

section

variable {t t' : JobTable} {σ : Session jobSchema Tables Reply}

theorem Watched.transfer {rows rows' : List JobRow} (h : Watched rows σ)
    (hlocked : lockedRows jobSchema σ.locks rows' = lockedRows jobSchema σ.locks rows) :
    Watched rows' σ := by
  obtain ⟨known, hknown, hasks, hreads⟩ := h
  refine ⟨known, ?_, hasks, hreads⟩
  intro row hrow
  obtain ⟨hmem, hlock⟩ := hknown row hrow
  exact ⟨mem_of_lockedRows_eq hlocked hmem hlock, hlock⟩

/-- Of the jobs of a key, at most one is live. -/
theorem eq_of_live (hE : Exclusive t.bag) {key : Text × Text} {r r' : JobRow} (hr : r ∈ t.rows)
    (hr' : r' ∈ t.rows) (hlive : r.LiveBatch key) (hlive' : r'.LiveBatch key) : r' = r := by
  obtain ⟨rest, hbag⟩ := exists_bag hr
  have hmem : r' ∈ r ::ₘ rest := hbag ▸ Table.mem_bag.mpr hr'
  refine (Multiset.mem_cons.mp hmem).resolve_right ?_
  intro hrest
  exact alone (hbag ▸ hE.live key) hlive r' hrest hlive'

/-- **No phantoms.** A follower that was waiting or running before is one the transaction found, or
is the live job the transaction has locked. -/
theorem Watched.settled (h : Watched t.rows σ) (hE : Exclusive t.bag)
    (hsettled : Settled jobSchema σ.reads σ.locks t.rows)
    (hactive : ∀ r' ∈ t'.rows, ∀ r, isFollower r ∈ σ.reads → isFollower r r' = true →
      ∃ r₀ ∈ t.rows, SameJob r₀ r' ∧ r₀.Active) :
    Settled jobSchema σ.reads σ.locks t'.rows := by
  obtain ⟨known, hknown, _, hreads⟩ := h
  intro p hp r' hr' hpr
  rcases hreads p hp with hpinned | ⟨row, hrow, hlive, rfl⟩
  · exact hpinned r' hpr
  obtain ⟨r, hr, hsame, hqueued | hrunning⟩ := hactive r' hr' row hp hpr
  all_goals
    simp only [isFollower, Bool.and_eq_true, decide_eq_true_eq] at hpr
    obtain ⟨⟨_, hbatch, hkey⟩, hne⟩ := hpr
  · have hfollower : isFollower row r = true := by
      simp only [isFollower, Bool.and_eq_true, decide_eq_true_eq]
      exact ⟨⟨hqueued, hsame.jobClass ▸ hbatch, hsame.key ▸ hkey⟩, hsame.jobId ▸ hne⟩
    have hlock : r.jobId ∈ σ.locks := hsettled _ hp r hr hfollower
    have hlock' : r'.jobId ∈ σ.locks := hsame.jobId ▸ hlock
    exact hlock'
  · have heq := eq_of_live hE (hknown row hrow).1 hr hlive
      ⟨hrunning, hsame.jobClass ▸ hbatch, hsame.key ▸ hkey⟩
    exact absurd (heq ▸ hsame.jobId) hne

/-- What others commit leaves a transaction sound where it is no follower of a job it asked for. -/
theorem OpenSound.transfer (h : OpenSound L cfg t.rows σ) (hE : Exclusive t.bag)
    (hlocked : lockedRows jobSchema σ.locks t'.rows = lockedRows jobSchema σ.locks t.rows)
    (hactive : ∀ r' ∈ t'.rows, ∀ r, isFollower r ∈ σ.reads → isFollower r r' = true →
      ∃ r₀ ∈ t.rows, SameJob r₀ r' ∧ r₀.Active) : OpenSound L cfg t'.rows σ := by
  rcases h with hidle | ⟨hreplays, hwatched⟩
  · exact Or.inl hidle
  · have hsettled := hwatched.settled hE hreplays.settled hactive
    exact Or.inr ⟨hreplays.transfer hlocked hsettled, hwatched.transfer hlocked⟩

theorem OpenSound.advance (h : OpenSound L cfg t.rows σ)
    {others : List (Session jobSchema Tables Reply)} {σ' : Session jobSchema Tables Reply}
    (hmoved : advance others t.rows σ = .moved σ') : OpenSound L cfg t.rows σ' := by
  rcases h with ⟨_, _, a, hdone⟩ | ⟨hreplays, known, hknown, hasks, hreads⟩
  · unfold Transaction.advance at hmoved
    rw [hdone] at hmoved
    cases hmoved
  · obtain ⟨hasks', hreads'⟩ := every_of_moved hmoved hasks
    have hlocks : ∀ id ∈ σ.locks, id ∈ σ'.locks := locks_subset_of_moved hmoved
    refine Or.inr ⟨hreplays.advance hmoved, known, ?_, hasks', ?_⟩
    · exact fun row hrow => ⟨(hknown row hrow).1, hlocks _ (hknown row hrow).2⟩
    · intro p hp
      rcases hreads' p hp with hold | hnew
      · rcases hreads p hold with hpinned | hlooks
        · exact Or.inl fun r hr => hlocks _ (hpinned r hr)
        · exact Or.inr hlooks
      · exact Or.inr hnew

/-- A transaction that has just executed its first statement. -/
theorem OpenSound.opened {w : Backend} (call : TxCall)
    (hmoved : Transaction.advance w.sessions w.store.table.rows (.start ((call.opened w).tx L cfg)) =
      .moved σ) : OpenSound L cfg w.store.table.rows σ := by
  have hreplays : σ.Replays (IsCall L cfg) w.store.table.rows :=
    (Session.replays_start ⟨call.opened w, rfl⟩).advance hmoved
  obtain ⟨p, next, htx, ⟨a, hidle⟩, hasks, hpinned⟩ := call.opens L cfg w
  rw [htx] at hmoved
  rcases moved_cases hmoved with ⟨p', next', hprog, _, rfl⟩ | ⟨_, _, _, hprog, _⟩ |
    ⟨_, _, hprog, _⟩ | ⟨_, _, hprog, _⟩
  · obtain ⟨rfl, rfl⟩ := Prog.select.inj hprog
    change OpenSound L cfg _ ⟨[], id, (w.store.table.rows.filter p).map JobRow.jobId ++ [], [p],
      next (w.store.table.rows.filter p)⟩
    by_cases hne : w.store.table.rows.filter p = []
    · left
      rw [hne]
      exact ⟨rfl, rfl, a, hidle⟩
    · refine Or.inr ⟨hreplays, w.store.table.rows.filter p, ?_, ?_, ?_⟩
      · intro row hrow
        exact ⟨(List.mem_filter.mp hrow).1, List.mem_append_left _ (List.mem_map_of_mem hrow)⟩
      · exact hasks _ fun r hr => (List.mem_filter.mp hr).2
      · intro q hq
        obtain rfl := List.mem_singleton.mp hq
        exact Or.inl fun r hr => List.mem_append_left _ (hpinned r hr hne)
  · cases hprog
  · cases hprog
  · cases hprog

/-- The rest of a sound transaction commits. -/
theorem OpenSound.completes {s : Database} (h : OpenSound L cfg s.table.rows σ) : σ.Completes s := by
  rcases h with hidle | ⟨hreplays, _⟩
  · exact hidle.completes s
  · apply hreplays.completes
    rintro _ ⟨call, rfl⟩
    obtain ⟨a, s', hrun, _⟩ := call.commits [] s L cfg
    rw [hrun]
    rfl

/-- What a sound transaction commits is a run of the rules. -/
theorem OpenSound.commits {s : Database} (h : OpenSound L cfg s.table.rows σ) {a : Reply}
    (hdone : σ.prog = .done a) (ht : t.rows = σ.view s.table.rows) :
    Advances [] s ⟨t, σ.effect s.rest⟩ ∧ ∀ locks : List Text, (∀ id ∈ σ.locks, id ∉ locks) →
      lockedRows jobSchema locks t.rows = lockedRows jobSchema locks s.table.rows := by
  rcases h with ⟨hwrites, _⟩ | ⟨hreplays, _⟩
  · have hsame : t = s.table := by
      apply Table.ext
      rw [ht, Session.view, hwrites, applyWrites_nil]
    rw [hsame]
    exact ⟨.refl _ s, fun _ _ => rfl⟩
  · constructor
    · obtain ⟨_, ⟨call, rfl⟩, hrun⟩ := hreplays.run_eq hdone ht (by
        rintro _ ⟨call, rfl⟩
        obtain ⟨a, s', hrun, _⟩ := call.commits [] s L cfg
        rw [hrun]
        rfl)
      exact (call.commits [] s L cfg).of_run hrun
    · intro locks hdisjoint
      rw [ht]
      exact lockedRows_applyWrites_of_notMem
        (fun w hw => hdisjoint _ (hreplays.id_mem_locks w hw)) _

end

/-! ### Every interleaving -/

/-- The invariant. -/
structure Backend.Sound (L : Packages) (cfg : CoreConfig) (w : Backend) : Prop where
  exclusive : Exclusive w.store.table.bag
  disjoint : w.Disjoint
  sessions : ∀ σ ∈ w.sessions, OpenSound L cfg w.store.table.rows σ

/-- What is queued after a run of the rules without a new trigger was active before. -/
theorem Advances.active {ulids : List Text} {db db' : Database} (h : Advances ulids db db')
    {r' : JobRow} (hr' : r' ∈ db'.table.rows) {row : JobRow} (hfollower : isFollower row r' = true) :
    ∃ r ∈ db.table.rows, SameJob r r' ∧ r.Active := by
  simp only [isFollower, Bool.and_eq_true, decide_eq_true_eq] at hfollower
  obtain ⟨r, hr, hsame⟩ := JobRun.active h rfl (Table.mem_bag.mpr hr') (Or.inl hfollower.1.1)
  exact ⟨r, Table.mem_bag.mp hr, hsame⟩

namespace Backend

theorem sound_start : Sound L cfg .start where
  exclusive := .zero
  disjoint := List.Pairwise.nil
  sessions _ hσ := absurd hσ List.not_mem_nil

variable {w w' : Backend}

theorem Sound.opens (h : w.Sound L cfg) {call : TxCall} {σ : Session jobSchema Tables Reply}
    (hmoved : advance w.sessions w.store.table.rows (.start ((call.opened w).tx L cfg)) = .moved σ) :
    Sound L cfg { w with sessions := σ :: w.sessions } where
  exclusive := h.exclusive
  disjoint := by
    refine List.pairwise_cons.mpr ⟨?_, h.disjoint⟩
    intro τ hτ id hid hheld
    rcases locks_of_moved hmoved hid with hnone | hfree
    · cases hnone
    · exact hfree ⟨τ, hτ, hheld⟩
  sessions := by
    intro τ hτ
    rcases List.mem_cons.mp hτ with rfl | hτ
    · exact OpenSound.opened (w := w) call hmoved
    · exact h.sessions τ hτ

theorem Sound.moves (h : w.Sound L cfg) (hmoves : w.Moves w') : w'.Sound L cfg := by
  have hdisjoint := hmoves.disjoint h.disjoint
  obtain ⟨hE, hD, hsessions⟩ := h
  cases hmoves with
  | @statement s xs ys σ σ' hmoved =>
      refine ⟨hE, hdisjoint, ?_⟩
      intro τ hτ
      rcases List.mem_append.mp hτ with hτ | hτ
      · exact hsessions τ (List.mem_append_left _ hτ)
      rcases List.mem_cons.mp hτ with rfl | hτ
      · exact (hsessions σ (List.mem_append_right _ List.mem_cons_self)).advance hmoved
      · exact hsessions τ (List.mem_append_right _ (List.mem_cons_of_mem _ hτ))
  | @commit s xs ys σ a t hcommits ht =>
      have hdone : σ.prog = .done a := prog_of_commits hcommits
      have hσ := hsessions σ (List.mem_append_right _ List.mem_cons_self)
      obtain ⟨hadvances, hlocked⟩ := hσ.commits hdone ht
      obtain ⟨hfree, _⟩ := disjoint_middle.mp hD
      refine ⟨JobRun.invariant Exclusive.step hadvances hE, hdisjoint, ?_⟩
      intro τ hτ
      have hmem : τ ∈ xs ++ σ :: ys := by
        rcases List.mem_append.mp hτ with hτ | hτ
        · exact List.mem_append_left _ hτ
        · exact List.mem_append_right _ (List.mem_cons_of_mem _ hτ)
      apply (hsessions τ hmem).transfer hE
      · exact hlocked τ.locks fun id hid hheld => hfree id hid ⟨τ, hτ, hheld⟩
      · exact fun r' hr' r _ hfollower => hadvances.active hr' hfollower
  | @abort s xs ys σ hrefused =>
      refine ⟨hE, hdisjoint, ?_⟩
      intro τ hτ
      rcases List.mem_append.mp hτ with hτ | hτ
      · exact hsessions τ (List.mem_append_left _ hτ)
      · exact hsessions τ (List.mem_append_right _ (List.mem_cons_of_mem _ hτ))

/-- What one statement commits by itself, without a new trigger. -/
theorem Sound.claim (h : w.Sound L cfg) {db : Database} {ulids : List Text}
    (hadvances : Advances ulids w.store db) (hunblocked : w.Unblocked db.table.rows) :
    Sound L cfg { w with store := db } where
  exclusive := JobRun.invariant Exclusive.step hadvances h.exclusive
  disjoint := h.disjoint
  sessions τ hτ := by
    apply (h.sessions τ hτ).transfer h.exclusive (hunblocked.locked τ hτ)
    exact fun r' hr' r _ hfollower => hadvances.active hr' hfollower

theorem Sound.enqueue (h : w.Sound L cfg) {req : EnqueueRequest} {jobId : Text} {clock now : Nat}
    {reply : EnqueueReply} {db : Database}
    (henqueue : ContextLayer.enqueue L cfg req jobId clock now w.store = some (reply, db))
    (hunblocked : w.Unblocked db.table.rows)
    (hclear : ¬ Overtakes L cfg w (.enqueue req jobId clock now)) :
    Sound L cfg { w with store := db } := by
  rcases enqueue_cases L cfg req jobId clock now w.store with
    hnone | ⟨problems, hinvalid⟩ | ⟨v, result, t', hvalid, hinsert, henqueued⟩
  · cases hnone.symm.trans henqueue
  · obtain ⟨_, rfl⟩ := Prod.mk.inj (Option.some.inj (hinvalid.symm.trans henqueue))
    exact h
  · obtain ⟨_, rfl⟩ := Prod.mk.inj (Option.some.inj (henqueued.symm.trans henqueue))
    obtain ⟨hstep, _⟩ := insertJob_step [jobId] hinsert rfl rfl rfl rfl
      (validateEnqueue_trigger L cfg hvalid)
    refine ⟨Exclusive.step hstep h.exclusive, h.disjoint, ?_⟩
    intro τ hτ
    apply (h.sessions τ hτ).transfer h.exclusive (hunblocked.locked τ hτ)
    intro r' hr' r hread hfollower
    rcases insertJob_cases hinsert hr' with rfl | ⟨r₀, hr₀, triggers, rfl⟩
    · exact absurd ⟨v, hvalid, τ, hτ, r, hread, hfollower⟩ hclear
    · simp only [isFollower, Bool.and_eq_true, decide_eq_true_eq] at hfollower
      exact ⟨r₀, hr₀, ⟨rfl, rfl, rfl⟩, Or.inl hfollower.1.1⟩

theorem Reachable.sound
    (h : Reachable L cfg (fun w e => ¬ Overtakes L cfg w e) w) : w.Sound L cfg := by
  induction h with
  | start => exact sound_start
  | event _ hclear hoccurs ih =>
      cases hoccurs with
      | opens hmoved => exact ih.opens hmoved
      | moves hmoves => exact ih.moves hmoves
      | enqueue henqueue hunblocked => exact ih.enqueue henqueue hunblocked hclear
      | claim hfresh hrun hunblocked =>
          exact ih.claim ((claimOnce_commits L cfg _ _ _ hfresh).of_run hrun) hunblocked

end Backend

/-- **Returning a job to the queue never fails**, in every interleaving in which no enqueue comes
between a transaction's lookup of a follower and its end: no statement of an open transaction is
refused, and what it has left to do commits. -/
theorem requeue_never_refused {w : Backend}
    (h : Backend.Reachable L cfg (fun w e => ¬ Overtakes L cfg w e) w)
    {σ : Session jobSchema Tables Reply} (hσ : σ ∈ w.sessions) :
    σ.Completes w.store ∧
      ∀ others : List (Session jobSchema Tables Reply),
        advance others w.store.table.rows σ ≠ .refused := by
  have hcompletes := (h.sound.sessions σ hσ).completes (s := w.store)
  exact ⟨hcompletes, fun others => hcompletes.not_refused⟩

/-! ### A sweep, step by step -/

namespace Backend

variable {Allowed Allowed' : Backend → BackendEvent → Prop}

theorem Reachable.mono (hallowed : ∀ w e, Allowed w e → Allowed' w e) {w : Backend}
    (h : Reachable L cfg Allowed w) : Reachable L cfg Allowed' w := by
  induction h with
  | start => exact .start
  | event _ hok hoccurs ih => exact .event ih (hallowed _ _ hok) hoccurs

/-- Where no transaction is open, nothing is overtaken. -/
theorem not_overtakes {w : Backend} (h : w.sessions = []) (e : BackendEvent) :
    ¬ Overtakes L cfg w e := by
  cases e with
  | enqueue req jobId clock now =>
      rintro ⟨_, _, σ, hσ, _⟩
      rw [h] at hσ
      cases hσ
  | opens | moves | claim => exact id

def enqueued (w : Backend) (req : EnqueueRequest) (jobId : Text) (now : Nat) : Backend :=
  { w with
    store := ((enqueue plainPackages defaultConfig req jobId now now w.store).map Prod.snd).getD
      w.store }

def claimed (w : Backend) (now : Nat) (token : Text) : Backend :=
  { w with
    store := (((claimOnce plainPackages defaultConfig snapshotRunner now token (fun _ => false)
      w.store.table.rows).run w.store).map Prod.snd).getD w.store }

/-- The session after its next statement. -/
def moved (others : List (Session jobSchema Tables Reply)) (rows : List JobRow)
    (σ : Session jobSchema Tables Reply) : Session jobSchema Tables Reply :=
  match advance others rows σ with
  | .moved σ' => σ'
  | _ => σ

def isMoved : Advance jobSchema Tables Reply → Bool
  | .moved _ => true
  | _ => false

def isRefused : Advance jobSchema Tables Reply → Bool
  | .refused => true
  | _ => false

theorem advance_eq_moved {others : List (Session jobSchema Tables Reply)} {rows : List JobRow}
    {σ : Session jobSchema Tables Reply} (h : isMoved (advance others rows σ) = true) :
    advance others rows σ = .moved (moved others rows σ) := by
  unfold moved
  cases hadvance : advance others rows σ with
  | moved σ' => rfl
  | waits | refused | commits =>
      rw [hadvance] at h
      cases h

theorem advance_eq_refused {others : List (Session jobSchema Tables Reply)} {rows : List JobRow}
    {σ : Session jobSchema Tables Reply} (h : isRefused (advance others rows σ) = true) :
    advance others rows σ = .refused := by
  cases hadvance : advance others rows σ with
  | refused => rfl
  | waits | moved | commits =>
      rw [hadvance] at h
      cases h

/-- The sweep at `now`, opened with nothing else open. -/
def sweeping (w : Backend) (now : Nat) : Session jobSchema Tables Reply :=
  moved [] w.store.table.rows (.start
    ((TxCall.sweepExpiredLeases now (fun _ => 1000) (skipLocked w now)).tx plainPackages defaultConfig))

variable {w : Backend}

theorem Reachable.enqueued (h : Reachable plainPackages defaultConfig Allowed w)
    {req : EnqueueRequest} {jobId : Text} {now : Nat}
    (hallowed : Allowed w (.enqueue req jobId now now))
    (hsome : (enqueue plainPackages defaultConfig req jobId now now w.store).isSome = true)
    (hunblocked : w.Unblocked (w.enqueued req jobId now).store.table.rows) :
    Reachable plainPackages defaultConfig Allowed (w.enqueued req jobId now) := by
  obtain ⟨⟨reply, db⟩, heq⟩ := Option.isSome_iff_exists.mp hsome
  have hdb : w.enqueued req jobId now = { w with store := db } := by
    rw [Backend.enqueued, heq]
    rfl
  rw [hdb] at hunblocked ⊢
  exact .event h hallowed (.enqueue heq hunblocked)

theorem Reachable.claimed (h : Reachable plainPackages defaultConfig Allowed w) {now : Nat}
    {token : Text} (hallowed : Allowed w (.claim snapshotRunner now token fun _ => false))
    (hfresh : ∀ r ∈ w.store.table.rows, r.leaseToken ≠ some token)
    (hsome : ((claimOnce plainPackages defaultConfig snapshotRunner now token (fun _ => false)
      w.store.table.rows).run w.store).isSome = true)
    (hunblocked : w.Unblocked (w.claimed now token).store.table.rows) :
    Reachable plainPackages defaultConfig Allowed (w.claimed now token) := by
  obtain ⟨⟨reply, db⟩, heq⟩ := Option.isSome_iff_exists.mp hsome
  have hdb : w.claimed now token = { w with store := db } := by
    rw [Backend.claimed, heq]
    rfl
  rw [hdb] at hunblocked ⊢
  exact .event h hallowed (.claim hfresh heq hunblocked)

/-- The only open transaction executes a statement. -/
theorem moves_of_isMoved {s : Database} {σ : Session jobSchema Tables Reply}
    (h : isMoved (advance [] s.table.rows σ) = true) :
    World.Moves ⟨s, [σ]⟩ ⟨s, [moved [] s.table.rows σ]⟩ :=
  @World.Moves.statement _ _ _ _ _ _ s [] [] _ _ (advance_eq_moved h)

theorem unblocked_of_nil (h : w.sessions = []) (rows : List JobRow) : w.Unblocked rows where
  locked τ hτ := by
    rw [h] at hτ
    cases hτ
  compatible τ hτ := by
    rw [h] at hτ
    cases hτ

/-- One system's job is leased. -/
def oneLeased : Backend :=
  (Backend.start.enqueued (snapshotRequest "crm" "schedule") (js "J1") 0).claimed 1 (js "T1")

/-- So is another's, and both leases run out. -/
def twoLeased : Backend :=
  (oneLeased.enqueued (snapshotRequest "erp" "schedule") (js "J3") 2).claimed 3 (js "T3")

/-- A sweep has found both, and is about to look for a follower of the first. -/
def sweepFound : Session jobSchema Tables Reply :=
  moved [] twoLeased.store.table.rows (twoLeased.sweeping 100000)

/-- It has looked. -/
def sweepLooked : Session jobSchema Tables Reply := moved [] twoLeased.store.table.rows sweepFound

def swept : Backend := ⟨twoLeased.store, [sweepLooked]⟩

theorem reachable_swept :
    swept.Reachable plainPackages defaultConfig
      fun w e => ¬ Overtakes plainPackages defaultConfig w e := by
  have hfirst : (Backend.start.enqueued (snapshotRequest "crm" "schedule") (js "J1") 0).Reachable
      plainPackages defaultConfig fun w e => ¬ Overtakes plainPackages defaultConfig w e :=
    Reachable.start.enqueued (not_overtakes rfl _) (by decide) (unblocked_of_nil rfl _)
  have hone : oneLeased.Reachable plainPackages defaultConfig
      fun w e => ¬ Overtakes plainPackages defaultConfig w e :=
    hfirst.claimed (not_overtakes rfl _) (by decide) (by decide) (unblocked_of_nil rfl _)
  have hsecond : (oneLeased.enqueued (snapshotRequest "erp" "schedule") (js "J3") 2).Reachable
      plainPackages defaultConfig fun w e => ¬ Overtakes plainPackages defaultConfig w e :=
    hone.enqueued (not_overtakes rfl _) (by decide) (unblocked_of_nil rfl _)
  have htwo : twoLeased.Reachable plainPackages defaultConfig
      fun w e => ¬ Overtakes plainPackages defaultConfig w e :=
    hsecond.claimed (not_overtakes rfl _) (by decide) (by decide) (unblocked_of_nil rfl _)
  have hopens : Occurs plainPackages defaultConfig twoLeased
      (.opens (.sweepExpiredLeases 100000 (fun _ => 1000) fun _ => false))
      ⟨twoLeased.store, [twoLeased.sweeping 100000]⟩ :=
    .opens (advance_eq_moved (by decide))
  have hfound : World.Moves (⟨twoLeased.store, [twoLeased.sweeping 100000]⟩ : Backend)
      ⟨twoLeased.store, [sweepFound]⟩ := moves_of_isMoved (by decide)
  have hlooked : World.Moves (⟨twoLeased.store, [sweepFound]⟩ : Backend) swept :=
    moves_of_isMoved (by decide)
  exact .event (.event (.event htwo id hopens) id (.moves hfound)) id (.moves hlooked)

/-- A producer enqueues for the first system, behind the lookup. -/
def overtaken : Backend := swept.enqueued (snapshotRequest "crm" "webhook") (js "J2") 100001

theorem reachable_overtaken :
    overtaken.Reachable plainPackages defaultConfig fun _ _ => True := by
  refine (reachable_swept.mono fun _ _ _ => trivial).enqueued trivial (by decide) ?_
  constructor
  · intro τ hτ
    obtain rfl := List.mem_singleton.mp hτ
    rfl
  · intro τ hτ
    obtain rfl := List.mem_singleton.mp hτ
    decide

end Backend

theorem requeue_never_refused_swept :
    Backend.sweepLooked.Completes Backend.swept.store ∧
      ∀ others : List (Session jobSchema Tables Reply),
        advance others Backend.swept.store.table.rows Backend.sweepLooked ≠ .refused :=
  requeue_never_refused Backend.reachable_swept List.mem_cons_self

/-- The sweep's `UPDATE` clashes with the job enqueued behind its lookup. The sweep is aborted, with
the other system's expired lease unswept. -/
theorem requeue_refused_overtaken :
    ¬ ∀ (L : Packages) (cfg : CoreConfig) (w : Backend), w.Reachable L cfg (fun _ _ => True) →
      ∀ xs σ ys, w.sessions = xs ++ σ :: ys →
        advance (xs ++ ys) w.store.table.rows σ ≠ .refused := by
  intro hnever
  have hnot := hnever plainPackages defaultConfig _ Backend.reachable_overtaken [] _ [] rfl
  exact hnot (Backend.advance_eq_refused (by decide))

end ContextLayer
