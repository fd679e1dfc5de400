import Mathlib.Data.Multiset.OrderedMonoid
import ContextLayer.Lifecycle

/-!
# What a run of the rules hands on

Lease tokens come from fresh ULIDs. Triggers move between jobs and none is lost or doubled. An id
stays the id of a job, or becomes a mark on the triggers of the job that absorbed it. A job that has
ended stays as it ended, and a job that waits or runs was waiting or running before.
-/

namespace ContextLayer

open Text

variable {ulids : List Text} {accepted : Multiset Trigger} {jobs jobs' : Multiset JobRow}

/-! ### Tokens -/

theorem JobStep.token_mem (hstep : JobStep ulids accepted jobs jobs') {r' : JobRow} (hr' : r' ∈ jobs')
    {token : Text} (htoken : r'.leaseToken = some token) :
    token ∈ ulids ∨ ∃ r ∈ jobs, r.leaseToken = some token := by
  cases hstep with
  | insert _ hnone =>
      rcases Multiset.mem_cons.mp hr' with rfl | hr'
      · cases hnone.symm.trans htoken
      · exact Or.inr ⟨r', hr', htoken⟩
  | @merge rest row row' t _ _ _ hkept =>
      rcases Multiset.mem_cons.mp hr' with rfl | hr'
      · exact Or.inr ⟨row, Multiset.mem_cons_self row rest, hkept.symm.trans htoken⟩
      · exact Or.inr ⟨r', Multiset.mem_cons_of_mem hr', htoken⟩
  | @change rest row row' _ _ hrow =>
      rcases Multiset.mem_cons.mp hr' with rfl | hr'
      · have hself := Multiset.mem_cons_self row rest
        cases hrow with
        | claim granted hmem _ _ _ _ hgranted =>
            obtain rfl : granted = token := Option.some.inj (hgranted.symm.trans htoken)
            exact Or.inl hmem
        | work _ _ hkept => exact Or.inr ⟨row, hself, hkept.symm.trans htoken⟩
        | requeue _ _ hnone => cases hnone.symm.trans htoken
        | finish _ _ _ hnone => cases hnone.symm.trans htoken
        | annotate _ hkept => exact Or.inr ⟨row, hself, hkept.symm.trans htoken⟩
      · exact Or.inr ⟨r', Multiset.mem_cons_of_mem hr', htoken⟩
  | absorb _ _ _ _ _ hnone =>
      rcases Multiset.mem_cons.mp hr' with rfl | hr'
      · cases hnone.symm.trans htoken
      · exact Or.inr ⟨r', Multiset.mem_cons_of_mem (Multiset.mem_cons_of_mem hr'), htoken⟩
  | @coalesce rest row row' survivor survivor' _ _ _ _ _ hnone _ _ hkept =>
      rcases Multiset.mem_cons.mp hr' with rfl | hr'
      · exact Or.inr ⟨survivor, Multiset.mem_cons_self _ _, hkept.symm.trans htoken⟩
      rcases Multiset.mem_cons.mp hr' with rfl | hr'
      · cases hnone.symm.trans htoken
      · exact Or.inr ⟨r', Multiset.mem_cons_of_mem (Multiset.mem_cons_of_mem hr'), htoken⟩

theorem JobRun.token_mem (hrun : JobRun ulids accepted jobs jobs') {r' : JobRow} (hr' : r' ∈ jobs')
    {token : Text} (htoken : r'.leaseToken = some token) :
    token ∈ ulids ∨ ∃ r ∈ jobs, r.leaseToken = some token := by
  induction hrun generalizing r' with
  | refl _ => exact Or.inr ⟨r', hr', htoken⟩
  | step _ hstep ih =>
      rcases hstep.token_mem hr' htoken with hfresh | ⟨r, hr, hr_token⟩
      · exact Or.inl hfresh
      · exact ih hr hr_token

/-! ### Triggers -/

/-- The trigger as it was accepted. -/
def Trigger.strip (t : Trigger) : Trigger := { t with mergedFrom := none }

@[simp]
theorem Trigger.strip_mark (jobId : Text) (t : Trigger) : (t.mark jobId).strip = t.strip := rfl

theorem Trigger.strip_of_new {t : Trigger} (h : t.mergedFrom = none) : t.strip = t := by
  cases t
  cases h
  rfl

/-- The triggers a job answers for, each as it was accepted. -/
def JobRow.records (r : JobRow) : Multiset Trigger :=
  if r.state = .coalesced then 0 else (r.triggers.map Trigger.strip : List Trigger)

/-- The triggers of the jobs that have not handed theirs over. -/
def records (jobs : Multiset JobRow) : Multiset Trigger := jobs.bind JobRow.records

theorem JobRow.records_of_ne {r : JobRow} (h : r.state ≠ .coalesced) :
    r.records = (r.triggers.map Trigger.strip : List Trigger) :=
  if_neg h

theorem JobRow.records_eq {r r' : JobRow} (h : r.state ≠ .coalesced) (h' : r'.state ≠ .coalesced)
    (htriggers : r'.triggers = r.triggers) : r'.records = r.records := by
  rw [records_of_ne h, records_of_ne h', htriggers]

theorem map_strip_marked (jobId : Text) (triggers : List Trigger) :
    (triggers.map (Trigger.mark jobId)).map Trigger.strip = triggers.map Trigger.strip := by
  rw [List.map_map]
  rfl

theorem JobState.ne_coalesced_of_live {state : JobState} (h : state.live = true) :
    state ≠ .coalesced := by
  rintro rfl
  cases h

theorem RowStep.records {others : Multiset JobRow} {row row' : JobRow}
    (hstep : RowStep ulids others row row') (htriggers : row'.triggers = row.triggers) :
    row'.records = row.records := by
  cases hstep with
  | claim _ _ hqueued _ _ hlive _ =>
      exact JobRow.records_eq (by rw [hqueued]; decide) (JobState.ne_coalesced_of_live hlive)
        htriggers
  | work hlive hlive' _ =>
      exact JobRow.records_eq (JobState.ne_coalesced_of_live hlive)
        (JobState.ne_coalesced_of_live hlive') htriggers
  | requeue hlive hqueued _ _ =>
      exact JobRow.records_eq (JobState.ne_coalesced_of_live hlive) (by rw [hqueued]; decide)
        htriggers
  | finish hrow _ hend _ =>
      refine JobRow.records_eq ?_ hend htriggers
      rcases hrow with hqueued | hlive
      · rw [hqueued]
        decide
      · exact JobState.ne_coalesced_of_live hlive
  | annotate hstate _ _ => simp only [JobRow.records, hstate, htriggers]

/-- **Every trigger is where it was, or where its job handed it.** -/
theorem JobStep.records (hstep : JobStep ulids accepted jobs jobs') :
    ContextLayer.records jobs' = ContextLayer.records jobs + accepted := by
  unfold ContextLayer.records
  cases hstep with
  | @insert rest row t hqueued _ _ _ htriggers hnew =>
      have hrow : row.records = {t} := by
        rw [JobRow.records_of_ne (by rw [hqueued]; decide), htriggers, List.map_singleton,
          Trigger.strip_of_new hnew]
        rfl
      rw [Multiset.cons_bind, hrow, add_comm]
  | @merge rest row row' t _ hqueued hqueued' _ htriggers hnew =>
      have hrow : row'.records = row.records + {t} := by
        rw [JobRow.records_of_ne (by rw [hqueued']; decide),
          JobRow.records_of_ne (by rw [hqueued]; decide), htriggers, List.map_append,
          List.map_singleton, Trigger.strip_of_new hnew]
        rfl
      rw [Multiset.cons_bind, Multiset.cons_bind, hrow, add_right_comm]
  | change _ htriggers hrow =>
      rw [Multiset.cons_bind, Multiset.cons_bind, hrow.records htriggers, add_zero]
  | @absorb rest row row' follower _ hlive hfollower _ hqueued _ htriggers =>
      have hrow : row'.records = row.records + follower.records := by
        rw [JobRow.records_of_ne (by rw [hqueued]; decide),
          JobRow.records_of_ne (JobState.ne_coalesced_of_live hlive.1),
          JobRow.records_of_ne (by rw [hfollower.1]; decide), htriggers, List.map_append,
          map_strip_marked]
        rfl
      rw [Multiset.cons_bind, Multiset.cons_bind, Multiset.cons_bind, hrow, add_zero, ← add_assoc,
        add_comm row.records]
  | @coalesce rest row row' survivor survivor' _ _ hlive hsurvivor hstate _ _ hqueued _ _ htriggers =>
      have hrow' : row'.records = 0 := if_pos hstate
      have hrow : survivor'.records = survivor.records + row.records := by
        rw [JobRow.records_of_ne (by rw [hqueued]; decide),
          JobRow.records_of_ne (JobState.ne_coalesced_of_live hlive.1),
          JobRow.records_of_ne (by rw [hsurvivor.1]; decide), htriggers, List.map_append,
          map_strip_marked]
        rfl
      rw [Multiset.cons_bind, Multiset.cons_bind, Multiset.cons_bind, Multiset.cons_bind, hrow,
        hrow', add_zero, zero_add, add_assoc]

theorem JobRun.records (hrun : JobRun ulids accepted jobs jobs') :
    ContextLayer.records jobs' = ContextLayer.records jobs + accepted := by
  induction hrun with
  | refl _ => rw [add_zero]
  | step _ hstep ih => rw [hstep.records, ih, add_assoc]

/-- A record belongs to a job whose triggers hold it, marked or not. -/
theorem exists_trigger_of_mem_records {t : Trigger} (h : t ∈ records jobs) :
    ∃ r ∈ jobs, ∃ t' ∈ r.triggers, t'.strip = t := by
  obtain ⟨r, hr, ht⟩ := Multiset.mem_bind.mp h
  refine ⟨r, hr, ?_⟩
  unfold JobRow.records at ht
  split at ht
  · cases Multiset.notMem_zero t ht
  · obtain ⟨t', ht', rfl⟩ := List.mem_map.mp (Multiset.mem_coe.mp ht)
    exact ⟨t', ht', rfl⟩

/-! ### Ends -/

/-- A job that has ended stays as it ended. -/
def EndsKept (jobs jobs' : Multiset JobRow) : Prop :=
  ∀ r ∈ jobs, r.state.terminal = true →
    ∃ r' ∈ jobs', SameJob r r' ∧ r'.state = r.state ∧ r'.resultMeta = r.resultMeta

theorem SameJob.refl (r : JobRow) : SameJob r r := ⟨rfl, rfl, rfl⟩

theorem SameJob.trans {r r' r'' : JobRow} (h : SameJob r r') (h' : SameJob r' r'') : SameJob r r'' :=
  ⟨h'.jobId.trans h.jobId, h'.jobClass.trans h.jobClass, h'.key.trans h.key⟩

theorem JobState.not_terminal_of_live {state : JobState} (h : state.live = true) :
    state.terminal ≠ true := by
  intro hterminal
  exact Bool.false_ne_true ((JobState.live_of_terminal hterminal).symm.trans h)

/-- The rules leave a job that has ended alone altogether. -/
def EndsStay (jobs jobs' : Multiset JobRow) : Prop :=
  ∀ r ∈ jobs, r.state.terminal = true →
    ∃ r' ∈ jobs', Keeps r r' ∧ r'.state = r.state ∧ r'.resultMeta = r.resultMeta

theorem JobStep.endsStay (hstep : JobStep ulids accepted jobs jobs') : EndsStay jobs jobs' := by
  have hsame : ∀ {r : JobRow}, r ∈ jobs' →
      ∃ r' ∈ jobs', Keeps r r' ∧ r'.state = r.state ∧ r'.resultMeta = r.resultMeta :=
    fun {r} hr => ⟨r, hr, ⟨.refl r, rfl⟩, rfl, rfl⟩
  have hnot_queued : ∀ {r : JobRow}, r.state = .queued → r.state.terminal ≠ true := by
    intro r hqueued
    rw [hqueued]
    decide
  intro r hr hterminal
  cases hstep with
  | insert => exact hsame (Multiset.mem_cons_of_mem hr)
  | merge _ hqueued =>
      rcases Multiset.mem_cons.mp hr with rfl | hr
      · exact absurd hterminal (hnot_queued hqueued)
      · exact hsame (Multiset.mem_cons_of_mem hr)
  | @change rest row row' hjob _ hrow =>
      rcases Multiset.mem_cons.mp hr with rfl | hr
      · cases hrow with
        | claim _ _ hqueued => exact absurd hterminal (hnot_queued hqueued)
        | work hlive => exact absurd hterminal (JobState.not_terminal_of_live hlive)
        | requeue hlive => exact absurd hterminal (JobState.not_terminal_of_live hlive)
        | finish hrow =>
            rcases hrow with hqueued | hlive
            · exact absurd hterminal (hnot_queued hqueued)
            · exact absurd hterminal (JobState.not_terminal_of_live hlive)
        | annotate hstate _ hmeta =>
            exact ⟨row', Multiset.mem_cons_self row' rest, hjob, hstate, hmeta⟩
      · exact hsame (Multiset.mem_cons_of_mem hr)
  | absorb _ hlive hfollower =>
      rcases Multiset.mem_cons.mp hr with rfl | hr
      · exact absurd hterminal (hnot_queued hfollower.1)
      rcases Multiset.mem_cons.mp hr with rfl | hr
      · exact absurd hterminal (JobState.not_terminal_of_live hlive.1)
      · exact hsame (Multiset.mem_cons_of_mem hr)
  | coalesce _ _ hlive hsurvivor =>
      rcases Multiset.mem_cons.mp hr with rfl | hr
      · exact absurd hterminal (hnot_queued hsurvivor.1)
      rcases Multiset.mem_cons.mp hr with rfl | hr
      · exact absurd hterminal (JobState.not_terminal_of_live hlive.1)
      · exact hsame (Multiset.mem_cons_of_mem (Multiset.mem_cons_of_mem hr))

theorem EndsKept.refl (jobs : Multiset JobRow) : EndsKept jobs jobs :=
  fun r hr _ => ⟨r, hr, .refl r, rfl, rfl⟩

theorem EndsKept.trans {jobs'' : Multiset JobRow} (h : EndsKept jobs jobs')
    (h' : EndsKept jobs' jobs'') : EndsKept jobs jobs'' := by
  intro r hr hterminal
  obtain ⟨r', hr', hjob, hstate, hmeta⟩ := h r hr hterminal
  obtain ⟨r'', hr'', hjob', hstate', hmeta'⟩ := h' r' hr' (hstate ▸ hterminal)
  exact ⟨r'', hr'', hjob.trans hjob', hstate'.trans hstate, hmeta'.trans hmeta⟩

theorem JobRun.endsStay (hrun : JobRun ulids accepted jobs jobs') : EndsStay jobs jobs' := by
  induction hrun with
  | refl jobs => exact fun r hr _ => ⟨r, hr, ⟨.refl r, rfl⟩, rfl, rfl⟩
  | step _ hstep ih =>
      intro r hr hterminal
      obtain ⟨r', hr', hkeeps, hstate, hmeta⟩ := ih r hr hterminal
      obtain ⟨r'', hr'', hkeeps', hstate', hmeta'⟩ := hstep.endsStay r' hr' (hstate ▸ hterminal)
      refine ⟨r'', hr'', ⟨hkeeps.toSameJob.trans hkeeps'.toSameJob, ?_⟩, hstate'.trans hstate, hmeta'.trans hmeta⟩
      exact hkeeps'.pointer.trans hkeeps.pointer

theorem JobRun.endsKept (hrun : JobRun ulids accepted jobs jobs') : EndsKept jobs jobs' := by
  intro r hr hterminal
  obtain ⟨r', hr', hkeeps, hends⟩ := hrun.endsStay r hr hterminal
  exact ⟨r', hr', hkeeps.toSameJob, hends⟩

/-! ### Ids -/

/-- No trigger came from another job. -/
def JobRow.Clean (r : JobRow) : Prop := ∀ t ∈ r.triggers, t.mergedFrom = none

/-- A job queued behind a live one has not taken over anything yet. -/
structure Marked (jobs : Multiset JobRow) : Prop where
  nonempty : ∀ r ∈ jobs, r.triggers ≠ []
  clean : ∀ r ∈ jobs, ∀ q ∈ jobs, ∀ key, r.LiveBatch key → q.QueuedBatch key → q.Clean

theorem JobRow.LiveBatch.not_queued {r : JobRow} {key key' : Text × Text} (h : r.LiveBatch key) :
    ¬ r.QueuedBatch key' := by
  intro hqueued
  have hlive := h.1
  rw [hqueued.1] at hlive
  cases hlive

namespace Marked

variable {rest : Multiset JobRow} {row row' : JobRow}

theorem zero : Marked 0 where
  nonempty r hr := absurd hr (Multiset.notMem_zero r)
  clean r hr := absurd hr (Multiset.notMem_zero r)

theorem of_cons (h : Marked (row ::ₘ rest)) : Marked rest where
  nonempty r hr := h.nonempty r (Multiset.mem_cons_of_mem hr)
  clean r hr q hq := h.clean r (Multiset.mem_cons_of_mem hr) q (Multiset.mem_cons_of_mem hq)

theorem cons (h : Marked rest) (hne : row.triggers ≠ [])
    (hlive : ∀ q ∈ rest, ∀ key, row.LiveBatch key → q.QueuedBatch key → q.Clean)
    (hqueued : ∀ r ∈ rest, ∀ key, r.LiveBatch key → row.QueuedBatch key → row.Clean) :
    Marked (row ::ₘ rest) where
  nonempty r hr := by
    rcases Multiset.mem_cons.mp hr with rfl | hr
    · exact hne
    · exact h.nonempty r hr
  clean r hr q hq key hrow hq_queued := by
    rcases Multiset.mem_cons.mp hr with hr | hr <;> rcases Multiset.mem_cons.mp hq with hq | hq
    · exact absurd hq_queued (hq ▸ hr ▸ hrow).not_queued
    · exact hlive q hq key (hr ▸ hrow) hq_queued
    · exact hq ▸ hqueued r hr key hrow (hq ▸ hq_queued)
    · exact h.clean r hr q hq key hrow hq_queued

/-- A job that is not in the queue and has no lease says nothing about marks. -/
theorem cons_ended (h : Marked rest) (hne : row.triggers ≠ []) (hlive : row.state.live = false)
    (hqueued : row.state ≠ .queued) : Marked (row ::ₘ rest) := by
  apply h.cons hne
  · intro q _ key hbatch
    exact absurd (hlive.symm.trans hbatch.1) Bool.false_ne_true
  · intro r _ key _ hbatch
    exact absurd hbatch.1 hqueued

/-- A job may be queued where none of its key is live. -/
theorem cons_queued (h : Marked rest) (hne : row.triggers ≠ []) (hqueued : row.state = .queued)
    (hidle : ∀ r ∈ rest, ¬ r.LiveBatch row.dedupeKey) : Marked (row ::ₘ rest) := by
  apply h.cons hne
  · intro q _ key hbatch
    exact absurd ⟨hqueued, hbatch.2⟩ hbatch.not_queued
  · intro r hr key hlive hbatch
    exact absurd (hbatch.2.2 ▸ hlive) (hidle r hr)

theorem change (h : Marked (row ::ₘ rest)) (hE : Exclusive (row ::ₘ rest))
    (hsame : SameJob row row') (htriggers : row'.triggers = row.triggers) {ulids : List Text}
    (hstep : RowStep ulids rest row row') : Marked (row' ::ₘ rest) := by
  have hself := Multiset.mem_cons_self row rest
  have hne : row'.triggers ≠ [] := htriggers ▸ h.nonempty row hself
  cases hstep with
  | claim _ _ hqueued _ _ hlive _ =>
      apply h.of_cons.cons hne
      · rintro q hq key ⟨_, hbatch, hkey⟩ hq_queued
        have hrow : row.QueuedBatch key := ⟨hqueued, hsame.jobClass ▸ hbatch, hsame.key ▸ hkey⟩
        exact absurd hq_queued (alone (hE.queued key) hrow q hq)
      · intro r _ key _ hrow_queued
        rw [hrow_queued.1] at hlive
        cases hlive
  | work hlive hlive' _ =>
      apply h.of_cons.cons hne
      · rintro q hq key ⟨_, hbatch, hkey⟩ hq_queued
        exact h.clean row hself q (Multiset.mem_cons_of_mem hq) key
          ⟨hlive, hsame.jobClass ▸ hbatch, hsame.key ▸ hkey⟩ hq_queued
      · intro r _ key _ hrow_queued
        rw [hrow_queued.1] at hlive'
        cases hlive'
  | requeue hlive hqueued _ _ =>
      apply h.of_cons.cons hne
      · intro q _ key hbatch
        exact absurd ⟨hqueued, hbatch.2⟩ hbatch.not_queued
      · rintro r hr key hr_live ⟨_, hbatch, hkey⟩
        have hrow : row.LiveBatch key := ⟨hlive, hsame.jobClass ▸ hbatch, hsame.key ▸ hkey⟩
        exact absurd hr_live (alone (hE.live key) hrow r hr)
  | finish _ hterminal _ _ =>
      apply h.of_cons.cons_ended hne (JobState.live_of_terminal hterminal)
      intro hqueued
      rw [hqueued] at hterminal
      cases hterminal
  | annotate hstate _ _ =>
      apply h.of_cons.cons hne
      · rintro q hq key ⟨hrow_live, hbatch, hkey⟩ hq_queued
        exact h.clean row hself q (Multiset.mem_cons_of_mem hq) key
          ⟨hstate ▸ hrow_live, hsame.jobClass ▸ hbatch, hsame.key ▸ hkey⟩ hq_queued
      · rintro r hr key hr_live ⟨hrow_queued, hbatch, hkey⟩
        have hclean := h.clean r (Multiset.mem_cons_of_mem hr) row hself key hr_live
          ⟨hstate ▸ hrow_queued, hsame.jobClass ▸ hbatch, hsame.key ▸ hkey⟩
        intro t ht
        exact hclean t (htriggers ▸ ht)

theorem step {jobs' : Multiset JobRow} (hstep : JobStep ulids accepted jobs jobs')
    (hE : Exclusive jobs) (h : Marked jobs) : Marked jobs' := by
  cases hstep with
  | @insert rest row t hqueued _ _ _ htriggers hnew =>
      apply h.cons
      · simp [htriggers]
      · intro q _ key hbatch
        exact absurd ⟨hqueued, hbatch.2⟩ hbatch.not_queued
      · intro r _ key _ _ t' ht'
        obtain rfl : t' = t := by simpa [htriggers] using ht'
        exact hnew
  | @merge rest row row' t hsame hqueued hqueued' _ htriggers hnew =>
      apply h.of_cons.cons
      · simp [htriggers]
      · intro q _ key hbatch
        exact absurd ⟨hqueued', hbatch.2⟩ hbatch.not_queued
      · rintro r hr key hr_live ⟨_, hbatch, hkey⟩ t' ht'
        rw [htriggers] at ht'
        rcases List.mem_append.mp ht' with ht' | ht'
        · exact h.clean r (Multiset.mem_cons_of_mem hr) row (Multiset.mem_cons_self row rest) key
            hr_live ⟨hqueued, hsame.jobClass ▸ hbatch, hsame.key ▸ hkey⟩ t' ht'
        · obtain rfl := List.mem_singleton.mp ht'
          exact hnew
  | change hsame htriggers hrow => exact h.change hE hsame.toSameJob htriggers hrow
  | @absorb rest row row' follower hsame hlive _ _ hqueued _ htriggers =>
      have hrow := h.of_cons.nonempty row (Multiset.mem_cons_self row rest)
      refine h.of_cons.of_cons.cons_queued (by simp [htriggers, hrow]) hqueued ?_
      rw [hsame.key]
      exact alone (hE.of_cons.live row.dedupeKey) hlive
  | @coalesce rest row row' survivor survivor' hsame hsame' hlive hsurvivor hstate _ _ hqueued _
      hkept htriggers =>
      have hrow := h.of_cons.nonempty row (Multiset.mem_cons_self row rest)
      have hsurvivor_ne := h.nonempty survivor (Multiset.mem_cons_self survivor _)
      have hrest : Marked (row' ::ₘ rest) :=
        h.of_cons.of_cons.cons_ended (hkept ▸ hrow) (by rw [hstate]; rfl)
          (by rw [hstate]; decide)
      refine hrest.cons_queued (by simp [htriggers, hsurvivor_ne]) hqueued ?_
      intro r hr
      rw [hsame'.key, hsurvivor.2.2]
      rcases Multiset.mem_cons.mp hr with rfl | hr
      · intro hr_live
        have hlive' := hr_live.1
        rw [hstate] at hlive'
        cases hlive'
      · exact alone (hE.of_cons.live row.dedupeKey) hlive r hr

end Marked

/-- The job is `id`, or it holds triggers that came from `id`. -/
def JobRow.Accounts (r : JobRow) (id : Text) : Prop :=
  r.jobId = id ∨ ∃ t ∈ r.triggers, t.mergedFrom = some id

def Accounted (jobs : Multiset JobRow) (id : Text) : Prop := ∃ r ∈ jobs, r.Accounts id

theorem JobRow.Accounts.mono {r r' : JobRow} {id : Text} (h : r.Accounts id)
    (hid : r'.jobId = r.jobId) (htriggers : ∀ t ∈ r.triggers, t ∈ r'.triggers) : r'.Accounts id := by
  rcases h with h | ⟨t, ht, hmark⟩
  · exact Or.inl (hid.trans h)
  · exact Or.inr ⟨t, htriggers t ht, hmark⟩

theorem Accounted.of_mem {r r' : JobRow} {id : Text} (hr : r' ∈ jobs) (h : r.Accounts id)
    (hid : r'.jobId = r.jobId) (htriggers : ∀ t ∈ r.triggers, t ∈ r'.triggers) :
    Accounted jobs id :=
  ⟨r', hr, h.mono hid htriggers⟩

/-- **An id is a job's, or marks the triggers of the job that absorbed it.** -/
theorem JobStep.accounted (hstep : JobStep ulids accepted jobs jobs') (hM : Marked jobs) {id : Text}
    (h : Accounted jobs id) : Accounted jobs' id := by
  obtain ⟨r, hr, hid⟩ := h
  cases hstep with
  | insert => exact ⟨r, Multiset.mem_cons_of_mem hr, hid⟩
  | @merge rest row row' t hsame _ _ _ htriggers _ =>
      rcases Multiset.mem_cons.mp hr with rfl | hr
      · refine Accounted.of_mem (Multiset.mem_cons_self row' rest) hid hsame.jobId ?_
        intro t' ht'
        exact htriggers ▸ List.mem_append_left _ ht'
      · exact ⟨r, Multiset.mem_cons_of_mem hr, hid⟩
  | @change rest row row' hsame htriggers _ =>
      rcases Multiset.mem_cons.mp hr with rfl | hr
      · exact Accounted.of_mem (Multiset.mem_cons_self row' rest) hid hsame.jobId
          fun t ht => htriggers ▸ ht
      · exact ⟨r, Multiset.mem_cons_of_mem hr, hid⟩
  | @absorb rest row row' follower hsame hlive hfollower _ _ _ htriggers =>
      have hself : row ∈ follower ::ₘ row ::ₘ rest :=
        Multiset.mem_cons_of_mem (Multiset.mem_cons_self row rest)
      rcases Multiset.mem_cons.mp hr with rfl | hr
      · -- The follower's own id becomes the mark; it holds no marks that could be overwritten.
        have hclean := hM.clean row hself r hr row.dedupeKey hlive hfollower
        rcases hid with rfl | ⟨t, ht, hmark⟩
        · obtain ⟨t, ht⟩ := List.exists_mem_of_ne_nil _ (hM.nonempty r hr)
          refine ⟨row', Multiset.mem_cons_self row' rest, Or.inr ⟨t.mark r.jobId, ?_, rfl⟩⟩
          rw [htriggers]
          exact List.mem_append_right _ (List.mem_map_of_mem ht)
        · cases (hclean t ht).symm.trans hmark
      rcases Multiset.mem_cons.mp hr with rfl | hr
      · refine Accounted.of_mem (Multiset.mem_cons_self row' rest) hid hsame.jobId ?_
        intro t ht
        exact htriggers ▸ List.mem_append_left _ ht
      · exact ⟨r, Multiset.mem_cons_of_mem hr, hid⟩
  | @coalesce rest row row' survivor survivor' hsame hsame' _ _ _ _ _ _ _ hkept htriggers =>
      rcases Multiset.mem_cons.mp hr with rfl | hr
      · refine Accounted.of_mem (Multiset.mem_cons_self survivor' _) hid hsame'.jobId ?_
        intro t ht
        exact htriggers ▸ List.mem_append_left _ ht
      rcases Multiset.mem_cons.mp hr with rfl | hr
      · exact Accounted.of_mem (Multiset.mem_cons_of_mem (Multiset.mem_cons_self row' rest)) hid
          hsame.jobId fun t ht => hkept ▸ ht
      · exact ⟨r, Multiset.mem_cons_of_mem (Multiset.mem_cons_of_mem hr), hid⟩

theorem JobRun.accounted (hrun : JobRun ulids accepted jobs jobs') (hE : Exclusive jobs)
    (hM : Marked jobs) :
    Exclusive jobs' ∧ Marked jobs' ∧ ∀ id, Accounted jobs id → Accounted jobs' id := by
  induction hrun with
  | refl _ => exact ⟨hE, hM, fun _ h => h⟩
  | step _ hstep ih =>
      obtain ⟨hE', hM', hids⟩ := ih hE hM
      exact ⟨.step hstep hE', .step hstep hE' hM', fun id h => hstep.accounted hM' (hids id h)⟩

theorem Keeps.refl (r : JobRow) : Keeps r r := ⟨.refl r, rfl⟩

/-- A job is new, with a trigger of its own, or was there before. -/
theorem JobStep.origin (hstep : JobStep ulids accepted jobs jobs') {r' : JobRow} (hr' : r' ∈ jobs') :
    (accepted ≠ 0 ∧ r'.reenqueuedAs = none) ∨ ∃ r ∈ jobs, Keeps r r' := by
  have hkept : ∀ {rest : Multiset JobRow} {row row' : JobRow}, Keeps row row' →
      r' ∈ row' ::ₘ rest → ∃ r ∈ row ::ₘ rest, Keeps r r' := by
    intro rest row row' hkeeps hmem
    rcases Multiset.mem_cons.mp hmem with rfl | hmem
    · exact ⟨row, Multiset.mem_cons_self row rest, hkeeps⟩
    · exact ⟨r', Multiset.mem_cons_of_mem hmem, .refl r'⟩
  cases hstep with
  | insert _ _ hpointer =>
      rcases Multiset.mem_cons.mp hr' with rfl | hr'
      · exact Or.inl ⟨Multiset.singleton_ne_zero _, hpointer⟩
      · exact Or.inr ⟨r', hr', .refl r'⟩
  | merge hsame => exact Or.inr (hkept hsame hr')
  | change hsame => exact Or.inr (hkept hsame hr')
  | absorb hsame =>
      obtain ⟨r, hr, hkeeps⟩ := hkept hsame hr'
      exact Or.inr ⟨r, Multiset.mem_cons_of_mem hr, hkeeps⟩
  | @coalesce rest row row' survivor survivor' hsame hsame' =>
      rcases Multiset.mem_cons.mp hr' with rfl | hr'
      · exact Or.inr ⟨survivor, Multiset.mem_cons_self survivor _, hsame'⟩
      · obtain ⟨r, hr, hkeeps⟩ := hkept hsame hr'
        exact Or.inr ⟨r, Multiset.mem_cons_of_mem hr, hkeeps⟩

/-- No rule points a job at its replacement. -/
theorem JobRun.pointer (hrun : JobRun ulids accepted jobs jobs') {r' : JobRow} (hr' : r' ∈ jobs')
    {id : Text} (hpointer : r'.reenqueuedAs = some id) : ∃ r ∈ jobs, r.reenqueuedAs = some id := by
  induction hrun generalizing r' with
  | refl _ => exact ⟨r', hr', hpointer⟩
  | step _ hstep ih =>
      rcases hstep.origin hr' with ⟨-, hnone⟩ | ⟨r, hr, hkeeps⟩
      · cases hnone.symm.trans hpointer
      · exact ih hr (hkeeps.pointer.symm.trans hpointer)

/-- Without a new trigger no job is new. -/
theorem JobRun.origin (hrun : JobRun ulids accepted jobs jobs') (hnone : accepted = 0) {r' : JobRow}
    (hr' : r' ∈ jobs') : ∃ r ∈ jobs, Keeps r r' := by
  induction hrun generalizing r' with
  | refl _ => exact ⟨r', hr', .refl r'⟩
  | step _ hstep ih =>
      obtain ⟨hnone₁, hnone₂⟩ := add_eq_zero.mp hnone
      rcases hstep.origin hr' with ⟨hne, -⟩ | ⟨r₁, hr₁, hkeeps₁⟩
      · exact absurd hnone₂ hne
      · obtain ⟨r, hr, hkeeps⟩ := ih hnone₁ hr₁
        exact ⟨r, hr, hkeeps.toSameJob.trans hkeeps₁.toSameJob, hkeeps₁.pointer.trans hkeeps.pointer⟩

/-! ### Waiting and running -/

def JobRow.Active (r : JobRow) : Prop := r.state = .queued ∨ r.state.live = true

theorem JobRow.not_active_of_terminal {r : JobRow} (h : r.state.terminal = true) : ¬ r.Active := by
  rintro (hqueued | hlive)
  · rw [hqueued] at h
    cases h
  · exact JobState.not_terminal_of_live hlive h

/-- Without a new trigger, a job that waits or runs did so before. -/
theorem JobStep.active (hstep : JobStep ulids accepted jobs jobs') (hnone : accepted = 0)
    {r' : JobRow} (hr' : r' ∈ jobs') (hactive : r'.Active) :
    ∃ r ∈ jobs, SameJob r r' ∧ r.Active := by
  cases hstep with
  | insert => cases Multiset.singleton_ne_zero _ hnone
  | merge => cases Multiset.singleton_ne_zero _ hnone
  | @change rest row row' hsame _ hrow =>
      rcases Multiset.mem_cons.mp hr' with rfl | hr'
      · refine ⟨row, Multiset.mem_cons_self row rest, hsame.toSameJob, ?_⟩
        cases hrow with
        | claim _ _ hqueued => exact Or.inl hqueued
        | work hlive => exact Or.inr hlive
        | requeue hlive => exact Or.inr hlive
        | finish hrow => exact hrow
        | annotate hstate =>
            unfold JobRow.Active at hactive
            rwa [hstate] at hactive
      · exact ⟨r', Multiset.mem_cons_of_mem hr', .refl r', hactive⟩
  | @absorb rest row row' follower hsame hlive =>
      rcases Multiset.mem_cons.mp hr' with rfl | hr'
      · exact ⟨row, Multiset.mem_cons_of_mem (Multiset.mem_cons_self row rest), hsame.toSameJob,
          Or.inr hlive.1⟩
      · exact ⟨r', Multiset.mem_cons_of_mem (Multiset.mem_cons_of_mem hr'), .refl r', hactive⟩
  | @coalesce rest row row' survivor survivor' _ hsame' _ hsurvivor hstate =>
      rcases Multiset.mem_cons.mp hr' with rfl | hr'
      · exact ⟨survivor, Multiset.mem_cons_self survivor _, hsame'.toSameJob, Or.inl hsurvivor.1⟩
      rcases Multiset.mem_cons.mp hr' with rfl | hr'
      · exact absurd hactive (JobRow.not_active_of_terminal (by rw [hstate]; rfl))
      · exact ⟨r', Multiset.mem_cons_of_mem (Multiset.mem_cons_of_mem hr'), .refl r', hactive⟩

theorem JobRun.active (hrun : JobRun ulids accepted jobs jobs') (hnone : accepted = 0)
    {r' : JobRow} (hr' : r' ∈ jobs') (hactive : r'.Active) :
    ∃ r ∈ jobs, SameJob r r' ∧ r.Active := by
  induction hrun generalizing r' with
  | refl _ => exact ⟨r', hr', .refl r', hactive⟩
  | step _ hstep ih =>
      obtain ⟨hnone₁, hnone₂⟩ := add_eq_zero.mp hnone
      obtain ⟨r₁, hr₁, hsame₁, hactive₁⟩ := hstep.active hnone₂ hr' hactive
      obtain ⟨r, hr, hsame, hactive⟩ := ih hnone₁ hr₁ hactive₁
      exact ⟨r, hr, hsame.trans hsame₁, hactive⟩

end ContextLayer
