import Mathlib.Data.Multiset.Bind
import Mathlib.Data.Multiset.Count
import ContextLayer.Jobs

/-!
# The life of a job

The queue without its statements: a bag of jobs rewritten one or two at a time. A job is inserted
queued, claimed under a fresh token, and goes back to the queue or to an end; two rules move one
job's triggers into another, `absorb` and `coalesce`. What a run keeps is proved here once, over
the rules. Every operation of the queue is a run of them.
-/

namespace ContextLayer

open Text

/-- What no transition changes: which job this is. -/
structure SameJob (row row' : JobRow) : Prop where
  jobId : row'.jobId = row.jobId
  jobClass : row'.jobClass = row.jobClass
  key : row'.dedupeKey = row.dedupeKey

/-- What only an operator's re-enqueue changes besides. -/
structure Keeps (row row' : JobRow) : Prop extends SameJob row row' where
  pointer : row'.reenqueuedAs = row.reenqueuedAs

/-- No batch job is queued under the key. -/
def Free (key : Text × Text) (jobs : Multiset JobRow) : Prop := ∀ r ∈ jobs, ¬ r.QueuedBatch key

/-- A transition of one job among the `others`, its triggers untouched. The token of a claim is one
of the fresh `ulids`. -/
inductive RowStep (ulids : List Text) (others : Multiset JobRow) (row row' : JobRow) : Prop where
  | claim (token : Text) (htoken : token ∈ ulids) (hqueued : row.state = .queued)
      (hfresh : ∀ r ∈ others, r.leaseToken ≠ some token)
      (hidle : ∀ r ∈ others, ¬ r.LiveBatch row.dedupeKey) (hlive : row'.state.live = true)
      (hgranted : row'.leaseToken = some token)
  | work (hlive : row.state.live = true) (hlive' : row'.state.live = true)
      (htoken : row'.leaseToken = row.leaseToken)
  | requeue (hlive : row.state.live = true) (hqueued : row'.state = .queued)
      (htoken : row'.leaseToken = none) (hfree : row.jobClass = .batch → Free row.dedupeKey others)
  | finish (hrow : row.state = .queued ∨ row.state.live = true)
      (hterminal : row'.state.terminal = true) (hend : row'.state ≠ .coalesced)
      (htoken : row'.leaseToken = none)
      (hserved : row'.state ≠ .cancelled → row.state.live = true)
  | annotate (hstate : row'.state = row.state) (htoken : row'.leaseToken = row.leaseToken)
      (hmeta : row'.resultMeta = row.resultMeta)

/-- One rule, with the triggers it accepts from a caller. -/
inductive JobStep (ulids : List Text) :
    Multiset Trigger → Multiset JobRow → Multiset JobRow → Prop where
  | insert {rest : Multiset JobRow} {row : JobRow} {t : Trigger} (hqueued : row.state = .queued)
      (htoken : row.leaseToken = none) (hpointer : row.reenqueuedAs = none)
      (hfree : row.jobClass = .batch → Free row.dedupeKey rest)
      (htriggers : row.triggers = [t]) (hnew : t.mergedFrom = none) :
      JobStep ulids {t} rest (row ::ₘ rest)
  | merge {rest : Multiset JobRow} {row row' : JobRow} {t : Trigger} (hsame : Keeps row row')
      (hqueued : row.state = .queued) (hqueued' : row'.state = .queued)
      (htoken : row'.leaseToken = row.leaseToken) (htriggers : row'.triggers = row.triggers ++ [t])
      (hnew : t.mergedFrom = none) : JobStep ulids {t} (row ::ₘ rest) (row' ::ₘ rest)
  | change {rest : Multiset JobRow} {row row' : JobRow} (hsame : Keeps row row')
      (htriggers : row'.triggers = row.triggers) (hstep : RowStep ulids rest row row') :
      JobStep ulids 0 (row ::ₘ rest) (row' ::ₘ rest)
  /-- `row` goes back to the queue and takes over the work of its follower. -/
  | absorb {rest : Multiset JobRow} {row row' follower : JobRow} (hsame : Keeps row row')
      (hlive : row.LiveBatch row.dedupeKey) (hfollower : follower.QueuedBatch row.dedupeKey)
      (hfree : Free row.dedupeKey rest)
      (hqueued : row'.state = .queued) (htoken : row'.leaseToken = none)
      (htriggers : row'.triggers =
        row.triggers ++ follower.triggers.map (Trigger.mark follower.jobId)) :
      JobStep ulids 0 (follower ::ₘ row ::ₘ rest) (row' ::ₘ rest)
  /-- `row` ends and hands its work to the job queued behind it. -/
  | coalesce {rest : Multiset JobRow} {row row' survivor survivor' : JobRow}
      (hsame : Keeps row row') (hsame' : Keeps survivor survivor')
      (hlive : row.LiveBatch row.dedupeKey) (hsurvivor : survivor.QueuedBatch row.dedupeKey)
      (hstate : row'.state = .coalesced) (htoken : row'.leaseToken = none)
      (hinto : (row'.resultMeta.bind ResultMeta.coalescedInto) = some survivor.jobId)
      (hqueued : survivor'.state = .queued) (htoken' : survivor'.leaseToken = survivor.leaseToken)
      (hkept : row'.triggers = row.triggers)
      (htriggers : survivor'.triggers =
        survivor.triggers ++ row.triggers.map (Trigger.mark row.jobId)) :
      JobStep ulids 0 (survivor ::ₘ row ::ₘ rest) (survivor' ::ₘ row' ::ₘ rest)

/-- Rules one after the other. -/
inductive JobRun (ulids : List Text) :
    Multiset Trigger → Multiset JobRow → Multiset JobRow → Prop where
  | refl (jobs : Multiset JobRow) : JobRun ulids 0 jobs jobs
  | step {accepted accepted' : Multiset Trigger} {jobs jobs' jobs'' : Multiset JobRow} :
      JobRun ulids accepted jobs jobs' → JobStep ulids accepted' jobs' jobs'' →
      JobRun ulids (accepted + accepted') jobs jobs''

namespace JobRun

variable {ulids : List Text} {accepted accepted' : Multiset Trigger}
  {jobs jobs' jobs'' : Multiset JobRow}

theorem single (h : JobStep ulids accepted jobs jobs') : JobRun ulids accepted jobs jobs' := by
  have hrun := JobRun.step (.refl jobs) h
  rwa [zero_add] at hrun

theorem trans (h : JobRun ulids accepted jobs jobs') (h' : JobRun ulids accepted' jobs' jobs'') :
    JobRun ulids (accepted + accepted') jobs jobs'' := by
  induction h' with
  | refl _ => rwa [add_zero]
  | step _ hstep ih =>
      rw [← add_assoc]
      exact .step (ih h) hstep

/-- **The invariant rule.** What every rule keeps, every run keeps. -/
theorem invariant {I : Multiset JobRow → Prop}
    (hstep : ∀ {accepted jobs jobs'}, JobStep ulids accepted jobs jobs' → I jobs → I jobs')
    (h : JobRun ulids accepted jobs jobs') (hI : I jobs) : I jobs' := by
  induction h with
  | refl _ => exact hI
  | step _ h ih => exact hstep h (ih hI)

end JobRun

/-! ### Exclusivity -/

def HoldsToken (token : Text) (r : JobRow) : Prop := r.leaseToken = some token

instance (token : Text) : DecidablePred (HoldsToken token) := by
  intro r
  unfold HoldsToken
  infer_instance

/-- At most one batch job queued for a key and at most one live, and a token of its own for each
live job and for no other. -/
structure Exclusive (jobs : Multiset JobRow) : Prop where
  queued : ∀ key, jobs.countP (JobRow.QueuedBatch key) ≤ 1
  live : ∀ key, jobs.countP (JobRow.LiveBatch key) ≤ 1
  token_iff : ∀ r ∈ jobs, r.leaseToken.isSome = r.state.live
  tokens : ∀ token, jobs.countP (HoldsToken token) ≤ 1

section

variable {rest : Multiset JobRow} {row row' : JobRow} {p : JobRow → Prop} [DecidablePred p]

theorem countP_le_one_of_cons (h : (row ::ₘ rest).countP p ≤ 1) : rest.countP p ≤ 1 :=
  (Multiset.countP_le_of_le p (Multiset.le_cons_self rest row)).trans h

/-- The only one of its kind. -/
theorem alone (h : (row ::ₘ rest).countP p ≤ 1) (hrow : p row) : ∀ r ∈ rest, ¬ p r := by
  rw [Multiset.countP_cons_of_pos rest hrow] at h
  exact Multiset.countP_eq_zero.mp (by omega)

theorem countP_le_one_cons (h : rest.countP p ≤ 1) (hrow : p row → ∀ r ∈ rest, ¬ p r) :
    (row ::ₘ rest).countP p ≤ 1 := by
  by_cases hp : p row
  · rw [Multiset.countP_cons_of_pos rest hp, Multiset.countP_eq_zero.mpr (hrow hp)]
  · rwa [Multiset.countP_cons_of_neg rest hp]

end

theorem JobState.live_of_terminal {state : JobState} (h : state.terminal = true) :
    state.live = false := by
  cases state <;> first | rfl | cases h

namespace Exclusive

variable {rest : Multiset JobRow} {row row' : JobRow}

theorem zero : Exclusive 0 where
  queued key := by simp
  live key := by simp
  token_iff r hr := absurd hr (Multiset.notMem_zero r)
  tokens token := by simp

theorem of_cons (h : Exclusive (row ::ₘ rest)) : Exclusive rest where
  queued key := countP_le_one_of_cons (h.queued key)
  live key := countP_le_one_of_cons (h.live key)
  token_iff r hr := h.token_iff r (Multiset.mem_cons_of_mem hr)
  tokens token := countP_le_one_of_cons (h.tokens token)

/-- A job without a lease excludes nothing but another queued job. -/
theorem cons_idle (h : Exclusive rest) (hlive : row.state.live = false)
    (htoken : row.leaseToken = none)
    (hfree : row.state = .queued → row.jobClass = .batch → Free row.dedupeKey rest) :
    Exclusive (row ::ₘ rest) where
  queued key := by
    apply countP_le_one_cons (h.queued key)
    rintro ⟨hqueued, hbatch, rfl⟩
    exact hfree hqueued hbatch
  live key := by
    apply countP_le_one_cons (h.live key)
    intro hbatch
    exact absurd (hlive.symm.trans hbatch.1) Bool.false_ne_true
  token_iff r hr := by
    rcases Multiset.mem_cons.mp hr with rfl | hr
    · rw [htoken, hlive]
      rfl
    · exact h.token_iff r hr
  tokens token := by
    apply countP_le_one_cons (h.tokens token)
    intro hholds
    exact absurd (htoken.symm.trans hholds) (by simp)

/-- A job that stays queued, stays live under its token, or stays where it was, excludes what it
excluded. -/
theorem keep (h : Exclusive (row ::ₘ rest)) (hsame : SameJob row row')
    (hqueued : row'.state = .queued → row.state = .queued)
    (hlive : row'.state.live = row.state.live) (htoken : row'.leaseToken = row.leaseToken) :
    Exclusive (row' ::ₘ rest) where
  queued key := by
    apply countP_le_one_cons (countP_le_one_of_cons (h.queued key))
    rintro ⟨hstate, hbatch, hkey⟩
    exact alone (h.queued key) ⟨hqueued hstate, hsame.jobClass ▸ hbatch, hsame.key ▸ hkey⟩
  live key := by
    apply countP_le_one_cons (countP_le_one_of_cons (h.live key))
    rintro ⟨hstate, hbatch, hkey⟩
    exact alone (h.live key) ⟨hlive ▸ hstate, hsame.jobClass ▸ hbatch, hsame.key ▸ hkey⟩
  token_iff r hr := by
    rcases Multiset.mem_cons.mp hr with rfl | hr
    · rw [htoken, hlive]
      exact h.token_iff row (Multiset.mem_cons_self row rest)
    · exact h.token_iff r (Multiset.mem_cons_of_mem hr)
  tokens token := by
    apply countP_le_one_cons (countP_le_one_of_cons (h.tokens token))
    intro hholds
    exact alone (h.tokens token) (htoken.symm.trans hholds)

/-- A lease is granted where its key has none. -/
theorem grant (h : Exclusive rest) (hsame : SameJob row row') {token : Text}
    (hfresh : ∀ r ∈ rest, r.leaseToken ≠ some token)
    (hidle : ∀ r ∈ rest, ¬ r.LiveBatch row.dedupeKey) (hlive : row'.state.live = true)
    (hgranted : row'.leaseToken = some token) : Exclusive (row' ::ₘ rest) where
  queued key := by
    apply countP_le_one_cons (h.queued key)
    intro hqueued
    rw [hqueued.1] at hlive
    cases hlive
  live key := by
    apply countP_le_one_cons (h.live key)
    rintro ⟨_, _, hkey⟩
    obtain rfl : row.dedupeKey = key := hsame.key.symm.trans hkey
    exact hidle
  token_iff r hr := by
    rcases Multiset.mem_cons.mp hr with rfl | hr
    · rw [hgranted, hlive]
      rfl
    · exact h.token_iff r hr
  tokens token' := by
    apply countP_le_one_cons (h.tokens token')
    intro hholds
    obtain rfl : token = token' := Option.some.inj (hgranted.symm.trans hholds)
    exact hfresh

theorem change (h : Exclusive (row ::ₘ rest)) (hsame : SameJob row row') {ulids : List Text}
    (hstep : RowStep ulids rest row row') : Exclusive (row' ::ₘ rest) := by
  cases hstep with
  | claim token _ _ hfresh hidle hlive hgranted =>
      exact h.of_cons.grant hsame hfresh hidle hlive hgranted
  | work hlive hlive' htoken =>
      refine h.keep hsame ?_ (hlive'.trans hlive.symm) htoken
      intro hqueued
      rw [hqueued] at hlive'
      cases hlive'
  | requeue _ hqueued htoken hfree =>
      refine h.of_cons.cons_idle (by rw [hqueued]; rfl) htoken ?_
      intro _ hbatch
      rw [hsame.key]
      exact hfree (hsame.jobClass ▸ hbatch)
  | finish _ hterminal _ htoken =>
      refine h.of_cons.cons_idle (JobState.live_of_terminal hterminal) htoken ?_
      intro hqueued
      rw [hqueued] at hterminal
      cases hterminal
  | annotate hstate htoken _ =>
      exact h.keep hsame (fun hqueued => hstate ▸ hqueued) (by rw [hstate]) htoken

/-- **Exclusivity is kept by every rule.** -/
theorem step {ulids : List Text} {accepted : Multiset Trigger} {jobs jobs' : Multiset JobRow}
    (hstep : JobStep ulids accepted jobs jobs') (h : Exclusive jobs) : Exclusive jobs' := by
  cases hstep with
  | insert hqueued htoken _ hfree =>
      exact h.cons_idle (by rw [hqueued]; rfl) htoken fun _ => hfree
  | merge hsame hqueued hqueued' htoken =>
      exact h.keep hsame.toSameJob (fun _ => hqueued) (by rw [hqueued, hqueued']) htoken
  | change hsame _ hrow => exact h.change hsame.toSameJob hrow
  | absorb hsame _ _ hfree hqueued htoken =>
      refine h.of_cons.of_cons.cons_idle (by rw [hqueued]; rfl) htoken ?_
      intro _ _
      rw [hsame.key]
      exact hfree
  | @coalesce rest row row' survivor survivor' _ hsame' _ hsurvivor hstate htoken _ hqueued htoken' =>
      have hkept : Exclusive (survivor' ::ₘ row ::ₘ rest) :=
        h.keep hsame'.toSameJob (fun _ => hsurvivor.1) (by rw [hqueued, hsurvivor.1]) htoken'
      rw [Multiset.cons_swap] at hkept ⊢
      refine hkept.of_cons.cons_idle (by rw [hstate]; rfl) htoken ?_
      intro hstate'
      rw [hstate] at hstate'
      cases hstate'

end Exclusive

end ContextLayer
