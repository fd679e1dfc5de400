import Mathlib.Data.List.Induction

/-!
# Guarded machines

A machine takes events, each only where it may happen. Its reachable states are those some sequence
of events leads to; a property of all of them is proved one step at a time, and so is that every one
of them stands for a reachable state of another machine.
-/

structure Machine (State Event : Type) where
  start : State
  May : State → Event → Prop
  next : State → Event → State

namespace Machine

variable {State Event State' Event' : Type}

inductive Reachable (M : Machine State Event) : State → Prop where
  | start : Reachable M M.start
  | step {s : State} (e : Event) : Reachable M s → M.May s e → Reachable M (M.next s e)

/-- The machine when only allowed events happen. -/
def restrict (M : Machine State Event) (Allowed : State → Event → Prop) : Machine State Event :=
  { M with May := fun s e => M.May s e ∧ Allowed s e }

variable {M : Machine State Event} {N : Machine State' Event'} {s : State}
  {Allowed : State → Event → Prop}

theorem Reachable.of_restrict (h : (M.restrict Allowed).Reachable s) : M.Reachable s := by
  induction h with
  | start => exact .start
  | step e _ hmay ih => exact .step e ih hmay.1

/-- A property that holds at the start and that every step keeps. -/
theorem Reachable.invariant {I : State → Prop} (hstart : I M.start)
    (hstep : ∀ s e, M.Reachable s → M.May s e → I s → I (M.next s e)) (h : M.Reachable s) : I s := by
  induction h with
  | start => exact hstart
  | step e hs hmay ih => exact hstep _ e hs hmay ih

/-- **Refinement.** Where every step of `M` takes what a state stands for to a reachable state of
`N`, whatever a reachable state of `M` stands for is reachable. -/
theorem Reachable.refines {f : State → State'} (hstart : f M.start = N.start)
    (hstep : ∀ s e, M.Reachable s → M.May s e → N.Reachable (f s) → N.Reachable (f (M.next s e)))
    (h : M.Reachable s) : N.Reachable (f s) :=
  h.invariant (I := fun s => N.Reachable (f s)) (hstart ▸ .start) hstep

/-- A machine whose step says itself where it may not happen. -/
def ofStep (start : State) (step? : State → Event → Option State) : Machine State Event where
  start := start
  May s e := (step? s e).isSome = true
  next s e := (step? s e).getD s

instance (start : State) (step? : State → Event → Option State) :
    DecidableRel (ofStep start step?).May :=
  fun s e => inferInstanceAs (Decidable ((step? s e).isSome = true))

theorem Reachable.invariant_ofStep {start : State} {step? : State → Event → Option State}
    {I : State → Prop} (hstart : I start) (hstep : ∀ s e s', step? s e = some s' → I s → I s')
    (h : (ofStep start step?).Reachable s) : I s := by
  refine h.invariant hstart ?_
  intro s e _ hmay hI
  obtain ⟨s', hs'⟩ := Option.isSome_iff_exists.mp hmay
  have hnext : (ofStep start step?).next s e = s' := by
    change (step? s e).getD s = s'
    rw [hs', Option.getD_some]
  rw [hnext]
  exact hstep s e s' hs' hI

section

variable (M)

/-- The events in a row, without those that may not happen where they come. -/
def run [DecidableRel M.May] (es : List Event) : State :=
  es.foldl (fun s e => if M.May s e then M.next s e else s) M.start

theorem reachable_run [DecidableRel M.May] (es : List Event) : M.Reachable (M.run es) := by
  unfold run
  induction es using List.reverseRecOn with
  | nil => exact .start
  | append_singleton es e ih =>
      rw [List.foldl_append, List.foldl_cons, List.foldl_nil]
      by_cases hmay : M.May (es.foldl (fun s e => if M.May s e then M.next s e else s) M.start) e
      · rw [if_pos hmay]
        exact .step e ih hmay
      · rw [if_neg hmay]
        exact ih

instance [h : DecidableRel M.May] [h' : DecidableRel Allowed] :
    DecidableRel (M.restrict Allowed).May :=
  fun s e => inferInstanceAs (Decidable (M.May s e ∧ Allowed s e))

end

end Machine
