import Mathlib.Data.List.Induction
import ContextLayer.Lib.Transaction

/-!
# Interleaved transactions

Transactions under READ COMMITTED with row locks. Each statement sees what is committed before it
and its own transaction's writes; a row a statement returns or writes stays locked to the end of the
transaction; a statement that needs a row another transaction holds, or an index entry another
transaction is about to write, waits.

Read committed is not serializable: a row that commits between two statements can answer a question
the first one already asked. A transaction is *settled* while no such phantom has arrived, and a
settled transaction can be replayed: what it has done so far is what its program would do alone on
the store as it is now. So a settled transaction commits what it would commit alone.
-/

namespace Transaction

variable {Row Id Rest α : Type} {S : Schema Row Id}

inductive Write (S : Schema Row Id) where
  | update (id : Id) (set : Assignment S)
  | delete (id : Id)

def Write.id : Write S → Id
  | update id _ => id
  | delete id => id

/-- A transaction in progress. -/
structure Session (S : Schema Row Id) (Rest α : Type) where
  /-- Its writes to the table, none of them committed. -/
  writes : List (Write S)
  /-- Its writes to the other tables. -/
  effect : Rest → Rest
  locks : List Id
  /-- The conditions its statements have selected by. -/
  reads : List (Row → Bool)
  prog : Prog S Rest α

def Session.start (prog : Prog S Rest α) : Session S Rest α := ⟨[], id, [], [], prog⟩

section

variable [DecidableEq Id]

def Write.apply : Write S → List Row → List Row
  | update id set => updateRows S id set
  | delete id => deleteRows S id

def applyWrites (writes : List (Write S)) (rows : List Row) : List Row :=
  writes.foldl (fun acc w => w.apply acc) rows

@[simp]
theorem applyWrites_nil (rows : List Row) : applyWrites ([] : List (Write S)) rows = rows := rfl

@[simp]
theorem applyWrites_concat (writes : List (Write S)) (w : Write S) (rows : List Row) :
    applyWrites (writes ++ [w]) rows = w.apply (applyWrites writes rows) := by
  simp [applyWrites]

/-- The table as the transaction's next statement sees it. -/
def Session.view (σ : Session S Rest α) (rows : List Row) : List Row := applyWrites σ.writes rows

def Held (others : List (Session S Rest α)) (id : Id) : Prop := ∃ τ ∈ others, id ∈ τ.locks

instance (others : List (Session S Rest α)) (id : Id) : Decidable (Held others id) := by
  unfold Held
  infer_instance

def Written (others : List (Session S Rest α)) (id : Id) : Prop :=
  ∃ τ ∈ others, id ∈ τ.writes.map Write.id

instance (others : List (Session S Rest α)) (id : Id) : Decidable (Written others id) := by
  unfold Written
  infer_instance

/-- No other transaction is about to commit a row that conflicts with one of these. -/
def Compatible (others : List (Session S Rest α)) (rows : List Row) : Prop :=
  ∀ τ ∈ others, S.Holds (τ.view rows)

instance (others : List (Session S Rest α)) (rows : List Row) :
    Decidable (Compatible others rows) := by
  unfold Compatible
  infer_instance

inductive Advance (S : Schema Row Id) (Rest α : Type) where
  | waits
  /-- A constraint is violated: the transaction aborts. -/
  | refused
  | moved (σ : Session S Rest α)
  | commits (result : α)

/-- The next statement of `σ`, over the committed rows and beside the other open transactions. -/
def advance (others : List (Session S Rest α)) (rows : List Row) (σ : Session S Rest α) :
    Advance S Rest α :=
  match σ.prog with
  | .done a => .commits a
  | .select p next =>
      let found := (σ.view rows).filter p
      if ∃ row ∈ found, Held others (S.key row) then .waits
      else
        .moved { σ with
          locks := found.map S.key ++ σ.locks, reads := p :: σ.reads, prog := next found }
  | .update id set next =>
      let updated := updateRows S id set (σ.view rows)
      if Held others id then .waits
      else if ¬ S.Holds (updated.filter fun row => ¬ Written others (S.key row)) then .refused
      -- An entry that clashes with a write not yet committed is decided when that one ends.
      else if ¬ (S.Holds updated ∧ Compatible others updated) then .waits
      else
        .moved { σ with
          writes := σ.writes ++ [.update id set], locks := id :: σ.locks, prog := next }
  | .delete id next =>
      if Held others id then .waits
      else
        .moved { σ with
          writes := σ.writes ++ [.delete id], locks := id :: σ.locks, prog := next }
  | .other write next => .moved { σ with effect := write ∘ σ.effect, prog := next }

/-- What a statement did that neither waited nor failed. -/
theorem moved_cases {others : List (Session S Rest α)} {rows : List Row} {σ σ' : Session S Rest α}
    (h : advance others rows σ = .moved σ') :
    (∃ p next, σ.prog = .select p next ∧
      (∀ row ∈ (σ.view rows).filter p, ¬ Held others (S.key row)) ∧
      σ' = { σ with
        locks := ((σ.view rows).filter p).map S.key ++ σ.locks, reads := p :: σ.reads
        prog := next ((σ.view rows).filter p) }) ∨
    (∃ id set next, σ.prog = .update id set next ∧ ¬ Held others id ∧
      σ' = { σ with
        writes := σ.writes ++ [.update id set], locks := id :: σ.locks, prog := next }) ∨
    (∃ id next, σ.prog = .delete id next ∧ ¬ Held others id ∧
      σ' = { σ with writes := σ.writes ++ [.delete id], locks := id :: σ.locks, prog := next }) ∨
    ∃ write next, σ.prog = .other write next ∧
      σ' = { σ with effect := write ∘ σ.effect, prog := next } := by
  unfold advance at h
  cases hprog : σ.prog with
  | done a => simp only [hprog, reduceCtorEq] at h
  | select p next =>
      simp only [hprog] at h
      split at h
      · cases h
      rename_i hfree
      exact Or.inl ⟨p, next, rfl, fun row hrow hheld => hfree ⟨row, hrow, hheld⟩,
        (Advance.moved.inj h).symm⟩
  | update id set next =>
      simp only [hprog] at h
      split at h
      · cases h
      rename_i hfree
      split at h
      · cases h
      split at h
      · cases h
      exact Or.inr (Or.inl ⟨id, set, next, rfl, hfree, (Advance.moved.inj h).symm⟩)
  | delete id next =>
      simp only [hprog] at h
      split at h
      · cases h
      rename_i hfree
      exact Or.inr (Or.inr (Or.inl ⟨id, next, rfl, hfree, (Advance.moved.inj h).symm⟩))
  | other write next =>
      simp only [hprog] at h
      exact Or.inr (Or.inr (Or.inr ⟨write, next, rfl, (Advance.moved.inj h).symm⟩))

theorem prog_of_commits {others : List (Session S Rest α)} {rows : List Row} {σ : Session S Rest α}
    {a : α} (h : advance others rows σ = .commits a) : σ.prog = .done a := by
  unfold advance at h
  cases hprog : σ.prog with
  | done b =>
      simp only [hprog, Advance.commits.injEq] at h
      rw [h]
  | select p next =>
      simp only [hprog] at h
      split at h <;> cases h
  | update id set next =>
      simp only [hprog] at h
      split at h
      · cases h
      split at h
      · cases h
      split at h <;> cases h
  | delete id next =>
      simp only [hprog] at h
      split at h <;> cases h
  | other write next => simp only [hprog, reduceCtorEq] at h

/-! ### Replaying -/

/-- What the program does alone over `rows`, up to its next statement, selecting by `reads` and
writing only rows in `locks`. -/
inductive Trace (origin : Prog S Rest α) (rows : List Row) (reads : List (Row → Bool))
    (locks : List Id) : List (Write S) → (Rest → Rest) → Prog S Rest α → Prop where
  | start : Trace origin rows reads locks [] id origin
  | select {writes effect p next} : Trace origin rows reads locks writes effect (.select p next) →
      p ∈ reads →
      Trace origin rows reads locks writes effect (next ((applyWrites writes rows).filter p))
  | update {writes effect id set next} :
      Trace origin rows reads locks writes effect (.update id set next) → id ∈ locks →
      Trace origin rows reads locks (writes ++ [.update id set]) effect next
  | delete {writes effect id next} :
      Trace origin rows reads locks writes effect (.delete id next) → id ∈ locks →
      Trace origin rows reads locks (writes ++ [.delete id]) effect next
  | other {writes effect write next} :
      Trace origin rows reads locks writes effect (.other write next) →
      Trace origin rows reads locks writes (write ∘ effect) next

namespace Trace

variable {origin prog : Prog S Rest α} {rows rows' : List Row} {reads reads' : List (Row → Bool)}
  {locks locks' : List Id} {writes : List (Write S)} {effect : Rest → Rest}

theorem mono (h : Trace origin rows reads locks writes effect prog)
    (hreads : ∀ p ∈ reads, p ∈ reads') (hlocks : ∀ id ∈ locks, id ∈ locks') :
    Trace origin rows reads' locks' writes effect prog := by
  induction h with
  | start => exact .start
  | select _ hp ih => exact .select ih (hreads _ hp)
  | update _ hid ih => exact .update ih (hlocks _ hid)
  | delete _ hid ih => exact .delete ih (hlocks _ hid)
  | other _ ih => exact .other ih

theorem id_mem_locks (h : Trace origin rows reads locks writes effect prog) :
    ∀ w ∈ writes, w.id ∈ locks := by
  induction h with
  | start =>
      intro w hw
      cases hw
  | select _ _ ih => exact ih
  | update _ hid ih | delete _ hid ih =>
      intro w hw
      rcases List.mem_append.mp hw with hw | hw
      · exact ih w hw
      · obtain rfl := List.mem_singleton.mp hw
        exact hid
  | other _ ih => exact ih

/-- Where the program commits alone, the rest of it commits to the same end from here. -/
theorem run (h : Trace origin rows reads locks writes effect prog) {t : Table S} {r : Rest}
    (ht : t.rows = rows) {out : α × Store S Rest} (hrun : origin.run ⟨t, r⟩ = some out) :
    ∃ u : Table S, u.rows = applyWrites writes rows ∧ prog.run ⟨u, effect r⟩ = some out := by
  induction h with
  | start => exact ⟨t, ht, hrun⟩
  | select _ _ ih =>
      obtain ⟨u, hu, hrun⟩ := ih
      refine ⟨u, hu, ?_⟩
      rw [← hu]
      exact hrun
  | update _ _ ih =>
      obtain ⟨u, hu, hrun⟩ := ih
      simp only [Prog.run, Option.bind_eq_some_iff] at hrun
      obtain ⟨u', hset, hrun⟩ := hrun
      refine ⟨u', ?_, hrun⟩
      rw [Table.update_eq_some.mp hset, hu, applyWrites_concat]
      rfl
  | delete _ _ ih =>
      obtain ⟨u, hu, hrun⟩ := ih
      refine ⟨u.delete _, ?_, hrun⟩
      rw [applyWrites_concat, ← hu]
      rfl
  | other _ ih => exact ih

end Trace

/-- A row outside the locks is one the transaction has not written. -/
theorem mem_applyWrites_of_notMem {writes : List (Write S)} {locks : List Id} {rows : List Row}
    (hwrites : ∀ w ∈ writes, w.id ∈ locks) {row : Row} (hrow : S.key row ∉ locks) :
    row ∈ applyWrites writes rows ↔ row ∈ rows := by
  induction writes using List.reverseRecOn with
  | nil => simp
  | append_singleton writes w ih =>
      have hw : S.key row ≠ w.id := by
        rintro heq
        exact hrow (heq ▸ hwrites w (by simp))
      rw [applyWrites_concat, ← ih fun w hw => hwrites w (List.mem_append_left _ hw)]
      cases w with
      | update id set =>
          change row ∈ updateRows S id set _ ↔ _
          rw [mem_updateRows]
          constructor
          · rintro (⟨row₀, _, hkey, rfl⟩ | ⟨hmem, _⟩)
            · exact absurd ((set.key_apply row₀).trans hkey) hw
            · exact hmem
          · exact fun hmem => Or.inr ⟨hmem, hw⟩
      | delete id =>
          change row ∈ deleteRows S id _ ↔ _
          rw [mem_deleteRows]
          exact ⟨And.left, fun hmem => ⟨hmem, hw⟩⟩

/-- The rows of a table that a list of locks is about. -/
def lockedRows (S : Schema Row Id) (locks : List Id) (rows : List Row) : List Row :=
  rows.filter fun row => decide (S.key row ∈ locks)

theorem mem_lockedRows {locks : List Id} {rows : List Row} {row : Row} :
    row ∈ lockedRows S locks rows ↔ row ∈ rows ∧ S.key row ∈ locks := by
  unfold lockedRows
  rw [List.mem_filter, decide_eq_true_eq]

theorem mem_of_lockedRows_eq {locks : List Id} {rows rows' : List Row}
    (h : lockedRows S locks rows' = lockedRows S locks rows) {row : Row} (hrow : row ∈ rows)
    (hlock : S.key row ∈ locks) : row ∈ rows' := by
  have hmem := mem_lockedRows.mpr ⟨hrow, hlock⟩
  rw [← h] at hmem
  exact (mem_lockedRows.mp hmem).1

theorem Write.lockedRows_apply_of_mem (w : Write S) {locks : List Id} (hw : w.id ∈ locks)
    (rows : List Row) : lockedRows S locks (w.apply rows) = w.apply (lockedRows S locks rows) := by
  cases w with
  | update id set =>
      simp only [Write.apply, updateRows, lockedRows, List.filter_map]
      congr 1
      apply List.filter_congr
      intro row _
      simp only [Function.comp_apply, key_ite]
  | delete id =>
      simp only [Write.apply, deleteRows, lockedRows, List.filter_filter]
      apply List.filter_congr
      intro row _
      exact Bool.and_comm _ _

theorem Write.lockedRows_apply_of_notMem (w : Write S) {locks : List Id} (hw : w.id ∉ locks)
    (rows : List Row) : lockedRows S locks (w.apply rows) = lockedRows S locks rows := by
  cases w with
  | update id set =>
      simp only [Write.apply, updateRows, lockedRows, List.filter_map]
      conv_rhs => rw [← List.map_id (List.filter _ rows)]
      rw [List.filter_congr (q := fun row => decide (S.key row ∈ locks))]
      · apply List.map_congr_left
        intro row hrow
        have hkey : S.key row ≠ id := by
          rintro rfl
          exact hw (of_decide_eq_true (List.mem_filter.mp hrow).2)
        simp [hkey]
      · intro row _
        simp only [Function.comp_apply, key_ite]
  | delete id =>
      simp only [Write.apply, deleteRows, lockedRows, List.filter_filter]
      apply List.filter_congr
      intro row _
      by_cases hkey : S.key row = id
      · have hmem : S.key row ∉ locks := hkey ▸ hw
        simp [hmem]
      · simp [hkey]

theorem lockedRows_applyWrites_of_notMem {writes : List (Write S)} {locks : List Id}
    (hwrites : ∀ w ∈ writes, w.id ∉ locks) (rows : List Row) :
    lockedRows S locks (applyWrites writes rows) = lockedRows S locks rows := by
  induction writes using List.reverseRecOn with
  | nil => rfl
  | append_singleton writes w ih =>
      rw [applyWrites_concat, w.lockedRows_apply_of_notMem (hwrites w (by simp)),
        ih fun w hw => hwrites w (List.mem_append_left _ hw)]

theorem lockedRows_applyWrites_of_mem {writes : List (Write S)} {locks : List Id}
    (hwrites : ∀ w ∈ writes, w.id ∈ locks) (rows : List Row) :
    lockedRows S locks (applyWrites writes rows) = applyWrites writes (lockedRows S locks rows) := by
  induction writes using List.reverseRecOn with
  | nil => rfl
  | append_singleton writes w ih =>
      rw [applyWrites_concat, applyWrites_concat, w.lockedRows_apply_of_mem (hwrites w (by simp)),
        ih fun w hw => hwrites w (List.mem_append_left _ hw)]

/-- Whatever answers an earlier statement of the transaction is locked. -/
def Settled (S : Schema Row Id) (reads : List (Row → Bool)) (locks : List Id) (rows : List Row) :
    Prop :=
  ∀ p ∈ reads, ∀ row ∈ rows, p row = true → S.key row ∈ locks

theorem filter_view_eq {writes : List (Write S)} {locks : List Id} {rows : List Row}
    {p : Row → Bool} (hwrites : ∀ w ∈ writes, w.id ∈ locks)
    (hp : ∀ row ∈ rows, p row = true → S.key row ∈ locks) :
    (applyWrites writes rows).filter p = (applyWrites writes (lockedRows S locks rows)).filter p := by
  rw [← lockedRows_applyWrites_of_mem hwrites, lockedRows, List.filter_filter]
  apply List.filter_congr
  intro row hrow
  by_cases hlock : S.key row ∈ locks
  · simp [hlock]
  · have hnot : p row ≠ true := fun h =>
      hlock (hp row ((mem_applyWrites_of_notMem hwrites hlock).mp hrow) h)
    simp [hnot]

/-- **Replaying.** A transaction is where it was although other transactions have committed, as long
as its locked rows are untouched and nothing new answers what it asked. -/
theorem Trace.transfer {origin prog : Prog S Rest α} {rows rows' : List Row}
    {reads : List (Row → Bool)} {locks : List Id} {writes : List (Write S)} {effect : Rest → Rest}
    (h : Trace origin rows reads locks writes effect prog)
    (hlocked : lockedRows S locks rows' = lockedRows S locks rows)
    (hsettled : Settled S reads locks rows) (hsettled' : Settled S reads locks rows') :
    Trace origin rows' reads locks writes effect prog := by
  induction h with
  | start => exact .start
  | @select writes effect p next htrace hp ih =>
      have hanswer : (applyWrites writes rows).filter p = (applyWrites writes rows').filter p := by
        rw [filter_view_eq htrace.id_mem_locks (hsettled p hp),
          filter_view_eq htrace.id_mem_locks (hsettled' p hp), hlocked]
      rw [hanswer]
      exact .select ih hp
  | update _ hid ih => exact .update ih hid
  | delete _ hid ih => exact .delete ih hid
  | other _ ih => exact .other ih

namespace Session

/-- The transaction can be replayed over the rows committed now. -/
structure Replays (Origin : Prog S Rest α → Prop) (rows : List Row) (σ : Session S Rest α) :
    Prop where
  settled : Settled S σ.reads σ.locks rows
  trace : ∃ origin, Origin origin ∧
    Trace origin rows σ.reads σ.locks σ.writes σ.effect σ.prog

variable {Origin : Prog S Rest α → Prop} {rows rows' : List Row} {σ σ' : Session S Rest α}
  {others : List (Session S Rest α)}

theorem replays_start {p : Prog S Rest α} (hp : Origin p) : (start p).Replays Origin rows where
  settled := by
    intro q hq
    cases hq
  trace := ⟨p, hp, .start⟩

theorem Replays.id_mem_locks (h : σ.Replays Origin rows) : ∀ w ∈ σ.writes, w.id ∈ σ.locks := by
  obtain ⟨origin, _, htrace⟩ := h.trace
  exact htrace.id_mem_locks

/-- What others commit leaves the transaction where it is, short of a phantom. -/
theorem Replays.transfer (h : σ.Replays Origin rows)
    (hlocked : lockedRows S σ.locks rows' = lockedRows S σ.locks rows)
    (hsettled : Settled S σ.reads σ.locks rows') : σ.Replays Origin rows' where
  settled := hsettled
  trace := by
    obtain ⟨origin, hOrigin, htrace⟩ := h.trace
    exact ⟨origin, hOrigin, htrace.transfer hlocked h.settled hsettled⟩

theorem Replays.advance (h : σ.Replays Origin rows) (hadv : advance others rows σ = .moved σ') :
    σ'.Replays Origin rows := by
  obtain ⟨origin, hOrigin, htrace⟩ := h.trace
  have hsettled := h.settled
  rcases moved_cases hadv with ⟨p, next, hprog, _, rfl⟩ | ⟨id, set, next, hprog, _, rfl⟩ |
    ⟨id, next, hprog, _, rfl⟩ | ⟨write, next, hprog, rfl⟩ <;> rw [hprog] at htrace
  · refine ⟨?_, origin, hOrigin, .select (htrace.mono ?_ ?_) (List.mem_cons_self ..)⟩
    · intro q hq row hrow hqrow
      rcases List.mem_cons.mp hq with rfl | hq
      · by_cases hlock : S.key row ∈ σ.locks
        · exact List.mem_append_right _ hlock
        · have hview := (mem_applyWrites_of_notMem htrace.id_mem_locks hlock).mpr hrow
          apply List.mem_append_left
          exact List.mem_map_of_mem (List.mem_filter.mpr ⟨hview, hqrow⟩)
      · exact List.mem_append_right _ (hsettled q hq row hrow hqrow)
    · exact fun q hq => List.mem_cons_of_mem _ hq
    · exact fun id hid => List.mem_append_right _ hid
  · refine ⟨?_, origin, hOrigin, .update (htrace.mono (fun _ h => h) ?_) (List.mem_cons_self ..)⟩
    · exact fun q hq row hrow hqrow => List.mem_cons_of_mem _ (hsettled q hq row hrow hqrow)
    · exact fun id hid => List.mem_cons_of_mem _ hid
  · refine ⟨?_, origin, hOrigin, .delete (htrace.mono (fun _ h => h) ?_) (List.mem_cons_self ..)⟩
    · exact fun q hq row hrow hqrow => List.mem_cons_of_mem _ (hsettled q hq row hrow hqrow)
    · exact fun id hid => List.mem_cons_of_mem _ hid
  · have htrace' := Trace.other htrace
    exact ⟨hsettled, origin, hOrigin, htrace'⟩

/-- The rest of the transaction, run from here with nothing in between, commits. -/
def Completes (s : Store S Rest) (σ : Session S Rest α) : Prop :=
  ∃ u : Table S, u.rows = σ.view s.table.rows ∧ (σ.prog.run ⟨u, σ.effect s.rest⟩).isSome

/-- It has written nothing and has nothing left to do. -/
def Idle (σ : Session S Rest α) : Prop := σ.writes = [] ∧ σ.effect = id ∧ ∃ a, σ.prog = .done a

theorem Idle.completes (h : σ.Idle) (s : Store S Rest) : σ.Completes s := by
  obtain ⟨hwrites, _, a, hprog⟩ := h
  refine ⟨s.table, ?_, ?_⟩
  · rw [view, hwrites, applyWrites_nil]
  · rw [hprog]
    rfl

/-- Where its program commits alone, a transaction that can be replayed completes. -/
theorem Replays.completes {s : Store S Rest} (h : σ.Replays Origin s.table.rows)
    (hcommits : ∀ origin, Origin origin → (origin.run s).isSome) : σ.Completes s := by
  obtain ⟨origin, hOrigin, htrace⟩ := h.trace
  obtain ⟨out, hrun⟩ := Option.isSome_iff_exists.mp (hcommits origin hOrigin)
  obtain ⟨u, hu, hrest⟩ := htrace.run rfl hrun
  refine ⟨u, hu, ?_⟩
  rw [hrest]
  rfl

/-- **Serializability.** What a transaction commits is what its program commits alone on the store
as it is then. -/
theorem Replays.run_eq {s : Store S Rest} (h : σ.Replays Origin s.table.rows) {a : α}
    (hdone : σ.prog = .done a) {u : Table S} (hu : u.rows = σ.view s.table.rows)
    (hcommits : ∀ origin, Origin origin → (origin.run s).isSome) :
    ∃ origin, Origin origin ∧ origin.run s = some (a, ⟨u, σ.effect s.rest⟩) := by
  obtain ⟨origin, hOrigin, htrace⟩ := h.trace
  obtain ⟨out, hrun⟩ := Option.isSome_iff_exists.mp (hcommits origin hOrigin)
  obtain ⟨u', hu', hrest⟩ := htrace.run rfl hrun
  obtain rfl : u' = u := Table.ext (hu'.trans hu.symm)
  rw [hdone] at hrest
  exact ⟨origin, hOrigin, hrun.trans hrest.symm⟩

/-- A transaction that would complete is not refused its next statement. -/
theorem Completes.not_refused {s : Store S Rest} (h : σ.Completes s) :
    Transaction.advance others s.table.rows σ ≠ .refused := by
  obtain ⟨u, hu, hrun⟩ := h
  intro hadv
  unfold Transaction.advance at hadv
  cases hprog : σ.prog with
  | done a => simp only [hprog, reduceCtorEq] at hadv
  | select p next =>
      simp only [hprog] at hadv
      split at hadv <;> cases hadv
  | update id set next =>
      rw [hprog] at hrun
      obtain ⟨out, hrun⟩ := Option.isSome_iff_exists.mp hrun
      simp only [Prog.run, Option.bind_eq_some_iff] at hrun
      obtain ⟨u', hset, _⟩ := hrun
      have hholds : S.Holds (updateRows S id set (σ.view s.table.rows)) := by
        rw [← hu, ← Table.update_eq_some.mp hset]
        exact u'.holds
      simp only [hprog] at hadv
      split at hadv
      · cases hadv
      split at hadv
      case isTrue hbad => exact hbad (S.holds_sublist List.filter_sublist hholds)
      split at hadv <;> cases hadv
  | delete id next =>
      simp only [hprog] at hadv
      split at hadv <;> cases hadv
  | other write next => simp only [hprog, reduceCtorEq] at hadv

end Session

/-! ### The database -/

/-- What is committed, and the open transactions. -/
structure World (S : Schema Row Id) (Rest α : Type) where
  store : Store S Rest
  sessions : List (Session S Rest α)

/-- An open transaction moves, commits, or is aborted. -/
inductive World.Moves : World S Rest α → World S Rest α → Prop where
  | statement {s : Store S Rest} {xs ys : List (Session S Rest α)} {σ σ' : Session S Rest α} :
      advance (xs ++ ys) s.table.rows σ = .moved σ' → Moves ⟨s, xs ++ σ :: ys⟩ ⟨s, xs ++ σ' :: ys⟩
  | commit {s : Store S Rest} {xs ys : List (Session S Rest α)} {σ : Session S Rest α} {a : α}
      {t : Table S} : advance (xs ++ ys) s.table.rows σ = .commits a →
      t.rows = σ.view s.table.rows → Moves ⟨s, xs ++ σ :: ys⟩ ⟨⟨t, σ.effect s.rest⟩, xs ++ ys⟩
  | abort {s : Store S Rest} {xs ys : List (Session S Rest α)} {σ : Session S Rest α} :
      advance (xs ++ ys) s.table.rows σ = .refused → Moves ⟨s, xs ++ σ :: ys⟩ ⟨s, xs ++ ys⟩

/-- No row is locked twice. -/
def World.Disjoint (w : World S Rest α) : Prop :=
  w.sessions.Pairwise fun σ τ => ∀ id ∈ σ.locks, id ∉ τ.locks

omit [DecidableEq Id] in
theorem disjoint_middle {s : Store S Rest} {xs ys : List (Session S Rest α)}
    {σ : Session S Rest α} : (⟨s, xs ++ σ :: ys⟩ : World S Rest α).Disjoint ↔
      (∀ id ∈ σ.locks, ¬ Held (xs ++ ys) id) ∧ (⟨s, xs ++ ys⟩ : World S Rest α).Disjoint := by
  unfold World.Disjoint Held
  rw [List.pairwise_middle (fun h id hid hid' => h id hid' hid), List.pairwise_cons]
  simp only [not_exists, not_and]
  constructor
  · exact fun h => ⟨fun id hid τ hτ => h.1 τ hτ id hid, h.2⟩
  · exact fun h => ⟨fun τ hτ id hid => h.1 id hid τ hτ, h.2⟩

/-- A statement locks rows that nobody else holds. -/
theorem locks_of_moved {others : List (Session S Rest α)} {rows : List Row}
    {σ σ' : Session S Rest α} (h : advance others rows σ = .moved σ') {id : Id}
    (hid : id ∈ σ'.locks) : id ∈ σ.locks ∨ ¬ Held others id := by
  rcases moved_cases h with ⟨p, next, _, hfree, rfl⟩ | ⟨id', set, next, _, hfree, rfl⟩ |
    ⟨id', next, _, hfree, rfl⟩ | ⟨write, next, _, rfl⟩
  · rcases List.mem_append.mp hid with hid | hid
    · obtain ⟨row, hrow, rfl⟩ := List.mem_map.mp hid
      exact Or.inr (hfree row hrow)
    · exact Or.inl hid
  · rcases List.mem_cons.mp hid with rfl | hid
    · exact Or.inr hfree
    · exact Or.inl hid
  · rcases List.mem_cons.mp hid with rfl | hid
    · exact Or.inr hfree
    · exact Or.inl hid
  · exact Or.inl hid

theorem locks_subset_of_moved {others : List (Session S Rest α)} {rows : List Row}
    {σ σ' : Session S Rest α} (h : advance others rows σ = .moved σ') :
    ∀ id ∈ σ.locks, id ∈ σ'.locks := by
  intro id hid
  rcases moved_cases h with ⟨p, next, _, _, rfl⟩ | ⟨id', set, next, _, _, rfl⟩ |
    ⟨id', next, _, _, rfl⟩ | ⟨write, next, _, rfl⟩
  · exact List.mem_append_right _ hid
  · exact List.mem_cons_of_mem _ hid
  · exact List.mem_cons_of_mem _ hid
  · exact hid

/-- A statement asks what its program asks, and the rest of the program asks no more. -/
theorem every_of_moved {F : Prog.Footprint S Rest}
    {others : List (Session S Rest α)} {rows : List Row} {σ σ' : Session S Rest α}
    (h : advance others rows σ = .moved σ') (hevery : σ.prog.Every F) :
    σ'.prog.Every F ∧ ∀ p ∈ σ'.reads, p ∈ σ.reads ∨ F.asks p := by
  rcases moved_cases h with ⟨p, next, hprog, _, rfl⟩ | ⟨id, set, next, hprog, _, rfl⟩ |
    ⟨id, next, hprog, _, rfl⟩ | ⟨write, next, hprog, rfl⟩ <;> rw [hprog] at hevery
  · refine ⟨hevery.2 _, ?_⟩
    intro q hq
    rcases List.mem_cons.mp hq with rfl | hq
    · exact Or.inr hevery.1
    · exact Or.inl hq
  · exact ⟨hevery.2, fun p hp => Or.inl hp⟩
  · exact ⟨hevery, fun p hp => Or.inl hp⟩
  · exact ⟨hevery.2, fun p hp => Or.inl hp⟩

/-- Locks stay disjoint. -/
theorem World.Moves.disjoint {w w' : World S Rest α} (h : w.Moves w') (hw : w.Disjoint) :
    w'.Disjoint := by
  cases h with
  | statement hmoved =>
      obtain ⟨hfree, hothers⟩ := disjoint_middle.mp hw
      refine disjoint_middle.mpr ⟨?_, hothers⟩
      intro id hid
      exact (locks_of_moved hmoved hid).elim (hfree id) fun h => h
  | commit => exact (disjoint_middle.mp hw).2
  | abort => exact (disjoint_middle.mp hw).2

/-- A statement that commits by itself need not wait: it changes no locked row, and conflicts with
no uncommitted one. -/
structure World.Unblocked (w : World S Rest α) (rows : List Row) : Prop where
  locked : ∀ τ ∈ w.sessions, lockedRows S τ.locks rows = lockedRows S τ.locks w.store.table.rows
  compatible : Compatible w.sessions rows

end

end Transaction
