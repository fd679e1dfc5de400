import Mathlib.Data.List.Basic
import Mathlib.Data.List.Nodup
import Mathlib.Data.Multiset.Count
import Mathlib.Data.Multiset.Filter

/-!
# Transactions over one table

A table is a list of rows with a primary key and a constraint, and a transaction is a program whose
statements read rows, set columns of a row, delete a row, or write to some other table. The program
is syntax: run alone it is a function of the store, and the statements of several programs can also
be interleaved. A statement that would break the constraint aborts its transaction.
-/

namespace Transaction

variable {Row Id : Type}

/-- A primary key, and a constraint that removing rows cannot break, as a uniqueness index is. -/
structure Schema (Row Id : Type) where
  key : Row → Id
  Holds : List Row → Prop
  decideHolds : DecidablePred Holds
  holds_sublist : ∀ {rows rows' : List Row}, rows'.Sublist rows → Holds rows → Holds rows'

instance (S : Schema Row Id) : DecidablePred S.Holds := S.decideHolds

structure Table (S : Schema Row Id) where
  rows : List Row
  nodup : (rows.map S.key).Nodup
  holds : S.Holds rows

/-- A `SET` clause. It leaves the primary key alone. -/
structure Assignment (S : Schema Row Id) where
  apply : Row → Row
  key_apply : ∀ row, S.key (apply row) = S.key row

section Rows

variable [DecidableEq Id] (S : Schema Row Id)

def updateRows (id : Id) (set : Assignment S) (rows : List Row) : List Row :=
  rows.map fun row => if S.key row = id then set.apply row else row

def deleteRows (id : Id) (rows : List Row) : List Row :=
  rows.filter fun row => decide (S.key row ≠ id)

variable {S}

theorem key_ite (id : Id) (set : Assignment S) (row : Row) :
    S.key (if S.key row = id then set.apply row else row) = S.key row := by
  by_cases h : S.key row = id
  · simp [h, set.key_apply]
  · simp [h]

theorem map_key_updateRows (id : Id) (set : Assignment S) (rows : List Row) :
    (updateRows S id set rows).map S.key = rows.map S.key := by
  unfold updateRows
  rw [List.map_map]
  apply List.map_congr_left
  intro row _
  exact key_ite id set row

theorem map_key_deleteRows_nodup (id : Id) {rows : List Row} (h : (rows.map S.key).Nodup) :
    ((deleteRows S id rows).map S.key).Nodup :=
  h.sublist (List.filter_sublist.map S.key)

theorem mem_updateRows {id : Id} {set : Assignment S} {rows : List Row} {row' : Row} :
    row' ∈ updateRows S id set rows ↔
      (∃ row ∈ rows, S.key row = id ∧ row' = set.apply row) ∨ (row' ∈ rows ∧ S.key row' ≠ id) := by
  unfold updateRows
  rw [List.mem_map]
  constructor
  · rintro ⟨row, hmem, rfl⟩
    by_cases h : S.key row = id
    · exact Or.inl ⟨row, hmem, h, by simp [h]⟩
    · exact Or.inr ⟨by simpa [h] using hmem, by simp [h]⟩
  · rintro (⟨row, hmem, h, rfl⟩ | ⟨hmem, h⟩)
    · exact ⟨row, hmem, by simp [h]⟩
    · exact ⟨row', hmem, by simp [h]⟩

theorem mem_deleteRows {id : Id} {rows : List Row} {row : Row} :
    row ∈ deleteRows S id rows ↔ row ∈ rows ∧ S.key row ≠ id := by
  simp [deleteRows]

end Rows

namespace Table

variable {S : Schema Row Id}

@[ext]
theorem ext {t t' : Table S} (h : t.rows = t'.rows) : t = t' := by
  cases t
  cases t'
  simp_all

/-- Two rows with one key are one row. -/
theorem eq_of_key (t : Table S) {row row' : Row} (h : row ∈ t.rows) (h' : row' ∈ t.rows)
    (hkey : S.key row = S.key row') : row = row' :=
  List.inj_on_of_nodup_map t.nodup h h' hkey

variable [DecidableEq Id]

/-- `UPDATE … SET … WHERE key = id`, unless a constraint refuses it. -/
def update (id : Id) (set : Assignment S) (t : Table S) : Option (Table S) :=
  if h : S.Holds (updateRows S id set t.rows) then
    some ⟨updateRows S id set t.rows, by rw [map_key_updateRows]; exact t.nodup, h⟩
  else none

/-- `DELETE … WHERE key = id`. -/
def delete (id : Id) (t : Table S) : Table S where
  rows := deleteRows S id t.rows
  nodup := map_key_deleteRows_nodup id t.nodup
  holds := S.holds_sublist List.filter_sublist t.holds

/-- `INSERT`, unless a constraint refuses it. -/
def insert (row : Row) (t : Table S) : Option (Table S) :=
  if h : S.key row ∉ t.rows.map S.key ∧ S.Holds (t.rows ++ [row]) then
    some ⟨t.rows ++ [row], by
      rw [List.map_append, List.nodup_append]
      refine ⟨t.nodup, by simp, ?_⟩
      rintro key hkey key' hkey' rfl
      obtain rfl : key = S.key row := by simpa using hkey'
      exact h.1 hkey, h.2⟩
  else none

theorem update_eq_some {id : Id} {set : Assignment S} {t t' : Table S} :
    t.update id set = some t' ↔ t'.rows = updateRows S id set t.rows := by
  unfold update
  constructor
  · intro h
    split at h
    · rw [← Option.some.inj h]
    · cases h
  · intro h
    have hholds : S.Holds (updateRows S id set t.rows) := h ▸ t'.holds
    rw [dif_pos hholds]
    exact congrArg some (Table.ext h.symm)

theorem exists_update {id : Id} {set : Assignment S} {t : Table S}
    (h : S.Holds (updateRows S id set t.rows)) : ∃ t', t.update id set = some t' := by
  unfold update
  exact ⟨_, dif_pos h⟩

theorem insert_eq_some {row : Row} {t t' : Table S} :
    t.insert row = some t' ↔ t'.rows = t.rows ++ [row] := by
  unfold insert
  constructor
  · intro h
    split at h
    · rw [← Option.some.inj h]
    · cases h
  · intro h
    have hnodup : ((t.rows ++ [row]).map S.key).Nodup := h ▸ t'.nodup
    have hfresh : S.key row ∉ t.rows.map S.key := by
      rw [List.map_append, List.nodup_append] at hnodup
      intro hmem
      exact hnodup.2.2 _ hmem _ (by simp) rfl
    rw [dif_pos ⟨hfresh, h ▸ t'.holds⟩]
    exact congrArg some (Table.ext h.symm)

/-- The rows without their order. -/
def bag (t : Table S) : Multiset Row := t.rows

omit [DecidableEq Id] in
@[simp]
theorem mem_bag {t : Table S} {row : Row} : row ∈ t.bag ↔ row ∈ t.rows := Multiset.mem_coe

theorem bag_insert {row : Row} {t t' : Table S} (h : t.insert row = some t') :
    t'.bag = row ::ₘ t.bag := by
  rw [bag, insert_eq_some.mp h, bag, Multiset.cons_coe, Multiset.coe_eq_coe]
  exact List.perm_append_singleton row t.rows

omit [DecidableEq Id] in
/-- The other rows of a table, in any decomposition of it, have other keys. -/
theorem key_ne_of_bag {t : Table S} {row row' : Row} {rest : Multiset Row}
    (h : t.bag = row ::ₘ rest) (hrow' : row' ∈ rest) : S.key row' ≠ S.key row := by
  have hnodup : (t.bag.map S.key).Nodup := t.nodup
  rw [h, Multiset.map_cons, Multiset.nodup_cons] at hnodup
  intro heq
  exact hnodup.1 (heq ▸ Multiset.mem_map_of_mem _ hrow')

theorem bag_delete {t : Table S} {row : Row} {rest : Multiset Row} (h : t.bag = row ::ₘ rest) :
    (t.delete (S.key row)).bag = rest := by
  change ((t.rows.filter _ : List Row) : Multiset Row) = rest
  rw [← Multiset.filter_coe]
  change t.bag.filter _ = rest
  rw [h, Multiset.filter_cons_of_neg _ (by simp), Multiset.filter_eq_self]
  intro row' hrow'
  simpa using key_ne_of_bag h hrow'

theorem bag_update {t t' : Table S} {row : Row} {set : Assignment S} {rest : Multiset Row}
    (hupdate : t.update (S.key row) set = some t') (h : t.bag = row ::ₘ rest) :
    t'.bag = set.apply row ::ₘ rest := by
  rw [bag, update_eq_some.mp hupdate]
  change ((t.rows.map _ : List Row) : Multiset Row) = _
  rw [← Multiset.map_coe]
  change t.bag.map _ = _
  rw [h, Multiset.map_cons, if_pos rfl]
  congr 1
  conv_rhs => rw [← Multiset.map_id rest]
  apply Multiset.map_congr rfl
  intro row' hrow'
  rw [if_neg (key_ne_of_bag h hrow'), id_eq]

end Table

/-! ### Programs -/

/-- A transaction, statement by statement. `Rest` is the state of every other table. -/
inductive Prog (S : Schema Row Id) (Rest α : Type) where
  | done (result : α)
  /-- `SELECT … WHERE p FOR UPDATE`. -/
  | select (p : Row → Bool) (next : List Row → Prog S Rest α)
  | update (id : Id) (set : Assignment S) (next : Prog S Rest α)
  | delete (id : Id) (next : Prog S Rest α)
  /-- A statement on the other tables. -/
  | other (write : Rest → Rest) (next : Prog S Rest α)

/-- The table and the others. -/
structure Store (S : Schema Row Id) (Rest : Type) where
  table : Table S
  rest : Rest

namespace Prog

variable {S : Schema Row Id} {Rest α β : Type}

def bind : Prog S Rest α → (α → Prog S Rest β) → Prog S Rest β
  | done a, f => f a
  | select p next, f => select p fun rows => (next rows).bind f
  | update id set next, f => update id set (next.bind f)
  | delete id next, f => delete id (next.bind f)
  | other write next, f => other write (next.bind f)

instance : Monad (Prog S Rest) where
  pure := done
  bind := bind

/-- `SELECT … WHERE p FOR UPDATE`. -/
def selectForUpdate (p : Row → Bool) : Prog S Rest (List Row) := select p done

def updateRow (id : Id) (set : Assignment S) : Prog S Rest Unit := update id set (done ())

def deleteRow (id : Id) : Prog S Rest Unit := delete id (done ())

def onOther (write : Rest → Rest) : Prog S Rest Unit := other write (done ())

variable [DecidableEq Id]

/-- The transaction run alone, to its commit or, `none`, to the statement that aborts it. -/
def run : Prog S Rest α → Store S Rest → Option (α × Store S Rest)
  | done a, s => some (a, s)
  | select p next, s => (next (s.table.rows.filter p)).run s
  | update id set next, s => (s.table.update id set).bind fun t => next.run { s with table := t }
  | delete id next, s => next.run { s with table := s.table.delete id }
  | other write next, s => next.run { s with rest := write s.rest }

/-- Run alone, the transaction commits, with a result and a store that `Q` holds of. -/
def Commits (p : Prog S Rest α) (s : Store S Rest) (Q : α → Store S Rest → Prop) : Prop :=
  ∃ a s', p.run s = some (a, s') ∧ Q a s'

theorem commits_done {a : α} {s : Store S Rest} {Q : α → Store S Rest → Prop} (h : Q a s) :
    (done a : Prog S Rest α).Commits s Q :=
  ⟨a, s, rfl, h⟩

theorem commits_pure {a : α} {s : Store S Rest} {Q : α → Store S Rest → Prop} (h : Q a s) :
    (pure a : Prog S Rest α).Commits s Q :=
  commits_done h

theorem run_bind (p : Prog S Rest α) (f : α → Prog S Rest β) (s : Store S Rest) :
    (p.bind f).run s = (p.run s).bind fun out => (f out.1).run out.2 := by
  induction p generalizing s with
  | done a => rfl
  | select q next ih => exact ih _ s
  | update id set next ih =>
      simp only [bind, run, Option.bind_assoc, ih]
  | delete id next ih => exact ih _
  | other write next ih => exact ih _

theorem run_map (f : α → β) (p : Prog S Rest α) (s : Store S Rest) :
    (f <$> p).run s = (p.run s).map fun out => (f out.1, out.2) := by
  change (p.bind fun a => done (f a)).run s = _
  rw [run_bind, Option.map_eq_bind]
  rfl

theorem run_map_eq_some {f : α → β} {p : Prog S Rest α} {s s' : Store S Rest} {b : β} :
    (f <$> p).run s = some (b, s') ↔ ∃ a, p.run s = some (a, s') ∧ f a = b := by
  rw [run_map, Option.map_eq_some_iff]
  constructor
  · rintro ⟨⟨a, _⟩, hrun, heq⟩
    obtain ⟨hresult, rfl⟩ := Prod.mk.inj heq
    exact ⟨a, hrun, hresult⟩
  · rintro ⟨a, hrun, rfl⟩
    exact ⟨_, hrun, rfl⟩

/-- **The rule of sequencing.** -/
theorem commits_bind {p : Prog S Rest α} {f : α → Prog S Rest β} {s : Store S Rest}
    {R : α → Store S Rest → Prop} {Q : β → Store S Rest → Prop} (hp : p.Commits s R)
    (hf : ∀ a s', R a s' → (f a).Commits s' Q) : (p >>= f).Commits s Q := by
  obtain ⟨a, s₁, hrun, hR⟩ := hp
  obtain ⟨b, s₂, hrun', hQ⟩ := hf a s₁ hR
  refine ⟨b, s₂, ?_, hQ⟩
  change (p.bind f).run s = _
  rw [run_bind, hrun]
  exact hrun'

/-- What a program does to the store is done when only the result is still computed. -/
theorem commits_then_pure {p : Prog S Rest α} {f : α → β} {s : Store S Rest}
    {Q : Store S Rest → Prop} (hp : p.Commits s fun _ => Q) :
    (p >>= fun a => pure (f a)).Commits s fun _ => Q :=
  commits_bind hp fun _ _ h => commits_pure h

theorem commits_map {p : Prog S Rest α} {f : α → β} {s : Store S Rest}
    {Q : β → Store S Rest → Prop} (hp : p.Commits s fun a s' => Q (f a) s') :
    (f <$> p).Commits s Q :=
  commits_bind hp fun _ _ h => commits_pure h

theorem commits_mono {p : Prog S Rest α} {s : Store S Rest} {Q Q' : α → Store S Rest → Prop}
    (h : p.Commits s Q) (hQ : ∀ a s', Q a s' → Q' a s') : p.Commits s Q' := by
  obtain ⟨a, s', hrun, hq⟩ := h
  exact ⟨a, s', hrun, hQ a s' hq⟩

theorem commits_select {p : Row → Bool} {s : Store S Rest} {Q : List Row → Store S Rest → Prop}
    (h : Q (s.table.rows.filter p) s) : (selectForUpdate p : Prog S Rest _).Commits s Q :=
  ⟨_, s, rfl, h⟩

theorem commits_update {id : Id} {set : Assignment S} {s : Store S Rest} {t : Table S}
    {Q : Unit → Store S Rest → Prop} (ht : s.table.update id set = some t)
    (h : Q () { s with table := t }) : (updateRow id set : Prog S Rest _).Commits s Q := by
  refine ⟨(), _, ?_, h⟩
  simp only [updateRow, run, ht, Option.bind_some]

theorem commits_delete {id : Id} {s : Store S Rest} {Q : Unit → Store S Rest → Prop}
    (h : Q () { s with table := s.table.delete id }) :
    (deleteRow id : Prog S Rest _).Commits s Q :=
  ⟨(), _, rfl, h⟩

theorem commits_other {write : Rest → Rest} {s : Store S Rest} {Q : Unit → Store S Rest → Prop}
    (h : Q () { s with rest := write s.rest }) : (onOther write : Prog S Rest _).Commits s Q :=
  ⟨(), _, rfl, h⟩

/-- What is proved of some committing run holds of the run. -/
theorem Commits.of_run {p : Prog S Rest α} {s s' : Store S Rest} {a : α}
    {Q : α → Store S Rest → Prop} (h : p.Commits s Q) (hrun : p.run s = some (a, s')) : Q a s' := by
  obtain ⟨a₀, s₀, hrun₀, hQ⟩ := h
  obtain ⟨rfl, rfl⟩ := Prod.mk.inj (Option.some.inj (hrun₀.symm.trans hrun))
  exact hQ

/-- What the statements of a program may look for, set and write. -/
structure Footprint (S : Schema Row Id) (Rest : Type) where
  asks : (Row → Bool) → Prop
  sets : Assignment S → Prop
  writes : (Rest → Rest) → Prop

/-- The statements still to come keep to the footprint. -/
def Every (F : Footprint S Rest) : Prog S Rest α → Prop
  | done _ => True
  | select p next => F.asks p ∧ ∀ rows, (next rows).Every F
  | update _ set next => F.sets set ∧ next.Every F
  | delete _ next => next.Every F
  | other write next => F.writes write ∧ next.Every F

section

variable {F : Footprint S Rest} {p : Prog S Rest α}

omit [DecidableEq Id] in
theorem every_bind {f : α → Prog S Rest β} (hp : p.Every F) (hf : ∀ a, (f a).Every F) :
    (p >>= f).Every F := by
  change (p.bind f).Every F
  induction p with
  | done a => exact hf a
  | select q next ih => exact ⟨hp.1, fun rows => ih rows (hp.2 rows)⟩
  | update id set next ih => exact ⟨hp.1, ih hp.2⟩
  | delete id next ih => exact ih hp
  | other write next ih => exact ⟨hp.1, ih hp.2⟩

omit [DecidableEq Id] in
theorem every_pure (a : α) : (pure a : Prog S Rest α).Every F := trivial

omit [DecidableEq Id] in
theorem every_map (f : α → β) (hp : p.Every F) : (f <$> p).Every F :=
  every_bind hp fun _ => every_pure _

omit [DecidableEq Id] in
theorem every_select {q : Row → Bool} (hq : F.asks q) :
    (selectForUpdate q : Prog S Rest _).Every F :=
  ⟨hq, fun _ => trivial⟩

omit [DecidableEq Id] in
theorem every_update (id : Id) {set : Assignment S} (hset : F.sets set) :
    (updateRow id set : Prog S Rest _).Every F :=
  ⟨hset, trivial⟩

omit [DecidableEq Id] in
theorem every_delete (id : Id) : (deleteRow id : Prog S Rest _).Every F := trivial

omit [DecidableEq Id] in
theorem every_other {write : Rest → Rest} (hwrite : F.writes write) :
    (onOther write : Prog S Rest _).Every F :=
  ⟨hwrite, trivial⟩

omit [DecidableEq Id] in
theorem Every.mono {F' : Footprint S Rest} (h : p.Every F) (hasks : ∀ q, F.asks q → F'.asks q)
    (hsets : ∀ set, F.sets set → F'.sets set) (hwrites : ∀ write, F.writes write → F'.writes write) :
    p.Every F' := by
  induction p with
  | done a => exact trivial
  | select q next ih => exact ⟨hasks q h.1, fun rows => ih rows (h.2 rows)⟩
  | update id set next ih => exact ⟨hsets set h.1, ih h.2⟩
  | delete id next ih => exact ih h
  | other write next ih => exact ⟨hwrites write h.1, ih h.2⟩

/-- Each row a transaction leaves comes from one it found, by what its statements may set. -/
theorem Every.rows_related {R : Row → Row → Prop} (hrefl : ∀ row, R row row)
    (htrans : ∀ {row row' row''}, R row row' → R row' row'' → R row row'')
    (hsets : ∀ set, F.sets set → ∀ row, R row (set.apply row)) (h : p.Every F)
    {s s' : Store S Rest} {a : α} (hrun : p.run s = some (a, s')) {row' : Row}
    (hrow' : row' ∈ s'.table.rows) : ∃ row ∈ s.table.rows, R row row' := by
  induction p generalizing s with
  | done b =>
      obtain ⟨rfl, rfl⟩ := Prod.mk.inj (Option.some.inj hrun)
      exact ⟨row', hrow', hrefl row'⟩
  | select q next ih => exact ih _ (h.2 _) hrun
  | update id set next ih =>
      obtain ⟨t, ht, hrun⟩ := Option.bind_eq_some_iff.mp hrun
      obtain ⟨row₁, hrow₁, hR⟩ := ih h.2 hrun
      rw [Table.update_eq_some.mp ht] at hrow₁
      rcases mem_updateRows.mp hrow₁ with ⟨row, hrow, _, rfl⟩ | ⟨hrow, _⟩
      · exact ⟨row, hrow, htrans (hsets set h.1 row) hR⟩
      · exact ⟨row₁, hrow, hR⟩
  | delete id next ih =>
      obtain ⟨row₁, hrow₁, hR⟩ := ih h hrun
      exact ⟨row₁, (mem_deleteRows.mp hrow₁).1, hR⟩
  | other write next ih => exact ih (s := { s with rest := write s.rest }) h.2 hrun

/-- What no write touches of the other tables is as before. -/
theorem Every.rest_eq {γ : Type} {view : Rest → γ}
    (hwrites : ∀ write, F.writes write → ∀ r, view (write r) = view r) (h : p.Every F)
    {s s' : Store S Rest} {a : α} (hrun : p.run s = some (a, s')) : view s'.rest = view s.rest := by
  induction p generalizing s with
  | done b =>
      obtain ⟨_, rfl⟩ := Prod.mk.inj (Option.some.inj hrun)
      rfl
  | select q next ih => exact ih _ (h.2 _) hrun
  | update id set next ih =>
      obtain ⟨t, _, hrun⟩ := Option.bind_eq_some_iff.mp hrun
      exact ih (s := { s with table := t }) h.2 hrun
  | delete id next ih => exact ih (s := { s with table := s.table.delete id }) h hrun
  | other write next ih =>
      exact (ih (s := { s with rest := write s.rest }) h.2 hrun).trans (hwrites write h.1 s.rest)

end

end Prog

end Transaction
