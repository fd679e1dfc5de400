import Mathlib.Data.List.TakeWhile
import ContextLayer.Redelivery

/-!
# What a failed re-delivery leaves

Each loop has one lemma that says which tables it has written when it ends, and with what. Nothing
puts a schema back, and the table whose rows failed to be replaced is not among those that are
restored; so a delivery that fails in the middle recovers only where that makes no difference, or
where the restoration fails as well and says so.
-/

namespace ContextLayer

open Text

section

variable {Row : Type} {fails : WireCall → Bool}

/-! ### Batches -/

theorem flatMap_range_take_drop (rows : List Row) (size n : Nat) :
    ((List.range n).map fun k => (k * size, (rows.drop (k * size)).take size)).flatMap Prod.snd =
      rows.take (n * size) := by
  induction n with
  | zero => simp
  | succ n ih =>
      rw [List.range_succ, List.map_append, List.flatMap_append, ih, Nat.succ_mul, List.take_add]
      simp

theorem flatMap_batches (rows : List Row) : (batches rows).flatMap Prod.snd = rows := by
  rw [batches, flatMap_range_take_drop]
  apply List.take_of_length_le
  have hmod := Nat.mod_add_div (rows.length + (maxRowsPerPost - 1)) maxRowsPerPost
  have hlt := Nat.mod_lt (rows.length + (maxRowsPerPost - 1)) (show 0 < maxRowsPerPost by decide)
  rw [Nat.mul_comm] at hmod
  simp only [maxRowsPerPost] at hmod hlt ⊢
  omega

theorem rowsLeft_of_not_rowsFail {restoring : Bool} {i : Nat} {rows : List Row}
    (h : rowsFail fails restoring i rows = false) (old : List Row) :
    rowsLeft fails restoring i old rows = rows := by
  rw [rowsFail, Bool.or_eq_false_iff, List.any_eq_false] at h
  rw [rowsLeft, h.1, if_neg Bool.false_ne_true, rowsPushed, List.takeWhile_eq_self_iff.mpr]
  · exact flatMap_batches rows
  · intro batch hbatch
    simpa using h.2 batch hbatch

/-! ### Updates -/

namespace SemanticModel

@[simp]
theorem names_setRows (m : SemanticModel Row) (name : Text) (f : List Row → List Row) :
    (m.setRows name f).names = m.names := rfl

@[simp]
theorem names_setColumns (m : SemanticModel Row) (name : Text) (columns : List PbiColumn) :
    (m.setColumns name columns).names = m.names := rfl

@[simp]
theorem columns_setRows (m : SemanticModel Row) (name name' : Text) (f : List Row → List Row) :
    ((m.setRows name f).table name').columns = (m.table name').columns := by
  by_cases h : name' = name
  · subst h
    simp [setRows]
  · simp [setRows, h]

theorem rows_setRows (m : SemanticModel Row) (name name' : Text) (f : List Row → List Row) :
    ((m.setRows name f).table name').rows =
      if name' = name then f (m.table name).rows else (m.table name').rows := by
  by_cases h : name' = name
  · subst h
    simp [setRows]
  · simp [setRows, h]

@[simp]
theorem rows_setColumns (m : SemanticModel Row) (name name' : Text) (columns : List PbiColumn) :
    ((m.setColumns name columns).table name').rows = (m.table name').rows := by
  by_cases h : name' = name
  · subst h
    simp [setColumns]
  · simp [setColumns, h]

theorem columns_setColumns (m : SemanticModel Row) (name name' : Text) (columns : List PbiColumn) :
    ((m.setColumns name columns).table name').columns =
      if name' = name then columns else (m.table name').columns := by
  by_cases h : name' = name
  · subst h
    simp [setColumns]
  · simp [setColumns, h]

theorem setRows_setRows (m : SemanticModel Row) (name : Text) (f g : List Row → List Row) :
    (m.setRows name f).setRows name g = m.setRows name fun rows => g (f rows) := by
  simp [setRows]

theorem setRows_same (m : SemanticModel Row) (name : Text) (f : List Row → List Row)
    (hf : ∀ rows, f rows = rows) : m.setRows name f = m := by
  simp [setRows, hf]

end SemanticModel

/-! ### The loops -/

theorem pushRows_spec (fails : WireCall → Bool) (restoring : Bool) (i : Nat) (name : Text) (bs : List (Nat × List Row))
    (m : SemanticModel Row) : ∃ r, pushRows fails restoring i name bs m =
      (r, m.setRows name (· ++ (bs.takeWhile fun (start, _) =>
        !fails (.postRows restoring i start)).flatMap Prod.snd)) ∧
      (r = .ok () ↔ (bs.any fun (start, _) => fails (.postRows restoring i start)) = false) := by
  induction bs generalizing m with
  | nil => exact ⟨.ok (), by simp [pushRows, SemanticModel.setRows_same], by simp⟩
  | cons b bs ih =>
      obtain ⟨start, batch⟩ := b
      by_cases hfails : fails (.postRows restoring i start) = true
      · refine ⟨.error (.postRows restoring i start), ?_, by simp [hfails]⟩
        simp [pushRows, send, hfails, SemanticModel.setRows_same]
      · obtain ⟨r, hr, hok⟩ := ih (m.setRows name (· ++ batch))
        refine ⟨r, ?_, by simpa [hfails] using hok⟩
        simp [pushRows, send, hfails, hr, SemanticModel.setRows_setRows]

theorem replaceRows_spec (fails : WireCall → Bool) (restoring : Bool) (i : Nat) (name : Text) (rows : List Row)
    (m : SemanticModel Row) : ∃ r, replaceRows fails restoring i name rows m =
      (r, m.setRows name fun old => rowsLeft fails restoring i old rows) ∧
      (r = .ok () ↔ rowsFail fails restoring i rows = false) := by
  by_cases hfails : fails (.deleteRows restoring i) = true
  · refine ⟨.error (.deleteRows restoring i), ?_, by simp [rowsFail, hfails]⟩
    simp [replaceRows, send, hfails, rowsLeft, SemanticModel.setRows_same]
  · obtain ⟨r, hr, hok⟩ := pushRows_spec fails restoring i name (batches rows)
      (m.setRows name fun _ => [])
    refine ⟨r, ?_, by simpa [rowsFail, hfails] using hok⟩
    simp [replaceRows, send, hfails, hr, SemanticModel.setRows_setRows, rowsLeft, rowsPushed]

/-- The schemas that are put, up to the first request that fails. -/
theorem putTables_spec (fails : WireCall → Bool) {cs : List (TablePlan Row × Nat)}
    (hagree : ∀ x ∈ cs, ∀ y ∈ cs, x.1.name = y.1.name → x.1 = y.1) (m : SemanticModel Row) :
    ∃ r m', putTables fails cs m = (r, m') ∧
      (r = .ok () ↔ (cs.any fun (_, i) => fails (.putTable i)) = false) ∧ m'.names = m.names ∧
      (∀ name, (m'.table name).rows = (m.table name).rows) ∧
      (∀ x ∈ cs.takeWhile fun (_, i) => !fails (.putTable i),
        (m'.table x.1.name).columns = x.1.columns) ∧
      ∀ name ∉ (cs.takeWhile fun (_, i) => !fails (.putTable i)).map fun x => x.1.name,
        (m'.table name).columns = (m.table name).columns := by
  induction cs generalizing m with
  | nil => exact ⟨.ok (), m, by simp [putTables]⟩
  | cons x cs ih =>
      obtain ⟨plan, i⟩ := x
      by_cases hfails : fails (.putTable i) = true
      · exact ⟨.error (.putTable i), m, by simp [putTables, send, hfails]⟩
      · obtain ⟨r, m', hput, hok, hnames, hrows, hmem, hnot⟩ :=
          ih (fun x hx y hy => hagree x (List.mem_cons_of_mem _ hx) y (List.mem_cons_of_mem _ hy))
            (m.setColumns plan.name plan.columns)
        refine ⟨r, m', ?_, by simpa [hfails] using hok, hnames, ?_, ?_, ?_⟩
        · simp [putTables, send, hfails, hput]
        · intro name
          rw [hrows, SemanticModel.rows_setColumns]
        · rw [List.takeWhile_cons_of_pos (by simp [hfails]), List.forall_mem_cons]
          refine ⟨?_, hmem⟩
          by_cases hlater : plan.name ∈ (cs.takeWhile fun (_, i) => !fails (.putTable i)).map
              fun x => x.1.name
          · obtain ⟨y, hy, hyname⟩ := List.mem_map.mp hlater
            have hcs : y ∈ cs := (List.takeWhile_sublist _).subset hy
            have hsame := hagree y (List.mem_cons_of_mem _ hcs) _ List.mem_cons_self hyname
            rw [← hyname, hmem y hy, hsame]
          · rw [hnot _ hlater, SemanticModel.columns_setColumns, if_pos rfl]
        · rw [List.takeWhile_cons_of_pos (by simp [hfails]), List.map_cons]
          intro name hname
          rw [List.mem_cons, not_or] at hname
          rw [hnot name hname.2, SemanticModel.columns_setColumns, if_neg hname.1]

end

section

variable {Cell : Type} {encoding : Encoding Cell} {fails : WireCall → Bool}
  {previous : List (Text × QueryResult)}

/-- The tables of a restoration, where every one of them has its previous results. -/
theorem restoreTables_spec (fails : WireCall → Bool) (old : Text → List (EncodedRow Cell)) {tables : List (Text × Nat)}
    (hprior : ∀ x ∈ tables, ∃ prior, Dict.get? previous x.1 = some prior ∧
      encoding.priorRows prior = some (old x.1)) (log : RestoreLog)
    (m : SemanticModel (EncodedRow Cell)) :
    ∃ log' m', restoreTables encoding fails previous tables log m = (log', m') ∧
      (log'.problems = [] ↔ log.problems = [] ∧
        (tables.any fun (name, j) => rowsFail fails true j (old name)) = false) ∧
      m'.names = m.names ∧ (∀ name, (m'.table name).columns = (m.table name).columns) ∧
      ((tables.any fun (name, j) => rowsFail fails true j (old name)) = false →
        ∀ x ∈ tables, (m'.table x.1).rows = old x.1) ∧
      ∀ name ∉ tables.map Prod.fst, (m'.table name).rows = (m.table name).rows := by
  induction tables generalizing log m with
  | nil => exact ⟨log, m, by simp [restoreTables]⟩
  | cons x tables ih =>
      obtain ⟨name, i⟩ := x
      obtain ⟨prior, hget, hrows⟩ := hprior (name, i) List.mem_cons_self
      obtain ⟨r, hreplace, hok⟩ :=
        replaceRows_spec fails true i name (old name) m
      have hstep : restoreTables encoding fails previous ((name, i) :: tables) log m =
          restoreTables encoding fails previous tables
            (if rowsFail fails true i (old name) then log.problem name .unknown
              else log.restored name)
            (m.setRows name fun rows => rowsLeft fails true i rows (old name)) := by
        cases hfail : rowsFail fails true i (old name) with
        | false =>
            obtain rfl := hok.mpr hfail
            simp [restoreTables, hget, hrows, hreplace]
        | true =>
            cases r with
            | ok _ => exact absurd (hok.mp rfl) (by simp [hfail])
            | error c => simp [restoreTables, hget, hrows, hreplace]
      obtain ⟨log', m', hrestore, hproblems, hnames, hcolumns, hmem, hnot⟩ :=
        ih (fun x hx => hprior x (List.mem_cons_of_mem _ hx))
          (if rowsFail fails true i (old name) then log.problem name .unknown
            else log.restored name)
          (m.setRows name fun rows => rowsLeft fails true i rows (old name))
      refine ⟨log', m', hstep.trans hrestore, ?_, hnames, ?_, ?_, ?_⟩
      · rw [hproblems]
        cases hfail : rowsFail fails true i (old name) with
        | false => simp [RestoreLog.restored, hfail]
        | true => simp [RestoreLog.problem, hfail]
      · intro name'
        rw [hcolumns, SemanticModel.columns_setRows]
      · intro hnone
        rw [List.any_cons, Bool.or_eq_false_iff] at hnone
        rw [List.forall_mem_cons]
        refine ⟨?_, hmem hnone.2⟩
        by_cases hlater : name ∈ tables.map Prod.fst
        · obtain ⟨y, hy, rfl⟩ := List.mem_map.mp hlater
          exact hmem hnone.2 y hy
        · rw [hnot name hlater, SemanticModel.rows_setRows, if_pos rfl,
            rowsLeft_of_not_rowsFail hnone.1]
      · intro name' hname'
        rw [List.map_cons, List.mem_cons, not_or] at hname'
        rw [hnot name' hname'.2, SemanticModel.rows_setRows, if_neg hname'.1]

/-- The tables before the first one that fails are replaced. -/
theorem replaceTables_append (encoding : Encoding Cell) (previous : List (Text × QueryResult))
    {ps : List (TablePlan (EncodedRow Cell) × Nat)}
    (rest : List (TablePlan (EncodedRow Cell) × Nat))
    (hagree : ∀ x ∈ ps, ∀ y ∈ ps, x.1.name = y.1.name → x.1 = y.1)
    (hok : ∀ x ∈ ps, rowsFail fails false x.2 x.1.rows = false) (replaced : List Text)
    (m : SemanticModel (EncodedRow Cell)) :
    ∃ m', replaceTables encoding fails previous (ps ++ rest) replaced m =
        replaceTables encoding fails previous rest (replaced ++ ps.map fun x => x.1.name) m' ∧
      m'.names = m.names ∧ (∀ name, (m'.table name).columns = (m.table name).columns) ∧
      (∀ x ∈ ps, (m'.table x.1.name).rows = x.1.rows) ∧
      ∀ name ∉ ps.map fun x => x.1.name, (m'.table name).rows = (m.table name).rows := by
  induction ps generalizing replaced m with
  | nil => exact ⟨m, by simp⟩
  | cons x ps ih =>
      obtain ⟨plan, i⟩ := x
      have hplan : rowsFail fails false i plan.rows = false := hok (plan, i) List.mem_cons_self
      obtain ⟨r, hreplace, hr⟩ := replaceRows_spec fails false i plan.name plan.rows m
      obtain rfl := hr.mpr hplan
      obtain ⟨m', hrun, hnames, hcolumns, hmem, hnot⟩ :=
        ih (fun x hx y hy => hagree x (List.mem_cons_of_mem _ hx) y (List.mem_cons_of_mem _ hy))
          (fun x hx => hok x (List.mem_cons_of_mem _ hx)) (replaced ++ [plan.name])
          (m.setRows plan.name fun old => rowsLeft fails false i old plan.rows)
      refine ⟨m', ?_, hnames, ?_, ?_, ?_⟩
      · rw [List.cons_append, replaceTables, hreplace]
        simp [hrun]
      · intro name
        rw [hcolumns, SemanticModel.columns_setRows]
      · rw [List.forall_mem_cons]
        refine ⟨?_, hmem⟩
        by_cases hlater : plan.name ∈ ps.map fun x => x.1.name
        · obtain ⟨y, hy, hyname⟩ := List.mem_map.mp hlater
          have hsame := hagree y (List.mem_cons_of_mem _ hy) _ List.mem_cons_self hyname
          rw [← hyname, hmem y hy, hsame]
        · rw [hnot _ hlater, SemanticModel.rows_setRows, if_pos rfl,
            rowsLeft_of_not_rowsFail hplan]
      · rw [List.map_cons]
        intro name hname
        rw [List.mem_cons, not_or] at hname
        rw [hnot name hname.2, SemanticModel.rows_setRows, if_neg hname.1]

/-! ### Which deliveries recover -/

variable {plans : DeliveryPlans (EncodedRow Cell)} {m m' : SemanticModel (EncodedRow Cell)}

theorem fst_mem_zipIdx {α : Type} {l : List α} {x : α} : x ∈ l ↔ ∃ i, (x, i) ∈ l.zipIdx := by
  constructor
  · intro hx
    rw [← List.zipIdx_map_fst 0 l] at hx
    obtain ⟨⟨y, i⟩, hy, rfl⟩ := List.mem_map.mp hx
    exact ⟨i, hy⟩
  · rintro ⟨i, hi⟩
    exact List.fst_mem_of_mem_zipIdx hi

theorem DeliveryPlans.agree_zipIdx (plans : DeliveryPlans (EncodedRow Cell)) :
    ∀ x ∈ plans.plans.zipIdx, ∀ y ∈ plans.plans.zipIdx, x.1.name = y.1.name → x.1 = y.1 := by
  intro x hx y hy hname
  exact plans.agree x.1 (fst_mem_zipIdx.mpr ⟨x.2, hx⟩) y.1 (fst_mem_zipIdx.mpr ⟨y.2, hy⟩) hname

theorem mem_changedTables {x : TablePlan (EncodedRow Cell) × Nat} :
    x ∈ changedTables m plans.plans ↔
      x ∈ plans.plans.zipIdx ∧ (m.table x.1.name).columns ≠ x.1.columns := by
  simp [changedTables]

/-- A plan that changes no schema has the columns there are. -/
theorem columns_eq_of_notMem_changedTables {plan : TablePlan (EncodedRow Cell)}
    (hplan : plan ∈ plans.plans)
    (h : ∀ x ∈ changedTables m plans.plans, x.1.name ≠ plan.name) :
    (m.table plan.name).columns = plan.columns := by
  obtain ⟨i, hi⟩ := fst_mem_zipIdx.mp hplan
  by_contra hne
  exact h (plan, i) (mem_changedTables.mpr ⟨hi, hne⟩) rfl

theorem mem_names_iff (h : sameTables m plans.plans = true) {name : Text} :
    name ∈ m.names ↔ ∃ plan ∈ plans.plans, plan.name = name := by
  simp only [sameTables, Bool.and_eq_true, List.all_eq_true, decide_eq_true_eq] at h
  constructor
  · intro hname
    exact List.mem_map.mp (h.1 name hname)
  · rintro ⟨plan, hplan, rfl⟩
    exact h.2 plan hplan

theorem completeOrPrevious_wire (c : WireCall) :
    CompleteOrPrevious m plans (.error (.wire c), m') ↔
      (∀ plan ∈ plans.plans, m'.table plan.name = ⟨plan.columns, plan.rows⟩) ∨
        ∀ name ∈ m.names, m'.table name = m.table name := by
  simp [CompleteOrPrevious]

theorem TableState.eq_iff {Row : Type} {s t : TableState Row} :
    s = t ↔ s.columns = t.columns ∧ s.rows = t.rows := by
  cases s
  cases t
  simp

/-- A schema fails to be put, and those put before stay. -/
theorem recoversSchemas_iff (hsame : sameTables m plans.plans = true) {c : WireCall}
    (hrows : ∀ name, (m'.table name).rows = (m.table name).rows)
    (hmem : ∀ x ∈ (changedTables m plans.plans).takeWhile fun (_, i) => !fails (.putTable i),
      (m'.table x.1.name).columns = x.1.columns)
    (hnot : ∀ name ∉ ((changedTables m plans.plans).takeWhile fun (_, i) =>
      !fails (.putTable i)).map fun x => x.1.name, (m'.table name).columns = (m.table name).columns) :
    CompleteOrPrevious m plans (.error (.wire c), m') ↔ RecoversSchemas fails m plans := by
  have hput : ∀ x ∈ (changedTables m plans.plans).takeWhile fun (_, i) => !fails (.putTable i),
      x ∈ changedTables m plans.plans := fun x hx => (List.takeWhile_sublist _).subset hx
  rw [completeOrPrevious_wire, RecoversSchemas, or_comm]
  refine or_congr ⟨?_, ?_⟩ ⟨?_, ?_⟩
  · -- what is put is a change
    intro hprev
    rw [List.eq_nil_iff_forall_not_mem]
    intro x hx
    obtain ⟨hzip, hne⟩ := mem_changedTables.mp (hput x hx)
    have hname : x.1.name ∈ m.names :=
      (mem_names_iff hsame).mpr ⟨x.1, fst_mem_zipIdx.mpr ⟨x.2, hzip⟩, rfl⟩
    rw [← hprev _ hname] at hne
    exact hne (hmem x hx)
  · intro hnil name _
    rw [TableState.eq_iff]
    exact ⟨hnot name (by simp [hnil]), hrows name⟩
  · intro hnew
    constructor
    · intro x hx
      obtain ⟨hzip, hne⟩ := mem_changedTables.mp hx
      by_contra hlater
      rw [← hnot _ hlater, hnew x.1 (fst_mem_zipIdx.mpr ⟨x.2, hzip⟩)] at hne
      exact hne rfl
    · intro plan hplan
      rw [← hrows, hnew plan hplan]
  · rintro ⟨hall, hsamerows⟩ plan hplan
    rw [TableState.eq_iff, hrows]
    refine ⟨?_, hsamerows plan hplan⟩
    by_cases hin : plan.name ∈ ((changedTables m plans.plans).takeWhile fun (_, i) =>
        !fails (.putTable i)).map fun x => x.1.name
    · obtain ⟨x, hx, hname⟩ := List.mem_map.mp hin
      have hzip := (mem_changedTables.mp (hput x hx)).1
      obtain rfl := plans.agree x.1 (fst_mem_zipIdx.mpr ⟨x.2, hzip⟩) plan hplan hname
      exact hmem x hx
    · rw [hnot _ hin]
      refine columns_eq_of_notMem_changedTables hplan ?_
      rintro x hx hname
      exact hin (hname ▸ hall x hx)

/-- The schemas are all put, and the rows of each table are what `left` says. -/
theorem recovers_left_iff (hsame : sameTables m plans.plans = true) {c : WireCall}
    {left : Text → List (EncodedRow Cell)}
    (hcolumns : ∀ plan ∈ plans.plans, (m'.table plan.name).columns = plan.columns)
    (hrows : ∀ name, (m'.table name).rows = left name) :
    CompleteOrPrevious m plans (.error (.wire c), m') ↔
      (changedTables m plans.plans = [] ∧ ∀ name ∈ m.names, left name = (m.table name).rows) ∨
        ∀ q ∈ plans.plans, left q.name = q.rows := by
  rw [completeOrPrevious_wire, or_comm]
  refine or_congr ⟨?_, ?_⟩ ⟨?_, ?_⟩
  · intro hprev
    constructor
    · rw [List.eq_nil_iff_forall_not_mem]
      intro x hx
      obtain ⟨hzip, hne⟩ := mem_changedTables.mp hx
      have hplan : x.1 ∈ plans.plans := fst_mem_zipIdx.mpr ⟨x.2, hzip⟩
      rw [← hprev _ ((mem_names_iff hsame).mpr ⟨x.1, hplan, rfl⟩)] at hne
      exact hne (hcolumns x.1 hplan)
    · intro name hname
      rw [← hrows, hprev name hname]
  · rintro ⟨hnil, hleft⟩ name hname
    obtain ⟨plan, hplan, rfl⟩ := (mem_names_iff hsame).mp hname
    rw [TableState.eq_iff, hrows, hcolumns plan hplan]
    refine ⟨?_, hleft _ hname⟩
    exact (columns_eq_of_notMem_changedTables hplan (by simp [hnil])).symm
  · intro hnew q hq
    rw [← hrows, hnew q hq]
  · intro hleft q hq
    rw [TableState.eq_iff, hrows]
    exact ⟨hcolumns q hq, hleft q hq⟩

theorem restore_eq (replaced : List Text) (c : WireCall) :
    restore encoding fails previous replaced c m =
      match restoreTables encoding fails previous replaced.zipIdx ⟨[], []⟩ m with
      | (log, m') =>
          if log.problems = [] then (.error (.wire c), m')
          else (.error (.inconsistent log.states c), m') := by
  unfold restore
  split
  · subst replaced
    simp [restoreTables]
  · rfl

/-- The rows of a table fail to be replaced, and what was replaced before is restored. -/
theorem recoversRows_iff (hprevious : PreviousIs encoding previous m)
    (hsame : sameTables m plans.plans = true) {c : WireCall} {replaced : List Text}
    {plan : TablePlan (EncodedRow Cell)} {i : Nat}
    (hreplaced : ∀ name ∈ replaced, name ∈ m.names)
    (hcolumns : ∀ plan ∈ plans.plans, (m'.table plan.name).columns = plan.columns)
    (hrows : ∀ name ∉ replaced, (m'.table name).rows =
      if name = plan.name then rowsLeft fails false i (m.table name).rows plan.rows
      else (m.table name).rows) :
    CompleteOrPrevious m plans (restore encoding fails previous replaced c m') ↔
      RecoversRows fails m plans replaced plan i := by
  have hprior : ∀ x ∈ replaced.zipIdx, ∃ prior, Dict.get? previous x.1 = some prior ∧
      encoding.priorRows prior = some (m.table x.1).rows := by
    intro x hx
    obtain ⟨prior, hget, _, hprior⟩ :=
      hprevious x.1 (hreplaced x.1 (List.fst_mem_of_mem_zipIdx hx))
    exact ⟨prior, hget, hprior⟩
  obtain ⟨log, m'', hrestore, hproblems, -, hcolumns', hrestored, hothers⟩ :=
    restoreTables_spec fails (fun name => (m.table name).rows) hprior ⟨[], []⟩ m'
  rw [List.zipIdx_map_fst] at hothers
  rw [restore_eq, hrestore, RecoversRows]
  cases hfail : replaced.zipIdx.any fun (name, j) => rowsFail fails true j (m.table name).rows with
  | true =>
      have hne : log.problems ≠ [] := by
        intro hnil
        have := (hproblems.mp hnil).2
        rw [hfail] at this
        cases this
      simp only [if_neg hne]
      exact iff_of_true (.inr (.inr ⟨_, _, rfl⟩)) (.inl trivial)
  | false =>
      simp only [if_pos (hproblems.mpr ⟨rfl, hfail⟩), Bool.false_eq_true, false_or]
      refine recovers_left_iff hsame (fun q hq => ?_) fun name => ?_
      · rw [hcolumns', hcolumns q hq]
      · by_cases hname : name ∈ replaced
        · obtain ⟨j, hj⟩ := fst_mem_zipIdx.mp hname
          rw [hrestored hfail (name, j) hj, if_neg (fun h => h.2 hname)]
        · rw [hothers name hname, hrows name hname]
          simp [hname]

/-- The schemas are put, and the rows are replaced table by table. -/
theorem completeOrPrevious_replaceTables (fails : WireCall → Bool)
    (hprevious : PreviousIs encoding previous m)
    (hsame : sameTables m plans.plans = true)
    (hcolumns : ∀ plan ∈ plans.plans, (m'.table plan.name).columns = plan.columns)
    (hrows : ∀ name, (m'.table name).rows = (m.table name).rows) :
    CompleteOrPrevious m plans (replaceTables encoding fails previous plans.plans.zipIdx [] m') ↔
      RecoversTables fails m plans := by
  let done := plans.plans.zipIdx.takeWhile (replaces fails)
  have hdone : ∀ x ∈ done, x ∈ plans.plans.zipIdx ∧ rowsFail fails false x.2 x.1.rows = false := by
    intro x hx
    exact ⟨(List.takeWhile_sublist _).subset hx, by simpa [replaces] using List.mem_takeWhile_imp hx⟩
  obtain ⟨m'', hrun, -, hcolumns', hmem, hnot⟩ :=
    replaceTables_append encoding previous (plans.plans.zipIdx.dropWhile (replaces fails))
      (fun x hx y hy => plans.agree_zipIdx x (hdone x hx).1 y (hdone y hy).1)
      (fun x hx => (hdone x hx).2) [] m'
  rw [List.takeWhile_append_dropWhile, List.nil_append] at hrun
  rw [hrun]
  unfold RecoversTables
  cases hrest : plans.plans.zipIdx.dropWhile (replaces fails) with
  | nil =>
      refine iff_of_true (.inl fun plan hplan => ?_) trivial
      obtain ⟨i, hi⟩ := fst_mem_zipIdx.mp hplan
      have hin : (plan, i) ∈ done := by
        rw [← List.takeWhile_append_dropWhile (p := replaces fails) (l := plans.plans.zipIdx), hrest,
          List.append_nil] at hi
        exact hi
      rw [TableState.eq_iff]
      exact ⟨(hcolumns' _).trans (hcolumns plan hplan), hmem (plan, i) hin⟩
  | cons x rest =>
      obtain ⟨plan, i⟩ := x
      have hfail : rowsFail fails false i plan.rows = true := by
        have := List.head_dropWhile_not (replaces fails) (l := plans.plans.zipIdx) (by simp [hrest])
        simpa [hrest, replaces] using this
      obtain ⟨r, hreplace, hr⟩ := replaceRows_spec fails false i plan.name plan.rows m''
      cases r with
      | ok _ => exact absurd (hr.mp rfl) (by simp [hfail])
      | error c =>
          rw [replaceTables, hreplace]
          refine recoversRows_iff hprevious hsame ?_ ?_ ?_
          · intro name hname
            obtain ⟨x, hx, rfl⟩ := List.mem_map.mp hname
            exact (mem_names_iff hsame).mpr ⟨x.1, fst_mem_zipIdx.mpr ⟨x.2, (hdone x hx).1⟩, rfl⟩
          · intro q hq
            rw [SemanticModel.columns_setRows, hcolumns', hcolumns q hq]
          · intro name hname
            rw [SemanticModel.rows_setRows]
            by_cases heq : name = plan.name
            · subst heq
              rw [if_pos rfl, if_pos rfl, hnot _ hname, hrows]
            · rw [if_neg heq, if_neg heq, hnot _ hname, hrows]

/-- **A re-delivery is complete or previous** exactly when it recovers from the first request that
fails. -/
theorem completeOrPrevious_iff (hprevious : PreviousIs encoding previous m) :
    CompleteOrPrevious m plans (revise encoding fails previous plans m) ↔ Recovers fails m plans := by
  unfold revise send Recovers
  by_cases htables : fails .getTables = true
  · rw [if_pos htables]
    exact iff_of_true (.inr (.inl fun _ _ => rfl)) (.inl htables)
  rw [if_neg htables]
  by_cases hsame : sameTables m plans.plans = true
  swap
  · simp only [id, if_neg hsame]
    exact iff_of_true (.inr (.inl fun _ _ => rfl)) (.inr (.inl (by simpa using hsame)))
  simp only [id, hsame, if_true, htables, Bool.true_eq_false, Bool.false_eq_true, false_or]
  have hchanged : ∀ x ∈ changedTables m plans.plans, x ∈ plans.plans.zipIdx :=
    fun x hx => (mem_changedTables.mp hx).1
  obtain ⟨r, m₁, hput, hok, -, hrows, hmem, hnot⟩ := putTables_spec fails
    (fun x hx y hy => plans.agree_zipIdx x (hchanged x hx) y (hchanged y hy)) m
  rw [hput]
  cases r with
  | error c =>
      have hany : ((changedTables m plans.plans).any fun (_, i) => fails (.putTable i)) = true := by
        by_contra hnone
        exact absurd (hok.mpr (by simpa using hnone)) (by simp)
      rw [if_pos hany]
      exact recoversSchemas_iff hsame hrows hmem hnot
  | ok _ =>
      have hnone := hok.mp rfl
      rw [if_neg (by simp [hnone])]
      have hall : (changedTables m plans.plans).takeWhile (fun (_, i) => !fails (.putTable i)) =
          changedTables m plans.plans := by
        rw [List.takeWhile_eq_self_iff]
        intro x hx
        simpa using List.any_eq_false.mp hnone x hx
      rw [hall] at hmem hnot
      refine completeOrPrevious_replaceTables fails hprevious hsame (fun plan hplan => ?_) hrows
      by_cases hin : plan.name ∈ (changedTables m plans.plans).map fun x => x.1.name
      · obtain ⟨x, hx, hname⟩ := List.mem_map.mp hin
        obtain rfl := plans.agree x.1 (fst_mem_zipIdx.mpr ⟨x.2, hchanged x hx⟩) plan hplan hname
        exact hmem x hx
      · rw [hnot _ hin]
        exact columns_eq_of_notMem_changedTables hplan fun x hx hname =>
          hin (hname ▸ List.mem_map_of_mem hx)

end

/-- Results whose columns are all strings. -/
def textEncoding : Encoding Text where
  pbiType _ := js "String"
  convert _ value := value.asString

/-- A result of one column and one row. -/
def oneRow (value : String) : QueryResult where
  columns := [(js "page", js "text")]
  rows := [.arr [.str (js value)]]

def oneRowTable (value : String) : TableState (EncodedRow Text) where
  columns := [⟨js "page", js "String"⟩]
  rows := [[(js "page", some (js value))]]

/-- Both tables hold the row they were delivered with. -/
def twoPages : SemanticModel (EncodedRow Text) where
  names := [js "a", js "b"]
  table _ := oneRowTable "/old"

def twoPagesPrevious : List (Text × QueryResult) :=
  [(js "a", oneRow "/old"), (js "b", oneRow "/old")]

def pagePlan (name : String) : TablePlan (EncodedRow Text) where
  name := js name
  columns := (oneRowTable "/new").columns
  rows := (oneRowTable "/new").rows

def twoPagePlans : DeliveryPlans (EncodedRow Text) where
  plans := [pagePlan "a", pagePlan "b"]
  agree := by decide

theorem previousIs_twoPages : PreviousIs textEncoding twoPagesPrevious twoPages := by
  intro name hname
  simp only [twoPages, List.mem_cons, List.not_mem_nil, or_false] at hname
  rcases hname with rfl | rfl <;> exact ⟨oneRow "/old", rfl, by decide, by decide⟩

/-- The rows of the second table are not deleted, and the first table is restored. -/
theorem completeOrPrevious_deleteFails :
    CompleteOrPrevious twoPages twoPagePlans (revise textEncoding
      (fun c => decide (c = .deleteRows false 1)) twoPagesPrevious twoPagePlans twoPages) := by
  refine (completeOrPrevious_iff previousIs_twoPages).mpr (.inr (.inr ?_))
  rw [if_neg (by decide)]
  exact .inr (.inl ⟨by decide, by decide⟩)

/-- The rows of the second table are deleted and not pushed. -/
theorem not_completeOrPrevious_postFails :
    ¬ ∀ (Cell : Type) (encoding : Encoding Cell) (fails : WireCall → Bool)
      (previous : List (Text × QueryResult)) (plans : DeliveryPlans (EncodedRow Cell))
      (m : SemanticModel (EncodedRow Cell)), PreviousIs encoding previous m →
        CompleteOrPrevious m plans (revise encoding fails previous plans m) := by
  intro hlaw
  have hleft : (revise textEncoding (fun c => decide (c = .postRows false 1 0)) twoPagesPrevious
      twoPagePlans twoPages).2.table (js "b") = ⟨(oneRowTable "/old").columns, []⟩ := by
    decide
  rcases hlaw Text textEncoding (fun c => decide (c = .postRows false 1 0)) twoPagesPrevious
    twoPagePlans twoPages previousIs_twoPages with hnew | hprev | ⟨states, original, herror⟩
  · have := hnew (pagePlan "b") (by decide)
    rw [pagePlan, hleft] at this
    exact absurd this (by decide)
  · have := hprev (js "b") (by decide)
    rw [hleft] at this
    exact absurd this (by decide)
  · have hwire : (revise textEncoding (fun c => decide (c = .postRows false 1 0)) twoPagesPrevious
        twoPagePlans twoPages).1 = .error (.wire (.postRows false 1 0)) := by
      rfl
    rw [hwire] at herror
    cases herror

end ContextLayer
