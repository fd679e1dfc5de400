import ContextLayer.Proof.Refinement

/-!
# What a claim passes over

The query of a claim ends with `LIMIT 16`, and whether a runner can take a row is found out behind it. A row further
down the queue is not looked at, whoever could take it.
-/

namespace ContextLayer

open Text Transaction Prog

variable {L : Packages} {cfg : CoreConfig} {args : ClaimArgs} {now : Nat} {rows : List JobRow}

/-! ### The jobs a runner can take -/

/-- The job is due, nothing blocks it, and a declaration of the runner matches it. -/
structure Takes (L : Packages) (args : ClaimArgs) (now : Nat) (rows : List JobRow) (j : JobRow) : Prop where
  mem : j ∈ rows
  queued : j.state = .queued
  due : j.notBefore ≤ now
  requested : j.jobClass.text ∈ args.classes
  unblocked : ∀ r ∈ rows, ¬ r.LiveBatch j.dedupeKey
  declared : matchesRow L j args.connectors = true

/-- The rows of the query ahead of its limit. -/
def waiting (args : ClaimArgs) (now : Nat) (rows : List JobRow) : List JobRow :=
  (rows.filter (claimable args now rows)).insertionSort claimOrder

/-- **Complete and in order**: a claim beside which no other is going on is answered with the first job that the runner
can take, and with none only where there is none. -/
def ClaimsFirst (L : Packages) (cfg : CoreConfig) (args : ClaimArgs) (now : Nat) (token : Text) (db : Database) : Prop :=
  ∃ reply db', (claimOnce L cfg args now token (fun _ => false) db.table.rows).run db = some (reply, db') ∧
    (reply = none ↔ ∀ j, ¬ Takes L args now db.table.rows j) ∧
    ∀ row lease, reply = some (row, lease) → ∃ j, Takes L args now db.table.rows j ∧
      row = (setLeased cfg now token args.runnerId).apply j ∧ ∀ j', Takes L args now db.table.rows j' → claimOrder j j'

/-! ### The order of the queue -/

theorem claimOrder_total : Std.Total claimOrder where
  total j j' := by
    unfold claimOrder
    omega

theorem claimOrder_trans : IsTrans JobRow claimOrder where
  trans j j' j'' := by
    unfold claimOrder
    omega

theorem pairwise_waiting (args : ClaimArgs) (now : Nat) (rows : List JobRow) :
    (waiting args now rows).Pairwise claimOrder :=
  haveI := claimOrder_total
  haveI := claimOrder_trans
  List.pairwise_insertionSort claimOrder _

theorem mem_waiting {j : JobRow} :
    j ∈ waiting args now rows ↔ j ∈ rows ∧ claimable args now rows j = true := by
  rw [waiting, List.mem_insertionSort, List.mem_filter]

theorem claimCandidates_alone : claimCandidates args now (fun _ => false) rows = (waiting args now rows).take 16 := by
  simp [claimCandidates, waiting]

/-- What the runner can take is what it declares among the waiting rows. -/
theorem takes_iff {j : JobRow} :
    Takes L args now rows j ↔ j ∈ waiting args now rows ∧ matchesRow L j args.connectors = true := by
  have hclaimable : claimable args now rows j = true ↔ (((j.state = .queued ∧ j.notBefore ≤ now) ∧
      j.jobClass.text ∈ args.classes) ∧ j.connectorName ∈ args.connectors.map ClaimDeclaration.name) ∧
      ∀ r ∈ rows, ¬ r.LiveBatch j.dedupeKey := by
    simp [claimable]
  rw [mem_waiting, hclaimable]
  constructor
  · rintro ⟨hmem, hqueued, hdue, hrequested, hunblocked, hdeclared⟩
    obtain ⟨d, hd, hmatch⟩ := List.any_eq_true.mp hdeclared
    simp only [Bool.and_eq_true, decide_eq_true_eq] at hmatch
    have hname : j.connectorName ∈ args.connectors.map ClaimDeclaration.name :=
      List.mem_map.mpr ⟨d, hd, hmatch.1.1⟩
    exact ⟨⟨hmem, ⟨⟨⟨hqueued, hdue⟩, hrequested⟩, hname⟩, hunblocked⟩, hdeclared⟩
  · rintro ⟨⟨hmem, ⟨⟨⟨hqueued, hdue⟩, hrequested⟩, -⟩, hunblocked⟩, hdeclared⟩
    exact ⟨hmem, hqueued, hdue, hrequested, hunblocked, hdeclared⟩

/-- The first match of the rows that are looked at is the first of all. -/
theorem claimOrder_of_find? {row j : JobRow} {n : Nat} {p : JobRow → Bool}
    (hfind : ((waiting args now rows).take n).find? p = some row) (hj : j ∈ waiting args now rows) (hp : p j = true) :
    claimOrder row j := by
  obtain ⟨-, before, behind, htake, hbefore⟩ := List.find?_eq_some_iff_append.mp hfind
  have hsplit : waiting args now rows = before ++ row :: (behind ++ (waiting args now rows).drop n) := by
    rw [← List.cons_append, ← List.append_assoc, ← htake, List.take_append_drop]
  have hpairwise := pairwise_waiting args now rows
  rw [hsplit] at hj hpairwise
  obtain hj | hj := List.mem_append.mp hj
  · have hnot := hbefore j hj
    rw [hp] at hnot
    cases hnot
  · obtain ⟨-, hpairwise, -⟩ := List.pairwise_append.mp hpairwise
    obtain rfl | hj := List.mem_cons.mp hj
    · exact claimOrder_total.total j j |>.elim id id
    · exact (List.pairwise_cons.mp hpairwise).1 j hj

/-! ### A claim without others -/

section

variable {token : Text} {db : Database}

/-- What a claim is answered, and that the database does not refuse it. -/
theorem claimOnce_reply (hasked : args.connectors.isEmpty = false ∧ args.classes.isEmpty = false) :
    (((waiting args now db.table.rows).take 16).find? (matchesRow L · args.connectors) = none ∧
      (claimOnce L cfg args now token (fun _ => false) db.table.rows).run db = some (none, db)) ∨
    ∃ row db', ((waiting args now db.table.rows).take 16).find? (matchesRow L · args.connectors) = some row ∧
      (claimOnce L cfg args now token (fun _ => false) db.table.rows).run db =
        some (some ((setLeased cfg now token args.runnerId).apply row, ⟨token, now + secs cfg.leaseTtlS, cfg.leaseTtlS⟩),
          db') := by
  have hclaim : claimOnce L cfg args now token (fun _ => false) db.table.rows =
      (((waiting args now db.table.rows).take 16).find? (matchesRow L · args.connectors)).elim (pure none)
        fun row => updateRow row.jobId (setLeased cfg now token args.runnerId) >>= fun _ =>
          pure (some ((setLeased cfg now token args.runnerId).apply row,
            ⟨token, now + secs cfg.leaseTtlS, cfg.leaseTtlS⟩)) := by
    rw [claimOnce, hasked.1, hasked.2, claimCandidates_alone, if_neg (by decide)]
    cases ((waiting args now db.table.rows).take 16).find? (matchesRow L · args.connectors) with
    | none => rfl
    | some row => rfl
  rw [hclaim]
  cases hfind : ((waiting args now db.table.rows).take 16).find? (matchesRow L · args.connectors) with
  | none => exact .inl ⟨rfl, rfl⟩
  | some row =>
      have hrow : row ∈ db.table.rows :=
        (mem_waiting.mp (List.mem_of_mem_take (List.mem_of_find?_eq_some hfind))).1
      obtain ⟨t', ht'⟩ := update_isSome hrow (setLeased cfg now token args.runnerId) fun _ hqueued =>
        JobState.noConfusion hqueued.1
      refine .inr ⟨row, { db with table := t' }, rfl, ?_⟩
      change ((db.table.update row.jobId (setLeased cfg now token args.runnerId)).bind fun t => _) = _
      rw [ht']
      rfl

/-- A claim that asks for nothing is answered with nothing. -/
theorem claimOnce_of_unasked (hasked : ¬ (args.connectors.isEmpty = false ∧ args.classes.isEmpty = false)) :
    (claimOnce L cfg args now token (fun _ => false) db.table.rows).run db = some (none, db) := by
  have hempty : (args.connectors.isEmpty || args.classes.isEmpty) = true := by
    cases hc : args.connectors.isEmpty <;> cases hk : args.classes.isEmpty <;> simp [hc, hk] at hasked ⊢
  rw [claimOnce, if_pos hempty]
  rfl

theorem Takes.asked {j : JobRow} (h : Takes L args now rows j) :
    args.connectors.isEmpty = false ∧ args.classes.isEmpty = false := by
  obtain ⟨d, hd, -⟩ := List.any_eq_true.mp h.declared
  exact ⟨List.isEmpty_eq_false_iff.mpr (List.ne_nil_of_mem hd),
    List.isEmpty_eq_false_iff.mpr (List.ne_nil_of_mem h.requested)⟩

theorem exists_waiting_of_claimsFirst (h : ClaimsFirst L cfg args now token db) {j : JobRow}
    (hj : Takes L args now db.table.rows j) :
    ∃ j ∈ (waiting args now db.table.rows).take 16, matchesRow L j args.connectors = true := by
  obtain ⟨reply, db', hreply, hanswer, -⟩ := h
  obtain ⟨-, hrun⟩ | ⟨row, _, hfind, -⟩ := claimOnce_reply (L := L) hj.asked
  · obtain ⟨rfl, rfl⟩ := Prod.mk.inj (Option.some.inj (hrun.symm.trans hreply))
    exact absurd hj (hanswer.mp rfl j)
  · have hmatch := List.find?_some hfind
    exact ⟨row, List.mem_of_find?_eq_some hfind, hmatch⟩

theorem claimsFirst_of_waiting (h : (∃ j, Takes L args now db.table.rows j) →
    ∃ j ∈ (waiting args now db.table.rows).take 16, matchesRow L j args.connectors = true) :
    ClaimsFirst L cfg args now token db := by
  by_cases hasked : args.connectors.isEmpty = false ∧ args.classes.isEmpty = false
  · obtain ⟨hfind, hrun⟩ | ⟨row, db', hfind, hrun⟩ := claimOnce_reply (L := L) hasked
    · have hnobody : ∀ j, ¬ Takes L args now db.table.rows j := by
        intro j hj
        obtain ⟨j', hj', hmatch⟩ := h ⟨j, hj⟩
        exact List.find?_eq_none.mp hfind j' hj' hmatch
      exact ⟨none, db, hrun, iff_of_true rfl hnobody, fun _ _ heq => nomatch heq⟩
    · have hmatch := List.find?_some hfind
      have hrow : Takes L args now db.table.rows row :=
        takes_iff.mpr ⟨List.mem_of_mem_take (List.mem_of_find?_eq_some hfind), hmatch⟩
      refine ⟨_, db', hrun, iff_of_false (fun heq => nomatch heq) fun hnobody => hnobody row hrow, ?_⟩
      intro row' lease heq
      obtain ⟨rfl, -⟩ := Prod.mk.inj (Option.some.inj heq)
      refine ⟨row, hrow, rfl, fun j hj => ?_⟩
      obtain ⟨hwaiting, hdeclared⟩ := takes_iff.mp hj
      exact claimOrder_of_find? hfind hwaiting hdeclared
  · have hnobody : ∀ j, ¬ Takes L args now db.table.rows j := fun _ hj => hasked hj.asked
    exact ⟨none, db, claimOnce_of_unasked hasked, iff_of_true rfl hnobody, fun _ _ heq => nomatch heq⟩

/-- **The head of the queue**: a claim is complete and in order exactly when one of the first sixteen waiting jobs is
one the runner can take, if there is any that it can take at all. -/
theorem claimsFirst_iff (L : Packages) (cfg : CoreConfig) (args : ClaimArgs) (now : Nat) (token : Text) (db : Database) :
    ClaimsFirst L cfg args now token db ↔
      ((∃ j, Takes L args now db.table.rows j) →
        ∃ j ∈ (waiting args now db.table.rows).take 16, matchesRow L j args.connectors = true) :=
  ⟨fun h ⟨_, hj⟩ => exists_waiting_of_claimsFirst h hj, claimsFirst_of_waiting⟩

end

/-! ### A backlog -/

/-- Jobs of two releases of a connector: all but the last ask for a version that is not out yet. -/
def backlogJob (n : Nat) : JobRow where
  jobId := [UInt16.ofNat n]
  type := js "execute"
  jobClass := .interactive
  system := js "crm"
  connectorName := js "postgres"
  versionConstraint := if n < 16 then js ">=2.0.0" else js ">=1.0.0"
  payload := .null
  priority := 10
  attempt := 1
  maxAttempts := 1
  deadlineS := 60
  state := .queued
  notBefore := n
  deferrals := 0
  maxDeferrals := 3
  leaseToken := none
  leaseExpiresAt := none
  runnerId := none
  cancelRequested := false
  triggers := []
  progress := none
  error := none
  reenqueuedAs := none
  result := none
  resultMeta := none
  createdAt := n
  startedAt := none
  finishedAt := none

def backlog : List JobRow := (List.range 17).map backlogJob

def backlogDatabase : Database where
  table := ⟨backlog, by decide, by decide⟩
  rest := ⟨[], []⟩

/-- The runner has the release before. -/
def backlogArgs : ClaimArgs :=
  ⟨js "runner-1", [⟨js "postgres", some (js "1.4.0"), none⟩], [js "interactive"]⟩

def backlogPackages : Packages where
  validRange _ := true
  satisfies version range := decide (version = js "1.4.0" ∧ range = js ">=1.0.0")
  redactString := id
  string _ := []

/-- Sixteen jobs for a later release keep a runner from the job it has the release for. -/
theorem not_claimsFirst_backlog :
    ¬ ClaimsFirst backlogPackages ⟨60, 5, 300, 3, 5⟩ backlogArgs 20 (js "token") backlogDatabase := by
  intro h
  have hlast : Takes backlogPackages backlogArgs 20 backlog (backlogJob 16) := by
    refine takes_iff.mpr ⟨mem_waiting.mpr ⟨List.mem_map_of_mem (by decide), by decide⟩, by decide⟩
  have hhead : ((waiting backlogArgs 20 backlog).take 16).any (matchesRow backlogPackages · backlogArgs.connectors) =
      false := by
    decide +kernel
  obtain ⟨j, hj, hmatch⟩ := exists_waiting_of_claimsFirst h hlast
  exact absurd hmatch (List.any_eq_false.mp hhead j hj)

end ContextLayer
