import ContextLayer.Ledger

/-!
# The lifecycle of an issue

What one step can do to an issue is said once, by `Turned`; everything else is read off that. Of the
columns a batch goes by only `deliverBatch` and `returnToQueue` write `batch_id`, so a request that
is resolved out of its batch keeps it, through the reopening and into the next verdict.
-/

namespace ContextLayer

open Text Transaction

variable {routing : List (Text × Text)} {l l' : Ledger} {f : Filing} {row : LedgerIssue}

/-! ### What `recordEvent` does -/

theorem putIssue_of_mem {t : IssueTable} (row : LedgerIssue) {r : LedgerIssue} (hr : r ∈ t.rows)
    (hid : row.issueId = r.issueId) (hfingerprint : row.fingerprint = r.fingerprint) :
    ∃ t', putIssue row t = some t' ∧
      t'.rows = t.rows.map fun x => if x.issueId = row.issueId then row else x := by
  have hmem : row.issueId ∈ t.rows.map issueSchema.key := List.mem_map.mpr ⟨r, hr, hid.symm⟩
  have hrows : updateRows issueSchema row.issueId (version row) t.rows =
      t.rows.map fun x => if x.issueId = row.issueId then row else x := by
    unfold updateRows
    apply List.map_congr_left
    intro x _
    by_cases hx : x.issueId = row.issueId
    · have hx' : issueSchema.key x = row.issueId := hx
      simp only [hx', hx, version, if_true]
    · have hx' : issueSchema.key x ≠ row.issueId := hx
      simp only [hx', hx, if_false]
  have hholds : issueSchema.Holds (updateRows issueSchema row.issueId (version row) t.rows) := by
    have hsame : (updateRows issueSchema row.issueId (version row) t.rows).map LedgerIssue.fingerprint =
        t.rows.map LedgerIssue.fingerprint := by
      rw [hrows, List.map_map]
      apply List.map_congr_left
      intro x hx
      by_cases hxid : x.issueId = row.issueId
      · obtain rfl : x = r := t.eq_of_key hx hr (hxid.trans hid)
        simp only [Function.comp_apply, hxid, if_true, hfingerprint]
      · simp only [Function.comp_apply, hxid, if_false]
    change List.Nodup _
    rw [hsame]
    exact t.holds
  obtain ⟨t', ht'⟩ := Table.exists_update hholds
  refine ⟨t', ?_, (Table.update_eq_some.mp ht').trans hrows⟩
  rw [putIssue, if_pos hmem, ht']

theorem putIssue_of_new {t : IssueTable} (row : LedgerIssue)
    (hid : row.issueId ∉ t.rows.map issueSchema.key)
    (hfingerprint : ∀ r ∈ t.rows, r.fingerprint ≠ row.fingerprint) :
    ∃ t', putIssue row t = some t' ∧ t'.rows = t.rows ++ [row] := by
  have hholds : issueSchema.Holds (t.rows ++ [row]) := by
    change List.Nodup _
    rw [List.map_append, List.nodup_append]
    refine ⟨t.holds, List.nodup_singleton _, ?_⟩
    intro a ha b hb
    obtain ⟨r, hr, rfl⟩ := List.mem_map.mp ha
    rw [List.mem_singleton.mp hb]
    exact hfingerprint r hr
  have hinsert : ∃ t', t.insert row = some t' := ⟨_, dif_pos ⟨hid, hholds⟩⟩
  obtain ⟨t', ht'⟩ := hinsert
  refine ⟨t', ?_, Table.insert_eq_some.mp ht'⟩
  rw [putIssue, if_neg hid, ht']

theorem mem_map_version {rows : List LedgerIssue} {row r' : LedgerIssue}
    (h : r' ∈ rows.map fun x => if x.issueId = row.issueId then row else x) :
    r' = row ∨ (r' ∈ rows ∧ r'.issueId ≠ row.issueId) := by
  obtain ⟨x, hx, rfl⟩ := List.mem_map.mp h
  by_cases hid : x.issueId = row.issueId
  · simp only [hid, if_true, true_or]
  · simp only [hid, if_false]
    exact Or.inr ⟨hx, hid⟩

/-- The issue the event is for: the one with its fingerprint, or a new one. -/
theorem upsertIssue_eq_some {t : IssueTable} :
    f.upsertIssue routing t = some row ↔
      (∃ r ∈ t.rows, r.fingerprint = f.fingerprint ∧ row = f.recur r) ∨
      ((∀ r ∈ t.rows, r.fingerprint ≠ f.fingerprint) ∧ f.issueId ∉ t.rows.map issueSchema.key ∧
        row = f.newIssue routing) := by
  unfold Filing.upsertIssue
  split
  · rename_i r hfound
    have hr := List.mem_of_find?_eq_some hfound
    have hrf : r.fingerprint = f.fingerprint := by simpa using List.find?_some hfound
    constructor
    · intro h
      exact Or.inl ⟨r, hr, hrf, (Option.some.inj h).symm⟩
    · rintro (⟨x, hx, hxf, rfl⟩ | ⟨hnone, _⟩)
      · obtain rfl : x = r := List.inj_on_of_nodup_map t.holds hx hr (hxf.trans hrf.symm)
        rfl
      · exact absurd hrf (hnone r hr)
  · rename_i hfound
    have hnone : ∀ r ∈ t.rows, r.fingerprint ≠ f.fingerprint := by
      simpa only [List.find?_eq_none, decide_eq_true_eq] using hfound
    constructor
    · intro h
      by_cases hid : f.issueId ∈ t.rows.map issueSchema.key
      · rw [if_pos hid] at h
        cases h
      · rw [if_neg hid] at h
        exact Or.inr ⟨hnone, hid, (Option.some.inj h).symm⟩
    · rintro (⟨x, hx, hxf, _⟩ | ⟨_, hid, rfl⟩)
      · exact absurd hxf (hnone x hx)
      · rw [if_neg hid]

theorem recordEvent_eq_some :
    recordEvent routing f l = some (row, l') ↔
      ∃ row₀, f.upsertIssue routing l.issues = some row₀ ∧ row = refreshSubjects l'.events row₀ ∧
        l'.events = l.events ++ [f.event row₀.issueId] ∧ putIssue row l.issues = some l'.issues := by
  obtain ⟨issues, events⟩ := l'
  simp only [recordEvent, Option.bind_eq_bind, Option.bind_eq_some_iff, Option.pure_def,
    Option.some.injEq, Prod.mk.injEq, Ledger.mk.injEq]
  constructor
  · rintro ⟨row₀, hupsert, issues', hput, rfl, rfl, rfl⟩
    exact ⟨row₀, hupsert, rfl, rfl, hput⟩
  · rintro ⟨row₀, hupsert, rfl, rfl, hput⟩
    exact ⟨row₀, hupsert, issues, hput, rfl, rfl, rfl⟩

theorem recordEvent_cases (h : recordEvent routing f l = some (row, l')) :
    l'.events = l.events ++ [f.event row.issueId] ∧
    ((∃ r ∈ l.issues.rows, r.fingerprint = f.fingerprint ∧
        row = refreshSubjects l'.events (f.recur r) ∧
        l'.issues.rows = l.issues.rows.map fun x => if x.issueId = row.issueId then row else x) ∨
      ((∀ r ∈ l.issues.rows, r.fingerprint ≠ f.fingerprint) ∧
        row = refreshSubjects l'.events (f.newIssue routing) ∧
        l'.issues.rows = l.issues.rows ++ [row])) := by
  obtain ⟨row₀, hupsert, rfl, hevents, hput⟩ := recordEvent_eq_some.mp h
  refine ⟨hevents, ?_⟩
  rcases upsertIssue_eq_some.mp hupsert with ⟨r, hr, hrf, rfl⟩ | ⟨hnone, hid, rfl⟩
  · obtain ⟨t', ht', hrows⟩ := putIssue_of_mem (refreshSubjects l'.events (f.recur r)) hr rfl rfl
    obtain rfl := Option.some.inj (ht'.symm.trans hput)
    exact Or.inl ⟨r, hr, hrf, rfl, hrows⟩
  · obtain ⟨t', ht', hrows⟩ := putIssue_of_new
      (refreshSubjects l'.events (f.newIssue routing)) hid hnone
    obtain rfl := Option.some.inj (ht'.symm.trans hput)
    exact Or.inr ⟨hnone, rfl, hrows⟩

/-! ### What a step does to an issue -/

/-- The version that the step leaves of an issue. -/
inductive Turned : LedgerStep → LedgerIssue → LedgerIssue → Prop
  | kept {e : LedgerStep} {r : LedgerIssue} : Turned e r r
  | recurs {f : Filing} {events : List LedgerEvent} {r : LedgerIssue} :
      r.fingerprint = f.fingerprint →
      Turned (.recordEvent f) r (refreshSubjects events (f.recur r))
  | updated {a : Act} {stamp : Nat} {r : LedgerIssue} : a.selects r = true →
      a.takesKind r.kind = true → Turned (.update a stamp) r ((a.set stamp).apply r)
  | batched {max : Int} {batchId : Text} {locked : Text → Bool} {r : LedgerIssue} :
      deliverable r = true →
      Turned (.deliverBatch max batchId locked) r ((setBatched batchId).apply r)
  | resolved {issueId : Text} {mergedAt : Nat} {prUrl : Text} {r : LedgerIssue} :
      unresolved issueId r = true →
      Turned (.resolve issueId mergedAt prUrl) r ((setResolved mergedAt prUrl).apply r)

/-- No step renames an issue or changes its kind. -/
theorem Turned.told {e : LedgerStep} {r r' : LedgerIssue} (h : Turned e r r') :
    r'.issueId = r.issueId ∧ r'.fingerprint = r.fingerprint ∧ r'.kind = r.kind := by
  cases h with
  | kept => exact ⟨rfl, rfl, rfl⟩
  | recurs => exact ⟨rfl, rfl, rfl⟩
  | updated => exact ⟨(Act.set _ _).key_apply r, (Act.set _ _).fingerprint_apply r,
      (Act.set _ _).kind_apply r⟩
  | batched => exact ⟨rfl, rfl, rfl⟩
  | resolved => exact ⟨rfl, rfl, rfl⟩

/-- Every issue is left in a version the step makes, and every version there is was left so. -/
structure Turns (e : LedgerStep) (rows rows' : List LedgerIssue) : Prop where
  forward : ∀ r ∈ rows, ∃ r' ∈ rows', Turned e r r'
  backward : ∀ r' ∈ rows', (∃ r ∈ rows, Turned e r r') ∨
    ∃ f routing events, e = .recordEvent f ∧ r' = refreshSubjects events (f.newIssue routing)

theorem turns_refl (e : LedgerStep) (rows : List LedgerIssue) : Turns e rows rows :=
  ⟨fun r hr => ⟨r, hr, .kept⟩, fun r hr => Or.inl ⟨r, hr, .kept⟩⟩

theorem turns_updateWhere {e : LedgerStep} {p : LedgerIssue → Bool} {set : IssueSet}
    {t : IssueTable} (h : ∀ r ∈ t.rows, p r = true → Turned e r (set.apply r)) :
    Turns e t.rows (updateWhere p set t).rows := by
  have hone : ∀ r ∈ t.rows, Turned e r (if p r then set.apply r else r) := by
    intro r hr
    by_cases hp : p r = true
    · rw [if_pos hp]
      exact h r hr hp
    · rw [if_neg hp]
      exact .kept
  constructor
  · intro r hr
    exact ⟨_, mem_updateWhere.mpr ⟨r, hr, rfl⟩, hone r hr⟩
  · intro r' hr'
    obtain ⟨r, hr, rfl⟩ := mem_updateWhere.mp hr'
    exact Or.inl ⟨r, hr, hone r hr⟩

theorem turns_recordEvent (h : recordEvent routing f l = some (row, l')) :
    Turns (.recordEvent f) l.issues.rows l'.issues.rows := by
  obtain ⟨_, ⟨r, hr, hrf, rfl, hrows⟩ | ⟨_, rfl, hrows⟩⟩ := recordEvent_cases h
  · have hturned : Turned (.recordEvent f) r (refreshSubjects l'.events (f.recur r)) := .recurs hrf
    have hrow : refreshSubjects l'.events (f.recur r) ∈ l'.issues.rows := by
      rw [hrows]
      exact List.mem_map.mpr ⟨r, hr, if_pos rfl⟩
    constructor
    · intro x hx
      by_cases hid : x.issueId = r.issueId
      · obtain rfl : x = r := l.issues.eq_of_key hx hr hid
        exact ⟨_, hrow, hturned⟩
      · refine ⟨x, ?_, .kept⟩
        rw [hrows]
        exact List.mem_map.mpr ⟨x, hx, if_neg hid⟩
    · intro r' hr'
      rw [hrows] at hr'
      rcases mem_map_version hr' with rfl | ⟨hmem, _⟩
      · exact Or.inl ⟨r, hr, hturned⟩
      · exact Or.inl ⟨r', hmem, .kept⟩
  · constructor
    · intro x hx
      refine ⟨x, ?_, .kept⟩
      rw [hrows]
      exact List.mem_append_left _ hx
    · intro r' hr'
      rw [hrows] at hr'
      rcases List.mem_append.mp hr' with hmem | hnew
      · exact Or.inl ⟨r', hmem, .kept⟩
      · exact Or.inr ⟨f, routing, l'.events, rfl, List.mem_singleton.mp hnew⟩

theorem deliverable_of_mem_batchOf {max : Int} {locked : Text → Bool} {rows : List LedgerIssue}
    {r : LedgerIssue} (h : r ∈ batchOf max locked rows) : r ∈ rows ∧ deliverable r = true := by
  have hmem := (List.mem_insertionSort demandOrder).mp (List.mem_of_mem_take h)
  obtain ⟨hr, hboth⟩ := List.mem_filter.mp hmem
  rw [Bool.and_eq_true] at hboth
  exact ⟨hr, hboth.1⟩

namespace LedgerState

variable {s : LedgerState} {e : LedgerStep}

/-- A call that goes on to its `UPDATE` has read its issue, with a kind that it takes. -/
def Vetted (s : LedgerState) : Prop :=
  ∀ a ∈ s.acts, ∃ r ∈ s.ledger.issues.rows, r.issueId = a.issueId ∧ a.takesKind r.kind = true

theorem apply_recordEvent (routing : List (Text × Text)) (s : LedgerState) (f : Filing) :
    (recordEvent routing f s.ledger = none ∧ s.apply routing (.recordEvent f) = s) ∨
      ∃ row l, recordEvent routing f s.ledger = some (row, l) ∧
        s.apply routing (.recordEvent f) = { s with ledger := l } := by
  cases hrecord : ContextLayer.recordEvent routing f s.ledger with
  | none =>
      refine Or.inl ⟨rfl, ?_⟩
      simp only [apply, hrecord]
  | some out =>
      refine Or.inr ⟨out.1, out.2, rfl, ?_⟩
      simp only [apply, hrecord]

theorem apply_check (routing : List (Text × Text)) (s : LedgerState) (a : Act) :
    s.apply routing (.check a) = s ∨
      (a.check s.ledger = .ok () ∧ s.apply routing (.check a) = { s with acts := a :: s.acts }) := by
  cases hcheck : a.check s.ledger with
  | error _ =>
      left
      simp only [apply, hcheck]
  | ok _ =>
      refine Or.inr ⟨rfl, ?_⟩
      simp only [apply, hcheck]

/-- **What one step does to the issues.** -/
theorem apply_turns (routing : List (Text × Text)) (hvetted : s.Vetted) (hready : s.Ready e) :
    Turns e s.ledger.issues.rows (s.apply routing e).ledger.issues.rows := by
  cases e with
  | recordEvent f =>
      obtain ⟨_, hsame⟩ | ⟨row, l, hrecord, hledger⟩ := apply_recordEvent routing s f
      · rw [hsame]
        exact turns_refl _ _
      · rw [hledger]
        exact turns_recordEvent hrecord
  | check a =>
      obtain hsame | ⟨_, hledger⟩ := apply_check routing s a
      · rw [hsame]
        exact turns_refl _ _
      · rw [hledger]
        exact turns_refl _ _
  | update a stamp =>
      refine turns_updateWhere fun r hr hselects => .updated hselects ?_
      obtain ⟨x, hx, hid, hkind⟩ := hvetted a hready
      have hrid : r.issueId = a.issueId := by
        simp only [Act.selects, Bool.and_eq_true, decide_eq_true_eq] at hselects
        exact hselects.1.1
      rwa [s.ledger.issues.eq_of_key hr hx (hrid.trans hid.symm)]
  | deliverBatch max batchId locked =>
      refine turns_updateWhere fun r hr hmem => .batched ?_
      rw [decide_eq_true_eq] at hmem
      obtain ⟨x, hx, hid⟩ := List.mem_map.mp hmem
      obtain ⟨hxr, hdeliverable⟩ := deliverable_of_mem_batchOf hx
      rwa [← s.ledger.issues.eq_of_key hxr hr hid]
  | resolve issueId mergedAt prUrl =>
      exact turns_updateWhere fun r _ hunresolved => .resolved hunresolved

theorem vetted_of_check {a : Act} (h : a.check s.ledger = .ok ()) :
    ∃ r ∈ s.ledger.issues.rows, r.issueId = a.issueId ∧ a.takesKind r.kind = true := by
  unfold Act.check Ledger.getIssue at h
  split at h
  · cases h
  rename_i existing hfound
  split at h
  · cases h
  rename_i hkind
  refine ⟨existing, List.mem_of_find?_eq_some hfound, ?_, ?_⟩
  · simpa only [decide_eq_true_eq] using List.find?_some hfound
  · simpa using hkind

theorem Vetted.apply (routing : List (Text × Text)) (hvetted : s.Vetted) (hready : s.Ready e) :
    (s.apply routing e).Vetted := by
  have hturns := apply_turns routing hvetted hready
  have hkept : ∀ a : Act, (∃ r ∈ s.ledger.issues.rows, r.issueId = a.issueId ∧
      a.takesKind r.kind = true) → ∃ r ∈ (s.apply routing e).ledger.issues.rows,
      r.issueId = a.issueId ∧ a.takesKind r.kind = true := by
    rintro a ⟨r, hr, hid, hkind⟩
    obtain ⟨r', hr', hturned⟩ := hturns.forward r hr
    obtain ⟨hid', _, hkind'⟩ := hturned.told
    exact ⟨r', hr', hid'.trans hid, hkind' ▸ hkind⟩
  have hacts : ∀ a ∈ (s.apply routing e).acts, a ∈ s.acts ∨ a.check s.ledger = .ok () := by
    intro a ha
    cases e with
    | check b =>
        obtain hsame | ⟨hcheck, happly⟩ := apply_check routing s b
        · rw [hsame] at ha
          exact Or.inl ha
        · rw [happly] at ha
          rcases List.mem_cons.mp ha with rfl | hold
          · exact Or.inr hcheck
          · exact Or.inl hold
    | recordEvent f =>
        obtain ⟨_, hsame⟩ | ⟨row, l, _, happly⟩ := apply_recordEvent routing s f
        · rw [hsame] at ha
          exact Or.inl ha
        · rw [happly] at ha
          exact Or.inl ha
    | update b stamp => exact Or.inl (List.mem_of_mem_erase ha)
    | _ => exact Or.inl ha
  intro a ha
  rcases hacts a ha with hold | hcheck
  · exact hkept a (hvetted a hold)
  · exact hkept a (vetted_of_check hcheck)

theorem vetted_of_reachable (h : (ledgerMachine routing).Reachable s) : s.Vetted := by
  refine h.invariant ?_ fun _ _ _ hready hvetted => hvetted.apply routing hready
  exact List.forall_mem_nil _

end LedgerState

/-! ### The invariant -/

theorem lawful_of_same {r r' : LedgerIssue} (h : r.Lawful) (hkind : r'.kind = r.kind)
    (hstatus : r'.status = r.status) (hbatch : r'.batchId = r.batchId) : r'.Lawful where
  request hrequest := hstatus ▸ h.request (hkind ▸ hrequest)
  other hother := hstatus ▸ h.other (hkind ▸ hother)
  batched hbatched := hbatch ▸ h.batched (hstatus ▸ hbatched)
  approved happroved := hbatch ▸ h.approved (hstatus ▸ happroved)

/-- Open and resolved issues may be of any kind and keep any batch. -/
theorem lawful_of_unconstrained {r : LedgerIssue}
    (h : r.status = .opened ∨ r.status = .resolved) : r.Lawful := by
  rcases h with h | h <;> constructor <;> simp [h]

theorem Filing.recur_lawful (f : Filing) {r : LedgerIssue} (h : r.Lawful)
    (events : List LedgerEvent) : (refreshSubjects events (f.recur r)).Lawful := by
  by_cases hreopens : r.status.reopens = true
  · apply lawful_of_unconstrained
    left
    simp only [refreshSubjects, Filing.recur, hreopens, if_true]
  · refine lawful_of_same h rfl ?_ rfl
    simp only [refreshSubjects, Filing.recur, hreopens, Bool.false_eq_true, if_false]

/-- An approval must not find a batch on the request; every other call keeps the law by itself. -/
theorem Act.set_lawful (a : Act) (stamp : Nat) {r : LedgerIssue} (hselects : a.selects r = true)
    (htakes : a.takesKind r.kind = true)
    (hbatch : ∀ issueId actor, a = .verdict issueId .approve actor → r.batchId = none) :
    ((a.set stamp).apply r).Lawful := by
  cases a with
  | verdict issueId verdict actor =>
      have hkind : r.kind = enrichmentRequest := by simpa [Act.takesKind] using htakes
      cases verdict with
      | approve =>
          have hnone := hbatch issueId actor rfl
          constructor <;> simp [Act.set, hkind, hnone]
      | reject => constructor <;> simp [Act.set, hkind]
  | triage issueId action actor =>
      have hkind : r.kind ≠ enrichmentRequest := by simpa [Act.takesKind] using htakes
      cases action <;> constructor <;> simp [Act.set, hkind]
  | returnToQueue issueId =>
      have hkind : r.kind = enrichmentRequest := by simpa [Act.takesKind] using htakes
      constructor <;> simp [Act.set, hkind]

theorem setBatched_lawful {r : LedgerIssue} (h : deliverable r = true) (batchId : Text) :
    ((setBatched batchId).apply r).Lawful := by
  have hkind : r.kind = enrichmentRequest := by
    simp only [deliverable, Bool.and_eq_true, decide_eq_true_eq] at h
    exact h.1.1
  constructor <;> simp [setBatched, hkind]

namespace LedgerState

variable {s : LedgerState} {e : LedgerStep}

theorem lawful_apply (hvetted : s.Vetted) (hready : s.Ready e) (hallowed : s.ApprovesUnbatched e)
    (hlawful : ∀ r ∈ s.ledger.issues.rows, r.Lawful) :
    ∀ r' ∈ (s.apply routing e).ledger.issues.rows, r'.Lawful := by
  intro r' hr'
  obtain ⟨r, hr, hturned⟩ | ⟨f, _, events, _, rfl⟩ :=
    (apply_turns routing hvetted hready).backward r' hr'
  · cases hturned with
    | kept => exact hlawful _ hr
    | recurs _ => exact Filing.recur_lawful _ (hlawful _ hr) _
    | updated hselects htakes =>
        refine Act.set_lawful _ _ hselects htakes ?_
        rintro issueId actor rfl
        simp only [Act.selects, Act.takesStatus, Bool.and_eq_true, decide_eq_true_eq] at hselects
        exact hallowed _ hr hselects.1.1 hselects.1.2
    | batched hdeliverable => exact setBatched_lawful hdeliverable _
    | resolved _ => exact lawful_of_unconstrained (Or.inr rfl)
  · exact lawful_of_unconstrained (Or.inl rfl)

theorem lawful_of_reachable
    (h : ((ledgerMachine routing).restrict ApprovesUnbatched).Reachable s) :
    ∀ r ∈ s.ledger.issues.rows, r.Lawful := by
  refine h.invariant (I := fun s => ∀ r ∈ s.ledger.issues.rows, r.Lawful) (List.forall_mem_nil _) ?_
  intro s e hreach hmay hlawful
  exact lawful_apply (vetted_of_reachable hreach.of_restrict) hmay.1 hmay.2 hlawful

/-- A batch as long as the table takes every approved request without a batch. -/
theorem delivers_approved {r : LedgerIssue} (hr : r ∈ s.ledger.issues.rows)
    (hkind : r.kind = enrichmentRequest) (hstatus : r.status = .approved)
    (hbatch : r.batchId = none) (batchId : Text) :
    (setBatched batchId).apply r ∈ (s.apply routing (.deliverBatch s.ledger.issues.rows.length
      batchId fun _ => false)).ledger.issues.rows := by
  have hdeliverable : deliverable r = true := by simp [deliverable, hkind, hstatus, hbatch]
  have hlength : 1 ≤ (s.ledger.issues.rows.length : Int) := by
    have hpos := List.length_pos_of_mem hr
    omega
  have htaken : r ∈ batchOf s.ledger.issues.rows.length (fun _ => false) s.ledger.issues.rows := by
    unfold batchOf
    rw [if_pos hlength, Int.toNat_natCast, List.take_of_length_le]
    · exact (List.mem_insertionSort _).mpr (List.mem_filter.mpr ⟨hr, by simp [hdeliverable]⟩)
    · rw [List.length_insertionSort]
      exact List.length_filter_le _ _
  refine mem_updateWhere.mpr ⟨r, hr, ?_⟩
  rw [if_pos (decide_eq_true (List.mem_map.mpr ⟨r, htaken, rfl⟩))]

/-- **The lifecycle.** As long as no request is approved while it still has the batch it was
resolved out of, every issue is where its kind allows, a batched one names its batch and an approved
one none, and every approved request can be delivered. -/
theorem lifecycle (h : ((ledgerMachine routing).restrict ApprovesUnbatched).Reachable s) :
    (∀ r ∈ s.ledger.issues.rows, r.Lawful) ∧ s.DeliversApproved routing := by
  refine ⟨lawful_of_reachable h, ?_⟩
  intro r hr hstatus
  have hlawful := lawful_of_reachable h r hr
  have hkind : r.kind = enrichmentRequest := by
    by_contra hother
    exact (hlawful.other hother).1 hstatus
  exact ⟨_, js "batch", _, _,
    delivers_approved hr hkind hstatus (hlawful.approved hstatus) (js "batch"), rfl, rfl⟩

end LedgerState

def ordersRequest : LedgerEventInput where
  kind := enrichmentRequest
  scope := js "crm.public.orders"
  system := some (js "crm")
  objectFqn := some (js "crm.public.orders")
  subject := some (js "ada")
  ts := none

def ordersFiled (issueId : String) (now : Nat) : LedgerStep :=
  .recordEvent (ordersRequest.filing (fun _ => js "f1") (js issueId) now)

def ordersApproved (stamp : Nat) : List LedgerStep :=
  [.check (.verdict (js "I1") .approve (js "kim")),
    .update (.verdict (js "I1") .approve (js "kim")) stamp]

/-- A request is approved and delivered. -/
def ordersDelivered : List LedgerStep :=
  ordersFiled "I1" 1 :: ordersApproved 2 ++ [.deliverBatch 10 (js "batch-1") fun _ => false]

/-- The skill hands it back. -/
def ordersReturned : List LedgerStep :=
  ordersDelivered ++ [.check (.returnToQueue (js "I1")), .update (.returnToQueue (js "I1")) 3]

/-- Its batch's pull request resolves it, and it is filed and approved again. -/
def ordersReapproved : List LedgerStep :=
  ordersDelivered ++ [.resolve (js "I1") 4 (js "https://kb/pull/1"), ordersFiled "I2" 5] ++
    ordersApproved 6

theorem lifecycle_ordersReturned :
    (∃ r ∈ (((ledgerMachine []).restrict LedgerState.ApprovesUnbatched).run
        ordersReturned).ledger.issues.rows, r.status = .approved) ∧
      (((ledgerMachine []).restrict LedgerState.ApprovesUnbatched).run
        ordersReturned).DeliversApproved [] :=
  ⟨by decide, (LedgerState.lifecycle (Machine.reachable_run _ _)).2⟩

theorem lifecycle_not_ordersReapproved :
    ¬ ∀ (routing : List (Text × Text)) (s : LedgerState), (ledgerMachine routing).Reachable s →
      (∀ r ∈ s.ledger.issues.rows, r.Lawful) ∧ s.DeliversApproved routing := by
  intro hlaw
  obtain ⟨hlawful, _⟩ := hlaw [] ((ledgerMachine []).run ordersReapproved)
    (Machine.reachable_run _ _)
  have hstuck : ∃ r ∈ ((ledgerMachine []).run ordersReapproved).ledger.issues.rows,
      r.status = .approved ∧ r.batchId ≠ none := by
    decide
  obtain ⟨r, hr, hstatus, hbatch⟩ := hstuck
  exact hbatch ((hlawful r hr).approved hstatus)

end ContextLayer
