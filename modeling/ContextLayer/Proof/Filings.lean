import Mathlib.Data.Finset.Card
import Mathlib.Data.List.Pairwise
import Mathlib.Order.Bounds.Basic
import ContextLayer.Filings
import ContextLayer.Proof.Ledger

/-!
# Commits in a row

An open transaction has written what it would write if it began now: the rows it went by are locked,
and what others commit beside it is about other issues. So it commits what `recordEvent` does alone,
and an issue holds the tally of the commits under its fingerprint, in the order of the commits.
-/

namespace ContextLayer

open Text Transaction

variable {routing : List (Text × Text)} {w w' : FilingWorld}

/-! ### What an open transaction rests on -/

/-- What the transaction has written is what it would write over this ledger. -/
def OpenFiling.Sound (routing : List (Text × Text)) (l : Ledger) (x : OpenFiling) : Prop :=
  match x.stage with
  | .stamped => True
  | .upserted row => x.filing.upsertIssue routing l.issues = some row
  | .inserted row event =>
      x.filing.upsertIssue routing l.issues = some row ∧ event = x.filing.event row.issueId
  | .counted row event => ∃ row₀, x.filing.upsertIssue routing l.issues = some row₀ ∧
      event = x.filing.event row₀.issueId ∧ row = refreshSubjects (l.events ++ [event]) row₀

/-- The change of the ledger is nothing to the filing. -/
def Undisturbed (routing : List (Text × Text)) (f : Filing) (l l' : Ledger) : Prop :=
  ∀ row, f.upsertIssue routing l.issues = some row →
    f.upsertIssue routing l'.issues = some row ∧
      ∀ event, countSubjects row.issueId (l'.events ++ [event]) =
        countSubjects row.issueId (l.events ++ [event])

theorem OpenFiling.Sound.transfer {l l' : Ledger} {x : OpenFiling} (h : x.Sound routing l)
    (hundisturbed : x.stage.row.isSome = true → Undisturbed routing x.filing l l') :
    x.Sound routing l' := by
  unfold OpenFiling.Sound at h ⊢
  obtain ⟨session, f, stage⟩ := x
  cases stage with
  | stamped => trivial
  | upserted row => exact (hundisturbed rfl row h).1
  | inserted row event => exact ⟨(hundisturbed rfl row h.1).1, h.2⟩
  | counted row event =>
      obtain ⟨row₀, hupsert, hevent, hrow⟩ := h
      obtain ⟨hupsert', hcount⟩ := hundisturbed rfl row₀ hupsert
      refine ⟨row₀, hupsert', hevent, ?_⟩
      rw [hrow]
      simp only [refreshSubjects, hcount]

/-- The version written is of the issue the upsert found, or of a new one. -/
theorem OpenFiling.Sound.upsert {l : Ledger} {x : OpenFiling} (h : x.Sound routing l)
    (hwrote : x.stage.row.isSome = true) :
    ∃ row₀, x.filing.upsertIssue routing l.issues = some row₀ ∧
      ∃ row ∈ x.stage.row, row.issueId = row₀.issueId := by
  unfold OpenFiling.Sound at h
  obtain ⟨session, f, stage⟩ := x
  cases stage with
  | stamped => cases hwrote
  | upserted row => exact ⟨row, h, row, rfl, rfl⟩
  | inserted row event => exact ⟨row, h.1, row, rfl, rfl⟩
  | counted row event =>
      obtain ⟨row₀, hupsert, _, hrow⟩ := h
      refine ⟨row₀, hupsert, row, rfl, ?_⟩
      rw [hrow]
      rfl

theorem countSubjects_of_ne {issueId : Text} {event : LedgerEvent} (h : event.issueId ≠ issueId)
    (events : List LedgerEvent) (e : LedgerEvent) :
    countSubjects issueId (events ++ [event] ++ [e]) = countSubjects issueId (events ++ [e]) := by
  have hnil : [event].filter (fun e => decide (e.issueId = issueId)) = [] := by
    rw [List.filter_eq_nil_iff]
    intro x hx
    rw [List.mem_singleton.mp hx]
    simpa using h
  simp only [countSubjects, List.filter_append, hnil, List.append_nil]

/-- A commit of a filing that it would not have waited for. -/
theorem undisturbed_of_recordEvent {f g : Filing} {l l' : Ledger} {row : LedgerIssue}
    (hrecord : recordEvent routing g l = some (row, l'))
    (hfingerprint : f.fingerprint ≠ g.fingerprint) (hissue : f.issueId ≠ g.issueId) :
    Undisturbed routing f l l' := by
  obtain ⟨hevents, hissues⟩ := recordEvent_cases hrecord
  have hrow : row ∈ l'.issues.rows ∧ row.fingerprint = g.fingerprint := by
    rcases hissues with ⟨r, hr, hrg, hrow, hrows⟩ | ⟨_, hrow, hrows⟩
    · have hid : r.issueId = row.issueId := by rw [hrow]; rfl
      constructor
      · rw [hrows]
        exact List.mem_map.mpr ⟨r, hr, if_pos hid⟩
      · rw [hrow]
        exact hrg
    · constructor
      · rw [hrows]
        exact List.mem_append_right _ (List.mem_singleton_self _)
      · rw [hrow]
        rfl
  -- Rows with the fingerprint stay, and no row gets it, or the key.
  have hkept : ∀ r ∈ l.issues.rows, r.fingerprint = f.fingerprint → r ∈ l'.issues.rows := by
    intro r hr hrf
    rcases hissues with ⟨x, hx, hxg, hrow', hrows⟩ | ⟨_, _, hrows⟩
    · have hne : r.issueId ≠ row.issueId := by
        intro hid
        have hxid : x.issueId = row.issueId := by rw [hrow']; rfl
        obtain rfl : r = x := l.issues.eq_of_key hr hx (hid.trans hxid.symm)
        exact hfingerprint (hrf.symm.trans hxg)
      rw [hrows]
      exact List.mem_map.mpr ⟨r, hr, if_neg hne⟩
    · rw [hrows]
      exact List.mem_append_left _ hr
  have hnone : (∀ r ∈ l.issues.rows, r.fingerprint ≠ f.fingerprint) →
      ∀ r ∈ l'.issues.rows, r.fingerprint ≠ f.fingerprint := by
    intro hnone r hr hrf
    rcases hissues with ⟨_, _, _, _, hrows⟩ | ⟨_, _, hrows⟩
    · rw [hrows] at hr
      rcases mem_map_version hr with rfl | ⟨hold, _⟩
      · exact hfingerprint (hrf.symm.trans hrow.2)
      · exact hnone r hold hrf
    · rw [hrows] at hr
      rcases List.mem_append.mp hr with hold | hnew
      · exact hnone r hold hrf
      · rw [List.mem_singleton.mp hnew] at hrf
        exact hfingerprint (hrf.symm.trans hrow.2)
  have hkey : f.issueId ∉ l.issues.rows.map issueSchema.key →
      f.issueId ∉ l'.issues.rows.map issueSchema.key := by
    intro hkey hmem
    obtain ⟨r, hr, hid⟩ := List.mem_map.mp hmem
    rcases hissues with ⟨x, hx, _, hrow', hrows⟩ | ⟨_, hrow', hrows⟩
    · rw [hrows] at hr
      rcases mem_map_version hr with rfl | ⟨hold, _⟩
      · refine hkey (List.mem_map.mpr ⟨x, hx, ?_⟩)
        rw [← hid, hrow']
        rfl
      · exact hkey (List.mem_map.mpr ⟨r, hold, hid⟩)
    · rw [hrows] at hr
      rcases List.mem_append.mp hr with hold | hnew
      · exact hkey (List.mem_map.mpr ⟨r, hold, hid⟩)
      · rw [List.mem_singleton.mp hnew, hrow'] at hid
        exact hissue hid.symm
  intro row₀ hupsert
  rcases upsertIssue_eq_some.mp hupsert with ⟨r, hr, hrf, rfl⟩ | ⟨hnew, hid, rfl⟩
  · refine ⟨upsertIssue_eq_some.mpr (Or.inl ⟨r, hkept r hr hrf, hrf, rfl⟩), ?_⟩
    intro event
    have hne : row.issueId ≠ r.issueId := by
      intro hsame
      obtain rfl : row = r := l'.issues.eq_of_key hrow.1 (hkept r hr hrf) hsame
      exact hfingerprint (hrf.symm.trans hrow.2)
    rw [hevents]
    exact countSubjects_of_ne hne _ _
  · refine ⟨upsertIssue_eq_some.mpr (Or.inr ⟨hnone hnew, hkey hid, rfl⟩), ?_⟩
    intro event
    have hne : row.issueId ≠ f.issueId := by
      intro hsame
      exact hkey hid (List.mem_map.mpr ⟨row, hrow.1, hsame⟩)
    rw [hevents]
    exact countSubjects_of_ne hne _ _

/-! ### One statement -/

namespace FilingWorld

theorem mem_of_open? {session : Nat} {x : OpenFiling} (h : w.open? session = some x) :
    x ∈ w.pending.rows ∧ x.session = session :=
  ⟨List.mem_of_find?_eq_some h, by simpa using List.find?_some h⟩

theorem enter_eq_some {session : Nat} {stage : FilingStage} :
    w.enter session stage = some w' ↔ ∃ pending,
      pending.rows = updateRows filingSchema session (setStage stage) w.pending.rows ∧
      { w with pending } = w' := by
  simp only [enter, Option.bind_eq_bind, Option.bind_eq_some_iff, Option.pure_def,
    Option.some.injEq, Table.update_eq_some]

/-- What the statement leaves committed. -/
inductive Committed (routing : List (Text × Text)) (w : FilingWorld) : FilingWorld → Prop
  | nothing {w' : FilingWorld} : w'.state = w.state → w'.filed = w.filed → Committed routing w w'
  | step {w' : FilingWorld} (e : LedgerStep) : w.MayStep routing e →
      w'.state = w.state.apply routing e → w'.filed = w.filed → Committed routing w w'
  | filing {w' : FilingWorld} {f : Filing} {row : LedgerIssue} {l : Ledger} :
      recordEvent routing f w.state.ledger = some (row, l) →
      w'.state = { w.state with ledger := l } → w'.filed = w.filed ++ [f] → Committed routing w w'

def Sound (routing : List (Text × Text)) (w : FilingWorld) : Prop :=
  ∀ x ∈ w.pending.rows, x.Sound routing w.state.ledger

theorem Sound.recordEvent (hsound : w.Sound routing) {session : Nat} {f : Filing}
    {row : LedgerIssue} {event : LedgerEvent} {issues : IssueTable}
    (hopen : w.open? session = some ⟨session, f, .counted row event⟩)
    (hput : putIssue row w.state.ledger.issues = some issues) :
    recordEvent routing f w.state.ledger =
      some (row, ⟨issues, w.state.ledger.events ++ [event]⟩) := by
  obtain ⟨row₀, hupsert, hevent, hrow⟩ := hsound _ (mem_of_open? hopen).1
  refine recordEvent_eq_some.mpr ⟨row₀, hupsert, hrow, ?_, hput⟩
  rw [hevent]

theorem Sound.enter (hsound : w.Sound routing) {session : Nat} {stage : FilingStage} {f : Filing}
    {stage₀ : FilingStage} (hopen : w.open? session = some ⟨session, f, stage₀⟩)
    (henter : w.enter session stage = some w')
    (hstage : OpenFiling.Sound routing w.state.ledger ⟨session, f, stage⟩) :
    Committed routing w w' ∧ w'.Sound routing := by
  obtain ⟨pending, hrows, rfl⟩ := enter_eq_some.mp henter
  refine ⟨.nothing rfl rfl, ?_⟩
  intro x hx
  change x ∈ pending.rows at hx
  rw [hrows] at hx
  rcases mem_updateRows.mp hx with ⟨y, hy, hsession, rfl⟩ | ⟨hold, _⟩
  · obtain ⟨hmem, _⟩ := mem_of_open? hopen
    obtain rfl := w.pending.eq_of_key hy hmem hsession
    exact hstage
  · exact hsound x hold

/-- A transaction ends; what it leaves of the others is no news to them. -/
theorem sound_delete {session : Nat} {l : Ledger}
    (h : ∀ x ∈ w.pending.rows, x.session ≠ session → x.Sound routing l) :
    ∀ x ∈ (w.pending.delete session).rows, x.Sound routing l := by
  intro x hx
  obtain ⟨hmem, hne⟩ := mem_deleteRows.mp hx
  exact h x hmem hne

theorem Sound.commit (hsound : w.Sound routing) {session : Nat} {f : Filing} {row : LedgerIssue}
    {event : LedgerEvent} {l : Ledger}
    (hopen : w.open? session = some ⟨session, f, .counted row event⟩)
    (hrecord : ContextLayer.recordEvent routing f w.state.ledger = some (row, l)) :
    ∀ x ∈ (w.pending.delete session).rows, x.Sound routing l := by
  refine sound_delete fun x hx hne => ?_
  refine (hsound x hx).transfer fun hwrote => ?_
  obtain ⟨hmem, _⟩ := mem_of_open? hopen
  have hclash : ¬ x.Clash ⟨session, f, .counted row event⟩ := by
    have hsymm : Std.Symm fun x y : OpenFiling => ¬ x.Clash y :=
      ⟨fun _ _ h hclash => h ⟨hclash.2.1, hclash.1, hclash.2.2.imp Eq.symm Eq.symm⟩⟩
    have hpairwise : w.pending.rows.Pairwise fun x y => ¬ x.Clash y := w.pending.holds
    exact hpairwise.forall hx hmem fun hsame => hne (congrArg OpenFiling.session hsame)
  apply undisturbed_of_recordEvent hrecord
  · intro hsame
    exact hclash ⟨hwrote, rfl, Or.inl hsame⟩
  · intro hsame
    exact hclash ⟨hwrote, rfl, Or.inr hsame⟩

theorem apply_events {s : LedgerState} {e : LedgerStep} (h : e.records = false) :
    (s.apply routing e).ledger.events = s.ledger.events := by
  cases e with
  | recordEvent f => cases h
  | check a =>
      obtain hsame | ⟨_, happly⟩ := LedgerState.apply_check routing s a
      · rw [hsame]
      · rw [happly]
  | _ => rfl

/-- Other calls leave the rows alone that a transaction has locked. -/
theorem undisturbed_of_mayStep {e : LedgerStep} (hvetted : w.state.Vetted)
    (hmay : w.MayStep routing e) {x : OpenFiling} (hx : x ∈ w.pending.rows)
    (hsound : x.Sound routing w.state.ledger) (hwrote : x.stage.row.isSome = true) :
    Undisturbed routing x.filing w.state.ledger (w.state.apply routing e).ledger := by
  obtain ⟨hready, hrecords, hlocked⟩ := hmay
  have hturns := LedgerState.apply_turns routing hvetted hready
  have hback : ∀ r' ∈ (w.state.apply routing e).ledger.issues.rows,
      ∃ r ∈ w.state.ledger.issues.rows, Turned e r r' := by
    intro r' hr'
    obtain hold | ⟨f, _, _, rfl, _⟩ := hturns.backward r' hr'
    · exact hold
    · cases hrecords
  intro row hupsert
  obtain ⟨row₀, hupsert₀, version, hversion, hid⟩ := hsound.upsert hwrote
  obtain rfl := Option.some.inj (hupsert₀.symm.trans hupsert)
  refine ⟨?_, fun event => by rw [apply_events hrecords]⟩
  rcases upsertIssue_eq_some.mp hupsert with ⟨r, hr, hrf, rfl⟩ | ⟨hnone, hkey, rfl⟩
  · refine upsertIssue_eq_some.mpr (Or.inl ⟨r, hlocked r hr ?_, hrf, rfl⟩)
    refine List.any_eq_true.mpr ⟨x, hx, ?_⟩
    rw [Option.mem_def.mp hversion]
    exact decide_eq_true hid
  · refine upsertIssue_eq_some.mpr (Or.inr ⟨?_, ?_, rfl⟩)
    · intro r' hr' hrf
      obtain ⟨r, hr, hturned⟩ := hback r' hr'
      exact hnone r hr (hturned.told.2.1.symm.trans hrf)
    · intro hmem
      obtain ⟨r', hr', hid'⟩ := List.mem_map.mp hmem
      obtain ⟨r, hr, hturned⟩ := hback r' hr'
      exact hkey (List.mem_map.mpr ⟨r, hr, hturned.told.1.symm.trans hid'⟩)

/-- **One statement** of an interleaving: what it leaves committed is what one call alone does. -/
theorem step?_committed (hvetted : w.state.Vetted) (hsound : w.Sound routing) {e : FilingEvent}
    (h : w.step? routing e = some w') : w.Committed routing w' ∧ w'.Sound routing := by
  cases e with
  | opens session f =>
      simp only [step?, Option.bind_eq_bind, Option.bind_eq_some_iff, Option.pure_def,
        Option.some.injEq] at h
      obtain ⟨pending, hinsert, rfl⟩ := h
      refine ⟨.nothing rfl rfl, ?_⟩
      intro x hx
      change x ∈ pending.rows at hx
      rw [Table.insert_eq_some.mp hinsert] at hx
      rcases List.mem_append.mp hx with hold | hnew
      · exact hsound x hold
      · rw [List.mem_singleton.mp hnew]
        trivial
  | upsert session =>
      simp only [step?] at h
      split at h
      · rename_i s f hopen
        obtain rfl : s = session := (mem_of_open? hopen).2
        obtain ⟨row, hupsert, henter⟩ := Option.bind_eq_some_iff.mp h
        exact hsound.enter hopen henter hupsert
      · cases h
  | insertEvent session =>
      simp only [step?] at h
      split at h
      · rename_i s f row hopen
        obtain rfl : s = session := (mem_of_open? hopen).2
        exact hsound.enter hopen h ⟨hsound _ (mem_of_open? hopen).1, rfl⟩
      · cases h
  | countSubjects session =>
      simp only [step?] at h
      split at h
      · rename_i s f row event hopen
        obtain rfl : s = session := (mem_of_open? hopen).2
        obtain ⟨hupsert, hevent⟩ := hsound _ (mem_of_open? hopen).1
        exact hsound.enter hopen h ⟨row, hupsert, hevent, rfl⟩
      · cases h
  | commit session =>
      simp only [step?] at h
      split at h
      · rename_i s f row event hopen
        obtain rfl : s = session := (mem_of_open? hopen).2
        obtain ⟨issues, hput, hw'⟩ := Option.bind_eq_some_iff.mp h
        obtain rfl := Option.some.inj hw'
        have hrecord := hsound.recordEvent hopen hput
        exact ⟨.filing hrecord rfl rfl, hsound.commit hopen hrecord⟩
      · cases h
  | rollback session =>
      obtain rfl := Option.some.inj h
      exact ⟨.nothing rfl rfl, sound_delete fun x hx _ => hsound x hx⟩
  | step e =>
      simp only [step?] at h
      split at h
      · rename_i hmay
        obtain rfl := Option.some.inj h
        refine ⟨.step e hmay rfl rfl, ?_⟩
        intro x hx
        exact (hsound x hx).transfer (undisturbed_of_mayStep hvetted hmay hx (hsound x hx))
      · cases h

/-- **Every interleaving of the statements is one of whole calls**, as far as anyone can see. -/
theorem refines (h : (filingMachine routing).Reachable w) :
    (ledgerMachine routing).Reachable w.state ∧ w.Sound routing := by
  refine h.invariant (I := fun w => (ledgerMachine routing).Reachable w.state ∧ w.Sound routing)
    ⟨.start, List.forall_mem_nil _⟩ ?_
  rintro w e _ hmay ⟨hreach, hsound⟩
  obtain ⟨w', hw'⟩ := Option.isSome_iff_exists.mp hmay
  obtain ⟨hcommitted, hsound'⟩ := step?_committed (LedgerState.vetted_of_reachable hreach) hsound hw'
  have hnext : (filingMachine routing).next w e = w' := by
    change (w.step? routing e).getD w = w'
    rw [hw', Option.getD_some]
  rw [hnext]
  refine ⟨?_, hsound'⟩
  cases hcommitted with
  | nothing hstate _ => rwa [hstate]
  | step e hmay hstate _ =>
      rw [hstate]
      exact .step e hreach hmay.1
  | @filing f _ _ hrecord hstate _ =>
      have happly : (ledgerMachine routing).next w.state (.recordEvent f) = w'.state := by
        rw [hstate]
        change w.state.apply routing (.recordEvent f) = _
        simp only [LedgerState.apply, hrecord]
      rw [← happly]
      exact .step _ hreach trivial

end FilingWorld

/-! ### The tally -/

theorem under_append_self (filed : List Filing) (f : Filing) :
    under f.fingerprint (filed ++ [f]) = under f.fingerprint filed ++ [f] := by
  simp [under, List.filter_append]

theorem under_append_ne {fingerprint : Text} {f : Filing} (h : f.fingerprint ≠ fingerprint)
    (filed : List Filing) : under fingerprint (filed ++ [f]) = under fingerprint filed := by
  simp [under, List.filter_append, h]

def eventsOf (issueId : Text) (events : List LedgerEvent) : List LedgerEvent :=
  events.filter fun e => decide (e.issueId = issueId)

/-- The issue keeps count of the filings: the first one's time, and the last one's. -/
structure Tally (filings : List Filing) (events : List LedgerEvent) (r : LedgerIssue) : Prop where
  occurrences : r.occurrences = filings.length
  firstSeen : filings.head?.map Filing.ts = some r.firstSeen
  lastSeen : filings.getLast?.map Filing.ts = some r.lastSeen
  subjects : (eventsOf r.issueId events).map LedgerEvent.subject =
    filings.map fun f => f.input.subject
  distinctSubjects : r.distinctSubjects = countSubjects r.issueId events

structure Tallied (l : Ledger) (filed : List Filing) : Prop where
  issues : ∀ r ∈ l.issues.rows, Tally (under r.fingerprint filed) l.events r
  filed : ∀ f ∈ filed, ∃ r ∈ l.issues.rows, r.fingerprint = f.fingerprint
  events : ∀ e ∈ l.events, ∃ r ∈ l.issues.rows, r.issueId = e.issueId

theorem eventsOf_append_self (f : Filing) (issueId : Text) (events : List LedgerEvent) :
    eventsOf issueId (events ++ [f.event issueId]) = eventsOf issueId events ++ [f.event issueId] := by
  simp [eventsOf, List.filter_append, Filing.event]

theorem eventsOf_append_ne {issueId : Text} {event : LedgerEvent} (h : event.issueId ≠ issueId)
    (events : List LedgerEvent) :
    eventsOf issueId (events ++ [event]) = eventsOf issueId events := by
  simp [eventsOf, List.filter_append, h]

theorem Tally.beside {filings : List Filing} {events : List LedgerEvent} {r : LedgerIssue}
    (h : Tally filings events r) {event : LedgerEvent} (hne : event.issueId ≠ r.issueId) :
    Tally filings (events ++ [event]) r where
  occurrences := h.occurrences
  firstSeen := h.firstSeen
  lastSeen := h.lastSeen
  subjects := by rw [eventsOf_append_ne hne, h.subjects]
  distinctSubjects := by
    rw [h.distinctSubjects]
    simp only [countSubjects]
    change ((eventsOf r.issueId events).filterMap _).dedup.length =
      ((eventsOf r.issueId (events ++ [event])).filterMap _).dedup.length
    rw [eventsOf_append_ne hne]

theorem Tally.recur {filings : List Filing} {events : List LedgerEvent} {r : LedgerIssue}
    (h : Tally filings events r) (f : Filing) :
    Tally (filings ++ [f]) (events ++ [f.event r.issueId])
      (refreshSubjects (events ++ [f.event r.issueId]) (f.recur r)) where
  occurrences := by
    simp only [refreshSubjects, Filing.recur, h.occurrences, List.length_append,
      List.length_singleton]
  firstSeen := by
    have hfirst := h.firstSeen
    cases filings with
    | nil => cases hfirst
    | cons first rest => exact hfirst
  lastSeen := by
    rw [List.getLast?_concat]
    rfl
  subjects := by
    change (eventsOf r.issueId _).map _ = _
    rw [eventsOf_append_self, List.map_append, List.map_append, h.subjects]
    rfl
  distinctSubjects := rfl

theorem Tally.first (routing : List (Text × Text)) (f : Filing) {events : List LedgerEvent}
    (h : eventsOf f.issueId events = []) :
    Tally [f] (events ++ [f.event f.issueId])
      (refreshSubjects (events ++ [f.event f.issueId]) (f.newIssue routing)) where
  occurrences := rfl
  firstSeen := rfl
  lastSeen := rfl
  subjects := by
    change (eventsOf f.issueId _).map _ = _
    rw [eventsOf_append_self, h]
    rfl
  distinctSubjects := rfl

theorem Tallied.recordEvent {l l' : Ledger} {filed : List Filing} (h : Tallied l filed)
    {f : Filing} {row : LedgerIssue} (hrecord : recordEvent routing f l = some (row, l')) :
    Tallied l' (filed ++ [f]) := by
  obtain ⟨hevents, ⟨r, hr, hrf, hrow, hrows⟩ | ⟨hnone, hrow, hrows⟩⟩ := recordEvent_cases hrecord
  · have hid : row.issueId = r.issueId := by rw [hrow]; rfl
    have hfingerprint : row.fingerprint = f.fingerprint := by rw [hrow]; exact hrf
    have hmem : row ∈ l'.issues.rows := by
      rw [hrows]
      exact List.mem_map.mpr ⟨r, hr, if_pos hid.symm⟩
    have hthere : ∀ x ∈ l.issues.rows, ∃ x' ∈ l'.issues.rows, x'.issueId = x.issueId ∧
        x'.fingerprint = x.fingerprint := by
      intro x hx
      obtain ⟨x', hx', hturned⟩ := (turns_recordEvent hrecord).forward x hx
      exact ⟨x', hx', hturned.told.1, hturned.told.2.1⟩
    constructor
    · intro x hx
      rw [hrows] at hx
      rcases mem_map_version hx with rfl | ⟨hold, hne⟩
      · rw [hfingerprint, under_append_self, hrow, hevents, hid, ← hrf]
        exact (h.issues r hr).recur f
      · have hxf : f.fingerprint ≠ x.fingerprint := by
          intro hsame
          obtain rfl : x = r := List.inj_on_of_nodup_map l.issues.holds hold hr
            (hsame.symm.trans hrf.symm)
          exact hne hid.symm
        rw [under_append_ne hxf, hevents]
        exact (h.issues x hold).beside hne.symm
    · intro g hg
      rcases List.mem_append.mp hg with hold | hnew
      · obtain ⟨x, hx, hxg⟩ := h.filed g hold
        obtain ⟨x', hx', _, hx'g⟩ := hthere x hx
        exact ⟨x', hx', hx'g.trans hxg⟩
      · rw [List.mem_singleton.mp hnew]
        exact ⟨row, hmem, hfingerprint⟩
    · intro e he
      rw [hevents] at he
      rcases List.mem_append.mp he with hold | hnew
      · obtain ⟨x, hx, hxe⟩ := h.events e hold
        obtain ⟨x', hx', hx'e, _⟩ := hthere x hx
        exact ⟨x', hx', hx'e.trans hxe⟩
      · rw [List.mem_singleton.mp hnew]
        exact ⟨row, hmem, rfl⟩
  · have hid : row.issueId = f.issueId := by rw [hrow]; rfl
    have hfingerprint : row.fingerprint = f.fingerprint := by rw [hrow]; rfl
    have hfresh : ∀ x ∈ l.issues.rows, x.issueId ≠ f.issueId := by
      have hnodup := l'.issues.nodup
      rw [hrows, List.map_append, List.nodup_append] at hnodup
      intro x hx hxid
      exact hnodup.2.2 _ (List.mem_map_of_mem hx) _ (List.mem_singleton_self _)
        (hxid.trans hid.symm)
    have hunfiled : under f.fingerprint filed = [] := by
      unfold under
      rw [List.filter_eq_nil_iff]
      intro g hg hsame
      obtain ⟨x, hx, hxg⟩ := h.filed g hg
      exact hnone x hx (hxg.trans (of_decide_eq_true hsame))
    have hquiet : eventsOf f.issueId l.events = [] := by
      unfold eventsOf
      rw [List.filter_eq_nil_iff]
      intro e he hsame
      obtain ⟨x, hx, hxe⟩ := h.events e he
      exact hfresh x hx (hxe.trans (of_decide_eq_true hsame))
    constructor
    · intro x hx
      rw [hrows] at hx
      rcases List.mem_append.mp hx with hold | hnew
      · rw [under_append_ne (hnone x hold).symm, hevents]
        refine (h.issues x hold).beside ?_
        intro hsame
        exact hfresh x hold (hsame.symm.trans hid)
      · rw [List.mem_singleton.mp hnew, hfingerprint, under_append_self, hunfiled, hrow, hevents,
          hid]
        exact Tally.first routing f hquiet
    · intro g hg
      rw [hrows]
      rcases List.mem_append.mp hg with hold | hnew
      · obtain ⟨x, hx, hxg⟩ := h.filed g hold
        exact ⟨x, List.mem_append_left _ hx, hxg⟩
      · rw [List.mem_singleton.mp hnew]
        exact ⟨row, List.mem_append_right _ (List.mem_singleton_self _), hfingerprint⟩
    · intro e he
      rw [hevents] at he
      rw [hrows]
      rcases List.mem_append.mp he with hold | hnew
      · obtain ⟨x, hx, hxe⟩ := h.events e hold
        exact ⟨x, List.mem_append_left _ hx, hxe⟩
      · rw [List.mem_singleton.mp hnew]
        exact ⟨row, List.mem_append_right _ (List.mem_singleton_self _), rfl⟩

/-- Only recording an event counts it. -/
theorem Turned.counters {e : LedgerStep} {r r' : LedgerIssue} (h : Turned e r r')
    (he : e.records = false) :
    r'.occurrences = r.occurrences ∧ r'.firstSeen = r.firstSeen ∧ r'.lastSeen = r.lastSeen ∧
      r'.distinctSubjects = r.distinctSubjects := by
  cases h with
  | kept => exact ⟨rfl, rfl, rfl, rfl⟩
  | recurs => cases he
  | @updated a stamp =>
      cases a with
      | verdict issueId verdict actor => cases verdict <;> exact ⟨rfl, rfl, rfl, rfl⟩
      | triage issueId action actor => cases action <;> exact ⟨rfl, rfl, rfl, rfl⟩
      | returnToQueue issueId => exact ⟨rfl, rfl, rfl, rfl⟩
  | batched => exact ⟨rfl, rfl, rfl, rfl⟩
  | resolved => exact ⟨rfl, rfl, rfl, rfl⟩

theorem Tallied.step {s : LedgerState} {filed : List Filing} (h : Tallied s.ledger filed)
    {e : LedgerStep} (hvetted : s.Vetted) (hready : s.Ready e) (he : e.records = false) :
    Tallied (s.apply routing e).ledger filed := by
  have hturns := LedgerState.apply_turns routing hvetted hready
  have hevents : (s.apply routing e).ledger.events = s.ledger.events := FilingWorld.apply_events he
  constructor
  · intro r' hr'
    obtain ⟨r, hr, hturned⟩ | ⟨f, _, _, rfl, _⟩ := hturns.backward r' hr'
    · obtain ⟨hid, hfingerprint, _⟩ := hturned.told
      obtain ⟨hoccurrences, hfirst, hlast, hdistinct⟩ := hturned.counters he
      have htally := h.issues r hr
      rw [hfingerprint, hevents]
      exact ⟨hoccurrences.trans htally.occurrences, hfirst ▸ htally.firstSeen,
        hlast ▸ htally.lastSeen, hid ▸ htally.subjects,
        hdistinct.trans (hid ▸ htally.distinctSubjects)⟩
    · cases he
  · intro f hf
    obtain ⟨r, hr, hrf⟩ := h.filed f hf
    obtain ⟨r', hr', hturned⟩ := hturns.forward r hr
    exact ⟨r', hr', hturned.told.2.1.trans hrf⟩
  · intro event hevent
    rw [hevents] at hevent
    obtain ⟨r, hr, hid⟩ := h.events event hevent
    obtain ⟨r', hr', hturned⟩ := hturns.forward r hr
    exact ⟨r', hr', hturned.told.1.trans hid⟩

theorem FilingWorld.tallied (h : (filingMachine routing).Reachable w) :
    Tallied w.state.ledger w.filed := by
  refine h.invariant (I := fun w => Tallied w.state.ledger w.filed)
    ⟨List.forall_mem_nil _, List.forall_mem_nil _, List.forall_mem_nil _⟩ ?_
  intro w e hreach hmay htallied
  obtain ⟨hstate, hsound⟩ := refines hreach
  have hvetted := LedgerState.vetted_of_reachable hstate
  obtain ⟨w', hw'⟩ := Option.isSome_iff_exists.mp hmay
  have hnext : (filingMachine routing).next w e = w' := by
    change (w.step? routing e).getD w = w'
    rw [hw', Option.getD_some]
  rw [hnext]
  cases (step?_committed hvetted hsound hw').1 with
  | nothing hstate hfiled => rwa [hstate, hfiled]
  | step e hmay hstate hfiled =>
      rw [hstate, hfiled]
      exact htallied.step hvetted hmay.1 hmay.2.1
  | filing hrecord hstate hfiled =>
      rw [hstate, hfiled]
      exact htallied.recordEvent hrecord

/-! ### The counters -/

theorem Tally.counts_iff {filings : List Filing} {events : List LedgerEvent} {r : LedgerIssue}
    (h : Tally filings events r) : r.Counts filings ↔ InOrder filings := by
  obtain ⟨first, hfirst, hfirstSeen⟩ := Option.map_eq_some_iff.mp h.firstSeen
  obtain ⟨last, hlast, hlastSeen⟩ := Option.map_eq_some_iff.mp h.lastSeen
  have hsubjects : (eventsOf r.issueId events).filterMap LedgerEvent.subject =
      filings.filterMap fun f => f.input.subject := by
    calc
      (eventsOf r.issueId events).filterMap LedgerEvent.subject =
          ((eventsOf r.issueId events).map LedgerEvent.subject).filterMap id := by
        rw [List.filterMap_map]
        rfl
      _ = (filings.map fun f => f.input.subject).filterMap id := by rw [h.subjects]
      _ = filings.filterMap fun f => f.input.subject := by
        rw [List.filterMap_map]
        rfl
  have hdistinct : r.distinctSubjects =
      ((filings : Multiset Filing).filterMap fun f => f.input.subject).toFinset.card := by
    rw [h.distinctSubjects, Multiset.filterMap_coe, List.toFinset_coe, List.card_toFinset,
      ← hsubjects]
    rfl
  constructor
  · intro hcounts
    constructor
    · intro first' hfirst' f hf
      obtain rfl := Option.some.inj (hfirst.symm.trans hfirst')
      rw [hfirstSeen]
      exact hcounts.firstSeen.2 ⟨f, Multiset.mem_coe.mpr hf, rfl⟩
    · intro last' hlast' f hf
      obtain rfl := Option.some.inj (hlast.symm.trans hlast')
      rw [hlastSeen]
      exact hcounts.lastSeen.2 ⟨f, Multiset.mem_coe.mpr hf, rfl⟩
  · rintro ⟨hearliest, hlatest⟩
    refine ⟨h.occurrences, hdistinct, ⟨⟨first, ?_, hfirstSeen⟩, ?_⟩, ⟨last, ?_, hlastSeen⟩, ?_⟩
    · exact Multiset.mem_coe.mpr (List.mem_of_mem_head? hfirst)
    · rintro _ ⟨f, hf, rfl⟩
      rw [← hfirstSeen]
      exact hearliest first hfirst f (Multiset.mem_coe.mp hf)
    · exact Multiset.mem_coe.mpr (List.mem_of_getLast? hlast)
    · rintro _ ⟨f, hf, rfl⟩
      rw [← hlastSeen]
      exact hlatest last hlast f (Multiset.mem_coe.mp hf)

/-- **The counters of an issue** are those of its events exactly when the first event to commit was
the first in time, and the last to commit the last in time. -/
theorem counters_iff {fingerprint : Text} (h : (filingMachine routing).Reachable w)
    (hfiled : ∃ f ∈ w.filed, f.fingerprint = fingerprint) :
    (∃ r ∈ w.state.ledger.issues.rows, r.fingerprint = fingerprint ∧
        r.Counts (under fingerprint w.filed)) ↔ InOrder (under fingerprint w.filed) := by
  have htallied := FilingWorld.tallied h
  constructor
  · rintro ⟨r, hr, rfl, hcounts⟩
    exact (htallied.issues r hr).counts_iff.mp hcounts
  · intro horder
    obtain ⟨f, hf, rfl⟩ := hfiled
    obtain ⟨r, hr, hrf⟩ := htallied.filed f hf
    refine ⟨r, hr, hrf, ?_⟩
    rw [← hrf] at horder ⊢
    exact (htallied.issues r hr).counts_iff.mpr horder

def ordersFiling (issueId : String) (now : Nat) : Filing :=
  ordersRequest.filing (fun _ => js "f1") (js issueId) now

/-- The statements of a transaction. -/
def committing (session : Nat) : List FilingEvent :=
  [.upsert session, .insertEvent session, .countSubjects session, .commit session]

/-- Two requests, recorded one after the other. -/
def filedInTurn : List FilingEvent :=
  .opens 0 (ordersFiling "I1" 1) :: committing 0 ++ .opens 1 (ordersFiling "I2" 2) :: committing 1

/-- The second one's transaction overtakes the first one's. -/
def filedAcross : List FilingEvent :=
  .opens 0 (ordersFiling "I1" 1) :: .opens 1 (ordersFiling "I2" 2) :: committing 1 ++ committing 0

theorem counters_iff_filedInTurn :
    ∃ r ∈ ((filingMachine []).run filedInTurn).state.ledger.issues.rows, r.fingerprint = js "f1" ∧
      r.Counts (under (js "f1") ((filingMachine []).run filedInTurn).filed) := by
  refine (counters_iff (Machine.reachable_run _ _) (by decide)).mpr ?_
  unfold InOrder
  constructor
  · intro first hfirst
    obtain rfl : ordersFiling "I1" 1 = first := Option.some.inj hfirst
    decide
  · intro last hlast
    obtain rfl : ordersFiling "I2" 2 = last := Option.some.inj hlast
    decide

theorem counters_iff_not_filedAcross :
    ¬ ∀ (routing : List (Text × Text)) (w : FilingWorld) (fingerprint : Text),
      (filingMachine routing).Reachable w → (∃ f ∈ w.filed, f.fingerprint = fingerprint) →
        ∃ r ∈ w.state.ledger.issues.rows, r.fingerprint = fingerprint ∧
          r.Counts (under fingerprint w.filed) := by
  intro hcounts
  obtain ⟨r, hr, _, hr_counts⟩ := hcounts [] ((filingMachine []).run filedAcross) (js "f1")
    (Machine.reachable_run _ _) (by decide)
  have hseen : ∀ r ∈ ((filingMachine []).run filedAcross).state.ledger.issues.rows,
      r.firstSeen = 2 := by
    decide
  have hearlier : ∃ f ∈ under (js "f1") ((filingMachine []).run filedAcross).filed, f.ts = 1 := by
    decide
  obtain ⟨f, hf, hts⟩ := hearlier
  have hle : r.firstSeen ≤ 1 := hr_counts.firstSeen.2 ⟨f, Multiset.mem_coe.mpr hf, hts⟩
  rw [hseen r hr] at hle
  omega

end ContextLayer
