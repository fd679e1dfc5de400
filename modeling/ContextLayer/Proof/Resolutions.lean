import ContextLayer.Resolutions
import ContextLayer.Proof.Ledger

/-!
# What the cursor leaves behind

A pull request that still owes a resolution lies after the cursor, and each sweep under way either
has the `UPDATE` for it before it or will leave the cursor short of it. Both would be lost where a
merge falls into a second the cursor has come to, where the page ends before the pull request, or
where an exception ends the sweep.
-/

namespace ContextLayer

open Text Transaction

variable {provider : PrProvider} {routing : List (Text × Text)} {w w' : LoopState}

/-! ### The provider's answer -/

theorem mem_listMergedPrs {since : Option Nat} {pulls : List Pull} {p : Pull} {pr : MergedPr}
    (hp : p ∈ pulls) (hnumbers : (pulls.map Pull.number).Nodup)
    (hpage : onPage provider pulls p.number = true) (hpr : p.mergedSince since = some pr) :
    pr ∈ listMergedPrs provider since pulls := by
  cases provider with
  | github =>
      obtain ⟨q, hq, hnumber⟩ := List.any_eq_true.mp hpage
      obtain rfl : q = p := List.inj_on_of_nodup_map hnumbers (List.mem_of_mem_take hq) hp
        (of_decide_eq_true hnumber)
      exact List.mem_filterMap.mpr ⟨q, hq, hpr⟩
  | localFile =>
      exact List.mem_filterMap.mpr ⟨p, (List.mem_insertionSort _).mpr hp, hpr⟩

theorem exists_of_mem_listMergedPrs {since : Option Nat} {pulls : List Pull} {pr : MergedPr}
    (h : pr ∈ listMergedPrs provider since pulls) :
    ∃ p ∈ pulls, p.mergedSince since = some pr := by
  cases provider with
  | github =>
      obtain ⟨p, hp, hpr⟩ := List.mem_filterMap.mp h
      exact ⟨p, List.mem_of_mem_take hp, hpr⟩
  | localFile =>
      obtain ⟨p, hp, hpr⟩ := List.mem_filterMap.mp h
      exact ⟨p, (List.mem_insertionSort _).mp hp, hpr⟩

theorem mergedSince_eq_some {since : Option Nat} {p : Pull} {pr : MergedPr} :
    p.mergedSince since = some pr ↔
      ∃ mergedAt, p.mergedAt = some mergedAt ∧ isAfter since mergedAt = true ∧
        pr = ⟨p.number, p.url, p.body, mergedAt⟩ := by
  simp only [Pull.mergedSince, Option.bind_eq_bind, Option.bind_eq_some_iff]
  constructor
  · rintro ⟨mergedAt, hmerged, hif⟩
    split at hif
    · rename_i hafter
      exact ⟨mergedAt, hmerged, hafter, (Option.some.inj hif).symm⟩
    · cases hif
  · rintro ⟨mergedAt, hmerged, hafter, rfl⟩
    exact ⟨mergedAt, hmerged, if_pos hafter⟩

/-! ### The invariant -/

/-- An `UPDATE` to come resolves the issue. -/
def Sweep.Covers (s : Sweep) (issueId : Text) : Prop :=
  ∃ todo, s.todo = some todo ∧ ∃ u ∈ todo, uuidIn u.issueId = some issueId

def Pull.After (since : Option Nat) (p : Pull) : Prop :=
  ∃ mergedAt, p.mergedAt = some mergedAt ∧ isAfter since mergedAt = true

theorem Pull.After.of_mergedAt {since : Option Nat} {p p' : Pull} (h : p.After since)
    (hmerged : p'.mergedAt = p.mergedAt) : p'.After since := by
  obtain ⟨mergedAt, hm, hafter⟩ := h
  exact ⟨mergedAt, hmerged.trans hm, hafter⟩

namespace LoopState

/-- What is known of an issue that a pull request still owes. -/
structure Owing (w : LoopState) (p : Pull) (issueId : Text) : Prop where
  there : w.ledger.ledger.has issueId = true
  named : issueId ∈ namedIn p.body
  cursor : p.After w.cursor
  swept : p.number ∉ w.swept

/-- A sweep under way. -/
structure Sweeping (w : LoopState) (s : Sweep) : Prop where
  owing : ∀ p ∈ w.pulls, ∀ issueId ∈ p.owes, s.Covers issueId ∨ p.After s.maxMergedAt
  covers : s.todo ≠ none → ∀ p ∈ w.pulls, p.number ∈ s.seen → ∀ issueId ∈ p.owes, s.Covers issueId
  begun : s.todo = none → s.maxMergedAt = s.cursor
  todo : ∀ todo, s.todo = some todo → ∀ u ∈ todo, (uuidIn u.issueId).isSome = true
  seen : ∀ n ∈ s.seen, n ∈ w.pulls.map Pull.number

structure Sound (w : LoopState) : Prop where
  vetted : w.ledger.Vetted
  numbers : (w.pulls.map Pull.number).Nodup
  owing : ∀ p ∈ w.pulls, ∀ issueId ∈ p.owes, w.Owing p issueId
  valid : ∀ p ∈ w.pulls, p.mergedAt ≠ none →
    ∀ issueId ∈ parseResolveTrailers p.body, (uuidIn issueId).isSome = true
  sweeping : ∀ s ∈ w.sweeps.rows, w.Sweeping s
  swept : ∀ n ∈ w.swept, n ∈ w.pulls.map Pull.number
  applied : w.aborted = false

theorem Sound.isClosed (h : w.Sound) : w.Closed where
  resolved p hp hswept := List.eq_nil_iff_forall_not_mem.mpr fun issueId hissue =>
    (h.owing p hp issueId hissue).swept hswept
  applied := h.applied

theorem sound_start : start.Sound where
  vetted := List.forall_mem_nil _
  numbers := List.nodup_nil
  owing := List.forall_mem_nil _
  valid := List.forall_mem_nil _
  sweeping := List.forall_mem_nil _
  swept := List.forall_mem_nil _
  applied := rfl

/-! ### The ledger -/

theorem has_apply {s : LedgerState} {e : LedgerStep} (hvetted : s.Vetted) (hready : s.Ready e)
    {issueId : Text} (h : s.ledger.has issueId = true) :
    (s.apply routing e).ledger.has issueId = true := by
  obtain ⟨r, hr, hid⟩ := List.any_eq_true.mp h
  obtain ⟨r', hr', hturned⟩ := (LedgerState.apply_turns routing hvetted hready).forward r hr
  exact List.any_eq_true.mpr
    ⟨r', hr', decide_eq_true (hturned.told.1.trans (of_decide_eq_true hid))⟩

/-- An `UPDATE` leaves its issue resolved, if there is one. -/
theorem isResolved_resolve (routing : List (Text × Text)) {s : LedgerState} {issueId : Text}
    (mergedAt : Nat) (prUrl : Text)
    (h : s.ledger.has issueId = true) :
    (s.apply routing (.resolve issueId mergedAt prUrl)).ledger.isResolved issueId = true := by
  obtain ⟨r, hr, hid⟩ := List.any_eq_true.mp h
  have hmem : (if unresolved issueId r then (setResolved mergedAt prUrl).apply r else r) ∈
      (s.apply routing (.resolve issueId mergedAt prUrl)).ledger.issues.rows :=
    mem_updateWhere.mpr ⟨r, hr, rfl⟩
  refine List.any_eq_true.mpr ⟨_, hmem, ?_⟩
  by_cases hstatus : r.status = .resolved
  · have hkept : unresolved issueId r = false := by simp [unresolved, hstatus]
    rw [hkept]
    simpa [hstatus] using hid
  · have hset : unresolved issueId r = true := by
      simpa [unresolved, hstatus] using hid
    rw [hset]
    simpa [setResolved] using hid

theorem mem_settle {l : Ledger} {p' : Pull} {pulls : List Pull}
    (h : p' ∈ pulls.map (Pull.settle l)) :
    ∃ p ∈ pulls, p'.number = p.number ∧ p'.body = p.body ∧ p'.mergedAt = p.mergedAt ∧
      ∀ issueId ∈ p'.owes, issueId ∈ p.owes ∧ l.isResolved issueId = false := by
  obtain ⟨p, hp, rfl⟩ := List.mem_map.mp h
  refine ⟨p, hp, rfl, rfl, rfl, ?_⟩
  intro issueId hissue
  obtain ⟨howes, hunresolved⟩ := List.mem_filter.mp hissue
  exact ⟨howes, by simpa using hunresolved⟩

theorem number_settle (l : Ledger) (pulls : List Pull) :
    (pulls.map (Pull.settle l)).map Pull.number = pulls.map Pull.number := by
  rw [List.map_map]
  rfl

/-- The ledger goes on; of what is owed, only what is resolved by that is struck off. -/
theorem Sound.ledger (h : w.Sound) {e : LedgerStep} (hready : w.ledger.Ready e) :
    (w.withLedger (w.ledger.apply routing e)).Sound where
  vetted := h.vetted.apply routing hready
  numbers := by
    change ((w.pulls.map _).map Pull.number).Nodup
    rw [number_settle]
    exact h.numbers
  owing := by
    intro p' hp' issueId hissue
    obtain ⟨p, hp, hnumber, hbody, hmerged, howes⟩ := mem_settle hp'
    have howing := h.owing p hp issueId (howes issueId hissue).1
    exact ⟨has_apply h.vetted hready howing.there, hbody ▸ howing.named,
      howing.cursor.of_mergedAt hmerged, hnumber ▸ howing.swept⟩
  valid := by
    intro p' hp' hne
    obtain ⟨p, hp, _, hbody, hmerged, _⟩ := mem_settle hp'
    rw [hbody]
    exact h.valid p hp (hmerged ▸ hne)
  sweeping := by
    intro s hs
    have hsweeping := h.sweeping s hs
    refine ⟨?_, ?_, hsweeping.begun, hsweeping.todo, ?_⟩
    · intro p' hp' issueId hissue
      obtain ⟨p, hp, _, _, hmerged, howes⟩ := mem_settle hp'
      exact (hsweeping.owing p hp issueId (howes issueId hissue).1).imp_right fun hafter =>
        hafter.of_mergedAt hmerged
    · intro htodo p' hp' hseen issueId hissue
      obtain ⟨p, hp, hnumber, _, _, howes⟩ := mem_settle hp'
      exact hsweeping.covers htodo p hp (hnumber ▸ hseen) issueId (howes issueId hissue).1
    · intro n hn
      change n ∈ (w.pulls.map _).map Pull.number
      rw [number_settle]
      exact hsweeping.seen n hn
  swept := by
    intro n hn
    change n ∈ (w.pulls.map _).map Pull.number
    rw [number_settle]
    exact h.swept n hn
  applied := h.applied

/-! ### Pull requests -/

/-- One more pull request: what it owes, it owes to a merge that nothing has come past. -/
theorem Sound.closePull (h : w.Sound) {p : Pull} (hnumber : p.number ∉ w.pulls.map Pull.number)
    (howes : ∀ issueId ∈ p.owes, w.ledger.ledger.has issueId = true ∧ issueId ∈ namedIn p.body ∧
      p.After w.cursor ∧ ∀ s ∈ w.sweeps.rows, p.After s.maxMergedAt)
    (hvalid : p.mergedAt ≠ none →
      ∀ issueId ∈ parseResolveTrailers p.body, (uuidIn issueId).isSome = true) :
    ({ w with pulls := p :: w.pulls } : LoopState).Sound where
  vetted := h.vetted
  numbers := List.nodup_cons.mpr ⟨hnumber, h.numbers⟩
  owing := by
    intro q hq issueId hissue
    rcases List.mem_cons.mp hq with rfl | hq
    · obtain ⟨hthere, hnamed, hafter, _⟩ := howes issueId hissue
      exact ⟨hthere, hnamed, hafter, fun hswept => hnumber (h.swept _ hswept)⟩
    · obtain ⟨hthere, hnamed, hafter, hswept⟩ := h.owing q hq issueId hissue
      exact ⟨hthere, hnamed, hafter, hswept⟩
  valid := by
    intro q hq hne
    rcases List.mem_cons.mp hq with rfl | hq
    · exact hvalid hne
    · exact h.valid q hq hne
  sweeping := by
    intro s hs
    have hsweeping := h.sweeping s hs
    refine ⟨?_, ?_, hsweeping.begun, hsweeping.todo, ?_⟩
    · intro q hq issueId hissue
      rcases List.mem_cons.mp hq with rfl | hq
      · exact Or.inr ((howes issueId hissue).2.2.2 s hs)
      · exact hsweeping.owing q hq issueId hissue
    · intro htodo q hq hseen issueId hissue
      rcases List.mem_cons.mp hq with rfl | hq
      · exact absurd (hsweeping.seen _ hseen) hnumber
      · exact hsweeping.covers htodo q hq hseen issueId hissue
    · exact fun n hn => List.mem_cons_of_mem _ (hsweeping.seen n hn)
  swept := fun n hn => List.mem_cons_of_mem _ (h.swept n hn)
  applied := h.applied

/-- The order of the pull requests is nothing to the invariant. -/
theorem Sound.permute (h : w.Sound) {pulls : List Pull} (hperm : pulls.Perm w.pulls) :
    ({ w with pulls } : LoopState).Sound := by
  have hmem : ∀ n, n ∈ w.pulls.map Pull.number → n ∈ pulls.map Pull.number := fun n =>
    (hperm.map Pull.number).mem_iff.mpr
  refine ⟨h.vetted, (hperm.map Pull.number).nodup_iff.mpr h.numbers, ?_, ?_, ?_, ?_, h.applied⟩
  · intro p hp issueId hissue
    obtain ⟨hthere, hnamed, hafter, hswept⟩ := h.owing p (hperm.mem_iff.mp hp) issueId hissue
    exact ⟨hthere, hnamed, hafter, hswept⟩
  · exact fun p hp => h.valid p (hperm.mem_iff.mp hp)
  · intro s hs
    have hsweeping := h.sweeping s hs
    exact ⟨fun p hp => hsweeping.owing p (hperm.mem_iff.mp hp),
      fun htodo p hp => hsweeping.covers htodo p (hperm.mem_iff.mp hp), hsweeping.begun,
      hsweeping.todo, fun n hn => hmem n (hsweeping.seen n hn)⟩
  · exact fun n hn => hmem n (h.swept n hn)

/-! ### Sweeps -/

theorem mem_of_sweep? {session : Nat} {s : Sweep} (h : w.sweep? session = some s) :
    s ∈ w.sweeps.rows ∧ s.session = session :=
  ⟨List.mem_of_find?_eq_some h, by simpa using List.find?_some h⟩

theorem Sound.withSweeps (h : w.Sound) {sweeps : Table sweepSchema}
    (hsweeping : ∀ s ∈ sweeps.rows, w.Sweeping s) : ({ w with sweeps } : LoopState).Sound where
  vetted := h.vetted
  numbers := h.numbers
  owing p hp issueId hissue := by
    obtain ⟨hthere, hnamed, hafter, hswept⟩ := h.owing p hp issueId hissue
    exact ⟨hthere, hnamed, hafter, hswept⟩
  valid := h.valid
  sweeping s hs := by
    obtain ⟨howing, hcovers, hbegun, htodo, hseen⟩ := hsweeping s hs
    exact ⟨howing, hcovers, hbegun, htodo, hseen⟩
  swept := h.swept
  applied := h.applied

theorem Sound.deleteSweep (h : w.Sound) (session : Nat) :
    ({ w with sweeps := w.sweeps.delete session } : LoopState).Sound :=
  h.withSweeps fun s hs => h.sweeping s (mem_deleteRows.mp hs).1

theorem Sound.setSweep (h : w.Sound) {session : Nat} {s : Sweep} {sweeps : Table sweepSchema}
    {f : Sweep → Option Nat × Option (List TrailerUpdate)} (hs : w.sweep? session = some s)
    (hset : w.sweeps.update session (LoopState.setSweep f) = some sweeps)
    (hsweeping : w.Sweeping ((LoopState.setSweep f).apply s)) :
    ({ w with sweeps } : LoopState).Sound := by
  obtain ⟨hmem, hsession⟩ := mem_of_sweep? hs
  refine h.withSweeps fun x hx => ?_
  rw [Table.update_eq_some.mp hset] at hx
  rcases mem_updateRows.mp hx with ⟨y, hy, hkey, rfl⟩ | ⟨hold, _⟩
  · obtain rfl := w.sweeps.eq_of_key hy hmem (hkey.trans hsession.symm)
    exact hsweeping
  · exact h.sweeping x hold

theorem Sound.begin (h : w.Sound) {session : Nat} {sweeps : Table sweepSchema}
    (hinsert : w.sweeps.insert ⟨session, w.cursor, w.cursor, none, w.pulls.map Pull.number⟩ =
      some sweeps) : ({ w with sweeps } : LoopState).Sound := by
  refine h.withSweeps fun s hs => ?_
  rw [Table.insert_eq_some.mp hinsert] at hs
  rcases List.mem_append.mp hs with hold | hnew
  · exact h.sweeping s hold
  · rw [List.mem_singleton.mp hnew]
    exact ⟨fun p hp issueId hissue => Or.inr (h.owing p hp issueId hissue).cursor,
      fun htodo => absurd rfl htodo, fun _ => rfl, fun _ htodo => (nomatch htodo), fun _ hn => hn⟩

/-- The provider names every pull request that owes anything. -/
theorem Sound.list (h : w.Sound) {session : Nat} {cursor latest : Option Nat} {seen : List Nat}
    {sweeps : Table sweepSchema}
    (hpage : ∀ p ∈ w.pulls, p.owes ≠ [] → onPage provider w.pulls p.number = true)
    (hs : w.sweep? session = some ⟨session, cursor, latest, none, seen⟩)
    (hset : w.sweeps.update session (LoopState.setSweep fun _ =>
      ((listMergedPrs provider cursor w.pulls).foldl laterOf cursor,
        some ((listMergedPrs provider cursor w.pulls).flatMap MergedPr.updates))) = some sweeps) :
    ({ w with sweeps } : LoopState).Sound := by
  have hold := h.sweeping _ (mem_of_sweep? hs).1
  have hcovers : ∀ p ∈ w.pulls, ∀ issueId ∈ p.owes,
      ∃ u ∈ (listMergedPrs provider cursor w.pulls).flatMap MergedPr.updates,
        uuidIn u.issueId = some issueId := by
    intro p hp issueId hissue
    have hafter : p.After cursor := by
      rcases hold.owing p hp issueId hissue with ⟨todo, htodo, _⟩ | hafter
      · cases htodo
      · have hbegun : latest = cursor := hold.begun rfl
        rwa [hbegun] at hafter
    obtain ⟨mergedAt, hmerged, hafter⟩ := hafter
    have hlisted := mem_listMergedPrs hp h.numbers
      (hpage p hp (List.ne_nil_of_mem hissue))
      (mergedSince_eq_some.mpr ⟨mergedAt, hmerged, hafter, rfl⟩)
    obtain ⟨captured, hcaptured, huuid⟩ := List.mem_filterMap.mp (h.owing p hp issueId hissue).named
    exact ⟨⟨captured, mergedAt, p.url⟩, List.mem_flatMap.mpr
      ⟨_, hlisted, List.mem_map.mpr ⟨captured, hcaptured, rfl⟩⟩, huuid⟩
  refine h.setSweep hs hset ⟨?_, ?_, ?_, ?_, hold.seen⟩
  · intro p hp issueId hissue
    exact Or.inl ⟨_, rfl, hcovers p hp issueId hissue⟩
  · intro _ p hp _ issueId hissue
    exact ⟨_, rfl, hcovers p hp issueId hissue⟩
  · exact fun htodo => nomatch htodo
  · intro todo htodo u hu
    obtain rfl := Option.some.inj htodo
    obtain ⟨pr, hpr, hu⟩ := List.mem_flatMap.mp hu
    obtain ⟨p, hp, hmergedSince⟩ := exists_of_mem_listMergedPrs hpr
    obtain ⟨mergedAt, hmerged, _, rfl⟩ := mergedSince_eq_some.mp hmergedSince
    obtain ⟨captured, hcaptured, rfl⟩ := List.mem_map.mp hu
    exact h.valid p hp (by rw [hmerged]; exact Option.some_ne_none _) captured hcaptured

/-- One `UPDATE` of the sweep, and what its issue was owed by is struck off. -/
theorem Sound.update (h : w.Sound) {session : Nat} {cursor latest : Option Nat} {seen : List Nat}
    {u : TrailerUpdate} {rest : List TrailerUpdate} {issueId : Text} {sweeps : Table sweepSchema}
    (hs : w.sweep? session = some ⟨session, cursor, latest, some (u :: rest), seen⟩)
    (huuid : uuidIn u.issueId = some issueId)
    (hset : w.sweeps.update session (LoopState.setSweep fun _ => (latest, some rest)) = some sweeps) :
    ({ w.withLedger (w.ledger.apply routing (.resolve issueId u.mergedAt u.prUrl)) with
      sweeps } : LoopState).Sound := by
  have hledger : (w.withLedger (w.ledger.apply routing (.resolve issueId u.mergedAt
      u.prUrl))).Sound := h.ledger trivial
  have hs' : (w.withLedger (w.ledger.apply routing (.resolve issueId u.mergedAt
      u.prUrl))).sweep? session = some ⟨session, cursor, latest, some (u :: rest), seen⟩ := hs
  have hold := hledger.sweeping _ (mem_of_sweep? hs').1
  -- The update's own issue is owed by nobody any more.
  have hcovers : ∀ p ∈ w.pulls.map (Pull.settle (w.ledger.apply routing
      (.resolve issueId u.mergedAt u.prUrl)).ledger), ∀ id ∈ p.owes,
      (⟨session, cursor, latest, some (u :: rest), seen⟩ : Sweep).Covers id →
        (⟨session, cursor, latest, some rest, seen⟩ : Sweep).Covers id := by
    rintro p hp id hissue ⟨todo, htodo, x, hx, hxid⟩
    obtain rfl := Option.some.inj htodo
    rcases List.mem_cons.mp hx with rfl | hrest
    · exfalso
      obtain rfl := Option.some.inj (huuid.symm.trans hxid)
      obtain ⟨q, hq, _, _, _, howes⟩ := mem_settle hp
      obtain ⟨hqowes, hunresolved⟩ := howes issueId hissue
      have hresolved := isResolved_resolve routing x.mergedAt x.prUrl
        (h.owing q hq issueId hqowes).there
      rw [hunresolved] at hresolved
      cases hresolved
    · exact ⟨rest, rfl, x, hrest, hxid⟩
  refine hledger.setSweep hs' hset ⟨?_, ?_, ?_, ?_, hold.seen⟩
  · intro p hp id hissue
    exact (hold.owing p hp id hissue).imp_left (hcovers p hp id hissue)
  · intro _ p hp hseen id hissue
    exact hcovers p hp id hissue (hold.covers (Option.some_ne_none _) p hp hseen id hissue)
  · exact fun htodo => nomatch htodo
  · intro todo htodo x hx
    obtain rfl := Option.some.inj htodo
    exact hold.todo _ rfl x (List.mem_cons_of_mem _ hx)

/-- The sweep is through: whatever is still owed lies after its cursor, and merged after it began. -/
theorem Sound.finish (h : w.Sound) {session : Nat} {cursor latest : Option Nat} {seen : List Nat}
    (hs : w.sweep? session = some ⟨session, cursor, latest, some [], seen⟩) :
    ({ w with
      cursor := if latest.isSome && decide (latest ≠ cursor) then latest else w.cursor
      sweeps := w.sweeps.delete session, swept := seen ++ w.swept } : LoopState).Sound := by
  have hold := h.sweeping _ (mem_of_sweep? hs).1
  have hnone : ∀ issueId,
      ¬ (⟨session, cursor, latest, some [], seen⟩ : Sweep).Covers issueId := by
    rintro issueId ⟨todo, htodo, x, hx, _⟩
    obtain rfl := Option.some.inj htodo
    cases hx
  refine ⟨h.vetted, h.numbers, ?_, h.valid, ?_, ?_, h.applied⟩
  · intro p hp issueId hissue
    obtain ⟨hthere, hnamed, hafter, hswept⟩ := h.owing p hp issueId hissue
    refine ⟨hthere, hnamed, ?_, ?_⟩
    · change p.After (if latest.isSome && decide (latest ≠ cursor) then latest else w.cursor)
      by_cases hstore : (latest.isSome && decide (latest ≠ cursor)) = true
      · rw [if_pos hstore]
        exact (hold.owing p hp issueId hissue).resolve_left (hnone issueId)
      · rw [if_neg hstore]
        exact hafter
    · intro hmem
      rcases List.mem_append.mp hmem with hseen | hbefore
      · exact hnone issueId (hold.covers (Option.some_ne_none _) p hp hseen issueId hissue)
      · exact hswept hbefore
  · intro s hs
    obtain ⟨howing, hcovers, hbegun, htodo, hseen⟩ := h.sweeping s (mem_deleteRows.mp hs).1
    exact ⟨howing, hcovers, hbegun, htodo, hseen⟩
  · intro n hn
    rcases List.mem_append.mp hn with hseen | hbefore
    · exact hold.seen n hseen
    · exact h.swept n hbefore

/-- **One event** keeps the invariant, as long as it comes in order. -/
theorem Sound.step? (h : w.Sound) {e : LoopEvent} (horder : w.Orderly provider e)
    (hstep : w.step? provider routing e = some w') : w'.Sound := by
  cases e with
  | ledger e =>
      simp only [LoopState.step?] at hstep
      split at hstep
      · rename_i hready
        exact Option.some.inj hstep ▸ h.ledger hready
      · cases hstep
  | merge number url body mergedAt =>
      simp only [LoopState.step?] at hstep
      split at hstep
      · cases hstep
      rename_i hnumber
      obtain ⟨hvalid, hafter⟩ := horder
      refine Option.some.inj hstep ▸ h.closePull hnumber ?_ fun _ => hvalid
      intro issueId hissue
      obtain ⟨hnamed, hthere⟩ := List.mem_filter.mp hissue
      rw [Bool.and_eq_true] at hthere
      obtain ⟨hcursor, hsweeps⟩ := hafter (List.ne_nil_of_mem hissue)
      exact ⟨hthere.1, hnamed, ⟨mergedAt, rfl, hcursor⟩, fun s hs => ⟨mergedAt, rfl, hsweeps s hs⟩⟩
  | closeUnmerged number url body =>
      simp only [LoopState.step?] at hstep
      split at hstep
      · cases hstep
      rename_i hnumber
      exact Option.some.inj hstep ▸ h.closePull hnumber (List.forall_mem_nil _)
        fun hne => absurd rfl hne
  | touch number =>
      refine Option.some.inj hstep ▸ h.permute ?_
      have hsplit := List.filter_append_perm (fun p : Pull => decide (p.number = number)) w.pulls
      simpa only [decide_not] using hsplit
  | begin session =>
      obtain ⟨sweeps, hinsert, hw'⟩ := Option.bind_eq_some_iff.mp hstep
      exact Option.some.inj hw' ▸ h.begin hinsert
  | list session =>
      simp only [LoopState.step?] at hstep
      split at hstep
      · rename_i k cursor latest seen hs
        obtain rfl : k = session := (mem_of_sweep? hs).2
        obtain ⟨sweeps, hset, hw'⟩ := Option.bind_eq_some_iff.mp hstep
        exact Option.some.inj hw' ▸ h.list horder hs hset
      · cases hstep
  | fail session =>
      simp only [LoopState.step?] at hstep
      split at hstep
      · exact Option.some.inj hstep ▸ h.deleteSweep session
      · cases hstep
  | update session =>
      simp only [LoopState.step?] at hstep
      split at hstep
      · rename_i k cursor latest u rest seen hs
        obtain rfl : k = session := (mem_of_sweep? hs).2
        split at hstep
        · rename_i hinvalid
          have hvalid := (h.sweeping _ (mem_of_sweep? hs).1).todo _ rfl u List.mem_cons_self
          rw [hinvalid] at hvalid
          cases hvalid
        · rename_i issueId huuid
          obtain ⟨sweeps, hset, hw'⟩ := Option.bind_eq_some_iff.mp hstep
          exact Option.some.inj hw' ▸ h.update hs huuid hset
      · cases hstep
  | finish session =>
      simp only [LoopState.step?] at hstep
      split at hstep
      · rename_i k cursor latest seen hs
        obtain rfl : k = session := (mem_of_sweep? hs).2
        exact Option.some.inj hstep ▸ h.finish hs
      · cases hstep

end LoopState

def ordersIssue : String := "11111111-1111-1111-1111-111111111111"

/-- The body of a pull request that closes the issue. -/
def ordersBody : Text := js "Documents the orders.\n\nCL-Resolves: " ++ js ordersIssue ++ js "\n"

/-- A sweep that is told of one trailer. -/
def sweeping (session : Nat) : List LoopEvent :=
  [.begin session, .list session, .update session, .finish session]

/-- The issue is filed, and its pull request is swept. -/
def mergedAndSwept : List LoopEvent :=
  [.ledger (ordersFiled ordersIssue 1), .merge 1 (js "https://kb/pull/1") ordersBody 5] ++
    sweeping 0

/-- Another one names it in the second the first one merged in, after it was filed again. -/
def mergedInOneSecond : List LoopEvent :=
  mergedAndSwept ++
    [.ledger (ordersFiled ordersIssue 2), .merge 2 (js "https://kb/pull/2") ordersBody 5, .begin 1,
      .list 1, .finish 1]

/-- The trailer of another pull request holds no digit. -/
def mergedWithHyphens : List LoopEvent :=
  [.merge 1 (js "https://kb/pull/1")
    (js "CL-Resolves: ------------------------------------") 5, .begin 0, .list 0, .update 0]

end ContextLayer
