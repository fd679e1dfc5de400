import ContextLayer.LedgerReads
import ContextLayer.Proof.CanonicalJson

/-!
# What is read of the ledger

A page begins behind the last issue the page before has read, seen or not, so the pages make up the queue. A limit
that is applied ahead of the visibility takes the places of the hidden issues from the visible ones behind them.
-/

namespace ContextLayer

open Text

/-! ### The order of the queue -/

instance : Std.Total demandOrder where
  total r r' := by
    unfold demandOrder
    rcases lt_trichotomy r.occurrences r'.occurrences with hlt | heq | hgt
    · exact .inr (.inl hlt)
    · rcases lt_trichotomy r.distinctSubjects r'.distinctSubjects with hlt' | heq' | hgt'
      · exact .inr (.inr ⟨heq.symm, .inl hlt'⟩)
      · rcases lt_trichotomy r.lastSeen r'.lastSeen with hlt'' | heq'' | hgt''
        · exact .inr (.inr ⟨heq.symm, .inr ⟨heq'.symm, .inl hlt''⟩⟩)
        · rcases List.le_total r'.issueId r.issueId with hle | hle
          · exact .inl (.inr ⟨heq, .inr ⟨heq', .inr ⟨heq'', hle⟩⟩⟩)
          · exact .inr (.inr ⟨heq.symm, .inr ⟨heq'.symm, .inr ⟨heq''.symm, hle⟩⟩⟩)
        · exact .inl (.inr ⟨heq, .inr ⟨heq', .inl hgt''⟩⟩)
      · exact .inl (.inr ⟨heq, .inl hgt'⟩)
    · exact .inl (.inl hgt)

instance : IsTrans LedgerIssue demandOrder where
  trans r r' r'' h h' := by
    unfold demandOrder at *
    rcases h with hlt | ⟨heq, hlt | ⟨heq', hlt | ⟨heq'', hle⟩⟩⟩ <;>
      rcases h' with hlt' | ⟨heqb, hlt' | ⟨heqb', hlt' | ⟨heqb'', hle'⟩⟩⟩
    all_goals try omega
    exact .inr ⟨heq.trans heqb, .inr ⟨heq'.trans heqb', .inr ⟨heq''.trans heqb'', List.le_trans hle' hle⟩⟩⟩

theorem issueId_eq_of_demandOrder {r r' : LedgerIssue} (h : demandOrder r r') (h' : demandOrder r' r) :
    r.issueId = r'.issueId := by
  unfold demandOrder at *
  rcases h with hlt | ⟨heq, hlt | ⟨heq', hlt | ⟨heq'', hle⟩⟩⟩ <;>
    rcases h' with hlt' | ⟨heqb, hlt' | ⟨heqb', hlt' | ⟨heqb'', hle'⟩⟩⟩
  all_goals try omega
  exact List.le_antisymm hle' hle

def keyOf (r : LedgerIssue) : QueueKey := ⟨r.occurrences, r.distinctSubjects, r.lastSeen, r.issueId⟩

theorem precedes_keyOf {r r' : LedgerIssue} : (keyOf r).precedes r' ↔ ¬ demandOrder r' r := by
  unfold QueueKey.precedes demandOrder keyOf
  rw [← List.not_le]
  by_cases hle : r.issueId ≤ r'.issueId <;> simp only [hle, not_true_eq_false, not_false_eq_true, and_true,
    and_false, or_false] <;> omega

theorem row_eq_of_issueId {t : IssueTable} {r r' : LedgerIssue} (hr : r ∈ t.rows) (hr' : r' ∈ t.rows)
    (h : r.issueId = r'.issueId) : r = r' := List.inj_on_of_nodup_map t.nodup hr hr' h

section Pages

variable {P : Platform} {config : PageConfig} {db : QueueDb} {viewer : QueueViewer} {q : QueueRequest}
  {filedBy : Option Text}

theorem mem_triageQueue {r : LedgerIssue} :
    r ∈ triageQueue db q filedBy ↔ r ∈ db.ledger.issues.rows ∧ db.takes q filedBy r = true := by
  rw [triageQueue, List.mem_insertionSort, List.mem_filter]

theorem pairwise_triageQueue :
    (triageQueue db q filedBy).Pairwise fun r r' => (keyOf r).precedes r' := by
  have hsorted : (triageQueue db q filedBy).Pairwise demandOrder := List.pairwise_insertionSort _ _
  have hnodup : ((triageQueue db q filedBy).map LedgerIssue.issueId).Nodup := by
    have hperm := ((List.perm_insertionSort demandOrder (db.ledger.issues.rows.filter (db.takes q filedBy))).map
      LedgerIssue.issueId)
    exact hperm.nodup_iff.mpr (db.ledger.issues.nodup.sublist (List.filter_sublist.map _))
  refine (hsorted.and (List.pairwise_map.mp hnodup)).imp fun {r r'} h => ?_
  rw [precedes_keyOf]
  exact fun hback => h.2 (issueId_eq_of_demandOrder h.1 hback)

/-- The statement answers with what is left of the queue. -/
theorem listTriageIssues_eq {done rest : List LedgerIssue} (h : triageQueue db q filedBy = done ++ rest)
    (n : Nat) : listTriageIssues db q filedBy (done.getLast?.map keyOf) n = rest.take n := by
  have hpairs : (done ++ rest).Pairwise fun r r' => (keyOf r).precedes r' := h ▸ pairwise_triageQueue
  have hqueue : (db.ledger.issues.rows.filter (db.takes q filedBy)).Perm (done ++ rest) :=
    h ▸ (List.perm_insertionSort demandOrder _).symm
  have hrest : (done ++ rest).filter (fun r => (done.getLast?.map keyOf).all fun k => decide (k.precedes r)) =
      rest := by
    obtain rfl | ⟨xs, x, rfl⟩ := List.eq_nil_or_concat' done
    · exact List.filter_eq_self.mpr fun r _ => rfl
    · rw [List.append_assoc, List.singleton_append] at hpairs ⊢
      rw [List.getLast?_concat, Option.map_some]
      exact Keyset.filter_behind (s := fun r r' => (keyOf r).precedes r')
        (fun a b hab hba => (total_of demandOrder a b).elim (precedes_keyOf.mp hba) (precedes_keyOf.mp hab)) hpairs
  have hperm : (db.ledger.issues.rows.filter fun r => db.takes q filedBy r &&
      (done.getLast?.map keyOf).all fun k => decide (k.precedes r)).Perm rest := by
    rw [← hrest]
    refine List.Perm.trans ?_ (hqueue.filter _)
    rw [List.filter_filter]
    exact List.Perm.of_eq (List.filter_congr fun r _ => Bool.and_comm _ _)
  have hsorted : rest.Pairwise demandOrder :=
    (List.pairwise_append.mp hpairs).2.1.imp fun {r r'} hr =>
      (total_of demandOrder r r').resolve_right (precedes_keyOf.mp hr)
  have hrows : ∀ r ∈ rest, r ∈ db.ledger.issues.rows := fun r hr =>
    (mem_triageQueue.mp (h ▸ List.mem_append_right done hr)).1
  rw [listTriageIssues]
  congr 1
  refine List.Perm.eq_of_pairwise (fun r r' hr hr' hle hge => ?_) (List.pairwise_insertionSort _ _) hsorted
    ((List.perm_insertionSort _ _).trans hperm)
  have hr := hrows r (hperm.subset ((List.mem_insertionSort demandOrder).mp hr))
  exact row_eq_of_issueId hr (hrows r' hr') (issueId_eq_of_demandOrder hle hge)

/-- A cursor brings back what it was made of. -/
theorem decodeCursor_encodeCursor (P : Platform) {r : LedgerIssue} (hr : r ∈ db.ledger.issues.rows) :
    nonEmpty (some (db.encodeCursor r)) = some (db.encodeCursor r) ∧
      db.decodeCursor P (db.encodeCursor r) = some (keyOf r) := by
  have hdecode : db.decodeCursor P (db.encodeCursor r) = some (keyOf r) := by
    rw [QueueDb.decodeCursor, QueueDb.encodeCursor, ofB64url_b64url (isWellFormed_stringify _), P.parse_stringify]
    dsimp only
    have hkeys : js "distinct_subjects" ≠ js "occurrences" ∧ js "last_seen" ≠ js "occurrences" ∧
        js "last_seen" ≠ js "distinct_subjects" ∧ js "issue_id" ≠ js "occurrences" ∧
        js "issue_id" ≠ js "distinct_subjects" ∧ js "issue_id" ≠ js "last_seen" := by decide
    obtain ⟨hdo, hlo, hld, hio, hid, hil⟩ := hkeys
    simp only [Dict.get?, List.find?_cons, decide_true, hdo.symm, hlo.symm, hld.symm, hio.symm, hid.symm, hil.symm,
      decide_false, Option.map_some, stringOf, db.readInteger_ofNat, db.readStamp_stampText,
      db.readUuid_issueId r hr]
    rfl
  refine ⟨?_, hdecode⟩
  rw [nonEmpty, Option.filter_some, if_pos]
  rw [decide_eq_true_eq]
  intro hempty
  have hback := ofB64url_b64url (isWellFormed_stringify
    (.obj [(js "occurrences", .num (.ofNat r.occurrences)), (js "distinct_subjects", .num (.ofNat r.distinctSubjects)),
      (js "last_seen", .str (db.stampText r.lastSeen)), (js "issue_id", .str r.issueId)]))
  rw [← QueueDb.encodeCursor, hempty, stringify] at hback
  have hnil : ofB64url [] = [] := rfl
  rw [hnil] at hback
  cases hback

theorem pageLimit_pos {n : Nat} (h : q.pageLimit config = some n) : 0 < n := by
  rw [QueueRequest.pageLimit] at h
  have hdefault := config.positive
  have hle := config.le
  split at h
  · cases h
    exact hdefault
  · split at h
    · cases h
    · cases h
      omega

/-- A page shows what is visible of the next issues, and its cursor stands at the last of them. -/
theorem ledgerPage_eq (P : Platform) {n : Nat} (hlimit : q.pageLimit config = some n)
    (hscope : q.scope viewer = some filedBy) {done rest : List LedgerIssue}
    (h : triageQueue db q filedBy = done ++ rest) :
    ledgerPage P config db viewer q (done.getLast?.map db.encodeCursor) =
      some ⟨(rest.take n).filter viewer.issueVisible, n,
        if n < rest.length then (rest.take n).getLast?.map db.encodeCursor else none⟩ := by
  have hwindow : (if n < (rest.take (n + 1)).length then (rest.take (n + 1)).take n else rest.take (n + 1)) =
      rest.take n := by
    by_cases hmore : n < rest.length
    · rw [if_pos (by rw [List.length_take]; omega), List.take_take, Nat.min_eq_left (Nat.le_succ n)]
    · rw [if_neg (by rw [List.length_take]; omega), List.take_of_length_le (by omega),
        List.take_of_length_le (by omega)]
  have hmore : (n < (rest.take (n + 1)).length) ↔ n < rest.length := by
    rw [List.length_take]
    omega
  rw [ledgerPage, hlimit]
  dsimp only [Option.bind_eq_bind, Option.bind_some]
  have hread := listTriageIssues_eq h (n + 1)
  cases hlast : done.getLast? with
  | none =>
      rw [hlast, Option.map_none] at hread
      dsimp only [nonEmpty, Option.map_none, Option.filter_none, Option.bind_some]
      rw [hscope]
      dsimp only [Option.bind_some]
      rw [hread, hwindow, if_congr hmore rfl rfl]
      rfl
  | some r =>
      have hr : r ∈ db.ledger.issues.rows :=
        (mem_triageQueue.mp (h ▸ List.mem_append_left rest (List.mem_of_getLast? hlast))).1
      have hcursor := decodeCursor_encodeCursor P hr
      rw [hlast, Option.map_some] at hread
      rw [Option.map_some, hcursor.1]
      dsimp only
      rw [hcursor.2, hscope]
      dsimp only [Option.map_some, Option.bind_some]
      rw [hread, hwindow, if_congr hmore rfl rfl]
      rfl

/-- **The pages of a queue** hold what is visible of it: each matching issue that the viewer may see, once and in
order, and there is a last page. -/
theorem followPages_exact (P : Platform) (config : PageConfig) (db : QueueDb) (viewer : QueueViewer)
    (q : QueueRequest) :
    match q.pageLimit config, q.scope viewer with
    | some _, some filedBy => ∃ shown : List LedgerIssue,
        (∃ pages, ∀ fuel, pages ≤ fuel → followPages P config db viewer q fuel = some shown) ∧
        shown.Pairwise (fun r r' => (keyOf r).precedes r') ∧
        ∀ r, r ∈ shown ↔ r ∈ db.ledger.issues.rows ∧ db.takes q filedBy r = true ∧ viewer.issueVisible r = true
    | _, _ => ∀ cursor, ledgerPage P config db viewer q cursor = none := by
  cases hlimit : q.pageLimit config with
  | none =>
      intro cursor
      rw [ledgerPage, hlimit]
      rfl
  | some n =>
      cases hscope : q.scope viewer with
      | none =>
          intro cursor
          rw [ledgerPage, hlimit, hscope]
          dsimp only [Option.bind_eq_bind, Option.bind_some]
          cases nonEmpty cursor with
          | none => rfl
          | some raw =>
              dsimp only
              cases db.decodeCursor P raw <;> rfl
      | some filedBy =>
          refine ⟨(triageQueue db q filedBy).filter viewer.issueVisible,
            ⟨(triageQueue db q filedBy).length + 1, fun fuel hfuel => ?_⟩,
            pairwise_triageQueue.sublist List.filter_sublist, fun r => ?_⟩
          · refine @Keyset.follow_eq _ _ _ db.encodeCursor _ _ n (pageLimit_pos hlimit) (fun done rest hrows => ?_)
              fuel [] _ rfl hfuel
            rw [ledgerPage_eq P hlimit hscope hrows]
            rfl
          · rw [List.mem_filter, mem_triageQueue, and_assoc]

end Pages

/-! ### `list_gaps` -/

/-- What a filter leaves of the first `n` is the first `n` that it leaves, unless one of the first is left out and
one behind them is not. -/
theorem filter_take_eq_iff {α : Type} (p : α → Bool) (xs : List α) (n : Nat) :
    (xs.take n).filter p = (xs.filter p).take n ↔
      (∀ x ∈ xs.take n, p x = true) ∨ ∀ x ∈ xs.drop n, p x = false := by
  have hsplit : xs.filter p = (xs.take n).filter p ++ (xs.drop n).filter p := by
    rw [← List.filter_append, List.take_append_drop]
  have hshort : ((xs.take n).filter p).length ≤ n :=
    (List.length_filter_le _ _).trans (List.length_take_le n xs)
  have hrest : (xs.filter p).take n =
      (xs.take n).filter p ++ ((xs.drop n).filter p).take (n - ((xs.take n).filter p).length) := by
    rw [hsplit, List.take_append, List.take_of_length_le hshort]
  rw [hrest, List.self_eq_append_right, List.take_eq_nil_iff]
  constructor
  · rintro (hfull | hnone)
    · refine .inl fun x hx => ?_
      have hlength : ((xs.take n).filter p).length = (xs.take n).length := by
        have := List.length_filter_le p (xs.take n)
        have := List.length_take_le n xs
        omega
      exact List.length_filter_eq_length_iff.mp hlength x hx
    · exact .inr fun x hx => by simpa using List.filter_eq_nil_iff.mp hnone x hx
  · rintro (hall | hnone)
    · by_cases hn : n ≤ xs.length
      · left
        rw [List.length_filter_eq_length_iff.mpr hall, List.length_take, Nat.min_eq_left hn, Nat.sub_self]
      · right
        rw [List.drop_eq_nil_of_le (Nat.le_of_not_le hn), List.filter_nil]
    · exact .inr (List.filter_eq_nil_iff.mpr fun x hx => by simp [hnone x hx])

section Gaps

variable {v : View} {profileName : Text} {l : Ledger} {args : GapArgs}

theorem toolListGaps_cases {xs : List LedgerIssue} {filtered : Nat}
    (h : toolListGaps v profileName l args = .issues xs filtered) :
    ∃ n, args.clamped = some n ∧ xs = ((gapQueue l args).take n).filter v.issueVisible := by
  unfold toolListGaps listIssues at h
  split at h
  · cases h
  · split at h
    · cases h
    · cases hn : args.clamped with
      | none =>
          rw [hn] at h
          cases h
      | some n =>
          rw [hn] at h
          cases h
          exact ⟨n, rfl, rfl⟩

/-- The first visible issues are answered if and only if no hidden one has taken a place that a visible one behind
the limit would have got. -/
theorem toolListGaps_first_iff {xs : List LedgerIssue} {filtered : Nat}
    (h : toolListGaps v profileName l args = .issues xs filtered) :
    ∃ n, args.clamped = some n ∧ (xs = ((gapQueue l args).filter v.issueVisible).take n ↔
      (∀ r ∈ (gapQueue l args).take n, v.issueVisible r = true) ∨
        ∀ r ∈ (gapQueue l args).drop n, v.issueVisible r = false) := by
  obtain ⟨n, hn, rfl⟩ := toolListGaps_cases h
  exact ⟨n, hn, filter_take_eq_iff v.issueVisible (gapQueue l args) n⟩

end Gaps

/-- A view without a scope: only an issue about no object is seen. -/
def blindView : View := ⟨⟨[], [], []⟩, []⟩

def gapIssue (issueId : Text) (objectFqn : Option Text) (occurrences : Nat) : LedgerIssue where
  issueId := issueId
  fingerprint := issueId
  kind := js "doc_gap"
  system := none
  objectFqn := objectFqn
  status := .opened
  routedTo := js "steward"
  firstSeen := 0
  lastSeen := 0
  occurrences := occurrences
  distinctSubjects := 1
  reopenCount := 0
  resolvedAt := none
  resolvedBy := none
  resolution := none
  prs := []
  verdictBy := none
  verdictAt := none
  batchId := none
  returnedAt := none

/-- A hidden issue ahead of one about no object. -/
def hiddenAhead : Ledger where
  issues := ⟨[gapIssue (js "a") (some (js "crm.public.orders")) 2, gapIssue (js "b") none 1],
    by decide, by decide⟩
  events := []

def onlyOne : GapArgs := ⟨none, none, none, some 1⟩

theorem clamped_onlyOne : onlyOne.clamped = some 1 := rfl

theorem gapQueue_hiddenAhead : gapQueue hiddenAhead onlyOne =
    [gapIssue (js "a") (some (js "crm.public.orders")) 2, gapIssue (js "b") none 1] := by decide +kernel

theorem answer_hiddenAhead :
    toolListGaps blindView (js "steward") hiddenAhead onlyOne = .issues [] 1 := by
  rw [toolListGaps, if_neg (by decide), if_neg (by decide), listIssues, clamped_onlyOne, gapQueue_hiddenAhead]
  rfl

theorem toolListGaps_hiddenAhead : ∃ n, onlyOne.clamped = some n ∧
    ([] = ((gapQueue hiddenAhead onlyOne).filter blindView.issueVisible).take n ↔
      (∀ r ∈ (gapQueue hiddenAhead onlyOne).take n, blindView.issueVisible r = true) ∨
        ∀ r ∈ (gapQueue hiddenAhead onlyOne).drop n, blindView.issueVisible r = false) :=
  toolListGaps_first_iff answer_hiddenAhead

/-- The place is taken, and the caller sees none of the work there is. -/
theorem toolListGaps_misses : toolListGaps blindView (js "steward") hiddenAhead onlyOne = .issues [] 1 ∧
    onlyOne.clamped = some 1 ∧
    ((gapQueue hiddenAhead onlyOne).filter blindView.issueVisible).take 1 = [gapIssue (js "b") none 1] := by
  refine ⟨answer_hiddenAhead, clamped_onlyOne, ?_⟩
  rw [gapQueue_hiddenAhead]
  decide +kernel

end ContextLayer
