import ContextLayer.Executors

/-!
# What the executors return

A result has the first rows up to the cap, and says whether there are more. Over a cursor this holds whatever the
batches are. Over pages it does, too, unless the cap is a number of full pages: behind the last of them the loop ends
before it has seen the row that it looks ahead for.
-/

namespace ContextLayer.Sdk

open Text PyText Frontmatter Capped

/-! ### Rows of a cursor -/

section

variable {Value σ : Type}

/-- The cursor returns at least one and at most the requested number of the rows that remain, in order. -/
structure Serves (cur : Cursor Value σ)
    (remaining : σ → List {record : List Value // record.length = cur.description.length}) : Prop where
  rows (k : Nat) (s : σ) : (cur.fetchmany k s).1 ++ remaining (cur.fetchmany k s).2 = remaining s
  most (k : Nat) (s : σ) : (cur.fetchmany k s).1.length ≤ k
  progress (k : Nat) (s : σ) : 0 < k → remaining s ≠ [] → (cur.fetchmany k s).1 ≠ []

/-- The rows so far are all that have been fetched: what the loop returns, and how many it has fetched by then. -/
theorem fetchRows_spec {cur : Cursor Value σ}
    {remaining : σ → List {record : List Value // record.length = cur.description.length}} (h : Serves cur remaining)
    (encode : List Value → List PyJson) (rowCap : Nat) (rows : List (List PyJson)) (s : σ) (hrows : rows.length ≤ rowCap) :
    ∃ s' fetched, remaining s = fetched ++ remaining s' ∧ rows.length + fetched.length ≤ rowCap + 1 ∧
      fetchRows cur encode rowCap rows s =
        ((answer rowCap (rows ++ (remaining s).map fun record => encode record.1)).1,
          (answer rowCap (rows ++ (remaining s).map fun record => encode record.1)).2, s') := by
  induction hm : rowCap - rows.length using Nat.strong_induction_on generalizing rows s with
  | _ m ih =>
    subst hm
    have hpos : 0 < min fetchBatch (rowCap + 1 - rows.length) := lt_min (by decide) (by omega)
    have hmost := (h.most (min fetchBatch (rowCap + 1 - rows.length)) s).trans (min_le_right _ _)
    have hsplit := h.rows (min fetchBatch (rowCap + 1 - rows.length)) s
    have hprogress := h.progress (min fetchBatch (rowCap + 1 - rows.length)) s hpos
    rw [fetchRows, dif_pos hrows]
    generalize cur.fetchmany (min fetchBatch (rowCap + 1 - rows.length)) s = batch at hmost hsplit hprogress ⊢
    by_cases hempty : batch.1 = []
    · have hremaining : remaining s = [] := by
        by_contra hne
        exact hprogress hne hempty
      refine ⟨batch.2, [], by rw [← hsplit, hempty], by simpa using hrows.trans (Nat.le_succ _), ?_⟩
      rw [dif_pos hempty, hremaining, List.map_nil, List.append_nil, answer, List.take_of_length_le hrows,
        decide_eq_false (not_lt.mpr hrows)]
    · have hbatch := List.length_pos_iff.mpr hempty
      have hall : rows ++ (remaining s).map (fun record => encode record.1) =
          (rows ++ batch.1.map fun record => encode record.1) ++
            (remaining batch.2).map fun record => encode record.1 := by
        rw [← hsplit, List.map_append, List.append_assoc]
      rw [dif_neg hempty]
      by_cases hroom : rows.length + batch.1.length ≤ rowCap
      · -- nothing is left over, and the loop goes on behind the batch
        have hlength : (rows ++ batch.1.map fun record => encode record.1).length = rows.length + batch.1.length := by
          rw [List.length_append, List.length_map]
        obtain ⟨s', fetched, hfetched, hcount, hloop⟩ := ih (rowCap - (rows.length + batch.1.length)) (by omega)
          (rows ++ batch.1.map fun record => encode record.1) batch.2 (by omega) (by rw [hlength])
        refine ⟨s', batch.1 ++ fetched, by rw [← hsplit, hfetched, List.append_assoc], ?_, ?_⟩
        · rw [hlength] at hcount
          rw [List.length_append]
          omega
        · rw [fill_of_le hroom, dif_neg Bool.false_ne_true, hloop, hall]
      · have hover : rowCap < (rows ++ batch.1.map fun record => encode record.1).length := by
          rw [List.length_append, List.length_map]
          omega
        have hfill : fill rowCap (fun record => encode record.1) rows batch.1 =
            ((rows ++ batch.1.map fun record => encode record.1).take rowCap, true) := by
          rw [fill_eq_answer _ hrows, answer, decide_eq_true hover]
        have hmore : rowCap < (rows ++ batch.1.map (fun record => encode record.1) ++
            (remaining batch.2).map fun record => encode record.1).length := by
          rw [List.length_append]
          exact hover.trans_le (Nat.le_add_right _ _)
        refine ⟨batch.2, batch.1, hsplit.symm, by omega, ?_⟩
        rw [hfill, dif_pos rfl, hall, answer, List.take_append_of_le_length hover.le,
          decide_eq_true hmore]

/-- **The cap of a stream**: over any cursor that serves the rows it has, the first of them up to the cap are returned,
the flag says whether there are more, and no more than one beyond the cap are fetched. -/
theorem stream_capped (encoders : Encoders Value) (conn : Connection Value σ) (statement : PyStr) (params : List PyJson)
    {cur : Cursor Value σ} {s : σ}
    (hexecute : conn.execute statement (if params.isEmpty then none else some params) = (cur, s))
    {remaining : σ → List {record : List Value // record.length = cur.description.length}} (h : Serves cur remaining)
    (rowCap : Nat) :
    ∃ s', stream encoders conn statement params rowCap =
        (columnsOfCursor encoders cur.description,
          ((remaining s).take rowCap).map fun record => encodeRow encoders (nativeOf encoders cur.description) record.1,
          decide (rowCap < (remaining s).length), s') ∧
      ∃ fetched, remaining s = fetched ++ remaining s' ∧ fetched.length ≤ rowCap + 1 := by
  obtain ⟨s', fetched, hfetched, hcount, hloop⟩ := fetchRows_spec h
    (encodeRow encoders (nativeOf encoders cur.description)) rowCap [] s (Nat.zero_le _)
  refine ⟨s', ?_, fetched, hfetched, by simpa using hcount⟩
  rw [stream, hexecute]
  dsimp only
  rw [hloop, answer, List.nil_append, List.map_take, List.length_map]

/-- A cursor that hands out one row at a time. -/
def singleRows : Cursor PyJson (List {record : List PyJson // record.length = 1}) where
  description := [(py "id", 23)]
  fetchmany k s := (s.take (min 1 k), s.drop (min 1 k))

theorem serves_singleRows : Serves singleRows id where
  rows k s := List.take_append_drop _ s
  most k s := (List.length_take_le _ _).trans (min_le_right 1 k)
  progress k s hk hs := by
    have hone : 0 < min 1 k := lt_min Nat.one_pos hk
    cases s with
    | nil => exact absurd rfl hs
    | cons record rest =>
        change (record :: rest).take (min 1 k) ≠ []
        rw [← Nat.succ_pred_eq_of_pos hone, List.take_succ_cons]
        exact List.cons_ne_nil _ _

def plainEncoders : Encoders PyJson where
  typeName _ := py "int4"
  jsonValue := id
  isSequence _ := false
  pgText _ := []
  isTimedelta _ := false
  pgInterval _ := []

/-- Two rows, of which one is asked for. -/
theorem stream_capped_singleRows : ∃ s' : List {record : List PyJson // record.length = 1},
    stream plainEncoders ⟨fun _ _ => (singleRows, [⟨[.bool true], rfl⟩, ⟨[.bool false], rfl⟩])⟩ (py "select 1") [] 1 =
      (columnsOfCursor plainEncoders [(py "id", 23)], [[.bool true]], true, s') := by
  obtain ⟨s', h, -⟩ := stream_capped plainEncoders
    ⟨fun _ _ => (singleRows, [⟨[.bool true], rfl⟩, ⟨[.bool false], rfl⟩])⟩ (py "select 1") [] rfl serves_singleRows 1
  exact ⟨s', h⟩

end

/-! ### A source of reports -/

/-- The source answers each page with the next rows, and with the number of all where it reports it. -/
structure Answers (post : Answer) (body : Members) (source : List (List PyJson)) : Prop where
  page (i limit offset : Nat) : ∃ page, post i (pageRequest body limit offset) = .ok page ∧ (columnsOf page).isSome ∧
    rowsOf page = some ((source.drop offset).take limit) ∧ (totalOf page = none ∨ totalOf page = some (source.length : Int))

/-- The page number `i` that is full is asked for so. -/
def fullRequest (body : Members) (i : Nat) : Members := pageRequest body maxPageSize (i * maxPageSize)

/-- The page comes with the number of all rows. -/
def Reports (post : Answer) (body : Members) (i : Nat) : Prop :=
  ∃ page, post i (fullRequest body i) = .ok page ∧ (totalOf page).isSome

/-- The answer is the same over every source that answers these requests so. -/
def Known (post : Answer) (body : Members) (requests : List Members) (rowCap : Nat) (source : List (List PyJson)) :
    Prop :=
  ∀ post' source', Answers post' body source' →
    (∀ i request, requests[i]? = some request → post' i request = post i request) →
      answer rowCap source' = answer rowCap source

section

variable {post : Answer} {body : Members} {source : List (List PyJson)} {rowCap : Nat}

theorem Answers.readPage (h : Answers post body source) (i limit offset : Nat) (columns : List ResultColumn) :
    ∃ columns' total, readPage post i (pageRequest body limit offset) columns =
      .ok (columns', (source.drop offset).take limit, total) ∧ (total = none ∨ total = some (source.length : Int)) ∧
      ∀ page, post i (pageRequest body limit offset) = .ok page → totalOf page = total := by
  obtain ⟨page, hpage, hcolumns, hrows, htotal⟩ := h.page i limit offset
  obtain ⟨columns', hcolumns'⟩ := Option.isSome_iff_exists.mp hcolumns
  have hrun : runReport post i (pageRequest body limit offset) = .ok page := by
    rw [runReport, hpage]
  refine ⟨if columns.isEmpty then columns' else columns, totalOf page, ?_, htotal, fun page' hpage' => ?_⟩
  · rw [Sdk.readPage, hrun]
    by_cases hempty : columns.isEmpty = true
    · simp [bind, Except.bind, pure, Except.pure, hempty, hcolumns', hrows]
    · simp [bind, Except.bind, pure, Except.pure, hempty, hrows]
  · rw [hpage] at hpage'
    obtain rfl := Except.ok.inj hpage'
    rfl

/-- The page is full and the loop goes on behind it. -/
structure Full (post : Answer) (body : Members) (source : List (List PyJson)) (rowCap i : Nat) : Prop where
  rows : (i + 1) * maxPageSize ≤ source.length
  room : (i + 1) * maxPageSize ≤ rowCap
  total : Reports post body i → (i + 1) * maxPageSize < source.length

theorem pageSize_of_full {i : Nat} (h : (i + 1) * maxPageSize ≤ rowCap) :
    min (rowCap - i * maxPageSize + 1) maxPageSize = maxPageSize := by
  rw [Nat.add_one_mul] at h
  omega

/-- The loop over pages, where the rows so far are those of full pages. -/
def pagesFrom (post : Answer) (body : Members) (source : List (List PyJson)) (rowCap i : Nat)
    (columns : List ResultColumn) : Transcript Fetched :=
  fetchPages post body rowCap i columns (source.take (i * maxPageSize)) (i * maxPageSize)

theorem Transcript.eq_iff {α : Type} {t : Transcript α} {requests : List Members} {outcome : Except ExecuteError α} :
    t = ⟨requests, outcome⟩ ↔ t.requests = requests ∧ t.outcome = outcome := by
  cases t
  rw [Transcript.mk.injEq]

/-- **One page.** -/
theorem pagesFrom_step (h : Answers post body source) {i : Nat} (hsource : i * maxPageSize ≤ source.length)
    (hcap : i * maxPageSize < rowCap) (columns : List ResultColumn) :
    ∃ columns', (Full post body source rowCap i →
        (pagesFrom post body source rowCap i columns).requests =
          fullRequest body i :: (pagesFrom post body source rowCap (i + 1) columns').requests ∧
        (pagesFrom post body source rowCap i columns).outcome =
          (pagesFrom post body source rowCap (i + 1) columns').outcome) ∧
      (¬ Full post body source rowCap i →
        pagesFrom post body source rowCap i columns =
          ⟨[pageRequest body (min (rowCap - i * maxPageSize + 1) maxPageSize) (i * maxPageSize)],
            .ok ⟨columns', source.take rowCap, decide (rowCap < source.length)⟩⟩) := by
  have hlength : (source.take (i * maxPageSize)).length = i * maxPageSize := List.length_take_of_le hsource
  obtain ⟨columns', total, hpage, htotal, hreports⟩ := h.readPage i
    (min (rowCap - i * maxPageSize + 1) maxPageSize) (i * maxPageSize) columns
  have hrows : ((source.drop (i * maxPageSize)).take (min (rowCap - i * maxPageSize + 1) maxPageSize)).length =
      min (min (rowCap - i * maxPageSize + 1) maxPageSize) (source.length - i * maxPageSize) := by
    rw [List.length_take, List.length_drop]
  have hfilled : fill rowCap id (source.take (i * maxPageSize))
      ((source.drop (i * maxPageSize)).take (min (rowCap - i * maxPageSize + 1) maxPageSize)) =
      answer rowCap (source.take (i * maxPageSize + min (rowCap - i * maxPageSize + 1) maxPageSize)) := by
    rw [fill_eq_answer _ (by omega), List.map_id, take_append_take_drop]
  refine ⟨columns', fun hfull => ?_, fun hlast => ?_⟩
  · have hnext := Nat.add_one_mul i maxPageSize
    have hsize := pageSize_of_full hfull.room
    have hroom := hfull.room
    have hfull' := hfull.rows
    have hanswer : answer rowCap (source.take ((i + 1) * maxPageSize)) =
        (source.take ((i + 1) * maxPageSize), false) := by
      have hlen : (source.take ((i + 1) * maxPageSize)).length = (i + 1) * maxPageSize :=
        List.length_take_of_le hfull.rows
      rw [answer, List.take_of_length_le (by omega), decide_eq_false (by omega)]
    rw [hsize] at hpage hrows hfilled hreports
    rw [← hnext, hanswer] at hfilled
    have hmore : ¬ (total.any fun total => decide (total ≤ ((i * maxPageSize + maxPageSize : Nat) : Int))) = true := by
      obtain rfl | rfl := htotal
      · simp
      · obtain ⟨page, hpage', -⟩ := h.page i maxPageSize (i * maxPageSize)
        have hlt := hfull.total ⟨page, hpage', by rw [hreports page hpage']; rfl⟩
        simp only [Option.any_some, decide_eq_true_eq]
        omega
    have hlen : ((source.drop (i * maxPageSize)).take maxPageSize).length = maxPageSize := by omega
    have hloop : pagesFrom post body source rowCap i columns =
        ⟨fullRequest body i :: (pagesFrom post body source rowCap (i + 1) columns').requests,
          (pagesFrom post body source rowCap (i + 1) columns').outcome⟩ := by
      rw [pagesFrom, pagesFrom, fetchPages, dif_pos (by omega)]
      simp only [hlength, hsize, hpage, hfilled, hlen, lt_irrefl, Bool.false_eq_true, or_self, dite_false, hmore,
        if_false]
      rw [← hnext]
      rfl
    exact Transcript.eq_iff.mp hloop
  · have hnext := Nat.add_one_mul i maxPageSize
    have hmax := maxPageSize_pos
    have hstop : source.length < i * maxPageSize + maxPageSize ∨ rowCap < i * maxPageSize + maxPageSize ∨
        (source.length = i * maxPageSize + maxPageSize ∧ i * maxPageSize + maxPageSize ≤ rowCap ∧
          Reports post body i) := by
      by_contra hne
      simp only [not_or, not_lt, not_and] at hne
      refine hlast ⟨hnext.trans_le hne.1, hnext.trans_le hne.2.1, fun hreport => ?_⟩
      by_contra hle
      exact hne.2.2 (by omega) hne.2.1 hreport
    have hseen : rowCap < i * maxPageSize + min (rowCap - i * maxPageSize + 1) maxPageSize ∨
        source.length ≤ i * maxPageSize + min (rowCap - i * maxPageSize + 1) maxPageSize := by
      omega
    rw [answer_take hseen] at hfilled
    rw [pagesFrom, fetchPages, dif_pos (by omega)]
    simp only [hlength, hpage, hfilled]
    by_cases hdone : (answer rowCap source).2 = true ∨
        ((source.drop (i * maxPageSize)).take (min (rowCap - i * maxPageSize + 1) maxPageSize)).length <
          min (rowCap - i * maxPageSize + 1) maxPageSize
    · rw [dif_pos hdone]
      rfl
    · -- the page is full and the source has said that it is the last one
      have hcap' : ¬ rowCap < source.length := fun hlt => hdone (.inl (decide_eq_true hlt))
      obtain hshort | hshort | ⟨hall, hroom, page, hpage', htotal'⟩ := hstop
      · exact (hdone (.inr (by omega))).elim
      · exact (hdone (.inr (by omega))).elim
      · have hsize := pageSize_of_full (hnext.trans_le hroom)
        rw [hsize] at hreports hrows
        have hsome : total = some (source.length : Int) := by
          rw [hreports page hpage'] at htotal'
          exact htotal.resolve_left fun hnone => by rw [hnone] at htotal'; cases htotal'
        rw [dif_neg hdone, hsize, hrows, hsome, Option.any_some, if_pos (decide_eq_true (by omega))]
        rfl

/-- Where the cap is a number of full pages, the loop ends in front of the next one. -/
theorem pagesFrom_of_le {i : Nat} (hsource : i * maxPageSize ≤ source.length) (hcap : rowCap ≤ i * maxPageSize)
    (columns : List ResultColumn) :
    pagesFrom post body source rowCap i columns = ⟨[], .ok ⟨columns, source.take (i * maxPageSize), false⟩⟩ := by
  have hlength : (source.take (i * maxPageSize)).length = i * maxPageSize := List.length_take_of_le hsource
  rw [pagesFrom, fetchPages, dif_neg (by omega)]

/-- **The rows that are fetched**, and what the flag says of them. -/
theorem pagesFrom_outcome (h : Answers post body source) {i : Nat} (hsource : i * maxPageSize ≤ source.length)
    (hcap : i * maxPageSize < rowCap) (columns : List ResultColumn) : ∃ columns',
      (pagesFrom post body source rowCap i columns).outcome =
        .ok ⟨columns', source.take rowCap, decide (rowCap < source.length ∧ ¬ maxPageSize ∣ rowCap)⟩ := by
  induction hm : rowCap - i * maxPageSize using Nat.strong_induction_on generalizing i columns with
  | _ m ih =>
    subst hm
    obtain ⟨columns', hgoes, hstops⟩ := pagesFrom_step h hsource hcap columns
    have hnext := Nat.add_one_mul i maxPageSize
    have hmax := maxPageSize_pos
    by_cases hfull : Full post body source rowCap i
    · rw [(hgoes hfull).2]
      by_cases hroom : (i + 1) * maxPageSize < rowCap
      · exact ih _ (by omega) hfull.rows hroom columns' rfl
      · have heq : (i + 1) * maxPageSize = rowCap := hfull.room.antisymm (not_lt.mp hroom)
        have hdvd : maxPageSize ∣ rowCap := heq ▸ Nat.dvd_mul_left maxPageSize (i + 1)
        refine ⟨columns', ?_⟩
        rw [pagesFrom_of_le hfull.rows heq.ge, heq, decide_eq_false fun hboth => hboth.2 hdvd]
    · refine ⟨columns', ?_⟩
      rw [hstops hfull]
      by_cases hover : rowCap < source.length
      · have hbehind : rowCap < (i + 1) * maxPageSize := by
          by_contra hle
          have hroom := not_lt.mp hle
          exact hfull ⟨hroom.trans hover.le, hroom, fun _ => hroom.trans_lt hover⟩
        have hdvd : ¬ maxPageSize ∣ rowCap := Nat.not_dvd_of_lt_of_lt_mul_succ (Nat.mul_comm _ i ▸ hcap)
          (Nat.mul_comm _ (i + 1) ▸ hbehind)
        rw [decide_eq_true hover, decide_eq_true ⟨hover, hdvd⟩]
      · rw [decide_eq_false hover, decide_eq_false fun hboth => hover hboth.1]

/-- **The requests that are made**: one after every full page that leaves something to ask for. -/
theorem lt_length_requests (h : Answers post body source) (k : Nat) {i : Nat}
    (hsource : i * maxPageSize ≤ source.length) (columns : List ResultColumn) :
    k < (pagesFrom post body source rowCap i columns).requests.length ↔
      (∀ j < k, Full post body source rowCap (i + j)) ∧ (i + k) * maxPageSize < rowCap := by
  induction k generalizing i columns with
  | zero =>
      by_cases hcap : i * maxPageSize < rowCap
      · obtain ⟨columns', hgoes, hstops⟩ := pagesFrom_step h hsource hcap columns
        refine iff_of_true ?_ ⟨fun _ hj => (nomatch hj), hcap⟩
        by_cases hfull : Full post body source rowCap i
        · rw [(hgoes hfull).1, List.length_cons]
          exact Nat.succ_pos _
        · rw [hstops hfull]
          exact Nat.one_pos
      · rw [pagesFrom_of_le hsource (not_lt.mp hcap)]
        exact iff_of_false (Nat.not_lt_zero 0) fun hboth => hcap hboth.2
  | succ k ih =>
      by_cases hcap : i * maxPageSize < rowCap
      · obtain ⟨columns', hgoes, hstops⟩ := pagesFrom_step h hsource hcap columns
        by_cases hfull : Full post body source rowCap i
        · rw [(hgoes hfull).1, List.length_cons, Nat.add_lt_add_iff_right, ih hfull.rows columns', Nat.add_right_comm, Nat.add_assoc i k 1]
          refine and_congr_left fun _ => ⟨fun hrest j hj => ?_, fun hall j hj => ?_⟩
          · cases j with
            | zero => exact hfull
            | succ j =>
                rw [← Nat.add_assoc, Nat.add_right_comm]
                exact hrest j (Nat.lt_of_succ_lt_succ hj)
          · rw [Nat.add_right_comm]
            exact hall (j + 1) (Nat.succ_lt_succ hj)
        · rw [hstops hfull]
          exact iff_of_false (by simp) fun hboth => hfull (hboth.1 0 (Nat.succ_pos k))
      · rw [pagesFrom_of_le hsource (not_lt.mp hcap)]
        refine iff_of_false (Nat.not_lt_zero _) fun hboth => hcap ?_
        exact (Nat.mul_le_mul_right _ (Nat.le_add_right i _)).trans_lt hboth.2

/-- Every request but the last is for a full page. -/
theorem getElem?_requests (h : Answers post body source) (k : Nat) {i : Nat}
    (hsource : i * maxPageSize ≤ source.length) (columns : List ResultColumn)
    (hk : k + 1 < (pagesFrom post body source rowCap i columns).requests.length) :
    (pagesFrom post body source rowCap i columns).requests[k]? =
      some (fullRequest body (i + k)) := by
  induction k generalizing i columns with
  | zero =>
      obtain ⟨hall, hcap⟩ := (lt_length_requests h _ hsource columns).mp hk
      have hcap' : i * maxPageSize < rowCap := (Nat.mul_le_mul_right _ (Nat.le_add_right i _)).trans_lt hcap
      obtain ⟨columns', hgoes, -⟩ := pagesFrom_step h hsource hcap' columns
      rw [(hgoes (hall 0 Nat.one_pos)).1]
      rfl
  | succ k ih =>
      obtain ⟨hall, hcap⟩ := (lt_length_requests h _ hsource columns).mp hk
      have hcap' : i * maxPageSize < rowCap := (Nat.mul_le_mul_right _ (Nat.le_add_right i _)).trans_lt hcap
      have hfull : Full post body source rowCap i := hall 0 (Nat.succ_pos _)
      obtain ⟨columns', hgoes, -⟩ := pagesFrom_step h hsource hcap' columns
      rw [(hgoes hfull).1, List.length_cons, Nat.add_lt_add_iff_right] at hk
      rw [(hgoes hfull).1, List.getElem?_cons_succ, ih hfull.rows columns' hk, Nat.add_right_comm, Nat.add_assoc i k 1]

end

/-! ### What is known of a source -/

/-- A page without headers. -/
def reportPage (rows : List (List PyJson)) : Members :=
  [(py "rows", .arr (rows.map fun row => .obj [(py "dimensionValues", .arr (row.map fun v => .obj [(py "value", v)]))]))]

/-- What a request asks for under a key. -/
def numberOf (request : Members) (key : PyStr) : Nat :=
  match Dict.get? request key with
  | some (.number (.int n)) => n.toNat
  | _ => 0

/-- A source that does not report how many rows it has. -/
def reportOf (source : List (List PyJson)) : Answer := fun _ request =>
  .ok (reportPage ((source.drop (numberOf request (py "offset"))).take (numberOf request (py "limit"))))

theorem listed_of_get {α : Type} {members : Members} {key : String} {items : List PyJson} {f : PyJson → Option α}
    (h : get members key = some (.arr items)) : listed (.obj members) key f = items.mapM f := by
  simp [listed, member, h, PyJson.iterate]

theorem listed_of_get_none {α : Type} {members : Members} {key : String} {f : PyJson → Option α}
    (h : get members key = none) : listed (.obj members) key f = some [] := by
  simp [listed, member, h]

theorem mapM_map_of_eq_some {α β : Type} {f : β → Option α} {g : α → β} (h : ∀ x, f (g x) = some x) (l : List α) :
    (l.map g).mapM f = some l := by
  induction l with
  | nil => rfl
  | cons x rest ih => rw [List.map_cons, List.mapM_cons, h, ih]; rfl

theorem rowsOf_reportPage (rows : List (List PyJson)) : rowsOf (reportPage rows) = some rows := by
  rw [rowsOf, listed_of_get rfl]
  refine mapM_map_of_eq_some (fun row => ?_) rows
  have hvalues : (row.map fun v => PyJson.obj [(py "value", v)]).mapM
      (fun v => do some ((← member v "value").getD .null)) = some row :=
    mapM_map_of_eq_some (g := fun v => PyJson.obj [(py "value", v)]) (fun _ => rfl) row
  rw [listed_of_get rfl, listed_of_get_none rfl, hvalues]
  simp

theorem numberOf_pageRequest (body : Members) (limit offset : Nat) :
    numberOf (pageRequest body limit offset) (py "limit") = limit ∧
      numberOf (pageRequest body limit offset) (py "offset") = offset := by
  have hne : py "offset" ≠ py "limit" := by decide
  constructor
  · rw [numberOf, pageRequest, Dict.get?_set_ne _ _ hne, Dict.get?_set_self]
    exact Int.toNat_natCast limit
  · rw [numberOf, pageRequest, Dict.get?_set_self]
    exact Int.toNat_natCast offset

theorem answers_reportOf (body : Members) (source : List (List PyJson)) : Answers (reportOf source) body source where
  page i limit offset := by
    obtain ⟨hlimit, hoffset⟩ := numberOf_pageRequest body limit offset
    refine ⟨reportPage ((source.drop offset).take limit), ?_, rfl, rowsOf_reportPage _, .inl rfl⟩
    rw [reportOf, hlimit, hoffset]

section

variable {post : Answer} {body : Members} {source : List (List PyJson)} {rowCap : Nat}

/-- Another source that answers the first full pages alike. -/
def splice (post : Answer) (k : Nat) (source' : List (List PyJson)) : Answer := fun i request =>
  if i < k ∧ numberOf request (py "limit") = maxPageSize ∧ numberOf request (py "offset") = i * maxPageSize then
    post i request
  else reportOf source' i request

theorem splice_fullRequest {i k : Nat} (hi : i < k) (source' : List (List PyJson)) :
    splice post k source' i (fullRequest body i) = post i (fullRequest body i) :=
  if_pos ⟨hi, numberOf_pageRequest body maxPageSize (i * maxPageSize)⟩

theorem answers_splice (h : Answers post body source) {k : Nat} {source' : List (List PyJson)}
    (hrows : source'.take (k * maxPageSize) = source.take (k * maxPageSize))
    (htotal : source'.length = source.length ∨ ∀ i < k, ¬ Reports post body i) :
    Answers (splice post k source') body source' where
  page i limit offset := by
    obtain ⟨hlimit, hoffset⟩ := numberOf_pageRequest body limit offset
    by_cases hsame : i < k ∧ limit = maxPageSize ∧ offset = i * maxPageSize
    · obtain ⟨hi, rfl, rfl⟩ := hsame
      obtain ⟨page, hpage, hcolumns, hpageRows, hpageTotal⟩ := h.page i maxPageSize (i * maxPageSize)
      have hwithin : i * maxPageSize + maxPageSize ≤ k * maxPageSize := by
        rw [← Nat.add_one_mul]
        exact Nat.mul_le_mul_right _ hi
      have hpiece : (source'.drop (i * maxPageSize)).take maxPageSize =
          (source.drop (i * maxPageSize)).take maxPageSize := by
        rw [← take_drop_take hwithin, hrows, take_drop_take hwithin]
      refine ⟨page, (splice_fullRequest hi source').trans hpage, hcolumns, by rw [hpageRows, hpiece], ?_⟩
      obtain hlength | hnone := htotal
      · rwa [hlength]
      · refine .inl ?_
        by_contra hne
        exact hnone i hi ⟨page, hpage, Option.isSome_iff_ne_none.mpr hne⟩
    · obtain ⟨page, hpage, hrest⟩ := (answers_reportOf body source').page i limit offset
      refine ⟨page, ?_, hrest⟩
      rw [splice, hlimit, hoffset, if_neg hsame, hpage]

theorem length_eq_of_reports {post' : Answer} {source' : List (List PyJson)} (h : Answers post body source)
    (h' : Answers post' body source') {i : Nat} (hsame : post' i (fullRequest body i) = post i (fullRequest body i))
    (hreports : Reports post body i) : source'.length = source.length := by
  obtain ⟨page, hpage, htotal⟩ := hreports
  obtain ⟨page₁, hpage₁, -, -, htotal₁⟩ := h.page i maxPageSize (i * maxPageSize)
  obtain ⟨page₂, hpage₂, -, -, htotal₂⟩ := h'.page i maxPageSize (i * maxPageSize)
  obtain rfl := Except.ok.inj (hpage.symm.trans hpage₁)
  obtain rfl := Except.ok.inj ((hsame.symm.trans hpage₂).symm.trans hpage).symm
  obtain ⟨total, hsome⟩ := Option.isSome_iff_exists.mp htotal
  rw [hsome] at htotal₁ htotal₂
  have heq := Option.some.inj (htotal₁.resolve_left (Option.some_ne_none _))
  have heq' := Option.some.inj (htotal₂.resolve_left (Option.some_ne_none _))
  omega

theorem take_eq_of_agree {post' : Answer} {source' : List (List PyJson)} (h : Answers post body source)
    (h' : Answers post' body source') {k : Nat}
    (hsame : ∀ i < k, post' i (fullRequest body i) = post i (fullRequest body i)) :
    source'.take (k * maxPageSize) = source.take (k * maxPageSize) := by
  induction k with
  | zero => rw [Nat.zero_mul, List.take_zero, List.take_zero]
  | succ k ih =>
      obtain ⟨page, hpage, -, hrows, -⟩ := h.page k maxPageSize (k * maxPageSize)
      obtain ⟨page', hpage', -, hrows', -⟩ := h'.page k maxPageSize (k * maxPageSize)
      obtain rfl := Except.ok.inj ((hpage'.symm.trans (hsame k (Nat.lt_succ_self k))).trans hpage)
      have hpiece := Option.some.inj (hrows'.symm.trans hrows)
      rw [Nat.add_one_mul, ← take_append_take_drop, hpiece, ih fun i hi => hsame i (Nat.lt_succ_of_lt hi),
        take_append_take_drop]

/-- **The answer is known** behind full pages exactly when they are all and one of them has said so. -/
theorem known_iff (h : Answers post body source) {requests : List Members} {k : Nat}
    (hrequests : ∀ i request, requests[i]? = some request ↔ i < k ∧ request = fullRequest body i)
    (hrows : k * maxPageSize ≤ source.length) (hcap : k * maxPageSize < rowCap) :
    Known post body requests rowCap source ↔ source.length = k * maxPageSize ∧ ∃ i < k, Reports post body i := by
  constructor
  · intro hknown
    have hsplice : ∀ source' i request, requests[i]? = some request →
        splice post k source' i request = post i request := by
      intro source' i request hrequest
      obtain ⟨hi, rfl⟩ := (hrequests i request).mp hrequest
      exact splice_fullRequest hi source'
    by_cases hall : source.length = k * maxPageSize
    · refine ⟨hall, ?_⟩
      by_contra hnone
      -- there could be one more row
      have hanswers : Answers (splice post k (source ++ [[]])) body (source ++ [[]]) :=
        answers_splice h (by rw [List.take_append_of_le_length hall.ge]) (.inr fun i hi hreports =>
          hnone ⟨i, hi, hreports⟩)
      have heq := congrArg (List.length ∘ Prod.fst) (hknown _ _ hanswers (hsplice _))
      simp only [Function.comp_apply, answer, List.length_take, List.length_append, List.length_singleton] at heq
      omega
    · -- the next row could be another one
      have hlt : k * maxPageSize < source.length := by omega
      have hanswers : Answers (splice post k (source.set (k * maxPageSize) (source[k * maxPageSize] ++ [PyJson.null]))) body
          (source.set (k * maxPageSize) (source[k * maxPageSize] ++ [PyJson.null])) :=
        answers_splice h (List.take_set_of_le le_rfl) (.inl List.length_set)
      have heq := congrArg (fun a => a.1[k * maxPageSize]?) (hknown _ _ hanswers (hsplice _))
      simp only [answer, List.getElem?_take_of_lt hcap, List.getElem?_set_self hlt, List.getElem?_eq_getElem hlt] at heq
      have hlength := congrArg List.length (Option.some.inj heq)
      rw [List.length_append, List.length_singleton] at hlength
      omega
  · rintro ⟨hall, i, hi, hreports⟩ post' source' h' hsame
    have hagree : ∀ j < k, post' j (fullRequest body j) = post j (fullRequest body j) := fun j hj =>
      hsame j _ ((hrequests j _).mpr ⟨hj, rfl⟩)
    have hlength : source'.length = source.length := length_eq_of_reports h h' (hagree i hi) hreports
    have htake := take_eq_of_agree h h' hagree
    rw [← hall, List.take_length, ← hlength, List.take_length] at htake
    rw [htake]

/-- The first requests of a loop over pages. -/
theorem getElem?_take_requests (h : Answers post body source) {columns : List ResultColumn} {k : Nat}
    (hk : k < (pagesFrom post body source rowCap 0 columns).requests.length) (i : Nat) (request : Members) :
    ((pagesFrom post body source rowCap 0 columns).requests.take k)[i]? = some request ↔
      i < k ∧ request = fullRequest body i := by
  by_cases hi : i < k
  · have hrequest := getElem?_requests h i (i := 0) (by simp) columns (Nat.lt_of_le_of_lt hi hk)
    rw [List.getElem?_take_of_lt hi, hrequest, Nat.zero_add]
    simp [hi, eq_comm]
  · rw [List.getElem?_take_eq_none (not_lt.mp hi)]
    simp [hi]

/-- Where the source ends with a full page and has said how many rows there are, it has said so on that page. -/
def ReportsAtEnd (post : Answer) (body : Members) (source : List (List PyJson)) (rowCap : Nat) : Prop :=
  ∀ k, source.length = k * maxPageSize → source.length < rowCap → (∃ i < k, Reports post body i) →
    Reports post body (k - 1)

/-- **No page once the answer is known.** -/
theorem unknown_iff (h : Answers post body source) (columns : List ResultColumn) :
    (∀ k < (pagesFrom post body source rowCap 0 columns).requests.length,
      ¬ Known post body ((pagesFrom post body source rowCap 0 columns).requests.take k) rowCap source) ↔
      ReportsAtEnd post body source rowCap := by
  have hlength : ∀ k, k < (pagesFrom post body source rowCap 0 columns).requests.length ↔
      (∀ j < k, Full post body source rowCap j) ∧ k * maxPageSize < rowCap := fun k => by
    simpa only [Nat.zero_add] using lt_length_requests h k (i := 0) (by simp) columns
  constructor
  · intro hunknown k hall hcap hreports
    by_contra hlast
    have hk : k < (pagesFrom post body source rowCap 0 columns).requests.length := by
      refine (hlength k).mpr ⟨fun j hj => ?_, hall ▸ hcap⟩
      have hle : (j + 1) * maxPageSize ≤ k * maxPageSize := Nat.mul_le_mul_right _ hj
      refine ⟨hall ▸ hle, (hle.trans hall.ge).trans hcap.le, fun hreport => ?_⟩
      have hne : j + 1 ≠ k := by
        rintro rfl
        exact hlast hreport
      rw [hall]
      exact Nat.mul_lt_mul_of_pos_right (by omega) maxPageSize_pos
    exact hunknown k hk ((known_iff h (getElem?_take_requests h hk) hall.ge (hall ▸ hcap)).mpr ⟨hall, hreports⟩)
  · intro hend k hk hknown
    obtain ⟨hfull, hcap⟩ := (hlength k).mp hk
    have hrows : k * maxPageSize ≤ source.length := by
      cases k with
      | zero => simp
      | succ k => exact (hfull k (Nat.lt_succ_self k)).rows
    obtain ⟨hall, i, hi, hreports⟩ := (known_iff h (getElem?_take_requests h hk) hrows hcap).mp hknown
    have hlast := hend k hall (hall ▸ hcap) ⟨i, hi, hreports⟩
    have hmore := (hfull (k - 1) (by omega)).total hlast
    rw [Nat.sub_add_cancel (by omega), hall] at hmore
    exact lt_irrefl _ hmore

end

/-! ### The executor of reports -/

/-- The request is one that the executor answers from the API. -/
structure Runs (executor : GA4Executor) (unicode : Unicode) (config : Members) (request : ExecuteRequest)
    (post : Answer) : Prop where
  dialect : request.dialect = py "api"
  operation : request.operation = .str (py "runReport")
  asks : asksForSomething (request.body.getD []) = true
  post : ∃ client propertyId, executor.transportFactory config = .ok client ∧
    get config "property_id" = some propertyId ∧ client (reportUrl unicode propertyId) = post

/-- **The cap of a report**: the first rows up to the cap are returned, the flag says whether there are more, and no
page is asked for once the answer is known. -/
def IsCapped (post : Answer) (body : Members) (source : List (List PyJson)) (rowCap : Nat)
    (t : Transcript ExecuteResult) : Prop :=
  (∃ result, t.outcome = .ok result ∧ result.rows = source.take rowCap ∧ result.rowCount = result.rows.length ∧
    (result.truncated = true ↔ rowCap < source.length)) ∧
    ∀ k < t.requests.length, ¬ Known post body (t.requests.take k) rowCap source

section

variable {executor : GA4Executor} {unicode : Unicode} {config : Members} {request : ExecuteRequest} {post : Answer}
  {source : List (List PyJson)}

variable (source) in
theorem execute_of_runs (h : Runs executor unicode config request post) (durationMs : Nat) (guardrails : Guardrails) :
    executor.execute unicode durationMs config request guardrails =
      ⟨(pagesFrom post (request.body.getD []) source guardrails.rowCap 0 []).requests,
        (pagesFrom post (request.body.getD []) source guardrails.rowCap 0 []).outcome.map fun f =>
          ⟨f.columns, f.rows, f.rows.length, f.truncated, durationMs, py "api", py "ga4-data-v1beta"⟩⟩ := by
  obtain ⟨client, propertyId, hclient, hproperty, hpost⟩ := h.post
  have hoperation : request.operation.asStr = some (py "runReport") := by
    rw [h.operation]
    rfl
  rw [GA4Executor.execute, if_neg (not_not.mpr h.dialect), if_neg (not_not.mpr hoperation),
    if_neg (Bool.eq_false_iff.not.mpr (not_not.mpr h.asks)), hclient, hproperty]
  dsimp only
  rw [hpost, pagesFrom, Nat.zero_mul, List.take_zero]

/-- **What is returned.** -/
theorem execute_outcome (h : Runs executor unicode config request post)
    (hsource : Answers post (request.body.getD []) source) (durationMs : Nat) (guardrails : Guardrails) :
    ∃ columns, (executor.execute unicode durationMs config request guardrails).outcome =
      .ok ⟨columns, source.take guardrails.rowCap, (source.take guardrails.rowCap).length,
        decide (guardrails.rowCap < source.length ∧ ¬ maxPageSize ∣ guardrails.rowCap), durationMs, py "api",
        py "ga4-data-v1beta"⟩ := by
  have hcap : 0 * maxPageSize < guardrails.rowCap := by
    rw [Nat.zero_mul]
    exact guardrails.rowCap_pos
  obtain ⟨columns, houtcome⟩ := pagesFrom_outcome hsource (by simp) hcap []
  have hexecute := (Transcript.eq_iff.mp (execute_of_runs source h durationMs guardrails)).2
  rw [houtcome] at hexecute
  exact ⟨columns, hexecute⟩

theorem not_isCapped_of_dvd (h : Runs executor unicode config request post)
    (hsource : Answers post (request.body.getD []) source) (durationMs : Nat) {guardrails : Guardrails}
    (hlt : guardrails.rowCap < source.length) (hdvd : maxPageSize ∣ guardrails.rowCap) :
    ¬ IsCapped post (request.body.getD []) source guardrails.rowCap
      (executor.execute unicode durationMs config request guardrails) := by
  rintro ⟨⟨result, hresult, -, -, htruncated⟩, -⟩
  obtain ⟨columns, houtcome⟩ := execute_outcome h hsource durationMs guardrails
  obtain rfl := Except.ok.inj (houtcome.symm.trans hresult)
  exact (of_decide_eq_true (htruncated.mpr hlt)).2 hdvd

/-- The flag is wrong exactly where a cap of full pages cuts rows off, and a page too many is asked for exactly where
the source says how many rows it has, but not on the last of them. -/
theorem isCapped_iff (h : Runs executor unicode config request post)
    (hsource : Answers post (request.body.getD []) source) (durationMs : Nat) (guardrails : Guardrails) :
    IsCapped post (request.body.getD []) source guardrails.rowCap
        (executor.execute unicode durationMs config request guardrails) ↔
      (source.length ≤ guardrails.rowCap ∨ ¬ maxPageSize ∣ guardrails.rowCap) ∧
        ReportsAtEnd post (request.body.getD []) source guardrails.rowCap := by
  have hrequests : (executor.execute unicode durationMs config request guardrails).requests =
      (pagesFrom post (request.body.getD []) source guardrails.rowCap 0 []).requests :=
    (Transcript.eq_iff.mp (execute_of_runs source h durationMs guardrails)).1
  constructor
  · intro hcapped
    refine ⟨?_, ?_⟩
    · by_contra hne
      obtain ⟨hlt, hdvd⟩ := not_or.mp hne
      exact not_isCapped_of_dvd h hsource durationMs (not_le.mp hlt) (not_not.mp hdvd) hcapped
    · have hunknown := hcapped.2
      rw [hrequests] at hunknown
      exact (unknown_iff hsource []).mp hunknown
  · rintro ⟨hcap, hend⟩
    obtain ⟨columns, houtcome⟩ := execute_outcome h hsource durationMs guardrails
    refine ⟨⟨_, houtcome, rfl, rfl, ?_⟩, ?_⟩
    · rw [decide_eq_true_iff]
      exact ⟨fun hboth => hboth.1, fun hlt => ⟨hlt, hcap.resolve_left (not_le.mpr hlt)⟩⟩
    · rw [hrequests]
      exact (unknown_iff hsource []).mpr hend

end

/-! ### A cap of one page -/

def pageOfSessions : ExecuteRequest where
  dialect := py "api"
  operation := .str (py "runReport")
  body := some [(py "metrics", .arr [.obj [(py "name", .str (py "sessions"))]])]

def capOf (n : Nat) : Guardrails := Guardrails.parse (.obj [(py "row_cap", .number (.int n))])

example : (capOf 3).rowCap = 3 := by decide +kernel

def property : Members := [(py "property_id", .str (py "313459823"))]

/-- An API that has so many empty rows. -/
def emptyRows (n : Nat) : Answer := reportOf (List.replicate n [])

theorem runs_pageOfSessions (unicode : Unicode) (post : Answer) :
    Runs ⟨fun _ => .ok fun _ => post⟩ unicode property pageOfSessions post where
  dialect := rfl
  operation := rfl
  asks := rfl
  post := ⟨fun _ => post, .str (py "313459823"), rfl, rfl, rfl⟩

/-- A row beyond a cap of one page is cut off in silence. -/
theorem not_isCapped_onePage : ¬ IsCapped (emptyRows 100001) (pageOfSessions.body.getD []) (List.replicate 100001 [])
    (capOf 100000).rowCap (GA4Executor.execute ⟨fun _ => .ok fun _ => emptyRows 100001⟩ asciiOnly 0 property
      pageOfSessions (capOf 100000)) := by
  have hcap : (capOf 100000).rowCap = 100000 := rfl
  refine not_isCapped_of_dvd (runs_pageOfSessions asciiOnly _) (answers_reportOf _ _) 0 ?_ ?_
  · rw [hcap, List.length_replicate]
    exact Nat.lt_succ_self _
  · rw [hcap, maxPageSize]

/-- Two rows, of which one is asked for. -/
theorem isCapped_twoRows : IsCapped (emptyRows 2) (pageOfSessions.body.getD []) (List.replicate 2 []) (capOf 1).rowCap
    (GA4Executor.execute ⟨fun _ => .ok fun _ => emptyRows 2⟩ asciiOnly 0 property pageOfSessions (capOf 1)) := by
  have hcap : (capOf 1).rowCap = 1 := rfl
  refine (isCapped_iff (runs_pageOfSessions asciiOnly _) (answers_reportOf _ _) 0 _).mpr ⟨.inr ?_, ?_⟩
  · rw [hcap, maxPageSize]
    decide
  · rintro k - - ⟨i, -, page, hpage, htotal⟩
    obtain rfl := Except.ok.inj hpage
    cases htotal

end ContextLayer.Sdk
