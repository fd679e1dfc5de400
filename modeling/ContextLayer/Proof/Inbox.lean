import ContextLayer.Inbox
import ContextLayer.Proof.Ledger

/-!
# News is told again

An acknowledgement takes a copy of the stamp it answers, so right after it the issue is read, and it
stays read as long as its status does: no statement changes the stamp of a settled issue and leaves
it settled as it was. What a change of status has to bring is a stamp later than every copy.
-/

namespace ContextLayer

open Text

variable {routing : List (Text × Text)}

/-! ### The page -/

/-- Where no more elements of a sorted list are ordered at or before `r` than the page holds, `r`
is on it. -/
theorem mem_take_of_pairwise {α : Type} {ord : α → α → Prop} [DecidableRel ord] {l : List α} {r : α}
    {n : Nat} (hsorted : l.Pairwise ord) (hrefl : ord r r) (hr : r ∈ l)
    (hn : (l.filter fun x => decide (ord x r)).length ≤ n) : r ∈ l.take n := by
  induction l generalizing n with
  | nil => cases hr
  | cons x l ih =>
      have hx : ord x r := by
        rcases List.mem_cons.mp hr with rfl | hmem
        · exact hrefl
        · exact List.rel_of_pairwise_cons hsorted hmem
      rw [List.filter_cons, if_pos (decide_eq_true hx), List.length_cons] at hn
      cases n with
      | zero => omega
      | succ n =>
          rw [List.take_succ_cons]
          rcases List.mem_cons.mp hr with rfl | hmem
          · exact List.mem_cons_self
          · exact List.mem_cons_of_mem _ (ih hsorted.of_cons hmem (by omega))

theorem newsOrder_refl (r : LedgerIssue) : newsOrder r r := .inr ⟨rfl, List.le_refl r.issueId⟩

instance : Std.Total newsOrder where
  total r r' := by
    rcases lt_trichotomy (newsStamp r) (newsStamp r') with hlt | heq | hgt
    · exact .inr (.inl hlt)
    · rcases List.le_total r'.issueId r.issueId with hle | hle
      · exact .inl (.inr ⟨heq, hle⟩)
      · exact .inr (.inr ⟨heq.symm, hle⟩)
    · exact .inl (.inl hgt)

instance : IsTrans LedgerIssue newsOrder where
  trans r₁ r₂ r₃ h₁ h₂ := by
    rcases h₁ with h₁ | ⟨heq₁, hle₁⟩ <;> rcases h₂ with h₂ | ⟨heq₂, hle₂⟩
    · exact .inl (h₂.trans h₁)
    · exact .inl (heq₂ ▸ h₁)
    · exact .inl (heq₁ ▸ h₂)
    · exact .inr ⟨heq₁.trans heq₂, List.le_trans hle₂ hle₁⟩

theorem mem_settledFilings {l : Ledger} {subject : Text} {r : LedgerIssue} :
    r ∈ settledFilings l subject ↔
      r ∈ l.issues.rows ∧ r.status.settles = true ∧ l.filedBy subject r = true := by
  rw [settledFilings, List.mem_filter, Bool.and_eq_true]

/-- A read that reaches an issue shows it as its stamp and the acknowledgement say. -/
theorem exists_unread_iff {q : InboxRead} {l : Ledger} {acks : Acks} {r : LedgerIssue}
    (hr : r ∈ settledFilings l q.subject) (hreaches : q.Reaches l r) :
    (∃ items, inbox q l acks = some items ∧
        ∃ item ∈ items, item.issueId = r.issueId ∧ item.unread = true) ↔
      isUnread r.stamp (Dict.get? acks (q.subject, r.issueId)) = true := by
  have hshown : r ∈ ((settledFilings l q.subject).insertionSort newsOrder).take q.pageMax := by
    refine mem_take_of_pairwise (List.pairwise_insertionSort newsOrder _) (newsOrder_refl r)
      ((List.mem_insertionSort _).mpr hr) ?_
    rw [((List.perm_insertionSort newsOrder _).filter _).length_eq]
    exact hreaches.page
  rw [inbox, if_pos hreaches.own]
  constructor
  · rintro ⟨items, hitems, item, hitem, hid, hunread⟩
    obtain rfl := Option.some.inj hitems
    obtain ⟨x, hx, rfl⟩ := List.mem_map.mp hitem
    have hxmem : x ∈ settledFilings l q.subject :=
      (List.mem_insertionSort _).mp (List.mem_of_mem_take (List.mem_filter.mp hx).1)
    obtain rfl : x = r :=
      l.issues.eq_of_key (mem_settledFilings.mp hxmem).1 (mem_settledFilings.mp hr).1 hid
    exact hunread
  · intro hunread
    exact ⟨_, rfl, _, List.mem_map_of_mem (List.mem_filter.mpr ⟨hshown, hreaches.visible⟩), rfl,
      hunread⟩

/-! ### Acknowledgements -/

theorem mem_ackIssues {subject : Text} {now : Nat} {rows : List LedgerIssue} {acks : Acks}
    {key : Text × Text} {ack : Ack}
    (h : Dict.get? (ackIssues subject now rows acks) key = some ack) :
    (Dict.get? acks key = some ack ∧ ∀ r ∈ rows, (subject, r.issueId) ≠ key) ∨
      ∃ r ∈ rows, (subject, r.issueId) = key ∧ ack = ⟨r.stamp, now⟩ := by
  unfold ackIssues at h
  induction rows using List.reverseRecOn with
  | nil => exact .inl ⟨h, by simp⟩
  | append_singleton rows r ih =>
      rw [List.foldl_append, List.foldl_cons, List.foldl_nil, Dict.get?_set] at h
      by_cases hkey : (subject, r.issueId) = key
      · rw [if_pos hkey] at h
        exact .inr ⟨r, by simp, hkey, (Option.some.inj h).symm⟩
      · rw [if_neg hkey] at h
        rcases ih h with ⟨hold, hnone⟩ | ⟨x, hx, hxkey, hack⟩
        · refine .inl ⟨hold, ?_⟩
          simp only [List.mem_append, List.mem_singleton]
          rintro x (hx | rfl)
          · exact hnone x hx
          · exact hkey
        · exact .inr ⟨x, List.mem_append_left _ hx, hxkey, hack⟩

/-- An acknowledgement is from before, or it is a new one of an issue that is in the ledger. -/
theorem mem_acknowledge {subject : Text} {issueIds : List Text} {now : Nat} {l : Ledger}
    {acks : Acks} {key : Text × Text} {ack : Ack}
    (h : Dict.get? (acknowledge subject issueIds now l acks) key = some ack) :
    Dict.get? acks key = some ack ∨
      ∃ r ∈ l.issues.rows, r.issueId = key.2 ∧ ack = ⟨r.stamp, now⟩ := by
  unfold acknowledge at h
  split at h
  · exact .inl h
  · rcases mem_ackIssues h with ⟨hold, _⟩ | ⟨r, hr, rfl, hack⟩
    · exact .inl hold
    · exact .inr ⟨r, List.mem_of_mem_filter hr, rfl, hack⟩

theorem Acks.lt_of_before {acks : Acks} {issueId : Text} {stamp : Nat}
    (h : acks.before issueId stamp = true) {subject : Text} {ack : Ack}
    (hack : Dict.get? acks (subject, issueId) = some ack) {acked : Nat}
    (hacked : ack.ackedVerdictAt = some acked) : acked < stamp := by
  have := List.all_eq_true.mp h _ (Dict.mem_of_get? hack)
  simpa [hacked] using this

/-! ### The invariant -/

theorem Ledger.statusOf_of_mem {l : Ledger} {r : LedgerIssue} (hr : r ∈ l.issues.rows) :
    l.statusOf r.issueId = some r.status := by
  have hget : l.getIssue r.issueId = some r := by
    unfold Ledger.getIssue
    cases hfind : l.issues.rows.find? fun x => decide (x.issueId = r.issueId) with
    | none =>
        have := List.find?_eq_none.mp hfind r hr
        simp at this
    | some x =>
        have hid : x.issueId = r.issueId := by simpa using List.find?_some hfind
        rw [l.issues.eq_of_key (List.mem_of_find?_eq_some hfind) hr hid]
  rw [Ledger.statusOf, hget, Option.map_some]

section Turned

variable {step : LedgerStep} {r r' : LedgerIssue}

theorem Turned.verdictAt (h : Turned step r r') :
    r'.verdictAt = r.verdictAt ∨ ∃ a stamp, step = .update a stamp ∧ r'.verdictAt = some stamp := by
  cases h with
  | updated =>
      rename_i a stamp _ _
      cases a with
      | verdict issueId verdict actor => cases verdict <;> exact .inr ⟨_, _, rfl, rfl⟩
      | triage issueId action actor => cases action <;> exact .inl rfl
      | returnToQueue => exact .inl rfl
  | _ => exact .inl rfl

/-- No statement clears `resolved_at`. -/
theorem Turned.resolvedAt (h : Turned step r r') (hresolved : r.resolvedAt ≠ none) :
    r'.resolvedAt ≠ none := by
  cases h with
  | updated =>
      rename_i a _ _ _
      cases a with
      | verdict issueId verdict actor => cases verdict <;> exact hresolved
      | triage issueId action actor =>
          cases action with
          | acknowledge => exact hresolved
          | dismiss => exact Option.some_ne_none _
      | returnToQueue => exact hresolved
  | resolved => exact Option.some_ne_none _
  | _ => exact hresolved

/-- A settled issue is as it was, or a rejection or a sweep has just settled it. -/
inductive Settles : LedgerStep → LedgerIssue → LedgerIssue → Prop
  | kept {step : LedgerStep} {r : LedgerIssue} : Settles step r r
  | rejected {actor : Text} {stamp : Nat} {r r' : LedgerIssue} : r.status = .opened →
      r'.status = .rejected → r'.resolvedAt = r.resolvedAt → r'.verdictAt = some stamp →
      Settles (.update (.verdict r.issueId .reject actor) stamp) r r'
  | resolved {mergedAt : Nat} {prUrl : Text} {r r' : LedgerIssue} : r.status ≠ .resolved →
      r'.status = .resolved → r'.resolvedAt = some mergedAt →
      Settles (.resolve r.issueId mergedAt prUrl) r r'

theorem Turned.settles (h : Turned step r r') (hsettles : r'.status.settles = true) :
    Settles step r r' := by
  cases h with
  | kept => exact .kept
  | recurs hfingerprint =>
      -- a reopened issue is open, and the others were not settled before either
      cases hstatus : r.status <;>
        simp [refreshSubjects, Filing.recur, IssueStatus.reopens, IssueStatus.settles, hstatus]
          at hsettles
  | updated hselects _ =>
      rename_i a stamp _
      cases a with
      | verdict issueId verdict actor =>
          cases verdict with
          | approve => cases hsettles
          | reject =>
              simp only [Act.selects, Act.takesStatus, Bool.and_eq_true, decide_eq_true_eq] at hselects
              obtain ⟨⟨rfl, hopened⟩, _⟩ := hselects
              exact .rejected hopened rfl rfl rfl
      | triage issueId action actor => cases action <;> cases hsettles
      | returnToQueue => cases hsettles
  | batched => cases hsettles
  | resolved hunresolved =>
      simp only [unresolved, Bool.and_eq_true, decide_eq_true_eq] at hunresolved
      obtain ⟨rfl, hne⟩ := hunresolved
      exact .resolved hne rfl rfl

end Turned

namespace InboxWorld

variable {w : InboxWorld} {e : InboxEvent}

structure Sound (w : InboxWorld) : Prop where
  verdictAt : ∀ r ∈ w.ledger.ledger.issues.rows, ∀ v, r.verdictAt = some v → v ≤ w.clock
  turnedAt : ∀ issueId, w.turnedAt issueId ≤ w.clock
  ackedAt : ∀ key ack, Dict.get? w.acks key = some ack → ack.ackedAt ≤ w.clock
  /-- A copy is of a `verdict_at`, unless the issue has a `resolved_at` by now. -/
  copied : ∀ key ack, Dict.get? w.acks key = some ack → ∀ v, ack.ackedVerdictAt = some v →
    v ≤ w.clock ∨ ∃ r ∈ w.ledger.ledger.issues.rows, r.issueId = key.2 ∧ r.resolvedAt ≠ none
  told : ∀ r ∈ w.ledger.ledger.issues.rows, r.status.settles = true → ∀ subject ack,
    Dict.get? w.acks (subject, r.issueId) = some ack →
      (isUnread r.stamp (some ack) = true ↔ ack.ackedAt < w.turnedAt r.issueId)

theorem sound_start : start.Sound where
  verdictAt := List.forall_mem_nil _
  turnedAt _ := Nat.le_refl 0
  ackedAt _ _ h := nomatch h
  copied _ _ h := nomatch h
  told := List.forall_mem_nil _

theorem Sound.tells (h : w.Sound) : w.TellsNews := by
  intro q r hr hsettles hfiled hreaches
  rw [exists_unread_iff (mem_settledFilings.mpr ⟨hr, hsettles, hfiled⟩) hreaches]
  cases hack : Dict.get? w.acks (q.subject, r.issueId) with
  | none => simp [isUnread, IsNews, hack]
  | some ack =>
      rw [h.told r hr hsettles q.subject ack hack, IsNews, hack]
      simp

/-- An acknowledgement is of the stamp as it is. -/
theorem isUnread_self (stamp : Option Nat) (now : Nat) : isUnread stamp (some ⟨stamp, now⟩) = false := by
  cases stamp <;> simp [isUnread]

theorem Sound.acknowledge (routing : List (Text × Text)) (h : w.Sound) {subject : Text} {issueIds : List Text} {time : Nat}
    (htime : w.clock < time) :
    (next routing w ⟨time, .ack subject issueIds⟩).Sound where
  verdictAt r hr v hv := (h.verdictAt r hr v hv).trans htime.le
  turnedAt issueId := (h.turnedAt issueId).trans htime.le
  ackedAt key ack hack := by
    rcases mem_acknowledge hack with hold | ⟨r, _, _, rfl⟩
    · exact (h.ackedAt key ack hold).trans htime.le
    · exact le_rfl
  copied key ack hack v hv := by
    rcases mem_acknowledge hack with hold | ⟨r, hr, hid, rfl⟩
    · exact (h.copied key ack hold v hv).imp_left fun hle => hle.trans htime.le
    · cases hresolved : r.resolvedAt with
      | none =>
          have hverdict : r.verdictAt = some v := by simpa [LedgerIssue.stamp, hresolved] using hv
          exact .inl ((h.verdictAt r hr v hverdict).trans htime.le)
      | some stamp => exact .inr ⟨r, hr, hid, by simp [hresolved]⟩
  told r hr hsettles s ack hack := by
    rcases mem_acknowledge hack with hold | ⟨x, hx, hid, rfl⟩
    · exact h.told r hr hsettles s ack hold
    · obtain rfl : x = r := w.ledger.ledger.issues.eq_of_key hx hr hid
      rw [isUnread_self]
      have := h.turnedAt x.issueId
      simp only [Bool.false_eq_true, false_iff, not_lt]
      exact this.trans htime.le

/-- A copy is older than the stamp of an issue that is settled now. -/
theorem isUnread_of_lt {stamp : Nat} {ack : Ack} (h : ∀ v, ack.ackedVerdictAt = some v → v < stamp) :
    isUnread (some stamp) (some ack) = true := by
  cases hacked : ack.ackedVerdictAt with
  | none => simp [isUnread, hacked]
  | some v => simp [isUnread, hacked, h v hacked]

section

variable {step : LedgerStep} {time : Nat}

theorem ready_of_may (hmay : w.May ⟨time, .ledger step⟩) : w.ledger.Ready step := by
  cases step with
  | update a stamp => exact hmay.2.1
  | _ => trivial

theorem Sound.ledger (h : w.Sound) (hvetted : w.ledger.Vetted)
    (hmay : w.May ⟨time, .ledger step⟩) (hrestamps : w.Restamps ⟨time, .ledger step⟩) :
    (next routing w ⟨time, .ledger step⟩).Sound := by
  have htime : w.clock < time := hmay.1
  have hturns := LedgerState.apply_turns routing hvetted (ready_of_may hmay)
  constructor
  case verdictAt =>
    intro r' hr' v hv
    rcases hturns.backward r' hr' with ⟨r, hr, hturned⟩ | ⟨f, _, events, _, rfl⟩
    · rcases hturned.verdictAt with hsame | ⟨a, stamp, rfl, hstamp⟩
      · exact (h.verdictAt r hr v (hsame ▸ hv)).trans htime.le
      · have hvtime : v = time := (Option.some.inj (hv.symm.trans hstamp)).trans hmay.2.2
        exact hvtime.le
    · cases hv
  case turnedAt =>
    intro issueId
    change (if _ then w.turnedAt issueId else time) ≤ time
    split
    · exact (h.turnedAt issueId).trans htime.le
    · exact le_rfl
  case ackedAt =>
    intro key ack hack
    exact (h.ackedAt key ack hack).trans htime.le
  case copied =>
    intro key ack hack v hv
    rcases h.copied key ack hack v hv with hle | ⟨r, hr, hid, hresolved⟩
    · exact .inl (hle.trans htime.le)
    · obtain ⟨r', hr', hturned⟩ := hturns.forward r hr
      exact .inr ⟨r', hr', hturned.told.1.trans hid, hturned.resolvedAt hresolved⟩
  case told =>
    intro r' hr' hsettles subject ack hack
    change r' ∈ (w.ledger.apply routing step).ledger.issues.rows at hr'
    rcases hturns.backward r' hr' with ⟨r, hr, hturned⟩ | ⟨f, _, events, _, rfl⟩
    · have hid : r'.issueId = r.issueId := hturned.told.1
      have hstatus := Ledger.statusOf_of_mem hr
      have hstatus' := Ledger.statusOf_of_mem hr'
      rw [hid] at hstatus' hack
      have hacked : ack.ackedAt < time := (h.ackedAt _ _ hack).trans_lt htime
      change isUnread r'.stamp (some ack) = true ↔ ack.ackedAt <
        if (w.ledger.apply routing step).ledger.statusOf r'.issueId =
          w.ledger.ledger.statusOf r'.issueId then w.turnedAt r'.issueId else time
      rw [hid, hstatus', hstatus]
      cases hturned.settles hsettles with
      | kept =>
          rw [if_pos rfl]
          exact h.told r' hr hsettles subject ack hack
      | rejected hopened hrejected hresolved hverdict =>
          rw [if_neg (by simp [hopened, hrejected])]
          refine iff_of_true ?_ hacked
          have hbefore := hrestamps r hr rfl hopened
          cases hresolvedAt : r.resolvedAt with
          | none =>
              rw [LedgerIssue.stamp, hresolved, hresolvedAt, hverdict, Option.none_or]
              refine isUnread_of_lt fun v hv => ?_
              have hstamp : _ = time := hmay.2.2
              rcases h.copied _ _ hack v hv with hle | ⟨x, hx, hxid, hne⟩
              · omega
              · rw [w.ledger.ledger.issues.eq_of_key hx hr hxid] at hne
                exact absurd hresolvedAt hne
          | some stamp =>
              rw [LedgerIssue.stamp, hresolved, hresolvedAt, Option.some_or]
              rw [hresolvedAt, Option.all_some] at hbefore
              exact isUnread_of_lt fun v hv => Acks.lt_of_before hbefore hack hv
      | resolved hunresolved hresolved hmergedAt =>
          rw [if_neg (by simp [hresolved, Ne.symm hunresolved])]
          refine iff_of_true ?_ hacked
          rw [LedgerIssue.stamp, hmergedAt, Option.some_or]
          exact isUnread_of_lt fun v hv => Acks.lt_of_before (hrestamps r hr rfl hunresolved) hack hv
    · cases hsettles

end

/-- The ledger's part of a run is a run of the ledger. -/
theorem ledger_reachable (h : (inboxMachine routing).Reachable w) :
    (ledgerMachine routing).Reachable w.ledger := by
  refine h.refines rfl ?_
  rintro w ⟨time, step | ⟨subject, issueIds⟩⟩ _ hmay hreach
  · exact .step step hreach (ready_of_may hmay)
  · exact hreach

/-- **The news law holds** in every run in which each rejection and each resolution comes with a
stamp later than what has been acknowledged. -/
theorem tellsNews (h : ((inboxMachine routing).restrict Restamps).Reachable w) : w.TellsNews := by
  have hsound : w.Sound := by
    refine h.invariant sound_start ?_
    rintro w ⟨time, step | ⟨subject, issueIds⟩⟩ hreach hmay hsound
    · have hvetted := LedgerState.vetted_of_reachable (ledger_reachable hreach.of_restrict)
      exact hsound.ledger hvetted hmay.1 hmay.2
    · exact Sound.acknowledge routing hsound hmay.1.1
  exact hsound.tells

end InboxWorld

def askedIssue : String := "22222222-2222-2222-2222-222222222222"

/-- The inbox of the filer of `ordersRequest`. -/
def adasInbox : InboxRead where
  subject := js "ada"
  requested := none
  ws := ⟨[(js "crm.public.orders", js "systems/crm/public/orders.md")], [], []⟩
  scopes := [⟨js "**", [.run true], by decide⟩]
  pageMax := 200

def onLedger (steps : List (Nat × LedgerStep)) : List InboxEvent :=
  steps.map fun (time, step) => ⟨time, .ledger step⟩

def rejectedAt (issueId : String) (time : Nat) : List (Nat × LedgerStep) :=
  [(time, .check (.verdict (js issueId) .reject (js "kim"))),
    (time + 1, .update (.verdict (js issueId) .reject (js "kim")) (time + 1))]

/-- Rejected, acknowledged, filed again and rejected again. -/
def rejectedTwice : List InboxEvent :=
  onLedger ((1, ordersFiled askedIssue 1) :: rejectedAt askedIssue 2) ++
    [⟨4, .ack (js "ada") [js askedIssue]⟩] ++
    onLedger ((5, ordersFiled askedIssue 5) :: rejectedAt askedIssue 6)

/-- Resolved, acknowledged, filed again and rejected. -/
def rejectedOnceResolved : List InboxEvent :=
  onLedger [(1, ordersFiled askedIssue 1), (3, .resolve (js askedIssue) 2 (js "https://kb/pull/1"))] ++
    [⟨4, .ack (js "ada") [js askedIssue]⟩] ++
    onLedger ((5, ordersFiled askedIssue 5) :: rejectedAt askedIssue 6)

/-- What the filer's inbox shows of the issue. -/
def adasNews (w : InboxWorld) : Option (List (IssueStatus × Bool)) :=
  (inbox adasInbox w.ledger.ledger w.acks).map fun items =>
    items.map fun item => (item.status, item.unread)

example : adasNews ((inboxMachine []).run rejectedTwice) = some [(.rejected, true)] := by decide +kernel

theorem tellsNews_rejectedTwice :
    (((inboxMachine []).restrict InboxWorld.Restamps).run rejectedTwice).clock = 7 ∧
      (((inboxMachine []).restrict InboxWorld.Restamps).run rejectedTwice).TellsNews :=
  ⟨by decide, InboxWorld.tellsNews (Machine.reachable_run _ _)⟩

theorem not_tellsNews_rejectedOnceResolved :
    ¬ ∀ (routing : List (Text × Text)) (w : InboxWorld), (inboxMachine routing).Reachable w →
      w.TellsNews := by
  intro hlaw
  have htells := hlaw [] ((inboxMachine []).run rejectedOnceResolved) (Machine.reachable_run _ _)
  have hshown : adasNews ((inboxMachine []).run rejectedOnceResolved) = some [(.rejected, false)] := by
    decide
  have hissue : ∃ r ∈ ((inboxMachine []).run rejectedOnceResolved).ledger.ledger.issues.rows,
      r.status.settles = true ∧
      ((inboxMachine []).run rejectedOnceResolved).ledger.ledger.filedBy adasInbox.subject r = true ∧
      adasInbox.issueVisible r = true ∧
      ((settledFilings ((inboxMachine []).run rejectedOnceResolved).ledger.ledger
        adasInbox.subject).filter fun r' => decide (newsOrder r' r)).length ≤ adasInbox.pageMax ∧
      (Dict.get? ((inboxMachine []).run rejectedOnceResolved).acks
        (adasInbox.subject, r.issueId)).all (fun ack => decide (ack.ackedAt <
          ((inboxMachine []).run rejectedOnceResolved).turnedAt r.issueId)) = true := by
    decide
  obtain ⟨r, hr, hsettles, hfiled, hvisible, hpage, hnews⟩ := hissue
  obtain ⟨items, hitems, item, hitem, _, hunread⟩ :=
    (htells adasInbox r hr hsettles hfiled ⟨rfl, hvisible, hpage⟩).mpr fun ack hack => by
      rw [Option.mem_def] at hack
      simpa [hack] using hnews
  have hread : (item.status, item.unread) = (.rejected, false) := by
    have hmem : (item.status, item.unread) ∈ items.map fun item => (item.status, item.unread) :=
      List.mem_map_of_mem hitem
    rw [adasNews, hitems, Option.map_some, Option.some.injEq] at hshown
    rw [hshown] at hmem
    exact List.mem_singleton.mp hmem
  rw [hunread] at hread
  have hfalse : true = false := congrArg Prod.snd hread
  cases hfalse

end ContextLayer
