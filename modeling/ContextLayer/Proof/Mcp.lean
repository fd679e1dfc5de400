import ContextLayer.Proof.RateLimits
import Mathlib.Data.List.Perm.Basic

/-!
# What the gateway lets through, and what it writes down

A call that begins ends once, with a row of its own, whatever runs beside it; the tools that ran are those the
caller's roles and profile grant, by what the identity provider and the knowledge base said at that request.
-/

namespace ContextLayer.Mcp

open Text

variable {P : Platform} {rolesClaim : Text} {limits : RateLimits} {s s' : State} {t₀ : Int}

/-! ### Who is let in -/

/-- What a request was let through on. -/
structure Opened.Authorised (rolesClaim : Text) (o : Opened) : Prop where
  token_ne : bearerToken o.request.authorization ≠ []
  active : ∃ payload, o.answer = .payload payload ∧ payload.field "active" = some (.bool true) ∧
    subjectOf payload = some o.ctx.identity.subject ∧ o.ctx.identity.roles = rolesOf rolesClaim payload
  profile : o.request.profile = some o.ctx.profile.name
  parsed : ∃ raw, Dict.get? o.ctx.ws.profiles o.ctx.profile.name = some raw ∧
    o.ctx.profile = parseProfile o.ctx.profile.name raw
  permitted : profilePermitted o.ctx.profile o.ctx.identity.roles = true
  scopes : o.ctx.scopes = visibilityScopes o.ctx.ws.roles o.ctx.identity.roles

theorem identityOf_eq_some {payload : Json} {identity : Identity}
    (h : identityOf rolesClaim payload = some identity) :
    payload.field "active" = some (.bool true) ∧ subjectOf payload = some identity.subject ∧
      identity.roles = rolesOf rolesClaim payload := by
  unfold identityOf at h
  split at h
  · rename_i hactive
    obtain ⟨subject, hsubject, rfl⟩ := Option.map_eq_some_iff.mp h
    exact ⟨hactive, hsubject, rfl⟩
  · cases h

theorem resolveIdentity_somebody {token : Text} {answer : Introspection} {identity : Identity}
    (h : resolveIdentity rolesClaim token answer = .somebody identity) :
    token ≠ [] ∧ ∃ payload, answer = .payload payload ∧ identityOf rolesClaim payload = some identity := by
  unfold resolveIdentity at h
  split at h
  · cases h
  · refine ⟨by assumption, ?_⟩
    split at h
    · cases h
    · cases h
    · cases h
    · rename_i payload _
      refine ⟨payload, rfl, ?_⟩
      split at h
      · rw [← Resolved.somebody.inj h]
        assumption
      · cases h

theorem connect_opened {req : Request} {answer : Introspection} {ws : Option Workspace} {auditId : Text}
    {ctx : CallContext} (h : connect P rolesClaim req answer ws auditId = .opened ctx) :
    Opened.Authorised rolesClaim ⟨req, answer, ctx⟩ := by
  unfold connect at h
  split at h
  · cases h
  · cases h
  · rename_i identity hidentity
    obtain ⟨htoken, payload, hanswer, hpayload⟩ := resolveIdentity_somebody hidentity
    obtain ⟨hactive, hsubject, hroles⟩ := identityOf_eq_some hpayload
    split at h
    · cases h
    · dsimp only at h
      split at h
      · cases h
      · rename_i name hname
        split at h
        · cases h
        · rename_i raw hraw
          split at h
          · rename_i hpermitted
            obtain rfl := Connection.opened.inj h
            exact ⟨htoken, ⟨payload, hanswer, hactive, hsubject, hroles⟩,
              (Option.filter_eq_some_iff.mp hname).1, ⟨raw, hraw, rfl⟩, hpermitted, rfl⟩
          · cases h

/-- A refusal leaves a row of its own id at most, and one that says `denied`. -/
theorem connect_refused {req : Request} {answer : Introspection} {ws : Option Workspace} {auditId : Text}
    {status : Nat} {row : Option AuditRecord}
    (h : connect P rolesClaim req answer ws auditId = .refused status row) :
    ∀ r ∈ row, r.auditId = auditId ∧ r.decision = .denied := by
  have hdenied : ∀ {identity : Identity} {ws : Workspace} {reason : Text},
      ∀ r ∈ deniedRow P req identity ws auditId reason, r.auditId = auditId ∧ r.decision = .denied := by
    intro identity ws reason r hr
    obtain ⟨call, -, rfl⟩ := Option.map_eq_some_iff.mp hr
    exact ⟨rfl, rfl⟩
  have hnone : ∀ r ∈ (none : Option AuditRecord), r.auditId = auditId ∧ r.decision = .denied :=
    fun r hr => absurd hr (Option.not_mem_none r)
  unfold connect at h
  split at h
  · exact (Connection.refused.inj h).2 ▸ hnone
  · exact (Connection.refused.inj h).2 ▸ hnone
  · split at h
    · exact (Connection.refused.inj h).2 ▸ hnone
    · dsimp only at h
      split at h
      · exact (Connection.refused.inj h).2 ▸ hdenied
      · split at h
        · exact (Connection.refused.inj h).2 ▸ hdenied
        · split at h
          · cases h
          · exact (Connection.refused.inj h).2 ▸ hdenied

/-- What a tool that ran was let through on. -/
structure Running.Granted (r : Running) : Prop where
  implemented : isImplemented r.call.tool = true
  allowed : (toolAllowed r.ctx.profile r.call.tool (qualifierArg r.call.tool r.call.args)).allowed = true
  steward : r.call.tool ∈ stewardGated → r.ctx.profile.name ∈ stewardProfiles

theorem granted_begin {limiter : RateLimiter} {ctx : CallContext} {call : ToolCall} {auditId : Text}
    {now : Int} (h : (begin limiter ctx call auditId now).1.executes = true) :
    (begin limiter ctx call auditId now).1.Granted := by
  have hverdict : (verdict ctx.profile
      (limiter.check ctx.identity.subject (categoryForTool call.tool) now).1 call).isExecutes = true := h
  unfold verdict at hverdict
  split at hverdict
  · cases hverdict
  · split at hverdict
    · rename_i himplemented
      dsimp only at hverdict
      split at hverdict
      · rename_i hallowed
        split at hverdict
        · cases hverdict
        · rename_i hsteward
          exact ⟨himplemented, hallowed, fun hgated => not_not.mp fun hnot => hsteward ⟨hgated, hnot⟩⟩
      · cases hverdict
    · cases hverdict

theorem decision_ending (verdict : Verdict) (result : ToolResult) :
    (ending verdict result).decision = .denied ↔ verdict.isExecutes = false := by
  cases verdict with
  | rateLimited k => exact iff_of_true rfl rfl
  | denied code reason message => exact iff_of_true rfl rfl
  | executes =>
      refine iff_of_false ?_ Bool.true_eq_false.mp
      cases result with
      | throws => exact fun h => Decision.noConfusion h
      | returns filtered reason resultMeta statementText =>
          cases filtered
          · exact fun h => Decision.noConfusion h
          · exact fun h => Decision.noConfusion h

/-! ### The books -/

/-- The calls of a request, each with what it was let through on. -/
def Opened.handed (o : Opened) : List (CallContext × ToolCall) := o.request.calls.map fun call => (o.ctx, call)

/-- The calls of a run and the rows of the audit, against each other. -/
structure Accounted (P : Platform) (rolesClaim : Text) (s : State) : Prop where
  /-- A call that a request hands over waits or has begun, once. -/
  handed : (s.opened.flatMap Opened.handed).Perm (s.waiting ++ s.begun.map fun r => (r.ctx, r.call))
  /-- A call that begins is running or was answered, once. -/
  once : s.begun.Perm (s.running ++ s.answered.map Answered.running)
  distinct : (s.begun.map Running.auditId).Nodup
  rows : ∀ a ∈ s.answered, (∃ result now, a.row = a.running.row P result now) ∧
    (a.row.decision = .denied ↔ a.running.executes = false)
  /-- The audit holds the rows that could be written, and those of connections that were refused. -/
  audited : ∃ refusals : List AuditRecord,
    s.audit.Perm (refusals ++ (s.answered.filter Answered.written).map Answered.row) ∧
      ∀ row ∈ refusals, row.decision = .denied ∧ row.auditId ∉ s.begun.map Running.auditId
  unique : (s.audit.map AuditRecord.auditId).Nodup
  granted : ∀ r ∈ s.begun, (∃ o ∈ s.opened, o.Authorised rolesClaim ∧ o.ctx = r.ctx ∧ r.call ∈ o.request.calls) ∧
    (r.executes = true → r.Granted)

/-- What a run keeps, with the refusals at hand and every id among those drawn. -/
structure Books (P : Platform) (rolesClaim : Text) (s : State) (refusals : List AuditRecord) : Prop where
  handed : (s.opened.flatMap Opened.handed).Perm (s.waiting ++ s.begun.map fun r => (r.ctx, r.call))
  once : s.begun.Perm (s.running ++ s.answered.map Answered.running)
  distinct : (s.begun.map Running.auditId ++ refusals.map AuditRecord.auditId).Nodup
  drawn : ∀ id ∈ s.begun.map Running.auditId ++ refusals.map AuditRecord.auditId, id ∈ s.drawn
  rows : ∀ a ∈ s.answered, ∃ result now, a.row = a.running.row P result now
  audited : s.audit.Perm (refusals ++ (s.answered.filter Answered.written).map Answered.row)
  denied : ∀ row ∈ refusals, row.decision = .denied
  waiting : ∀ w ∈ s.waiting, ∃ o ∈ s.opened, o.Authorised rolesClaim ∧ o.ctx = w.1 ∧ w.2 ∈ o.request.calls
  begun : ∀ r ∈ s.begun, (∃ o ∈ s.opened, o.Authorised rolesClaim ∧ o.ctx = r.ctx ∧ r.call ∈ o.request.calls) ∧
    (r.executes = true → r.Granted)

variable {refusals : List AuditRecord} {auditId : Text}

theorem books_initial (limits : RateLimits) (now : Int) : Books P rolesClaim (initial limits now) [] where
  handed := .refl _
  once := .refl _
  distinct := List.nodup_nil
  drawn _ h := absurd h List.not_mem_nil
  rows _ h := absurd h List.not_mem_nil
  audited := .refl _
  denied _ h := absurd h List.not_mem_nil
  waiting _ h := absurd h List.not_mem_nil
  begun _ h := absurd h List.not_mem_nil

/-- A refused connection adds the row it could write to the refusals. -/
theorem Books.refuse (h : Books P rolesClaim s refusals) (hfresh : auditId ∉ s.drawn) {written : Bool}
    {row : Option AuditRecord} (hrow : ∀ r ∈ row, r.auditId = auditId ∧ r.decision = .denied) :
    ∃ refusals, Books P rolesClaim { s with
      audit := s.audit ++ (if written then row.toList else [])
      drawn := auditId :: s.drawn } refusals := by
  have hstays : Books P rolesClaim { s with
      audit := s.audit ++ []
      drawn := auditId :: s.drawn } refusals := by
    refine { h with audited := ?_, drawn := fun id hid => List.mem_cons_of_mem _ (h.drawn id hid) }
    rw [List.append_nil]
    exact h.audited
  cases written with
  | false => exact ⟨refusals, hstays⟩
  | true =>
      cases row with
      | none => exact ⟨refusals, hstays⟩
      | some row =>
          obtain ⟨rfl, hdenied⟩ := hrow row rfl
          refine ⟨refusals ++ [row], { h with
            distinct := ?_
            drawn := ?_
            audited := ?_
            denied := ?_ }⟩
          · rw [List.map_append, ← List.append_assoc]
            refine List.nodup_append.mpr ⟨h.distinct, List.nodup_singleton _, fun id hid id' hid' heq => ?_⟩
            rw [List.map_singleton, List.mem_singleton] at hid'
            exact hfresh (hid' ▸ heq ▸ h.drawn id hid)
          · intro id hid
            rw [List.map_append, ← List.append_assoc] at hid
            rcases List.mem_append.mp hid with hold | hnew
            · exact List.mem_cons_of_mem _ (h.drawn id hold)
            · rw [List.map_singleton, List.mem_singleton] at hnew
              exact hnew ▸ List.mem_cons_self
          · rw [List.append_assoc]
            refine (h.audited.append_right [row]).trans ?_
            rw [List.append_assoc]
            exact List.perm_append_comm.append_left refusals
          · intro r hr
            rcases List.mem_append.mp hr with hold | hnew
            · exact h.denied r hold
            · exact List.mem_singleton.mp hnew ▸ hdenied

/-- What was granted stays granted when another request is let in. -/
theorem Books.open (h : Books P rolesClaim s refusals) {req : Request} {answer : Introspection}
    {ctx : CallContext} (hctx : Opened.Authorised rolesClaim ⟨req, answer, ctx⟩) :
    Books P rolesClaim { s with
      waiting := s.waiting ++ req.calls.map fun call => (ctx, call)
      opened := s.opened ++ [⟨req, answer, ctx⟩]
      drawn := auditId :: s.drawn } refusals := by
  refine { h with
    handed := ?_
    drawn := fun id hid => List.mem_cons_of_mem _ (h.drawn id hid)
    waiting := ?_
    begun := ?_ }
  · rw [List.flatMap_append, List.flatMap_singleton, List.append_assoc]
    refine (h.handed.append_right _).trans ?_
    rw [List.append_assoc]
    exact List.perm_append_comm.append_left s.waiting
  · intro w hw
    rcases List.mem_append.mp hw with hold | hnew
    · obtain ⟨o, ho, hgranted⟩ := h.waiting w hold
      exact ⟨o, List.mem_append_left _ ho, hgranted⟩
    · obtain ⟨call, hcall, rfl⟩ := List.mem_map.mp hnew
      exact ⟨⟨req, answer, ctx⟩, by simp, hctx, rfl, hcall⟩
  · intro r hr
    obtain ⟨⟨o, ho, hgranted⟩, hexecutes⟩ := h.begun r hr
    exact ⟨⟨o, List.mem_append_left _ ho, hgranted⟩, hexecutes⟩

/-- A call that begins takes its place among those that wait. -/
theorem Books.start (h : Books P rolesClaim s refusals) (hfresh : auditId ∉ s.drawn) {i : Nat}
    {ctx : CallContext} {call : ToolCall} (hwaits : s.waiting[i]? = some (ctx, call)) {r : Running}
    (hid : r.auditId = auditId) (hctx : r.ctx = ctx) (hcall : r.call = call)
    (hgranted : r.executes = true → r.Granted) {limiter : RateLimiter} {now : Int} :
    Books P rolesClaim { s with
      limiter := limiter
      clock := now
      waiting := s.waiting.eraseIdx i
      running := s.running ++ [r]
      begun := s.begun ++ [r]
      drawn := auditId :: s.drawn } refusals := by
  have hperm : ((s.begun ++ [r]).map Running.auditId ++ refusals.map AuditRecord.auditId).Perm
      (auditId :: (s.begun.map Running.auditId ++ refusals.map AuditRecord.auditId)) := by
    rw [List.map_append, List.map_singleton, hid, List.append_assoc]
    exact List.perm_middle
  refine { h with handed := ?_, once := ?_, distinct := ?_, drawn := ?_, waiting := ?_, begun := ?_ }
  · have hrest : s.waiting.Perm ((ctx, call) :: s.waiting.eraseIdx i) := by
      obtain ⟨hi, heq⟩ := List.getElem?_eq_some_iff.mp hwaits
      exact heq ▸ (List.getElem_cons_eraseIdx_perm hi).symm
    refine h.handed.trans ((hrest.append_right _).trans ?_)
    rw [List.map_append, List.map_singleton, hctx, hcall, ← List.append_assoc, List.cons_append]
    exact (List.perm_append_singleton _ _).symm
  · refine (h.once.append_right [r]).trans ?_
    rw [List.append_assoc, List.append_assoc]
    exact List.perm_append_comm.append_left s.running
  · exact hperm.nodup_iff.mpr (List.nodup_cons.mpr ⟨fun hmem => hfresh (h.drawn _ hmem), h.distinct⟩)
  · intro id hmem
    rcases List.mem_cons.mp (hperm.mem_iff.mp hmem) with rfl | hold
    · exact List.mem_cons_self
    · exact List.mem_cons_of_mem _ (h.drawn id hold)
  · exact fun w hw => h.waiting w (List.mem_of_mem_eraseIdx hw)
  · intro c hc
    rcases List.mem_append.mp hc with hold | hnew
    · exact h.begun c hold
    · obtain rfl := List.mem_singleton.mp hnew
      rw [hctx, hcall]
      exact ⟨h.waiting _ (List.mem_of_getElem? hwaits), hgranted⟩

/-- A call that ends leaves the running ones for the answered, with the row it made. -/
theorem Books.finish (h : Books P rolesClaim s refusals) {i : Nat} {r : Running}
    (hr : s.running[i]? = some r) {result : ToolResult} {now : Int} {written : Bool} :
    Books P rolesClaim { s with
      running := s.running.eraseIdx i
      audit := s.audit ++ (if written then [r.row P result now] else [])
      answered := s.answered ++ [⟨r, r.row P result now, written⟩] } refusals := by
  have hperm : s.running.Perm (r :: s.running.eraseIdx i) := by
    obtain ⟨hi, rfl⟩ := List.getElem?_eq_some_iff.mp hr
    exact (List.getElem_cons_eraseIdx_perm hi).symm
  refine { h with once := ?_, rows := ?_, audited := ?_ }
  · refine h.once.trans ?_
    refine (hperm.append_right _).trans ?_
    rw [List.map_append, List.map_singleton, List.cons_append, ← List.append_assoc]
    exact @List.perm_append_comm _ [r] _
  · intro a ha
    rcases List.mem_append.mp ha with hold | hnew
    · exact h.rows a hold
    · obtain rfl := List.mem_singleton.mp hnew
      exact ⟨result, now, rfl⟩
  · have happend := h.audited.append_right (if written then [r.row P result now] else [])
    rw [List.append_assoc] at happend
    cases written with
    | false =>
        rw [List.filter_append, List.filter_cons_of_neg (by exact Bool.false_ne_true), List.filter_nil,
          List.append_nil]
        simpa using happend
    | true =>
        rw [List.filter_append, List.filter_cons_of_pos (by rfl), List.filter_nil, List.map_append]
        exact happend

theorem exists_books (h : (machine P rolesClaim limits t₀).Reachable s) :
    ∃ refusals, Books P rolesClaim s refusals := by
  refine h.invariant_ofStep (I := fun s => ∃ refusals, Books P rolesClaim s refusals)
    ⟨[], books_initial limits t₀⟩ fun s e s' hstep hs => ?_
  obtain ⟨refusals, hs⟩ := hs
  cases e with
  | post req answer ws auditId written =>
      obtain ⟨hfresh, ⟨status, row, hconnect, rfl⟩ | ⟨ctx, hconnect, rfl⟩⟩ := step?_post hstep
      · exact hs.refuse hfresh (connect_refused hconnect)
      · exact ⟨refusals, hs.open (connect_opened hconnect)⟩
  | start i auditId now =>
      obtain ⟨hfresh, -, ctx, call, hwaits, rfl⟩ := step?_start hstep
      exact ⟨refusals, hs.start hfresh hwaits rfl rfl rfl granted_begin⟩
  | finish i result now written =>
      obtain ⟨r, hr, rfl⟩ := step?_finish hstep
      exact ⟨refusals, hs.finish hr⟩

end ContextLayer.Mcp
