import ContextLayer.Proof.Binding

/-!
# What is executed was validated

A job is enqueued only for a request whose hash a verified token binds, and a verified token was
issued by an earlier pass of the same subject for the same system and snapshot. What is left is the
step from the hash to the content. It goes through where the hashed text is the content the connector
reads: a SQL statement that is Unicode text, an API request without a `statement`. An API request
with a string `statement` is hashed by that statement and run by its operation and body.
-/

namespace ContextLayer

open Text Sql

variable {P : Platform} {S : Sqlglot}

/-! ### The job, inverted -/

theorem executeRequest_enqueue {table : KeyTable} {call : ExecuteCall} {job : ExecuteJob}
    (h : executeRequest P table call = .enqueue job) :
    ∃ state, Dict.get? call.ws.systems call.system = some state ∧
      (verifyValidationToken P table call.validationToken (call.expected P state) call.now).isOk
        = true ∧
      job.system = call.system ∧ job.payload.request = cleanRequest call.request := by
  simp only [executeRequest] at h
  split at h
  · cases h
  case h_2 state hstate =>
    split at h
    · cases h
    · split at h
      · cases h
      · cases h
      · cases h
      case h_4 validated hverify =>
        refine ⟨state, hstate, by rw [hverify]; rfl, ?_⟩
        simp only [enqueueStep] at h
        split at h
        · cases h
        · split at h
          · cases h
          · cases h
          · obtain rfl := ExecuteStep.enqueue.inj h
            exact ⟨rfl, rfl⟩

/-- A verified request with a connection and a credential for it is enqueued. -/
theorem exists_enqueue {table : KeyTable} {call : ExecuteCall} {state : SystemState}
    {registration : Registration} {credential : Json} {credentials : List Json}
    (hstate : Dict.get? call.ws.systems call.system = some state)
    (htoken : call.validationToken ≠ [])
    (hverify : (verifyValidationToken P table call.validationToken (call.expected P state)
      call.now).isOk = true)
    (hregistration : call.registration = some registration)
    (hcredentials : executionCredentials registration.payload = some (credential :: credentials)) :
    ∃ job, executeRequest P table call = .enqueue job := by
  simp only [executeRequest, hstate, if_neg htoken]
  cases hresult : verifyValidationToken P table call.validationToken (call.expected P state)
      call.now with
  | ok validated => exact ⟨_, by simp only [enqueueStep, hregistration, hcredentials]; rfl⟩
  | _ => simp [hresult, VerifyResult.isOk] at hverify

theorem member_cleanRequest {request : Request} {key : String} (h : js key ≠ js "guardrails") :
    member (cleanRequest request) key = member request key := by
  induction request with
  | nil => rfl
  | cons m request ih =>
      obtain ⟨k, v⟩ := m
      by_cases hk : k = js "guardrails"
      · subst hk
        simp only [member, cleanRequest, List.filter_cons, Dict.get?_cons] at ih ⊢
        simpa [h.symm] using ih
      · simp only [member, cleanRequest, List.filter_cons, hk, ne_eq, not_false_eq_true,
          decide_true, if_true, Dict.get?_cons] at ih ⊢
        rw [ih]

/-! ### Tokens come from passes -/

theorem validateSqlDialect_token {ws : KbState} {system : Text} {surface : VisibleSurface}
    {request : Request} {base outcome : ValidateOutcome}
    (h : validateSqlDialect P S ws system surface request base = .ok outcome) :
    outcome.validationToken = base.validationToken := by
  simp only [validateSqlDialect] at h
  split at h
  · rw [← Except.ok.inj h]
  · split at h
    · rw [← Except.ok.inj h]
    · split at h
      · cases h
      · rw [← Except.ok.inj h, outcomeOfVerdict]
        split <;> rfl

/-- Resolution issues nothing. -/
theorem resolveRequest_token {call : ValidateCall} {outcome : ValidateOutcome}
    (h : resolveRequest P S call = .ok outcome) : outcome.validationToken = none := by
  simp only [resolveRequest] at h
  split at h
  · rw [← Except.ok.inj h]
    rfl
  · split at h
    · rw [← Except.ok.inj h]
      rfl
    · split at h
      · exact validateSqlDialect_token h
      · rw [← Except.ok.inj h, validateApiDialect]
        split <;> rfl

/-- A call that returns a token passed. -/
theorem validateRequest_token {table after : KeyTable} {call : ValidateCall}
    {outcome : ValidateOutcome} {issued : IssuedToken}
    (h : validateRequest P S table call = .ok (outcome, after))
    (htoken : outcome.validationToken = some issued) :
    outcome.verdict = .pass ∧ ∃ state, Dict.get? call.ws.systems call.system = some state := by
  simp only [validateRequest] at h
  split at h
  · cases h
  case h_2 resolved hresolve =>
    split at h
    case h_1 sha state hissue hverdict hsha hstate =>
      split at h
      · obtain ⟨rfl, -⟩ := Prod.mk.inj (Except.ok.inj h)
        exact ⟨hverdict, state, hstate⟩
      · cases h
    · obtain ⟨rfl, -⟩ := Prod.mk.inj (Except.ok.inj h)
      rw [resolveRequest_token hresolve] at htoken
      cases htoken

/-- A validation on record: if it came with a token, the token binds what passed, and its key is in
the table. -/
def Validated.Sound (P : Platform) (S : Sqlglot) (table : KeyTable) (v : Validated) : Prop :=
  ∀ issued, v.outcome.validationToken = some issued →
    v.outcome.verdict = .pass ∧ ∃ state sha key,
      Dict.get? v.call.ws.systems v.call.system = some state ∧
      ContentPass P S v.call state sha v.outcome.citedObjects ∧
      issued.token = makeToken P key
        ((v.call.binding state sha v.outcome.citedObjects).payload v.call.ttlS v.call.now) ∧
      keyByKid table key.kid = some key.secret

theorem Validated.Sound.keeps {table after : KeyTable} {v : Validated} (h : v.Sound P S table)
    (hkeeps : table.Keeps after) : v.Sound P S after := by
  intro issued htoken
  obtain ⟨hpass, state, sha, key, hstate, hcontent, htok, hkey⟩ := h issued htoken
  exact ⟨hpass, state, sha, key, hstate, hcontent, htok, hkeeps _ _ hkey⟩

/-- What one call of `validateRequest` leaves. -/
theorem validateRequest_sound {table after : KeyTable} {call : ValidateCall}
    {outcome : ValidateOutcome} (h : validateRequest P S table call = .ok (outcome, after)) :
    table.Keeps after ∧ Validated.Sound P S after ⟨call, outcome⟩ := by
  cases htoken : outcome.validationToken with
  | none =>
      refine ⟨?_, fun issued hissued => by simp [htoken] at hissued⟩
      simp only [validateRequest] at h
      split at h
      · cases h
      · split at h
        · split at h
          · obtain ⟨rfl, -⟩ := Prod.mk.inj (Except.ok.inj h)
            cases htoken
          · cases h
        · obtain ⟨-, rfl⟩ := Prod.mk.inj (Except.ok.inj h)
          exact .refl _
  | some issued =>
      obtain ⟨hpass, state, hstate⟩ := validateRequest_token h htoken
      obtain ⟨sha, -, hcontent, hnone | ⟨-, issued', hissued', hcall⟩⟩ :=
        validateRequest_pass hstate h hpass
      · rw [htoken] at hnone
        cases hnone.2
      · obtain ⟨key, -, htok, hkeeps, hkey⟩ := issueValidationToken_spec hcall
        refine ⟨hkeeps, fun issued'' hissued'' => ?_⟩
        obtain rfl : issued' = issued'' := Option.some.inj (hissued'.symm.trans hissued'')
        exact ⟨hpass, state, sha, key, hstate, hcontent, htok, hkey⟩

/-! ### Histories -/

namespace GatewayState

def Sound (P : Platform) (S : Sqlglot) (st : GatewayState) : Prop :=
  ∀ v ∈ st.validated, v.Sound P S st.table

theorem Sound.keeps {st : GatewayState} {after : KeyTable} (h : st.Sound P S)
    (hkeeps : st.table.Keeps after) : Sound P S { st with table := after } :=
  fun v hv => (h v hv).keeps hkeeps

theorem Sound.step {st : GatewayState} (h : st.Sound P S) (event : GatewayEvent) :
    (st.step P S event).Sound P S := by
  cases event with
  | insertKey row =>
      cases hinsert : st.table.insert row with
      | none => simpa [GatewayState.step, hinsert] using h
      | some after => simpa [GatewayState.step, hinsert] using h.keeps (.insert hinsert)
  | deactivateKey kid => exact h.keeps (.deactivate _ _)
  | validate call =>
      cases hcall : validateRequest P S st.table call with
      | error message => simpa [GatewayState.step, hcall] using h
      | ok result =>
          obtain ⟨outcome, after⟩ := result
          obtain ⟨hkeeps, hsound⟩ := validateRequest_sound hcall
          simp only [GatewayState.step, hcall]
          intro v hv
          rcases List.mem_append.mp hv with hold | hnew
          · exact (h v hold).keeps hkeeps
          · obtain rfl := List.mem_singleton.mp hnew
            exact hsound

/-- **Over any history of validations and rotations.** -/
theorem sound_run (events : List GatewayEvent) : (run P S events).Sound P S := by
  have hfoldl : ∀ (events : List GatewayEvent) (st : GatewayState), st.Sound P S →
      (events.foldl (GatewayState.step P S) st).Sound P S := by
    intro events
    induction events with
    | nil => exact fun st h => h
    | cons event events ih => exact fun st h => ih _ (h.step event)
  exact hfoldl events _ (by intro v hv; cases hv)

/-- The token of some validation on record. -/
def Issued (st : GatewayState) (token : Text) : Prop :=
  ∃ v ∈ st.validated, ∃ issued, v.outcome.validationToken = some issued ∧ issued.token = token

end GatewayState

/-! ### From the hash to the content -/

/-- The content the connector of a system reads is the same in two requests. -/
def SameContent (state : SystemState) (validated executed : Request) : Prop :=
  if expectedDialect state = js "sql" then
    ∃ statement, member validated "statement" = some (.str statement) ∧
      member executed "statement" = some (.str statement)
  else
    ∃ operation, member validated "operation" = some (.str operation) ∧
      member executed "operation" = some (.str operation) ∧
      (bodyOf validated).sorted = (bodyOf executed).sorted

/-- What is hashed for the request is the content the connector will read: for a SQL system the
statement, as Unicode text; for an API system the operation and body, which a string `statement`
would stand in for. -/
def HashesContent (state : SystemState) (request : Request) : Prop :=
  if expectedDialect state = js "sql" then
    ∃ statement, member request "statement" = some (.str statement) ∧
      isWellFormed statement = true
  else
    ∀ statement, member request "statement" = some (.str statement) →
      utf8 statement = utf8 (canonicalJson (apiJson (operationOf request) (bodyOf request)))

theorem sameContent_of_api {call : ValidateCall} {request : Request}
    (hoperation : operationOf call.request ≠ [])
    (hhash : P.sha256Hex (canonicalJson (apiJson (operationOf call.request) (bodyOf call.request)))
      = (statementBinding P request).sha256)
    (hcontent : ∀ statement, member request "statement" = some (.str statement) →
      utf8 statement = utf8 (canonicalJson (apiJson (operationOf request) (bodyOf request)))) :
    ∃ operation, member call.request "operation" = some (.str operation) ∧
      member request "operation" = some (.str operation) ∧
      (bodyOf call.request).sorted = (bodyOf request).sorted := by
  cases hstatement : (member request "statement").bind Json.asString with
  | none =>
      simp only [statementBinding, hstatement, sha256Hex_canonicalJson_eq_iff] at hhash
      obtain ⟨hop, body, hbody, hsorted⟩ := sorted_requestJson_eq_iff.mp hhash.symm
      have hnull : body ≠ .null := by
        rintro rfl
        exact bodyOf_ne_null _ (sorted_eq_null_iff.mp hsorted.symm)
      refine ⟨_, operationOf_mem hoperation, hop, ?_⟩
      rw [bodyOf_eq hbody hnull, hsorted]
  | some statement =>
      have hbytes := P.sha256Hex_eq_iff.mpr (hcontent statement (member_string_iff.mp hstatement))
      rw [statementBinding_sql hstatement, hbytes, sha256Hex_canonicalJson_eq_iff, sorted_apiJson,
        sorted_apiJson] at hhash
      simp only [Json.obj.injEq, List.cons.injEq, Prod.mk.injEq, true_and, and_true,
        Json.str.injEq] at hhash
      obtain ⟨hbody, hop⟩ := hhash
      exact ⟨_, operationOf_mem hoperation, hop ▸ operationOf_mem (hop ▸ hoperation), hbody⟩

theorem sameContent_of_hash {call : ValidateCall} {validatedState state : SystemState}
    {sha : Text} {cited : List Text} {request : Request}
    (hpass : ContentPass P S call validatedState sha cited)
    (hclass : expectedDialect validatedState = expectedDialect state)
    (hhash : sha = (statementBinding P request).sha256) (hcontent : HashesContent state request) :
    SameContent state call.request request := by
  cases hpass with
  | sql statement verdict tree hsql hstatement hpassed hsha hcited =>
      rw [HashesContent, if_pos (hclass ▸ hsql)] at hcontent
      obtain ⟨executed, hexecuted, hwell⟩ := hcontent
      rw [hsha, statementBinding_sql (member_string_iff.mpr hexecuted)] at hhash
      obtain rfl := P.eq_of_sha256Hex_eq hpassed.wellFormed hwell hhash
      rw [SameContent, if_pos (hclass ▸ hsql)]
      exact ⟨_, member_string_iff.mp hstatement, hexecuted⟩
  | api hapi hoperation hsha hcited =>
      have hne : expectedDialect state ≠ js "sql" := hclass ▸ hapi
      rw [HashesContent, if_neg hne] at hcontent
      rw [SameContent, if_neg hne]
      exact sameContent_of_api hoperation (hsha ▸ hhash) hcontent

/-- The pin is a digest of the canonical snapshot body, which states the system's class: with no
collisions, states under one pin have one class. -/
def PinsClass (state state' : SystemState) : Prop :=
  state.snapshotRef = state'.snapshotRef → state.systemClass = state'.systemClass

/-- An earlier pass of the same subject, for the same system and snapshot, with the content a
request executes. -/
def WasValidated (st : GatewayState) (call : ExecuteCall) (state : SystemState)
    (executed : Request) : Prop :=
  ∃ v ∈ st.validated, v.outcome.verdict = .pass ∧ v.call.subject = call.identity.subject ∧
    v.call.system = call.system ∧
    (∃ validatedState, Dict.get? v.call.ws.systems v.call.system = some validatedState ∧
      validatedState.snapshotRef = state.snapshotRef) ∧
    SameContent state v.call.request executed

theorem sameContent_cleanRequest {state : SystemState} {validated request : Request} :
    SameContent state validated (cleanRequest request) ↔ SameContent state validated request := by
  have hstatement := @member_cleanRequest request "statement" (by decide)
  have hoperation := @member_cleanRequest request "operation" (by decide)
  have hbody := @member_cleanRequest request "body" (by decide)
  simp only [SameContent, hstatement, hoperation, bodyOf, hbody]

/-- **What is executed was validated**, over every history of validations and key rotations, for
every request that is hashed by the content it runs. -/
theorem wasValidated_of_enqueue (P : Platform) (S : Sqlglot) (events : List GatewayEvent)
    (call : ExecuteCall) (job : ExecuteJob) (state : SystemState)
    (hstate : Dict.get? call.ws.systems call.system = some state)
    (hforge : CarriesSignature P (GatewayState.run P S events).table call.validationToken →
      (GatewayState.run P S events).Issued call.validationToken)
    (hpins : ∀ v ∈ (GatewayState.run P S events).validated, ∀ validatedState,
      Dict.get? v.call.ws.systems v.call.system = some validatedState →
        PinsClass validatedState state)
    (hcontent : HashesContent state call.request)
    (henqueue : executeRequest P (GatewayState.run P S events).table call = .enqueue job) :
    WasValidated (GatewayState.run P S events) call state job.payload.request := by
  obtain ⟨state', hstate', hverify, -, hrequest⟩ := executeRequest_enqueue henqueue
  obtain rfl : state = state' := Option.some.inj (hstate.symm.trans hstate')
  obtain ⟨v, hv, issued, hissued, htoken⟩ := hforge (carriesSignature_of_verify hverify)
  obtain ⟨hpass, validatedState, sha, key, hvstate, hvcontent, htok, hkey⟩ :=
    GatewayState.sound_run events v hv issued hissued
  rw [← htoken, htok, verify_makeToken hkey] at hverify
  obtain ⟨-, hmatches⟩ := hverify
  have hclass : expectedDialect validatedState = expectedDialect state := by
    rw [expectedDialect, expectedDialect, hpins v hv validatedState hvstate hmatches.snapshotRef]
  rw [hrequest]
  exact ⟨v, hv, hpass, hmatches.subject, hmatches.system,
    ⟨validatedState, hvstate, hmatches.snapshotRef⟩,
    sameContent_cleanRequest.mpr
      (sameContent_of_hash hvcontent hclass hmatches.statementSha256 hcontent)⟩

section Example

def gaEvents : List GatewayEvent := [.validate (gaCall countryRequest)]

/-- The text that was hashed for the validated report. -/
def countryText : Text := canonicalJson (apiJson (js "runReport") (.obj [countryEntry]))

noncomputable def gaPayload : VtokenPayload :=
  ((gaCall countryRequest).binding gaState (Platform.ideal.sha256Hex countryText)
    [country.fqn]).payload 300 1000000

theorem run_gaEvents : ∃ v issued,
    (GatewayState.run .ideal (parserOf ordersTree) gaEvents).validated = [v] ∧
      v.call = gaCall countryRequest ∧ v.outcome.validationToken = some issued ∧
      issued.token = makeToken .ideal analystKey gaPayload ∧
      keyByKid (GatewayState.run .ideal (parserOf ordersTree) gaEvents).table analystKey.kid
        = some analystKey.secret :=
  ⟨_, _, rfl, rfl, rfl, rfl, rfl⟩

/-- A call of `execute_sql` with that token, a minute later. -/
noncomputable def gaExecution (request : Request) : ExecuteCall where
  ws := gaWs
  identity := ⟨js "ana", [], none⟩
  profile := ⟨js "analyst", none, none⟩
  scopes := [eventScope]
  sessionId := none
  auditId := js "a1"
  intent := none
  system := js "ga"
  request := request
  validationToken := makeToken .ideal analystKey gaPayload
  now := 1060000
  registration := some ⟨js "ga4", js "1", .obj [(js "credentials",
    .arr [.obj [(js "required_for", .arr [.str (js "query")])]])]⟩

theorem enqueue_gaExecution {request : Request}
    (hhash : (statementBinding .ideal request).sha256 = Platform.ideal.sha256Hex countryText) :
    ∃ job, executeRequest .ideal (GatewayState.run .ideal (parserOf ordersTree) gaEvents).table
      (gaExecution request) = .enqueue job := by
  obtain ⟨v, issued, -, -, -, -, hkey⟩ := run_gaEvents
  have hmatches : Matches gaPayload ((gaExecution request).expected .ideal gaState) 1060000 :=
    { statementSha256 := hhash.symm, system := rfl, subject := rfl, snapshotRef := rfl
      unexpired := by decide
      visible := fun fqn hfqn => by
        obtain rfl := List.mem_singleton.mp (mem_sortTexts.mp hfqn)
        rfl }
  exact exists_enqueue rfl (makeToken_ne_nil _ _)
    ((verify_makeToken hkey).mpr ⟨by decide, hmatches⟩) rfl rfl

theorem issued_gaEvents :
    (GatewayState.run .ideal (parserOf ordersTree) gaEvents).Issued
      (makeToken .ideal analystKey gaPayload) := by
  obtain ⟨v, issued, hvalidated, -, htoken, htok, -⟩ := run_gaEvents
  exact ⟨v, by rw [hvalidated]; exact List.mem_singleton_self v, issued, htoken, htok⟩

theorem pinsClass_gaEvents :
    ∀ v ∈ (GatewayState.run .ideal (parserOf ordersTree) gaEvents).validated, ∀ validatedState,
      Dict.get? v.call.ws.systems v.call.system = some validatedState →
        PinsClass validatedState gaState := by
  obtain ⟨v, issued, hvalidated, hcall, -⟩ := run_gaEvents
  rw [hvalidated]
  intro v' hv' validatedState hstate _
  obtain rfl := List.mem_singleton.mp hv'
  rw [hcall] at hstate
  obtain rfl : gaState = validatedState := Option.some.inj hstate
  rfl

/-- The validated report, executed. -/
theorem wasValidated_country : ∃ job,
    executeRequest .ideal (GatewayState.run .ideal (parserOf ordersTree) gaEvents).table
        (gaExecution countryRequest) = .enqueue job ∧
      WasValidated (GatewayState.run .ideal (parserOf ordersTree) gaEvents)
        (gaExecution countryRequest) gaState job.payload.request := by
  obtain ⟨job, hjob⟩ := @enqueue_gaExecution countryRequest rfl
  refine ⟨job, hjob, wasValidated_of_enqueue .ideal (parserOf ordersTree) gaEvents _ job gaState rfl
    (fun _ => issued_gaEvents) pinsClass_gaEvents ?_ hjob⟩
  rw [HashesContent, if_neg (by decide)]
  intro statement hstatement
  cases hstatement

/-- A report on a hidden dimension, carrying the validated text as its `statement`. -/
def smuggledRequest : Request :=
  [(js "dialect", .str (js "api")), (js "statement", .str countryText),
    (js "operation", .str (js "runReport")),
    (js "body", .obj [(js "dimensions", .arr [.str (js "salary")])])]

/-- It is enqueued, and nothing like it was validated. -/
theorem not_wasValidated_smuggled :
    (GatewayState.run .ideal (parserOf ordersTree) gaEvents).Issued
        (gaExecution smuggledRequest).validationToken ∧
      ∃ job,
        executeRequest .ideal (GatewayState.run .ideal (parserOf ordersTree) gaEvents).table
          (gaExecution smuggledRequest) = .enqueue job ∧
        ¬WasValidated (GatewayState.run .ideal (parserOf ordersTree) gaEvents)
          (gaExecution smuggledRequest) gaState job.payload.request := by
  refine ⟨issued_gaEvents, ?_⟩
  obtain ⟨job, hjob⟩ := @enqueue_gaExecution smuggledRequest rfl
  obtain ⟨_, -, -, -, hrequest⟩ := executeRequest_enqueue hjob
  refine ⟨job, hjob, fun hvalidated => ?_⟩
  obtain ⟨v, issued, hrun, hcall, -⟩ := run_gaEvents
  obtain ⟨v', hv', -, -, -, -, hsame⟩ := hvalidated
  rw [hrun] at hv'
  obtain rfl := List.mem_singleton.mp hv'
  rw [hrequest, sameContent_cleanRequest, hcall, SameContent, if_neg (by decide)] at hsame
  obtain ⟨operation, -, -, hbody⟩ := hsame
  exact absurd (canonicalJson_eq_iff.mpr hbody) (by decide)

end Example

end ContextLayer
