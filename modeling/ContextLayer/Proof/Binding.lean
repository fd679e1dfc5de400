import ContextLayer.Execute
import ContextLayer.Proof.Valsql
import ContextLayer.Proof.Vtoken

/-!
# Whether validate and execute hash the same bytes

`validate_sql` picks what it hashes by the class of the system, `execute_sql` by which member of the
request is present. For a SQL pass the two agree. For an API pass they agree when the request has a
body and no `statement`: an absent or null body is hashed as an empty object by one and left out or
kept by the other, and a `statement` the API dialect never looked at is what the other hashes.
-/

namespace ContextLayer

open Text Sql

variable {P : Platform} {S : Sqlglot}

/-! ### The two canonical texts -/

theorem sha256Hex_canonicalJson_eq_iff {v w : Json} :
    P.sha256Hex (canonicalJson v) = P.sha256Hex (canonicalJson w) ↔ v.sorted = w.sorted := by
  rw [← canonicalJson_eq_iff]
  exact ⟨P.eq_of_sha256Hex_eq (isWellFormed_canonicalJson v) (isWellFormed_canonicalJson w),
    congrArg _⟩

theorem sorted_apiJson (operation : Text) (body : Json) :
    (apiJson operation body).sorted
      = .obj [(js "body", body.sorted), (js "operation", .str operation)] := rfl

theorem asString_eq_some_iff {value : Json} {s : Text} : value.asString = some s ↔ value = .str s := by
  cases value <;> simp [Json.asString]

theorem member_string_iff {request : Request} {key : String} {s : Text} :
    (member request key).bind Json.asString = some s ↔ member request key = some (.str s) := by
  simp [Option.bind_eq_some_iff, asString_eq_some_iff]

theorem sorted_eq_str_iff {value : Json} {s : Text} : value.sorted = .str s ↔ value = .str s := by
  cases value <;> simp [Json.sorted]

/-- What a request's `{ operation, body }` has to hold to be the validated content. -/
theorem sorted_requestJson_eq_iff {request : Request} {operation : Text} {body : Json} :
    (requestJson request).sorted = (apiJson operation body).sorted ↔
      member request "operation" = some (.str operation) ∧
        ∃ value, member request "body" = some value ∧ value.sorted = body.sorted := by
  rw [sorted_apiJson, requestJson]
  cases hoperation : member request "operation" with
  | none =>
      cases hbody : member request "body" with
      | none => simp [optionalMember, Json.sorted, sortedMembers, sortEntries]
      | some value => simp [optionalMember, Json.sorted, sortedMembers, sortEntries]
  | some op =>
      cases hbody : member request "body" with
      | none => simp [optionalMember, Json.sorted, sortedMembers, sortEntries]
      | some value =>
          have hsorted : (Json.obj [(js "operation", op), (js "body", value)]).sorted
              = .obj [(js "body", value.sorted), (js "operation", op.sorted)] := rfl
          simp only [optionalMember, Option.map_some, Option.toList_some, List.singleton_append,
            hsorted, Json.obj.injEq, List.cons.injEq, Prod.mk.injEq, true_and, and_true,
            sorted_eq_str_iff, Option.some.injEq, exists_eq_left']
          exact and_comm

theorem bodyOf_eq {request : Request} {body : Json} (h : member request "body" = some body)
    (hnull : body ≠ .null) : bodyOf request = body := by
  rw [bodyOf, h]
  cases body <;> first | rfl | exact absurd rfl hnull

theorem bodyOf_ne_null (request : Request) : bodyOf request ≠ .null := by
  rw [bodyOf]
  cases member request "body" with
  | none => simp [orElse]
  | some body => cases body <;> simp [orElse]

theorem sorted_eq_null_iff {value : Json} : value.sorted = .null ↔ value = .null := by
  cases value <;> simp [Json.sorted]

theorem operationOf_mem {request : Request} (h : operationOf request ≠ []) :
    member request "operation" = some (.str (operationOf request)) := by
  rw [← member_string_iff]
  simp only [operationOf] at h ⊢
  cases hop : (member request "operation").bind Json.asString with
  | none => simp [hop] at h
  | some operation => rfl

/-! ### One request, two hashes -/

/-- A request whose API content both sides hash alike: a body and no string `statement`, or a string
`statement` that is the canonical text itself. -/
def ApiHashAgrees (request : Request) : Prop :=
  match (member request "statement").bind Json.asString with
  | none => ∃ body, member request "body" = some body ∧ body ≠ .null
  | some statement =>
      utf8 statement = utf8 (canonicalJson (apiJson (operationOf request) (bodyOf request)))

theorem statementBinding_api_iff {request : Request} (hoperation : operationOf request ≠ []) :
    (statementBinding P request).sha256
        = P.sha256Hex (canonicalJson (apiJson (operationOf request) (bodyOf request))) ↔
      ApiHashAgrees request := by
  simp only [statementBinding, ApiHashAgrees]
  cases (member request "statement").bind Json.asString with
  | some statement => exact P.sha256Hex_eq_iff
  | none =>
      simp only [sha256Hex_canonicalJson_eq_iff, sorted_requestJson_eq_iff,
        operationOf_mem hoperation, true_and]
      constructor
      · rintro ⟨body, hbody, hsorted⟩
        refine ⟨body, hbody, fun hnull => ?_⟩
        rw [hnull] at hsorted
        exact bodyOf_ne_null request (sorted_eq_null_iff.mp hsorted.symm)
      · rintro ⟨body, hbody, hnull⟩
        exact ⟨body, hbody, by rw [bodyOf_eq hbody hnull]⟩

theorem statementBinding_sql {request : Request} {statement : Text}
    (h : (member request "statement").bind Json.asString = some statement) :
    (statementBinding P request).sha256 = P.sha256Hex statement := by
  rw [statementBinding, h]

/-! ### The token of an unchanged request -/

/-- A call of `execute_sql` with the request as it was validated, by the same subject, against the
same snapshot, with the same visibility and before expiry. -/
structure ExecutesUnchanged (call : ValidateCall) (state : SystemState) (issued : IssuedToken)
    (execution : ExecuteCall) (current : SystemState) : Prop where
  token : execution.validationToken = issued.token
  request : execution.request = call.request
  system : execution.system = call.system
  subject : execution.identity.subject = call.subject
  snapshot : current.snapshotRef = state.snapshotRef
  visibility : ∀ fqn, fqnVisible execution.ws execution.scopes fqn = fqnVisible call.ws call.scopes fqn
  unexpired : execution.now / 1000 < call.now / 1000 + call.ttlS

/-- Validate and execute agree on a passing request: on the hash, and so on the token. -/
def HashesAgree (P : Platform) (call : ValidateCall) (state : SystemState)
    (outcome : ValidateOutcome) (after : KeyTable) : Prop :=
  outcome.statementSha256 = some (statementBinding P call.request).sha256 ∧
    ∀ issued, outcome.validationToken = some issued → ∀ execution current,
      ExecutesUnchanged call state issued execution current →
        (verifyValidationToken P after execution.validationToken (execution.expected P current)
          execution.now).isOk = true

/-- The key that signs has a secret. -/
def SignsWithSecret (table : KeyTable) (fresh : SigningKey) : Prop :=
  ∀ key after, activeKey table fresh = some (key, after) → key.secret ≠ []

/-- Every table the statement names is, in the snapshot's own spelling, visible. -/
def CanonicalVisible (P : Platform) (S : Sqlglot) (call : ValidateCall) (state : SystemState) : Prop :=
  ∀ statement statements tree,
    (member call.request "statement").bind Json.asString = some statement →
    S.parse statement (sqlvalRequest call.ws call.system
      (visibleSurface P call.ws call.scopes state) statement).defaulted.engine = .parsed statements →
    statements.filterMap id = [tree] →
    ∀ t ∈ tree.tables, t.isSkipped P (cteNames P tree) = false →
      fqnVisible call.ws call.scopes ((visibleSurface P call.ws call.scopes state).canonical P
        ((sqlvalRequest call.ws call.system (visibleSurface P call.ws call.scopes state)
          statement).defaulted.fqn t)) = true

theorem ExecutesUnchanged.matches_iff {call : ValidateCall} {state current : SystemState}
    {issued : IssuedToken} {execution : ExecuteCall}
    (h : ExecutesUnchanged call state issued execution current) (sha : Text) (cited : List Text) :
    Matches ((call.binding state sha cited).payload call.ttlS call.now)
        (execution.expected P current) execution.now ↔
      sha = (statementBinding P call.request).sha256 ∧
        ∀ fqn ∈ cited, fqnVisible call.ws call.scopes fqn = true := by
  have hrequest : (statementBinding P execution.request).sha256
      = (statementBinding P call.request).sha256 := by rw [h.request]
  constructor
  · intro hmatches
    refine ⟨hmatches.statementSha256.trans hrequest, fun fqn hfqn => ?_⟩
    rw [← h.visibility]
    exact hmatches.visible fqn (mem_sortTexts.mpr hfqn)
  · rintro ⟨hsha, hvisible⟩
    exact
      { statementSha256 := hsha.trans hrequest.symm
        system := h.system.symm
        subject := h.subject.symm
        snapshotRef := h.snapshot.symm
        unexpired := h.unexpired
        visible := fun fqn hfqn =>
          (h.visibility fqn).trans (hvisible fqn (mem_sortTexts.mp hfqn)) }

/-- The call repeated at once is such an execution. -/
theorem exists_executesUnchanged (call : ValidateCall) (state : SystemState) (issued : IssuedToken)
    (httl : 0 < call.ttlS) : ∃ execution, ExecutesUnchanged call state issued execution state :=
  ⟨{ ws := call.ws, identity := ⟨call.subject, [], none⟩, profile := call.profile
     scopes := call.scopes, sessionId := none, auditId := [], intent := none
     system := call.system, request := call.request, validationToken := issued.token
     now := call.now, registration := none },
    ⟨rfl, rfl, rfl, rfl, rfl, fun _ => rfl, by simpa using httl⟩⟩

/-- What agreement comes down to once the pass is inverted. -/
theorem hashesAgree_iff_of_content {table after : KeyTable} {call : ValidateCall}
    {state : SystemState} {outcome : ValidateOutcome} {sha : Text} (httl : 0 < call.ttlS)
    (hsha : outcome.statementSha256 = some sha)
    (htoken : (call.issueToken = false ∧ outcome.validationToken = none) ∨
      (call.issueToken = true ∧ ∃ issued, outcome.validationToken = some issued ∧
        issueValidationToken P table call.fresh (call.binding state sha outcome.citedObjects)
          call.ttlS call.now = some (issued, after))) :
    HashesAgree P call state outcome after ↔
      sha = (statementBinding P call.request).sha256 ∧
        (call.issueToken = true → SignsWithSecret table call.fresh ∧
          ∀ fqn ∈ outcome.citedObjects, fqnVisible call.ws call.scopes fqn = true) := by
  rw [HashesAgree, hsha, Option.some.injEq]
  refine and_congr_right fun hagree => ?_
  rcases htoken with ⟨hissue, hnone⟩ | ⟨hissue, issued, hissued, hcall⟩
  · simp [hissue, hnone]
  · obtain ⟨key, hactive, htok, -, hkey⟩ := issueValidationToken_spec hcall
    have hverify : ∀ {execution current}, ExecutesUnchanged call state issued execution current →
        ((verifyValidationToken P after execution.validationToken (execution.expected P current)
            execution.now).isOk = true ↔
          key.secret ≠ [] ∧ ∀ fqn ∈ outcome.citedObjects,
            fqnVisible call.ws call.scopes fqn = true) := by
      intro execution current hexecution
      rw [hexecution.token, htok, verify_makeToken hkey, hexecution.matches_iff, and_iff_right hagree]
    have hsecret : SignsWithSecret table call.fresh ↔ key.secret ≠ [] := by
      simp [SignsWithSecret, hactive]
    simp only [hissued, Option.some.injEq, forall_eq', hissue, forall_const, hsecret]
    constructor
    · intro hall
      obtain ⟨execution, hexecution⟩ := exists_executesUnchanged call state issued httl
      exact (hverify hexecution).mp (hall execution state hexecution)
    · exact fun h execution current hexecution => (hverify hexecution).mpr h

/-- The citations of a SQL pass are visible exactly when the canonical spellings are. -/
theorem canonicalVisible_iff {call : ValidateCall} {state : SystemState} {statement : Text}
    {verdict : Verdict} {tree : Tree}
    (hstatement : (member call.request "statement").bind Json.asString = some statement)
    (hpassed : Passed P S (sqlvalRequest call.ws call.system
      (visibleSurface P call.ws call.scopes state) statement) verdict tree) :
    (∀ fqn ∈ (verdict.referencedObjects.getD []).map
        ((visibleSurface P call.ws call.scopes state).canonical P),
        fqnVisible call.ws call.scopes fqn = true) ↔ CanonicalVisible P S call state := by
  simp only [List.forall_mem_map, hpassed.mem_referenced]
  constructor
  · intro h statement' statements tree' hstatement' hparse hsingle t ht hskip
    obtain rfl := Option.some.inj (hstatement.symm.trans hstatement')
    obtain rfl := hpassed.tree_eq hparse hsingle
    exact h _ ⟨t, ht, hskip, rfl⟩
  · rintro h _ ⟨t, ht, hskip, rfl⟩
    obtain ⟨statements, hparse, hsingle⟩ := hpassed.parsed
    exact h statement statements tree hstatement hparse hsingle t ht hskip

/-- **When validate and execute agree on a passing request.** -/
theorem hashesAgree_iff {table after : KeyTable} {call : ValidateCall} {state : SystemState}
    {outcome : ValidateOutcome} (httl : 0 < call.ttlS)
    (hstate : Dict.get? call.ws.systems call.system = some state)
    (hverdict : validateRequest P S table call = .ok (outcome, after))
    (hpass : outcome.verdict = .pass) :
    HashesAgree P call state outcome after ↔
      (expectedDialect state ≠ js "sql" → ApiHashAgrees call.request) ∧
        (call.issueToken = true → SignsWithSecret table call.fresh ∧
          (expectedDialect state = js "sql" → CanonicalVisible P S call state)) := by
  obtain ⟨sha, hsha, hcontent, htoken⟩ := validateRequest_pass hstate hverdict hpass
  rw [hashesAgree_iff_of_content httl hsha htoken]
  cases hcontent with
  | sql statement verdict tree hclass hstatement hpassed hhash hcited =>
      have hagree : sha = (statementBinding P call.request).sha256 := by
        rw [hhash, statementBinding_sql hstatement]
      rw [hcited, canonicalVisible_iff hstatement hpassed]
      simp [hagree, hclass]
  | api hclass hoperation hhash hcited =>
      rw [hhash, eq_comm, statementBinding_api_iff hoperation]
      simp only [hclass, ne_eq, not_false_eq_true, forall_const, IsEmpty.forall_iff, and_true]
      exact and_congr_right fun _ =>
        ⟨fun h hissue => (h hissue).1, fun h hissue => ⟨h hissue, hcited⟩⟩

section Example

/-- A call of `validate_sql` on the example surface, with no signing key yet. -/
def gaCall (request : Request) : ValidateCall where
  ws := gaWs
  subject := js "ana"
  profile := ⟨js "analyst", none, none⟩
  scopes := [eventScope]
  system := js "ga"
  request := request
  issueToken := true
  ttlS := 300
  now := 1000000
  fresh := analystKey

theorem signsWithSecret_analyst : SignsWithSecret .empty analystKey := by
  intro key after h
  have hkey : some analystKey = some key := congrArg (Option.map Prod.fst) h
  obtain rfl := Option.some.inj hkey
  decide

theorem hashesAgree_country : ∃ outcome after,
    validateRequest .ideal (parserOf ordersTree) .empty (gaCall countryRequest)
        = .ok (outcome, after) ∧
      HashesAgree .ideal (gaCall countryRequest) gaState outcome after := by
  refine ⟨_, _, rfl, (hashesAgree_iff (P := .ideal) (S := parserOf ordersTree) (by decide) rfl rfl
    rfl).mpr ⟨fun _ => ⟨_, rfl, by simp⟩, fun _ => ⟨signsWithSecret_analyst, fun hclass => ?_⟩⟩⟩
  exact absurd hclass (by decide)

/-- A report without a body: validated as one with an empty body. -/
def bodilessRequest : Request :=
  [(js "dialect", .str (js "api")), (js "operation", .str (js "runReport"))]

theorem not_hashesAgree_bodiless : ∃ outcome after,
    validateRequest .ideal (parserOf ordersTree) .empty (gaCall bodilessRequest)
        = .ok (outcome, after) ∧
      outcome.verdict = .pass ∧
      ¬HashesAgree .ideal (gaCall bodilessRequest) gaState outcome after := by
  refine ⟨_, _, rfl, rfl, fun h => ?_⟩
  have hagree : ApiHashAgrees bodilessRequest :=
    (statementBinding_api_iff (P := .ideal) (by decide)).mp (Option.some.inj h.1).symm
  obtain ⟨body, hbody, -⟩ := hagree
  cases hbody

end Example

end ContextLayer
