import ContextLayer.Proof.ApiSurface
import ContextLayer.Proof.Sqlval

/-!
# What a pass of `validate_sql` means

A pass inverted, once for both dialects: which text was hashed, what was cited, and which token came
with it.
-/

namespace ContextLayer

open Text Sql DataApi

variable {P : Platform} {S : Sqlglot}

/-- The content a pass vouches for, by dialect: its hash and its citations. -/
inductive ContentPass (P : Platform) (S : Sqlglot) (call : ValidateCall) (state : SystemState)
    (sha : Text) (cited : List Text) : Prop where
  | sql (statement : Text) (verdict : Verdict) (tree : Tree)
      (hclass : expectedDialect state = js "sql")
      (hstatement : (member call.request "statement").bind Json.asString = some statement)
      (hpassed : Passed P S (sqlvalRequest call.ws call.system
        (visibleSurface P call.ws call.scopes state) statement) verdict tree)
      (hsha : sha = P.sha256Hex statement)
      (hcited : cited = (verdict.referencedObjects.getD []).map
        ((visibleSurface P call.ws call.scopes state).canonical P))
  | api (hclass : expectedDialect state ≠ js "sql")
      (hoperation : operationOf call.request ≠ [])
      (hsha : sha = P.sha256Hex
        (canonicalJson (apiJson (operationOf call.request) (bodyOf call.request))))
      (hcited : ∀ fqn ∈ cited, fqnVisible call.ws call.scopes fqn = true)

theorem ContentPass.sha_ne_nil {call : ValidateCall} {state : SystemState} {sha : Text}
    {cited : List Text} (h : ContentPass P S call state sha cited) : sha ≠ [] := by
  cases h with
  | sql statement verdict tree hclass hstatement hpassed hsha hcited =>
      exact hsha ▸ P.sha256Hex_ne_nil _
  | api hclass hoperation hsha hcited => exact hsha ▸ P.sha256Hex_ne_nil _

theorem validateSqlDialect_pass {ws : KbState} {system : Text} {surface : VisibleSurface}
    {request : Request} {base outcome : ValidateOutcome} (hbase : base.verdict = .fail)
    (h : validateSqlDialect P S ws system surface request base = .ok outcome)
    (hpass : outcome.verdict = .pass) :
    ∃ statement verdict tree, (member request "statement").bind Json.asString = some statement ∧
      Passed P S (sqlvalRequest ws system surface statement) verdict tree ∧
      outcome.statementSha256 = some (P.sha256Hex statement) ∧
      outcome.citedObjects = (verdict.referencedObjects.getD []).map (surface.canonical P) ∧
      outcome.validationToken = base.validationToken := by
  simp only [validateSqlDialect] at h
  split at h
  · rw [← Except.ok.inj h] at hpass
    simp [hbase] at hpass
  case h_2 statement hstatement =>
    split at h
    · rw [← Except.ok.inj h] at hpass
      simp [hbase] at hpass
    · split at h
      · cases h
      case h_2 verdict hverdict =>
        obtain rfl := Except.ok.inj h
        cases hkind : verdict.verdict with
        | fail => simp [outcomeOfVerdict, hkind] at hpass
        | pass =>
            obtain ⟨tree, hpassed⟩ := validateStatement_pass hverdict hkind
            have hsha : verdict.statementSha256 = some (P.sha256Hex statement) := hpassed.sha256
            refine ⟨statement, verdict, tree, hstatement, hpassed, ?_, ?_, ?_⟩ <;>
              simp [outcomeOfVerdict, hkind, hsha]

theorem resolveRequest_pass {call : ValidateCall} {state : SystemState} {outcome : ValidateOutcome}
    (hstate : Dict.get? call.ws.systems call.system = some state)
    (h : resolveRequest P S call = .ok outcome) (hpass : outcome.verdict = .pass) :
    outcome.validationToken = none ∧ ∃ sha, outcome.statementSha256 = some sha ∧
      ContentPass P S call state sha outcome.citedObjects := by
  simp only [resolveRequest, hstate] at h
  split at h
  · rw [← Except.ok.inj h] at hpass
    cases hpass
  · split at h
    case isTrue hclass =>
      obtain ⟨statement, verdict, tree, hstatement, hpassed, hsha, hcited, htoken⟩ :=
        validateSqlDialect_pass rfl h hpass
      exact ⟨htoken, _, hsha, .sql statement verdict tree hclass hstatement hpassed rfl hcited⟩
    case isFalse hclass =>
      obtain rfl := Except.ok.inj h
      obtain ⟨hsha, hoperation, -, hcited⟩ := validateApiDialect_pass hpass
      refine ⟨?_, _, hsha, .api hclass hoperation rfl ?_⟩
      · simp only [validateApiDialect]
        split <;> rfl
      · intro fqn hfqn
        obtain ⟨f, -, hresolves⟩ := (hcited fqn).mp hfqn
        obtain ⟨obj, hobj, -, rfl⟩ := mem_of_get?_byKindName hresolves
        exact (List.mem_filter.mp hobj).2

/-- **A pass, inverted.** -/
theorem validateRequest_pass {table after : KeyTable} {call : ValidateCall} {state : SystemState}
    {outcome : ValidateOutcome} (hstate : Dict.get? call.ws.systems call.system = some state)
    (h : validateRequest P S table call = .ok (outcome, after)) (hpass : outcome.verdict = .pass) :
    ∃ sha, outcome.statementSha256 = some sha ∧
      ContentPass P S call state sha outcome.citedObjects ∧
      ((call.issueToken = false ∧ outcome.validationToken = none) ∨
        (call.issueToken = true ∧ ∃ issued, outcome.validationToken = some issued ∧
          issueValidationToken P table call.fresh (call.binding state sha outcome.citedObjects)
            call.ttlS call.now = some (issued, after))) := by
  simp only [validateRequest] at h
  split at h
  · cases h
  case h_2 resolved hresolve =>
    have hkind : resolved.verdict = .pass := by
      split at h
      case h_1 hverdict _ _ => exact hverdict
      case h_2 => rw [← (Prod.mk.inj (Except.ok.inj h)).1] at hpass; exact hpass
    obtain ⟨hnone, sha, hsha, hcontent⟩ := resolveRequest_pass hstate hresolve hkind
    have hfilter : resolved.statementSha256.filter (· ≠ []) = some sha := by
      simp [hsha, Option.filter, hcontent.sha_ne_nil]
    cases hissue : call.issueToken with
    | false =>
        simp only [hissue] at h
        obtain ⟨rfl, -⟩ := Prod.mk.inj (Except.ok.inj h)
        exact ⟨sha, hsha, hcontent, Or.inl ⟨rfl, hnone⟩⟩
    | true =>
        simp only [hissue, hkind, hfilter, hstate] at h
        split at h
        case h_1 issued after' hissued =>
          obtain ⟨rfl, rfl⟩ := Prod.mk.inj (Except.ok.inj h)
          exact ⟨sha, hsha, hcontent, Or.inr ⟨rfl, issued, rfl, hissued⟩⟩
        · cases h

end ContextLayer
