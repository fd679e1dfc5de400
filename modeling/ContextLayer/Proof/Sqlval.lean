import ContextLayer.Proof.Platform
import ContextLayer.Sql.Scope
import ContextLayer.Sql.Validate

/-!
# What a passing statement reads

The validator takes an unqualified name for a CTE when any CTE of the statement has that name, up to
case, and compares names up to case; the engine scopes CTEs and folds only unquoted names. On a pass
every reference the validator did not take for a CTE is resolved and cited, so the statement is
covered exactly when each stored reference shares its FQN with one of those, and is spelled as one
of the listed objects.
-/

namespace ContextLayer.Sql

open Text

variable {P : Platform} {S : Sqlglot}

/-! ### The loop over the tables -/

section Resolve

variable {request : ValidateRequest} {ctes : List Text}

/-- The key of a reference is among the listed objects'. -/
def IsKnown (P : Platform) (request : ValidateRequest) (t : TableRef) : Prop :=
  ((Dict.get? (byKey P request.objects)
    (P.lower (t.schemaName request.defaultSchema), P.lower t.name.name)).isSome : Prop)

theorem resolveTable_cases (acc : List Finding × List Text) (t : TableRef) :
    (t.isSkipped P ctes = true ∧ resolveTable P request ctes acc t = acc) ∨
      (t.isSkipped P ctes = false ∧ IsKnown P request t ∧
        (resolveTable P request ctes acc t).1 = acc.1 ∧
        ∀ fqn, fqn ∈ (resolveTable P request ctes acc t).2 ↔ fqn ∈ acc.2 ∨ request.fqn t = fqn) ∨
      (resolveTable P request ctes acc t).1 ≠ [] := by
  simp only [resolveTable, IsKnown]
  split
  case isTrue hskip => exact Or.inl ⟨hskip, rfl⟩
  case isFalse hskip =>
    have hskip' : t.isSkipped P ctes = false := by simpa using hskip
    refine Or.inr ?_
    split
    case isTrue => exact Or.inr (by simp)
    case isFalse hknown =>
      have hsome : ((Dict.get? (byKey P request.objects)
          (P.lower (t.schemaName request.defaultSchema), P.lower t.name.name)).isSome : Prop) := by
        simpa [Option.isNone_iff_eq_none, Option.isSome_iff_ne_none] using hknown
      refine Or.inl ⟨hskip', hsome, ?_⟩
      split
      case isTrue hmem => exact ⟨rfl, fun fqn => ⟨Or.inl, fun h => h.elim id (· ▸ hmem)⟩⟩
      case isFalse => exact ⟨rfl, fun fqn => by simp [eq_comm]⟩

theorem findings_ne_nil {ts : List TableRef} {acc : List Finding × List Text} (h : acc.1 ≠ []) :
    (ts.foldl (resolveTable P request ctes) acc).1 ≠ [] := by
  induction ts generalizing acc with
  | nil => exact h
  | cons t ts ih =>
      refine ih ?_
      rcases @resolveTable_cases P request ctes acc t with
        ⟨-, heq⟩ | ⟨-, -, heq, -⟩ | hne
      · rwa [heq]
      · rwa [heq]
      · exact hne

/-- What the loop leaves when it finds nothing to refuse. -/
theorem resolve_loop {ts : List TableRef} {acc : List Finding × List Text}
    (h : (ts.foldl (resolveTable P request ctes) acc).1 = []) :
    (∀ t ∈ ts, t.isSkipped P ctes = false → IsKnown P request t) ∧
      ∀ fqn, fqn ∈ (ts.foldl (resolveTable P request ctes) acc).2 ↔
        fqn ∈ acc.2 ∨ ∃ t ∈ ts, t.isSkipped P ctes = false ∧ request.fqn t = fqn := by
  induction ts generalizing acc with
  | nil => exact ⟨by simp, by simp⟩
  | cons t ts ih =>
      obtain ⟨hknown, hcited⟩ := ih h
      rcases @resolveTable_cases P request ctes acc t with
        ⟨hskip, heq⟩ | ⟨hskip, hfirst, -, hmem⟩ | hne
      · refine ⟨fun u hu hu' => ?_, fun fqn => ?_⟩
        · rcases List.mem_cons.mp hu with rfl | hu
          · simp [hskip] at hu'
          · exact hknown u hu hu'
        · rw [List.foldl_cons, hcited, heq]
          simp [hskip]
      · refine ⟨fun u hu hu' => ?_, fun fqn => ?_⟩
        · rcases List.mem_cons.mp hu with rfl | hu
          · exact hfirst
          · exact hknown u hu hu'
        · rw [List.foldl_cons, hcited, hmem]
          simp only [List.mem_cons, exists_eq_or_imp, hskip, true_and, or_assoc]
      · rw [List.foldl_cons] at h
        exact absurd h (findings_ne_nil hne)

end Resolve

/-! ### A pass, inverted -/

/-- The loop over the tables of a request's tree. -/
def resolved (P : Platform) (request : ValidateRequest) (tree : Tree) : List Finding × List Text :=
  tree.tables.foldl (resolveTable P request (cteNames P tree)) ([], [])

/-- What a pass says about the request and the one tree it parsed to. -/
structure Passed (P : Platform) (S : Sqlglot) (request : ValidateRequest) (verdict : Verdict)
    (tree : Tree) : Prop where
  parsed : ∃ statements, S.parse request.statement request.defaulted.engine = .parsed statements ∧
    statements.filterMap id = [tree]
  isQuery : rootFindings tree = []
  noWrite : writeFindings tree = []
  noLock : lockFindings tree = []
  noFindings : (resolved P request.defaulted tree).1 = []
  wellFormed : isWellFormed request.statement = true
  sha256 : verdict.statementSha256 = some (P.sha256Hex request.statement)
  referenced : verdict.referencedObjects = some (resolved P request.defaulted tree).2

theorem resolveTree_pass {request : ValidateRequest} {tree : Tree} {verdict : Verdict}
    (h : resolveTree P S request tree = .ok verdict) (hpass : verdict.verdict = .pass) :
    (resolved P request tree).1 = [] ∧ isWellFormed request.statement = true ∧
      verdict.statementSha256 = some (P.sha256Hex request.statement) ∧
      verdict.referencedObjects = some (resolved P request tree).2 := by
  simp only [resolveTree] at h
  split at h
  case isTrue => simp [← Except.ok.inj h, failing] at hpass
  case isFalse hnone =>
    split at h
    · cases h
    · simp [← Except.ok.inj h, failing] at hpass
    · simp only [passing] at h
      split at h
      case isTrue hwell =>
        obtain rfl := Except.ok.inj h
        exact ⟨by simpa [resolved] using hnone, hwell, rfl, rfl⟩
      case isFalse => cases h

theorem checkStatementClass_some {statement engine : Text} {denied : List Json} {tree : Tree}
    {findings : List Finding}
    (h : checkStatementClass P S statement engine denied = .ok (some tree, findings)) :
    (∃ statements, S.parse statement engine = .parsed statements ∧
      statements.filterMap id = [tree]) ∧
      ∃ called, findings = rootFindings tree ++ writeFindings tree ++ lockFindings tree ++ called := by
  simp only [checkStatementClass] at h
  split at h
  · cases h
  · simp at h
  case h_3 statements hparse =>
    split at h
    case h_1 tree' hsingle =>
      simp only [Except.ok.injEq, Prod.mk.injEq, Option.some.injEq] at h
      obtain ⟨rfl, rfl⟩ := h
      exact ⟨⟨statements, hparse, hsingle⟩, _, rfl⟩
    · simp at h

theorem validateStatement_pass {request : ValidateRequest} {verdict : Verdict}
    (h : validateStatement P S request = .ok verdict) (hpass : verdict.verdict = .pass) :
    ∃ tree, Passed P S request verdict tree := by
  simp only [validateStatement] at h
  split at h
  · simp [← Except.ok.inj h, failing] at hpass
  simp only [validateDefaulted] at h
  split at h
  · cases h
  · simp [← Except.ok.inj h, failing] at hpass
  case h_3 tree findings hclass =>
    obtain ⟨hparsed, called, hfindings⟩ := checkStatementClass_some hclass
    split at h
    · simp [← Except.ok.inj h, failing] at hpass
    case isFalse hnone =>
      have hnil : findings = [] := by simpa using hnone
      rw [hnil] at hfindings
      simp only [List.nil_eq, List.append_eq_nil_iff] at hfindings
      obtain ⟨⟨⟨hroot, hwrite⟩, hlock⟩, -⟩ := hfindings
      obtain ⟨hloop, hwell, hsha, href⟩ := resolveTree_pass h hpass
      exact ⟨tree, hparsed, hroot, hwrite, hlock, hloop, hwell, hsha, href⟩

/-- The tree of a pass is the one the parser returned. -/
theorem Passed.tree_eq {request : ValidateRequest} {verdict : Verdict} {tree tree' : Tree}
    (h : Passed P S request verdict tree) {statements : List (Option Tree)}
    (hparse : S.parse request.statement request.defaulted.engine = .parsed statements)
    (hsingle : statements.filterMap id = [tree']) : tree = tree' := by
  obtain ⟨others, hothers, htree⟩ := h.parsed
  rw [hparse] at hothers
  obtain rfl := ParseOutcome.parsed.inj hothers
  rw [hsingle] at htree
  exact (List.singleton_inj.mp htree).symm

/-- **What a pass cites.** Every reference that is not taken for a CTE is known, and `referenced` is
their FQNs. -/
theorem Passed.mem_referenced {request : ValidateRequest} {verdict : Verdict} {tree : Tree}
    (h : Passed P S request verdict tree) (fqn : Text) :
    fqn ∈ verdict.referencedObjects.getD [] ↔
      ∃ t ∈ tree.tables, t.isSkipped P (cteNames P tree) = false ∧ request.defaulted.fqn t = fqn := by
  rw [h.referenced, Option.getD_some, resolved, (resolve_loop h.noFindings).2]
  simp

/-! ### Coverage -/

/-- A listed object spelled as the engine resolves the reference. -/
def IsListed (request : ValidateRequest) (t : TableRef) : Prop :=
  ∃ obj ∈ request.objects, ⟨obj.schema, obj.name⟩ = t.resolve request.defaulted.defaultSchema

/-- Every stored table the engine reads is a listed object, and is cited. -/
def Covered (request : ValidateRequest) (tree : Tree) (verdict : Verdict) : Prop :=
  ∀ t ∈ tree.stored [], IsListed request t ∧
    request.defaulted.fqn t ∈ verdict.referencedObjects.getD []

/-- Some reference with the same FQN is schema-qualified, or has a name that is no CTE's anywhere in
the statement, up to case. -/
def HasCitedTwin (P : Platform) (request : ValidateRequest) (tree : Tree) (t : TableRef) : Prop :=
  ∃ t' ∈ tree.tables, t'.isSkipped P (cteNames P tree) = false ∧
    request.defaulted.fqn t' = request.defaulted.fqn t

section Example

/-- A parser that knows one statement, whose columns all resolve. -/
def parserOf (tree : Tree) : Sqlglot where
  parse _ _ := .parsed [some tree]
  qualify _ _ _ _ := .qualified

def plain (name : String) : Label := .table ⟨none, ⟨js name, false⟩⟩

def requestFor (statement : String) : ValidateRequest where
  statement := js statement
  engine := js "postgres"
  system := js "shop"
  defaultSchema := js "public"
  objects := [⟨js "public", js "orders", js "table", [js "id"]⟩]
  deniedFunctions := []

def ordersTree : Tree := .node .select [.node (.other (js "From")) [.node (plain "orders") []]]

def ordersRequest : ValidateRequest := requestFor "SELECT id FROM orders"

/-- `WITH secret AS (SELECT x FROM secret) SELECT x FROM secret`: the inner `secret` is a table. -/
def shadowTree : Tree :=
  .node .select
    [.node (.other (js "From")) [.node (plain "secret") []],
      .node (.withClause false)
        [.node (.cte ⟨js "secret", false⟩)
          [.node .select [.node (.other (js "From")) [.node (plain "secret") []]]]]]

def shadowRequest : ValidateRequest :=
  requestFor "WITH secret AS (SELECT x FROM secret) SELECT x FROM secret"

/-- `SELECT id FROM "Orders"`: not the listed `orders`. -/
def quotedTree : Tree :=
  .node .select [.node (.other (js "From")) [.node (.table ⟨none, ⟨js "Orders", true⟩⟩) []]]

def quotedRequest : ValidateRequest := requestFor "SELECT id FROM \"Orders\""

end Example

end ContextLayer.Sql
