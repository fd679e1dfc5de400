import ContextLayer.DataApi
import ContextLayer.Proof.Platform

/-!
# What a passing API request reads

The validator resolves the entries of `dimensions` and `metrics`, up to case, and looks nowhere else
in the body. On a pass every entry has resolved to a visible object and the citations are exactly
these, so a body is covered when its entries are spelled as the objects they resolve to and it names
no field that is not an entry.
-/

namespace ContextLayer

open Text Sql DataApi

variable {P : Platform}

/-! ### The loop over the names -/

theorem SnapshotObject.fqn_ne_nil (obj : SnapshotObject) : obj.fqn ≠ [] := by
  have hdot : js "." ≠ [] := by decide
  simp [SnapshotObject.fqn, hdot]

theorem mem_of_get?_byKindName {objects : List SnapshotObject} {key fqn : Text}
    (h : Dict.get? (byKindName P objects) key = some fqn) :
    ∃ obj ∈ objects, kindName P obj.kind obj.name = key ∧ obj.fqn = fqn := by
  obtain ⟨obj, hobj, heq⟩ := List.mem_map.mp (Dict.mem_of_get?_ofList h)
  exact ⟨obj, hobj, congrArg Prod.fst heq, congrArg Prod.snd heq⟩

/-- The visible object a field resolves to. -/
def resolvesTo (P : Platform) (surface : VisibleSurface) (f : Field) : Option Text :=
  Dict.get? (byKindName P surface.objects) (kindName P f.kind.objectKind f.name)

theorem resolvesTo_filter (surface : VisibleSurface) (f : Field) :
    (resolvesTo P surface f).filter (· ≠ []) = resolvesTo P surface f := by
  cases h : resolvesTo P surface f with
  | none => rfl
  | some fqn =>
      obtain ⟨obj, -, -, rfl⟩ := mem_of_get?_byKindName h
      simp [Option.filter, obj.fqn_ne_nil]

/-- One round of the loop, for a field of either kind. -/
def resolveField (P : Platform) (system : Text) (surface : VisibleSurface) (acc : ApiState)
    (f : Field) : ApiState :=
  resolveName P system surface f.kind.text acc f.name

theorem resolveField_cases (system : Text) (surface : VisibleSurface) (acc : ApiState) (f : Field) :
    (∃ fqn, resolvesTo P surface f = some fqn ∧
        resolveField P system surface acc f = { acc with cited := acc.cited ++ [fqn] }) ∨
      (resolveField P system surface acc f).findings ≠ [] := by
  have hlookup := resolvesTo_filter (P := P) surface f
  simp only [resolvesTo, FieldKind.objectKind] at hlookup
  simp only [resolveField, resolveName, resolvesTo, FieldKind.objectKind, hlookup]
  cases h : Dict.get? (byKindName P surface.objects) (kindName P (js "api_" ++ f.kind.text) f.name) with
  | none => exact Or.inr (by simp)
  | some fqn => exact Or.inl ⟨fqn, rfl, rfl⟩

/-- The loop over fields of either kind. -/
def resolveFields (P : Platform) (system : Text) (surface : VisibleSurface) (acc : ApiState)
    (fields : List Field) : ApiState :=
  fields.foldl (resolveField P system surface) acc

theorem resolveBody_eq (system : Text) (surface : VisibleSurface) (findings : List Finding)
    (body : Json) :
    resolveBody P system surface findings body
      = resolveFields P system surface ⟨findings, [], []⟩ (entries body) := by
  simp only [resolveBody, resolveFields, entries, List.foldl_append, List.foldl_map]
  rfl

theorem resolveFields_findings_ne_nil {system : Text} {surface : VisibleSurface}
    {fields : List Field} {acc : ApiState} (h : acc.findings ≠ []) :
    (resolveFields P system surface acc fields).findings ≠ [] := by
  induction fields generalizing acc with
  | nil => exact h
  | cons f fields ih =>
      refine ih ?_
      rcases resolveField_cases (P := P) system surface acc f with ⟨fqn, -, heq⟩ | hne
      · rwa [heq]
      · exact hne

/-- What the loop leaves when it finds nothing to refuse. -/
theorem resolveFields_pass {system : Text} {surface : VisibleSurface} {fields : List Field}
    {acc : ApiState} (h : (resolveFields P system surface acc fields).findings = []) :
    (∀ f ∈ fields, (resolvesTo P surface f).isSome = true) ∧
      ∀ fqn, fqn ∈ (resolveFields P system surface acc fields).cited ↔
        fqn ∈ acc.cited ∨ ∃ f ∈ fields, resolvesTo P surface f = some fqn := by
  induction fields generalizing acc with
  | nil => exact ⟨by simp, by simp [resolveFields]⟩
  | cons f fields ih =>
      obtain ⟨hsome, hcited⟩ := ih h
      rcases resolveField_cases (P := P) system surface acc f with ⟨found, hfound, heq⟩ | hne
      · refine ⟨fun g hg => ?_, fun fqn => ?_⟩
        · rcases List.mem_cons.mp hg with rfl | hg
          · simp [hfound]
          · exact hsome g hg
        · rw [resolveFields, List.foldl_cons, ← resolveFields, hcited, heq]
          have hself : fqn = found ↔ resolvesTo P surface f = some fqn := by
            rw [hfound, Option.some.injEq, eq_comm]
          simp only [List.mem_append, List.mem_cons, List.not_mem_nil, false_or, exists_eq_or_imp,
            hself, or_assoc]
      · rw [resolveFields, List.foldl_cons, ← resolveFields] at h
        exact absurd h (resolveFields_findings_ne_nil hne)

/-! ### A pass, inverted -/

theorem validateApiDialect_pass {ws : KbState} {system : Text} {surface : VisibleSurface}
    {request : Request} {base : ValidateOutcome}
    (hpass : (validateApiDialect P ws system surface request base).verdict = .pass) :
    (validateApiDialect P ws system surface request base).statementSha256
        = some (P.sha256Hex (canonicalJson (apiJson (operationOf request) (bodyOf request)))) ∧
      operationOf request ≠ [] ∧
      (∀ f ∈ entries (bodyOf request), (resolvesTo P surface f).isSome = true) ∧
      ∀ fqn, fqn ∈ (validateApiDialect P ws system surface request base).citedObjects ↔
        ∃ f ∈ entries (bodyOf request), resolvesTo P surface f = some fqn := by
  simp only [validateApiDialect] at hpass ⊢
  split at hpass
  case isTrue => cases hpass
  case isFalse hnone =>
    have hfindings : (resolveFields P system surface
        ⟨operationFindings P system (ws.conventions system) (operationOf request), [], []⟩
        (entries (bodyOf request))).findings = [] := by
      rw [← resolveBody_eq]
      simpa using hnone
    rw [if_neg hnone, resolveBody_eq]
    obtain ⟨hsome, hcited⟩ := resolveFields_pass hfindings
    refine ⟨rfl, fun hop => ?_, hsome, fun fqn => by simpa using hcited fqn⟩
    refine resolveFields_findings_ne_nil ?_ hfindings
    simp [operationFindings, hop]

/-! ### Coverage -/

/-- Every name the Data API reads is a visible object's, and the object is cited. -/
def BodyCovered (surface : VisibleSurface) (body : Json) (citedObjects : List Text) : Prop :=
  ∀ f ∈ readNames body, ∃ obj ∈ surface.objects,
    obj.kind = f.kind.objectKind ∧ obj.name = f.name ∧ obj.fqn ∈ citedObjects

/-- An entry is spelled as the visible object of its kind that it resolves to. -/
def SpelledAsResolved (P : Platform) (surface : VisibleSurface) (f : Field) : Prop :=
  ∃ obj ∈ surface.objects, obj.kind = f.kind.objectKind ∧ obj.name = f.name ∧
    resolvesTo P surface f = some obj.fqn

theorem objectKind_injective {k k' : FieldKind} (h : k.objectKind = k'.objectKind) : k = k' := by
  cases k <;> cases k' <;> first | rfl | exact absurd h (by decide)

/-- A cited object that a field names is the object that field resolves to. -/
theorem resolvesTo_of_fqn_eq {objects : List SnapshotObject} {surface : VisibleSurface}
    (hsurface : surface.objects ⊆ objects) (hkeyed : (objects.map (·.fqn)).Nodup)
    {obj : SnapshotObject} {f g : Field} (hobj : obj ∈ surface.objects)
    (hkind : obj.kind = f.kind.objectKind) (hname : obj.name = f.name)
    (hg : resolvesTo P surface g = some obj.fqn) : resolvesTo P surface f = some obj.fqn := by
  obtain ⟨found, hfound, hkey, hfqn⟩ := mem_of_get?_byKindName hg
  obtain rfl : found = obj :=
    List.inj_on_of_nodup_map hkeyed (hsurface hfound) (hsurface hobj) hfqn
  rw [hkind, hname] at hkey
  rw [← hg, resolvesTo, resolvesTo, hkey]

section Example

def country : SnapshotObject := ⟨js "ga", js "event", js "country", js "api_dimension", []⟩

def salary : SnapshotObject := ⟨js "ga", js "event", js "salary", js "api_dimension", []⟩

def gaState : SystemState := ⟨js "api", js "9a", [country, salary], by decide⟩

/-- `salary` is documented outside the directory the caller may see. -/
def gaWs : KbState where
  machineByFqn := [(country.fqn, js "systems/ga/event/country.md"),
    (salary.fqn, js "systems/ga/restricted/salary.md")]
  systems := [(js "ga", gaState)]
  guardrails := []

def eventScope : Scope := ⟨js "systems/ga/event/*", _, rfl⟩

def countryEntry : Text × Json := (js "dimensions", .arr [.obj [(js "name", .str (js "country"))]])

def countryRequest : Request :=
  [(js "dialect", .str (js "api")), (js "operation", .str (js "runReport")),
    (js "body", .obj [countryEntry])]

/-- The same report, filtered by a hidden dimension. -/
def filteredRequest : Request :=
  [(js "dialect", .str (js "api")), (js "operation", .str (js "runReport")),
    (js "body", .obj [countryEntry, (js "dimensionFilter",
      .obj [(js "filter", .obj [(js "fieldName", .str (js "salary"))])])])]

end Example

end ContextLayer
