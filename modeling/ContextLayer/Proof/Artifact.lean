import ContextLayer.Artifact

/-!
# What an accepted artifact has
-/

namespace ContextLayer

open Text

theorem problemUnless_eq_nil {ok : Bool} {problem : Text} : problemUnless ok problem = [] ↔ ok = true := by
  cases ok <;> simp [problemUnless]

theorem nonEmptyText_iff {value : Option Json} : nonEmptyText value = true ↔ ∃ s, value = some (.str s) ∧ s ≠ [] := by
  unfold nonEmptyText nonEmptyString
  split
  · split <;> simp_all
  · simp_all

theorem asString_eq_some {value : Option Json} {s : Text} :
    value.bind Json.asString = some s ↔ value = some (.str s) := by
  rw [Option.bind_eq_some_iff]
  constructor
  · rintro ⟨v, rfl, hv⟩
    cases v <;> cases hv
    rfl
  · rintro rfl
    exact ⟨_, rfl, rfl⟩

theorem isNonEmptyArray_iff {value : Option Json} :
    isNonEmptyArray value = true ↔ ∃ items, value = some (.arr items) ∧ items ≠ [] := by
  unfold isNonEmptyArray
  split
  · simp
  · simp only [Bool.false_eq_true, false_iff, not_exists, not_and, not_not]
    intro items hitems
    cases items with
    | nil => rfl
    | cons item items => simp_all

section

variable {artifact : List (Text × Json)}

/-- The parts of the shape, each without a finding. -/
theorem artifactProblems_eq_nil (h : artifactProblems artifact = []) :
    (∃ id, member artifact "id" = some (.str id) ∧ 8 ≤ id.length) ∧
      (∃ queries, member artifact "queries" = some (.arr queries) ∧ queries ≠ [] ∧
        ∀ q ∈ queries.zipIdx, queryProblems q.1 q.2 = []) ∧
      layoutProblems artifact = [] := by
  simp only [artifactProblems, List.append_eq_nil_iff] at h
  obtain ⟨⟨⟨⟨⟨⟨⟨-, hid⟩, -⟩, hqueries⟩, -⟩, -⟩, -⟩, hlayout⟩ := h
  refine ⟨?_, ?_, hlayout⟩
  · rw [problemUnless_eq_nil] at hid
    obtain ⟨id, hsome, hlength⟩ := (Option.any_eq_true _ _).mp hid
    exact ⟨id, asString_eq_some.mp hsome, of_decide_eq_true hlength⟩
  · by_cases harray : isNonEmptyArray (member artifact "queries") = true
    · obtain ⟨queries, hmember, hne⟩ := isNonEmptyArray_iff.mp harray
      rw [if_pos harray, hmember, List.flatMap_eq_nil_iff] at hqueries
      exact ⟨queries, hmember, hne, hqueries⟩
    · rw [if_neg harray] at hqueries
      cases hqueries

theorem name_of_queryProblems {query : Json} {i : Nat} (h : queryProblems query i = []) :
    ∃ name, query.field "name" = some (.str name) ∧ name ≠ [] := by
  simp only [queryProblems, List.append_eq_nil_iff, problemUnless_eq_nil] at h
  exact nonEmptyText_iff.mp h.1.1.1.1

theorem names_of_pageProblems {names : List Text} {i : Nat} {seen : List Text} {pages : List Json}
    (h : pageProblems names i seen pages = []) :
    ∀ page ∈ pages, ∃ name, page.field "name" = some (.str name) ∧ name ≠ [] := by
  induction pages generalizing i seen with
  | nil => exact fun _ hmem => absurd hmem List.not_mem_nil
  | cons page pages ih =>
      rw [pageProblems] at h
      cases hname : nonEmptyString (page.field "name") with
      | none => simp [hname] at h
      | some name =>
          simp only [hname, List.append_eq_nil_iff] at h
          refine List.forall_mem_cons.mpr ⟨nonEmptyText_iff.mp ?_, ih h.2⟩
          rw [nonEmptyText, hname]
          rfl

/-- Every page of an authored layout has a name. -/
theorem names_of_layoutProblems (h : layoutProblems artifact = []) {layout : Json}
    (hlayout : member artifact "layout" = some layout) {pages : List Json}
    (hpages : layout.field "pages" = some (.arr pages)) :
    ∀ page ∈ pages, ∃ name, page.field "name" = some (.str name) ∧ name ≠ [] := by
  have hauthored : isAuthoredLayout layout = true := by
    cases layout with
    | obj members => simp [isAuthoredLayout, show member members "pages" = some (.arr pages) from hpages]
    | null | bool | num | str | arr => cases hpages
  rw [layoutProblems, hlayout, Option.filter_some, if_pos hauthored] at h
  simp only [List.append_eq_nil_iff] at h
  obtain ⟨⟨⟨-, hproblems⟩, -⟩, -⟩ := h
  by_cases harray : isNonEmptyArray (layout.field "pages") = true
  · rw [if_pos harray, pagesOf, hpages] at hproblems
    exact names_of_pageProblems hproblems
  · rw [if_neg harray] at hproblems
    cases hproblems

end

end ContextLayer
