import Mathlib.Data.List.Basic

/-!
# Lines

A list is cut at each separator, and put together again from the pieces with a separator behind each.
-/

namespace Lines

variable {α : Type} {sep : α}

theorem intercalate_append {pieces : List (List α)} (hne : pieces ≠ []) :
    [sep].intercalate pieces ++ [sep] = pieces.flatMap fun piece => piece ++ [sep] := by
  induction pieces with
  | nil => exact absurd rfl hne
  | cons piece rest ih =>
      cases rest with
      | nil => simp [List.intercalate]
      | cons piece' rest =>
          rw [List.flatMap_cons, ← ih (List.cons_ne_nil _ _)]
          simp [List.intercalate, List.intersperse]

theorem intercalate_append_of_ne_nil (pieces : List (List α)) {rest : List (List α)} (hne : rest ≠ []) :
    [sep].intercalate (pieces ++ rest) = pieces.flatMap (fun piece => piece ++ [sep]) ++ [sep].intercalate rest := by
  induction pieces with
  | nil => rfl
  | cons piece pieces ih =>
      rw [List.cons_append, List.intercalate_cons_of_ne_nil (List.append_ne_nil_of_right_ne_nil _ hne), ih,
        List.flatMap_cons, ← List.append_assoc]

variable [BEq α] [LawfulBEq α]

theorem flatMap_splitOn (l : List α) : (l.splitOn sep).flatMap (fun piece => piece ++ [sep]) = l ++ [sep] := by
  rw [← intercalate_append (List.splitOn_ne_nil sep l), List.intercalate_splitOn]

/-- What is no separator starts the first piece. -/
theorem splitOn_cons_of_ne {a : α} (ha : a ≠ sep) (l : List α) :
    ∃ piece rest, (a :: l).splitOn sep = (a :: piece) :: rest := by
  rw [List.splitOn_cons_eq_if_modifyHead, if_neg fun heq => ha (beq_iff_eq.mp heq)]
  cases hsplit : l.splitOn sep with
  | nil => exact absurd hsplit (List.splitOn_ne_nil sep l)
  | cons piece rest => exact ⟨piece, rest, rfl⟩

theorem notMem_of_mem_splitOn {l piece : List α} (h : piece ∈ l.splitOn sep) : sep ∉ piece := by
  induction l generalizing piece with
  | nil =>
      rw [List.splitOn_nil, List.mem_singleton] at h
      rw [h]
      exact List.not_mem_nil
  | cons a l ih =>
      rw [List.splitOn_cons_eq_if_modifyHead] at h
      by_cases ha : a = sep
      · rw [if_pos (beq_iff_eq.mpr ha)] at h
        obtain rfl | h := List.mem_cons.mp h
        · exact List.not_mem_nil
        · exact ih h
      · rw [if_neg fun heq => ha (beq_iff_eq.mp heq)] at h
        cases hsplit : l.splitOn sep with
        | nil => exact absurd hsplit (List.splitOn_ne_nil sep l)
        | cons first rest =>
            rw [hsplit, List.modifyHead_cons] at h
            obtain rfl | h := List.mem_cons.mp h
            · rw [List.mem_cons, not_or]
              exact ⟨Ne.symm ha, ih (hsplit ▸ List.mem_cons_self)⟩
            · exact ih (hsplit ▸ List.mem_cons_of_mem first h)

theorem splitOn_flatMap_append {pieces : List (List α)} (h : ∀ piece ∈ pieces, sep ∉ piece) (rest : List α) :
    ((pieces.flatMap fun piece => piece ++ [sep]) ++ rest).splitOn sep = pieces ++ rest.splitOn sep := by
  induction pieces with
  | nil => rfl
  | cons piece pieces ih =>
      rw [List.flatMap_cons, List.append_assoc, List.append_assoc, List.singleton_append,
        List.splitOn_append_cons_self_of_not_mem (h piece List.mem_cons_self),
        ih fun piece' hmem => h piece' (List.mem_cons_of_mem piece hmem), List.cons_append]

theorem splitOn_flatMap {pieces : List (List α)} (h : ∀ piece ∈ pieces, sep ∉ piece) :
    (pieces.flatMap fun piece => piece ++ [sep]).splitOn sep = pieces ++ [[]] := by
  have hsplit := splitOn_flatMap_append h []
  rwa [List.append_nil, List.splitOn_nil] at hsplit

/-- What ends in a separator is made of whole pieces. -/
theorem exists_pieces {l : List α} (h : l.getLast? = some sep) :
    ∃ pieces : List (List α), l = pieces.flatMap (fun piece => piece ++ [sep]) ∧ ∀ piece ∈ pieces, sep ∉ piece := by
  obtain ⟨rest, rfl⟩ := List.getLast?_eq_some_iff.mp h
  exact ⟨rest.splitOn sep, (flatMap_splitOn rest).symm, fun piece => notMem_of_mem_splitOn⟩

/-- A separator at the end opens one more piece. -/
theorem splitOn_concat (l : List α) : (l ++ [sep]).splitOn sep = l.splitOn sep ++ [[]] := by
  rw [← flatMap_splitOn l, splitOn_flatMap fun piece => notMem_of_mem_splitOn]

theorem splitOn_append_cons (a b : List α) : (a ++ sep :: b).splitOn sep = a.splitOn sep ++ b.splitOn sep := by
  have hpieces : ∀ piece ∈ a.splitOn sep ++ b.splitOn sep, sep ∉ piece := by
    intro piece hmem
    obtain h | h := List.mem_append.mp hmem
    · exact notMem_of_mem_splitOn h
    · exact notMem_of_mem_splitOn h
  have hsplit := splitOn_flatMap hpieces
  rw [List.flatMap_append, flatMap_splitOn, flatMap_splitOn, List.append_assoc, List.singleton_append,
    ← List.cons_append, ← List.append_assoc, splitOn_concat] at hsplit
  exact List.append_cancel_right hsplit

theorem mem_of_mem_splitOn {l piece : List α} (h : piece ∈ l.splitOn sep) {a : α} (ha : a ∈ piece) : a ∈ l := by
  have hmem : a ∈ (l.splitOn sep).flatMap fun piece => piece ++ [sep] :=
    List.mem_flatMap.mpr ⟨piece, h, List.mem_append_left _ ha⟩
  rw [flatMap_splitOn, List.mem_append, List.mem_singleton] at hmem
  exact hmem.resolve_right fun heq => notMem_of_mem_splitOn h (heq ▸ ha)

end Lines
