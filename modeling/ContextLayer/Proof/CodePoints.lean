import ContextLayer.Text

/-!
# One text in two languages

The core cuts a text at code units and Python at code points. At a unit that is no surrogate they cut it alike.
-/

namespace ContextLayer.Text

theorem codePoints_cons {u : UInt16} (hu : isSurrogate u = false) (s : Text) :
    codePoints (u :: s) = .unit u :: codePoints s := by
  have hhigh : isHighSurrogate u = false := by
    by_contra h
    rw [isSurrogate_of_isHighSurrogate ((Bool.not_eq_false _).mp h)] at hu
    cases hu
  cases s with
  | nil => rfl
  | cons v s => rw [codePoints, dif_neg fun h => Bool.false_ne_true (hhigh.symm.trans h.1)]

/-- What is no surrogate ends whatever stands ahead of it. -/
theorem codePoints_append_cons {u : UInt16} (hu : isSurrogate u = false) (a b : Text) :
    codePoints (a ++ u :: b) = codePoints a ++ .unit u :: codePoints b := by
  fun_induction codePoints a with
  | case1 => exact codePoints_cons hu b
  | case2 v =>
      have hlow : isLowSurrogate u = false := by
        by_contra h
        rw [isSurrogate_of_isLowSurrogate ((Bool.not_eq_false _).mp h)] at hu
        cases hu
      rw [List.singleton_append, codePoints, dif_neg fun h => Bool.false_ne_true (hlow.symm.trans h.2),
        codePoints_cons hu, List.singleton_append]
  | case3 v w rest hpair ih =>
      rw [List.cons_append, List.cons_append, codePoints, dif_pos hpair, ih, List.cons_append]
  | case4 v w rest hpair ih =>
      rw [List.cons_append, List.cons_append, codePoints, dif_neg hpair, ← List.cons_append, ih,
        List.cons_append]

theorem mem_codePoints {u : UInt16} (hu : isSurrogate u = false) {s : Text} :
    CodePoint.unit u ∈ codePoints s ↔ u ∈ s := by
  constructor
  · intro h
    rw [← flatMap_units_codePoints s]
    exact List.mem_flatMap.mpr ⟨_, h, List.mem_singleton.mpr rfl⟩
  · intro h
    obtain ⟨a, b, rfl⟩ := List.append_of_mem h
    rw [codePoints_append_cons hu]
    exact List.mem_append_right _ List.mem_cons_self

theorem codePoints_eq_nil {s : Text} : codePoints s = [] ↔ s = [] :=
  ⟨fun h => codePoints_injective h, fun h => h ▸ rfl⟩

/-- A text of no surrogates is its units. -/
theorem isSurrogate_of_all {a : Text} (h : (a.all fun u => !isSurrogate u) = true) :
    ∀ u ∈ a, isSurrogate u = false := by simpa using h

theorem codePoints_append_of_forall {a : Text} (ha : ∀ u ∈ a, isSurrogate u = false) (b : Text) :
    codePoints (a ++ b) = a.map .unit ++ codePoints b := by
  induction a with
  | nil => rfl
  | cons u a ih =>
      rw [List.cons_append, codePoints_cons (ha u List.mem_cons_self),
        ih fun v hv => ha v (List.mem_cons_of_mem u hv)]
      rfl

theorem codePoints_append_units {b : Text} (hb : ∀ u ∈ b, isSurrogate u = false) (a : Text) :
    codePoints (a ++ b) = codePoints a ++ b.map .unit := by
  cases b with
  | nil => rw [List.append_nil, List.map_nil, List.append_nil]
  | cons u b =>
      rw [codePoints_append_cons (hb u List.mem_cons_self), List.map_cons,
        ← List.append_nil b, codePoints_append_of_forall fun v hv => hb v (List.mem_cons_of_mem u hv),
        List.append_nil]
      simp [codePoints]

theorem isWellFormed_append_cons {u : UInt16} (hu : isSurrogate u = false) {a b : Text} :
    isWellFormed (a ++ u :: b) = true ↔ isWellFormed a = true ∧ isWellFormed b = true := by
  have hlone : CodePoint.isLone (.unit u) = false := hu
  simp [isWellFormed, codePoints_append_cons hu, hlone]

theorem isWellFormed_toWellFormed (s : Text) : isWellFormed (toWellFormed s) = true := by
  refine isWellFormed_flatMap fun p _ => ?_
  by_cases hlone : p.isLone = true
  · rw [CodePoint.replaceLone, if_pos hlone]
    rfl
  · rw [CodePoint.replaceLone, if_neg hlone]
    exact isWellFormed_units (Bool.not_eq_true _ ▸ hlone)

end ContextLayer.Text
