import Mathlib.Data.List.Sort

/-!
# Keyset pages

Rows in a strict order are read page by page: a page begins behind the last row of the one before, and has a cursor
to the next one as long as rows are left. What a page shows may be fewer rows than it read.
-/

namespace Keyset

variable {α κ : Type}

/-- What is shown of a page, and the cursor to the next one. -/
structure Page (α κ : Type) where
  items : List α
  next : Option κ

/-- Page after page, until there is no next one; `none` where one is refused, or more than `fuel` are there. -/
def follow (page : Option κ → Option (Page α κ)) : Nat → Option κ → Option (List α)
  | 0, _ => none
  | fuel + 1, cursor =>
      (page cursor).bind fun p =>
        match p.next with
        | none => some p.items
        | some next => (follow page fuel (some next)).map (p.items ++ ·)

/-- Behind a row stand those it precedes. -/
theorem filter_behind {s : α → α → Prop} [DecidableRel s] (hasymm : ∀ a b, s a b → ¬ s b a) {xs ys : List α}
    {x : α} (h : (xs ++ x :: ys).Pairwise s) : (xs ++ x :: ys).filter (fun y => decide (s x y)) = ys := by
  obtain ⟨-, hx, hxs⟩ := List.pairwise_append.mp h
  have hxs' : xs.filter (fun y => decide (s x y)) = [] := by
    refine List.filter_eq_nil_iff.mpr fun a ha => ?_
    rw [decide_eq_true_eq]
    exact hasymm a x (hxs a ha x List.mem_cons_self)
  have hirrefl : ¬ s x x := fun hs => hasymm x x hs hs
  have hys : ys.filter (fun y => decide (s x y)) = ys :=
    List.filter_eq_self.mpr fun a ha => decide_eq_true (List.rel_of_pairwise_cons hx ha)
  rw [List.filter_append, hxs', List.nil_append, List.filter_cons_of_neg (by simpa using hirrefl), hys]

/-- **Every row is shown once, in order**, where each page begins behind the last row read before it. -/
theorem follow_eq {page : Option κ → Option (Page α κ)} {code : α → κ} {rows : List α} {shown : α → Bool} {n : Nat}
    (hn : 0 < n)
    (hpage : ∀ done rest, rows = done ++ rest → page (done.getLast?.map code) =
      some ⟨(rest.take n).filter shown, if n < rest.length then (rest.take n).getLast?.map code else none⟩)
    (fuel : Nat) (done rest : List α) (hrows : rows = done ++ rest) (hfuel : rest.length < fuel) :
    follow page fuel (done.getLast?.map code) = some (rest.filter shown) := by
  induction fuel generalizing done rest with
  | zero => exact absurd hfuel (Nat.not_lt_zero _)
  | succ fuel ih =>
      rw [follow, hpage done rest hrows, Option.bind_some]
      by_cases hmore : n < rest.length
      · have htake : rest.take n ≠ [] := by
          rw [Ne, List.take_eq_nil_iff]
          rintro (hzero | hnil)
          · exact absurd hzero hn.ne'
          · rw [hnil] at hmore
            exact absurd hmore (Nat.not_lt_zero n)
        have hlast : (rest.take n).getLast?.map code = some (code ((rest.take n).getLast htake)) := by
          rw [List.getLast?_eq_some_getLast htake, Option.map_some]
        have hdone : (done ++ rest.take n).getLast?.map code = some (code ((rest.take n).getLast htake)) := by
          rw [List.getLast?_append, List.getLast?_eq_some_getLast htake, Option.some_or, Option.map_some]
        have hrest := ih (done ++ rest.take n) (rest.drop n)
          (by rw [List.append_assoc, List.take_append_drop, hrows]) (by rw [List.length_drop]; omega)
        rw [hdone] at hrest
        dsimp only
        rw [if_pos hmore, hlast]
        dsimp only
        rw [hrest, Option.map_some, ← List.filter_append, List.take_append_drop]
      · dsimp only
        rw [if_neg hmore]
        dsimp only
        rw [List.take_of_length_le (Nat.le_of_not_lt hmore)]

end Keyset
