import Mathlib.Data.List.TakeDrop

/-!
# Reading up to a cap

A list is read chunk by chunk, up to a cap, with a flag for what is left over. However the chunks are cut, the answer
is the first elements and whether there is one more.
-/

namespace Capped

variable {α β : Type}

/-- What is read of a list. -/
def answer (cap : Nat) (source : List α) : List α × Bool := (source.take cap, decide (cap < source.length))

/-- Append to what has been read, up to the cap. -/
def fill (cap : Nat) (encode : β → α) (read : List α) : List β → List α × Bool
  | [] => (read, false)
  | x :: rest => if cap ≤ read.length then (read, true) else fill cap encode (read ++ [encode x]) rest

/-- **One chunk.** -/
theorem fill_eq_answer {cap : Nat} {encode : β → α} {read : List α} (chunk : List β) (h : read.length ≤ cap) :
    fill cap encode read chunk = answer cap (read ++ chunk.map encode) := by
  induction chunk generalizing read with
  | nil =>
      rw [fill, answer, List.map_nil, List.append_nil, List.take_of_length_le h, decide_eq_false (by omega)]
  | cons x rest ih =>
      by_cases hfull : cap ≤ read.length
      · have hcap : cap = read.length := Nat.le_antisymm hfull h
        rw [fill, if_pos hfull, answer, decide_eq_true (by simp [hcap]), hcap, List.take_left]
      · have hroom : (read ++ [encode x]).length ≤ cap := by
          rw [List.length_append, List.length_singleton]
          omega
        rw [fill, if_neg hfull, ih hroom, List.map_cons, List.append_assoc, List.singleton_append]

theorem fill_of_le {cap : Nat} {encode : β → α} {read : List α} {chunk : List β}
    (h : read.length + chunk.length ≤ cap) : fill cap encode read chunk = (read ++ chunk.map encode, false) := by
  have hlength : (read ++ chunk.map encode).length ≤ cap := by
    rwa [List.length_append, List.length_map]
  rw [fill_eq_answer chunk (by omega), answer, List.take_of_length_le hlength, decide_eq_false (by omega)]

/-- As long as nothing is left over, all of it is read. -/
theorem length_fill {cap : Nat} {encode : β → α} {read : List α} {chunk : List β}
    (h : (fill cap encode read chunk).2 = false) :
    (fill cap encode read chunk).1.length = read.length + chunk.length := by
  induction chunk generalizing read with
  | nil => rfl
  | cons x rest ih =>
      by_cases hfull : cap ≤ read.length
      · rw [fill, if_pos hfull] at h
        cases h
      · rw [fill, if_neg hfull] at h ⊢
        rw [ih h, List.length_append, List.length_singleton, List.length_cons]
        omega

/-- One element beyond the cap tells as much as all. -/
theorem answer_take {cap k : Nat} {source : List α} (h : cap < k ∨ source.length ≤ k) :
    answer cap (source.take k) = answer cap source := by
  by_cases hall : source.length ≤ k
  · rw [List.take_of_length_le hall]
  · have hlt : cap < k := h.resolve_right hall
    have hlength : (source.take k).length = k := List.length_take_of_le (by omega)
    rw [answer, answer, List.take_take, Nat.min_eq_left (Nat.le_of_lt hlt), hlength, decide_eq_true hlt, decide_eq_true (by omega)]

/-- A chunk cut out of a list goes on from what has been read of it. -/
theorem take_append_take_drop (source : List α) (m n : Nat) :
    source.take m ++ (source.drop m).take n = source.take (m + n) := List.take_add.symm

/-- A chunk within the first elements is one of these. -/
theorem take_drop_take {source : List α} {m n k : Nat} (h : m + n ≤ k) :
    ((source.take k).drop m).take n = (source.drop m).take n := by
  rw [List.drop_take, List.take_take, Nat.min_eq_left (by omega)]

end Capped
