import Mathlib.Data.List.Flatten
import Mathlib.Data.List.Induction

/-!
# Packing in order

A list is cut into pieces of a bounded length, and pieces are laid into bins of a bounded size, in their order and
each whole: a bin without room for the next piece is closed. What holds between the elements of two pieces holds
between those of two bins.
-/

namespace Packing

variable {α : Type} {k : Nat}

/-! ### Pieces -/

/-- Cut into pieces of `k` elements and what is left. -/
def pieces (k : Nat) (l : List α) : List (List α) :=
  (List.range ((l.length + (k - 1)) / k)).map fun i => (l.drop (i * k)).take k

theorem flatten_range_take_drop (l : List α) (n : Nat) :
    ((List.range n).map fun i => (l.drop (i * k)).take k).flatten = l.take (n * k) := by
  induction n with
  | zero => simp
  | succ n ih => simp [List.range_succ, ih, Nat.succ_mul, List.take_add]

theorem flatten_pieces (hk : 1 ≤ k) (l : List α) : (pieces k l).flatten = l := by
  rw [pieces, flatten_range_take_drop]
  apply List.take_of_length_le
  have hdiv := Nat.mod_add_div (l.length + (k - 1)) k
  have hmod := Nat.mod_lt (l.length + (k - 1)) hk
  rw [Nat.mul_comm] at hdiv
  omega

theorem length_le_of_mem_pieces {l piece : List α} (h : piece ∈ pieces k l) : piece.length ≤ k := by
  obtain ⟨i, -, rfl⟩ := List.mem_map.mp h
  exact List.length_take_le k _

theorem subset_of_mem_pieces {l piece : List α} (h : piece ∈ pieces k l) : piece ⊆ l := by
  obtain ⟨i, -, rfl⟩ := List.mem_map.mp h
  exact fun _ hx => List.mem_of_mem_drop (List.mem_of_mem_take hx)

/-- What fits in one piece is not cut. -/
theorem pairwise_pieces_of_length_le {R : List α → List α → Prop} {l : List α} (hk : 1 ≤ k) (h : l.length ≤ k) :
    (pieces k l).Pairwise R := by
  have hcount : (l.length + (k - 1)) / k ≤ 1 := Nat.le_of_lt_succ (Nat.div_lt_of_lt_mul (by omega))
  rw [pieces, List.pairwise_map]
  refine List.pairwise_lt_range.imp_of_mem fun {i j} _ hj hlt => ?_
  have := List.mem_range.mp hj
  omega

/-! ### Bins -/

/-- The closed bins, and the one that is filled. -/
structure Bins (α : Type) where
  closed : List (List α)
  current : List α

namespace Bins

/-- The bins with the last one closed, if there is anything in it. -/
def all (b : Bins α) : List (List α) := if b.current.isEmpty then b.closed else b.closed ++ [b.current]

/-- A piece is laid into the bin, or into a new one. -/
def add (k : Nat) (b : Bins α) (piece : List α) : Bins α :=
  if k < b.current.length + piece.length then ⟨b.all, piece⟩ else ⟨b.closed, b.current ++ piece⟩

end Bins

def pack (k : Nat) (ps : List (List α)) : List (List α) := (ps.foldl (Bins.add k) ⟨[], []⟩).all

/-! ### What a step keeps -/

/-- Every element of the first list is related to every element of the second. -/
def Across (S : α → α → Prop) (l l' : List α) : Prop := ∀ x ∈ l, ∀ y ∈ l', S x y

/-- The pieces placed are in the bins, in their order, within the bounds, and with what holds between two pieces. -/
structure Holds (k : Nat) (S : α → α → Prop) (placed : List (List α)) (b : Bins α) : Prop where
  flatten : b.closed.flatten ++ b.current = placed.flatten
  bounds : ∀ bin ∈ b.closed, bin ≠ [] ∧ bin.length ≤ k
  current : b.current.length ≤ k
  closed : b.closed.Pairwise (Across S)
  across : ∀ bin ∈ b.closed, Across S bin b.current

section Steps

variable {S : α → α → Prop} {placed : List (List α)} {b : Bins α}

theorem flatten_all : b.all.flatten = b.closed.flatten ++ b.current := by
  rw [Bins.all]
  split
  case isTrue hempty => rw [List.isEmpty_iff.mp hempty, List.append_nil]
  case isFalse => rw [List.flatten_append, List.flatten_singleton]

theorem Holds.pairwise_all (h : Holds k S placed b) : b.all.Pairwise (Across S) := by
  rw [Bins.all]
  split
  · exact h.closed
  · refine List.pairwise_append.mpr ⟨h.closed, List.pairwise_singleton _ _, fun bin hbin last hlast => ?_⟩
    rw [List.mem_singleton.mp hlast]
    exact h.across bin hbin

theorem Holds.bounds_all (h : Holds k S placed b) : ∀ bin ∈ b.all, bin ≠ [] ∧ bin.length ≤ k := by
  intro bin hbin
  rw [Bins.all] at hbin
  split at hbin
  · exact h.bounds bin hbin
  · rcases List.mem_append.mp hbin with hclosed | hlast
    · exact h.bounds bin hclosed
    · rename_i hempty
      rw [List.mem_singleton.mp hlast]
      exact ⟨fun hnil => hempty (List.isEmpty_iff.mpr hnil), h.current⟩

theorem Holds.mem_placed (h : Holds k S placed b) {x : α} (hx : x ∈ b.all.flatten) : ∃ p ∈ placed, x ∈ p := by
  rw [flatten_all, h.flatten] at hx
  exact List.mem_flatten.mp hx

theorem Holds.add (h : Holds k S placed b) {piece : List α} (hlength : piece.length ≤ k)
    (hacross : ∀ p ∈ placed, Across S p piece) : Holds k S (placed ++ [piece]) (b.add k piece) := by
  have hnew : ∀ bin ∈ b.all, Across S bin piece := by
    intro bin hbin x hx y hy
    obtain ⟨p, hp, hxp⟩ := h.mem_placed (List.mem_flatten.mpr ⟨bin, hbin, hx⟩)
    exact hacross p hp x hxp y hy
  rw [Bins.add]
  split
  · exact {
      flatten := by rw [flatten_all, h.flatten, List.flatten_append, List.flatten_singleton]
      bounds := h.bounds_all
      current := hlength
      closed := h.pairwise_all
      across := hnew }
  · refine ⟨?_, h.bounds, ?_, h.closed, fun bin hbin x hx y hy => ?_⟩
    · rw [← List.append_assoc, h.flatten, List.flatten_append, List.flatten_singleton]
    · rw [List.length_append]
      omega
    · rcases List.mem_append.mp hy with hold | hpiece
      · exact h.across bin hbin x hx y hold
      · refine hnew bin ?_ x hx y hpiece
        rw [Bins.all]
        split
        · exact hbin
        · exact List.mem_append_left _ hbin

end Steps

/-! ### What is packed -/

theorem holds_foldl {S : α → α → Prop} {ps : List (List α)} (hlength : ∀ p ∈ ps, p.length ≤ k)
    (hps : ps.Pairwise (Across S)) : Holds k S ps (ps.foldl (Bins.add k) ⟨[], []⟩) := by
  induction ps using List.reverseRecOn with
  | nil => exact ⟨rfl, by simp, Nat.zero_le k, .nil, by simp⟩
  | append_singleton ps piece ih =>
      obtain ⟨hbefore, -, hacross⟩ := List.pairwise_append.mp hps
      rw [List.foldl_append]
      exact (ih (fun p hp => hlength p (List.mem_append_left _ hp)) hbefore).add
        (hlength piece (List.mem_append_right _ List.mem_cons_self)) fun p hp =>
          hacross p hp piece List.mem_cons_self

variable {S : α → α → Prop} {ps : List (List α)}

theorem pairwise_true (ps : List (List α)) : ps.Pairwise (Across fun _ _ => True) :=
  List.pairwise_of_forall fun _ _ _ _ _ _ => trivial

theorem flatten_pack (hlength : ∀ p ∈ ps, p.length ≤ k) : (pack k ps).flatten = ps.flatten := by
  rw [pack, flatten_all, (holds_foldl hlength (pairwise_true ps)).flatten]

theorem bounds_of_mem_pack (hlength : ∀ p ∈ ps, p.length ≤ k) {bin : List α} (h : bin ∈ pack k ps) :
    bin ≠ [] ∧ bin.length ≤ k :=
  (holds_foldl hlength (pairwise_true ps)).bounds_all bin h

/-- **What holds between two pieces holds between two bins.** -/
theorem pairwise_pack (hlength : ∀ p ∈ ps, p.length ≤ k) (hps : ps.Pairwise (Across S)) :
    (pack k ps).Pairwise (Across S) :=
  (holds_foldl hlength hps).pairwise_all

end Packing
