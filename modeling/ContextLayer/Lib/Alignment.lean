import Mathlib.Data.Fintype.EquivFin
import Mathlib.Data.List.FinRange
import Mathlib.Data.Prod.Lex
import Mathlib.SetTheory.Cardinal.Order
import ContextLayer.Lib.StableSort

/-!
# Sorted lists held against each other

Two lists are sorted by a key each, and compared position by position. What they are compared by relates their elements
one to one, and the pairs do not cross: they stand in one order in both lists, by key and then by position. So the
comparison finds a one-to-one relation exactly where there is one without crossings.
-/

namespace Alignment

open StableSort

variable {α β κ : Type} [LinearOrder κ]

/-! ### Stability -/

theorem orderedInsert_congr {r s : α → α → Prop} [DecidableRel r] [DecidableRel s] {a : α} {l : List α}
    (h : ∀ b ∈ l, (r a b ↔ s a b)) : l.orderedInsert r a = l.orderedInsert s a := by
  induction l with
  | nil => rfl
  | cons b rest ih =>
      rw [List.forall_mem_cons] at h
      rw [List.orderedInsert_cons, List.orderedInsert_cons, ih h.2]
      simp only [h.1]

/-- Elements of one key stay in the order they came in. -/
theorem sortOn_eq_lex {ι : Type} [LinearOrder ι] {key : α → κ} {rank : α → ι} {l : List α}
    (h : l.Pairwise fun a b => rank a ≤ rank b) : sortOn key l = sortOn (fun a => toLex (key a, rank a)) l := by
  induction l with
  | nil => rfl
  | cons a rest ih =>
      obtain ⟨hhead, hrest⟩ := List.pairwise_cons.mp h
      have hinsert := ih hrest
      rw [sortOn, sortOn] at hinsert
      rw [sortOn, sortOn, List.insertionSort_cons, List.insertionSort_cons, hinsert]
      refine orderedInsert_congr fun b hb => ?_
      have hrank := hhead b ((List.mem_insertionSort _).mp hb)
      rw [Prod.Lex.toLex_le_toLex]
      constructor
      · intro hkey
        rcases hkey.lt_or_eq with hlt | heq
        · exact .inl hlt
        · exact .inr ⟨heq, hrank⟩
      · rintro (hlt | ⟨heq, -⟩)
        · exact hlt.le
        · exact heq.le

/-! ### Positions in order -/

section Ranked

variable (key : α → κ) (l : List α)

/-- Where an element stands: by its key, and then by its position. -/
def place (i : Fin l.length) : κ ×ₗ Fin l.length := toLex (key (l.get i), i)

/-- The positions in the order of the sorted list. -/
def ranked : List (Fin l.length) := sortOn (place key l) (List.finRange l.length)

variable {key l}

omit [LinearOrder κ] in
theorem place_injective : Function.Injective (place key l) := fun _ _ h => (Prod.mk.inj (toLex_inj.mp h)).2

theorem mem_ranked (i : Fin l.length) : i ∈ ranked key l := mem_sortOn.mpr (List.mem_finRange i)

theorem nodup_ranked : (ranked key l).Nodup := sortOn_perm.nodup_iff.mpr (List.nodup_finRange _)

theorem pairwise_ranked : (ranked key l).Pairwise fun i j => place key l i < place key l j :=
  (sortOn_pairwise.and nodup_ranked).imp fun h => h.1.lt_of_ne fun heq => h.2 (place_injective heq)

theorem sortOn_eq_map_ranked : sortOn key l = (ranked key l).map l.get := by
  have hsorted : (List.finRange l.length).Pairwise fun i j => i ≤ j := (List.pairwise_lt_finRange _).imp le_of_lt
  calc sortOn key l = sortOn key ((List.finRange l.length).map l.get) := by rw [List.map_get_finRange]
    _ = (sortOn (fun i => key (l.get i)) (List.finRange l.length)).map l.get := sortOn_map l.get fun _ => rfl
    _ = (ranked key l).map l.get := by rw [sortOn_eq_lex hsorted]; rfl

end Ranked

/-! ### One to one, in order -/

section Aligned

variable {R : α → β → Prop} {key : α → κ} {key' : β → κ} {l : List α} {l' : List β}

/-- The elements are related one to one. -/
def Matchable (R : α → β → Prop) (l : List α) (l' : List β) : Prop :=
  ∃ σ : Fin l.length ≃ Fin l'.length, ∀ i, R (l.get i) (l'.get (σ i))

/-- They are, by pairs that do not cross. -/
def MatchableInOrder (R : α → β → Prop) (key : α → κ) (key' : β → κ) (l : List α) (l' : List β) : Prop :=
  ∃ σ : Fin l.length ≃ Fin l'.length, (∀ i, R (l.get i) (l'.get (σ i))) ∧
    ∀ i j, place key l i < place key l j → place key' l' (σ i) < place key' l' (σ j)

theorem MatchableInOrder.matchable (h : MatchableInOrder R key key' l l') : Matchable R l l' :=
  h.imp fun _ hσ => hσ.1

theorem Matchable.length_eq (h : Matchable R l l') : l.length = l'.length := by
  obtain ⟨σ, -⟩ := h
  simpa using Fintype.card_congr σ

/-- A list without repeats that has every position, as a numbering of the positions. -/
theorem exists_numbering {n : Nat} {p : List (Fin n)} (hnodup : p.Nodup) (hmem : ∀ i, i ∈ p) :
    ∃ e : Fin p.length ≃ Fin n, ∀ t, e t = p.get t :=
  ⟨hnodup.getEquivOfForallMemList p hmem, fun _ => rfl⟩

theorem inOrder_of_forall₂
    (h : List.Forall₂ (fun i j => R (l.get i) (l'.get j)) (ranked key l) (ranked key' l')) :
    MatchableInOrder R key key' l l' := by
  obtain ⟨e, he⟩ := exists_numbering (nodup_ranked : (ranked key l).Nodup) mem_ranked
  obtain ⟨e', he'⟩ := exists_numbering (nodup_ranked : (ranked key' l').Nodup) mem_ranked
  have hranked : (ranked key l).Pairwise fun i j => place key l i < place key l j := pairwise_ranked
  have hranked' : (ranked key' l').Pairwise fun i j => place key' l' i < place key' l' j := pairwise_ranked
  refine ⟨e.symm.trans ((finCongr h.length_eq).trans e'), fun i => ?_, fun i j hij => ?_⟩
  · have hpair := h.get (i := (e.symm i).val) (e.symm i).isLt (h.length_eq ▸ (e.symm i).isLt)
    have hi : (ranked key l).get (e.symm i) = i := by rw [← he, Equiv.apply_symm_apply]
    rw [Equiv.trans_apply, Equiv.trans_apply, he']
    simp only [Fin.eta, hi] at hpair
    exact hpair
  · have hlt : e.symm i < e.symm j := by
      by_contra hnot
      have hle : place key l j ≤ place key l i := by
        rcases (not_lt.mp hnot).lt_or_eq with hlt | heq
        · have hrel := List.pairwise_iff_get.mp hranked _ _ hlt
          rw [← he, ← he, Equiv.apply_symm_apply, Equiv.apply_symm_apply] at hrel
          exact hrel.le
        · rw [e.symm.injective heq]
      exact absurd hij hle.not_gt
    have hrel := List.pairwise_iff_get.mp hranked'
      (finCongr h.length_eq (e.symm i)) (finCongr h.length_eq (e.symm j)) hlt
    rw [← he', ← he'] at hrel
    exact hrel

theorem forall₂_of_inOrder (h : MatchableInOrder R key key' l l') :
    List.Forall₂ (fun i j => R (l.get i) (l'.get j)) (ranked key l) (ranked key' l') := by
  obtain ⟨σ, hR, horder⟩ := h
  have hperm : ((ranked key l).map σ).Perm (ranked key' l') := by
    refine (List.perm_ext_iff_of_nodup (nodup_ranked.map σ.injective) nodup_ranked).mpr fun j => ?_
    exact iff_of_true (List.mem_map.mpr ⟨σ.symm j, mem_ranked _, σ.apply_symm_apply j⟩) (mem_ranked j)
  have hsorted : ((ranked key l).map σ).Pairwise fun i j => place key' l' i < place key' l' j :=
    List.pairwise_map.mpr (pairwise_ranked.imp fun h => horder _ _ h)
  have heq : (ranked key l).map σ = ranked key' l' :=
    hperm.eq_of_pairwise (fun _ _ _ _ hab hba => absurd hab hba.asymm) hsorted pairwise_ranked
  rw [← heq, List.forall₂_map_right_iff, List.forall₂_same]
  exact fun i _ => hR i

/-- **Sorted lists agree position by position exactly where their elements are related one to one in order.** -/
theorem forall₂_sortOn_iff :
    List.Forall₂ R (sortOn key l) (sortOn key' l') ↔ MatchableInOrder R key key' l l' := by
  have hkey : sortOn key l = (ranked key l).map l.get := sortOn_eq_map_ranked
  have hkey' : sortOn key' l' = (ranked key' l').map l'.get := sortOn_eq_map_ranked
  rw [hkey, hkey', List.forall₂_map_left_iff, List.forall₂_map_right_iff]
  exact ⟨inOrder_of_forall₂, forall₂_of_inOrder⟩

/-- Lists that an equivalence relates one to one are the same up to order in its classes. -/
theorem matchable_iff_perm {γ : Type} {f : α → γ} {g : β → γ} :
    Matchable (fun a b => f a = g b) l l' ↔ (l.map f).Perm (l'.map g) := by
  constructor
  · rintro ⟨σ, hσ⟩
    have hl : l.map f = (List.finRange l.length).map fun i => g (l'.get (σ i)) := by
      conv_lhs => rw [← List.map_get_finRange l, List.map_map]
      exact List.map_congr_left fun i _ => hσ i
    have hl' : l'.map g = (List.finRange l'.length).map fun j => g (l'.get j) := by
      conv_lhs => rw [← List.map_get_finRange l', List.map_map]
      rfl
    have hperm : ((List.finRange l.length).map σ).Perm (List.finRange l'.length) := by
      refine (List.perm_ext_iff_of_nodup ((List.nodup_finRange _).map σ.injective) (List.nodup_finRange _)).mpr fun j => ?_
      exact iff_of_true (List.mem_map.mpr ⟨σ.symm j, List.mem_finRange _, σ.apply_symm_apply j⟩) (List.mem_finRange j)
    rw [hl, hl']
    have hmap := hperm.map fun j => g (l'.get j)
    rwa [List.map_map] at hmap
  · intro h
    -- sorted by any order of the classes
    let := IsWellOrder.linearOrder (WellOrderingRel (α := γ))
    have hsorted : (sortOn f l).map f = (sortOn g l').map g := by
      have hf : sortOn id (l.map f) = (sortOn f l).map f := sortOn_map f fun _ => rfl
      have hg : sortOn id (l'.map g) = (sortOn g l').map g := sortOn_map g fun _ => rfl
      rw [← hf, ← hg]
      exact sortOn_eq_of_perm (fun _ _ _ _ heq => heq) h
    have hforall : List.Forall₂ (fun a b => f a = g b) (sortOn f l) (sortOn g l') := by
      rw [← List.forall₂_map_left_iff (f := f) (R := fun c b => c = g b), hsorted, List.forall₂_map_left_iff,
        List.forall₂_same]
      exact fun _ _ => rfl
    exact (forall₂_sortOn_iff.mp hforall).matchable

end Aligned

end Alignment
