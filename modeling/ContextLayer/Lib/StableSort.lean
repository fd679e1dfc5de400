import Mathlib.Data.List.Sort
import Mathlib.Data.List.TakeWhile
import Mathlib.Data.List.Dedup

/-!
# Sorting by a key

A stable sort keeps elements of one key in the order they came in. Two orders of the same elements are
sorted alike exactly when elements of one key do not differ, or, where the sorted elements are only
looked at through a function, do not differ in that.
-/

namespace StableSort

variable {α β κ : Type} [LinearOrder κ] {key : α → κ} {l l' : List α}

def sortOn (key : α → κ) (l : List α) : List α := l.insertionSort fun a b => key a ≤ key b

theorem sortOn_perm : (sortOn key l).Perm l := List.perm_insertionSort _ l

theorem mem_sortOn {a : α} : a ∈ sortOn key l ↔ a ∈ l := sortOn_perm.mem_iff

theorem sortOn_pairwise : (sortOn key l).Pairwise fun a b => key a ≤ key b :=
  have : Std.Total fun a b => key a ≤ key b := ⟨fun a b => le_total (key a) (key b)⟩
  have : IsTrans α fun a b => key a ≤ key b := ⟨fun _ _ _ => le_trans⟩
  List.pairwise_insertionSort _ l

/-- A function that keeps the keys can be applied before or after. -/
theorem sortOn_map {key' : β → κ} (f : α → β) (h : ∀ a, key' (f a) = key a) :
    sortOn key' (l.map f) = (sortOn key l).map f := by
  refine (List.map_insertionSort _ _ f l fun a _ b _ => ?_).symm
  rw [h, h]

theorem sortOn_eq_self (h : l.Pairwise fun a b => key a ≤ key b) : sortOn key l = l :=
  h.insertionSort_eq

theorem sortOn_sortOn : sortOn key (sortOn key l) = sortOn key l := sortOn_eq_self sortOn_pairwise

theorem sortOn_eq_of_perm (h : ∀ a ∈ l, ∀ b ∈ l, key a = key b → a = b) (hperm : l'.Perm l) :
    sortOn key l' = sortOn key l := by
  refine List.Perm.eq_of_pairwise ?_ sortOn_pairwise sortOn_pairwise
    (sortOn_perm.trans (hperm.trans sortOn_perm.symm))
  intro a b ha hb hab hba
  exact h a (hperm.mem_iff.mp (mem_sortOn.mp ha)) b (mem_sortOn.mp hb) (le_antisymm hab hba)

/-- What is sorted without its repeats depends on its members alone. -/
theorem sortOn_dedup_congr [DecidableEq α] (h : ∀ a ∈ l, ∀ b ∈ l, key a = key b → a = b)
    (hmem : ∀ a, a ∈ l' ↔ a ∈ l) : sortOn key l'.dedup = sortOn key l.dedup := by
  refine sortOn_eq_of_perm
    (fun a ha b hb => h a (List.mem_dedup.mp ha) b (List.mem_dedup.mp hb)) ?_
  refine (List.perm_ext_iff_of_nodup (List.nodup_dedup _) (List.nodup_dedup _)).mpr fun a => ?_
  rw [List.mem_dedup, List.mem_dedup, hmem]

/-- Entries with distinct keys are sorted as their keys are. -/
theorem sortOn_fst [DecidableEq κ] {ν : Type} {d : List (κ × ν)} {keys : List κ} (hd : (d.map Prod.fst).Nodup)
    (hkeys : ∀ k, k ∈ d.map Prod.fst ↔ k ∈ keys) (value : κ → ν) (hvalue : ∀ e ∈ d, value e.1 = e.2) :
    sortOn Prod.fst d = (sortOn id keys.dedup).map fun k => (k, value k) := by
  have hentries : d = (d.map Prod.fst).map fun k => (k, value k) := by
    rw [List.map_map]
    exact (List.map_id d).symm.trans
      (List.map_congr_left fun e he => Prod.ext rfl (hvalue e he).symm)
  calc sortOn Prod.fst d = sortOn Prod.fst ((d.map Prod.fst).map fun k => (k, value k)) := by
        rw [← hentries]
    _ = (sortOn id (d.map Prod.fst)).map fun k => (k, value k) := sortOn_map _ fun _ => rfl
    _ = (sortOn id keys.dedup).map fun k => (k, value k) := by
        have hkey : ∀ a ∈ keys, ∀ b ∈ keys, id a = id b → a = b := fun _ _ _ _ heq => heq
        rw [← hd.dedup, sortOn_dedup_congr hkey hkeys]

/-- Two elements of one key, ahead of all others, stay next to each other in their order. -/
theorem sortOn_cons_cons {k : κ} {a b : α} (ha : key a = k) (hb : key b = k) (rest : List α) :
    sortOn key (a :: b :: rest) =
      (sortOn key rest).takeWhile (fun c => ¬ k ≤ key c) ++
        a :: b :: (sortOn key rest).dropWhile (fun c => ¬ k ≤ key c) := by
  set ahead : α → Bool := fun c => ¬ k ≤ key c with hahead
  have hinsert : ∀ (c : α) (l : List α), key c = k → sortOn key (c :: l) =
      (sortOn key l).takeWhile ahead ++ c :: (sortOn key l).dropWhile ahead := by
    rintro c l rfl
    exact List.orderedInsert_eq_take_drop _ c _
  have hfront : ∀ c ∈ (sortOn key rest).takeWhile ahead, ahead c = true :=
    fun c hc => List.mem_takeWhile_imp hc
  have hnot : ¬ ahead b = true := by simp [hahead, hb]
  rw [hinsert a _ ha, hinsert b _ hb, List.takeWhile_append_of_pos hfront,
    List.dropWhile_append_of_pos hfront, List.takeWhile_cons_of_neg hnot,
    List.dropWhile_cons_of_neg hnot, List.append_nil]

/-- **Order does not matter** exactly when elements of one key look alike. -/
theorem map_sortOn_iff (f : α → β) :
    (∀ l', l'.Perm l → (sortOn key l').map f = (sortOn key l).map f) ↔
      ∀ a ∈ l, ∀ b ∈ l, key a = key b → f a = f b := by
  constructor
  · intro h a ha b hb hkey
    by_contra hne
    have hab : b ≠ a := fun heq => hne (heq ▸ rfl)
    obtain ⟨front, back, rfl⟩ := List.append_of_mem ha
    have hmem : b ∈ front ++ back := by
      rw [List.mem_append, List.mem_cons] at hb
      rw [List.mem_append]
      exact hb.imp_right fun hb => hb.resolve_left hab
    obtain ⟨front', back', hrest⟩ := List.append_of_mem hmem
    have hperm : (a :: b :: (front' ++ back')).Perm (front ++ a :: back) :=
      ((List.perm_middle.symm.trans (List.Perm.of_eq hrest.symm)).cons a).trans
        List.perm_middle.symm
    have hswap := (h _ hperm).trans (h _ ((List.Perm.swap a b _).trans hperm)).symm
    rw [sortOn_cons_cons hkey rfl, sortOn_cons_cons rfl hkey, List.map_append, List.map_append,
      List.append_cancel_left_eq] at hswap
    exact hne (List.cons.inj hswap).1
  · intro h l' hperm
    -- What is seen of an element, beside its key.
    have hpairs : ∀ l, (sortOn key l).map (fun a => (key a, f a)) =
        sortOn Prod.fst (l.map fun a => (key a, f a)) :=
      fun l => (sortOn_map (fun a => (key a, f a)) fun a => (rfl : Prod.fst (key a, f a) = key a)).symm
    have hsorted : sortOn Prod.fst (l'.map fun a => (key a, f a)) =
        sortOn Prod.fst (l.map fun a => (key a, f a)) := by
      refine sortOn_eq_of_perm ?_ (hperm.map _)
      intro p hp q hq hkey
      obtain ⟨a, ha, rfl⟩ := List.mem_map.mp hp
      obtain ⟨b, hb, rfl⟩ := List.mem_map.mp hq
      exact Prod.ext hkey (h a ha b hb hkey)
    have hsnd : ∀ l, (sortOn key l).map f =
        ((sortOn key l).map fun a => (key a, f a)).map Prod.snd := by
      intro l
      rw [List.map_map]
      rfl
    rw [hsnd, hsnd, hpairs, hpairs, hsorted]

/-- Two orders put a list in one order exactly where the one entails the other on its items. -/
theorem insertionSort_eq_iff {r s : α → α → Prop} [DecidableRel r] [DecidableRel s] [Std.Total r] [IsTrans α r]
    [Std.Total s] [IsTrans α s] (hr : ∀ a ∈ l, ∀ b ∈ l, r a b → r b a → a = b)
    (hs : ∀ a ∈ l, ∀ b ∈ l, s a b → s b a → a = b) :
    l.insertionSort r = l.insertionSort s ↔ ∀ a ∈ l, ∀ b ∈ l, r a b → s a b := by
  have hsortedr : (l.insertionSort r).Pairwise r := List.pairwise_insertionSort r l
  have hsorteds : (l.insertionSort s).Pairwise s := List.pairwise_insertionSort s l
  constructor
  · intro heq a ha b hb hab
    rw [← heq] at hsorteds
    by_contra hnot
    have hba : s b a := (total_of s a b).resolve_left hnot
    have hne : a ≠ b := fun h => hnot (h ▸ h ▸ hba)
    obtain ⟨xs, ys, hsplit⟩ := List.append_of_mem ((List.mem_insertionSort r).mpr ha)
    have hb' := (List.mem_insertionSort r).mpr hb
    rw [hsplit] at hsortedr hsorteds hb'
    rcases List.mem_append.mp hb' with hbefore | hbehind
    · have hback := (List.pairwise_append.mp hsortedr).2.2 b hbefore a List.mem_cons_self
      exact hne (hr a ha b hb hab hback)
    · have hbehind := (List.mem_cons.mp hbehind).resolve_left (Ne.symm hne)
      exact hnot (List.rel_of_pairwise_cons (List.pairwise_append.mp hsorteds).2.1 hbehind)
  · intro h
    have hsame : (l.insertionSort r).Pairwise s :=
      hsortedr.imp_of_mem fun ha hb hab =>
        h _ ((List.mem_insertionSort r).mp ha) _ ((List.mem_insertionSort r).mp hb) hab
    refine List.Perm.eq_of_pairwise (fun a b ha hb => hs a ?_ b ?_) hsame hsorteds
      ((List.perm_insertionSort r l).trans (List.perm_insertionSort s l).symm)
    · exact (List.mem_insertionSort r).mp ha
    · exact (List.mem_insertionSort s).mp hb

end StableSort
