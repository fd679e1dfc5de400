import ContextLayer.Worklist

/-!
# Batches partition the work list

What is under a cause is the items of its group in their order, and a group stands where its first item does. A group
that fits is one piece, and pieces are laid whole.
-/

namespace ContextLayer.Worklist

open Text StableSort Packing

variable {δ : Type} {cause : δ → Option PyStr} {docs : List δ} {size : Nat}

/-! ### Groups -/

theorem groupOf_of_mem {key : PyStr} {doc : δ} (h : doc ∈ itemsOf cause docs key) : groupOf cause doc = key := by
  simpa using (List.mem_filter.mp h).2

theorem foldl_append_singleton (l : List δ) (old : List δ) :
    l.foldl (fun (v : Option (List δ)) doc => some (v.getD [] ++ [doc])) (some old) = some (old ++ l) := by
  induction l generalizing old with
  | nil => rw [List.foldl_nil, List.append_nil]
  | cons doc rest ih => rw [List.foldl_cons, Option.getD_some, ih, List.append_assoc, List.singleton_append]

theorem nodup_collected : ((Dict.collect (groupOf cause) (fun doc group => group.getD [] ++ [doc]) [] docs).map
    Prod.fst).Nodup :=
  Dict.nodup_collect (groupOf cause) (fun doc group => group.getD [] ++ [doc]) (d := []) List.nodup_nil docs

/-- What is collected under a key is its group. -/
theorem eq_items_of_mem_collect {e : PyStr × List δ}
    (h : e ∈ Dict.collect (groupOf cause) (fun doc group => group.getD [] ++ [doc]) [] docs) :
    e.2 = itemsOf cause docs e.1 ∧ e.2 ≠ [] := by
  have hget := Dict.get?_of_mem nodup_collected (show (e.1, e.2) ∈ _ from h)
  rw [Dict.get?_collect, Dict.get?_nil, ← itemsOf] at hget
  cases hitems : itemsOf cause docs e.1 with
  | nil =>
      rw [hitems] at hget
      cases hget
  | cons doc rest =>
      rw [hitems, List.foldl_cons, Option.getD_none, List.nil_append, foldl_append_singleton,
        List.singleton_append] at hget
      rw [← Option.some.inj hget]
      exact ⟨rfl, List.cons_ne_nil doc rest⟩

variable [DecidableEq δ]

theorem mem_groups {group : List δ} (h : group ∈ groups cause docs) :
    ∃ key, group = itemsOf cause docs key ∧ group ≠ [] := by
  obtain ⟨e, he, rfl⟩ := List.mem_map.mp (mem_sortOn.mp h)
  exact ⟨e.1, eq_items_of_mem_collect he⟩

/-- Every item is in the group of its key. -/
theorem items_mem_groups {doc : δ} (h : doc ∈ docs) : itemsOf cause docs (groupOf cause doc) ∈ groups cause docs := by
  have hkey := (Dict.mem_keys_collect (groupOf cause) (fun doc group => group.getD [] ++ [doc]) [] docs _).mpr
    (.inr (List.mem_map_of_mem h))
  obtain ⟨e, he, hfst⟩ := List.mem_map.mp hkey
  refine mem_sortOn.mpr (List.mem_map.mpr ⟨e, he, ?_⟩)
  rw [(eq_items_of_mem_collect he).1, hfst]

/-- Two groups have no item of one key. -/
theorem pairwise_groups : (groups cause docs).Pairwise fun group group' =>
    ∀ doc ∈ group, ∀ doc' ∈ group', groupOf cause doc ≠ groupOf cause doc' := by
  refine (sortOn_perm.pairwise_iff fun h doc hdoc doc' hdoc' => (h doc' hdoc' doc hdoc).symm).mpr ?_
  rw [List.pairwise_map]
  refine (List.pairwise_map.mp nodup_collected).imp_of_mem fun {e e'} he he' hne doc hdoc doc' hdoc' heq => hne ?_
  rw [(eq_items_of_mem_collect he).1] at hdoc
  rw [(eq_items_of_mem_collect he').1] at hdoc'
  rw [← groupOf_of_mem hdoc, heq, groupOf_of_mem hdoc']

/-! ### Their order -/

theorem idxOf_head_filter {p : δ → Bool} {l : List δ} {doc : δ} {rest : List δ} (h : l.filter p = doc :: rest) :
    l.idxOf doc = l.findIdx p := by
  induction l with
  | nil => cases h
  | cons a l ih =>
      by_cases hp : p a = true
      · rw [List.filter_cons_of_pos hp] at h
        rw [(List.cons.inj h).1, List.idxOf_cons_self, List.findIdx_cons, ← (List.cons.inj h).1, hp]
        rfl
      · rw [List.filter_cons_of_neg hp] at h
        have hdoc : p doc = true := (List.mem_filter.mp (h ▸ List.mem_cons_self)).2
        have hne : a ≠ doc := fun heq => hp (heq ▸ hdoc)
        rw [List.idxOf_cons_ne l hne, List.findIdx_cons, ih h, Bool.not_eq_true _ |>.mp hp]
        rfl

theorem firstIndex_items {key : PyStr} (h : itemsOf cause docs key ≠ []) :
    firstIndex docs (itemsOf cause docs key) = appears cause docs key := by
  cases hitems : itemsOf cause docs key with
  | nil => exact absurd hitems h
  | cons doc rest => exact idxOf_head_filter hitems

theorem firstIndex_of_mem {group : List δ} (h : group ∈ groups cause docs) {doc : δ} (hdoc : doc ∈ group) :
    firstIndex docs group = appears cause docs (groupOf cause doc) := by
  obtain ⟨key, rfl, hne⟩ := mem_groups h
  rw [firstIndex_items hne, groupOf_of_mem hdoc]

theorem pairwise_flatten_groups : (groups cause docs).flatten.Pairwise fun doc doc' =>
    appears cause docs (groupOf cause doc) ≤ appears cause docs (groupOf cause doc') := by
  rw [List.pairwise_flatten]
  constructor
  · intro group hgroup
    refine List.pairwise_of_forall_mem_list fun doc hdoc doc' hdoc' => ?_
    rw [← firstIndex_of_mem hgroup hdoc, firstIndex_of_mem hgroup hdoc']
  · refine sortOn_pairwise.imp_of_mem fun {group group'} hgroup hgroup' hle doc hdoc doc' hdoc' => ?_
    rwa [firstIndex_of_mem hgroup hdoc, firstIndex_of_mem hgroup' hdoc'] at hle

theorem subset_of_mem_groups {group : List δ} (h : group ∈ groups cause docs) : group ⊆ docs := by
  obtain ⟨key, rfl, -⟩ := mem_groups h
  exact List.filter_subset_self _

theorem items_flatten_groups (key : PyStr) :
    itemsOf cause (groups cause docs).flatten key = itemsOf cause docs key := by
  by_cases hkey : itemsOf cause docs key = []
  · rw [hkey, itemsOf, List.filter_eq_nil_iff]
    intro doc hdoc
    obtain ⟨group, hgroup, hmem⟩ := List.mem_flatten.mp hdoc
    exact List.filter_eq_nil_iff.mp hkey doc (subset_of_mem_groups hgroup hmem)
  · obtain ⟨doc, hdoc⟩ := List.exists_mem_of_ne_nil _ hkey
    have hgroup : itemsOf cause docs (groupOf cause doc) ∈ groups cause docs :=
      items_mem_groups (List.mem_filter.mp hdoc).1
    rw [groupOf_of_mem hdoc] at hgroup
    obtain ⟨front, back, hsplit⟩ := List.append_of_mem hgroup
    have hpairwise : (groups cause docs).Pairwise fun group group' =>
        ∀ doc ∈ group, ∀ doc' ∈ group', groupOf cause doc ≠ groupOf cause doc' := pairwise_groups
    rw [hsplit] at hpairwise
    rw [List.pairwise_append, List.pairwise_cons] at hpairwise
    -- no item of another group has the key
    have hother : ∀ groups : List (List δ), (∀ group ∈ groups, ∀ other ∈ group, groupOf cause other ≠ key) →
        itemsOf cause groups.flatten key = [] := by
      intro groups h
      refine List.filter_eq_nil_iff.mpr fun other hmem => ?_
      obtain ⟨group, hgroup, hin⟩ := List.mem_flatten.mp hmem
      simpa using h group hgroup other hin
    have hfront := hother front fun group hgroup other hin => groupOf_of_mem hdoc ▸
      hpairwise.2.2 group hgroup _ List.mem_cons_self other hin doc hdoc
    have hback := hother back fun group hgroup other hin => groupOf_of_mem hdoc ▸
      (hpairwise.2.1.1 group hgroup doc hdoc other hin).symm
    rw [itemsOf] at hfront hback
    rw [hsplit, List.flatten_append, List.flatten_cons, itemsOf, List.filter_append, List.filter_append, hfront, hback,
      List.nil_append, List.append_nil, itemsOf, List.filter_filter]
    simp

theorem perm_flatten_groups : (groups cause docs).flatten.Perm docs := by
  refine List.perm_iff_count.mpr fun doc => ?_
  have hitems : (itemsOf cause (groups cause docs).flatten (groupOf cause doc)).count doc =
    (itemsOf cause docs (groupOf cause doc)).count doc := by rw [items_flatten_groups]
  rwa [itemsOf, itemsOf, List.count_filter (by simp), List.count_filter (by simp)] at hitems

/-! ### Batches -/

theorem length_of_mem_pieces {piece : List δ} (h : piece ∈ (groups cause docs).flatMap (pieces size)) :
    piece.length ≤ size := by
  obtain ⟨group, -, hpiece⟩ := List.mem_flatMap.mp h
  exact length_le_of_mem_pieces hpiece

/-- Two pieces share a group only where it is larger than a batch. -/
theorem pairwise_pieces (hsize : 1 ≤ size) : ((groups cause docs).flatMap (pieces size)).Pairwise
    (Across fun doc doc' => groupOf cause doc = groupOf cause doc' →
      size < (itemsOf cause docs (groupOf cause doc)).length) := by
  rw [List.pairwise_flatMap]
  constructor
  · intro group hgroup
    obtain ⟨key, rfl, -⟩ := mem_groups hgroup
    by_cases hfits : (itemsOf cause docs key).length ≤ size
    · exact pairwise_pieces_of_length_le hsize hfits
    · refine List.pairwise_of_forall_mem_list fun piece hpiece piece' _ doc hdoc doc' _ _ => ?_
      rw [groupOf_of_mem (subset_of_mem_pieces hpiece hdoc)]
      exact Nat.lt_of_not_le hfits
  · refine pairwise_groups.imp fun {group group'} hne piece hpiece piece' hpiece' doc hdoc doc' hdoc' heq => ?_
    exact absurd heq (hne doc (subset_of_mem_pieces hpiece hdoc) doc' (subset_of_mem_pieces hpiece' hdoc'))

theorem flatten_batches (hsize : 1 ≤ size) : (batches cause docs size).flatten = (groups cause docs).flatten := by
  rw [batches, flatten_pack fun _ hpiece => length_of_mem_pieces hpiece, List.flatMap_def, List.flatten_flatten, List.map_map]
  conv_rhs => rw [← List.map_id (groups cause docs)]
  exact congrArg List.flatten (List.map_congr_left fun group _ => flatten_pieces hsize group)

/-- **The batches partition the work list.** -/
theorem batches_partition (docs : List δ) {size : Nat} (hsize : 1 ≤ size) :
    Partitions cause docs size (batches cause docs size) := by
  have hpieces : ∀ piece ∈ (groups cause docs).flatMap (pieces size), piece.length ≤ size :=
    fun _ hpiece => length_of_mem_pieces hpiece
  have hflatten : (batches cause docs size).flatten = (groups cause docs).flatten := flatten_batches hsize
  refine ⟨?_, fun _ hbatch => bounds_of_mem_pack hpieces hbatch, pairwise_pack hpieces (pairwise_pieces hsize), ?_, ?_⟩
  · rw [hflatten]
    exact perm_flatten_groups
  · intro group
    rw [hflatten, items_flatten_groups]
  · rw [hflatten]
    exact pairwise_flatten_groups

/-- A group of two and one of four, in batches of three. -/
theorem batches_partition_parity : Partitions (fun n : Nat => some (py (if n < 5 then "a" else "b"))) [1, 5, 2, 6, 7, 8]
    3 (batches (fun n : Nat => some (py (if n < 5 then "a" else "b"))) [1, 5, 2, 6, 7, 8] 3) :=
  batches_partition [1, 5, 2, 6, 7, 8] (by decide)

example : batches (fun n : Nat => some (py (if n < 5 then "a" else "b"))) [1, 5, 2, 6, 7, 8] 3 =
    [[1, 2], [5, 6, 7], [8]] := by
  decide +kernel

end ContextLayer.Worklist
