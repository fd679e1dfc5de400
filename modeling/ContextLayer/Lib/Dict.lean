import Mathlib.Data.List.Induction
import Mathlib.Data.List.Perm.Subperm

/-!
# Insertion-ordered dictionaries

The dictionary of JavaScript (`Map`) and Python (`dict`): entries in the order their keys were first
set, with a later assignment to a key replacing its value in place.
-/

namespace Dict

variable {κ ν : Type} [DecidableEq κ]

/-- The value under a key. -/
def get? (d : List (κ × ν)) (k : κ) : Option ν := (d.find? fun e => decide (e.1 = k)).map Prod.snd

/-- Assignment to one key. -/
def set : List (κ × ν) → κ → ν → List (κ × ν)
  | [], k, v => [(k, v)]
  | (k', v') :: rest, k, v => if k' = k then (k', v) :: rest else (k', v') :: set rest k v

/-- Assigning a list of pairs, one after the other. -/
def ofList (pairs : List (κ × ν)) : List (κ × ν) := pairs.foldl (fun d p => set d p.1 p.2) []

@[simp]
theorem get?_nil (k : κ) : get? ([] : List (κ × ν)) k = none := rfl

theorem get?_cons (k' : κ) (v' : ν) (rest : List (κ × ν)) (k : κ) :
    get? ((k', v') :: rest) k = if k' = k then some v' else get? rest k := by
  by_cases h : k' = k <;> simp [get?, h]

@[simp]
theorem get?_set_self (d : List (κ × ν)) (k : κ) (v : ν) : get? (set d k v) k = some v := by
  induction d with
  | nil => simp [set, get?_cons]
  | cons e rest ih =>
      obtain ⟨k', v'⟩ := e
      by_cases h : k' = k <;> simp [set, h, get?_cons, ih]

theorem get?_set_ne (d : List (κ × ν)) {k k' : κ} (v : ν) (h : k ≠ k') :
    get? (set d k v) k' = get? d k' := by
  induction d with
  | nil => simp [set, get?_cons, h]
  | cons e rest ih =>
      obtain ⟨k₀, v₀⟩ := e
      by_cases hk : k₀ = k
      · subst hk
        simp [set, get?_cons, h]
      · simp [set, hk, get?_cons, ih]

theorem get?_set (d : List (κ × ν)) (k k' : κ) (v : ν) :
    get? (set d k v) k' = if k = k' then some v else get? d k' := by
  by_cases h : k = k'
  · subst h
    simp
  · simp [h, get?_set_ne d v h]

theorem mem_of_get? {d : List (κ × ν)} {k : κ} {v : ν} (h : get? d k = some v) : (k, v) ∈ d := by
  simp only [get?, Option.map_eq_some_iff, Prod.exists, exists_eq_right] at h
  obtain ⟨k', hfind⟩ := h
  have hk : k' = k := by simpa using List.find?_some hfind
  exact hk ▸ List.mem_of_find?_eq_some hfind

theorem mem_set {d : List (κ × ν)} {k : κ} {v : ν} {e : κ × ν} (h : e ∈ set d k v) :
    e ∈ d ∨ e = (k, v) := by
  induction d with
  | nil => exact .inr (List.mem_singleton.mp h)
  | cons e₀ rest ih =>
      obtain ⟨k₀, v₀⟩ := e₀
      by_cases hk : k₀ = k
      · subst hk
        rw [set, if_pos rfl, List.mem_cons] at h
        exact h.elim .inr fun hmem => .inl (List.mem_cons_of_mem _ hmem)
      · rw [set, if_neg hk, List.mem_cons] at h
        rcases h with rfl | hmem
        · exact .inl List.mem_cons_self
        · exact (ih hmem).imp_left (List.mem_cons_of_mem _)

theorem ofList_append_singleton (pairs : List (κ × ν)) (p : κ × ν) :
    ofList (pairs ++ [p]) = set (ofList pairs) p.1 p.2 := by
  simp [ofList]

/-- **The last assignment wins.** -/
theorem get?_ofList (pairs : List (κ × ν)) (k : κ) :
    get? (ofList pairs) k = get? pairs.reverse k := by
  induction pairs using List.reverseRecOn with
  | nil => rfl
  | append_singleton pairs p ih =>
      rw [ofList_append_singleton, get?_set, List.reverse_append, List.reverse_singleton,
        List.singleton_append, get?_cons, ih]

theorem mem_of_get?_ofList {pairs : List (κ × ν)} {k : κ} {v : ν}
    (h : get? (ofList pairs) k = some v) : (k, v) ∈ pairs := by
  rw [get?_ofList] at h
  exact List.mem_reverse.mp (mem_of_get? h)

/-- Assignment to a key that is not there yet. -/
def setDefault (d : List (κ × ν)) (k : κ) (v : ν) : List (κ × ν) :=
  if (get? d k).isSome then d else d ++ [(k, v)]

theorem isSome_get?_iff {d : List (κ × ν)} {k : κ} : (get? d k).isSome ↔ ∃ e ∈ d, e.1 = k := by
  simp [get?, List.find?_isSome]

/-- A key is present exactly when it was assigned. -/
theorem isSome_get?_ofList {pairs : List (κ × ν)} {k : κ} :
    (get? (ofList pairs) k).isSome ↔ ∃ p ∈ pairs, p.1 = k := by
  simp [get?_ofList, isSome_get?_iff]

/-! ### Entries -/

theorem set_eq_append {d : List (κ × ν)} {k : κ} (h : k ∉ d.map Prod.fst) (v : ν) :
    set d k v = d ++ [(k, v)] := by
  induction d with
  | nil => rfl
  | cons e rest ih =>
      rw [List.map_cons, List.mem_cons, not_or] at h
      rw [set, if_neg fun heq => h.1 heq.symm, ih h.2, List.cons_append]

/-- Nothing is lost where no key comes twice. -/
theorem ofList_eq_self {pairs : List (κ × ν)} (h : (pairs.map Prod.fst).Nodup) :
    ofList pairs = pairs := by
  induction pairs using List.reverseRecOn with
  | nil => rfl
  | append_singleton pairs p ih =>
      rw [List.map_append, List.nodup_append] at h
      rw [ofList_append_singleton, ih h.1, set_eq_append]
      exact fun hmem => h.2.2 _ hmem _ (List.mem_singleton_self _) rfl

theorem mem_of_mem_ofList {pairs : List (κ × ν)} {e : κ × ν} (h : e ∈ ofList pairs) : e ∈ pairs := by
  induction pairs using List.reverseRecOn with
  | nil => exact h
  | append_singleton pairs p ih =>
      rw [ofList_append_singleton] at h
      rcases mem_set h with hmem | rfl
      · exact List.mem_append_left _ (ih hmem)
      · exact List.mem_append_right _ List.mem_cons_self

theorem map_fst_set (d : List (κ × ν)) (k : κ) (v : ν) : (set d k v).map Prod.fst =
    if k ∈ d.map Prod.fst then d.map Prod.fst else d.map Prod.fst ++ [k] := by
  induction d with
  | nil => rfl
  | cons e rest ih =>
      obtain ⟨k₀, v₀⟩ := e
      by_cases hk : k₀ = k
      · subst hk
        simp [set]
      · have hne : k ≠ k₀ := fun h => hk h.symm
        by_cases hmem : k ∈ rest.map Prod.fst
        · rw [set, if_neg hk, List.map_cons, ih, if_pos hmem, List.map_cons,
            if_pos (List.mem_cons_of_mem _ hmem)]
        · rw [set, if_neg hk, List.map_cons, ih, if_neg hmem, List.map_cons,
            if_neg (List.not_mem_cons_of_ne_of_not_mem hne hmem), List.cons_append]

theorem nodup_set {d : List (κ × ν)} (h : (d.map Prod.fst).Nodup) (k : κ) (v : ν) :
    ((set d k v).map Prod.fst).Nodup := by
  rw [map_fst_set]
  by_cases hmem : k ∈ d.map Prod.fst
  · rw [if_pos hmem]
    exact h
  · rw [if_neg hmem]
    exact List.nodup_append.mpr ⟨h, List.pairwise_singleton _ k, fun a ha b hb heq =>
      hmem (List.mem_singleton.mp hb ▸ heq ▸ ha)⟩

theorem nodup_ofList (pairs : List (κ × ν)) : ((ofList pairs).map Prod.fst).Nodup := by
  induction pairs using List.reverseRecOn with
  | nil => exact List.nodup_nil
  | append_singleton pairs p ih =>
      rw [ofList_append_singleton]
      exact nodup_set ih p.1 p.2

/-- Where no pair replaces another one, the keys differ. -/
theorem nodup_of_length_ofList {pairs : List (κ × ν)} (h : (ofList pairs).length = pairs.length) :
    (pairs.map Prod.fst).Nodup := by
  have hsub : (ofList pairs).map Prod.fst ⊆ pairs.map Prod.fst :=
    List.map_subset _ fun _ he => mem_of_mem_ofList he
  have hperm := (List.subperm_of_subset (nodup_ofList pairs) hsub).perm_of_length_le (by simp [h])
  exact hperm.nodup_iff.mp (nodup_ofList pairs)

theorem get?_of_mem {d : List (κ × ν)} (h : (d.map Prod.fst).Nodup) {k : κ} {v : ν}
    (hmem : (k, v) ∈ d) : get? d k = some v := by
  induction d with
  | nil => cases hmem
  | cons e rest ih =>
      obtain ⟨k₀, v₀⟩ := e
      rw [List.map_cons, List.nodup_cons] at h
      obtain heq | hmem := List.mem_cons.mp hmem
      · obtain ⟨rfl, rfl⟩ := Prod.mk.inj heq
        rw [get?_cons, if_pos rfl]
      · have hne : k₀ ≠ k := fun heq => h.1 (List.mem_map.mpr ⟨_, hmem, heq.symm⟩)
        rw [get?_cons, if_neg hne, ih h.2 hmem]

theorem mem_iff_get? {d : List (κ × ν)} (h : (d.map Prod.fst).Nodup) {k : κ} {v : ν} :
    (k, v) ∈ d ↔ get? d k = some v :=
  ⟨get?_of_mem h, mem_of_get?⟩

theorem get?_append (d d' : List (κ × ν)) (k : κ) :
    get? (d ++ d') k = (get? d k).or (get? d' k) := by
  induction d with
  | nil => rfl
  | cons e rest ih =>
      obtain ⟨k₀, v₀⟩ := e
      rw [List.cons_append, get?_cons, get?_cons, ih]
      by_cases hk : k₀ = k
      · rw [if_pos hk, if_pos hk, Option.some_or]
      · rw [if_neg hk, if_neg hk]

theorem get?_setDefault (d : List (κ × ν)) (k : κ) (v : ν) (k' : κ) :
    get? (setDefault d k v) k' = (get? d k').or (get? [(k, v)] k') := by
  unfold setDefault
  by_cases hsome : (get? d k).isSome
  · rw [if_pos hsome]
    by_cases hk : k = k'
    · subst hk
      rw [Option.or_of_isSome hsome]
    · rw [get?_cons, if_neg hk, get?_nil, Option.or_none]
  · rw [if_neg hsome]
    exact get?_append d [(k, v)] k'

theorem nodup_setDefault {d : List (κ × ν)} (h : (d.map Prod.fst).Nodup) (k : κ) (v : ν) :
    ((setDefault d k v).map Prod.fst).Nodup := by
  unfold setDefault
  by_cases hsome : (get? d k).isSome
  · rwa [if_pos hsome]
  · rw [if_neg hsome, List.map_append]
    refine List.nodup_append.mpr ⟨h, List.pairwise_singleton _ k, fun a ha b hb heq => hsome ?_⟩
    obtain rfl := List.mem_singleton.mp hb
    obtain ⟨e, he, rfl⟩ := List.mem_map.mp ha
    exact isSome_get?_iff.mpr ⟨e, he, heq⟩

/-- **The first default wins.** -/
theorem foldl_setDefault (pairs : List (κ × ν)) :
    ((pairs.foldl (fun d p => setDefault d p.1 p.2) []).map Prod.fst).Nodup ∧
      ∀ k, get? (pairs.foldl (fun d p => setDefault d p.1 p.2) []) k = get? pairs k := by
  induction pairs using List.reverseRecOn with
  | nil => exact ⟨List.nodup_nil, fun _ => rfl⟩
  | append_singleton pairs p ih =>
      rw [List.foldl_append, List.foldl_cons, List.foldl_nil]
      refine ⟨nodup_setDefault ih.1 p.1 p.2, fun k => ?_⟩
      rw [get?_setDefault, ih.2, get?_append]

/-- What is kept of the keys is kept of what is under them. -/
theorem get?_filter_key (p : κ → Bool) (d : List (κ × ν)) (k : κ) :
    get? (d.filter fun e => p e.1) k = if p k then get? d k else none := by
  induction d with
  | nil => simp
  | cons e rest ih =>
      obtain ⟨k₀, v₀⟩ := e
      rw [List.filter_cons]
      by_cases hp : p k₀
      · rw [if_pos hp, get?_cons, get?_cons, ih]
        by_cases hk : k₀ = k
        · rw [if_pos hk, if_pos hk, if_pos (hk ▸ hp)]
        · rw [if_neg hk, if_neg hk]
      · rw [if_neg hp, ih, get?_cons]
        by_cases hk : k₀ = k
        · rw [if_neg (hk ▸ hp), if_neg (hk ▸ hp)]
        · rw [if_neg hk]

theorem get?_map_snd {ν' : Type} (f : ν → ν') (d : List (κ × ν)) (k : κ) :
    get? (d.map fun e => (e.1, f e.2)) k = (get? d k).map f := by
  induction d with
  | nil => rfl
  | cons e rest ih =>
      rw [List.map_cons, get?_cons, ih, get?_cons]
      by_cases hk : e.1 = k
      · rw [if_pos hk, if_pos hk, Option.map_some]
      · rw [if_neg hk, if_neg hk]

/-! ### Collecting under keys -/

section Collecting

variable {α : Type} (key : α → κ) (f : α → Option ν → ν)

/-- Each element is added to what is under its key. -/
def collect (d : List (κ × ν)) (l : List α) : List (κ × ν) :=
  l.foldl (fun d a => set d (key a) (f a (get? d (key a)))) d

theorem nodup_collect {d : List (κ × ν)} (h : (d.map Prod.fst).Nodup) (l : List α) :
    ((collect key f d l).map Prod.fst).Nodup := by
  induction l generalizing d with
  | nil => exact h
  | cons a rest ih => exact ih (nodup_set h _ _)

/-- **Only its own elements** reach what is under a key. -/
theorem get?_collect (d : List (κ × ν)) (l : List α) (k : κ) : get? (collect key f d l) k =
    (l.filter fun a => key a = k).foldl (fun v a => some (f a v)) (get? d k) := by
  induction l generalizing d with
  | nil => rfl
  | cons a rest ih =>
      rw [collect, List.foldl_cons, ← collect, ih, List.filter_cons, get?_set]
      by_cases hk : key a = k
      · subst hk
        simp
      · rw [if_neg hk, if_neg (by simpa using hk)]

theorem mem_keys_collect (d : List (κ × ν)) (l : List α) (k : κ) :
    k ∈ (collect key f d l).map Prod.fst ↔ k ∈ d.map Prod.fst ∨ k ∈ l.map key := by
  induction l generalizing d with
  | nil => simp [collect]
  | cons a rest ih =>
      rw [collect, List.foldl_cons, ← collect, ih, map_fst_set, List.map_cons, List.mem_cons]
      by_cases hmem : key a ∈ d.map Prod.fst
      · rw [if_pos hmem]
        exact ⟨fun h => h.imp_right .inr, fun h => h.elim .inl fun h =>
          h.elim (fun heq => .inl (heq ▸ hmem)) .inr⟩
      · rw [if_neg hmem, List.mem_append, List.mem_singleton, or_assoc]

end Collecting

/-- An index by a key holds the last of the elements of each. -/
theorem get?_index {α : Type} (key : α → κ) (l : List α) (k : κ) :
    get? (ofList (l.map fun a => (key a, a))) k = (l.filter fun a => key a = k).getLast? := by
  rw [get?_ofList, List.getLast?_filter, get?, ← List.map_reverse, List.find?_map, Option.map_map]
  exact Option.map_id'

end Dict
