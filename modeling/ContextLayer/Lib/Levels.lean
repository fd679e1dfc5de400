import Mathlib.Data.List.Nodup
import Mathlib.Data.List.Flatten

/-!
# Searching by levels

A search goes from a node along its steps, visits every node once and stops after a number of levels. What it visits
are the nodes within that many steps, what it takes are the steps out of those within one less, and it comes to no
node twice exactly when these lead to different nodes. A loop over levels and a loop over a queue of nodes with their
depths do the same.
-/

namespace Levels

/-- A step of a search: where from, along what, where to. -/
structure Hop (α β : Type) where
  source : α
  label : β
  target : α

variable {α β : Type} {steps : α → List (β × α)} {start : α}

/-! ### Nodes within a number of steps -/

inductive Within (steps : α → List (β × α)) (start : α) : Nat → α → Prop
  | start (n : Nat) : Within steps start n start
  | step {n : Nat} {a b : α} {label : β} :
      Within steps start n a → (label, b) ∈ steps a → Within steps start (n + 1) b

theorem Within.succ {n : Nat} {a : α} (h : Within steps start n a) : Within steps start (n + 1) a := by
  induction h with
  | start n => exact .start _
  | step _ hstep ih => exact .step ih hstep

theorem Within.mono {m n : Nat} {a : α} (h : Within steps start m a) (hmn : m ≤ n) : Within steps start n a := by
  induction hmn with
  | refl => exact h
  | step _ ih => exact ih.succ

theorem within_zero {a : α} : Within steps start 0 a ↔ a = start := by
  constructor
  · intro h
    cases h
    rfl
  · rintro rfl
    exact .start 0

theorem within_succ {n : Nat} {b : α} : Within steps start (n + 1) b ↔
    b = start ∨ ∃ a label, Within steps start n a ∧ (label, b) ∈ steps a := by
  constructor
  · intro h
    cases h with
    | start => exact Or.inl rfl
    | step ha hstep => exact Or.inr ⟨_, _, ha, hstep⟩
  · rintro (rfl | ⟨a, label, ha, hstep⟩)
    · exact .start _
    · exact .step ha hstep

/-! ### The steps out of nodes -/

variable (steps) in
def hops (nodes : List α) : List (Hop α β) := nodes.flatMap fun a => (steps a).map fun s => ⟨a, s.1, s.2⟩

theorem mem_hops {nodes : List α} {h : Hop α β} :
    h ∈ hops steps nodes ↔ h.source ∈ nodes ∧ (h.label, h.target) ∈ steps h.source := by
  unfold hops
  simp only [List.mem_flatMap, List.mem_map]
  constructor
  · rintro ⟨a, ha, s, hs, rfl⟩
    exact ⟨ha, hs⟩
  · rintro ⟨ha, hs⟩
    exact ⟨h.source, ha, _, hs, rfl⟩

theorem hops_append (nodes nodes' : List α) :
    hops steps (nodes ++ nodes') = hops steps nodes ++ hops steps nodes' := List.flatMap_append

variable [DecidableEq α]

/-! ### What is new -/

/-- The nodes of a list that have not been seen, each once. -/
def fresh (seen : List α) : List α → List α
  | [] => []
  | b :: rest => if b ∈ seen then fresh seen rest else b :: fresh (seen ++ [b]) rest

theorem mem_fresh {seen l : List α} {a : α} : a ∈ fresh seen l ↔ a ∈ l ∧ a ∉ seen := by
  induction l generalizing seen with
  | nil => simp [fresh]
  | cons b rest ih =>
      unfold fresh
      by_cases hb : b ∈ seen
      · rw [if_pos hb, ih, List.mem_cons]
        constructor
        · rintro ⟨ha, hseen⟩
          exact ⟨Or.inr ha, hseen⟩
        · rintro ⟨rfl | ha, hseen⟩
          · exact absurd hb hseen
          · exact ⟨ha, hseen⟩
      · rw [if_neg hb, List.mem_cons, List.mem_cons, ih, List.mem_append, List.mem_singleton]
        by_cases hab : a = b
        · subst hab
          simp [hb]
        · simp [hab]

theorem mem_append_fresh {seen l : List α} {a : α} : a ∈ seen ++ fresh seen l ↔ a ∈ seen ++ l := by
  rw [List.mem_append, List.mem_append, mem_fresh]
  tauto

theorem fresh_append (seen l l' : List α) :
    fresh seen (l ++ l') = fresh seen l ++ fresh (seen ++ fresh seen l) l' := by
  induction l generalizing seen with
  | nil => simp [fresh]
  | cons b rest ih =>
      rw [List.cons_append, fresh, fresh]
      by_cases hb : b ∈ seen
      · rw [if_pos hb, if_pos hb, ih]
      · rw [if_neg hb, if_neg hb, ih, List.cons_append, List.append_assoc, List.singleton_append]

theorem nodup_append_fresh {seen : List α} (h : seen.Nodup) (l : List α) : (seen ++ fresh seen l).Nodup := by
  induction l generalizing seen with
  | nil => simpa [fresh] using h
  | cons b rest ih =>
      unfold fresh
      by_cases hb : b ∈ seen
      · rw [if_pos hb]
        exact ih h
      · rw [if_neg hb, List.append_cons]
        exact ih (List.nodup_append'.mpr ⟨h, List.nodup_singleton b, List.disjoint_singleton.mpr hb⟩)

/-! ### Level by level -/

variable (steps start) in
/-- What has been seen after `n` levels, and the last of them. -/
def level : Nat → List α × List α
  | 0 => ([start], [start])
  | n + 1 =>
      let new := fresh (level n).1 ((hops steps (level n).2).map Hop.target)
      ((level n).1 ++ new, new)

variable (steps start) in
def taken : Nat → List (Hop α β)
  | 0 => []
  | n + 1 => taken n ++ hops steps (level steps start n).2

variable (steps start) in
/-- The last level ends what has been seen, and the steps out of the levels before lead to nodes seen. -/
theorem level_split (n : Nat) : ∃ earlier, (level steps start n).1 = earlier ++ (level steps start n).2 ∧
    ∀ h ∈ hops steps earlier, h.target ∈ (level steps start n).1 := by
  induction n with
  | zero => exact ⟨[], rfl, fun h hh => absurd (mem_hops.mp hh).1 List.not_mem_nil⟩
  | succ n ih =>
      obtain ⟨earlier, hsplit, hclosed⟩ := ih
      refine ⟨(level steps start n).1, rfl, fun h hh => ?_⟩
      show h.target ∈ (level steps start n).1 ++ _
      by_cases hseen : h.target ∈ (level steps start n).1
      · exact List.mem_append_left _ hseen
      · rw [hsplit, hops_append] at hh
        rcases List.mem_append.mp hh with hh | hh
        · exact absurd (hclosed h hh) hseen
        · exact List.mem_append_right _ (mem_fresh.mpr ⟨List.mem_map_of_mem hh, hseen⟩)

theorem last_subset (n : Nat) : (level steps start n).2 ⊆ (level steps start n).1 := by
  obtain ⟨earlier, hsplit, -⟩ := level_split steps start n
  rw [hsplit]
  exact List.subset_append_right _ _

/-- **What is seen** is what lies within as many steps as there are levels. -/
theorem mem_level {n : Nat} {a : α} : a ∈ (level steps start n).1 ↔ Within steps start n a := by
  induction n generalizing a with
  | zero => rw [within_zero, level, List.mem_singleton]
  | succ n ih =>
      constructor
      · intro ha
        rcases List.mem_append.mp ha with ha | ha
        · exact (ih.mp ha).succ
        · obtain ⟨h, hh, rfl⟩ := List.mem_map.mp (mem_fresh.mp ha).1
          obtain ⟨hsource, hstep⟩ := mem_hops.mp hh
          exact .step (ih.mp (last_subset n hsource)) hstep
      · intro ha
        rcases within_succ.mp ha with rfl | ⟨b, label, hb, hstep⟩
        · exact List.mem_append_left _ (ih.mpr (.start n))
        · obtain ⟨earlier, hsplit, hclosed⟩ := level_split steps start (n + 1)
          obtain rfl : earlier = (level steps start n).1 := List.append_cancel_right hsplit.symm
          exact hclosed ⟨b, label, a⟩ (mem_hops.mpr ⟨ih.mpr hb, hstep⟩)

/-- The last level is what takes as many steps as there are levels. -/
theorem mem_last {n : Nat} {a : α} : a ∈ (level steps start (n + 1)).2 ↔
    Within steps start (n + 1) a ∧ ¬ Within steps start n a := by
  rw [← mem_level, ← mem_level]
  constructor
  · intro ha
    exact ⟨List.mem_append_right _ ha, (mem_fresh.mp ha).2⟩
  · rintro ⟨ha, hnew⟩
    exact (List.mem_append.mp ha).resolve_left hnew

theorem taken_succ (n : Nat) : taken steps start (n + 1) = hops steps (level steps start n).1 := by
  induction n with
  | zero => rfl
  | succ n ih =>
      calc taken steps start (n + 2)
          = taken steps start (n + 1) ++ hops steps (level steps start (n + 1)).2 := rfl
        _ = hops steps (level steps start n).1 ++ hops steps (level steps start (n + 1)).2 := by rw [ih]
        _ = hops steps (level steps start (n + 1)).1 := (hops_append _ _).symm

theorem mem_taken {n : Nat} {h : Hop α β} : h ∈ taken steps start (n + 1) ↔
    Within steps start n h.source ∧ (h.label, h.target) ∈ steps h.source := by
  rw [taken_succ, mem_hops, mem_level]

theorem nodup_level (n : Nat) : (level steps start n).1.Nodup := by
  induction n with
  | zero => exact List.nodup_singleton start
  | succ n ih => exact nodup_append_fresh ih _

/-! ### Coming to a node again -/

/-- Some step leads to a node seen before, other than the one it comes from. -/
def revisits (seen : List α) : List (Hop α β) → Bool
  | [] => false
  | h :: rest => decide (h.target ∈ seen ∧ h.target ≠ h.source) || revisits (seen ++ [h.target]) rest

/-- A step to another node. -/
def away (h : Hop α β) : Bool := decide (h.target ≠ h.source)

theorem revisits_congr {seen seen' : List α} (h : ∀ a, a ∈ seen ↔ a ∈ seen') (l : List (Hop α β)) :
    revisits seen l = revisits seen' l := by
  induction l generalizing seen seen' with
  | nil => rfl
  | cons hop rest ih =>
      have hrest : ∀ a, a ∈ seen ++ [hop.target] ↔ a ∈ seen' ++ [hop.target] := fun a => by
        rw [List.mem_append, List.mem_append, h a]
      simp only [revisits, h hop.target, ih hrest]

theorem revisits_append (seen : List α) (l l' : List (Hop α β)) :
    revisits seen (l ++ l') = (revisits seen l || revisits (seen ++ l.map Hop.target) l') := by
  induction l generalizing seen with
  | nil => simp [revisits]
  | cons hop rest ih =>
      rw [List.cons_append, revisits, revisits, ih, Bool.or_assoc, List.append_assoc, List.map_cons,
        List.singleton_append]

/-- Steps from nodes seen come to none of them again exactly when they lead to new and different nodes. -/
theorem revisits_eq_false {seen : List α} {l : List (Hop α β)} (hl : ∀ h ∈ l, h.source ∈ seen) :
    revisits seen l = false ↔ ((l.filter away).map Hop.target).Nodup ∧
      ∀ h ∈ l, away h = true → h.target ∉ seen := by
  induction l generalizing seen with
  | nil => simp [revisits]
  | cons hop rest ih =>
      have hrest : ∀ h ∈ rest, h.source ∈ seen ++ [hop.target] :=
        fun h hh => List.mem_append_left _ (hl h (List.mem_cons_of_mem _ hh))
      rw [revisits, Bool.or_eq_false_iff, decide_eq_false_iff_not, ih hrest]
      by_cases haway : away hop = true
      · have hne : hop.target ≠ hop.source := of_decide_eq_true haway
        rw [List.filter_cons_of_pos haway, List.map_cons, List.nodup_cons]
        constructor
        · rintro ⟨hnew, hnodup, hothers⟩
          refine ⟨⟨fun hmem => ?_, hnodup⟩, fun h hh haway' => ?_⟩
          · obtain ⟨h, hh, heq⟩ := List.mem_map.mp hmem
            obtain ⟨hh, haway'⟩ := List.mem_filter.mp hh
            exact hothers h hh haway' (List.mem_append_right _ (List.mem_singleton.mpr heq))
          · rcases List.mem_cons.mp hh with rfl | hh
            · exact fun hseen => hnew ⟨hseen, hne⟩
            · exact fun hseen => hothers h hh haway' (List.mem_append_left _ hseen)
        · rintro ⟨⟨hnot, hnodup⟩, hall⟩
          refine ⟨fun hseen => hall hop List.mem_cons_self haway hseen.1, hnodup, fun h hh haway' hseen => ?_⟩
          rcases List.mem_append.mp hseen with hseen | hseen
          · exact hall h (List.mem_cons_of_mem _ hh) haway' hseen
          · have heq := List.mem_singleton.mp hseen
            exact hnot (heq ▸ List.mem_map_of_mem (List.mem_filter.mpr ⟨hh, haway'⟩))
      · have heq : hop.target = hop.source := by
          by_contra hne
          exact haway (decide_eq_true hne)
        have hseen : hop.target ∈ seen := heq ▸ hl hop List.mem_cons_self
        rw [List.filter_cons_of_neg haway]
        constructor
        · rintro ⟨-, hnodup, hothers⟩
          refine ⟨hnodup, fun h hh haway' => ?_⟩
          rcases List.mem_cons.mp hh with rfl | hh
          · exact absurd haway' haway
          · exact fun hmem => hothers h hh haway' (List.mem_append_left _ hmem)
        · rintro ⟨hnodup, hall⟩
          refine ⟨fun h => h.2 heq, hnodup, fun h hh haway' hmem => ?_⟩
          have hnot := hall h (List.mem_cons_of_mem _ hh) haway'
          rcases List.mem_append.mp hmem with hmem | hmem
          · exact hnot hmem
          · exact hnot (List.mem_singleton.mp hmem ▸ hseen)

/-- What is seen after some levels is the start and where the steps taken lead. -/
theorem mem_level_iff_taken {n : Nat} {a : α} : a ∈ (level steps start n).1 ↔
    a = start ∨ ∃ h ∈ taken steps start n, away h = true ∧ h.target = a := by
  induction n with
  | zero => simp [level, taken]
  | succ n ih =>
      constructor
      · intro ha
        rcases List.mem_append.mp ha with ha | ha
        · rcases ih.mp ha with rfl | ⟨h, hh, haway, rfl⟩
          · exact Or.inl rfl
          · exact Or.inr ⟨h, List.mem_append_left _ hh, haway, rfl⟩
        · obtain ⟨hmem, hnot⟩ := mem_fresh.mp ha
          obtain ⟨h, hh, rfl⟩ := List.mem_map.mp hmem
          refine Or.inr ⟨h, List.mem_append_right _ hh, decide_eq_true fun heq => ?_, rfl⟩
          exact hnot (heq ▸ last_subset n (mem_hops.mp hh).1)
      · rintro (rfl | ⟨h, hh, -, rfl⟩)
        · exact mem_level.mpr (.start _)
        · obtain ⟨hsource, hstep⟩ := mem_taken.mp hh
          exact mem_level.mpr (.step hsource hstep)

/-- **Coming to a node again.** The steps taken come to no node again exactly when those to another node lead to
different nodes, none of them the start. -/
theorem revisits_taken_eq_false (n : Nat) : revisits [start] (taken steps start n) = false ↔
    (start :: ((taken steps start n).filter away).map Hop.target).Nodup := by
  induction n with
  | zero => simp [taken, revisits]
  | succ n ih =>
      have hseen : ∀ a, a ∈ [start] ++ (taken steps start n).map Hop.target ↔ a ∈ (level steps start n).1 := by
        intro a
        rw [List.mem_append, List.mem_singleton]
        constructor
        · rintro (rfl | ha)
          · exact mem_level.mpr (.start n)
          · obtain ⟨h, hh, rfl⟩ := List.mem_map.mp ha
            cases n with
            | zero => exact absurd hh List.not_mem_nil
            | succ n =>
                obtain ⟨hsource, hstep⟩ := mem_taken.mp hh
                exact mem_level.mpr (.step hsource hstep)
        · intro ha
          rcases mem_level_iff_taken.mp ha with rfl | ⟨h, hh, -, rfl⟩
          · exact Or.inl rfl
          · exact Or.inr (List.mem_map_of_mem hh)
      have hsources : ∀ h ∈ hops steps (level steps start n).2, h.source ∈ (level steps start n).1 :=
        fun h hh => last_subset n (mem_hops.mp hh).1
      rw [taken, revisits_append, Bool.or_eq_false_iff, ih, revisits_congr hseen, revisits_eq_false hsources,
        List.filter_append, List.map_append, ← List.cons_append, List.nodup_append']
      refine and_congr_right fun _ => and_congr_right fun _ => ?_
      constructor
      · intro hnew a ha ha'
        obtain ⟨h, hh, rfl⟩ := List.mem_map.mp ha'
        obtain ⟨hh, haway⟩ := List.mem_filter.mp hh
        refine hnew h hh haway (mem_level_iff_taken.mpr ?_)
        rcases List.mem_cons.mp ha with heq | ha
        · exact Or.inl heq
        · obtain ⟨h', hh', heq⟩ := List.mem_map.mp ha
          obtain ⟨hh', haway'⟩ := List.mem_filter.mp hh'
          exact Or.inr ⟨h', hh', haway', heq⟩
      · intro hdisjoint h hh haway hmem
        refine hdisjoint (a := h.target) ?_ (List.mem_map_of_mem (List.mem_filter.mpr ⟨hh, haway⟩))
        rcases mem_level_iff_taken.mp hmem with heq | ⟨h', hh', haway', heq⟩
        · rw [heq]
          exact List.mem_cons_self
        · exact List.mem_cons_of_mem _ (heq ▸ List.mem_map_of_mem (List.mem_filter.mpr ⟨hh', haway'⟩))

theorem nodup_taken_away (hsteps : ∀ a, ((steps a).filter fun s => decide (s.2 ≠ a)).Nodup) (n : Nat) :
    ((taken steps start n).filter away).Nodup := by
  cases n with
  | zero => exact List.nodup_nil
  | succ n =>
      rw [taken_succ, hops, List.filter_flatMap]
      refine List.nodup_flatMap.mpr ⟨fun a _ => ?_, (nodup_level n).imp ?_⟩
      · rw [List.filter_map]
        refine (hsteps a).map fun s s' heq => ?_
        exact Prod.ext (congrArg Hop.label heq) (congrArg Hop.target heq)
      · intro a a' hne h hmem hmem'
        obtain ⟨s, -, rfl⟩ := List.mem_map.mp (List.mem_filter.mp hmem).1
        obtain ⟨s', -, heq⟩ := List.mem_map.mp (List.mem_filter.mp hmem').1
        exact hne (congrArg Hop.source heq).symm

/-- Two steps that meet, or one that leads back to the start. -/
theorem revisits_taken (hsteps : ∀ a, ((steps a).filter fun s => decide (s.2 ≠ a)).Nodup) (n : Nat) :
    revisits [start] (taken steps start n) = true ↔ ∃ h ∈ taken steps start n, away h = true ∧
      (h.target = start ∨ ∃ h' ∈ taken steps start n, away h' = true ∧ h' ≠ h ∧ h'.target = h.target) := by
  rw [← Bool.not_eq_false, not_iff_comm, revisits_taken_eq_false, List.nodup_cons,
    List.nodup_map_iff_inj_on (nodup_taken_away hsteps n)]
  constructor
  · intro hnone
    refine ⟨fun hmem => ?_, fun h hh h' hh' heq => ?_⟩
    · obtain ⟨h, hh, heq⟩ := List.mem_map.mp hmem
      obtain ⟨hh, haway⟩ := List.mem_filter.mp hh
      exact hnone ⟨h, hh, haway, Or.inl heq⟩
    · obtain ⟨hh, haway⟩ := List.mem_filter.mp hh
      obtain ⟨hh', haway'⟩ := List.mem_filter.mp hh'
      by_contra hne
      exact hnone ⟨h, hh, haway, Or.inr ⟨h', hh', haway', Ne.symm hne, heq.symm⟩⟩
  · rintro ⟨hstart, hinj⟩ ⟨h, hh, haway, heq | ⟨h', hh', haway', hne, heq⟩⟩
    · exact hstart (List.mem_map.mpr ⟨h, List.mem_filter.mpr ⟨hh, haway⟩, heq⟩)
    · exact hne (hinj h' (List.mem_filter.mpr ⟨hh', haway'⟩) h (List.mem_filter.mpr ⟨hh, haway⟩) heq)

/-! ### Two loops -/

section

variable {σ : Type} (expand : Nat → α → σ → List α × σ)

/-- The nodes of one level in turn, with what is new beyond them. -/
def sweep (d : Nat) : List α → σ → List α × σ
  | [], s => ([], s)
  | a :: rest, s =>
      let out := expand d a s
      let out' := sweep d rest out.2
      (out.1 ++ out'.1, out'.2)

/-- A number of levels, from depth `d` on. -/
def rounds : Nat → Nat → List α → σ → σ
  | 0, _, _, s => s
  | n + 1, d, nodes, s =>
      let out := sweep expand d nodes s
      rounds n (d + 1) out.1 out.2

/-- How many nodes the levels have. -/
def expanded : Nat → Nat → List α → σ → Nat
  | 0, _, _, _ => 0
  | n + 1, d, nodes, s =>
      let out := sweep expand d nodes s
      nodes.length + expanded n (d + 1) out.1 out.2

/-- A queue of nodes with their depths; a node at full depth is dropped. -/
def drain (full : Nat → Bool) : Nat → List (α × Nat) → σ → σ
  | 0, _, s => s
  | _ + 1, [], s => s
  | fuel + 1, (a, d) :: queue, s =>
      if full d then drain full fuel queue s
      else
        let out := expand d a s
        drain full fuel (queue ++ out.1.map (·, d + 1)) out.2

/-- The nodes that are new on each level, with its depth. -/
def logged : Nat → Nat → List α → σ → List (α × Nat)
  | 0, _, _, _ => []
  | n + 1, d, nodes, s =>
      let out := sweep expand d nodes s
      out.1.map (·, d + 1) ++ logged n (d + 1) out.1 out.2

variable {expand} {full : Nat → Bool}

omit [DecidableEq α] in
/-- A node that is drained is no deeper than the queue and the turns before it. -/
theorem drain_congr {full' : Nat → Bool} {fuel k : Nat} {queue : List (α × Nat)} {s : σ} (hqueue : ∀ e ∈ queue, e.2 ≤ k)
    (h : ∀ d < k + fuel, full d = full' d) : drain expand full fuel queue s = drain expand full' fuel queue s := by
  induction fuel generalizing k queue s with
  | zero => rfl
  | succ fuel ih =>
      cases queue with
      | nil => rfl
      | cons e queue =>
          obtain ⟨a, d⟩ := e
          have hd : d ≤ k := hqueue _ List.mem_cons_self
          have hrest : ∀ e ∈ queue, e.2 ≤ k + 1 := fun e he =>
            Nat.le_succ_of_le (hqueue e (List.mem_cons_of_mem _ he))
          rw [drain, drain, h d (by omega)]
          by_cases hfull : full' d = true
          · rw [if_pos hfull, if_pos hfull]
            exact ih (k := k + 1) hrest fun d' hd' => h d' (by omega)
          · rw [if_neg hfull, if_neg hfull]
            refine ih (k := k + 1) (fun e he => ?_) fun d' hd' => h d' (by omega)
            obtain he | he := List.mem_append.mp he
            · exact hrest e he
            · obtain ⟨b, -, rfl⟩ := List.mem_map.mp he
              exact Nat.succ_le_succ hd

omit [DecidableEq α] in
theorem drain_full {queue : List (α × Nat)} (h : ∀ e ∈ queue, full e.2 = true) (fuel : Nat) (s : σ) :
    drain expand full fuel queue s = s := by
  induction fuel generalizing queue with
  | zero => rfl
  | succ fuel ih =>
      cases queue with
      | nil => rfl
      | cons e queue =>
          rw [drain, if_pos (h e List.mem_cons_self)]
          exact ih fun e' he' => h e' (List.mem_cons_of_mem _ he')

omit [DecidableEq α] in
theorem rounds_nil (n d : Nat) (s : σ) : rounds expand n d [] s = s := by
  induction n generalizing d with
  | zero => rfl
  | succ n ih => exact ih (d + 1)

section Congr

variable {expand' : Nat → α → σ → List α × σ} {p : α → Prop}
  (hsame : ∀ d a s, p a → expand d a s = expand' d a s) (hstay : ∀ d a s, p a → ∀ b ∈ (expand d a s).1, p b)

include hsame hstay

omit [DecidableEq α] in
theorem sweep_congr {d : Nat} {nodes : List α} (hnodes : ∀ a ∈ nodes, p a) (s : σ) :
    sweep expand d nodes s = sweep expand' d nodes s ∧ ∀ b ∈ (sweep expand d nodes s).1, p b := by
  induction nodes generalizing s with
  | nil => exact ⟨rfl, fun b hb => absurd hb List.not_mem_nil⟩
  | cons a rest ih =>
      have ha := hnodes a List.mem_cons_self
      have hrest := ih (fun b hb => hnodes b (List.mem_cons_of_mem _ hb)) (expand d a s).2
      constructor
      · rw [sweep, sweep, ← hsame d a s ha, hrest.1]
      · intro b hb
        rw [sweep, List.mem_append] at hb
        exact hb.elim (hstay d a s ha b) (hrest.2 b)

omit [DecidableEq α] in
/-- Two loops are one where they do the same at every node they can come to. -/
theorem rounds_congr (n d : Nat) {nodes : List α} (hnodes : ∀ a ∈ nodes, p a) (s : σ) :
    rounds expand n d nodes s = rounds expand' n d nodes s := by
  induction n generalizing d nodes s with
  | zero => rfl
  | succ n ih =>
      have hsweep := sweep_congr hsame hstay (d := d) hnodes s
      rw [rounds, rounds, ← hsweep.1]
      exact ih (d + 1) hsweep.2 _

end Congr

omit [DecidableEq α] in
/-- **A queue goes by levels.** -/
theorem drain_eq {bound : Nat} (hfull : ∀ d, full d = decide (bound ≤ d)) (fuel n k : Nat) (hk : k + n + 1 = bound)
    (nodes later : List α) (s : σ)
    (hfuel : nodes.length + expanded expand n (k + 1) (later ++ (sweep expand k nodes s).1)
      (sweep expand k nodes s).2 ≤ fuel) :
    drain expand full fuel (nodes.map (·, k) ++ later.map (·, k + 1)) s =
      rounds expand n (k + 1) (later ++ (sweep expand k nodes s).1) (sweep expand k nodes s).2 := by
  induction fuel generalizing n k nodes later s with
  | zero =>
      obtain rfl := List.length_eq_zero_iff.mp (Nat.eq_zero_of_add_eq_zero (Nat.le_zero.mp hfuel)).1
      cases n with
      | zero => rfl
      | succ n =>
          have hnone : later.length = 0 := by
            simp only [sweep, expanded, List.length_nil, List.append_nil] at hfuel
            omega
          obtain rfl := List.length_eq_zero_iff.mp hnone
          exact (rounds_nil _ _ s).symm
  | succ fuel ih =>
      have hcons : ∀ (n k : Nat), k + n + 1 = bound → ∀ (a : α) (rest later : List α) (s : σ),
          (a :: rest).length + expanded expand n (k + 1) (later ++ (sweep expand k (a :: rest) s).1)
            (sweep expand k (a :: rest) s).2 ≤ fuel + 1 →
          drain expand full (fuel + 1) ((a :: rest).map (·, k) ++ later.map (·, k + 1)) s =
            rounds expand n (k + 1) (later ++ (sweep expand k (a :: rest) s).1)
              (sweep expand k (a :: rest) s).2 := by
        intro n k hk a rest later s hfuel
        have hopen : ¬ full k = true := by
          rw [hfull, decide_eq_true_eq]
          omega
        have hsweep : sweep expand k (a :: rest) s = ((expand k a s).1 ++ (sweep expand k rest (expand k a s).2).1,
            (sweep expand k rest (expand k a s).2).2) := rfl
        have hqueue : rest.map (·, k) ++ later.map (·, k + 1) ++ (expand k a s).1.map (·, k + 1) =
            rest.map (·, k) ++ (later ++ (expand k a s).1).map (·, k + 1) := by
          rw [List.map_append, List.append_assoc]
        rw [hsweep] at hfuel
        dsimp only at hfuel
        rw [← List.append_assoc, List.length_cons] at hfuel
        rw [List.map_cons, List.cons_append, drain, if_neg hopen]
        dsimp only
        rw [hqueue, hsweep, ← List.append_assoc]
        exact ih n k hk rest (later ++ (expand k a s).1) (expand k a s).2 (by omega)
      cases nodes with
      | cons a rest => exact hcons n k hk a rest later s hfuel
      | nil =>
          -- This level is done: the next one is at the head of the queue.
          simp only [sweep, List.map_nil, List.nil_append, List.append_nil, List.length_nil, Nat.zero_add] at hfuel ⊢
          cases n with
          | zero =>
              refine drain_full (fun e he => ?_) _ _
              obtain ⟨a, -, rfl⟩ := List.mem_map.mp he
              rw [hfull, decide_eq_true_eq]
              omega
          | succ n =>
              cases later with
              | nil =>
                  rw [rounds_nil]
                  rfl
              | cons a rest =>
                  have hnext := hcons n (k + 1) (by omega) a rest [] s hfuel
                  rwa [List.map_nil, List.append_nil, List.nil_append] at hnext

/-! ### What the loops see -/

/-- The state stands for what has been seen and taken, and a node adds its own. -/
structure Tracking (steps : α → List (β × α)) (expand : Nat → α → σ → List α × σ)
    (Tracks : List α → List (Hop α β) → σ → Prop) : Prop where
  new : ∀ {d a seen taken s}, Tracks seen taken s →
    (expand d a s).1 = fresh seen ((hops steps [a]).map Hop.target)
  next : ∀ {d a seen taken s}, Tracks seen taken s →
    Tracks (seen ++ (expand d a s).1) (taken ++ hops steps [a]) (expand d a s).2

variable {Tracks : List α → List (Hop α β) → σ → Prop}

theorem Tracking.sweep (h : Tracking steps expand Tracks) (d : Nat) (nodes : List α) {seen : List α}
    {taken : List (Hop α β)} {s : σ} (hs : Tracks seen taken s) :
    (sweep expand d nodes s).1 = fresh seen ((hops steps nodes).map Hop.target) ∧
      Tracks (seen ++ (Levels.sweep expand d nodes s).1) (taken ++ hops steps nodes)
        (Levels.sweep expand d nodes s).2 := by
  induction nodes generalizing seen taken s with
  | nil => exact ⟨rfl, by simpa [Levels.sweep, hops] using hs⟩
  | cons a rest ih =>
      obtain ⟨hnew, hnext⟩ := ih (h.next (d := d) (a := a) hs)
      have hhops : hops steps (a :: rest) = hops steps [a] ++ hops steps rest := hops_append [a] rest
      simp only [Levels.sweep]
      rw [hhops, List.map_append, fresh_append, hnew, ← h.new (d := d) hs]
      refine ⟨rfl, ?_⟩
      rw [hnew] at hnext
      simpa only [List.append_assoc] using hnext

/-- **Rounds go by levels.** -/
theorem Tracking.rounds (h : Tracking steps expand Tracks) (n : Nat) {k : Nat} {s : σ}
    (hs : Tracks (level steps start k).1 (taken steps start k) s) :
    Tracks (level steps start (k + n)).1 (taken steps start (k + n))
      (rounds expand n k (level steps start k).2 s) := by
  induction n generalizing k s with
  | zero => exact hs
  | succ n ih =>
      obtain ⟨hnew, hnext⟩ := h.sweep k (level steps start k).2 hs
      rw [hnew] at hnext
      have hround := ih (k := k + 1) hnext
      rw [Nat.add_right_comm, Nat.add_assoc] at hround
      have hlevel : (level steps start (k + 1)).2 = (Levels.sweep expand k (level steps start k).2 s).1 := hnew.symm
      rwa [hlevel] at hround

theorem Tracking.expanded (h : Tracking steps expand Tracks) (n : Nat) {k : Nat} {s : σ}
    (hs : Tracks (level steps start k).1 (taken steps start k) s) :
    expanded expand n k (level steps start k).2 s + (level steps start k).1.length +
        (level steps start (k + n)).2.length =
      (level steps start (k + n)).1.length + (level steps start k).2.length := by
  induction n generalizing k s with
  | zero => simp only [Levels.expanded, Nat.add_zero, Nat.zero_add]
  | succ n ih =>
      obtain ⟨hnew, hnext⟩ := h.sweep k (level steps start k).2 hs
      rw [hnew] at hnext
      have hrest := ih (k := k + 1) hnext
      have hlevel : (level steps start (k + 1)).2 = (Levels.sweep expand k (level steps start k).2 s).1 := hnew.symm
      have hlength : (level steps start (k + 1)).1.length =
          (level steps start k).1.length + (level steps start (k + 1)).2.length := List.length_append
      have hsum : k + 1 + n = k + (n + 1) := by omega
      rw [hsum] at hrest
      simp only [Levels.expanded]
      rw [← hlevel]
      rw [hlength] at hrest
      omega

/-- What each level logs. -/
theorem Tracking.logged (h : Tracking steps expand Tracks) (n : Nat) {k : Nat} {s : σ}
    (hs : Tracks (level steps start k).1 (taken steps start k) s) :
    logged expand n k (level steps start k).2 s =
      (List.range' k n).flatMap fun m => (level steps start (m + 1)).2.map (·, m + 1) := by
  induction n generalizing k s with
  | zero => rfl
  | succ n ih =>
      obtain ⟨hnew, hnext⟩ := h.sweep k (level steps start k).2 hs
      rw [hnew] at hnext
      have hlevel : (level steps start (k + 1)).2 = (Levels.sweep expand k (level steps start k).2 s).1 := hnew.symm
      have hrest := ih (k := k + 1) hnext
      rw [List.range'_succ, List.flatMap_cons, ← hrest, hlevel]
      rfl

/-- A queue of bounded depth is drained in rounds, if it may go on as long as there are nodes. -/
theorem Tracking.drain_eq_rounds (h : Tracking steps expand Tracks) {bound fuel : Nat} {s : σ} (hpos : 0 < bound)
    (hfull : ∀ d, full d = decide (bound ≤ d)) (hs : Tracks [start] [] s)
    (hfuel : (level steps start bound).1.length ≤ fuel) :
    Levels.drain expand full fuel [(start, 0)] s = Levels.rounds expand bound 0 [start] s := by
  obtain ⟨n, rfl⟩ : ∃ n, bound = n + 1 := ⟨bound - 1, by omega⟩
  have hcount : Levels.expanded expand (n + 1) 0 [start] s + 1 + (level steps start (0 + (n + 1))).2.length =
      (level steps start (0 + (n + 1))).1.length + 1 := h.expanded (n + 1) hs
  rw [Nat.zero_add] at hcount
  have hle : Levels.expanded expand (n + 1) 0 [start] s ≤ fuel := by omega
  have hdrain := drain_eq hfull fuel n 0 (by omega) [start] [] s hle
  rw [Nat.zero_add] at hdrain
  exact hdrain

/-- **A queue of bounded depth** sees what lies within the bound. -/
theorem Tracking.drain (h : Tracking steps expand Tracks) {bound fuel : Nat} {s : σ} (hpos : 0 < bound)
    (hfull : ∀ d, full d = decide (bound ≤ d)) (hs : Tracks [start] [] s)
    (hfuel : (level steps start bound).1.length ≤ fuel) :
    Tracks (level steps start bound).1 (taken steps start bound)
      (drain expand full fuel [(start, 0)] s) := by
  have hrounds : Tracks (level steps start (0 + bound)).1 (taken steps start (0 + bound))
      (Levels.rounds expand bound 0 (level steps start 0).2 s) := h.rounds bound hs
  rw [h.drain_eq_rounds hpos hfull hs hfuel]
  rwa [Nat.zero_add] at hrounds

end

end Levels
