import Mathlib.Order.Nat
import ContextLayer.Lib.Dict

/-!
# Breadth-first search

The search keeps the way it found each node on. Nodes wait in the order they were found, so ways get no
shorter: when the last waiting node is gone, what is found is closed under the arcs, and no way is
longer than another walk to the same node.
-/

namespace BreadthFirst

variable {α ι : Type}

structure Arc (α ι : Type) where
  source : α
  label : ι
  target : α

/-- The labels of a chain of arcs. -/
inductive Walk (arcs : List (Arc α ι)) : α → List ι → α → Prop
  | nil (a : α) : Walk arcs a [] a
  | cons {arc : Arc α ι} {labels : List ι} {b : α} (harc : arc ∈ arcs)
      (rest : Walk arcs arc.target labels b) : Walk arcs arc.source (arc.label :: labels) b

theorem Walk.snoc {arcs : List (Arc α ι)} {a : α} {labels : List ι} {arc : Arc α ι}
    (h : Walk arcs a labels arc.source) (harc : arc ∈ arcs) :
    Walk arcs a (labels ++ [arc.label]) arc.target := by
  generalize hb : arc.source = b at h
  induction h with
  | nil a =>
      subst hb
      exact .cons harc (.nil _)
  | cons hfirst _ ih => exact .cons hfirst (ih hb)

theorem Walk.mono {arcs arcs' : List (Arc α ι)} (harcs : ∀ arc ∈ arcs, arc ∈ arcs') {a b : α}
    {labels : List ι} (h : Walk arcs a labels b) : Walk arcs' a labels b := by
  induction h with
  | nil a => exact .nil a
  | cons harc _ ih => exact .cons (harcs _ harc) ih

theorem Walk.exists_arc {arcs : List (Arc α ι)} {a b : α} {labels : List ι} (h : Walk arcs a labels b) {l : ι}
    (hl : l ∈ labels) : ∃ arc ∈ arcs, arc.label = l := by
  induction h with
  | nil a => exact absurd hl List.not_mem_nil
  | cons harc _ ih =>
      rcases List.mem_cons.mp hl with rfl | hl
      · exact ⟨_, harc, rfl⟩
      · exact ih hl

/-- What the arcs keep, a walk keeps. -/
theorem Walk.closed {arcs : List (Arc α ι)} {P : α → Prop}
    (hclosed : ∀ arc ∈ arcs, P arc.source → P arc.target) {a b : α} {labels : List ι}
    (h : Walk arcs a labels b) (ha : P a) : P b := by
  induction h with
  | nil a => exact ha
  | cons harc _ ih => exact ih (hclosed _ harc ha)

variable [DecidableEq α]

structure State (α ι : Type) where
  /-- The way to each node found. -/
  paths : List (α × List ι)
  queue : List α

/-- Follow one arc out of a node found on a way. -/
def visit (way : List ι) (st : State α ι) (arc : Arc α ι) : State α ι :=
  if (Dict.get? st.paths arc.target).isSome then st
  else ⟨Dict.set st.paths arc.target (way ++ [arc.label]), st.queue ++ [arc.target]⟩

def outgoing (arcs : List (Arc α ι)) (a : α) : List (Arc α ι) := arcs.filter fun arc => arc.source = a

def expand (arcs : List (Arc α ι)) (st : State α ι) (a : α) : State α ι :=
  (outgoing arcs a).foldl (visit ((Dict.get? st.paths a).getD [])) st

def loop (arcs : List (Arc α ι)) : Nat → State α ι → State α ι
  | 0, st => st
  | fuel + 1, st =>
      match st.queue with
      | [] => st
      | a :: rest => loop arcs fuel (expand arcs { st with queue := rest } a)

/-- The ways from a node, in the order they were found. -/
def search (arcs : List (Arc α ι)) (start : α) : List (α × List ι) :=
  (loop arcs (arcs.length + 1) ⟨[(start, [])], [start]⟩).paths

/-! ### What holds throughout -/

/-- The way to a node is found and at most so long. -/
def State.Within (st : State α ι) (a : α) (n : Nat) : Prop :=
  ∃ way, Dict.get? st.paths a = some way ∧ way.length ≤ n

theorem State.Within.mono {st : State α ι} {a : α} {m n : Nat} (h : st.Within a m) (hmn : m ≤ n) :
    st.Within a n :=
  h.imp fun _ hway => ⟨hway.1, hway.2.trans hmn⟩

section

variable (arcs : List (Arc α ι)) (start : α)

/-- Nothing is found but on a walk, what waits is found, and ways of at most `n` arcs are followed by
waiting ones of `n` or `n + 1`. -/
structure Level (n : Nat) (st : State α ι) : Prop where
  origin : st.Within start 0
  walk : ∀ a way, Dict.get? st.paths a = some way → Walk arcs start way a
  queue : ∀ a ∈ st.queue, ∃ way, Dict.get? st.paths a = some way ∧ n ≤ way.length
  sorted : st.queue.Pairwise fun a b => ∀ way way', Dict.get? st.paths a = some way →
    Dict.get? st.paths b = some way' → way.length ≤ way'.length
  bounded : ∀ a way, Dict.get? st.paths a = some way → way.length ≤ n + 1

/-- Every arc out of the node is followed. -/
def Followed (st : State α ι) (a : α) : Prop :=
  ∀ way, Dict.get? st.paths a = some way → ∀ arc ∈ arcs, arc.source = a →
    st.Within arc.target (way.length + 1)

end

variable {arcs : List (Arc α ι)} {start : α} {n : Nat} {st : State α ι}

section Visit

variable {way : List ι} {arc : Arc α ι}

/-- What is found stays found on its way. -/
theorem get?_visit {a : α} {w : List ι} (h : Dict.get? st.paths a = some w) :
    Dict.get? (visit way st arc).paths a = some w := by
  unfold visit
  by_cases hsome : (Dict.get? st.paths arc.target).isSome
  · rw [if_pos hsome]
    exact h
  · have hne : arc.target ≠ a := by
      rintro rfl
      exact hsome (Option.isSome_of_mem h)
    rw [if_neg hsome, Dict.get?_set_ne _ _ hne]
    exact h

theorem get?_visit_cases {a : α} {w : List ι} (h : Dict.get? (visit way st arc).paths a = some w) :
    Dict.get? st.paths a = some w ∨
      (Dict.get? st.paths a = none ∧ a = arc.target ∧ w = way ++ [arc.label]) := by
  unfold visit at h
  by_cases hsome : (Dict.get? st.paths arc.target).isSome
  · rw [if_pos hsome] at h
    exact .inl h
  · rw [if_neg hsome] at h
    dsimp only at h
    by_cases heq : arc.target = a
    · subst heq
      rw [Dict.get?_set_self] at h
      exact .inr ⟨Option.not_isSome_iff_eq_none.mp hsome, rfl, (Option.some.inj h).symm⟩
    · rw [Dict.get?_set_ne _ _ heq] at h
      exact .inl h

theorem State.Within.visit {a : α} {m : Nat} (h : st.Within a m) :
    (visit way st arc).Within a m :=
  h.imp fun _ hway => ⟨get?_visit hway.1, hway.2⟩

theorem Followed.visit {a : α} (h : Followed arcs st a) (hfound : (Dict.get? st.paths a).isSome) :
    Followed arcs (visit way st arc) a := by
  intro w hw arc' harc' hsource
  obtain ⟨w', hw'⟩ := Option.isSome_iff_exists.mp hfound
  obtain rfl := Option.some.inj ((get?_visit hw').symm.trans hw)
  exact (h w' hw' arc' harc' hsource).visit

theorem Level.visit (h : Level arcs start n st) (harc : arc ∈ arcs)
    (hway : Dict.get? st.paths arc.source = some way) (hlen : way.length = n) :
    Level arcs start n (visit way st arc) ∧ (visit way st arc).Within arc.target (n + 1) ∧
      ∀ a ∈ (BreadthFirst.visit way st arc).queue, a ∈ st.queue ∨ a = arc.target := by
  by_cases hsome : (Dict.get? st.paths arc.target).isSome
  · have hvisit : BreadthFirst.visit way st arc = st := if_pos hsome
    obtain ⟨w, hw⟩ := Option.isSome_iff_exists.mp hsome
    rw [hvisit]
    exact ⟨h, ⟨w, hw, h.bounded _ _ hw⟩, fun a ha => .inl ha⟩
  · have hnone := Option.not_isSome_iff_eq_none.mp hsome
    have hvisit : BreadthFirst.visit way st arc =
        ⟨Dict.set st.paths arc.target (way ++ [arc.label]), st.queue ++ [arc.target]⟩ := if_neg hsome
    have hnew : Dict.get? (BreadthFirst.visit way st arc).paths arc.target =
        some (way ++ [arc.label]) := by
      rw [hvisit]
      exact Dict.get?_set_self _ _ _
    have hlength : (way ++ [arc.label]).length = n + 1 := by
      rw [List.length_append, hlen, List.length_singleton]
    have hqueue : (BreadthFirst.visit way st arc).queue = st.queue ++ [arc.target] := by rw [hvisit]
    -- A node that waited before has the way it had.
    have hkept : ∀ a ∈ st.queue, ∀ w, Dict.get? (BreadthFirst.visit way st arc).paths a = some w →
        Dict.get? st.paths a = some w := by
      intro a ha w hw
      obtain ⟨w', hw', -⟩ := h.queue a ha
      rw [hw', ← get?_visit hw', hw]
    refine ⟨⟨h.origin.visit, ?_, ?_, ?_, ?_⟩, ⟨_, hnew, hlength.le⟩, ?_⟩
    · intro a w hw
      obtain hold | ⟨-, rfl, rfl⟩ := get?_visit_cases hw
      · exact h.walk a w hold
      · exact (h.walk _ _ hway).snoc harc
    · intro a ha
      rw [hqueue, List.mem_append, List.mem_singleton] at ha
      obtain ha | rfl := ha
      · obtain ⟨w, hw, hle⟩ := h.queue a ha
        exact ⟨w, get?_visit hw, hle⟩
      · exact ⟨_, hnew, by omega⟩
    · rw [hqueue, List.pairwise_append]
      refine ⟨h.sorted.imp_of_mem ?_, List.pairwise_singleton _ _, ?_⟩
      · intro a b ha hb hab w w' hw hw'
        exact hab w w' (hkept a ha w hw) (hkept b hb w' hw')
      · intro a ha b hb w w' hw hw'
        obtain rfl := List.mem_singleton.mp hb
        obtain rfl := Option.some.inj (hnew.symm.trans hw')
        have := h.bounded a w (hkept a ha w hw)
        omega
    · intro a w hw
      obtain hold | ⟨-, -, rfl⟩ := get?_visit_cases hw
      · exact h.bounded a w hold
      · exact hlength.le
    · intro a ha
      rw [hqueue, List.mem_append, List.mem_singleton] at ha
      exact ha

/-- What is found out of nothing waits. -/
theorem mem_queue_visit {a : α} (hnone : Dict.get? st.paths a = none)
    (hsome : (Dict.get? (visit way st arc).paths a).isSome) : a ∈ (visit way st arc).queue := by
  obtain ⟨w, hw⟩ := Option.isSome_iff_exists.mp hsome
  obtain hold | ⟨-, rfl, -⟩ := get?_visit_cases hw
  · rw [hnone] at hold
    cases hold
  · have hnot : ¬ (Dict.get? st.paths arc.target).isSome := by simp [hnone]
    rw [visit, if_neg hnot]
    exact List.mem_append_right _ (List.mem_singleton_self _)

theorem mem_visit_of_mem {a : α} (h : a ∈ st.queue) : a ∈ (visit way st arc).queue := by
  unfold visit
  by_cases hsome : (Dict.get? st.paths arc.target).isSome
  · rwa [if_pos hsome]
  · rw [if_neg hsome]
    exact List.mem_append_left _ h

end Visit

/-! ### One node -/

/-- Every arc is followed out of what is found, does not wait and is not the node that is expanded. -/
def FollowedBut (arcs : List (Arc α ι)) (st : State α ι) (a : α) : Prop :=
  ∀ b, (Dict.get? st.paths b).isSome → b ∉ st.queue → b ≠ a → Followed arcs st b

theorem FollowedBut.visit {a : α} {way : List ι} {arc : Arc α ι} (h : FollowedBut arcs st a) :
    FollowedBut arcs (visit way st arc) a := by
  intro b hb hqueue hne
  by_cases hfound : (Dict.get? st.paths b).isSome
  · exact (h b hfound (fun hmem => hqueue (mem_visit_of_mem hmem)) hne).visit hfound
  · exact absurd (mem_queue_visit (Option.not_isSome_iff_eq_none.mp hfound) hb) hqueue

theorem within_foldl {way : List ι} {l : List (Arc α ι)} {st : State α ι} {a : α} {m : Nat}
    (h : st.Within a m) : (l.foldl (visit way) st).Within a m := by
  induction l generalizing st with
  | nil => exact h
  | cons arc l ih => exact ih h.visit

theorem Level.foldl {a : α} {way : List ι} {l : List (Arc α ι)}
    (hl : ∀ arc ∈ l, arc ∈ arcs ∧ arc.source = a) (h : Level arcs start n st)
    (hway : Dict.get? st.paths a = some way) (hlen : way.length = n) (hbut : FollowedBut arcs st a) :
    Level arcs start n (l.foldl (BreadthFirst.visit way) st) ∧
      FollowedBut arcs (l.foldl (BreadthFirst.visit way) st) a ∧
      Dict.get? (l.foldl (BreadthFirst.visit way) st).paths a = some way ∧
      ∀ arc ∈ l, (l.foldl (BreadthFirst.visit way) st).Within arc.target (n + 1) := by
  induction l generalizing st with
  | nil => exact ⟨h, hbut, hway, List.forall_mem_nil _⟩
  | cons arc l ih =>
      rw [List.forall_mem_cons] at hl
      obtain ⟨hvisit, htarget, -⟩ := h.visit hl.1.1 (hl.1.2 ▸ hway) hlen
      obtain ⟨hlevel, hbut', hway', hrest⟩ := ih hl.2 hvisit (get?_visit hway) hbut.visit
      exact ⟨hlevel, hbut', hway', List.forall_mem_cons.mpr ⟨within_foldl (l := l) htarget, hrest⟩⟩

/-- **The invariant of the search.** -/
structure Searching (arcs : List (Arc α ι)) (start : α) (st : State α ι) : Prop where
  level : ∃ n, Level arcs start n st
  followed : ∀ a, (Dict.get? st.paths a).isSome → a ∉ st.queue → Followed arcs st a

theorem Searching.expand {a : α} {rest : List α} (h : Searching arcs start st)
    (hqueue : st.queue = a :: rest) :
    Searching arcs start (BreadthFirst.expand arcs { st with queue := rest } a) := by
  obtain ⟨n, hn⟩ := h.level
  obtain ⟨way, hway, hle⟩ := hn.queue a (hqueue ▸ List.mem_cons_self)
  have hsorted := hn.sorted
  rw [hqueue, List.pairwise_cons] at hsorted
  have hlevel : Level arcs start way.length { st with queue := rest } := by
    refine ⟨hn.origin, hn.walk, fun b hb => ?_, hsorted.2, fun b w hw => ?_⟩
    · obtain ⟨w, hw, -⟩ := hn.queue b (hqueue ▸ List.mem_cons_of_mem _ hb)
      exact ⟨w, hw, hsorted.1 b hb way w hway hw⟩
    · exact (hn.bounded b w hw).trans (Nat.add_le_add_right hle 1)
  have hbut : FollowedBut arcs { st with queue := rest } a := by
    intro b hb hmem hne
    refine h.followed b hb fun hin => hmem ?_
    rw [hqueue, List.mem_cons] at hin
    exact hin.resolve_left hne
  have hl : ∀ arc ∈ outgoing arcs a, arc ∈ arcs ∧ arc.source = a := fun arc harc =>
    ⟨(List.mem_filter.mp harc).1, of_decide_eq_true (List.mem_filter.mp harc).2⟩
  obtain ⟨hlevel', hbut', hway', htargets⟩ := hlevel.foldl hl hway rfl hbut
  have hexpand : BreadthFirst.expand arcs { st with queue := rest } a =
      (outgoing arcs a).foldl (visit way) { st with queue := rest } := by
    rw [BreadthFirst.expand]
    dsimp only
    rw [hway, Option.getD_some]
  rw [hexpand]
  refine ⟨⟨_, hlevel'⟩, fun b hb hmem => ?_⟩
  by_cases hba : b = a
  · subst hba
    intro w hw arc harc hsource
    obtain rfl := Option.some.inj (hway'.symm.trans hw)
    exact htargets arc (List.mem_filter.mpr ⟨harc, decide_eq_true hsource⟩)
  · exact hbut' b hb hmem hba

/-! ### Termination -/

/-- How many arcs lead to a node not found. -/
def unfound (arcs : List (Arc α ι)) (st : State α ι) : Nat :=
  arcs.countP fun arc => (Dict.get? st.paths arc.target).isNone

theorem unfound_visit {way : List ι} {arc : Arc α ι} (harc : arc ∈ arcs) :
    (visit way st arc).queue.length + unfound arcs (visit way st arc) ≤
      st.queue.length + unfound arcs st := by
  by_cases hsome : (Dict.get? st.paths arc.target).isSome
  · rw [visit, if_pos hsome]
  · have hnew : (Dict.get? (visit way st arc).paths arc.target).isNone = false := by
      rw [visit, if_neg hsome, Dict.get?_set_self]
      rfl
    have hold : (Dict.get? st.paths arc.target).isNone = true := by simpa using hsome
    have hmono : ∀ l : List (Arc α ι), (l.countP fun arc' =>
        (Dict.get? (visit way st arc).paths arc'.target).isNone) ≤
        l.countP fun arc' => (Dict.get? st.paths arc'.target).isNone := by
      intro l
      refine List.countP_mono_left fun arc' _ hnone => ?_
      by_contra hfound
      rw [Option.isNone_iff_eq_none, ← ne_eq, Option.ne_none_iff_exists'] at hfound
      obtain ⟨w, hw⟩ := hfound
      rw [get?_visit hw] at hnone
      cases hnone
    have hqueue : (visit way st arc).queue.length = st.queue.length + 1 := by
      rw [visit, if_neg hsome, List.length_append, List.length_singleton]
    obtain ⟨front, back, rfl⟩ := List.append_of_mem harc
    have hfront := hmono front
    have hback := hmono back
    rw [unfound, unfound, List.countP_append, List.countP_append, List.countP_cons,
      List.countP_cons, hnew, hold, if_pos rfl, if_neg Bool.false_ne_true, hqueue]
    omega

theorem unfound_foldl {way : List ι} {l : List (Arc α ι)} (hl : ∀ arc ∈ l, arc ∈ arcs) :
    (l.foldl (visit way) st).queue.length + unfound arcs (l.foldl (visit way) st) ≤
      st.queue.length + unfound arcs st := by
  induction l generalizing st with
  | nil => exact le_rfl
  | cons arc l ih =>
      rw [List.forall_mem_cons] at hl
      exact (ih hl.2).trans (unfound_visit hl.1)

theorem Searching.loop {fuel : Nat} (h : Searching arcs start st)
    (hfuel : st.queue.length + unfound arcs st ≤ fuel) :
    Searching arcs start (BreadthFirst.loop arcs fuel st) ∧
      (BreadthFirst.loop arcs fuel st).queue = [] := by
  induction fuel generalizing st with
  | zero =>
      have hlength : st.queue.length = 0 := by omega
      exact ⟨h, List.eq_nil_of_length_eq_zero hlength⟩
  | succ fuel ih =>
      cases hqueue : st.queue with
      | nil =>
          have hloop : BreadthFirst.loop arcs (fuel + 1) st = st := by
            rw [BreadthFirst.loop, hqueue]
          rw [hloop]
          exact ⟨h, hqueue⟩
      | cons a rest =>
          have hloop : BreadthFirst.loop arcs (fuel + 1) st =
              BreadthFirst.loop arcs fuel (BreadthFirst.expand arcs { st with queue := rest } a) := by
            rw [BreadthFirst.loop, hqueue]
          rw [hloop]
          refine ih (h.expand hqueue) ?_
          have hfold : (BreadthFirst.expand arcs { st with queue := rest } a).queue.length +
              unfound arcs (BreadthFirst.expand arcs { st with queue := rest } a) ≤
              rest.length + unfound arcs st :=
            unfound_foldl fun arc harc => (List.mem_filter.mp harc).1
          rw [hqueue, List.length_cons] at hfuel
          omega

/-! ### The search -/

theorem searching_start : Searching arcs start (⟨[(start, [])], [start]⟩ : State α ι) := by
  have hget : ∀ a way, Dict.get? [(start, ([] : List ι))] a = some way → a = start ∧ way = [] := by
    intro a way h
    obtain ⟨rfl, rfl⟩ := Prod.mk.inj (List.mem_singleton.mp (Dict.mem_of_get? h))
    exact ⟨rfl, rfl⟩
  have hstart : Dict.get? [(start, ([] : List ι))] start = some [] := by
    rw [Dict.get?_cons, if_pos rfl]
  refine ⟨⟨0, ⟨[], hstart, le_rfl⟩, ?_, ?_, List.pairwise_singleton _ _, ?_⟩, ?_⟩
  · intro a way h
    obtain ⟨rfl, rfl⟩ := hget a way h
    exact .nil _
  · intro a ha
    obtain rfl := List.mem_singleton.mp ha
    exact ⟨[], hstart, le_rfl⟩
  · intro a way h
    obtain ⟨-, rfl⟩ := hget a way h
    exact Nat.zero_le _
  · intro a ha hmem
    obtain ⟨way, hway⟩ := Option.isSome_iff_exists.mp ha
    exact absurd (List.mem_singleton.mpr (hget a way hway).1) hmem

theorem searching_search (arcs : List (Arc α ι)) (start : α) :
    ∃ st, search arcs start = st.paths ∧ Searching arcs start st ∧ st.queue = [] := by
  have hfuel : ([start] : List α).length +
      unfound arcs (⟨[(start, [])], [start]⟩ : State α ι) ≤ arcs.length + 1 := by
    have : unfound arcs (⟨[(start, [])], [start]⟩ : State α ι) ≤ arcs.length := List.countP_le_length
    rw [List.length_singleton]
    omega
  obtain ⟨hsearching, hqueue⟩ := searching_start.loop hfuel
  exact ⟨_, rfl, hsearching, hqueue⟩

theorem nodup_visit {way : List ι} {arc : Arc α ι} (h : (st.paths.map Prod.fst).Nodup) :
    ((visit way st arc).paths.map Prod.fst).Nodup := by
  unfold visit
  by_cases hsome : (Dict.get? st.paths arc.target).isSome
  · rwa [if_pos hsome]
  · rw [if_neg hsome]
    exact Dict.nodup_set h _ _

theorem nodup_foldl {way : List ι} {l : List (Arc α ι)} {st : State α ι}
    (h : (st.paths.map Prod.fst).Nodup) : ((l.foldl (visit way) st).paths.map Prod.fst).Nodup := by
  induction l generalizing st with
  | nil => exact h
  | cons arc l ih => exact ih (nodup_visit h)

theorem nodup_loop {fuel : Nat} (h : (st.paths.map Prod.fst).Nodup) :
    ((loop arcs fuel st).paths.map Prod.fst).Nodup := by
  induction fuel generalizing st with
  | zero => exact h
  | succ fuel ih =>
      rw [loop]
      cases st.queue with
      | nil => exact h
      | cons a rest => exact ih (nodup_foldl h)

theorem nodup_search (arcs : List (Arc α ι)) (start : α) :
    ((search arcs start).map Prod.fst).Nodup :=
  nodup_loop (List.pairwise_singleton _ start)

/-- **Sound**: a way is a walk. -/
theorem walk_of_search {a : α} {way : List ι} (h : Dict.get? (search arcs start) a = some way) :
    Walk arcs start way a := by
  obtain ⟨st, hst, hsearching, -⟩ := searching_search arcs start
  obtain ⟨n, hn⟩ := hsearching.level
  exact hn.walk a way (hst ▸ h)

/-- **Complete**: whatever a walk leads to is found, on a way no longer than the walk. -/
theorem search_of_walk {a : α} {labels : List ι} (h : Walk arcs start labels a) :
    ∃ way, Dict.get? (search arcs start) a = some way ∧ way.length ≤ labels.length := by
  obtain ⟨st, hst, hsearching, hqueue⟩ := searching_search arcs start
  rw [hst]
  have hfollowed : ∀ a, (Dict.get? st.paths a).isSome → Followed arcs st a := fun a ha =>
    hsearching.followed a ha (by rw [hqueue]; exact List.not_mem_nil)
  have hwalk : ∀ {b : α}, Walk arcs b labels a → ∀ m, st.Within b m →
      st.Within a (m + labels.length) := by
    intro b hb
    clear h
    induction hb with
    | nil => exact fun m hm => hm
    | cons harc _ ih =>
        intro m hm
        obtain ⟨way, hway, hle⟩ := hm
        have hnext := hfollowed _ (Option.isSome_of_mem hway) way hway _ harc rfl
        refine (ih _ (hnext.mono (Nat.add_le_add_right hle 1))).mono ?_
        rw [List.length_cons]
        omega
  obtain ⟨n, hn⟩ := hsearching.level
  have := hwalk h 0 hn.origin
  rwa [Nat.zero_add] at this

end BreadthFirst
