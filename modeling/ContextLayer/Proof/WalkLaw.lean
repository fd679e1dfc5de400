import Mathlib.Order.Lattice.Nat
import ContextLayer.Lib.DepthFirst
import ContextLayer.Lib.Pointwise
import ContextLayer.Proof.LineageWalk

/-!
# What a lineage walk returns

The nodes of a walk are those within its depth, each with the least number of hops to it, and its edges are those out
of nodes within one less. The edges that are reported as closing a cycle lie on one, and without them there is none.
-/

namespace ContextLayer

open Text StableSort Levels Pointwise

/-! ### Cycles -/

section

variable {nodeIds : List PyStr} {edges : List GraphEdge}

/-- The edge is one that the search for cycles considers. -/
def Inside (nodeIds : List PyStr) (edges : List GraphEdge) (e : GraphEdge) : Prop :=
  e ∈ edges ∧ e.source ∈ nodeIds ∧ e.target ∈ nodeIds

/-- `adjacency` of `_cycles`. -/
def cycleNeighbors (nodeIds : List PyStr) (edges : List GraphEdge) (node : PyStr) : List (PyStr × PyStr) :=
  (((sortOn GraphEdge.id edges).filter fun e => decide (e.source ∈ nodeIds ∧ e.target ∈ nodeIds)).filter
    fun e => decide (e.source = node)).map fun e => (e.target, e.id)

theorem mem_cycleNeighbors {a b l : PyStr} : (b, l) ∈ cycleNeighbors nodeIds edges a ↔
    ∃ e, Inside nodeIds edges e ∧ e.source = a ∧ e.target = b ∧ e.id = l := by
  simp only [cycleNeighbors, List.mem_map, List.mem_filter, mem_sortOn, decide_eq_true_eq, Prod.mk.injEq, Inside]
  constructor
  · rintro ⟨e, ⟨⟨he, hends⟩, hsource⟩, htarget, hid⟩
    exact ⟨e, ⟨he, hends⟩, hsource, htarget, hid⟩
  · rintro ⟨e, ⟨he, hends⟩, hsource, htarget, hid⟩
    exact ⟨e, ⟨⟨he, hends⟩, hsource⟩, htarget, hid⟩

/-- The colors say what is on the stack and what is finished. -/
structure Dfs.Simulates (nodeIds : List PyStr) (st : Dfs) (s : DepthFirst.State PyStr PyStr) : Prop where
  stack : st.stack = s.stack
  closing : st.closing = s.closing
  color (a : PyStr) : Dict.get? st.color a = if a ∈ s.stack.map Prod.fst then some .gray
    else if a ∈ s.finished then some .black else if a ∈ nodeIds then some .white else none

theorem Dfs.Simulates.turn {st : Dfs} {s : DepthFirst.State PyStr PyStr} (h : st.Simulates nodeIds s)
    (hinv : DepthFirst.Inv (cycleNeighbors nodeIds edges) nodeIds s) :
    (Dfs.turn (cycleNeighbors nodeIds edges) st).Simulates nodeIds
      (DepthFirst.turn (cycleNeighbors nodeIds edges) s) := by
  obtain ⟨color, closing, stack⟩ := st
  obtain ⟨finished, closing', stack'⟩ := s
  obtain ⟨rfl, rfl, hcolor⟩ := h
  have hnodup := hinv.nodup
  dsimp only at hcolor hnodup
  cases stack with
  | nil => exact ⟨rfl, rfl, hcolor⟩
  | cons frame rest =>
      obtain ⟨a, i⟩ := frame
      unfold Dfs.turn DepthFirst.turn
      dsimp only
      cases hi : (cycleNeighbors nodeIds edges a)[i]? with
      | none =>
          refine ⟨rfl, rfl, fun x => ?_⟩
          dsimp only
          rw [Dict.get?_set, hcolor, List.map_cons]
          simp only [List.mem_cons]
          by_cases hx : a = x
          · subst hx
            have hrest : a ∉ rest.map Prod.fst := fun hmem =>
              (List.nodup_cons.mp hnodup).1 (List.mem_append_left _ hmem)
            rw [if_pos rfl, if_neg hrest, if_pos (.inl rfl)]
          · rw [if_neg hx]
            simp only [Ne.symm hx, false_or]
      | some arc =>
          obtain ⟨b, l⟩ := arc
          have hb : b ∈ nodeIds := by
            obtain ⟨e, ⟨-, -, htarget⟩, -, rfl, -⟩ := mem_cycleNeighbors.mp (List.mem_of_getElem? hi)
            exact htarget
          dsimp only
          rw [hcolor b]
          by_cases hstack : b ∈ ((a, i) :: rest).map Prod.fst
          · rw [if_pos hstack, if_pos hstack]
            exact ⟨rfl, rfl, hcolor⟩
          · rw [if_neg hstack, if_neg hstack]
            by_cases hfinished : b ∈ finished
            · rw [if_pos hfinished, if_pos hfinished]
              exact ⟨rfl, rfl, hcolor⟩
            · rw [if_neg hfinished, if_neg hfinished, if_pos hb]
              refine ⟨rfl, rfl, fun x => ?_⟩
              dsimp only
              rw [Dict.get?_set, hcolor, List.map_cons, List.map_cons, List.map_cons]
              simp only [List.mem_cons]
              by_cases hx : b = x
              · rw [if_pos hx, if_pos (.inl hx.symm)]
              · rw [if_neg hx]
                simp only [Ne.symm hx, false_or]

theorem closed_cycleNeighbors (a b l : PyStr) (h : (b, l) ∈ cycleNeighbors nodeIds edges a) :
    a ∈ nodeIds ∧ b ∈ nodeIds := by
  obtain ⟨e, ⟨-, hsource, htarget⟩, rfl, rfl, -⟩ := mem_cycleNeighbors.mp h
  exact ⟨hsource, htarget⟩

theorem Dfs.Simulates.iterate (n : Nat) {st : Dfs} {s : DepthFirst.State PyStr PyStr} (h : st.Simulates nodeIds s)
    (hinv : DepthFirst.Inv (cycleNeighbors nodeIds edges) nodeIds s) :
    ((Dfs.turn (cycleNeighbors nodeIds edges))^[n] st).Simulates nodeIds
      ((DepthFirst.turn (cycleNeighbors nodeIds edges))^[n] s) := by
  induction n generalizing st s with
  | zero => exact h
  | succ n ih =>
      rw [Function.iterate_succ_apply, Function.iterate_succ_apply]
      exact ih (h.turn hinv) (hinv.turn fun a _ b l hb => (closed_cycleNeighbors a b l hb).2)

/-- The edges that leave different nodes are different edges. -/
theorem sum_outgoing_le {l : List GraphEdge} {nodes : List PyStr} (hnodup : nodes.Nodup) :
    (nodes.map fun a => (l.filter fun e => decide (e.source = a)).length).sum ≤ l.length := by
  induction nodes generalizing l with
  | nil => exact Nat.zero_le _
  | cons a rest ih =>
      obtain ⟨ha, hrest⟩ := List.nodup_cons.mp hnodup
      have hothers : (rest.map fun b => (l.filter fun e => decide (e.source = b)).length) =
          rest.map fun b => ((l.filter fun e => !decide (e.source = a)).filter fun e => decide (e.source = b)).length := by
        refine List.map_congr_left fun b hb => ?_
        rw [List.filter_filter]
        refine congrArg List.length (List.filter_congr fun e _ => ?_)
        by_cases heq : e.source = b
        · have hne : e.source ≠ a := fun heq' => ha (heq' ▸ heq ▸ hb)
          simp [heq, heq ▸ hne]
        · simp [heq]
      have hsplit := List.length_eq_length_filter_add (l := l) fun e => decide (e.source = a)
      rw [List.map_cons, List.sum_cons, hothers, hsplit]
      exact Nat.add_le_add_left (ih hrest) _

theorem cost_cycleNeighbors (hnodup : nodeIds.Nodup) :
    (nodeIds.map fun a => (cycleNeighbors nodeIds edges a).length + 1).sum ≤ edges.length + nodeIds.length := by
  have hinside : ((sortOn GraphEdge.id edges).filter
      fun e => decide (e.source ∈ nodeIds ∧ e.target ∈ nodeIds)).length ≤ edges.length :=
    (List.length_filter_le _ _).trans sortOn_perm.length_eq.le
  have hsum := sum_outgoing_le (l := (sortOn GraphEdge.id edges).filter
    fun e => decide (e.source ∈ nodeIds ∧ e.target ∈ nodeIds)) hnodup
  have hcost : (nodeIds.map fun a => (cycleNeighbors nodeIds edges a).length + 1).sum =
      (nodeIds.map fun a => (((sortOn GraphEdge.id edges).filter
        fun e => decide (e.source ∈ nodeIds ∧ e.target ∈ nodeIds)).filter fun e => decide (e.source = a)).length).sum +
        nodeIds.length := by
    rw [List.sum_map_add]
    simp only [cycleNeighbors, List.length_map, List.map_const', List.sum_replicate]
    exact congrArg _ (Nat.mul_one _)
  rw [hcost]
  exact Nat.add_le_add_right (hsum.trans hinside) _

/-- One start of the loop. -/
theorem Dfs.Simulates.enter {st : Dfs} {s : DepthFirst.State PyStr PyStr} (h : st.Simulates nodeIds s)
    (hinv : DepthFirst.Inv (cycleNeighbors nodeIds edges) nodeIds s) (hempty : s.stack = []) (fuel : Nat)
    {start : PyStr} (hstart : start ∈ nodeIds) :
    (if Dict.get? st.color start = some .white then
      (Dfs.turn (cycleNeighbors nodeIds edges))^[fuel]
        { st with color := Dict.set st.color start .gray, stack := [(start, 0)] }
    else st).Simulates nodeIds (DepthFirst.enter (cycleNeighbors nodeIds edges) fuel s start) := by
  have hcolor := h.color
  simp only [hempty, List.map_nil, List.not_mem_nil, if_false] at hcolor
  unfold DepthFirst.enter
  rw [hcolor, if_pos hstart]
  by_cases hfound : start ∈ s.finished
  · rw [if_pos hfound, if_pos hfound, if_neg (by decide)]
    exact h
  · rw [if_neg hfound, if_neg hfound, if_pos rfl]
    have hnodup := hinv.nodup
    have hknown := hinv.known
    rw [hempty] at hnodup hknown
    refine Dfs.Simulates.iterate fuel ⟨rfl, h.closing, fun x => ?_⟩ ?_
    · dsimp only
      rw [Dict.get?_set, hcolor, List.map_cons, List.map_nil]
      simp only [List.mem_singleton]
      by_cases hx : start = x
      · rw [if_pos hx, if_pos hx.symm]
      · rw [if_neg hx, if_neg (Ne.symm hx)]
    · exact hinv.start hfound hstart hempty

theorem simulates_foldl {fuel : Nat}
    (hfuel : (nodeIds.map fun a => (cycleNeighbors nodeIds edges a).length + 1).sum ≤ fuel) {starts : List PyStr}
    (hstarts : starts ⊆ nodeIds) {st : Dfs} {s : DepthFirst.State PyStr PyStr} (h : st.Simulates nodeIds s)
    (hinv : DepthFirst.Inv (cycleNeighbors nodeIds edges) nodeIds s) (hempty : s.stack = []) :
    (starts.foldl (fun st start =>
      if Dict.get? st.color start = some .white then
        (Dfs.turn (cycleNeighbors nodeIds edges))^[fuel]
          { st with color := Dict.set st.color start .gray, stack := [(start, 0)] }
      else st) st).Simulates nodeIds
      (starts.foldl (DepthFirst.enter (cycleNeighbors nodeIds edges) fuel) s) := by
  induction starts generalizing st s with
  | nil => exact h
  | cons start rest ih =>
      obtain ⟨hstart, hrest⟩ := List.cons_subset.mp hstarts
      obtain ⟨hinv', hempty', -, -⟩ := hinv.enter (fun a _ b l hb => (closed_cycleNeighbors a b l hb).2) hfuel hempty hstart
      exact ih hrest (h.enter hinv hempty fuel hstart) hinv' hempty'

/-- **`_cycles` searches in depth.** -/
theorem closing_lineageCycles (hnodup : nodeIds.Nodup) {id : PyStr} : id ∈ lineageCycles nodeIds edges ↔
    id ∈ (DepthFirst.search (cycleNeighbors nodeIds edges) (edges.length + nodeIds.length)
      (sortOn (fun id => id) nodeIds)).closing := by
  have hwhite : (⟨nodeIds.map (·, Color.white), [], []⟩ : Dfs).Simulates nodeIds ⟨[], [], []⟩ := by
    refine ⟨rfl, rfl, fun a => ?_⟩
    simp only [List.map_nil, List.not_mem_nil, if_false]
    induction nodeIds with
    | nil => rfl
    | cons b rest ih =>
        rw [List.map_cons, Dict.get?_cons, ih (List.nodup_cons.mp hnodup).2]
        by_cases hab : b = a
        · simp [hab]
        · simp [hab, Ne.symm hab]
  have hstarts : sortOn (fun id : PyStr => id) nodeIds ⊆ nodeIds := fun a ha => mem_sortOn.mp ha
  have hsim := simulates_foldl (cost_cycleNeighbors hnodup) hstarts hwhite
    (DepthFirst.inv_empty (cycleNeighbors nodeIds edges) nodeIds) rfl
  unfold lineageCycles
  rw [mem_sortOn]
  exact hsim.closing ▸ Iff.rfl

variable (edges) in
/-- **What `_cycles` lists** lies on cycles of the edges it considers, and there are none without it. -/
theorem lineageCycles_spec (hnodup : nodeIds.Nodup) :
    (∀ id ∈ lineageCycles nodeIds edges, ∃ e, Inside nodeIds edges e ∧ e.id = id ∧
      Relation.ReflTransGen (fun a b => ∃ e, Inside nodeIds edges e ∧ e.source = a ∧ e.target = b) e.target e.source) ∧
      ¬ HasCycle fun e => Inside nodeIds edges e ∧ e.id ∉ lineageCycles nodeIds edges := by
  have hstarts : ∀ a, a ∈ sortOn (fun id : PyStr => id) nodeIds ↔ a ∈ nodeIds := fun a => mem_sortOn
  obtain ⟨hlisted, hrest⟩ := DepthFirst.search_cycles
    (fun a _ b l hb => (closed_cycleNeighbors a b l hb).2) (fun a b l hb => (closed_cycleNeighbors a b l hb).1)
    (cost_cycleNeighbors hnodup) hstarts
  have harc : ∀ a b, DepthFirst.Arc (cycleNeighbors nodeIds edges) a b →
      ∃ e, Inside nodeIds edges e ∧ e.source = a ∧ e.target = b := by
    rintro a b ⟨l, hl⟩
    obtain ⟨e, he, hsource, htarget, -⟩ := mem_cycleNeighbors.mp hl
    exact ⟨e, he, hsource, htarget⟩
  refine ⟨fun id hid => ?_, ?_⟩
  · obtain ⟨a, b, hl, hback⟩ := hlisted id ((closing_lineageCycles hnodup).mp hid)
    obtain ⟨e, he, rfl, rfl, rfl⟩ := mem_cycleNeighbors.mp hl
    exact ⟨e, he, rfl, Relation.ReflTransGen.mono harc _ _ hback⟩
  · rintro ⟨a, hcycle⟩
    refine hrest a (Relation.TransGen.mono ?_ _ _ hcycle)
    rintro b c ⟨e, ⟨he, hid⟩, rfl, rfl⟩
    exact ⟨e.id, mem_cycleNeighbors.mpr ⟨e, he, rfl, rfl, rfl⟩, fun hmem => hid ((closing_lineageCycles hnodup).mpr hmem)⟩

variable (edges) in
/-- There is a cycle exactly where some edge is listed. -/
theorem lineageCycles_ne_nil_iff (hnodup : nodeIds.Nodup) :
    lineageCycles nodeIds edges ≠ [] ↔ HasCycle (Inside nodeIds edges) := by
  obtain ⟨hlisted, hrest⟩ := lineageCycles_spec edges hnodup
  constructor
  · intro hne
    obtain ⟨id, hid⟩ := List.exists_mem_of_ne_nil _ hne
    obtain ⟨e, he, -, hback⟩ := hlisted id hid
    exact ⟨e.source, Relation.TransGen.head' ⟨e, he, rfl, rfl⟩ hback⟩
  · intro hcycle hnil
    rw [hnil] at hrest
    refine hrest ?_
    obtain ⟨a, ha⟩ := hcycle
    exact ⟨a, Relation.TransGen.mono (fun b c ⟨e, he, hends⟩ => ⟨e, ⟨he, List.not_mem_nil⟩, hends⟩) _ _ ha⟩

end

/-! ### Depths -/

/-- The depths of a log are put in, the smaller one where there is one already. -/
def putDepths (d log : List (PyStr × Nat)) : List (PyStr × Nat) :=
  log.foldl (fun d e => Dict.set d e.1 (min ((Dict.get? d e.1).getD e.2) e.2)) d

theorem putDepths_append (d log log' : List (PyStr × Nat)) :
    putDepths d (log ++ log') = putDepths (putDepths d log) log' := List.foldl_append

/-- The smaller one of two, where there are both. -/
def smaller (p q : Option Nat) : Option Nat :=
  match q with
  | none => p
  | some k => some (min (p.getD k) k)

theorem get?_putDepths {d log : List (PyStr × Nat)} (hnodup : (log.map Prod.fst).Nodup) (a : PyStr) :
    Dict.get? (putDepths d log) a = smaller (Dict.get? d a) (Dict.get? log a) := by
  induction log generalizing d with
  | nil => rfl
  | cons e rest ih =>
      obtain ⟨b, k⟩ := e
      obtain ⟨hb, hrest⟩ := List.nodup_cons.mp hnodup
      rw [putDepths, List.foldl_cons, ← putDepths, ih hrest, Dict.get?_cons]
      dsimp only
      by_cases hab : b = a
      · subst hab
        have hnone : Dict.get? rest b = none := by
          rw [← Option.not_isSome_iff_eq_none, Dict.isSome_get?_iff]
          rintro ⟨e, he, heq⟩
          exact hb (List.mem_map.mpr ⟨e, he, heq⟩)
        rw [hnone, if_pos rfl, smaller, smaller, Dict.get?_set_self]
      · rw [if_neg hab, Dict.get?_set_ne _ _ hab]

section

variable {graph : LineageGraph} {up : Bool}

theorem Bfs.depths_foldl_follow (d : Nat) (l : List GraphEdge) (new : List PyStr) (st : Bfs) :
    (l.foldl (Bfs.follow up d) (new, st)).2.depths =
      putDepths st.depths ((fresh st.visited (l.map fun e => e.neighbor up)).map (·, d + 1)) := by
  induction l generalizing new st with
  | nil => rfl
  | cons e rest ih =>
      have hfresh := fresh_append st.visited [e.neighbor up] (rest.map fun e => e.neighbor up)
      rw [List.singleton_append] at hfresh
      rw [List.foldl_cons, List.map_cons, hfresh, List.map_append, putDepths_append]
      by_cases hmem : e.neighbor up ∈ st.visited
      · have hnone : fresh st.visited [e.neighbor up] = [] := if_pos hmem
        have hfollow : Bfs.follow up d (new, st) e = (new, { st with edges := Dict.set st.edges e.id e }) := if_pos hmem
        rw [hfollow, hnone, ih, List.append_nil]
        rfl
      · have hone : fresh st.visited [e.neighbor up] = [e.neighbor up] := if_neg hmem
        have hfollow : Bfs.follow up d (new, st) e = (new ++ [e.neighbor up],
            ⟨st.visited ++ [e.neighbor up], putDepths st.depths [(e.neighbor up, d + 1)],
              Dict.set st.edges e.id e⟩) := if_neg hmem
        rw [hfollow, hone, ih]
        rfl

theorem depths_bfsExpand (d : Nat) (a : PyStr) (st : Bfs) : (graph.bfsExpand up d a st).2.depths =
    putDepths st.depths ((graph.bfsExpand up d a st).1.map (·, d + 1)) := by
  obtain ⟨depths, hfold, -⟩ := Bfs.foldl_follow up d (graph.adjacent up a) [] st
  rw [LineageGraph.bfsExpand, Bfs.depths_foldl_follow, hfold, List.nil_append]

theorem depths_sweep (d : Nat) (nodes : List PyStr) (st : Bfs) : (sweep (graph.bfsExpand up) d nodes st).2.depths =
    putDepths st.depths ((sweep (graph.bfsExpand up) d nodes st).1.map (·, d + 1)) := by
  induction nodes generalizing st with
  | nil => rfl
  | cons a rest ih =>
      rw [sweep, ih, depths_bfsExpand, List.map_append, putDepths_append]

theorem depths_rounds (n d : Nat) (nodes : List PyStr) (st : Bfs) : (rounds (graph.bfsExpand up) n d nodes st).depths =
    putDepths st.depths (logged (graph.bfsExpand up) n d nodes st) := by
  induction n generalizing d nodes st with
  | zero => rfl
  | succ n ih =>
      rw [rounds, logged, ih, depths_sweep, putDepths_append]

variable (graph up) in
/-- The nodes within a bound, each with its depth. -/
def levelLog (start : PyStr) (bound : Nat) : List (PyStr × Nat) :=
  (start, 0) :: (List.range' 0 bound).flatMap fun m => (level (graph.steps (.oneWay up)) start (m + 1)).2.map (·, m + 1)

theorem map_fst_levelLog (start : PyStr) (bound : Nat) :
    (levelLog graph up start bound).map Prod.fst = (level (graph.steps (.oneWay up)) start bound).1 := by
  induction bound with
  | zero => rfl
  | succ n ih =>
      have hlog : levelLog graph up start (n + 1) = levelLog graph up start n ++
          (level (graph.steps (.oneWay up)) start (n + 1)).2.map (·, n + 1) := by
        rw [levelLog, List.range'_1_concat, List.flatMap_append, List.flatMap_singleton, Nat.zero_add]
        rfl
      rw [hlog, List.map_append, ih, List.map_map]
      have hid : Prod.fst ∘ (fun a : PyStr => (a, n + 1)) = id := rfl
      rw [hid, List.map_id]
      rfl

theorem mem_levelLog {start a : PyStr} {bound k : Nat} : (a, k) ∈ levelLog graph up start bound ↔
    k ≤ bound ∧ IsLeast {m | Within (graph.steps (.oneWay up)) start m a} k := by
  have hlog : (a, k) ∈ levelLog graph up start bound ↔ (a = start ∧ k = 0) ∨
      ∃ m < bound, a ∈ (level (graph.steps (.oneWay up)) start (m + 1)).2 ∧ m + 1 = k := by
    constructor
    · intro h
      obtain h | h := List.mem_cons.mp h
      · exact .inl (Prod.mk.inj h)
      · obtain ⟨m, hm, h⟩ := List.mem_flatMap.mp h
        obtain ⟨b, hb, heq⟩ := List.mem_map.mp h
        obtain ⟨rfl, rfl⟩ := Prod.mk.inj heq
        exact .inr ⟨m, by simpa using hm, hb, rfl⟩
    · rintro (⟨rfl, rfl⟩ | ⟨m, hm, ha, rfl⟩)
      · exact List.mem_cons_self
      · exact List.mem_cons_of_mem _ (List.mem_flatMap.mpr ⟨m, by simpa using hm, List.mem_map_of_mem ha⟩)
  rw [hlog]
  cases k with
  | zero =>
      have hnone : ¬ ∃ m < bound, a ∈ (level (graph.steps (.oneWay up)) start (m + 1)).2 ∧ m + 1 = 0 := by
        rintro ⟨m, -, -, heq⟩
        cases heq
      rw [or_iff_left hnone, and_iff_left rfl]
      constructor
      · rintro rfl
        exact ⟨Nat.zero_le _, .start 0, fun m _ => Nat.zero_le m⟩
      · exact fun h => within_zero.mp h.2.1
  | succ m =>
      constructor
      · rintro (⟨-, heq⟩ | ⟨m', hm, hlast, heq⟩)
        · cases heq
        · obtain rfl := Nat.succ.inj heq
          obtain ⟨hwithin, hnot⟩ := mem_last.mp hlast
          exact ⟨hm, hwithin, fun x hx => Nat.lt_of_not_le fun hle => hnot (hx.mono hle)⟩
      · rintro ⟨hm, hwithin, hleast⟩
        refine .inr ⟨m, hm, mem_last.mpr ⟨hwithin, fun hearlier => ?_⟩, rfl⟩
        exact Nat.not_succ_le_self m (hleast hearlier)

theorem get?_levelLog {start a : PyStr} {bound k : Nat} : Dict.get? (levelLog graph up start bound) a = some k ↔
    k ≤ bound ∧ IsLeast {m | Within (graph.steps (.oneWay up)) start m a} k := by
  rw [← Dict.mem_iff_get? (map_fst_levelLog start bound ▸ nodup_level bound), mem_levelLog]

/-! ### One walk -/

variable (up) in
/-- **What a bounded walk records.** -/
theorem bfs_spec {start : PyStr} (hstart : start ∈ graph.nodes.map GraphNode.id) (bound : Nat) (st : Bfs) :
    (graph.bfs start (some (bound : ℚ)) up st).depths = putDepths st.depths (levelLog graph up start bound) ∧
      (graph.bfs start (some (bound : ℚ)) up st).edges =
        putEdges st.edges ((taken (graph.steps (.oneWay up)) start bound).map Hop.label) := by
  have hfull : ∀ d : Nat, ((some (bound : ℚ)).any fun b => decide (b ≤ (d : ℚ))) = decide (bound ≤ d) := fun d => by
    rw [Option.any_some, decide_eq_decide]
    exact Nat.cast_le
  have hstarts := bfs_tracks_start start st
  cases bound with
  | zero =>
      have hdone : graph.bfs start (some ((0 : Nat) : ℚ)) up st = ⟨[start],
          Dict.set st.depths start (min ((Dict.get? st.depths start).getD 0) 0), st.edges⟩ := by
        refine drain_full (fun e _ => ?_) _ _
        rw [hfull]
        exact decide_eq_true (Nat.zero_le _)
      rw [hdone]
      exact ⟨rfl, rfl⟩
  | succ n =>
      have hpos : (0 : ℚ) < ((n + 1 : Nat) : ℚ) := Nat.cast_pos.mpr (Nat.succ_pos n)
      have htracks := bfs_tracks hstart up hpos st
      rw [Nat.ceil_natCast] at htracks
      refine ⟨?_, htracks.edges⟩
      have htracking : Tracking (graph.steps (.oneWay up)) (graph.bfsExpand up) (Bfs.Tracks st.depths st.edges) :=
        bfs_tracking up st.depths st.edges
      have hrounds := htracking.drain_eq_rounds (Nat.succ_pos n) hfull hstarts (length_level_le hstart up _)
      have hlogged := htracking.logged (n + 1) (k := 0) hstarts
      rw [LineageGraph.bfs, hrounds, depths_rounds]
      change putDepths _ (logged _ _ 0 (level (graph.steps (.oneWay up)) start 0).2 _) = _
      rw [hlogged]
      rfl

/-- The least number of hops that some of these walks need. -/
def IsDepth (graph : LineageGraph) (start : PyStr) (walks : List Bool) (a : PyStr) (k : Nat) : Prop :=
  IsLeast {m | ∃ up ∈ walks, Within (graph.steps (.oneWay up)) start m a} k

/-- The value is the least number of a set, if it is within a bound. -/
def IsLeastUpTo (bound : Nat) (s : Set Nat) (value : Option Nat) : Prop :=
  ∀ k, value = some k ↔ k ≤ bound ∧ IsLeast s k

theorem IsLeastUpTo.lt_of_none {bound : Nat} {s : Set Nat} (h : IsLeastUpTo bound s none) {m : Nat} (hm : m ∈ s) :
    bound < m := by
  by_contra hle
  have hleast : IsLeast s (sInf s) := ⟨Nat.sInf_mem ⟨m, hm⟩, fun _ hx => Nat.sInf_le hx⟩
  have hnone := (h (sInf s)).mpr ⟨(Nat.sInf_le hm).trans (not_lt.mp hle), hleast⟩
  cases hnone

theorem isLeastUpTo_of_least {bound : Nat} {s : Set Nat} {k : Nat} (hk : k ≤ bound) (h : IsLeast s k) :
    IsLeastUpTo bound s (some k) := by
  intro m
  rw [Option.some.injEq]
  constructor
  · rintro rfl
    exact ⟨hk, h⟩
  · exact fun hm => h.unique hm.2

/-- The smaller one of two. -/
theorem IsLeastUpTo.union {bound : Nat} {s t : Set Nat} {p q : Option Nat} (hp : IsLeastUpTo bound s p)
    (hq : IsLeastUpTo bound t q) : IsLeastUpTo bound (s ∪ t) (smaller p q) := by
  cases q with
  | none =>
      intro k
      rw [smaller, hp k]
      refine and_congr_right fun hk => ⟨fun h => ⟨.inl h.1, ?_⟩, fun h => ⟨?_, fun m hm => h.2 (.inl hm)⟩⟩
      · rintro m (hm | hm)
        · exact h.2 hm
        · exact hk.trans (hq.lt_of_none hm).le
      · exact h.1.resolve_right fun hm => absurd hk (not_le.mpr (hq.lt_of_none hm))
  | some k =>
      obtain ⟨hk, hleast⟩ := (hq k).mp rfl
      cases p with
      | none =>
          refine isLeastUpTo_of_least (by simpa using hk) ⟨.inr (by simpa using hleast.1), ?_⟩
          rintro m (hm | hm)
          · simpa using hk.trans (hp.lt_of_none hm).le
          · simpa using hleast.2 hm
      | some j =>
          obtain ⟨hj, hleast'⟩ := (hp j).mp rfl
          exact isLeastUpTo_of_least ((min_le_right _ _).trans hk) (hleast'.union hleast)

/-- Depths are put in for a walk after others. -/
theorem get?_putDepths_levelLog {start : PyStr} {bound : Nat} {walks : List Bool} {d : List (PyStr × Nat)} {a : PyStr}
    (h : IsLeastUpTo bound {m | ∃ up ∈ walks, Within (graph.steps (.oneWay up)) start m a} (Dict.get? d a)) :
    IsLeastUpTo bound {m | ∃ up' ∈ walks ++ [up], Within (graph.steps (.oneWay up')) start m a}
      (Dict.get? (putDepths d (levelLog graph up start bound)) a) := by
  have hset : {m | ∃ up' ∈ walks ++ [up], Within (graph.steps (.oneWay up')) start m a} =
      {m | ∃ up' ∈ walks, Within (graph.steps (.oneWay up')) start m a} ∪
        {m | Within (graph.steps (.oneWay up)) start m a} := by
    ext m
    simp [or_and_right, exists_or]
  rw [get?_putDepths (map_fst_levelLog start bound ▸ nodup_level bound), hset]
  exact h.union fun k => get?_levelLog

/-- **What bounded walks record**, one after the other. -/
theorem foldl_bfs_spec {start : PyStr} (hstart : start ∈ graph.nodes.map GraphNode.id) (bound : Nat)
    (walks : List Bool) :
    let final := walks.foldl (fun st up => graph.bfs start (some (bound : ℚ)) up st) ⟨[], [], []⟩
    (∀ a k, Dict.get? final.depths a = some k ↔ k ≤ bound ∧ IsDepth graph start walks a k) ∧
      final.edges = putEdges []
        (walks.flatMap fun up => (taken (graph.steps (.oneWay up)) start bound).map Hop.label) := by
  induction walks using List.reverseRecOn with
  | nil =>
      refine ⟨fun a k => iff_of_false (fun hnone => nomatch hnone) ?_, rfl⟩
      rintro ⟨-, ⟨up, hup, -⟩, -⟩
      cases hup
  | append_singleton walks up ih =>
      obtain ⟨hdepths, hedges⟩ := bfs_spec up hstart bound
        (walks.foldl (fun st up => graph.bfs start (some (bound : ℚ)) up st) ⟨[], [], []⟩)
      rw [List.foldl_append, List.foldl_cons, List.foldl_nil]
      refine ⟨fun a => ?_, ?_⟩
      · rw [hdepths]
        exact get?_putDepths_levelLog (ih.1 a)
      · rw [hedges, ih.2, ← putEdges_append, List.flatMap_append, List.flatMap_singleton]

/-! ### Walks without a bound -/

/-- As many levels as there are nodes are enough. -/
theorem bfs_none (start : PyStr) (bound : Nat) (hbound : graph.nodes.length ≤ bound) (st : Bfs) :
    graph.bfs start none up st = graph.bfs start (some (bound : ℚ)) up st := by
  refine drain_congr (k := 0) (fun e he => ?_) fun d hd => ?_
  · obtain rfl := List.mem_singleton.mp he
    exact le_rfl
  · have hlt : d < bound := by omega
    rw [Option.any_none, Option.any_some]
    exact (decide_eq_false (not_le.mpr (Nat.cast_lt.mpr hlt))).symm

/-- The bound of a walk, with one that is enough where there is none. -/
def boundOf (graph : LineageGraph) (depth : Option Nat) : Nat := depth.getD (graph.nodes.length + 1)

theorem foldl_bfs_eq (start : PyStr) (depth : Option Nat) (walks : List Bool) (st : Bfs) :
    walks.foldl (fun st up => graph.bfs start (depth.map Nat.cast) up st) st =
      walks.foldl (fun st up => graph.bfs start (some ((boundOf graph depth : Nat) : ℚ)) up st) st := by
  cases depth with
  | some bound => rfl
  | none =>
      refine List.foldl_ext _ _ _ fun st up _ => ?_
      exact bfs_none start _ (Nat.le_succ _) st

/-- What can be reached at all is reached within as many hops as there are nodes. -/
theorem isDepth_le {start : PyStr} (hstart : start ∈ graph.nodes.map GraphNode.id) {walks : List Bool} {a : PyStr}
    {k : Nat} (h : IsDepth graph start walks a k) : k ≤ graph.nodes.length := by
  have hsome := ((foldl_bfs_spec hstart (max k graph.nodes.length) walks).1 a k).mpr ⟨le_max_left _ _, h⟩
  have heq : ∀ bound : Nat, graph.nodes.length ≤ bound →
      walks.foldl (fun st up => graph.bfs start (some (bound : ℚ)) up st) ⟨[], [], []⟩ =
        walks.foldl (fun st up => graph.bfs start none up st) ⟨[], [], []⟩ := fun bound hbound =>
    List.foldl_ext _ _ _ fun st up _ => (bfs_none start bound hbound st).symm
  rw [heq _ (le_max_right _ _), ← heq _ le_rfl] at hsome
  exact (((foldl_bfs_spec hstart graph.nodes.length walks).1 a k).mp hsome).1

/-! ### What is returned -/

/-- The edge is out of a node of one of the walks, in front of the last level. -/
def Traversed (graph : LineageGraph) (start : PyStr) (direction : Direction) (depth : Option Nat) (e : GraphEdge) :
    Prop :=
  e ∈ graph.edges ∧ ∃ up ∈ direction.walks, ∃ m, (∀ bound ∈ depth, m < bound) ∧
    Within (graph.steps (.oneWay up)) start m (if up then e.target else e.source)

/-- **What a walk returns.** -/
structure IsWalk (graph : LineageGraph) (start : PyStr) (direction : Direction) (depth : Option Nat)
    (r : LineageResult) : Prop where
  nodes : ∀ n k, (n, k) ∈ r.nodes ↔ graph.nodeById n.id = some n ∧ (∀ bound ∈ depth, k ≤ bound) ∧
    IsDepth graph start direction.walks n.id k
  once : (r.nodes.map fun n => n.1.id).Nodup
  edges : ∀ e ∈ r.edges, Traversed graph start direction depth e ∧
    e.source ∈ r.nodes.map (fun n => n.1.id) ∧ e.target ∈ r.nodes.map fun n => n.1.id
  cycles : r.cycles ≠ [] ↔ HasCycle (· ∈ r.edges)
  all : ∀ e, Traversed graph start direction depth e → ∃ e' ∈ r.edges, e'.id = e.id
  listed : ∀ id ∈ r.cycles, ∃ e ∈ r.edges, e.id = id ∧
    Relation.ReflTransGen (fun a b => ∃ e ∈ r.edges, e.source = a ∧ e.target = b) e.target e.source
  acyclic : ¬ HasCycle fun e => e ∈ r.edges ∧ e.id ∉ r.cycles

theorem mem_of_mem_putEdges {d : List (PyStr × GraphEdge)} {l : List GraphEdge} {e : GraphEdge}
    (h : e ∈ (putEdges d l).map Prod.snd) : e ∈ d.map Prod.snd ∨ e ∈ l := by
  induction l generalizing d with
  | nil => exact .inl h
  | cons e' rest ih =>
      obtain h | h := ih (d := Dict.set d e'.id e') h
      · obtain ⟨x, hx, rfl⟩ := List.mem_map.mp h
        obtain hx | rfl := Dict.mem_set hx
        · exact .inl (List.mem_map_of_mem hx)
        · exact .inr List.mem_cons_self
      · exact .inr (List.mem_cons_of_mem _ h)

theorem exists_mem_putEdges {l : List GraphEdge} {e : GraphEdge} (h : e ∈ l) :
    ∃ e' ∈ (putEdges [] l).map Prod.snd, e'.id = e.id := by
  have hpairs : putEdges [] l = Dict.ofList (l.map fun e => (e.id, e)) := by
    rw [putEdges, Dict.ofList, List.foldl_map]
  have hsome : (Dict.get? (putEdges [] l) e.id).isSome := by
    rw [hpairs]
    exact Dict.isSome_get?_ofList.mpr ⟨_, List.mem_map_of_mem h, rfl⟩
  obtain ⟨e', he'⟩ := Option.isSome_iff_exists.mp hsome
  have hmem := Dict.mem_of_get? he'
  rw [hpairs] at he'
  obtain ⟨e'', -, heq⟩ := List.mem_map.mp (Dict.mem_of_get?_ofList he')
  obtain ⟨hid, rfl⟩ := Prod.mk.inj heq
  exact ⟨e'', List.mem_map_of_mem hmem, hid⟩

theorem nodup_putDepths {d : List (PyStr × Nat)} (h : (d.map Prod.fst).Nodup) (log : List (PyStr × Nat)) :
    ((putDepths d log).map Prod.fst).Nodup := by
  induction log generalizing d with
  | nil => exact h
  | cons e rest ih => exact ih (Dict.nodup_set h _ _)

theorem nodup_foldl_bfs {start : PyStr} (hstart : start ∈ graph.nodes.map GraphNode.id) (bound : Nat)
    (walks : List Bool) : ((walks.foldl (fun st up => graph.bfs start (some (bound : ℚ)) up st)
      ⟨[], [], []⟩).depths.map Prod.fst).Nodup := by
  induction walks using List.reverseRecOn with
  | nil => exact List.nodup_nil
  | append_singleton walks up ih =>
      rw [List.foldl_append, List.foldl_cons, List.foldl_nil, (bfs_spec up hstart bound _).1]
      exact nodup_putDepths ih _

theorem id_of_nodeById {id : PyStr} {n : GraphNode} (h : graph.nodeById id = some n) : n.id = id := by
  obtain ⟨n', -, heq⟩ := List.mem_map.mp (Dict.mem_of_get?_ofList h)
  obtain ⟨hid, rfl⟩ := Prod.mk.inj heq
  exact hid

/-- A node is within reach exactly where it has a depth within the bound. -/
theorem exists_isDepth_iff {start : PyStr} {walks : List Bool} {a : PyStr} {bound : Nat} :
    (∃ k ≤ bound, IsDepth graph start walks a k) ↔ ∃ up ∈ walks, Within (graph.steps (.oneWay up)) start bound a := by
  constructor
  · rintro ⟨k, hk, ⟨up, hup, hwithin⟩, -⟩
    exact ⟨up, hup, hwithin.mono hk⟩
  · intro h
    have hmem : bound ∈ {m | ∃ up ∈ walks, Within (graph.steps (.oneWay up)) start m a} := h
    exact ⟨_, Nat.sInf_le hmem, Nat.sInf_mem ⟨bound, hmem⟩, fun _ hx => Nat.sInf_le hx⟩

theorem le_boundOf_iff {start : PyStr} (hstart : start ∈ graph.nodes.map GraphNode.id) {walks : List Bool} {a : PyStr}
    {k : Nat} (h : IsDepth graph start walks a k) (depth : Option Nat) :
    k ≤ boundOf graph depth ↔ ∀ bound ∈ depth, k ≤ bound := by
  cases depth with
  | none => exact iff_of_true ((isDepth_le hstart h).trans (Nat.le_succ _)) fun _ hb => nomatch hb
  | some bound => exact ⟨fun hk b hb => Option.some.inj hb ▸ hk, fun hk => hk bound rfl⟩

/-- The edges that are put in for the walks are those that they traverse. -/
theorem mem_taken_boundOf {start : PyStr} (hstart : start ∈ graph.nodes.map GraphNode.id) {direction : Direction}
    {depth : Option Nat} {e : GraphEdge} :
    e ∈ (direction.walks.flatMap fun up =>
      (taken (graph.steps (.oneWay up)) start (boundOf graph depth)).map Hop.label) ↔
      Traversed graph start direction depth e := by
  have hsteps : ∀ (up : Bool) a b, (e, b) ∈ graph.steps (.oneWay up) a ↔
      e ∈ graph.edges ∧ (if up then e.target else e.source) = a ∧ e.neighbor up = b := by
    intro up a b
    rw [steps_oneWay, List.mem_map]
    constructor
    · rintro ⟨e', he', heq⟩
      obtain ⟨rfl, rfl⟩ := Prod.mk.inj heq
      exact ⟨(mem_adjacent.mp he').1, (mem_adjacent.mp he').2, rfl⟩
    · rintro ⟨he, ha, rfl⟩
      exact ⟨e, mem_adjacent.mpr ⟨he, ha⟩, rfl⟩
  rw [List.mem_flatMap]
  constructor
  · rintro ⟨up, hup, he⟩
    cases hbound : boundOf graph depth with
    | zero =>
        rw [hbound] at he
        cases he
    | succ n =>
        rw [hbound] at he
        obtain ⟨a, b, hwithin, hstep⟩ := mem_labels.mp he
        obtain ⟨hedge, rfl, -⟩ := (hsteps up a b).mp hstep
        refine ⟨hedge, up, hup, n, fun bound hb => ?_, hwithin⟩
        obtain rfl : depth = some bound := hb
        have heq : bound = n + 1 := hbound
        omega
  · rintro ⟨hedge, up, hup, m, hm, hwithin⟩
    refine ⟨up, hup, ?_⟩
    obtain ⟨n, hn, hwithin'⟩ : ∃ n, boundOf graph depth = n + 1 ∧
        Within (graph.steps (.oneWay up)) start n (if up then e.target else e.source) := by
      cases depth with
      | some bound =>
          have hlt := hm bound rfl
          obtain ⟨n, rfl⟩ : ∃ n, bound = n + 1 := ⟨bound - 1, by omega⟩
          exact ⟨n, rfl, hwithin.mono (Nat.lt_succ_iff.mp hlt)⟩
      | none =>
          have hreach : ∃ up' ∈ [up], Within (graph.steps (.oneWay up')) start m (if up then e.target else e.source) :=
            ⟨up, List.mem_singleton_self up, hwithin⟩
          obtain ⟨k, -, hk⟩ := exists_isDepth_iff.mpr hreach
          obtain ⟨up', hup', hk'⟩ := hk.1
          obtain rfl := List.mem_singleton.mp hup'
          exact ⟨_, rfl, hk'.mono (isDepth_le hstart hk)⟩
    rw [hn]
    exact mem_labels.mpr ⟨_, _, hwithin', (hsteps up _ _).mpr ⟨hedge, rfl, rfl⟩⟩

/-- Both ends of an edge that is taken are within reach. -/
theorem ends_of_taken {start : PyStr} {bound : Nat} {e : GraphEdge}
    (h : e ∈ (taken (graph.steps (.oneWay up)) start bound).map Hop.label) :
    Within (graph.steps (.oneWay up)) start bound e.source ∧ Within (graph.steps (.oneWay up)) start bound e.target := by
  cases bound with
  | zero => cases h
  | succ n =>
      obtain ⟨a, b, ha, hstep⟩ := mem_labels.mp h
      obtain ⟨-, ⟨-, rfl, rfl⟩ | ⟨-, rfl, rfl⟩⟩ := mem_steps.mp hstep
      · exact ⟨ha.succ, ha.step hstep⟩
      · exact ⟨ha.step hstep, ha.succ⟩

theorem not_negative (depth : Option Nat) :
    ¬ ((depth.map (Nat.cast : Nat → ℚ)).any fun bound => decide (bound < 0)) = true := by
  cases depth with
  | none => exact Bool.false_ne_true
  | some bound =>
      rw [Option.map_some, Option.any_some, decide_eq_true_eq]
      exact not_lt.mpr (Nat.cast_nonneg bound)

/-- **From a node of the graph.** -/
theorem isWalk_of_mem {start : PyStr} (hstart : start ∈ graph.nodes.map GraphNode.id) (direction : Direction)
    (depth : Option Nat) : ∃ r, getLineage graph start direction (depth.map Nat.cast) = some r ∧
      IsWalk graph start direction depth r := by
  have hvalid := not_negative depth
  have hknown : ¬ (Dict.get? (Dict.ofList (graph.nodes.map fun n => (n.id, n))) start).isNone = true := by
    have hsome : (Dict.get? (Dict.ofList (graph.nodes.map fun n => (n.id, n))) start).isSome = true :=
      nodeById_ne_none hstart
    rw [Option.isNone_iff_eq_none]
    exact Option.isSome_iff_ne_none.mp hsome
  obtain ⟨hdepths, hedges⟩ := foldl_bfs_spec hstart (boundOf graph depth) direction.walks
  have hnodup := nodup_foldl_bfs hstart (boundOf graph depth) direction.walks
  refine ⟨_, by rw [getLineage, if_neg hvalid, if_neg hknown], ?_⟩
  rw [foldl_bfs_eq]
  generalize direction.walks.foldl (fun st up => graph.bfs start (some ((boundOf graph depth : Nat) : ℚ)) up st)
    ⟨[], [], []⟩ = st at hdepths hedges hnodup ⊢
  have hrecorded : ∀ a k, (a, k) ∈ st.depths ↔
      (∀ bound ∈ depth, k ≤ bound) ∧ IsDepth graph start direction.walks a k := by
    intro a k
    rw [Dict.mem_iff_get? hnodup, hdepths]
    exact and_congr_left fun h => le_boundOf_iff hstart h depth
  have hkeys : ∀ a, a ∈ st.depths.map Prod.fst ↔
      ∃ up ∈ direction.walks, Within (graph.steps (.oneWay up)) start (boundOf graph depth) a := by
    intro a
    rw [← exists_isDepth_iff, List.mem_map]
    constructor
    · rintro ⟨⟨a, k⟩, hmem, rfl⟩
      exact ⟨k, (hdepths a k).mp (Dict.get?_of_mem hnodup hmem)⟩
    · rintro ⟨k, hk⟩
      exact ⟨(a, k), Dict.mem_of_get? ((hdepths a k).mpr hk), rfl⟩
  have hranked : ∀ n k, (n, k) ∈ (sortOn (fun e => (toLex (e.2, e.1) : Nat ×ₗ PyStr)) st.depths).filterMap
      (fun e => (graph.nodeById e.1).map (·, e.2)) ↔ graph.nodeById n.id = some n ∧ (n.id, k) ∈ st.depths := by
    intro n k
    simp only [List.mem_filterMap, mem_sortOn, Option.map_eq_some_iff]
    constructor
    · rintro ⟨⟨a, k'⟩, hmem, n', hn, heq⟩
      obtain ⟨rfl, rfl⟩ := Prod.mk.inj heq
      obtain rfl := id_of_nodeById hn
      exact ⟨hn, hmem⟩
    · rintro ⟨hn, hmem⟩
      exact ⟨_, hmem, n, hn, rfl⟩
  have hids : ∀ a, a ∈ ((sortOn (fun e => (toLex (e.2, e.1) : Nat ×ₗ PyStr)) st.depths).filterMap
      (fun e => (graph.nodeById e.1).map (·, e.2))).map (fun n => n.1.id) ↔ a ∈ st.depths.map Prod.fst := by
    intro a
    constructor
    · intro h
      obtain ⟨⟨n, k⟩, hmem, rfl⟩ := List.mem_map.mp h
      exact List.mem_map.mpr ⟨_, ((hranked n k).mp hmem).2, rfl⟩
    · intro h
      obtain ⟨up, -, hwithin⟩ := (hkeys a).mp h
      obtain ⟨⟨a', k⟩, hmem, rfl⟩ := List.mem_map.mp h
      obtain ⟨n, hn⟩ := Option.isSome_iff_exists.mp (nodeById_ne_none (mem_nodes_of_within hstart hwithin))
      obtain rfl := id_of_nodeById hn
      exact List.mem_map.mpr ⟨(n, k), (hranked n k).mpr ⟨hn, hmem⟩, rfl⟩
  have htraversed : ∀ e ∈ st.edges.map Prod.snd, Traversed graph start direction depth e := by
    intro e he
    rw [hedges] at he
    exact (mem_taken_boundOf hstart).mp ((mem_of_mem_putEdges he).resolve_left List.not_mem_nil)
  have hends : ∀ e, Traversed graph start direction depth e →
      e.source ∈ st.depths.map Prod.fst ∧ e.target ∈ st.depths.map Prod.fst := by
    intro e he
    obtain ⟨up, hup, htaken⟩ := List.mem_flatMap.mp ((mem_taken_boundOf hstart).mpr he)
    obtain ⟨hsource, htarget⟩ := ends_of_taken htaken
    exact ⟨(hkeys _).mpr ⟨up, hup, hsource⟩, (hkeys _).mpr ⟨up, hup, htarget⟩⟩
  have hinside : ∀ e, Inside (st.depths.map Prod.fst) (st.edges.map Prod.snd) e ↔ e ∈ st.edges.map Prod.snd :=
    fun e => ⟨fun h => h.1, fun h => ⟨h, hends e (htraversed e h)⟩⟩
  have hsorted : ∀ e, e ∈ sortOn GraphEdge.id (st.edges.map Prod.snd) ↔
      Inside (st.depths.map Prod.fst) (st.edges.map Prod.snd) e := fun e => mem_sortOn.trans (hinside e).symm
  obtain ⟨hlisted, hacyclic⟩ := lineageCycles_spec (st.edges.map Prod.snd) hnodup
  have hcycles := lineageCycles_ne_nil_iff (st.edges.map Prod.snd) hnodup
  simp only [← hsorted] at hlisted hacyclic
  have hconsidered : Inside (st.depths.map Prod.fst) (st.edges.map Prod.snd) =
      fun e => e ∈ sortOn GraphEdge.id (st.edges.map Prod.snd) := funext fun e => propext (hsorted e).symm
  rw [hconsidered] at hcycles
  constructor
  · exact fun n k => (hranked n k).trans (and_congr_right fun _ => hrecorded n.id k)
  · have hsublist := map_filterMap_sublist (h := fun e : PyStr × Nat => (graph.nodeById e.1).map (·, e.2))
      (g := fun n : GraphNode × Nat => n.1.id) (k := Prod.fst)
      (l := sortOn (fun e => (toLex (e.2, e.1) : Nat ×ₗ PyStr)) st.depths) fun e n hn => by
        obtain ⟨n', hn', rfl⟩ := Option.map_eq_some_iff.mp hn
        exact id_of_nodeById hn'
    exact ((sortOn_perm.map Prod.fst).nodup_iff.mpr hnodup).sublist hsublist
  · intro e he
    have htaken := htraversed e (mem_sortOn.mp he)
    obtain ⟨hsource, htarget⟩ := hends e htaken
    exact ⟨htaken, (hids _).mpr hsource, (hids _).mpr htarget⟩
  · exact hcycles
  · intro e he
    obtain ⟨e', he', hid⟩ := exists_mem_putEdges ((mem_taken_boundOf hstart).mpr he)
    rw [← hedges] at he'
    exact ⟨e', mem_sortOn.mpr he', hid⟩
  · exact hlisted
  · exact hacyclic

/-- The result has at least the nodes and the edges of another one. -/
structure LineageResult.Extends (graph : LineageGraph) (r r' : LineageResult) : Prop where
  nodes : ∀ n ∈ r.nodes, n ∈ r'.nodes
  edges : ∀ e ∈ r.edges, ∃ e' ∈ r'.edges, e'.id = e.id ∧ ((graph.edges.map GraphEdge.id).Nodup → e' = e)

theorem IsWalk.extends {start : PyStr} {direction : Direction} {depth depth' : Option Nat} {r r' : LineageResult}
    (h : IsWalk graph start direction depth r) (h' : IsWalk graph start direction depth' r')
    (hle : ∀ bound' ∈ depth', ∃ bound ∈ depth, bound ≤ bound') : r.Extends graph r' := by
  constructor
  · rintro ⟨n, k⟩ hn
    obtain ⟨hnode, hk, hleast⟩ := (h.nodes n k).mp hn
    refine (h'.nodes n k).mpr ⟨hnode, fun bound' hb' => ?_, hleast⟩
    obtain ⟨bound, hb, hle⟩ := hle bound' hb'
    exact (hk bound hb).trans hle
  · intro e he
    obtain ⟨hedge, up, hup, m, hm, hwithin⟩ := (h.edges e he).1
    obtain ⟨e', he', hid⟩ := h'.all e ⟨hedge, up, hup, m, fun bound' hb' => by
      obtain ⟨bound, hb, hle⟩ := hle bound' hb'
      exact (hm bound hb).trans_le hle, hwithin⟩
    exact ⟨e', he', hid, fun hids => List.inj_on_of_nodup_map hids (h'.edges e' he').1.1 hedge hid⟩

/-- Nothing is recorded about what is not a node of the graph. -/
theorem isWalk_of_not_mem {start : PyStr} (hstart : start ∉ graph.nodes.map GraphNode.id) (direction : Direction)
    (depth : Option Nat) : IsWalk graph start direction depth
      ⟨start, direction, depth.map Nat.cast, [], [], []⟩ := by
  have hstays : ∀ {up : Bool} {m : Nat} {a : PyStr}, Within (graph.steps (.oneWay up)) start m a → a = start := by
    intro up m a h
    induction h with
    | start => rfl
    | step _ hstep ih =>
        subst ih
        obtain ⟨hedge, ⟨-, rfl, -⟩ | ⟨-, rfl, -⟩⟩ := mem_steps.mp hstep
        · exact absurd (graph.endpoints _ hedge).1 hstart
        · exact absurd (graph.endpoints _ hedge).2 hstart
  have hnocycle : ∀ p : GraphEdge → Prop, ¬ HasCycle fun e => e ∈ ([] : List GraphEdge) ∧ p e := by
    rintro p ⟨a, hcycle⟩
    obtain ⟨b, ⟨e, ⟨he, -⟩, -⟩, -⟩ := Relation.TransGen.head'_iff.mp hcycle
    cases he
  constructor
  · refine fun n k => iff_of_false List.not_mem_nil ?_
    rintro ⟨hnode, -, ⟨up, -, hwithin⟩, -⟩
    obtain ⟨n', hn', heq⟩ := List.mem_map.mp (Dict.mem_of_get?_ofList hnode)
    obtain ⟨-, rfl⟩ := Prod.mk.inj heq
    exact hstart (hstays hwithin ▸ List.mem_map_of_mem hn')
  · exact List.nodup_nil
  · exact fun e he => absurd he List.not_mem_nil
  · refine iff_of_false (fun hne => hne rfl) fun hcycle => hnocycle (fun _ => True) ?_
    simpa using hcycle
  · rintro e ⟨hedge, up, -, m, -, hwithin⟩
    have hend := hstays hwithin
    cases up with
    | true => exact absurd (hend ▸ (graph.endpoints e hedge).2) hstart
    | false => exact absurd (hend ▸ (graph.endpoints e hedge).1) hstart
  · exact fun id hid => absurd hid List.not_mem_nil
  · exact hnocycle _

theorem exists_isWalk (graph : LineageGraph) (start : PyStr) (direction : Direction) (depth : Option Nat) :
    ∃ r, getLineage graph start direction (depth.map Nat.cast) = some r ∧ IsWalk graph start direction depth r := by
  by_cases hstart : start ∈ graph.nodes.map GraphNode.id
  · exact isWalk_of_mem hstart direction depth
  · refine ⟨_, ?_, isWalk_of_not_mem hstart direction depth⟩
    have hunknown : (Dict.get? (Dict.ofList (graph.nodes.map fun n => (n.id, n))) start).isNone = true := by
      rw [Option.isNone_iff_eq_none, ← Option.not_isSome_iff_eq_none, Dict.isSome_get?_ofList]
      rintro ⟨x, hx, heq⟩
      obtain ⟨n, hn, rfl⟩ := List.mem_map.mp hx
      exact hstart (heq ▸ List.mem_map_of_mem hn)
    rw [getLineage, if_neg (not_negative depth), if_pos hunknown]

/-- **The law of lineage walks**: a walk returns the nodes within its depth, each with the least number of hops to it,
and the edges that it traverses between them. What it reports as closing a cycle are edges of cycles, without which
there are none. A deeper walk returns more. -/
theorem getLineage_law (graph : LineageGraph) (start : PyStr) (direction : Direction) (depth : Option Nat) :
    ∃ r, getLineage graph start direction (depth.map Nat.cast) = some r ∧ IsWalk graph start direction depth r ∧
      ∀ depth' : Option Nat, (∀ bound' ∈ depth', ∃ bound ∈ depth, bound ≤ bound') →
        ∃ r', getLineage graph start direction (depth'.map Nat.cast) = some r' ∧ r.Extends graph r' := by
  obtain ⟨r, hr, hwalk⟩ := exists_isWalk graph start direction depth
  refine ⟨r, hr, hwalk, fun depth' hle => ?_⟩
  obtain ⟨r', hr', hwalk'⟩ := exists_isWalk graph start direction depth'
  exact ⟨r', hr', hwalk.extends hwalk' hle⟩

end

end ContextLayer
