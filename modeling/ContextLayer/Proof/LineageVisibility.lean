import ContextLayer.Proof.LineageWalk

/-!
# Lineage of what is visible

A hidden node is not walked to, so the walk stays on the visible nodes, and of the edges at one of these it takes those
that the visible part of the graph has.
-/

namespace ContextLayer

open Text StableSort Levels

variable {graph : LineageGraph} {visible : PyStr → Bool} {direction : Direction}

/-- The subgraph induced by the visible nodes. -/
def LineageGraph.visiblePart (graph : LineageGraph) (visible : PyStr → Bool) : LineageGraph where
  nodes := graph.nodes.filter fun n => visible n.id
  edges := graph.edges.filter fun e => visible e.source && visible e.target
  endpoints e he := by
    obtain ⟨hmem, hends⟩ := List.mem_filter.mp he
    obtain ⟨hsource, htarget⟩ := Bool.and_eq_true_iff.mp hends
    have hkept : ∀ id ∈ graph.nodes.map GraphNode.id, visible id = true →
        id ∈ (graph.nodes.filter fun n => visible n.id).map GraphNode.id := by
      intro id hid hvisible
      obtain ⟨n, hn, rfl⟩ := List.mem_map.mp hid
      exact List.mem_map_of_mem (List.mem_filter.mpr ⟨hn, hvisible⟩)
    exact ⟨hkept _ (graph.endpoints e hmem).1 hsource, hkept _ (graph.endpoints e hmem).2 htarget⟩

theorem adjacent_visiblePart {up : Bool} {a : PyStr} (ha : visible a = true) :
    (graph.visiblePart visible).adjacent up a = (graph.adjacent up a).filter fun e => visible (e.otherEnd a) := by
  rw [LineageGraph.adjacent, LineageGraph.adjacent, LineageGraph.visiblePart, List.filter_filter, List.filter_filter]
  refine List.filter_congr fun e _ => ?_
  by_cases hend : (if up then e.target else e.source) = a
  · rw [decide_eq_true hend, Bool.true_and, Bool.and_true, GraphEdge.otherEnd]
    cases up with
    | true =>
        obtain rfl : e.target = a := hend
        rw [ha, Bool.and_true]
        by_cases hloop : e.source = e.target
        · rw [if_pos hloop, hloop]
        · rw [if_neg hloop]
    | false =>
        obtain rfl : e.source = a := hend
        rw [ha, Bool.true_and, if_pos rfl]
  · rw [decide_eq_false hend, Bool.false_and, Bool.and_false]

theorem candidates_visiblePart {a : PyStr} (ha : visible a = true) :
    (graph.visiblePart visible).candidates direction a =
      (graph.candidates direction a).filter fun e => visible (e.otherEnd a) := by
  rw [LineageGraph.candidates, LineageGraph.candidates, List.filter_append]
  congr 1
  · split
    · exact adjacent_visiblePart ha
    · rfl
  · split
    · exact adjacent_visiblePart ha
    · rfl

/-- Leaving the hidden ends out at each edge is leaving their edges out. -/
theorem foldl_follow_filter (a : PyStr) (edges : List GraphEdge) (out : List PyStr × Walked) :
    edges.foldl (Walked.follow visible a) out =
      (edges.filter fun e => visible (e.otherEnd a)).foldl (Walked.follow (fun _ => true) a) out := by
  induction edges generalizing out with
  | nil => rfl
  | cons e edges ih =>
      by_cases hvisible : visible (e.otherEnd a) = true
      · rw [List.filter_cons, if_pos hvisible, List.foldl_cons, List.foldl_cons, ih]
        congr 1
        rw [Walked.follow, Walked.follow]
        dsimp only
        rw [if_pos hvisible, if_pos rfl]
      · rw [List.filter_cons, if_neg hvisible, List.foldl_cons, ih]
        congr 1
        rw [Walked.follow]
        dsimp only
        rw [if_neg hvisible]

theorem visible_of_mem_follow {a b : PyStr} {edges : List GraphEdge} {out : List PyStr × Walked}
    (hout : ∀ b ∈ out.1, visible b = true) (hb : b ∈ (edges.foldl (Walked.follow visible a) out).1) :
    visible b = true := by
  induction edges generalizing out with
  | nil => exact hout b hb
  | cons e edges ih =>
      refine ih (fun c hc => ?_) hb
      rw [Walked.follow] at hc
      dsimp only at hc
      split at hc
      · rename_i hvisible
        split at hc
        · exact hout c hc
        · rcases List.mem_append.mp hc with hold | hnew
          · exact hout c hold
          · rw [List.mem_singleton.mp hnew]
            exact hvisible
      · exact hout c hc

theorem walk_visiblePart {object : PyStr} (hobject : visible object = true) (depth : ℚ) :
    graph.walk visible object direction depth =
      (graph.visiblePart visible).walk (fun _ => true) object direction depth := by
  refine rounds_congr (p := fun a => visible a = true) (fun d a s ha => ?_) (fun d a s _ b hb => ?_) _ _
    (fun a ha => ?_) _
  · rw [LineageGraph.walkExpand, LineageGraph.walkExpand, foldl_follow_filter, candidates_visiblePart ha]
  · exact visible_of_mem_follow (fun c hc => absurd hc List.not_mem_nil) hb
  · rw [List.mem_singleton.mp ha]
    exact hobject

theorem visible_of_visited {object a : PyStr} (hobject : visible object = true) {depth : ℚ}
    (ha : a ∈ (graph.walk visible object direction depth).visited) : visible a = true := by
  rw [(walk_tracks object depth).visited, mem_level] at ha
  generalize ⌈depth⌉₊ = n at ha
  cases ha with
  | start => exact hobject
  | step _ hstep => exact (List.mem_filter.mp hstep).2

theorem nodeById_visiblePart {id : PyStr} (hid : visible id = true) :
    Dict.get? (Dict.ofList ((graph.visiblePart visible).nodes.map fun n => (n.id, n))) id =
      Dict.get? (Dict.ofList (graph.nodes.map fun n => (n.id, n))) id := by
  have hnodes : ((graph.visiblePart visible).nodes.map fun n => (n.id, n)) =
      (graph.nodes.map fun n => (n.id, n)).filter fun e => visible e.1 := by
    rw [List.filter_map]
    rfl
  rw [Dict.get?_ofList, Dict.get?_ofList, hnodes, ← List.filter_reverse, Dict.get?_filter_key, if_pos hid]

/-- **The hidden part of a graph is not there**: about an object that is visible, the tool answers as it does on the
subgraph of the visible nodes with nothing hidden. -/
theorem toolGetLineage_visiblePart (visible : PyStr → Bool) (graph : LineageGraph) (args : LineageArgs)
    (h : visible (args.object.getD []) = true) :
    toolGetLineage visible (some graph) args =
      toolGetLineage (fun _ => true) (some (graph.visiblePart visible)) args := by
  rw [toolGetLineage, toolGetLineage]
  dsimp only
  rw [nodeById_visiblePart h, if_pos h, if_pos rfl, ← walk_visiblePart h]
  congr 4
  refine List.map_congr_left fun a ha => ?_
  rw [nodeById_visiblePart (visible_of_visited h ((List.mem_insertionSort _).mp ha))]

/-- Sales are made of orders by way of a staging table. -/
def staged : LineageGraph where
  nodes := [⟨py "orders", none, suffix_of_none⟩, ⟨py "staging", none, suffix_of_none⟩, ⟨py "sales", none, suffix_of_none⟩]
  edges := [⟨py "load", py "orders", py "staging", []⟩, ⟨py "sum", py "staging", py "sales", []⟩]
  endpoints := by decide

example : (staged.visiblePart fun id => decide (id ≠ py "staging")).edges.length = 0 := by decide +kernel

theorem toolGetLineage_staged : toolGetLineage (fun id => decide (id ≠ py "staging")) (some staged)
      (downstreamOf "orders") = toolGetLineage (fun _ => true)
        (some (staged.visiblePart fun id => decide (id ≠ py "staging"))) (downstreamOf "orders") :=
  toolGetLineage_visiblePart _ staged (downstreamOf "orders") (by decide)

end ContextLayer
