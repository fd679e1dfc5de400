import ContextLayer.LineageWalk

/-!
# Where the lineage walks agree

One way, the tool and the library visit the same nodes and take the same edges. Both ways at once the tool turns
around at every node. And what it calls a cycle are two steps that meet.
-/

namespace ContextLayer

open Text StableSort Levels

variable {graph : LineageGraph} {visible : PyStr → Bool} {direction : Direction}

/-! ### Steps -/

theorem mem_adjacent {up : Bool} {e : GraphEdge} {a : PyStr} :
    e ∈ graph.adjacent up a ↔ e ∈ graph.edges ∧ (if up then e.target else e.source) = a := by
  rw [LineageGraph.adjacent, List.mem_filter, decide_eq_true_eq]

theorem mem_candidates {e : GraphEdge} {a : PyStr} : e ∈ graph.candidates direction a ↔
    e ∈ graph.edges ∧ ((direction ≠ .upstream ∧ e.source = a) ∨ (direction ≠ .downstream ∧ e.target = a)) := by
  have hpart : ∀ {p : Prop} [Decidable p] {l : List GraphEdge}, e ∈ (if p then l else []) ↔ p ∧ e ∈ l := by
    intro p _ l
    by_cases hp : p <;> simp [hp]
  rw [LineageGraph.candidates, List.mem_append, hpart, hpart, mem_adjacent, mem_adjacent]
  simp only [Bool.false_eq_true, if_false, if_true]
  tauto

theorem mem_steps {e : GraphEdge} {a b : PyStr} : (e, b) ∈ graph.steps direction a ↔ e ∈ graph.edges ∧
    ((direction ≠ .upstream ∧ e.source = a ∧ e.target = b) ∨
      (direction ≠ .downstream ∧ e.target = a ∧ e.source = b)) := by
  rw [LineageGraph.steps, List.mem_map]
  constructor
  · rintro ⟨e', he', heq⟩
    obtain ⟨rfl, rfl⟩ := Prod.mk.inj heq
    obtain ⟨hedge, hway⟩ := mem_candidates.mp he'
    refine ⟨hedge, ?_⟩
    unfold GraphEdge.otherEnd
    by_cases hsource : e'.source = a
    · rw [if_pos hsource]
      rcases hway with ⟨hdown, -⟩ | ⟨hup, htarget⟩
      · exact Or.inl ⟨hdown, hsource, rfl⟩
      · exact Or.inr ⟨hup, htarget, hsource.trans htarget.symm⟩
    · rw [if_neg hsource]
      rcases hway with ⟨-, hsource'⟩ | ⟨hup, htarget⟩
      · exact absurd hsource' hsource
      · exact Or.inr ⟨hup, htarget, rfl⟩
  · rintro ⟨hedge, ⟨hdown, rfl, rfl⟩ | ⟨hup, rfl, rfl⟩⟩
    · exact ⟨e, mem_candidates.mpr ⟨hedge, Or.inl ⟨hdown, rfl⟩⟩, by rw [GraphEdge.otherEnd, if_pos rfl]⟩
    · refine ⟨e, mem_candidates.mpr ⟨hedge, Or.inr ⟨hup, rfl⟩⟩, ?_⟩
      unfold GraphEdge.otherEnd
      by_cases hloop : e.source = e.target
      · rw [if_pos hloop, hloop]
      · rw [if_neg hloop]

def Direction.oneWay (up : Bool) : Direction := if up then .upstream else .downstream

theorem steps_oneWay (up : Bool) (a : PyStr) :
    graph.steps (.oneWay up) a = (graph.adjacent up a).map fun e => (e, e.neighbor up) := by
  have hcandidates : graph.candidates (.oneWay up) a = graph.adjacent up a := by
    cases up with
    | true => exact List.nil_append _
    | false => exact List.append_nil _
  rw [LineageGraph.steps, hcandidates]
  refine List.map_congr_left fun e he => ?_
  have ha := (mem_adjacent.mp he).2
  unfold GraphEdge.otherEnd
  cases up with
  | true =>
      have htarget : e.target = a := ha
      by_cases hsource : e.source = a
      · rw [if_pos hsource, htarget, ← hsource]
        rfl
      · rw [if_neg hsource]
        rfl
  | false =>
      have hsource : e.source = a := ha
      rw [if_pos hsource]
      rfl

/-- Walking in one direction is walking both ways. -/
theorem within_both {up : Bool} {start a : PyStr} {n : Nat} (h : Within (graph.steps (.oneWay up)) start n a) :
    Within (graph.steps .both) start n a := by
  induction h with
  | start n => exact .start n
  | step _ hstep ih =>
      obtain ⟨hedge, ⟨-, hway⟩ | ⟨-, hway⟩⟩ := mem_steps.mp hstep
      · exact .step ih (mem_steps.mpr ⟨hedge, Or.inl ⟨by decide, hway⟩⟩)
      · exact .step ih (mem_steps.mpr ⟨hedge, Or.inr ⟨by decide, hway⟩⟩)

theorem mem_nodes_of_within {start a : PyStr} {n : Nat} (hstart : start ∈ graph.nodes.map GraphNode.id)
    (h : Within (graph.steps direction) start n a) : a ∈ graph.nodes.map GraphNode.id := by
  cases h with
  | start => exact hstart
  | step _ hstep =>
      obtain ⟨hedge, ⟨-, -, rfl⟩ | ⟨-, -, rfl⟩⟩ := mem_steps.mp hstep
      · exact (graph.endpoints _ hedge).2
      · exact (graph.endpoints _ hedge).1

/-- No two edges at a node are one, where they lead elsewhere. -/
theorem nodup_steps_away (hids : (graph.edges.map GraphEdge.id).Nodup) (a : PyStr) :
    ((graph.steps direction a).filter fun s => decide (s.2 ≠ a)).Nodup := by
  have hedges : graph.edges.Nodup := hids.of_map _
  have hadjacent : ∀ up, (graph.adjacent up a).Nodup := fun up => hedges.filter _
  rw [LineageGraph.steps, List.filter_map]
  refine List.Nodup.map (fun e e' heq => (Prod.mk.inj heq).1) ?_
  rw [LineageGraph.candidates, List.filter_append]
  refine List.nodup_append'.mpr ⟨?_, ?_, ?_⟩
  · split
    · exact (hadjacent false).filter _
    · exact List.nodup_nil
  · split
    · exact (hadjacent true).filter _
    · exact List.nodup_nil
  · intro e he he'
    obtain ⟨he, haway⟩ := List.mem_filter.mp he
    obtain ⟨he', -⟩ := List.mem_filter.mp he'
    have hsource : e.source = a := by
      split at he
      · exact (mem_adjacent.mp he).2
      · cases he
    have htarget : e.target = a := by
      split at he'
      · exact (mem_adjacent.mp he').2
      · cases he'
    simp [GraphEdge.otherEnd, hsource, htarget] at haway

/-! ### Edges by their id -/

def putEdges (d : List (PyStr × GraphEdge)) (l : List GraphEdge) : List (PyStr × GraphEdge) :=
  l.foldl (fun d e => Dict.set d e.id e) d

theorem putEdges_append (d : List (PyStr × GraphEdge)) (l l' : List GraphEdge) :
    putEdges d (l ++ l') = putEdges (putEdges d l) l' := List.foldl_append

def KeyedById (graph : LineageGraph) (d : List (PyStr × GraphEdge)) : Prop :=
  ∀ x ∈ d, x.2 ∈ graph.edges ∧ x.1 = x.2.id

theorem mem_set_edge (hids : (graph.edges.map GraphEdge.id).Nodup) {d : List (PyStr × GraphEdge)}
    (hd : KeyedById graph d) {e' : GraphEdge} (he' : e' ∈ graph.edges) {e : GraphEdge} :
    e ∈ (Dict.set d e'.id e').map Prod.snd ↔ e ∈ d.map Prod.snd ∨ e = e' := by
  induction d with
  | nil => simp [Dict.set]
  | cons x rest ih =>
      obtain ⟨k, v⟩ := x
      obtain ⟨hv, hk⟩ := hd _ List.mem_cons_self
      have hrest : KeyedById graph rest := fun x hx => hd x (List.mem_cons_of_mem _ hx)
      unfold Dict.set
      by_cases heq : k = e'.id
      · have hsame : v = e' := List.inj_on_of_nodup_map hids hv he' (hk.symm.trans heq)
        rw [if_pos heq, hsame, List.map_cons, List.mem_cons]
        tauto
      · rw [if_neg heq, List.map_cons, List.mem_cons, ih hrest, List.map_cons, List.mem_cons, or_assoc]

theorem KeyedById.set {d : List (PyStr × GraphEdge)} (hd : KeyedById graph d) {e : GraphEdge} (he : e ∈ graph.edges) :
    KeyedById graph (Dict.set d e.id e) := by
  intro x hx
  rcases Dict.mem_set hx with hx | rfl
  · exact hd x hx
  · exact ⟨he, rfl⟩

theorem mem_putEdges (hids : (graph.edges.map GraphEdge.id).Nodup) {d : List (PyStr × GraphEdge)}
    (hd : KeyedById graph d) {l : List GraphEdge} (hl : ∀ e ∈ l, e ∈ graph.edges) :
    KeyedById graph (putEdges d l) ∧ ∀ e, e ∈ (putEdges d l).map Prod.snd ↔ e ∈ d.map Prod.snd ∨ e ∈ l := by
  induction l generalizing d with
  | nil => exact ⟨hd, fun e => by simp [putEdges]⟩
  | cons e' rest ih =>
      have he' := hl e' List.mem_cons_self
      obtain ⟨hkeyed, hmem⟩ := ih (hd.set he') fun e he => hl e (List.mem_cons_of_mem _ he)
      refine ⟨hkeyed, fun e => ?_⟩
      show e ∈ (putEdges (Dict.set d e'.id e') rest).map Prod.snd ↔ _
      rw [hmem, mem_set_edge hids hd he', List.mem_cons, or_assoc]

/-! ### The tool's walk -/

/-- The steps to what the caller sees. -/
def visibleSteps (visible : PyStr → Bool) (graph : LineageGraph) (direction : Direction) (a : PyStr) :
    List (GraphEdge × PyStr) :=
  (graph.steps direction a).filter fun s => visible s.2

theorem Walked.follow_eq (fqn : PyStr) (new : List PyStr) (st : Walked) (e : GraphEdge)
    (hvisible : visible (e.otherEnd fqn) = true) :
    Walked.follow visible fqn (new, st) e =
      (new ++ fresh st.visited [e.otherEnd fqn],
        ⟨st.visited ++ fresh st.visited [e.otherEnd fqn], Dict.set st.includedEdges e.id e,
          st.cycles || revisits st.visited [⟨fqn, e, e.otherEnd fqn⟩]⟩) := by
  unfold Walked.follow
  dsimp only
  rw [if_pos hvisible]
  by_cases hmem : e.otherEnd fqn ∈ st.visited
  · have hfresh : fresh st.visited [e.otherEnd fqn] = [] := if_pos hmem
    rw [if_pos hmem, hfresh, List.append_nil, List.append_nil]
    by_cases hself : e.otherEnd fqn = fqn
    · simp [revisits, hself]
    · simp [revisits, hself, hmem]
  · have hfresh : fresh st.visited [e.otherEnd fqn] = [e.otherEnd fqn] := if_neg hmem
    rw [if_neg hmem, hfresh]
    simp [revisits, hmem]

/-- The candidates of a node, as steps. -/
theorem Walked.foldl_follow (fqn : PyStr) (l : List GraphEdge) (new : List PyStr) (st : Walked)
    {hops : List (Hop PyStr GraphEdge)}
    (hhops : hops = ((l.filter fun e => visible (e.otherEnd fqn)).map fun e => ⟨fqn, e, e.otherEnd fqn⟩)) :
    l.foldl (Walked.follow visible fqn) (new, st) =
      (new ++ fresh st.visited (hops.map Hop.target),
        ⟨st.visited ++ fresh st.visited (hops.map Hop.target), putEdges st.includedEdges (hops.map Hop.label),
          st.cycles || revisits st.visited hops⟩) := by
  subst hhops
  induction l generalizing new st with
  | nil => simp [fresh, putEdges, revisits]
  | cons e rest ih =>
      rw [List.foldl_cons]
      by_cases hvisible : visible (e.otherEnd fqn) = true
      · have hfilter : (e :: rest).filter (fun e => visible (e.otherEnd fqn)) =
            e :: rest.filter fun e => visible (e.otherEnd fqn) := by
          rw [List.filter_cons, if_pos hvisible]
        rw [Walked.follow_eq fqn new st e hvisible, ih, hfilter, List.map_cons]
        set rest' : List (Hop PyStr GraphEdge) :=
          (rest.filter fun e => visible (e.otherEnd fqn)).map fun e => ⟨fqn, e, e.otherEnd fqn⟩
        have hfresh := fresh_append st.visited [e.otherEnd fqn] (rest'.map Hop.target)
        have hrevisits := revisits_append st.visited [⟨fqn, e, e.otherEnd fqn⟩] rest'
        have hseen : revisits (st.visited ++ fresh st.visited [e.otherEnd fqn]) rest' =
            revisits (st.visited ++ [e.otherEnd fqn]) rest' := revisits_congr (fun _ => mem_append_fresh) rest'
        rw [List.singleton_append] at hfresh hrevisits
        rw [List.map_cons, hfresh, hrevisits, List.map_cons]
        dsimp only
        rw [hseen, List.append_assoc, List.append_assoc, Bool.or_assoc]
        rfl
      · have hskip : Walked.follow visible fqn (new, st) e = (new, st) := if_neg hvisible
        have hfilter : (e :: rest).filter (fun e => visible (e.otherEnd fqn)) =
            rest.filter fun e => visible (e.otherEnd fqn) := by
          rw [List.filter_cons, if_neg hvisible]
        rw [hskip, ih, hfilter]

/-- What the state of the tool's walk stands for. -/
structure Walked.Tracks (start : PyStr) (seen : List PyStr) (taken : List (Hop PyStr GraphEdge)) (st : Walked) :
    Prop where
  visited : st.visited = seen
  edges : st.includedEdges = putEdges [] (taken.map Hop.label)
  cycles : st.cycles = revisits [start] taken
  seen : ∀ a, a ∈ seen ↔ a ∈ [start] ++ taken.map Hop.target

theorem walk_tracking (start : PyStr) :
    Tracking (visibleSteps visible graph direction) (graph.walkExpand visible direction) (Walked.Tracks start) := by
  have hhops : ∀ a, Levels.hops (visibleSteps visible graph direction) [a] =
      (((graph.candidates direction a).filter fun e => visible (e.otherEnd a)).map
        fun e => ⟨a, e, e.otherEnd a⟩) := by
    intro a
    rw [Levels.hops, List.flatMap_singleton, visibleSteps, LineageGraph.steps, List.filter_map, List.map_map]
    rfl
  constructor
  · intro d a seen taken st hst
    rw [LineageGraph.walkExpand, Walked.foldl_follow a _ [] st (hhops a), List.nil_append, hst.visited]
  · intro d a seen taken st hst
    rw [LineageGraph.walkExpand, Walked.foldl_follow a _ [] st (hhops a), List.nil_append, hst.visited]
    constructor
    · rfl
    · rw [List.map_append, putEdges_append, ← hst.edges]
    · have hseen := revisits_congr hst.seen (Levels.hops (visibleSteps visible graph direction) [a])
      rw [revisits_append, ← hst.cycles, ← hseen]
    · intro b
      rw [mem_append_fresh, List.mem_append, hst.seen b, List.map_append, ← List.append_assoc]
      exact List.mem_append.symm

theorem walk_tracks (start : PyStr) (depth : ℚ) :
    Walked.Tracks start (level (visibleSteps visible graph direction) start ⌈depth⌉₊).1
      (taken (visibleSteps visible graph direction) start ⌈depth⌉₊) (graph.walk visible start direction depth) := by
  have hstart : Walked.Tracks start [start] [] ⟨[start], [], false⟩ :=
    ⟨rfl, rfl, rfl, fun a => by rw [List.map_nil, List.append_nil]⟩
  have htracking : Tracking (visibleSteps visible graph direction) (graph.walkExpand visible direction)
      (Walked.Tracks start) := walk_tracking start
  have hrounds := htracking.rounds ⌈depth⌉₊ (k := 0) hstart
  rwa [Nat.zero_add] at hrounds

/-! ### The library's walk -/

theorem Bfs.follow_eq (up : Bool) (d : Nat) (new : List PyStr) (st : Bfs) (e : GraphEdge) :
    ∃ depths, Bfs.follow up d (new, st) e =
        (new ++ fresh st.visited [e.neighbor up],
          ⟨st.visited ++ fresh st.visited [e.neighbor up], depths, Dict.set st.edges e.id e⟩) ∧
      ∀ a, (Dict.get? depths a).isSome ↔ (Dict.get? st.depths a).isSome ∨ a ∈ fresh st.visited [e.neighbor up] := by
  unfold Bfs.follow
  dsimp only
  by_cases hmem : e.neighbor up ∈ st.visited
  · have hfresh : fresh st.visited [e.neighbor up] = [] := if_pos hmem
    rw [if_pos hmem, hfresh, List.append_nil, List.append_nil]
    exact ⟨st.depths, rfl, fun a => by simp⟩
  · have hfresh : fresh st.visited [e.neighbor up] = [e.neighbor up] := if_neg hmem
    rw [if_neg hmem, hfresh]
    refine ⟨_, rfl, fun a => ?_⟩
    rw [Dict.get?_set, List.mem_singleton]
    by_cases ha : e.neighbor up = a
    · simp [ha]
    · simp [ha, Ne.symm ha]

theorem Bfs.foldl_follow (up : Bool) (d : Nat) (l : List GraphEdge) (new : List PyStr) (st : Bfs) :
    ∃ depths, l.foldl (Bfs.follow up d) (new, st) =
        (new ++ fresh st.visited (l.map fun e => e.neighbor up),
          ⟨st.visited ++ fresh st.visited (l.map fun e => e.neighbor up), depths, putEdges st.edges l⟩) ∧
      ∀ a, (Dict.get? depths a).isSome ↔
        (Dict.get? st.depths a).isSome ∨ a ∈ fresh st.visited (l.map fun e => e.neighbor up) := by
  induction l generalizing new st with
  | nil => exact ⟨st.depths, by simp [fresh, putEdges], by simp [fresh]⟩
  | cons e rest ih =>
      obtain ⟨depths, hstep, hdepths⟩ := Bfs.follow_eq up d new st e
      obtain ⟨depths', hrest, hdepths'⟩ := ih (new ++ fresh st.visited [e.neighbor up])
        ⟨st.visited ++ fresh st.visited [e.neighbor up], depths, Dict.set st.edges e.id e⟩
      have hfresh := fresh_append st.visited [e.neighbor up] (rest.map fun e => e.neighbor up)
      rw [List.singleton_append] at hfresh
      refine ⟨depths', ?_, fun a => ?_⟩
      · rw [List.foldl_cons, hstep, hrest, List.map_cons, hfresh, List.append_assoc, List.append_assoc]
        rfl
      · rw [hdepths', hdepths, List.map_cons, hfresh, List.mem_append, or_assoc]

/-- What the state of the library's walk stands for, over what was in the dictionaries before. -/
structure Bfs.Tracks (depths : List (PyStr × Nat)) (edges : List (PyStr × GraphEdge)) (seen : List PyStr)
    (taken : List (Hop PyStr GraphEdge)) (st : Bfs) : Prop where
  visited : st.visited = seen
  depths : ∀ a, (Dict.get? st.depths a).isSome ↔ (Dict.get? depths a).isSome ∨ a ∈ seen
  edges : st.edges = putEdges edges (taken.map Hop.label)

theorem bfs_tracking (up : Bool) (depths : List (PyStr × Nat)) (edges : List (PyStr × GraphEdge)) :
    Tracking (graph.steps (.oneWay up)) (graph.bfsExpand up) (Bfs.Tracks depths edges) := by
  have hhops : ∀ a, Levels.hops (graph.steps (.oneWay up)) [a] =
      (graph.adjacent up a).map fun e => ⟨a, e, e.neighbor up⟩ := by
    intro a
    rw [Levels.hops, List.flatMap_singleton, steps_oneWay, List.map_map]
    rfl
  have htargets : ∀ a, (Levels.hops (graph.steps (.oneWay up)) [a]).map Hop.target =
      (graph.adjacent up a).map fun e => e.neighbor up := by
    intro a
    rw [hhops, List.map_map]
    rfl
  have hlabels : ∀ a, (Levels.hops (graph.steps (.oneWay up)) [a]).map Hop.label = graph.adjacent up a := by
    intro a
    rw [hhops, List.map_map]
    exact List.map_id _
  constructor
  · intro d a seen taken st hst
    obtain ⟨depths', hfold, -⟩ := Bfs.foldl_follow up d (graph.adjacent up a) [] st
    rw [LineageGraph.bfsExpand, hfold, htargets, List.nil_append, hst.visited]
  · intro d a seen taken st hst
    obtain ⟨depths', hfold, hdepths⟩ := Bfs.foldl_follow up d (graph.adjacent up a) [] st
    rw [LineageGraph.bfsExpand, hfold, List.nil_append, ← hst.visited]
    constructor
    · rfl
    · intro b
      rw [hdepths, hst.depths, List.mem_append, or_assoc, hst.visited]
    · rw [List.map_append, hlabels, putEdges_append, ← hst.edges]

/-- What a walk starts from. -/
theorem bfs_tracks_start (start : PyStr) (st : Bfs) : Bfs.Tracks st.depths st.edges [start] []
    ⟨[start], Dict.set st.depths start (min ((Dict.get? st.depths start).getD 0) 0), st.edges⟩ := by
  refine ⟨rfl, fun a => ?_, rfl⟩
  dsimp only
  rw [Dict.get?_set, List.mem_singleton]
  by_cases ha : start = a
  · simp [ha]
  · simp [ha, Ne.symm ha]

/-- A walk goes on as long as there are nodes. -/
theorem length_level_le {start : PyStr} (hstart : start ∈ graph.nodes.map GraphNode.id) (up : Bool) (n : Nat) :
    (level (graph.steps (.oneWay up)) start n).1.length ≤ graph.nodes.length := by
  have hsub : (level (graph.steps (.oneWay up)) start n).1 ⊆ graph.nodes.map GraphNode.id :=
    fun a ha => mem_nodes_of_within hstart (mem_level.mp ha)
  have hle := ((nodup_level n).subperm hsub).length_le
  rwa [List.length_map] at hle

/-- **One walk of the library.** -/
theorem bfs_tracks {start : PyStr} (hstart : start ∈ graph.nodes.map GraphNode.id) (up : Bool) {depth : ℚ}
    (hdepth : 0 < depth) (st : Bfs) :
    Bfs.Tracks st.depths st.edges (level (graph.steps (.oneWay up)) start ⌈depth⌉₊).1
      (taken (graph.steps (.oneWay up)) start ⌈depth⌉₊) (graph.bfs start (some depth) up st) := by
  refine (bfs_tracking up st.depths st.edges).drain (Nat.ceil_pos.mpr hdepth) (fun d => ?_) (bfs_tracks_start start st)
    (length_level_le hstart up _)
  rw [Option.any_some, decide_eq_decide]
  exact Nat.ceil_le.symm

theorem bfs_walks {start : PyStr} (hstart : start ∈ graph.nodes.map GraphNode.id) {depth : ℚ} (hdepth : 0 < depth)
    (walks : List Bool) (st : Bfs) :
    let final := walks.foldl (fun st up => graph.bfs start (some depth) up st) st
    (∀ a, (Dict.get? final.depths a).isSome ↔ (Dict.get? st.depths a).isSome ∨
        ∃ up ∈ walks, Within (graph.steps (.oneWay up)) start ⌈depth⌉₊ a) ∧
      final.edges = putEdges st.edges
        (walks.flatMap fun up => (taken (graph.steps (.oneWay up)) start ⌈depth⌉₊).map Hop.label) := by
  induction walks generalizing st with
  | nil => exact ⟨fun a => by simp, rfl⟩
  | cons up rest ih =>
      have htracks := bfs_tracks hstart up hdepth st
      obtain ⟨hdepths, hedges⟩ := ih (graph.bfs start (some depth) up st)
      refine ⟨fun a => ?_, ?_⟩
      · rw [List.foldl_cons, hdepths, htracks.depths, mem_level, List.exists_mem_cons_iff, or_assoc]
      · rw [List.foldl_cons, hedges, htracks.edges, List.flatMap_cons, putEdges_append]

/-! ### What both answer -/

def LineageGraph.nodeById (graph : LineageGraph) (id : PyStr) : Option GraphNode :=
  Dict.get? (Dict.ofList (graph.nodes.map fun n => (n.id, n))) id

theorem nodeById_ne_none {id : PyStr} (h : id ∈ graph.nodes.map GraphNode.id) : (graph.nodeById id).isSome := by
  obtain ⟨n, hn, rfl⟩ := List.mem_map.mp h
  exact Dict.isSome_get?_ofList.mpr ⟨_, List.mem_map_of_mem hn, rfl⟩

/-- An edge of one walk. -/
def LineageGraph.TakenBy (graph : LineageGraph) (direction : Direction) (start : PyStr) (n : Nat) (e : GraphEdge) :
    Prop :=
  ∃ a b, Within (graph.steps direction) start n a ∧ (e, b) ∈ graph.steps direction a

theorem mem_labels {start : PyStr} {n : Nat} {e : GraphEdge} :
    e ∈ (taken (graph.steps direction) start (n + 1)).map Hop.label ↔ graph.TakenBy direction start n e := by
  rw [List.mem_map]
  constructor
  · rintro ⟨h, hh, rfl⟩
    obtain ⟨hsource, hstep⟩ := mem_taken.mp hh
    exact ⟨h.source, h.target, hsource, hstep⟩
  · rintro ⟨a, b, ha, hstep⟩
    exact ⟨⟨a, e, b⟩, mem_taken.mpr ⟨ha, hstep⟩, rfl⟩

theorem getLineage_spec {start : PyStr} (hstart : start ∈ graph.nodes.map GraphNode.id)
    (hids : (graph.edges.map GraphEdge.id).Nodup) {depth : ℚ} {n : Nat} (hdepth : 0 < depth)
    (hn : ⌈depth⌉₊ = n + 1) (direction : Direction) :
    ∃ r, getLineage graph start direction (some depth) = some r ∧
      (∀ node, node ∈ r.nodes.map Prod.fst ↔ ∃ id, (∃ up ∈ direction.walks,
        Within (graph.steps (.oneWay up)) start (n + 1) id) ∧ graph.nodeById id = some node) ∧
      ∀ e, e ∈ r.edges ↔ ∃ up ∈ direction.walks, graph.TakenBy (.oneWay up) start n e := by
  have hvalid : ¬ ((some depth).any fun bound => decide (bound < 0)) = true := by
    simpa using hdepth.le
  have hknown : ¬ (Dict.get? (Dict.ofList (graph.nodes.map fun n => (n.id, n))) start).isNone = true := by
    have hsome : (Dict.get? (Dict.ofList (graph.nodes.map fun n => (n.id, n))) start).isSome = true :=
      nodeById_ne_none hstart
    rw [Option.isNone_iff_eq_none]
    intro hnone
    rw [hnone] at hsome
    cases hsome
  obtain ⟨hdepths, hedges⟩ := bfs_walks hstart hdepth direction.walks ⟨[], [], []⟩
  rw [hn] at hdepths hedges
  refine ⟨_, by rw [getLineage, if_neg hvalid, if_neg hknown], fun node => ?_, fun e => ?_⟩
  · dsimp only
    simp only [List.mem_map, List.mem_filterMap, mem_sortOn, Option.map_eq_some_iff]
    constructor
    · rintro ⟨x, ⟨y, hy, node', hnode, rfl⟩, rfl⟩
      have hsome := Dict.isSome_get?_iff.mpr ⟨y, hy, rfl⟩
      rcases (hdepths y.1).mp hsome with hbase | hwalk
      · cases hbase
      · exact ⟨y.1, hwalk, hnode⟩
    · rintro ⟨id, hwalk, hnode⟩
      obtain ⟨y, hy, rfl⟩ := Dict.isSome_get?_iff.mp ((hdepths id).mpr (Or.inr hwalk))
      exact ⟨_, ⟨y, hy, node, hnode, rfl⟩, rfl⟩
  · dsimp only
    have hmem := (mem_putEdges hids (d := []) (l := direction.walks.flatMap fun up =>
      (taken (graph.steps (.oneWay up)) start (n + 1)).map Hop.label) (fun x hx => absurd hx List.not_mem_nil) (by
        intro e he
        obtain ⟨up, -, he⟩ := List.mem_flatMap.mp he
        obtain ⟨a, b, -, hstep⟩ := mem_labels.mp he
        exact (mem_steps.mp hstep).1)).2 e
    rw [mem_sortOn, hedges, hmem, List.mem_flatMap]
    simp only [List.map_nil, List.not_mem_nil, false_or, mem_labels]

section

variable {args : LineageArgs} {start : PyStr}

theorem walkDepth_pos (args : LineageArgs) : 0 < args.walkDepth := by
  unfold LineageArgs.walkDepth
  exact lt_min (lt_max_of_lt_right one_pos) (by norm_num)

theorem ceil_walkDepth (args : LineageArgs) : ⌈args.walkDepth⌉₊ = ⌈args.walkDepth⌉₊ - 1 + 1 :=
  (Nat.succ_pred_eq_of_pos (Nat.ceil_pos.mpr (walkDepth_pos args))).symm

theorem mem_taken_iff {h : Hop PyStr GraphEdge} :
    h ∈ taken (graph.steps args.walkDirection) start ⌈args.walkDepth⌉₊ ↔
      args.Takes graph start h.source h.label h.target := by
  rw [ceil_walkDepth, mem_taken]
  rfl

theorem takesEdge_iff {e : GraphEdge} : args.TakesEdge graph start e ↔
    graph.TakenBy args.walkDirection start (⌈args.walkDepth⌉₊ - 1) e := Iff.rfl

theorem revisits_iff_meets (hids : (graph.edges.map GraphEdge.id).Nodup) :
    revisits [start] (taken (graph.steps args.walkDirection) start ⌈args.walkDepth⌉₊) = true ↔
      args.Meets graph start := by
  rw [revisits_taken (nodup_steps_away hids)]
  constructor
  · rintro ⟨h, hh, haway, hmeets⟩
    refine ⟨h.source, h.label, h.target, mem_taken_iff.mp hh, of_decide_eq_true haway, ?_⟩
    rcases hmeets with heq | ⟨h', hh', haway', hne, heq⟩
    · exact Or.inl heq
    · have htakes := mem_taken_iff.mp hh'
      rw [heq] at htakes
      refine Or.inr ⟨h'.source, h'.label, htakes, heq ▸ of_decide_eq_true haway', fun hsame => hne ?_⟩
      obtain ⟨hsource, hlabel⟩ := Prod.mk.inj hsame
      cases h
      cases h'
      simp_all
  · rintro ⟨a, e, b, htakes, haway, hmeets⟩
    refine ⟨⟨a, e, b⟩, mem_taken_iff.mpr htakes, decide_eq_true haway, ?_⟩
    rcases hmeets with rfl | ⟨a', e', htakes', haway', hne⟩
    · exact Or.inl rfl
    · refine Or.inr ⟨⟨a', e', b⟩, mem_taken_iff.mpr htakes', decide_eq_true haway', fun hsame => hne ?_, rfl⟩
      rw [Hop.mk.injEq] at hsame
      exact Prod.ext hsame.1 hsame.2.1

theorem visibleSteps_eq (hvisible : ∀ id ∈ graph.nodes.map GraphNode.id, visible id = true) (a : PyStr) :
    visibleSteps visible graph direction a = graph.steps direction a := by
  refine List.filter_eq_self.mpr fun s hs => hvisible _ ?_
  obtain ⟨hedge, ⟨-, -, heq⟩ | ⟨-, -, heq⟩⟩ := mem_steps.mp (show (s.1, s.2) ∈ _ from hs)
  · exact heq ▸ (graph.endpoints _ hedge).2
  · exact heq ▸ (graph.endpoints _ hedge).1

/-- What the tool answers when all nodes are visible. -/
theorem toolGetLineage_spec (hobject : args.object = some start) (hne : start ≠ [])
    (hstart : start ∈ graph.nodes.map GraphNode.id) (hids : (graph.edges.map GraphEdge.id).Nodup)
    (hvisible : ∀ id ∈ graph.nodes.map GraphNode.id, visible id = true) :
    ∃ p, toolGetLineage visible (some graph) args = .payload p ∧ p.object = start ∧
      p.direction = args.walkDirection ∧ p.depth = args.walkDepth ∧
      (∀ node, node ∈ p.nodes ↔ ∃ id, Within (graph.steps args.walkDirection) start ⌈args.walkDepth⌉₊ id ∧
        graph.nodeById id = some node) ∧
      (∀ e, e ∈ p.edges ↔ args.TakesEdge graph start e) ∧ (p.cyclesDetected = true ↔ args.Meets graph start) := by
  have hknown : ¬ (Dict.get? (Dict.ofList (graph.nodes.map fun n => (n.id, n))) start).isNone = true := by
    have hsome : (Dict.get? (Dict.ofList (graph.nodes.map fun n => (n.id, n))) start).isSome = true :=
      nodeById_ne_none hstart
    rw [Option.isNone_iff_eq_none]
    intro hnone
    rw [hnone] at hsome
    cases hsome
  have hget : args.object.getD [] = start := by rw [hobject, Option.getD_some]
  have hsteps : visibleSteps visible graph args.walkDirection = graph.steps args.walkDirection :=
    funext fun a => visibleSteps_eq hvisible a
  have htracks : Walked.Tracks start _ _ (graph.walk visible start args.walkDirection args.walkDepth) :=
    walk_tracks start args.walkDepth
  rw [hsteps] at htracks
  refine ⟨_, by rw [toolGetLineage, hget, if_neg hne]; dsimp only; rw [if_neg hknown, if_pos (hvisible start hstart)],
    rfl, rfl, rfl, fun node => ?_, fun e => ?_, ?_⟩
  · simp only [List.mem_map, List.mem_insertionSort, htracks.visited, mem_level]
    have hnode : ∀ id, Within (graph.steps args.walkDirection) start ⌈args.walkDepth⌉₊ id →
        ∃ node', graph.nodeById id = some node' := fun id hid =>
      Option.isSome_iff_exists.mp (nodeById_ne_none (mem_nodes_of_within hstart hid))
    constructor
    · rintro ⟨id, hid, rfl⟩
      obtain ⟨node', hnode'⟩ := hnode id hid
      refine ⟨id, hid, ?_⟩
      have hnode'' : Dict.get? (Dict.ofList (graph.nodes.map fun n => (n.id, n))) id = some node' := hnode'
      rw [hnode', hnode'', Option.getD_some]
    · rintro ⟨id, hid, hnode'⟩
      have hnode'' : Dict.get? (Dict.ofList (graph.nodes.map fun n => (n.id, n))) id = some node := hnode'
      exact ⟨id, hid, by rw [hnode'', Option.getD_some]⟩
  · have hlabels : ∀ e ∈ (taken (graph.steps args.walkDirection) start ⌈args.walkDepth⌉₊).map Hop.label,
        e ∈ graph.edges := by
      intro e he
      rw [ceil_walkDepth] at he
      obtain ⟨a, b, -, hstep⟩ := mem_labels.mp he
      exact (mem_steps.mp hstep).1
    have hmem := (mem_putEdges hids (d := []) (fun x hx => absurd hx List.not_mem_nil) hlabels).2 e
    rw [List.mem_insertionSort, htracks.edges, hmem, ceil_walkDepth, mem_labels, takesEdge_iff]
    simp only [List.map_nil, List.not_mem_nil, false_or]
  · rw [← revisits_iff_meets hids, ← htracks.cycles]

/-! ### Meeting and turning in a circle -/

theorem TakenBy.mem {direction : Direction} {n : Nat} {e : GraphEdge} (h : graph.TakenBy direction start n e) :
    e ∈ graph.edges := by
  obtain ⟨a, b, -, hstep⟩ := h
  exact (mem_steps.mp hstep).1

theorem takenBy_oneWay {up : Bool} {n : Nat} {e : GraphEdge} : graph.TakenBy (.oneWay up) start n e ↔
    e ∈ graph.edges ∧ Within (graph.steps (.oneWay up)) start n (if up then e.target else e.source) := by
  constructor
  · rintro ⟨a, b, ha, hstep⟩
    obtain ⟨hedge, hway⟩ := mem_steps.mp hstep
    cases up with
    | true =>
        rcases hway with ⟨hdown, -⟩ | ⟨-, rfl, -⟩
        · exact absurd rfl hdown
        · exact ⟨hedge, ha⟩
    | false =>
        rcases hway with ⟨-, rfl, -⟩ | ⟨hup, -⟩
        · exact ⟨hedge, ha⟩
        · exact absurd rfl hup
  · rintro ⟨hedge, ha⟩
    cases up with
    | true => exact ⟨e.target, e.source, ha, mem_steps.mpr ⟨hedge, Or.inr ⟨by decide, rfl, rfl⟩⟩⟩
    | false => exact ⟨e.source, e.target, ha, mem_steps.mpr ⟨hedge, Or.inl ⟨by decide, rfl, rfl⟩⟩⟩

/-- The steps taken, from node to node. -/
def LineageArgs.Goes (args : LineageArgs) (graph : LineageGraph) (start a b : PyStr) : Prop :=
  ∃ e, args.Takes graph start a e b

/-- Where no two steps meet, no step leads to an earlier node, other than along a self-loop. -/
theorem not_goes_in_a_circle (hmeets : ¬ args.Meets graph start)
    (hloops : ∀ a e b, args.Takes graph start a e b → b ≠ a) (a : PyStr) :
    ¬ Relation.TransGen (args.Goes graph start) a a := by
  have hbefore : ∀ {b : PyStr}, Relation.TransGen (args.Goes graph start) b b →
      ∃ c, args.Goes graph start c b ∧ Relation.TransGen (args.Goes graph start) c c := by
    intro b hb
    cases hb with
    | single hbb => exact ⟨b, hbb, .single hbb⟩
    | tail hbc hcb => exact ⟨_, hcb, .head hcb hbc⟩
  have hnot : ∀ n b, Within (graph.steps args.walkDirection) start n b → n ≤ ⌈args.walkDepth⌉₊ - 1 + 1 →
      ¬ Relation.TransGen (args.Goes graph start) b b := by
    intro n b hb
    induction hb with
    | start n =>
        intro _ hcircle
        obtain ⟨c, ⟨e, htakes⟩, -⟩ := hbefore hcircle
        exact hmeets ⟨c, e, start, htakes, hloops _ _ _ htakes, Or.inl rfl⟩
    | @step n b b' e hb hstep ih =>
        intro hn hcircle
        have htakes : args.Takes graph start b e b' := ⟨hb.mono (by omega), hstep⟩
        obtain ⟨c, ⟨e', htakes'⟩, hcircle'⟩ := hbefore hcircle
        by_cases hsame : (c, e') = (b, e)
        · obtain ⟨rfl, -⟩ := Prod.mk.inj hsame
          exact ih (by omega) hcircle'
        · exact hmeets ⟨b, e, b', htakes, hloops _ _ _ htakes,
            Or.inr ⟨c, e', htakes', hloops _ _ _ htakes', hsame⟩⟩
  intro hcircle
  obtain ⟨c, ⟨e, hc, hstep⟩, -⟩ := hbefore hcircle
  exact hnot _ a (.step hc hstep) le_rfl hcircle

/-- The first step away from the start. -/
theorem exists_first_step {n : Nat} {u : PyStr} (h : Within (graph.steps direction) start n u) (hne : u ≠ start) :
    0 < n ∧ ∃ e x, (e, x) ∈ graph.steps direction start ∧ x ≠ start := by
  induction h with
  | start n => exact absurd rfl hne
  | @step n a b e ha hstep ih =>
      refine ⟨Nat.succ_pos n, ?_⟩
      by_cases heq : a = start
      · exact ⟨e, b, heq ▸ hstep, hne⟩
      · exact (ih heq).2

/-- Both ways at once, where no two steps meet every step to another node is one from the start. -/
theorem eq_start_of_takes (hboth : args.walkDirection = .both) (hmeets : ¬ args.Meets graph start)
    {a b : PyStr} {e : GraphEdge} (htakes : args.Takes graph start a e b) : a = start := by
  by_contra hne
  obtain ⟨hpos, e₀, x, hfirst, hx⟩ := exists_first_step htakes.1 hne
  rw [hboth] at hfirst
  have hback : (e₀, start) ∈ graph.steps .both x := by
    obtain ⟨hedge, ⟨-, hsource, htarget⟩ | ⟨-, htarget, hsource⟩⟩ := mem_steps.mp hfirst
    · exact mem_steps.mpr ⟨hedge, Or.inr ⟨by decide, htarget, hsource⟩⟩
    · exact mem_steps.mpr ⟨hedge, Or.inl ⟨by decide, hsource, htarget⟩⟩
  have hone : Within (graph.steps .both) start 1 x := .step (.start 0) hfirst
  refine hmeets ⟨x, e₀, start, ⟨?_, by rw [hboth]; exact hback⟩, hx.symm, Or.inl rfl⟩
  rw [hboth]
  exact hone.mono hpos

theorem not_hasCycle_of_not_meets (hmeets : ¬ args.Meets graph start)
    (hloops : ∀ e, args.TakesEdge graph start e → e.source ≠ e.target) :
    ¬ HasCycle (args.TakesEdge graph start) := by
  have haway : ∀ a e b, args.Takes graph start a e b → b ≠ a := by
    intro a e b htakes heq
    have hloop := hloops e ⟨a, b, htakes⟩
    obtain ⟨-, ⟨-, hsource, htarget⟩ | ⟨-, htarget, hsource⟩⟩ := mem_steps.mp htakes.2
    · exact hloop (hsource.trans (heq.symm.trans htarget.symm))
    · exact hloop (hsource.trans (heq.trans htarget.symm))
  have hgoes := not_goes_in_a_circle hmeets haway
  rintro ⟨a, hcircle⟩
  cases hdirection : args.walkDirection with
  | downstream =>
      refine hgoes a (Relation.TransGen.mono ?_ a a hcircle)
      rintro b c ⟨e, ⟨x, y, hx, hstep⟩, rfl, rfl⟩
      refine ⟨e, ?_⟩
      have hway := (mem_steps.mp hstep).2
      rw [hdirection] at hway
      rcases hway with ⟨-, rfl, rfl⟩ | ⟨hnot, -⟩
      · exact ⟨hx, hstep⟩
      · exact absurd rfl hnot
  | upstream =>
      refine hgoes a (Relation.transGen_swap.mp (Relation.TransGen.mono ?_ a a hcircle))
      rintro b c ⟨e, ⟨x, y, hx, hstep⟩, rfl, rfl⟩
      refine ⟨e, ?_⟩
      have hway := (mem_steps.mp hstep).2
      rw [hdirection] at hway
      rcases hway with ⟨hnot, -⟩ | ⟨-, rfl, rfl⟩
      · exact absurd rfl hnot
      · exact ⟨hx, hstep⟩
  | both =>
      have hsteps : ∀ e, args.TakesEdge graph start e →
          (e.source = start ∧ args.Takes graph start start e e.target) ∨
            (e.target = start ∧ args.Takes graph start start e e.source) := by
        rintro e ⟨x, y, htakes⟩
        obtain rfl := eq_start_of_takes hdirection hmeets htakes
        obtain ⟨-, ⟨-, hsource, rfl⟩ | ⟨-, htarget, rfl⟩⟩ := mem_steps.mp htakes.2
        · exact Or.inl ⟨hsource, htakes⟩
        · exact Or.inr ⟨htarget, htakes⟩
      have hmeet : ∀ {e e' : GraphEdge} {z : PyStr}, z ≠ start → args.TakesEdge graph start e →
          args.TakesEdge graph start e' → e.target = z → e'.source = z → False := by
        intro e e' z hz he he' htarget hsource
        obtain ⟨hesource, hetakes⟩ := (hsteps e he).resolve_right fun h => hz (htarget.symm.trans h.1)
        obtain ⟨-, hetakes'⟩ := (hsteps e' he').resolve_left fun h => hz (hsource.symm.trans h.1)
        rw [htarget] at hetakes
        rw [hsource] at hetakes'
        refine hmeets ⟨start, e, z, hetakes, hz, Or.inr ⟨start, e', hetakes', hz, fun hsame => ?_⟩⟩
        obtain ⟨-, rfl⟩ := Prod.mk.inj hsame
        exact hz (hsource.symm.trans hesource)
      -- Around the circle, the node at either end of an edge has an edge in and an edge out.
      obtain ⟨c, ⟨e, he, hsource, htarget⟩, hrest⟩ := Relation.TransGen.head'_iff.mp hcircle
      by_cases ha : a = start
      · have hc : c ≠ start := by
          rintro rfl
          exact hloops e he (hsource.trans (ha.trans htarget.symm))
        rcases Relation.reflTransGen_iff_eq_or_transGen.mp hrest with heq | hrest
        · exact hc (heq.symm.trans ha)
        · obtain ⟨_, ⟨e', he', hsource', -⟩, -⟩ := Relation.TransGen.head'_iff.mp hrest
          exact hmeet hc he he' htarget hsource'
      · obtain ⟨_, -, e', he', -, htarget'⟩ := Relation.TransGen.tail'_iff.mp hcircle
        exact hmeet ha he' he htarget' hsource

/-! ### Agreement -/

theorem walks_oneWay {direction : Direction} (h : direction ≠ .both) :
    ∃ up, direction.walks = [up] ∧ direction = .oneWay up := by
  cases direction with
  | upstream => exact ⟨true, rfl, rfl⟩
  | downstream => exact ⟨false, rfl, rfl⟩
  | both => exact absurd rfl h

theorem takesOneWay_iff {e : GraphEdge} : args.TakesOneWay graph start e ↔
    ∃ up ∈ Direction.both.walks, graph.TakenBy (.oneWay up) start (⌈args.walkDepth⌉₊ - 1) e := by
  rw [LineageArgs.TakesOneWay]
  constructor
  · rintro ⟨hedge, hup | hdown⟩
    · exact ⟨true, by decide, takenBy_oneWay.mpr ⟨hedge, hup⟩⟩
    · exact ⟨false, by decide, takenBy_oneWay.mpr ⟨hedge, hdown⟩⟩
  · rintro ⟨up, -, htaken⟩
    obtain ⟨hedge, hway⟩ := takenBy_oneWay.mp htaken
    cases up with
    | true => exact ⟨hedge, Or.inl hway⟩
    | false => exact ⟨hedge, Or.inr hway⟩

theorem takesEdge_of_takesOneWay (hboth : args.walkDirection = .both) {e : GraphEdge}
    (h : args.TakesOneWay graph start e) : args.TakesEdge graph start e := by
  obtain ⟨up, -, a, b, ha, hstep⟩ := takesOneWay_iff.mp h
  refine ⟨a, b, ?_, ?_⟩
  · rw [hboth]
    exact within_both ha
  · rw [hboth]
    exact mem_steps.mpr ⟨(mem_steps.mp hstep).1, (mem_steps.mp hstep).2.imp (fun h => ⟨by decide, h.2⟩)
      fun h => ⟨by decide, h.2⟩⟩

/-- Both ways at once the tool visits the nodes of the two walks, where it takes their edges. -/
theorem within_both_iff (hboth : args.walkDirection = .both)
    (honeWay : ∀ e, args.TakesEdge graph start e → args.TakesOneWay graph start e) {a : PyStr} :
    Within (graph.steps .both) start ⌈args.walkDepth⌉₊ a ↔
      ∃ up ∈ Direction.both.walks, Within (graph.steps (.oneWay up)) start ⌈args.walkDepth⌉₊ a := by
  constructor
  · rw [ceil_walkDepth]
    intro ha
    rcases within_succ.mp ha with rfl | ⟨b, e, hb, hstep⟩
    · exact ⟨true, by decide, .start _⟩
    · have htakes : args.TakesEdge graph start e := by
        refine ⟨b, a, ?_, ?_⟩
        · rw [hboth]
          exact hb
        · rw [hboth]
          exact hstep
      have hends : a = e.target ∨ a = e.source := by
        rcases (mem_steps.mp hstep).2 with ⟨-, -, heq⟩ | ⟨-, -, heq⟩
        · exact Or.inl heq.symm
        · exact Or.inr heq.symm
      obtain ⟨hedge, hup | hdown⟩ := honeWay e htakes
      · refine ⟨true, by decide, ?_⟩
        rcases hends with rfl | rfl
        · exact hup.succ
        · exact .step hup (mem_steps.mpr ⟨hedge, Or.inr ⟨by decide, rfl, rfl⟩⟩)
      · refine ⟨false, by decide, ?_⟩
        rcases hends with rfl | rfl
        · exact .step hdown (mem_steps.mpr ⟨hedge, Or.inl ⟨by decide, rfl, rfl⟩⟩)
        · exact hdown.succ
  · rintro ⟨up, -, ha⟩
    exact within_both ha

end

/-- Two operations between the same two tables. -/
def parallel : LineageGraph where
  nodes := [⟨py "orders", none, suffix_of_none⟩, ⟨py "sales", none, suffix_of_none⟩]
  edges := [⟨py "join", py "orders", py "sales", []⟩, ⟨py "filter", py "orders", py "sales", []⟩]
  endpoints := by decide

def downstreamOf (object : String) : LineageArgs := ⟨some (py object), some (py "downstream"), none⟩

/-- The second of two parallel edges is taken for a cycle. -/
theorem not_lineageAgrees_parallel :
    ¬ ∀ (visible : PyStr → Bool) (graph : LineageGraph) (args : LineageArgs),
      (∃ start ∈ graph.nodes.map GraphNode.id, args.object = some start) →
        (graph.edges.map GraphEdge.id).Nodup → (∀ id ∈ graph.nodes.map GraphNode.id, visible id = true) →
          LineageAgrees visible graph args := by
  intro hagrees
  obtain ⟨p, hp, r, -, hrefines⟩ := hagrees (fun _ => true) parallel (downstreamOf "orders")
    ⟨py "orders", by decide, rfl⟩ (by decide) (fun _ _ => rfl)
  obtain ⟨p', hp', -, -, -, -, hedges, hcycles⟩ := @toolGetLineage_spec parallel (fun _ => true)
    (downstreamOf "orders") (py "orders") rfl (by decide) (by decide) (by decide) (fun _ _ => rfl)
  obtain rfl : p = p' := LineageOutcome.payload.inj (hp.symm.trans hp')
  have hmeets : (downstreamOf "orders").Meets parallel (py "orders") := by
    have htakes : ∀ e ∈ parallel.edges, (downstreamOf "orders").Takes parallel (py "orders") (py "orders") e
        (py "sales") := by
      intro e he
      have hends : ∀ e ∈ parallel.edges, e.source = py "orders" ∧ e.target = py "sales" := by decide
      exact ⟨.start _, mem_steps.mpr ⟨he, Or.inl ⟨by decide, hends e he⟩⟩⟩
    refine ⟨py "orders", ⟨py "join", py "orders", py "sales", []⟩, py "sales", htakes _ List.mem_cons_self, by decide,
      Or.inr ⟨py "orders", ⟨py "filter", py "orders", py "sales", []⟩, htakes _ (List.mem_cons_of_mem _
        List.mem_cons_self), by decide, fun hsame => ?_⟩⟩
    have hid := congrArg (fun x => x.2.id) hsame
    exact absurd hid (by decide)
  obtain ⟨a, hcircle⟩ := hrefines.cycles.mp (hcycles.mpr hmeets)
  have hends : ∀ e ∈ p.edges, e.source = py "orders" ∧ e.target = py "sales" := by
    intro e he
    obtain ⟨_, _, -, hstep⟩ := (hedges e).mp he
    have hall : ∀ e ∈ parallel.edges, e.source = py "orders" ∧ e.target = py "sales" := by decide
    exact hall e (mem_steps.mp hstep).1
  obtain ⟨_, ⟨e, he, hsource, -⟩, -⟩ := Relation.TransGen.head'_iff.mp hcircle
  obtain ⟨_, -, e', he', -, htarget⟩ := Relation.TransGen.tail'_iff.mp hcircle
  have heq : py "orders" = py "sales" := by
    rw [← (hends e he).1, hsource, ← htarget, (hends e' he').2]
  exact absurd heq (by decide)

/-- **Where the lineage walks agree.** The tool answers what the library does, and detects a cycle where there is one,
exactly for the straight walks. -/
theorem lineageAgrees_iff {visible : PyStr → Bool} {graph : LineageGraph} {args : LineageArgs} {start : PyStr}
    (hobject : args.object = some start) (hstart : start ∈ graph.nodes.map GraphNode.id)
    (hids : (graph.edges.map GraphEdge.id).Nodup)
    (hvisible : ∀ id ∈ graph.nodes.map GraphNode.id, visible id = true) :
    LineageAgrees visible graph args ↔ args.Straight graph start := by
  by_cases hne : start = []
  · subst hne
    refine iff_of_false ?_ fun h => h.named rfl
    rintro ⟨p, hp, -⟩
    rw [toolGetLineage, hobject, Option.getD_some, if_pos rfl] at hp
    cases hp
  obtain ⟨p, hp, hpobject, hpdirection, hpdepth, hpnodes, hpedges, hpcycles⟩ :=
    toolGetLineage_spec hobject hne hstart hids hvisible
  obtain ⟨r, hr, hrnodes, hredges⟩ :=
    getLineage_spec hstart hids (walkDepth_pos args) (ceil_walkDepth args) args.walkDirection
  rw [← ceil_walkDepth] at hrnodes
  have hagrees : LineageAgrees visible graph args ↔ p.Refines r := by
    constructor
    · rintro ⟨p', hp', r', hr', hrefines⟩
      obtain rfl : p = p' := LineageOutcome.payload.inj (hp.symm.trans hp')
      rw [hpobject, hpdirection, hpdepth, hr] at hr'
      obtain rfl := Option.some.inj hr'
      exact hrefines
    · intro hrefines
      exact ⟨p, hp, r, by rw [hpobject, hpdirection, hpdepth, hr], hrefines⟩
  have hkind : (HasCycle fun e => e ∈ p.edges) ↔ HasCycle (args.TakesEdge graph start) := by
    rw [show (fun e => e ∈ p.edges) = args.TakesEdge graph start from funext fun e => propext (hpedges e)]
  rw [hagrees]
  constructor
  · intro hrefines
    refine ⟨hne, fun hboth e htakes => ?_, fun hmeets => ?_, fun hmeets e htakes heq => ?_⟩
    · rw [takesOneWay_iff, ← hboth, ← hredges, ← hrefines.edges, hpedges]
      exact htakes
    · exact hkind.mp (hrefines.cycles.mp (hpcycles.mpr hmeets))
    · have hcycle : HasCycle (args.TakesEdge graph start) := ⟨e.source, .single ⟨e, htakes, rfl, heq.symm⟩⟩
      exact hmeets (hpcycles.mp (hrefines.cycles.mpr (hkind.mpr hcycle)))
  · intro hstraight
    constructor
    · intro node
      rw [hpnodes, hrnodes]
      refine exists_congr fun id => and_congr_left fun _ => ?_
      by_cases hboth : args.walkDirection = .both
      · rw [hboth]
        exact within_both_iff hboth (hstraight.oneWay hboth)
      · obtain ⟨up, hwalks, hdirection⟩ := walks_oneWay hboth
        rw [hwalks, hdirection]
        simp only [List.mem_singleton, exists_eq_left]
    · intro e
      rw [hpedges, hredges]
      by_cases hboth : args.walkDirection = .both
      · rw [hboth, ← takesOneWay_iff]
        exact ⟨hstraight.oneWay hboth e, takesEdge_of_takesOneWay hboth⟩
      · obtain ⟨up, hwalks, hdirection⟩ := walks_oneWay hboth
        rw [takesEdge_iff, hwalks, hdirection]
        simp only [List.mem_singleton, exists_eq_left]
    · rw [hpcycles, hkind]
      refine ⟨hstraight.circle, fun hcycle => ?_⟩
      by_contra hmeets
      exact not_hasCycle_of_not_meets hmeets (hstraight.loops hmeets) hcycle

def derived : LineageGraph where
  nodes := [⟨py "orders", none, suffix_of_none⟩, ⟨py "sales", none, suffix_of_none⟩]
  edges := [⟨py "join", py "orders", py "sales", []⟩]
  endpoints := by decide

theorem lineageAgrees_derived : LineageAgrees (fun _ => true) derived (downstreamOf "orders") := by
  have hiff := @lineageAgrees_iff (fun _ => true) derived (downstreamOf "orders") (py "orders") rfl (by decide)
    (by decide) fun _ _ => rfl
  refine hiff.mpr ?_
  have htakes : ∀ {a b : PyStr} {e : GraphEdge}, (downstreamOf "orders").Takes derived (py "orders") a e b →
      e = ⟨py "join", py "orders", py "sales", []⟩ ∧ a = py "orders" ∧ b = py "sales" := by
    rintro a b e ⟨-, hstep⟩
    obtain ⟨hedge, ⟨-, rfl, rfl⟩ | ⟨hup, -⟩⟩ := mem_steps.mp hstep
    · obtain rfl := List.mem_singleton.mp hedge
      exact ⟨rfl, rfl, rfl⟩
    · exact absurd rfl hup
  have hmeets : ¬ (downstreamOf "orders").Meets derived (py "orders") := by
    rintro ⟨a, e, b, hstep, -, hb | ⟨a', e', hstep', -, hne⟩⟩
    · obtain ⟨-, -, rfl⟩ := htakes hstep
      exact absurd hb (by decide)
    · obtain ⟨rfl, rfl, -⟩ := htakes hstep
      obtain ⟨rfl, rfl, -⟩ := htakes hstep'
      exact hne rfl
  refine ⟨by decide, fun hboth => absurd hboth (by decide), fun h => absurd h hmeets, fun _ e => ?_⟩
  rintro ⟨a, b, hstep⟩
  obtain ⟨rfl, -, -⟩ := htakes hstep
  decide

end ContextLayer
