import ContextLayer.Graph
import ContextLayer.Lib.Levels
import Mathlib.Data.Prod.Lex
import Mathlib.Logic.Relation

/-!
# Lineage walks

`get_lineage` of the Python library walks the graph upstream or downstream, for `both` one after the other. The tool
of the core walks it level by level, for `both` either way at every node, and says it has detected a cycle when it
comes to a node again.
-/

namespace ContextLayer

open Text StableSort

inductive Direction where
  | upstream
  | downstream
  | both
  deriving DecidableEq

/-- The edges listed under a node: by their target when walking upstream, else by their source. -/
def LineageGraph.adjacent (graph : LineageGraph) (up : Bool) (fqn : PyStr) : List GraphEdge :=
  graph.edges.filter fun e => decide ((if up then e.target else e.source) = fqn)

/-! ### The library -/

/-- What `_bfs` fills. -/
structure Bfs where
  visited : List PyStr
  depths : List (PyStr × Nat)
  edges : List (PyStr × GraphEdge)

def GraphEdge.neighbor (e : GraphEdge) (up : Bool) : PyStr := if up then e.source else e.target

/-- One edge out of a node at depth `d`, with the nodes queued so far. -/
def Bfs.follow (up : Bool) (d : Nat) (out : List PyStr × Bfs) (edge : GraphEdge) : List PyStr × Bfs :=
  let neighbor := edge.neighbor up
  let st := { out.2 with edges := Dict.set out.2.edges edge.id edge }
  if neighbor ∈ st.visited then (out.1, st)
  else
    (out.1 ++ [neighbor],
      { st with
        visited := st.visited ++ [neighbor]
        depths := Dict.set st.depths neighbor (min ((Dict.get? st.depths neighbor).getD (d + 1)) (d + 1)) })

def LineageGraph.bfsExpand (graph : LineageGraph) (up : Bool) (d : Nat) (fqn : PyStr) (st : Bfs) : List PyStr × Bfs :=
  (graph.adjacent up fqn).foldl (Bfs.follow up d) ([], st)

/-- `_bfs`. A node is queued once, so the queue is empty before the fuel is. -/
def LineageGraph.bfs (graph : LineageGraph) (root : PyStr) (depth : Option ℚ) (up : Bool) (st : Bfs) : Bfs :=
  Levels.drain (graph.bfsExpand up) (fun d => depth.any fun bound => decide (bound ≤ (d : ℚ))) graph.nodes.length
    [(root, 0)] ⟨[root], Dict.set st.depths root (min ((Dict.get? st.depths root).getD 0) 0), st.edges⟩

inductive Color where
  | white
  | gray
  | black
  deriving DecidableEq

structure Dfs where
  color : List (PyStr × Color)
  closing : List PyStr
  stack : List (PyStr × Nat)

/-- One turn of the loop of `_cycles`. -/
def Dfs.turn (neighbors : PyStr → List (PyStr × PyStr)) (st : Dfs) : Dfs :=
  match st.stack with
  | [] => st
  | (node, i) :: rest =>
      match (neighbors node)[i]? with
      | none => { st with color := Dict.set st.color node .black, stack := rest }
      | some (target, eid) =>
          let st : Dfs := { st with stack := (node, i + 1) :: rest }
          match Dict.get? st.color target with
          | some .gray => { st with closing := st.closing ++ [eid] }
          | some .white => { st with color := Dict.set st.color target .gray, stack := (target, 0) :: st.stack }
          | _ => st

/-- `_cycles`. A turn uses up an edge or a node. -/
def lineageCycles (nodeIds : List PyStr) (edges : List GraphEdge) : List PyStr :=
  let inside := (sortOn GraphEdge.id edges).filter fun e => decide (e.source ∈ nodeIds ∧ e.target ∈ nodeIds)
  let neighbors := fun node => (inside.filter fun e => decide (e.source = node)).map fun e => (e.target, e.id)
  let final := (sortOn (fun id => id) nodeIds).foldl (fun st start =>
    if Dict.get? st.color start = some .white then
      (Dfs.turn neighbors)^[edges.length + nodeIds.length]
        { st with color := Dict.set st.color start .gray, stack := [(start, 0)] }
    else st) ⟨nodeIds.map (·, Color.white), [], []⟩
  sortOn (fun id => id) final.closing

structure LineageResult where
  root : PyStr
  direction : Direction
  depth : Option ℚ
  nodes : List (GraphNode × Nat)
  edges : List GraphEdge
  cycles : List PyStr

def Direction.walks : Direction → List Bool
  | .upstream => [true]
  | .downstream => [false]
  | .both => [true, false]

/-- `get_lineage`; `none` where it raises, on a negative depth. -/
def getLineage (graph : LineageGraph) (objectFqn : PyStr) (direction : Direction) (depth : Option ℚ) :
    Option LineageResult :=
  if depth.any fun bound => decide (bound < 0) then none
  else
    let nodesById := Dict.ofList (graph.nodes.map fun n => (n.id, n))
    if (Dict.get? nodesById objectFqn).isNone then some ⟨objectFqn, direction, depth, [], [], []⟩
    else
      let st := direction.walks.foldl (fun st up => graph.bfs objectFqn depth up st) ⟨[], [], []⟩
      let ranked := (sortOn (fun e => (toLex (e.2, e.1) : Nat ×ₗ PyStr)) st.depths).filterMap fun e =>
        (Dict.get? nodesById e.1).map (·, e.2)
      some ⟨objectFqn, direction, depth, ranked, sortOn GraphEdge.id (st.edges.map Prod.snd),
        lineageCycles (st.depths.map Prod.fst) (st.edges.map Prod.snd)⟩

/-! ### The tool -/

def GraphEdge.otherEnd (e : GraphEdge) (fqn : PyStr) : PyStr := if e.source = fqn then e.target else e.source

structure Walked where
  visited : List PyStr
  includedEdges : List (PyStr × GraphEdge)
  cycles : Bool

section

variable (visible : PyStr → Bool)

/-- One candidate edge at a node, with the nodes of the next level so far. -/
def Walked.follow (fqn : PyStr) (out : List PyStr × Walked) (edge : GraphEdge) : List PyStr × Walked :=
  let neighbor := edge.otherEnd fqn
  if visible neighbor then
    let st := { out.2 with includedEdges := Dict.set out.2.includedEdges edge.id edge }
    if neighbor ∈ st.visited then (out.1, if neighbor ≠ fqn then { st with cycles := true } else st)
    else (out.1 ++ [neighbor], { st with visited := st.visited ++ [neighbor] })
  else out

def LineageGraph.candidates (graph : LineageGraph) (direction : Direction) (fqn : PyStr) : List GraphEdge :=
  (if direction ≠ .upstream then graph.adjacent false fqn else []) ++
    if direction ≠ .downstream then graph.adjacent true fqn else []

def LineageGraph.walkExpand (graph : LineageGraph) (direction : Direction) (_ : Nat) (fqn : PyStr) (st : Walked) :
    List PyStr × Walked :=
  (graph.candidates direction fqn).foldl (Walked.follow visible fqn) ([], st)

/-- The arguments of the tool; `depth` is the number that `Number` makes of it, none for a NaN. -/
structure LineageArgs where
  object : Option PyStr
  direction : Option PyStr
  depth : Option ℚ

def LineageArgs.walkDirection (args : LineageArgs) : Direction :=
  if args.direction = some (py "upstream") then .upstream
  else if args.direction = some (py "downstream") then .downstream
  else .both

/-- `Math.min(Math.max(Number(args.depth ?? 3) || 3, 1), 10)`. -/
def LineageArgs.walkDepth (args : LineageArgs) : ℚ :=
  min (max ((args.depth.filter fun d => decide (d ≠ 0)).getD 3) 1) 10

structure LineagePayload where
  object : PyStr
  direction : Direction
  depth : ℚ
  nodes : List GraphNode
  edges : List GraphEdge
  cyclesDetected : Bool

inductive LineageOutcome where
  | error (code message : PyStr) (filtered : Bool)
  | payload (p : LineagePayload)

/-- The order of JavaScript's strings. -/
def byUnits (s : PyStr) : Text := s.flatMap CodePoint.units

def LineageGraph.walk (graph : LineageGraph) (object : PyStr) (direction : Direction) (depth : ℚ) : Walked :=
  Levels.rounds (graph.walkExpand visible direction) ⌈depth⌉₊ 0 [object] ⟨[object], [], false⟩

def toolGetLineage (graph : Option LineageGraph) (args : LineageArgs) : LineageOutcome :=
  let object := args.object.getD []
  let missing := py "no lineage node " ++ object
  if object = [] then .error (py "invalid_argument") (py "object (FQN string) required") false
  else
    match graph with
    | none => .error (py "not_found") (py "no lineage graph in the KB") false
    | some graph =>
        let nodeById := Dict.ofList (graph.nodes.map fun n => (n.id, n))
        if (Dict.get? nodeById object).isNone then .error (py "not_found") missing false
        else if visible object then
          let st := graph.walk visible object args.walkDirection args.walkDepth
          .payload {
            object
            direction := args.walkDirection
            depth := args.walkDepth
            nodes := (st.visited.insertionSort fun a b => byUnits a ≤ byUnits b).map fun fqn =>
              (Dict.get? nodeById fqn).getD ⟨fqn, none, suffix_of_none⟩
            edges := (st.includedEdges.map Prod.snd).insertionSort fun a b => byUnits a.id ≤ byUnits b.id
            cyclesDetected := st.cycles }
        else .error (py "not_found") missing true

end

/-! ### Agreement -/

/-- Some edges of a kind run in a circle. -/
def HasCycle (kind : GraphEdge → Prop) : Prop :=
  ∃ a, Relation.TransGen (fun a b => ∃ e, kind e ∧ e.source = a ∧ e.target = b) a a

/-- The same nodes and edges, and a cycle is detected exactly when there is one. -/
structure LineagePayload.Refines (p : LineagePayload) (r : LineageResult) : Prop where
  nodes : ∀ n, n ∈ p.nodes ↔ n ∈ r.nodes.map Prod.fst
  edges : ∀ e, e ∈ p.edges ↔ e ∈ r.edges
  cycles : p.cyclesDetected = true ↔ HasCycle fun e => e ∈ p.edges

/-- The tool answers, and as the library does to the arguments it says it used. -/
def LineageAgrees (visible : PyStr → Bool) (graph : LineageGraph) (args : LineageArgs) : Prop :=
  ∃ p, toolGetLineage visible (some graph) args = .payload p ∧
    ∃ r, getLineage graph p.object p.direction (some p.depth) = some r ∧ p.Refines r

/-! ### The walk on the graph -/

/-- The edges at a node in a direction, and where they lead. -/
def LineageGraph.steps (graph : LineageGraph) (direction : Direction) (fqn : PyStr) : List (GraphEdge × PyStr) :=
  (graph.candidates direction fqn).map fun e => (e, e.otherEnd fqn)

section

variable (graph : LineageGraph) (args : LineageArgs) (start : PyStr)

/-- An edge that leads from a node fewer steps away than the depth. -/
def LineageArgs.Takes (a : PyStr) (e : GraphEdge) (b : PyStr) : Prop :=
  Levels.Within (graph.steps args.walkDirection) start (⌈args.walkDepth⌉₊ - 1) a ∧
    (e, b) ∈ graph.steps args.walkDirection a

def LineageArgs.TakesEdge (e : GraphEdge) : Prop := ∃ a b, args.Takes graph start a e b

/-- An edge of one of the two walks one way. -/
def LineageArgs.TakesOneWay (e : GraphEdge) : Prop :=
  e ∈ graph.edges ∧
    (Levels.Within (graph.steps .upstream) start (⌈args.walkDepth⌉₊ - 1) e.target ∨
      Levels.Within (graph.steps .downstream) start (⌈args.walkDepth⌉₊ - 1) e.source)

/-- Two different steps lead to one node, or a step leads back to the start; self-loops do not count. -/
def LineageArgs.Meets : Prop :=
  ∃ a e b, args.Takes graph start a e b ∧ b ≠ a ∧
    (b = start ∨ ∃ a' e', args.Takes graph start a' e' b ∧ b ≠ a' ∧ (a', e') ≠ (a, e))

/-- The walks that tell the same story: both ways at once the tool does not turn around, steps meet only where there
is a cycle, and a self-loop is not the only one. -/
structure LineageArgs.Straight : Prop where
  named : start ≠ []
  oneWay : args.walkDirection = .both → ∀ e, args.TakesEdge graph start e → args.TakesOneWay graph start e
  circle : args.Meets graph start → HasCycle (args.TakesEdge graph start)
  loops : ¬ args.Meets graph start → ∀ e, args.TakesEdge graph start e → e.source ≠ e.target

end

end ContextLayer
