import ContextLayer.PyJson
import ContextLayer.Lib.BreadthFirst

/-!
# The lineage graph

`lineage/graph.json`, as far as a scan and the severities read it. Its nodes are exactly the endpoints
of its edges, and a resolved one carries the path of its machine document.
-/

namespace ContextLayer

theorem suffix_of_none : ∀ path ∈ (none : Option PyStr), py ".schema.md" <:+ path := nofun

structure GraphNode where
  id : PyStr
  doc : Option PyStr
  doc_suffix : ∀ path ∈ doc, py ".schema.md" <:+ path

structure ColumnMapping where
  sources : List PyStr
  target : PyStr
  deriving DecidableEq

structure GraphEdge where
  id : PyStr
  source : PyStr
  target : PyStr
  columns : List ColumnMapping

structure LineageGraph where
  nodes : List GraphNode
  edges : List GraphEdge
  endpoints : ∀ e ∈ edges, e.source ∈ nodes.map GraphNode.id ∧ e.target ∈ nodes.map GraphNode.id

def GraphEdge.arc (e : GraphEdge) : BreadthFirst.Arc PyStr PyStr := ⟨e.source, e.id, e.target⟩

end ContextLayer
