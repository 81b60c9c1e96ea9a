import TapeFlow.Graph
import TapeFlow.Json.Layout

namespace TapeFlow

/-! Graphs as JSON documents. A node is an object, an edge a pair of its target and its condition,
and instructions and conditions are written by their labels. -/

def Edge.toJson (depth : Nat) (edge : Edge) : Text :=
  Json.array depth [Text.ofNat edge.target, Json.plainString edge.condition.label]

def Node.toJson (depth : Nat) (node : Node) : Text :=
  Json.object depth
    [Json.member "id" (Text.ofNat node.id),
      Json.member "inst" (Json.plainString node.instruction.label),
      Json.member "edges" (Json.array (depth + 1) (node.edges.map (Edge.toJson (depth + 2))))]

/-- The document of a graph, without a line feed at its end. -/
def Graph.toJson (graph : Graph) : Text :=
  Json.object 0 [Json.member "nodes" (Json.array 1 (graph.nodes.map (Node.toJson 2)))]

end TapeFlow
