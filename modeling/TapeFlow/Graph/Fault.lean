import TapeFlow.Graph

namespace TapeFlow

/-- What keeps a list of nodes from being a control-flow graph. -/
inductive Fault where
  | missingStart
  | misnumbered (position id : Nat)
  | dangling (source target : Nat)
  deriving DecidableEq

def Fault.message : Fault → String
  | .missingStart => "Graph has no start node"
  | .misnumbered position id => s!"Node at position {position} has id {id}"
  | .dangling source target => s!"Edge from node {source} points to missing node {target}"

namespace Graph

def startsAtStart (graph : Graph) : Bool :=
  (graph.node? 0).any (·.instruction = .start)

/-- The first node whose number is not its place, with that place. -/
def misnumbered? (graph : Graph) : Option (Node × Nat) :=
  graph.nodes.zipIdx.find? fun (node, position) => node.id ≠ position

/-- The first edge that leads to no node, with the number of the node that it leaves. -/
def dangling? (graph : Graph) : Option (Nat × Edge) :=
  graph.edges.find? fun (_, edge) => graph.size ≤ edge.target

/-- The first fault of a graph: its start counts before its numbering, and that before its edges. -/
def fault? (graph : Graph) : Option Fault :=
  if !graph.startsAtStart then some .missingStart
  else match graph.misnumbered? with
    | some (node, position) => some (.misnumbered position node.id)
    | none => graph.dangling?.map fun (source, edge) => .dangling source edge.target

end Graph

end TapeFlow
