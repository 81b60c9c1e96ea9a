import TapeFlow.Graph

namespace TapeFlow

/-! Graphs in the DOT language: one statement for each edge, and one for each node that no edge
touches. -/

namespace Dot

/-- The name of a node: its number and what it does. -/
def name (node : Node) : Text :=
  '"' :: (Text.ofNat node.id ++ ' ' :: node.instruction.label) ++ ['"']

def margin : Text :=
  "    ".toList

def nodeStatement (node : Node) : Text :=
  margin ++ name node ++ ";\n".toList

def edgeStatement (source target : Node) (condition : Condition) : Text :=
  margin ++ name source ++ " -> ".toList ++ name target ++
    " [label=\"".toList ++ condition.label ++ "\"];\n".toList

def header : Text :=
  "digraph mtdv \x7b\n".toList

def footer : Text :=
  "\x7d\n".toList

end Dot

namespace Graph

/-- Whether a node has no edge, in or out. -/
def isolated (graph : Graph) (node : Node) : Bool :=
  node.edges.isEmpty && !graph.edges.any fun (_, edge) => edge.target = node.id

/-- The statement of an edge, where both its ends are places of nodes. -/
def edgeStatement? (graph : Graph) (source : Nat) (edge : Edge) : Option Text :=
  match graph.node? source, graph.node? edge.target with
  | some source, some target => some (Dot.edgeStatement source target edge.condition)
  | _, _ => none

def dot (graph : Graph) : Text :=
  Dot.header ++
    ((graph.nodes.filter graph.isolated).map Dot.nodeStatement).flatten ++
    (graph.edges.filterMap fun (source, edge) => graph.edgeStatement? source edge).flatten ++
    Dot.footer

end Graph

end TapeFlow
