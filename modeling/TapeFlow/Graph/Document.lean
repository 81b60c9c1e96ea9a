import TapeFlow.Graph.Fault
import TapeFlow.Graph.Json
import TapeFlow.Json.Value

namespace TapeFlow

/-! Reading graphs from JSON documents. -/

namespace Json.Reader

def instruction : Reader Instruction :=
  variant Instruction.all Instruction.label

def condition : Reader Condition :=
  variant Condition.all Condition.label

def edge : Reader Edge := do
  match ← peekPart? with
  | none => throw .truncated
  | some '[' =>
    drop
    let target ← elementAt .edge 0 index
    let condition ← elementAt .edge 1 condition
    endList
    return ⟨target, condition⟩
  | some _ => wrongType .edge

/-- The fields of a node that are read so far. -/
structure NodeFields where
  id : Option Nat := none
  instruction : Option Instruction := none
  edges : Option (List Edge) := none

def nodeMember (key : Text) (fields : NodeFields) : Reader NodeFields := do
  if key = "id".toList then
    return { fields with id := ← field "id" fields.id.isSome index }
  else if key = "inst".toList then
    return { fields with instruction := ← field "inst" fields.instruction.isSome instruction }
  else if key = "edges".toList then
    return { fields with edges := ← field "edges" fields.edges.isSome (list edge) }
  else
    ignoredField
    return fields

def nodeObject : Reader Node := do
  let fields ← members nodeMember true {} (← get)
  return ⟨← required "id" fields.id, ← required "inst" fields.instruction,
    ← required "edges" fields.edges⟩

def nodeList : Reader Node := do
  let id ← elementAt .node 0 index
  let instruction ← elementAt .node 1 instruction
  let edges ← elementAt .node 2 (list edge)
  return ⟨id, instruction, edges⟩

def node : Reader Node :=
  record .node nodeObject nodeList

def graphMember (key : Text) (nodes : Option (List Node)) : Reader (Option (List Node)) := do
  if key = "nodes".toList then
    return some (← field "nodes" nodes.isSome (list node))
  else
    ignoredField
    return nodes

def graphObject : Reader Graph := do
  let nodes ← members graphMember true none (← get)
  return ⟨← required "nodes" nodes⟩

def graphList : Reader Graph := do
  return ⟨← elementAt .graph 0 (list node)⟩

def graph : Reader Graph :=
  record .graph graphObject graphList

end Json.Reader

/-- Why a document is no control-flow graph. -/
inductive DocumentError where
  | unreadable (reason : Json.ReadError)
  | faulty (fault : Fault)
  deriving DecidableEq

namespace Graph

/-- The graph of a document, whether or not it has faults. -/
def parseJson (text : Text) : Except Json.ReadError Graph :=
  Json.Reader.graph.readAll text

/-- The graph of a document, if it has no fault. -/
def ofJson (text : Text) : Except DocumentError Graph :=
  match parseJson text with
  | .error reason => .error (.unreadable reason)
  | .ok graph =>
    match graph.fault? with
    | some fault => .error (.faulty fault)
    | none => .ok graph

end Graph

end TapeFlow
