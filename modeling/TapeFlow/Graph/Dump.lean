import TapeFlow.Graph

namespace TapeFlow

/-! The outline of a graph: every field on a line of its own, indented by its depth. -/

def Instruction.name : Instruction → String
  | .start => "Start"
  | .printState => "PrintState"
  | .pause => "Pause"
  | .moveLeft => "MoveLeft"
  | .moveRight => "MoveRight"
  | .write .zero => "WriteZero"
  | .write .one => "WriteOne"
  | .ifRead .zero => "IfReadZero"
  | .ifRead .one => "IfReadOne"
  | .loop => "Loop"
  | .finish => "Finish"
  | .endProgram => "End"

def Condition.name : Condition → String
  | .always => "Always"
  | .onTrue => "True"
  | .onFalse => "False"
  | .startLoop => "StartLoop"
  | .endLoop => "EndLoop"
  | .breakLoop => "Break"
  | .continueLoop => "Continue"
  | .programFinished => "ProgramFinished"
  | .endOfFile => "EndOfFile"

namespace Outline

/-- Lines with their indentation. -/
abbrev Lines := List Text

def line (content : String) : Lines :=
  [content.toList]

def nest (lines : Lines) : Lines :=
  lines.map ("    ".toList ++ ·)

/-- A list of entries between brackets, on one line if there is none. -/
def list (field : String) (entries : List Lines) : Lines :=
  if entries.isEmpty then line s!"{field}: [],"
  else line s!"{field}: [" ++ nest entries.flatten ++ line "],"

def edge (edge : Edge) : Lines :=
  let target := edge.target
  let condition := edge.condition.name
  line "Edge \x7b" ++ nest (line s!"target: {target}," ++ line s!"condition: {condition},") ++
    line "\x7d,"

def node (node : Node) : Lines :=
  let id := node.id
  let instruction := node.instruction.name
  line "Node \x7b" ++
    nest (line s!"id: {id}," ++ line s!"instruction: {instruction}," ++
      list "edges" (node.edges.map edge)) ++
    line "\x7d,"

def graph (graph : Graph) : Lines :=
  line "Graph \x7b" ++ nest (list "nodes" (graph.nodes.map node)) ++ line "\x7d"

end Outline

/-- The outline of a graph, without a line feed at its end. -/
def Graph.dump (graph : Graph) : Text :=
  ['\n'].intercalate (Outline.graph graph)

end TapeFlow
