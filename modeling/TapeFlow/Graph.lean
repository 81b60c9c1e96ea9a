import TapeFlow.Token

namespace TapeFlow

/-! Control-flow graphs. A node does something once control reaches it, and an edge says why control
goes on to another node. Edges name their target by its place in the list of nodes. -/

/-- What a node does. -/
inductive Instruction where
  | start
  | printState
  | pause
  | moveLeft
  | moveRight
  | write (symbol : Symbol)
  | ifRead (symbol : Symbol)
  | loop
  /-- Stops a program that leaves while it is in no loop. -/
  | finish
  | endProgram
  deriving DecidableEq

namespace Instruction

def label : Instruction → Text
  | .start => "start".toList
  | .printState => "print machine state".toList
  | .pause => "pause".toList
  | .moveLeft => "move left".toList
  | .moveRight => "move right".toList
  | .write .zero => "write 0".toList
  | .write .one => "write 1".toList
  | .ifRead .zero => "if read 0".toList
  | .ifRead .one => "if read 1".toList
  | .loop => "loop".toList
  | .finish => "finish".toList
  | .endProgram => "end".toList

def all : List Instruction :=
  [.start, .printState, .pause, .moveLeft, .moveRight, .write .zero, .write .one, .ifRead .zero,
    .ifRead .one, .loop, .finish, .endProgram]

theorem mem_all (instruction : Instruction) : instruction ∈ all := by
  cases instruction with
  | write symbol => cases symbol <;> decide
  | ifRead symbol => cases symbol <;> decide
  | _ => decide

theorem label_injective {left right : Instruction} (same : left.label = right.label) :
    left = right := by
  have distinct : ∀ left ∈ all, ∀ right ∈ all, left.label = right.label → left = right := by
    decide
  exact distinct left (mem_all left) right (mem_all right) same

end Instruction

/-- Why an edge is taken. -/
inductive Condition where
  | always
  | onTrue
  | onFalse
  | startLoop
  | endLoop
  | breakLoop
  | continueLoop
  | programFinished
  | endOfFile
  deriving DecidableEq

namespace Condition

def label : Condition → Text
  | .always => []
  | .onTrue => "true".toList
  | .onFalse => "false".toList
  | .startLoop => "start loop".toList
  | .endLoop => "end loop".toList
  | .breakLoop => "break".toList
  | .continueLoop => "continue".toList
  | .programFinished => "program finished".toList
  | .endOfFile => "end of file".toList

def all : List Condition :=
  [.always, .onTrue, .onFalse, .startLoop, .endLoop, .breakLoop, .continueLoop, .programFinished,
    .endOfFile]

theorem mem_all (condition : Condition) : condition ∈ all := by
  cases condition <;> decide

theorem label_injective {left right : Condition} (same : left.label = right.label) :
    left = right := by
  have distinct : ∀ left ∈ all, ∀ right ∈ all, left.label = right.label → left = right := by
    decide
  exact distinct left (mem_all left) right (mem_all right) same

end Condition

structure Edge where
  target : Nat
  condition : Condition
  deriving DecidableEq

structure Node where
  id : Nat
  instruction : Instruction
  edges : List Edge
  deriving DecidableEq

structure Graph where
  nodes : List Node
  deriving DecidableEq

namespace Graph

def size (graph : Graph) : Nat :=
  graph.nodes.length

def isEmpty (graph : Graph) : Bool :=
  graph.nodes.isEmpty

/-- The node at a place, whatever its number. -/
def node? (graph : Graph) (position : Nat) : Option Node :=
  graph.nodes[position]?

/-- Every edge beside the number of the node that it leaves. -/
def edges (graph : Graph) : List (Nat × Edge) :=
  graph.nodes.flatMap fun node => node.edges.map fun edge => (node.id, edge)

/-- The node that the first edge for the end of the program leads to. -/
def endNode? (graph : Graph) : Option Node :=
  (graph.edges.find? fun (_, edge) => edge.condition = .endOfFile).bind
    fun (_, edge) => graph.node? edge.target

end Graph

end TapeFlow
