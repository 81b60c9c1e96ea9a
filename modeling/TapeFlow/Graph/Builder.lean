import TapeFlow.Graph

namespace TapeFlow

/-! One pass over the tokens of a program, adding nodes and edges as it goes. A block is not read
ahead: what is open is kept on a stack, and how control goes on from the node reached last is kept
until the next edge needs it. -/

/-- Why a token list is no program. Places count tokens from zero. -/
inductive BuildError where
  | unmatchedCloser (index : Nat)
  | unclosedScope (index : Nat)
  | missingEndOfFile
  | unknownToken (index : Nat) (word : Text)
  deriving DecidableEq

def BuildError.message : BuildError → String
  | .unmatchedCloser index => s!"Unmatched `\x7d` (token {index})"
  | .unclosedScope index => s!"Block opened at token {index} is never closed"
  | .missingEndOfFile => "Missing end of file token `#`"
  | .unknownToken index word =>
    let shown := String.ofList word
    s!"Unknown token `{shown}` (token {index})"

/-- How control goes on from the current node. -/
inductive Exit where
  | plain
  | intoBranch
  | pastBranch
  | intoLoop
  | pastLoop
  deriving DecidableEq

def Exit.condition : Exit → Condition
  | .plain => .always
  | .intoBranch => .onTrue
  | .pastBranch => .onFalse
  | .intoLoop => .startLoop
  | .pastLoop => .endLoop

inductive BlockKind where
  | branch
  | loop
  deriving DecidableEq

/-- An open block: the node that tests for it and the place of the token that opened it. -/
structure Scope where
  kind : BlockKind
  node : Nat
  opened : Nat
  deriving DecidableEq

/-- A graph that is being built. Both stacks have the innermost block first. -/
structure Builder where
  nodes : List Node
  current : Nat
  exit : Exit
  scopes : List Scope
  loops : List Nat
  deriving DecidableEq

namespace Builder

def initial : Builder :=
  ⟨[⟨0, .start, []⟩], 0, .plain, [], []⟩

def link (builder : Builder) (source target : Nat) (condition : Condition) : Builder :=
  { builder with
    nodes := builder.nodes.modify source fun node =>
      { node with edges := node.edges ++ [⟨target, condition⟩] } }

/-- Adds a node that the current node leads to. The current node stays. -/
def addNode (builder : Builder) (instruction : Instruction) (condition : Condition) : Builder :=
  let fresh : Node := ⟨builder.nodes.length, instruction, []⟩
  let extended := { builder with nodes := builder.nodes ++ [fresh] }
  extended.link builder.current fresh.id condition

/-- Adds a node and goes on from it. -/
def advance (builder : Builder) (instruction : Instruction) (exit : Exit) : Builder :=
  { builder.addNode instruction builder.exit.condition with
    current := builder.nodes.length
    exit := exit }

def openBranch (builder : Builder) (index : Nat) (symbol : Symbol) : Builder :=
  { builder.advance (.ifRead symbol) .intoBranch with
    scopes := ⟨.branch, builder.nodes.length, index⟩ :: builder.scopes }

def openLoop (builder : Builder) (index : Nat) : Builder :=
  { builder.advance .loop .intoLoop with
    scopes := ⟨.loop, builder.nodes.length, index⟩ :: builder.scopes
    loops := builder.nodes.length :: builder.loops }

/-- Leaves the innermost loop or the program. What follows is still reached from the current node,
in the way it was before. -/
def leave (builder : Builder) : Builder :=
  match builder.loops with
  | innermost :: _ => builder.link builder.current innermost .breakLoop
  | [] => builder.addNode .finish .programFinished

/-- Closes a branch. Control comes back to its test, except from the test itself. -/
def closeBranch (builder : Builder) (node : Nat) : Builder :=
  let joined :=
    if builder.current = node then builder
    else builder.link builder.current node builder.exit.condition
  { joined with current := node, exit := .pastBranch }

def closeLoop (builder : Builder) (node : Nat) : Builder :=
  { builder.link builder.current node .continueLoop with
    current := node
    exit := .pastLoop
    loops := builder.loops.tail }

def close (builder : Builder) (index : Nat) : Except BuildError Builder :=
  match builder.scopes with
  | [] => .error (.unmatchedCloser index)
  | ⟨.branch, node, _⟩ :: outer => .ok { builder.closeBranch node with scopes := outer }
  | ⟨.loop, node, _⟩ :: outer => .ok { builder.closeLoop node with scopes := outer }

/-- Takes in the token at place `index`. -/
def step (builder : Builder) (index : Nat) : Token → Except BuildError Builder
  | .printState => .ok (builder.advance .printState .plain)
  | .pause => .ok (builder.advance .pause .plain)
  | .moveLeft => .ok (builder.advance .moveLeft .plain)
  | .moveRight => .ok (builder.advance .moveRight .plain)
  | .write symbol => .ok (builder.advance (.write symbol) .plain)
  | .branch symbol => .ok (builder.openBranch index symbol)
  | .loop => .ok (builder.openLoop index)
  | .leave => .ok builder.leave
  | .close => builder.close index
  | .endOfFile => .ok (builder.addNode .endProgram .endOfFile)
  | .unknown word => .error (.unknownToken index word)

/-- The graph of a program that has come to its end. -/
def finish (builder : Builder) : Except BuildError Graph :=
  match builder.scopes.getLast? with
  | some outermost => .error (.unclosedScope outermost.opened)
  | none => .ok ⟨builder.nodes⟩

/-- Takes in tokens up to the end mark; what follows it is not looked at. -/
def run (builder : Builder) (index : Nat) : List Token → Except BuildError Graph
  | [] => .error .missingEndOfFile
  | token :: rest =>
    match builder.step index token with
    | .error reason => .error reason
    | .ok next => if token = .endOfFile then next.finish else next.run (index + 1) rest

end Builder

/-- The control-flow graph of a token list. -/
def build (tokens : List Token) : Except BuildError Graph :=
  Builder.initial.run 0 tokens

end TapeFlow
