import TapeFlow.Command.Plan

namespace TapeFlow

/-! Runs of the command on a file tree. -/

/-- A part of what stands on the output stream: a line that the run prints, or all that its renderer
prints. -/
inductive Output where
  | status (line : List Span)
  | content (text : Text)
  | foreign (octets : List UInt8)
  deriving DecidableEq

structure Outcome where
  printed : List Output
  /-- What the renderer prints on the error stream. -/
  complaints : List UInt8
  error : Option RunError
  tree : FileTree

def Outcome.exitCode (outcome : Outcome) : Nat :=
  if outcome.error.isSome then 1 else 0

/-- What an action does besides printing: the tree after it, and why it fails if it does. -/
def Action.perform (renderer : Option Renderer) (tree : FileTree) :
    Action → FileTree × Option RunError
  | .status _ => (tree, none)
  | .print _ => (tree, none)
  | .createDirectories path =>
    let (after, error) := tree.createDirectories path
    (after, error.map .file)
  | .write path content =>
    match tree.writeText path content with
    | .ok after => (after, none)
    | .error reason => (tree, some (.exporting reason))
  | .render path dot =>
    let (after, error) := tree.render renderer path dot
    (after, error.map .exporting)
  | .fail reason => (tree, some reason)

/-- What an action puts on the output stream. -/
def Action.output (quiet : Bool) (renderer : Option Renderer) : Action → List Output
  | .status line => if quiet then [] else [.status line]
  | .print content => [.content content]
  | .render path dot =>
    match startRenderer renderer path dot with
    | .ok rendering => [.foreign rendering.output]
    | .error _ => []
  | _ => []

/-- What an action puts on the error stream, besides the reason for which it fails. -/
def Action.complaints (renderer : Option Renderer) : Action → List UInt8
  | .render path dot =>
    match startRenderer renderer path dot with
    | .ok rendering => rendering.complaints
    | .error _ => []
  | _ => []

/-- Performs actions up to the first that fails. -/
def performAll (quiet : Bool) (renderer : Option Renderer) (tree : FileTree) :
    List Action → Outcome
  | [] => ⟨[], [], none, tree⟩
  | action :: rest =>
    match action.perform renderer tree with
    | (after, some error) =>
      ⟨action.output quiet renderer, action.complaints renderer, some error, after⟩
    | (after, none) =>
      let later := performAll quiet renderer after rest
      { later with
        printed := action.output quiet renderer ++ later.printed
        complaints := action.complaints renderer ++ later.complaints }

def Request.run (request : Request) (renderer : Option Renderer) (tree : FileTree) : Outcome :=
  performAll request.quiet renderer tree (request.actions (tree.read request.file))

end TapeFlow
