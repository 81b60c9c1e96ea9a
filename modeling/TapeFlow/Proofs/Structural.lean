import TapeFlow.Proofs.Runs

namespace TapeFlow

/-! A compiler that follows the tree of a program instead of its tokens. It keeps no stack: what a
block needs to know of its surroundings is the loop that encloses it. The builder, which sees one
token at a time, comes to the same graph. -/

/-- A graph so far: the node that control goes on from, and the condition under which it does. -/
structure Fragment where
  nodes : List Node
  current : Nat
  pending : Condition
  deriving DecidableEq

namespace Fragment

def initial : Fragment :=
  ⟨[⟨0, .start, []⟩], 0, .always⟩

def link (fragment : Fragment) (target : Nat) (condition : Condition) : Fragment :=
  { fragment with
    nodes := fragment.nodes.modify fragment.current fun node =>
      { node with edges := node.edges ++ [⟨target, condition⟩] } }

def add (fragment : Fragment) (instruction : Instruction) (condition : Condition) : Fragment :=
  let fresh : Node := ⟨fragment.nodes.length, instruction, []⟩
  let extended := { fragment with nodes := fragment.nodes ++ [fresh] }
  extended.link fresh.id condition

/-- Adds a node under the pending condition and goes on from it. -/
def enter (fragment : Fragment) (instruction : Instruction) (pending : Condition) : Fragment :=
  { fragment.add instruction fragment.pending with
    current := fragment.nodes.length
    pending := pending }

/-- Ends the block of a branch. Control comes back to its test, except from the test itself. -/
def closeBranch (fragment : Fragment) (test : Nat) : Fragment :=
  let joined :=
    if fragment.current = test then fragment else fragment.link test fragment.pending
  { joined with current := test, pending := .onFalse }

def closeLoop (fragment : Fragment) (head : Nat) : Fragment :=
  { fragment.link head .continueLoop with current := head, pending := .endLoop }

end Fragment

namespace Program

/-- Extends a fragment by a program, given the node of the loop that encloses it. -/
def compile : Program → Option Nat → Fragment → Fragment
  | .done, _, fragment => fragment
  | .act operation rest, enclosing, fragment =>
    rest.compile enclosing (fragment.enter operation.instruction .always)
  | .leave rest, some head, fragment => rest.compile (some head) (fragment.link head .breakLoop)
  | .leave rest, none, fragment => rest.compile none (fragment.add .finish .programFinished)
  | .branch symbol body rest, enclosing, fragment =>
    let inner := body.compile enclosing (fragment.enter (.ifRead symbol) .onTrue)
    rest.compile enclosing (inner.closeBranch fragment.nodes.length)
  | .loop body rest, enclosing, fragment =>
    let inner := body.compile (some fragment.nodes.length) (fragment.enter .loop .startLoop)
    rest.compile enclosing (inner.closeLoop fragment.nodes.length)

def graph (program : Program) : Graph :=
  ⟨((program.compile none .initial).add .endProgram .endOfFile).nodes⟩

end Program

namespace Builder

def fragment (builder : Builder) : Fragment :=
  ⟨builder.nodes, builder.current, builder.exit.condition⟩

@[simp] theorem closeBranch_loops (builder : Builder) (test : Nat) :
    (builder.closeBranch test).loops = builder.loops := by
  unfold closeBranch
  split <;> rfl

theorem fragment_leave (builder : Builder) :
    builder.leave.fragment =
      match builder.loops.head? with
      | some loop => builder.fragment.link loop .breakLoop
      | none => builder.fragment.add .finish .programFinished := by
  unfold leave
  cases builder.loops <;> rfl

theorem fragment_closeBranch (builder : Builder) (test : Nat) :
    (builder.closeBranch test).fragment = builder.fragment.closeBranch test := by
  unfold closeBranch Fragment.closeBranch
  by_cases atTest : builder.current = test
  · simp [fragment, atTest, Exit.condition]
  · simp [fragment, atTest, Exit.condition, link, Fragment.link]

theorem fragment_closeLoop (builder : Builder) (head : Nat) :
    (builder.closeLoop head).fragment = builder.fragment.closeLoop head := rfl

/-- Taking in the tokens of a program extends the fragment as the compiler does and leaves both
stacks as they were, whatever blocks are open. -/
theorem feeds_program (program : Program) (builder : Builder) (index : Nat) :
    ∃ after : Builder, builder.Feeds index program.tokens after ∧
      after.fragment = program.compile builder.loops.head? builder.fragment ∧
      after.scopes = builder.scopes ∧ after.loops = builder.loops := by
  -- Over every builder, since a block is taken in with more blocks open than the program around it.
  induction program generalizing builder index with
  | done => exact ⟨builder, .nil, rfl, rfl, rfl⟩
  | act operation next ih =>
      obtain ⟨after, fed, same, scopes, loops⟩ :=
        ih (builder.advance operation.instruction .plain) (index + 1)
      exact ⟨after, .cons (.act operation) fed, same, scopes, loops⟩
  | leave next ih =>
      obtain ⟨after, fed, same, scopes, loops⟩ := ih builder.leave (index + 1)
      rw [leave_loops] at same loops
      rw [leave_scopes] at scopes
      refine ⟨after, .cons .leave fed, ?_, scopes, loops⟩
      rw [same, fragment_leave]
      cases builder.loops <;> rfl
  | branch symbol body next bodyIH nextIH =>
      obtain ⟨inner, bodyFed, innerSame, innerScopes, innerLoops⟩ :=
        bodyIH (builder.openBranch index symbol) (index + 1)
      obtain ⟨after, nextFed, same, scopes, loops⟩ := nextIH
        { inner.closeBranch builder.nodes.length with scopes := builder.scopes }
        (index + 1 + body.tokens.length + 1)
      have closedLoops := (closeBranch_loops inner builder.nodes.length).trans innerLoops
      refine ⟨after, .cons (.branch symbol) (bodyFed.append (.cons (.closeBranch innerScopes) nextFed)),
        ?_, scopes, loops.trans closedLoops⟩
      have closed := fragment_closeBranch inner builder.nodes.length
      rw [innerSame] at closed
      calc
        after.fragment = next.compile (inner.closeBranch builder.nodes.length).loops.head?
            (inner.closeBranch builder.nodes.length).fragment := same
        _ = (Program.branch symbol body next).compile builder.loops.head? builder.fragment := by
          rw [closedLoops, closed]
          rfl
  | loop body next bodyIH nextIH =>
      obtain ⟨inner, bodyFed, innerSame, innerScopes, innerLoops⟩ :=
        bodyIH (builder.openLoop index) (index + 1)
      obtain ⟨after, nextFed, same, scopes, loops⟩ := nextIH
        { inner.closeLoop builder.nodes.length with scopes := builder.scopes }
        (index + 1 + body.tokens.length + 1)
      have closedLoops : (inner.closeLoop builder.nodes.length).loops = builder.loops :=
        congrArg List.tail innerLoops
      refine ⟨after, .cons .loop (bodyFed.append (.cons (.closeLoop innerScopes) nextFed)),
        ?_, scopes, loops.trans closedLoops⟩
      have closed := fragment_closeLoop inner builder.nodes.length
      rw [innerSame] at closed
      calc
        after.fragment = next.compile (inner.closeLoop builder.nodes.length).loops.head?
            (inner.closeLoop builder.nodes.length).fragment := same
        _ = (Program.loop body next).compile builder.loops.head? builder.fragment := by
          rw [closedLoops, closed]
          rfl

theorem build_tokens (program : Program) (rest : List Token) :
    build (program.tokens ++ .endOfFile :: rest) = .ok program.graph := by
  obtain ⟨after, fed, same, scopes, _⟩ := feeds_program program initial 0
  have ended : after.Accepts (0 + program.tokens.length) (.endOfFile :: rest)
      ⟨(after.addNode .endProgram .endOfFile).nodes⟩ := .ended scopes
  have nodes : (after.addNode .endProgram .endOfFile).nodes =
      (after.fragment.add .endProgram .endOfFile).nodes := rfl
  rw [build, fed.run_append, run_eq_ok_iff.mpr ended, nodes, same]
  rfl

end Builder

/-- The graphs that the builder comes to are the graphs of the trees whose tokens it is given, with
the end mark after them and anything at all behind that. -/
theorem build_eq_ok_iff_compiled (tokens : List Token) (graph : Graph) :
    build tokens = .ok graph ↔
      ∃ (program : Program) (rest : List Token),
        tokens = program.tokens ++ .endOfFile :: rest ∧ graph = program.graph := by
  constructor
  · intro built
    obtain ⟨program, rest, rfl⟩ := Builder.tokens_of_build built
    rw [Builder.build_tokens] at built
    cases built
    exact ⟨program, rest, rfl, rfl⟩
  · rintro ⟨program, rest, rfl, rfl⟩
    exact Builder.build_tokens program rest

end TapeFlow
