import TapeFlow.Proofs.Accounting

namespace TapeFlow

/-! Looking up nodes by their numbers. Adding an edge looks up the node that it leaves, and `Indexed` is
the builder with that written out: where there is no such node, it halts. What holds of every builder
in a run keeps the current node among the nodes, so the two builders never part. -/

/-- The node with the instruction decides whether a block of the kind is run. -/
def BlockKind.Tests : BlockKind → Instruction → Prop
  | .branch, instruction => ∃ symbol, instruction = .ifRead symbol
  | .loop, instruction => instruction = .loop

theorem BlockKind.tests_of_past {kind : BlockKind} {instruction : Instruction}
    (member : kind.past ∈ instruction.exits) : kind.Tests instruction := by
  cases kind with
  | branch => exact Instruction.eq_ifRead member (.inr rfl)
  | loop => exact Instruction.eq_loop member (.inr rfl)

/-- The way in which control goes on is one that nodes with the instruction have, and no other nodes. -/
structure Exit.Agrees (exit : Exit) (instruction : Instruction) : Prop where
  plain : exit = .plain ↔
    instruction = .start ∨ ∃ operation : Operation, instruction = operation.instruction
  branch : exit = .intoBranch ∨ exit = .pastBranch ↔ ∃ symbol, instruction = .ifRead symbol
  loop : exit = .intoLoop ∨ exit = .pastLoop ↔ instruction = .loop

theorem Exit.agrees {exit : Exit} {instruction : Instruction}
    (member : exit.condition ∈ instruction.exits) : exit.Agrees instruction where
  plain := by
    constructor
    · intro isPlain
      rw [isPlain] at member
      exact Instruction.eq_plain member
    · intro goesOn
      rcases goesOn with rfl | ⟨operation, rfl⟩
      · cases exit <;> simp [Exit.condition, Instruction.exits] at member ⊢
      · rw [operation.exits_instruction] at member
        cases exit <;> simp [Exit.condition] at member ⊢
  branch := by
    constructor
    · intro tests
      rcases tests with rfl | rfl
      · exact Instruction.eq_ifRead member (.inl rfl)
      · exact Instruction.eq_ifRead member (.inr rfl)
    · intro isTest
      obtain ⟨symbol, rfl⟩ := isTest
      cases exit <;> simp [Exit.condition, Instruction.exits] at member ⊢
  loop := by
    constructor
    · intro loops
      rcases loops with rfl | rfl
      · exact Instruction.eq_loop member (.inl rfl)
      · exact Instruction.eq_loop member (.inr rfl)
    · intro isLoop
      rw [isLoop] at member
      cases exit <;> simp [Exit.condition, Instruction.exits] at member ⊢

namespace Builder

variable {builder next : Builder} {tokens : List Token} {index : Nat}

/-- The builder after `tokens`, each taken in at its own place. -/
def feed (tokens : List Token) : Except BuildError Builder :=
  tokens.zipIdx.foldlM (fun builder entry => builder.step entry.2 entry.1) initial

/-- How the parts of a builder that has taken in `tokens` hang together. The stacks have the innermost
block first, so what grows from the outermost block on grows along the stack turned around. -/
structure Coherent (builder : Builder) (tokens : List Token) : Prop where
  nonempty : builder.nodes ≠ []
  numbered : ∀ (place : Nat) (node : Node), builder.nodes[place]? = some node → node.id = place
  current_lt : builder.current < builder.nodes.length
  tests_ascend : (builder.scopes.reverse.map (·.node)).Pairwise (· < ·)
  tests_le : ∀ scope ∈ builder.scopes, scope.node ≤ builder.current
  tests : ∀ scope ∈ builder.scopes,
    ∃ node, builder.nodes[scope.node]? = some node ∧ scope.kind.Tests node.instruction
  loops_eq : builder.loops = (builder.scopes.filter (·.kind = .loop)).map (·.node)
  openers_ascend : (builder.scopes.reverse.map (·.opened)).Pairwise (· < ·)
  openers : ∀ scope ∈ builder.scopes,
    scope.opened < tokens.length ∧ blockAt? tokens scope.opened = some scope.kind
  exit : ∃ node, builder.nodes[builder.current]? = some node ∧ builder.exit.Agrees node.instruction
  targets : ∀ node ∈ builder.nodes, ∀ edge ∈ node.edges, edge.target < builder.nodes.length

theorem feeds_of_foldlM (unended : .endOfFile ∉ tokens)
    (folded : (tokens.zipIdx index).foldlM
      (fun builder entry => builder.step entry.2 entry.1) builder = .ok next) :
    builder.Feeds index tokens next := by
  induction tokens generalizing builder index with
  | nil =>
      cases folded
      exact .nil
  | cons token rest ih =>
      rw [List.mem_cons, not_or] at unended
      rw [List.zipIdx_cons, List.foldlM_cons] at folded
      cases stepped : builder.step index token with
      | error reason => simp [stepped, bind, Except.bind] at folded
      | ok middle =>
          have taken := (step_eq_ok_iff (Ne.symm unended.1)).mp stepped
          simp only [stepped, bind, Except.bind] at folded
          exact .cons taken (ih unended.2 folded)

theorem reached_of_feed (unended : .endOfFile ∉ tokens) (fed : feed tokens = .ok builder) :
    Reached tokens builder :=
  Reached.initial.feeds (feeds_of_foldlM unended fed) rfl

/-- The blocks on the stack are those that the tokens so far leave open, whatever comes next. -/
theorem Reached.tracks (reached : Reached tokens builder) (rest : List Token) :
    builder.Tracks (tokens ++ rest) tokens.length := by
  -- A step looks up its token in the whole list, so the list has to be longer than what is taken in.
  induction reached generalizing rest with
  | initial => exact initial_tracks rest
  | @step tokens builder next token _ taken ih =>
      rw [List.append_assoc, List.length_append]
      exact (ih ([token] ++ rest)).step (by simp) taken

theorem Reached.coherent (reached : Reached tokens builder) : builder.Coherent tokens := by
  have sound := reached.sound
  have labelled := reached.labelled
  have tracks := reached.tracks []
  rw [List.append_nil] at tracks
  have found := List.getElem?_eq_getElem sound.current_lt
  refine
    { nonempty := List.ne_nil_of_length_pos (Nat.zero_lt_of_lt sound.current_lt)
      numbered := sound.rooted.numbered
      current_lt := sound.current_lt
      tests_ascend := ?_
      tests_le := sound.scopes_le
      tests := ?_
      loops_eq := sound.loops_eq
      openers_ascend := ?_
      openers := fun scope member => ⟨(tracks.openAt member).1, tracks.kinds scope member⟩
      exit := ⟨_, found, Exit.agrees ((labelled.exits _ _ found).subset (by simp [due]))⟩
      targets := ?_ }
  · rw [List.map_reverse, List.pairwise_reverse, List.pairwise_map]
    exact sound.descending
  · intro scope member
    obtain ⟨node, foundTest, past⟩ := labelled.past_mem_exits sound member
    exact ⟨node, foundTest, BlockKind.tests_of_past past⟩
  · rw [List.map_reverse, List.pairwise_reverse, tracks.blocks]
    exact openBlocks_descending tokens tokens.length
  · intro node member edge inside
    exact sound.rooted.target_lt node.id edge (Graph.mem_edges.mpr ⟨node, member, rfl, inside⟩)

end Builder

/-- Why a builder stops short: it refuses the program, or looks for a node where there is none. -/
inductive Halt where
  | refused (reason : BuildError)
  | outOfRange (place : Nat)
  deriving DecidableEq

namespace Indexed

def link (builder : Builder) (source target : Nat) (condition : Condition) : Except Halt Builder :=
  match builder.nodes[source]? with
  | none => .error (.outOfRange source)
  | some node =>
    let grown := { node with edges := node.edges ++ [⟨target, condition⟩] }
    .ok { builder with nodes := builder.nodes.set source grown }

def addNode (builder : Builder) (instruction : Instruction) (condition : Condition) :
    Except Halt Builder :=
  let fresh : Node := ⟨builder.nodes.length, instruction, []⟩
  link { builder with nodes := builder.nodes ++ [fresh] } builder.current fresh.id condition

def advance (builder : Builder) (instruction : Instruction) (exit : Exit) : Except Halt Builder := do
  let grown ← addNode builder instruction builder.exit.condition
  return { grown with current := builder.nodes.length, exit := exit }

def openBranch (builder : Builder) (index : Nat) (symbol : Symbol) : Except Halt Builder := do
  let entered ← advance builder (.ifRead symbol) .intoBranch
  return { entered with scopes := ⟨.branch, builder.nodes.length, index⟩ :: builder.scopes }

def openLoop (builder : Builder) (index : Nat) : Except Halt Builder := do
  let entered ← advance builder .loop .intoLoop
  return { entered with
    scopes := ⟨.loop, builder.nodes.length, index⟩ :: builder.scopes
    loops := builder.nodes.length :: builder.loops }

def leave (builder : Builder) : Except Halt Builder :=
  match builder.loops with
  | innermost :: _ => link builder builder.current innermost .breakLoop
  | [] => addNode builder .finish .programFinished

def closeBranch (builder : Builder) (node : Nat) : Except Halt Builder := do
  let joined ←
    if builder.current = node then pure builder
    else link builder builder.current node builder.exit.condition
  return { joined with current := node, exit := .pastBranch }

def closeLoop (builder : Builder) (node : Nat) : Except Halt Builder := do
  let joined ← link builder builder.current node .continueLoop
  return { joined with current := node, exit := .pastLoop, loops := builder.loops.tail }

def close (builder : Builder) (index : Nat) : Except Halt Builder :=
  match builder.scopes with
  | [] => .error (.refused (.unmatchedCloser index))
  | ⟨.branch, node, _⟩ :: outer => do
    let closed ← closeBranch builder node
    return { closed with scopes := outer }
  | ⟨.loop, node, _⟩ :: outer => do
    let closed ← closeLoop builder node
    return { closed with scopes := outer }

def step (builder : Builder) (index : Nat) : Token → Except Halt Builder
  | .printState => advance builder .printState .plain
  | .pause => advance builder .pause .plain
  | .moveLeft => advance builder .moveLeft .plain
  | .moveRight => advance builder .moveRight .plain
  | .write symbol => advance builder (.write symbol) .plain
  | .branch symbol => openBranch builder index symbol
  | .loop => openLoop builder index
  | .leave => leave builder
  | .close => close builder index
  | .endOfFile => addNode builder .endProgram .endOfFile
  | .unknown word => .error (.refused (.unknownToken index word))

def run (builder : Builder) (index : Nat) : List Token → Except Halt Graph
  | [] => .error (.refused .missingEndOfFile)
  | token :: rest => do
    let next ← step builder index token
    if token = .endOfFile then next.finish.mapError .refused else run next (index + 1) rest

def build (tokens : List Token) : Except Halt Graph :=
  run .initial 0 tokens

variable {builder : Builder}

theorem link_eq {source : Nat} (inside : source < builder.nodes.length) (target : Nat)
    (condition : Condition) :
    link builder source target condition = .ok (builder.link source target condition) := by
  rw [link, Builder.link, List.modify_eq_set_getElem?, List.getElem?_eq_getElem inside]
  rfl

theorem addNode_eq (inside : builder.current < builder.nodes.length) (instruction : Instruction)
    (condition : Condition) :
    addNode builder instruction condition = .ok (builder.addNode instruction condition) := by
  refine link_eq ?_ _ _
  rw [List.length_append]
  exact Nat.lt_add_right _ inside

theorem advance_eq (inside : builder.current < builder.nodes.length) (instruction : Instruction)
    (exit : Exit) : advance builder instruction exit = .ok (builder.advance instruction exit) := by
  rw [advance, addNode_eq inside]
  rfl

theorem leave_eq (inside : builder.current < builder.nodes.length) :
    leave builder = .ok builder.leave := by
  rw [leave, Builder.leave]
  cases builder.loops with
  | nil => exact addNode_eq inside .finish .programFinished
  | cons innermost outer => exact link_eq inside innermost .breakLoop

theorem closeBranch_eq (inside : builder.current < builder.nodes.length) (node : Nat) :
    closeBranch builder node = .ok (builder.closeBranch node) := by
  rw [closeBranch, Builder.closeBranch, link_eq inside]
  split <;> rfl

theorem closeLoop_eq (inside : builder.current < builder.nodes.length) (node : Nat) :
    closeLoop builder node = .ok (builder.closeLoop node) := by
  rw [closeLoop, link_eq inside]
  rfl

theorem close_eq (inside : builder.current < builder.nodes.length) (index : Nat) :
    close builder index = (builder.close index).mapError .refused := by
  rw [close, Builder.close]
  cases builder.scopes with
  | nil => rfl
  | cons scope outer =>
      obtain ⟨kind, node, opened⟩ := scope
      cases kind with
      | branch =>
          simp only [closeBranch_eq inside]
          rfl
      | loop =>
          simp only [closeLoop_eq inside]
          rfl

/-- Every edge that a token adds leaves the current node. -/
theorem step_eq (inside : builder.current < builder.nodes.length) (index : Nat) (token : Token) :
    step builder index token = (builder.step index token).mapError .refused := by
  cases token with
  | branch symbol =>
      rw [step, openBranch, advance_eq inside]
      rfl
  | loop =>
      rw [step, openLoop, advance_eq inside]
      rfl
  | leave => exact leave_eq inside
  | close => exact close_eq inside index
  | endOfFile => exact addNode_eq inside .endProgram .endOfFile
  | unknown word => rfl
  | _ => exact advance_eq inside _ _

theorem run_eq (wellFormed : builder.WellFormed) (index : Nat) (tokens : List Token) :
    run builder index tokens = (builder.run index tokens).mapError .refused := by
  induction tokens generalizing builder index with
  | nil => rfl
  | cons token rest ih =>
      rw [run, Builder.run, step_eq wellFormed.current_lt]
      cases stepped : builder.step index token with
      | error reason => rfl
      | ok next =>
          by_cases ends : token = .endOfFile
          · simp only [ends, if_true]
            rfl
          · have taken := (Builder.step_eq_ok_iff ends).mp stepped
            simp only [ends, if_false]
            exact ih (wellFormed.step taken) (index + 1)

theorem build_eq (tokens : List Token) : build tokens = (TapeFlow.build tokens).mapError .refused :=
  run_eq Builder.initial_wellFormed 0 tokens

theorem build_in_range (tokens : List Token) (place : Nat) :
    build tokens ≠ .error (.outOfRange place) := by
  rw [build_eq]
  cases TapeFlow.build tokens with
  | error reason => intro halted; cases halted
  | ok graph => intro halted; cases halted

end Indexed

/-- In every state of a run the parts of the builder hang together, and looking up the node that an edge
leaves succeeds whatever token comes next, the end mark included. So a token list comes to its graph
or to a refusal and to nothing else. -/
theorem builder_stays_coherent :
    (∀ (tokens : List Token) (builder : Builder),
      .endOfFile ∉ tokens → Builder.feed tokens = .ok builder →
        builder.Coherent tokens ∧
          ∀ (index : Nat) (token : Token),
            Indexed.step builder index token = (builder.step index token).mapError .refused) ∧
    ∀ tokens : List Token,
      Indexed.build tokens = (build tokens).mapError .refused ∧
        ∀ place, Indexed.build tokens ≠ .error (.outOfRange place) := by
  refine ⟨?_, fun tokens => ⟨Indexed.build_eq tokens, Indexed.build_in_range tokens⟩⟩
  intro tokens builder unended fed
  have coherent := (Builder.reached_of_feed unended fed).coherent
  exact ⟨coherent, Indexed.step_eq coherent.current_lt⟩

theorem builder_stays_coherent_in_branch :
    ∃ builder, Builder.feed [.moveLeft, .loop, .branch .one, .leave, .pause] = .ok builder ∧
      builder.scopes = [⟨.branch, 3, 2⟩, ⟨.loop, 2, 1⟩] ∧
      builder.Coherent [.moveLeft, .loop, .branch .one, .leave, .pause] :=
  ⟨_, rfl, rfl, (builder_stays_coherent.1 _ _ (by decide) rfl).1⟩

end TapeFlow
