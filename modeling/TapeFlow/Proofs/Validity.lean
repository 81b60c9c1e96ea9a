import TapeFlow.Graph.Fault
import TapeFlow.Proofs.Trail

namespace TapeFlow

/-! Graphs without a fault, and why every built graph is one. The check looks at the start, at the
numbers and at the targets of edges; a built graph has more to it: one start, one end behind all
other nodes, and one edge to that end. -/

/-- What the check for faults asks of a graph. -/
structure Graph.Valid (graph : Graph) : Prop where
  start : ∃ node, graph.node? 0 = some node ∧ node.instruction = .start
  numbered : graph.Numbered
  target_lt : ∀ source edge, (source, edge) ∈ graph.edges → edge.target < graph.size

namespace Graph

variable {graph : Graph}

theorem startsAtStart_iff :
    graph.startsAtStart = true ↔ ∃ node, graph.node? 0 = some node ∧ node.instruction = .start := by
  simp [startsAtStart, Option.any_eq_true]

theorem misnumbered?_eq_none_iff : graph.misnumbered? = none ↔ graph.Numbered := by
  simp only [misnumbered?, List.find?_eq_none, Prod.forall, List.mem_zipIdx_iff_getElem?]
  constructor
  · intro numbered place node found
    simpa using numbered node place found
  · intro numbered node place found
    simpa using numbered place node found

theorem dangling?_eq_none_iff :
    graph.dangling? = none ↔
      ∀ source edge, (source, edge) ∈ graph.edges → edge.target < graph.size := by
  simp [dangling?]

theorem fault?_eq_none_iff : graph.fault? = none ↔ graph.Valid := by
  unfold fault?
  constructor
  · intro faultless
    split at faultless
    · cases faultless
    · rename_i starts
      split at faultless
      · cases faultless
      · rename_i numbered
        refine ⟨startsAtStart_iff.mp (by simpa using starts), misnumbered?_eq_none_iff.mp numbered, ?_⟩
        exact dangling?_eq_none_iff.mp (Option.map_eq_none_iff.mp faultless)
  · intro valid
    simp [startsAtStart_iff.mpr valid.start, misnumbered?_eq_none_iff.mpr valid.numbered,
      dangling?_eq_none_iff.mpr valid.target_lt]

end Graph

def Graph.instructions (graph : Graph) : List Instruction :=
  graph.nodes.map (·.instruction)

namespace Builder

variable {builder next last : Builder} {index : Nat} {token : Token} {tokens : List Token}

/-- The instruction of the node that a token adds, whether or not the builder goes on from it. -/
def instruction? (builder : Builder) : Token → Option Instruction
  | .leave => if builder.loops.isEmpty then some .finish else none
  | .endOfFile => some .endProgram
  | token => token.instruction?

@[simp] theorem link_instructions (builder : Builder) (source target : Nat) (condition : Condition) :
    (builder.link source target condition).graph.instructions = builder.graph.instructions := by
  apply List.ext_getElem?
  intro place
  simp only [Graph.instructions, graph_nodes, link, List.getElem?_map, List.getElem?_modify]
  cases builder.nodes[place]? with
  | none => rfl
  | some node =>
      simp only [Option.map_some]
      split <;> rfl

@[simp] theorem addNode_instructions (builder : Builder) (instruction : Instruction)
    (condition : Condition) :
    (builder.addNode instruction condition).graph.instructions =
      builder.graph.instructions ++ [instruction] := by
  rw [addNode, link_instructions]
  simp [Graph.instructions]

theorem Reads.instructions (reads : builder.Reads index token next) :
    next.graph.instructions =
      builder.graph.instructions ++ (builder.instruction? token).toList := by
  have added := builder.addNode_instructions
  have linked := builder.link_instructions builder.current
  have unchanged : builder.graph.instructions ++ (builder.instruction? .close).toList =
      builder.graph.instructions := List.append_nil _
  cases reads with
  | ends => exact added .endProgram .endOfFile
  | takes taken =>
      cases taken with
      | act operation =>
          have kind : builder.instruction? operation.token = some operation.instruction := by
            cases operation <;> rfl
          rw [kind]
          exact added operation.instruction builder.exit.condition
      | branch symbol => exact added (.ifRead symbol) builder.exit.condition
      | loop => exact added .loop builder.exit.condition
      | leave =>
          unfold Builder.leave instruction?
          cases builder.loops with
          | nil => exact added .finish .programFinished
          | cons innermost outer => simp
      | @closeBranch node opened outer innermost =>
          rw [unchanged]
          by_cases atTest : builder.current = node
          · simp [Builder.closeBranch, atTest, Builder.graph]
          · rw [Builder.closeBranch, if_neg atTest]
            exact linked node builder.exit.condition
      | @closeLoop node opened outer innermost =>
          rw [unchanged]
          exact linked node .continueLoop

theorem Reads.length_le (reads : builder.Reads index token next) :
    next.nodes.length ≤ builder.nodes.length + 1 := by
  have lengths := congrArg List.length reads.instructions
  have one := (builder.instruction? token).length_toList_le
  simp only [Graph.instructions, graph_nodes, List.length_append, List.length_map] at lengths
  omega

/-- No token adds more than one node. -/
theorem Accepts.size_le {graph : Graph} (accepted : builder.Accepts index tokens graph) :
    graph.size ≤ builder.nodes.length + tokens.length := by
  induction accepted with
  | @ended builder index rest closed =>
      have added := (builder.reads_end).length_le
      rw [List.length_cons]
      exact Nat.le_trans added (by omega)
  | step taken _ ih =>
      have added := (Reads.takes taken).length_le
      rw [List.length_cons]
      omega

theorem instruction?_ne_start (builder : Builder) (token : Token) :
    builder.instruction? token ≠ some .start := by
  cases token <;> simp [instruction?, Token.instruction?]

theorem instruction?_eq_end (ended : builder.instruction? token = some .endProgram) :
    token = .endOfFile := by
  cases token <;> simp [instruction?, Token.instruction?] at ended ⊢

/-- Up to the end mark there is one start, in front, and no end. -/
theorem Reached.instructions (reached : Reached tokens builder) :
    ∃ later, builder.graph.instructions = .start :: later ∧ .start ∉ later ∧
      .endProgram ∉ later := by
  induction reached with
  | initial => exact ⟨[], rfl, by simp, by simp⟩
  | @step tokens builder next token reached taken ih =>
      obtain ⟨later, same, unstarted, unended⟩ := ih
      have grown := (Reads.takes taken).instructions
      refine ⟨later ++ (builder.instruction? token).toList, by rw [grown, same]; rfl, ?_, ?_⟩
      · simp [unstarted, builder.instruction?_ne_start token]
      · have other : builder.instruction? token ≠ some .endProgram :=
          fun ended => taken.not_end (instruction?_eq_end ended)
        simp [unended, other]

theorem Reached.getLast?_end (reached : Reached tokens last) :
    (last.addNode .endProgram .endOfFile).graph.nodes.getLast? =
      some ⟨last.nodes.length, .endProgram, []⟩ := by
  rw [List.getLast?_eq_getElem?, graph_nodes, addNode_length]
  exact reached.sound.fresh .endProgram .endOfFile

end Builder

theorem valid_of_build {tokens : List Token} {graph : Graph} (built : build tokens = .ok graph) :
    graph.Valid := by
  obtain ⟨_, last, reached, _, rfl⟩ := Builder.last_of_build built
  have sound := reached.sound.step last.reads_end
  obtain ⟨edges, start⟩ := sound.start
  exact ⟨⟨_, start, rfl⟩, sound.rooted.numbered, sound.rooted.target_lt⟩

theorem size_le_of_build {tokens : List Token} {graph : Graph} (built : build tokens = .ok graph) :
    graph.size ≤ tokens.length + 1 := by
  have bound := (Builder.run_eq_ok_iff.mp built).size_le
  rwa [Nat.add_comm] at bound

/-- What holds of the graph of a whole program, `last` being its last node. -/
structure Graph.Whole (graph : Graph) (last : Node) : Prop where
  two_nodes : 2 ≤ graph.size
  numbered : graph.Numbered
  start_iff : ∀ id node, graph.node? id = some node → (node.instruction = .start ↔ id = 0)
  last_node : graph.nodes.getLast? = some last
  end_iff : ∀ id node, graph.node? id = some node →
    (node.instruction = .endProgram ↔ id + 1 = graph.size)
  end_edge : ∃ source, (graph.edges.filter fun (_, edge) => edge.condition = .endOfFile) =
    [(source, ⟨last.id, .endOfFile⟩)]
  end_node : graph.endNode? = some last
  target_lt : ∀ source edge, (source, edge) ∈ graph.edges → edge.target < graph.size
  faultless : graph.fault? = none

/-- Where the start and the end are among the instructions of a graph, told by where they are not. -/
theorem Graph.places_of_instructions {graph : Graph} {inner : List Instruction}
    (instructions : graph.instructions = .start :: (inner ++ [.endProgram]))
    (unstarted : .start ∉ inner) (unended : .endProgram ∉ inner) {id : Nat} {node : Node}
    (found : graph.node? id = some node) :
    (node.instruction = .start ↔ id = 0) ∧
      (node.instruction = .endProgram ↔ id + 1 = graph.size) := by
  have size : graph.size = inner.length + 2 := by
    have lengths := congrArg List.length instructions
    simpa [Graph.instructions, Graph.size] using lengths
  have here : (Instruction.start :: (inner ++ [.endProgram]))[id]? = some node.instruction := by
    rw [← instructions, Graph.instructions, List.getElem?_map, ← Graph.node?, found, Option.map_some]
  -- A place is the first, one of the inner ones or the last, and each of these settles both questions.
  cases id with
  | zero =>
      have first : node.instruction = .start := (Option.some.inj here).symm
      simp [first, size]
  | succ id =>
      rw [List.getElem?_cons_succ] at here
      by_cases inside : id < inner.length
      · rw [List.getElem?_append_left inside] at here
        have member := List.mem_of_getElem? here
        have notStart : node.instruction ≠ .start := fun same => unstarted (same ▸ member)
        have notEnd : node.instruction ≠ .endProgram := fun same => unended (same ▸ member)
        have away : id + 1 + 1 ≠ graph.size := by omega
        simp [notStart, notEnd, away]
      · have within := (List.getElem?_eq_some_iff.mp here).1
        rw [List.length_append, List.length_singleton] at within
        have atEnd : id = inner.length := by omega
        subst atEnd
        rw [List.getElem?_concat_length] at here
        have last : node.instruction = .endProgram := (Option.some.inj here).symm
        simp [last, size]

/-- A built graph is that of a whole program, and it has no fault. -/
theorem build_whole {tokens : List Token} {graph : Graph} (built : build tokens = .ok graph) :
    ∃ last, graph.Whole last := by
  obtain ⟨_, last, reached, _, rfl⟩ := Builder.last_of_build built
  have sound := reached.sound.step last.reads_end
  obtain ⟨inner, same, unstarted, unended⟩ := reached.instructions
  have instructions := last.addNode_instructions .endProgram .endOfFile
  rw [same, List.cons_append] at instructions
  have places := fun id node (found : Graph.node? _ id = some node) =>
    Graph.places_of_instructions instructions unstarted unended found
  refine ⟨⟨last.nodes.length, .endProgram, []⟩, ?_⟩
  exact
    { two_nodes := by
        have bound := reached.sound.current_lt
        simp only [Builder.graph_size, Builder.addNode_length]
        omega
      numbered := sound.rooted.numbered
      start_iff := fun id node found => (places id node found).1
      last_node := reached.getLast?_end
      end_iff := fun id node found => (places id node found).2
      end_edge := ⟨last.current, reached.end_edges⟩
      end_node := reached.endNode?_eq
      target_lt := sound.rooted.target_lt
      faultless := Graph.fault?_eq_none_iff.mpr (valid_of_build built) }

theorem build_whole_behind_leave :
    ∃ graph last, build [.leave, .loop, .branch .one, .leave, .close, .close, .endOfFile, .close] =
      .ok graph ∧ graph.Whole last := by
  have built : build [.leave, .loop, .branch .one, .leave, .close, .close, .endOfFile, .close] =
      .ok _ := rfl
  obtain ⟨last, whole⟩ := build_whole built
  exact ⟨_, last, built, whole⟩

end TapeFlow
