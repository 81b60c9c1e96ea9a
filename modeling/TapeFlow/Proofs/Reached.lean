import TapeFlow.Proofs.Growth
import TapeFlow.Proofs.Structural

namespace TapeFlow

/-! The builders that come up in a run and the graphs that they hold. A token adds to the graph in one
of three ways: a node that the current node leads to, an edge from the current node back to the test
of an open block, or nothing. The end mark adds a node as other tokens do, so what every such
addition keeps holds of built graphs. -/

namespace Graph

variable {graph : Graph} {nodes : List Node} {place source : Nat} {node : Node} {edge : Edge}

theorem mem_edges :
    (source, edge) ∈ graph.edges ↔ ∃ node ∈ graph.nodes, node.id = source ∧ edge ∈ node.edges := by
  simp only [edges, List.mem_flatMap, List.mem_map, Prod.mk.injEq]
  constructor
  · rintro ⟨node, member, other, inside, same, rfl⟩
    exact ⟨node, member, same, inside⟩
  · rintro ⟨node, member, same, inside⟩
    exact ⟨node, member, edge, inside, same, rfl⟩

/-- The number of every node is its place. -/
def Numbered (graph : Graph) : Prop :=
  ∀ (place : Nat) (node : Node), graph.nodes[place]? = some node → node.id = place

theorem Numbered.mem_edges (numbered : graph.Numbered) :
    (source, edge) ∈ graph.edges ↔
      ∃ node, graph.nodes[source]? = some node ∧ edge ∈ node.edges := by
  rw [Graph.mem_edges]
  constructor
  · rintro ⟨node, member, rfl, inside⟩
    obtain ⟨place, found⟩ := List.mem_iff_getElem?.mp member
    have same := numbered place node found
    exact ⟨node, by rw [same, found], inside⟩
  · rintro ⟨node, found, inside⟩
    exact ⟨node, List.mem_of_getElem? found, numbered source node found, inside⟩

theorem edges_modify_perm (found : nodes[place]? = some node) (edge : Edge) :
    (Graph.mk (nodes.modify place fun node =>
      { node with edges := node.edges ++ [edge] })).edges.Perm
        ((node.id, edge) :: (Graph.mk nodes).edges) := by
  induction nodes generalizing place with
  | nil => cases found
  | cons first rest ih =>
      cases place with
      | zero =>
          cases found
          simp [edges]
      | succ place =>
          have inner := (ih found).append_left (first.edges.map fun edge => (first.id, edge))
          simpa [edges] using inner.trans List.perm_middle

/-- How many edges lead to a node from nodes with smaller numbers. -/
def entryCount (graph : Graph) (id : Nat) : Nat :=
  graph.edges.countP fun (source, edge) => edge.target = id ∧ source < id

/-- Every node but the first is led to by one edge from a smaller number. -/
structure Rooted (graph : Graph) : Prop where
  numbered : graph.Numbered
  target_lt : ∀ source edge, (source, edge) ∈ graph.edges → edge.target < graph.size
  one_entry : ∀ id, 0 < id → id < graph.size → graph.entryCount id = 1

theorem Rooted.entryCount_eq_zero (rooted : graph.Rooted) : graph.entryCount graph.size = 0 := by
  refine List.countP_eq_zero.mpr ?_
  rintro ⟨source, edge⟩ member
  have inside := rooted.target_lt source edge member
  simp only [decide_eq_true_eq, not_and]
  omega

theorem Rooted.entry (rooted : graph.Rooted) {id : Nat} (positive : 0 < id)
    (inside : id < graph.size) :
    ∃ source condition, source < id ∧ (source, ⟨id, condition⟩) ∈ graph.edges ∧
      (graph.edges.filter fun (source, edge) => edge.target = id ∧ source < id) =
        [(source, ⟨id, condition⟩)] := by
  have one := rooted.one_entry id positive inside
  rw [entryCount, List.countP_eq_length_filter] at one
  obtain ⟨⟨source, target, condition⟩, only⟩ := List.length_eq_one_iff.mp one
  have filtered := List.mem_singleton_self (source, Edge.mk target condition)
  rw [← only] at filtered
  obtain ⟨member, isEntry⟩ := List.mem_filter.mp filtered
  obtain ⟨rfl, ahead⟩ := of_decide_eq_true isEntry
  exact ⟨source, condition, ahead, member, only⟩

theorem Rooted.source_lt (rooted : graph.Rooted) (member : (source, edge) ∈ graph.edges) :
    source < graph.size := by
  obtain ⟨node, found, _⟩ := rooted.numbered.mem_edges.mp member
  exact (List.getElem?_eq_some_iff.mp found).1

end Graph

/-- Control goes on into the block of the current node. -/
def Exit.Enters (exit : Exit) : Prop :=
  exit = .intoBranch ∨ exit = .intoLoop

theorem Exit.not_enters {exit : Exit} (branch : exit ≠ .intoBranch) (loop : exit ≠ .intoLoop) :
    ¬ exit.Enters := by
  rintro (entered | entered)
  · exact branch entered
  · exact loop entered

def Builder.graph (builder : Builder) : Graph :=
  ⟨builder.nodes⟩

namespace Builder

variable {builder next last : Builder} {graph : Graph} {index place : Nat} {node : Node}
  {token : Token} {tokens : List Token}

@[simp] theorem graph_nodes (builder : Builder) : builder.graph.nodes = builder.nodes := rfl

@[simp] theorem graph_size (builder : Builder) : builder.graph.size = builder.nodes.length := rfl

@[simp] theorem advance_current (builder : Builder) (instruction : Instruction) (exit : Exit) :
    (builder.advance instruction exit).current = builder.nodes.length := rfl

theorem link_edges (numbered : builder.graph.Numbered) {source : Nat}
    (inside : source < builder.nodes.length) (target : Nat) (condition : Condition) :
    (builder.link source target condition).graph.edges.Perm
      ((source, ⟨target, condition⟩) :: builder.graph.edges) := by
  have found := List.getElem?_eq_getElem inside
  have added := Graph.edges_modify_perm found ⟨target, condition⟩
  rwa [numbered source _ found] at added

theorem addNode_edges (numbered : builder.graph.Numbered)
    (inside : builder.current < builder.nodes.length) (instruction : Instruction)
    (condition : Condition) :
    (builder.addNode instruction condition).graph.edges.Perm
      ((builder.current, ⟨builder.nodes.length, condition⟩) :: builder.graph.edges) := by
  have found := List.getElem?_eq_getElem inside
  have kept : (builder.nodes ++ [⟨builder.nodes.length, instruction, []⟩])[builder.current]? =
      some builder.nodes[builder.current] := by
    rw [List.getElem?_append_left inside, found]
  have added := Graph.edges_modify_perm kept ⟨builder.nodes.length, condition⟩
  rw [numbered builder.current _ found] at added
  simpa [Graph.edges, Builder.graph, addNode, link] using added

/-- What a token or the end mark makes of the graph. -/
inductive Grows (builder : Builder) : Graph → Prop
  | node (instruction : Instruction) (condition : Condition) :
      Grows builder (builder.addNode instruction condition).graph
  | back {scope : Scope} (member : scope ∈ builder.scopes) (condition : Condition) :
      Grows builder (builder.link builder.current scope.node condition).graph
  | same : Grows builder builder.graph

namespace Grows

theorem adds (grows : builder.Grows graph) (inside : place < builder.nodes.length) :
    ∃ added, Adds builder.nodes graph.nodes place added := by
  cases grows with
  | node instruction condition => exact ⟨_, builder.addNode_adds instruction condition inside⟩
  | back _ condition => exact ⟨_, builder.link_adds _ condition inside⟩
  | same => exact ⟨_, .refl inside⟩

theorem keeps (grows : builder.Grows graph) (found : builder.nodes[place]? = some node) :
    ∃ added, graph.nodes[place]? = some { node with edges := node.edges ++ added } := by
  obtain ⟨added, old, foundOld, grown⟩ := grows.adds (List.getElem?_eq_some_iff.mp found).1
  rw [foundOld] at found
  cases found
  exact ⟨added, grown⟩

theorem size_le (grows : builder.Grows graph) : graph.size ≤ builder.nodes.length + 1 := by
  cases grows <;> simp

/-- A node is an old one with edges added, or new and without edges. -/
theorem node_cases (grows : builder.Grows graph)
    (current : builder.current < builder.nodes.length) (found : graph.nodes[place]? = some node) :
    (∃ old added, builder.nodes[place]? = some old ∧
        node = { old with edges := old.edges ++ added }) ∨
      (place = builder.nodes.length ∧ node.id = place ∧ node.edges = []) := by
  by_cases inside : place < builder.nodes.length
  · obtain ⟨added, old, foundOld, grown⟩ := grows.adds inside
    rw [grown] at found
    exact .inl ⟨old, added, foundOld, (Option.some.inj found).symm⟩
  · have within := (List.getElem?_eq_some_iff.mp found).1
    cases grows with
    | node instruction condition =>
        simp only [graph_nodes, addNode_length] at within
        have atEnd : place = builder.nodes.length := by omega
        subst atEnd
        rw [graph_nodes, addNode_fresh instruction condition current] at found
        cases found
        exact .inr ⟨rfl, rfl, rfl⟩
    | back _ condition =>
        simp only [graph_nodes, link_length] at within
        omega
    | same => exact absurd within inside

theorem numbered (grows : builder.Grows graph)
    (current : builder.current < builder.nodes.length) (numbered : builder.graph.Numbered) :
    graph.Numbered := by
  intro place node found
  rcases grows.node_cases current found with ⟨old, added, foundOld, rfl⟩ | ⟨_, same, _⟩
  · exact numbered place old foundOld
  · exact same

theorem rooted (grows : builder.Grows graph) (wellFormed : builder.WellFormed)
    (rooted : builder.graph.Rooted) : graph.Rooted where
  numbered := grows.numbered wellFormed.current_lt rooted.numbered
  target_lt := by
    intro source edge member
    have old := rooted.target_lt source edge
    cases grows with
    | node instruction condition =>
        rw [(addNode_edges rooted.numbered wellFormed.current_lt _ _).mem_iff] at member
        rcases List.mem_cons.mp member with same | member
        · cases same
          simp
        · simpa using Nat.lt_succ_of_lt (old member)
    | back inside condition =>
        rw [(link_edges rooted.numbered wellFormed.current_lt _ _).mem_iff] at member
        rcases List.mem_cons.mp member with same | member
        · cases same
          simpa using wellFormed.scope_lt inside
        · simpa using old member
    | same => exact old member
  one_entry := by
    intro id positive inside
    have old := rooted.one_entry id positive
    cases grows with
    | node instruction condition =>
        rw [Graph.entryCount,
          (addNode_edges rooted.numbered wellFormed.current_lt _ _).countP_eq, List.countP_cons,
          ← Graph.entryCount]
        have current := wellFormed.current_lt
        have none := rooted.entryCount_eq_zero
        simp only [graph_size, addNode_length] at inside none
        by_cases fresh : id = builder.nodes.length
        · subst fresh
          simp [none, current]
        · have within : id < builder.graph.size := by simp only [graph_size]; omega
          simp [old within, Ne.symm fresh]
    | @back scope member condition =>
        rw [Graph.entryCount,
          (link_edges rooted.numbered wellFormed.current_lt _ _).countP_eq, List.countP_cons,
          ← Graph.entryCount]
        have upward := wellFormed.scopes_le scope member
        have within : id < builder.graph.size := by simpa using inside
        have backward : ¬ (scope.node = id ∧ builder.current < id) := by omega
        simp [old within, backward]
    | same => exact old inside

end Grows

/-- The graph so far is rooted in its start, the stack of loops is that of blocks without the branches,
and a block that is just entered is the innermost one. -/
structure Sound (builder : Builder) : Prop extends builder.WellFormed where
  start : ∃ edges, builder.nodes[0]? = some ⟨0, .start, edges⟩
  rooted : builder.graph.Rooted
  loops_eq : builder.loops = (builder.scopes.filter (·.kind = .loop)).map (·.node)
  entering : builder.exit.Enters →
    ∃ scope outer, builder.scopes = scope :: outer ∧ scope.node = builder.current

theorem initial_sound : initial.Sound where
  toWellFormed := initial_wellFormed
  start := ⟨[], rfl⟩
  rooted :=
    { numbered := by
        intro place node found
        cases place with
        | zero => cases found; rfl
        | succ place => cases found
      target_lt := by intro source edge member; cases member
      one_entry := by
        intro id positive inside
        have first : id < 1 := inside
        omega }
  loops_eq := rfl
  entering := fun entered => absurd entered (Exit.not_enters nofun nofun)

/-- What the token at a place, the end mark included, makes of a builder. -/
inductive Reads (builder : Builder) (index : Nat) : Token → Builder → Prop
  | takes {token : Token} {next : Builder} (taken : builder.Takes index token next) :
      Reads builder index token next
  | ends : Reads builder index .endOfFile (builder.addNode .endProgram .endOfFile)

theorem reads_end (builder : Builder) :
    builder.Reads 0 .endOfFile (builder.addNode .endProgram .endOfFile) :=
  .ends

theorem Reads.adds (reads : builder.Reads index token next) (inside : place < builder.nodes.length) :
    Adds builder.nodes next.nodes place
      (if place = builder.current then (builder.edge? token).toList else []) := by
  cases reads with
  | takes taken => exact taken.adds inside
  | ends => exact builder.addNode_adds .endProgram .endOfFile inside

theorem Reads.grows (reads : builder.Reads index token next) (sound : builder.Sound) :
    builder.Grows next.graph := by
  cases reads with
  | ends => exact .node .endProgram .endOfFile
  | takes taken =>
      cases taken with
      | act operation => exact .node operation.instruction builder.exit.condition
      | branch symbol => exact .node (.ifRead symbol) builder.exit.condition
      | loop => exact .node .loop builder.exit.condition
      | leave =>
          unfold Builder.leave
          cases loops : builder.loops with
          | nil => exact .node .finish .programFinished
          | cons innermost outer =>
              have member : innermost ∈ builder.loops := by rw [loops]; exact List.mem_cons_self
              rw [sound.loops_eq] at member
              obtain ⟨scope, inside, rfl⟩ := List.mem_map.mp member
              exact .back (List.mem_filter.mp inside).1 .breakLoop
      | @closeBranch node opened outer innermost =>
          have top : ⟨.branch, node, opened⟩ ∈ builder.scopes := by simp [innermost]
          by_cases atTest : builder.current = node
          · simpa [Builder.closeBranch, atTest, Builder.graph] using Grows.same
          · simpa [Builder.closeBranch, atTest, Builder.graph] using
              Grows.back top builder.exit.condition
      | closeLoop innermost => exact .back (innermost ▸ List.mem_cons_self) .continueLoop

/-- A token adds its edge to the edges of the graph, if it has one, and no other. -/
theorem Reads.edges_perm (reads : builder.Reads index token next) (sound : builder.Sound) :
    next.graph.edges.Perm
      ((builder.edge? token).toList.map (builder.current, ·) ++ builder.graph.edges) := by
  have added := addNode_edges sound.rooted.numbered sound.current_lt
  have linked := link_edges sound.rooted.numbered sound.current_lt
  cases reads with
  | ends => exact added .endProgram .endOfFile
  | takes taken =>
      cases taken with
      | act operation =>
          rw [edge?_operation]
          exact added operation.instruction builder.exit.condition
      | branch symbol => exact added (.ifRead symbol) builder.exit.condition
      | loop => exact added .loop builder.exit.condition
      | leave =>
          unfold Builder.leave edge?
          cases builder.loops with
          | nil => exact added .finish .programFinished
          | cons innermost outer => exact linked innermost .breakLoop
      | @closeBranch node opened outer innermost =>
          by_cases atTest : builder.current = node
          · simp [Builder.closeBranch, atTest, Builder.graph, edge?, innermost]
          · simpa [Builder.closeBranch, atTest, Builder.graph, edge?, innermost] using
              linked node builder.exit.condition
      | @closeLoop node opened outer innermost =>
          rw [edge?, innermost]
          exact linked node .continueLoop

namespace Sound

theorem loops_step (sound : builder.Sound) (taken : builder.Takes index token next) :
    next.loops = (next.scopes.filter (·.kind = .loop)).map (·.node) := by
  have loops := sound.loops_eq
  cases taken with
  | act operation => exact loops
  | branch symbol => exact loops
  | loop => exact congrArg (builder.nodes.length :: ·) loops
  | leave => simpa using loops
  | closeBranch innermost =>
      rw [innermost] at loops
      exact (closeBranch_loops builder _).trans loops
  | closeLoop innermost =>
      rw [innermost] at loops
      simp [Builder.closeLoop, loops]

theorem entering_step (sound : builder.Sound) (taken : builder.Takes index token next)
    (entered : next.exit.Enters) :
    ∃ scope outer, next.scopes = scope :: outer ∧ scope.node = next.current := by
  cases taken with
  | act operation => exact absurd entered (Exit.not_enters nofun nofun)
  | branch symbol => exact ⟨_, _, rfl, rfl⟩
  | loop => exact ⟨_, _, rfl, rfl⟩
  | leave => simpa using sound.entering (by simpa using entered)
  | closeBranch innermost => exact absurd entered (Exit.not_enters nofun nofun)
  | closeLoop innermost => exact absurd entered (Exit.not_enters nofun nofun)

theorem step (sound : builder.Sound) (reads : builder.Reads index token next) : next.Sound := by
  have rooted := (reads.grows sound).rooted sound.toWellFormed sound.rooted
  have start : ∃ edges, next.nodes[0]? = some ⟨0, .start, edges⟩ := by
    obtain ⟨edges, found⟩ := sound.start
    obtain ⟨added, kept⟩ := (reads.grows sound).keeps found
    exact ⟨_, kept⟩
  cases reads with
  | takes taken =>
      exact { sound.toWellFormed.step taken with
        start
        rooted
        loops_eq := sound.loops_step taken
        entering := sound.entering_step taken }
  | ends =>
      have inside : builder.current < (builder.addNode .endProgram .endOfFile).nodes.length := by
        rw [addNode_length]
        exact Nat.lt_succ_of_lt sound.current_lt
      exact { sound with current_lt := inside, start, rooted }

end Sound

/-- The builder that has taken in `tokens`, from the start and with none refused. -/
inductive Reached : List Token → Builder → Prop
  | initial : Reached [] initial
  | step {tokens : List Token} {builder next : Builder} {token : Token}
      (reached : Reached tokens builder) (taken : builder.Takes tokens.length token next) :
      Reached (tokens ++ [token]) next

theorem Reached.sound (reached : Reached tokens builder) : builder.Sound := by
  induction reached with
  | initial => exact initial_sound
  | step _ taken ih => exact ih.step (.takes taken)

theorem Reached.feeds {more : List Token} (reached : Reached tokens builder)
    (fed : builder.Feeds index more next) (place : index = tokens.length) :
    Reached (tokens ++ more) next := by
  induction fed generalizing tokens with
  | nil => simpa using reached
  | @cons builder next after index token rest taken _ ih =>
      subst place
      have onward := ih (reached.step taken) (by simp)
      simpa using onward

theorem Accepts.last_reached {read : List Token} (accepted : builder.Accepts index tokens graph)
    (reached : Reached read builder) (place : index = read.length) :
    ∃ more last, Reached more last ∧ last.scopes = [] ∧
      graph = (last.addNode .endProgram .endOfFile).graph := by
  induction accepted generalizing read with
  | ended closed => exact ⟨read, _, reached, closed, rfl⟩
  | @step builder next index token rest graph taken _ ih =>
      subst place
      exact ih (reached.step taken) (by simp)

/-- A built graph is that of a builder with no block open, and the node for the end. -/
theorem last_of_build (built : build tokens = .ok graph) :
    ∃ read last, Reached read last ∧ last.scopes = [] ∧
      graph = (last.addNode .endProgram .endOfFile).graph :=
  (run_eq_ok_iff.mp built).last_reached .initial rfl

end Builder

end TapeFlow
