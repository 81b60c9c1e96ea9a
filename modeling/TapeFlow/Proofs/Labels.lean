import TapeFlow.Proofs.Exits

namespace TapeFlow

/-! The conditions on the edges of built graphs. -/

theorem Instruction.nodup_exits (instruction : Instruction) : instruction.exits.Nodup := by
  cases instruction <;> simp [exits]

/-- A later exit does not come before an earlier one. -/
def Condition.InOrder (earlier later : Condition) : Prop :=
  ¬ (earlier = .onFalse ∧ later = .onTrue) ∧ ¬ (earlier = .endLoop ∧ later = .startLoop)

theorem Condition.InOrder.of_exits {earlier later : Condition}
    (exits : earlier.isExit → later.isExit → earlier.InOrder later) : earlier.InOrder later := by
  cases earlier <;> cases later <;> simp_all [isExit, InOrder]

theorem Instruction.exits_inOrder (instruction : Instruction) :
    instruction.exits.Pairwise Condition.InOrder := by
  cases instruction <;> simp [exits, Condition.InOrder]

/-- The conditions on the edges of a graph fit its nodes and tell the ways on from a node apart. -/
structure Graph.WellLabelled (graph : Graph) : Prop where
  numbered : graph.Numbered
  tests : ∀ node ∈ graph.nodes, ∀ edge ∈ node.edges,
    edge.condition = .onTrue ∨ edge.condition = .onFalse →
      ∃ symbol, node.instruction = .ifRead symbol
  loops : ∀ node ∈ graph.nodes, ∀ edge ∈ node.edges,
    edge.condition = .startLoop ∨ edge.condition = .endLoop → node.instruction = .loop
  plain : ∀ node ∈ graph.nodes, ∀ edge ∈ node.edges, edge.condition = .always →
    node.instruction = .start ∨ ∃ operation : Operation, node.instruction = operation.instruction
  unique : ∀ node ∈ graph.nodes, ∀ condition : Condition, condition.isExit →
    node.edges.countP (·.condition = condition) ≤ 1
  ordered : ∀ node ∈ graph.nodes,
    node.edges.Pairwise fun earlier later => earlier.condition.InOrder later.condition
  into : ∀ source edge, (source, edge) ∈ graph.edges →
    edge.condition = .onTrue ∨ edge.condition = .startLoop → source < edge.target
  again : ∀ source edge, (source, edge) ∈ graph.edges →
    edge.condition = .breakLoop ∨ edge.condition = .continueLoop →
      ∃ goal, graph.node? edge.target = some goal ∧ goal.instruction = .loop
  continued : ∀ id node, graph.node? id = some node → node.instruction = .loop →
    (graph.edges.countP fun (_, edge) => edge = ⟨id, .continueLoop⟩) = 1
  stops : ∀ source edge, (source, edge) ∈ graph.edges → edge.condition = .programFinished →
    ∃ goal, graph.node? edge.target = some goal ∧ goal.instruction = .finish
  stopped : ∀ id node, graph.node? id = some node → node.instruction = .finish →
    ∃ source, (graph.edges.filter fun (_, edge) => edge.target = id) =
      [(source, ⟨id, .programFinished⟩)]
  ended : ∀ node ∈ graph.nodes,
    node.instruction = .finish ∨ node.instruction = .endProgram → node.edges = []

variable {graph : Graph} {node : Node} {edge : Edge} {condition : Condition}

theorem mem_exitsOf (member : edge ∈ node.edges) (isExit : edge.condition.isExit) :
    edge.condition ∈ exitsOf node.edges :=
  List.mem_filter.mpr ⟨List.mem_map_of_mem member, isExit⟩

theorem countP_edges (isExit : condition.isExit) :
    node.edges.countP (·.condition = condition) = (exitsOf node.edges).count condition := by
  rw [exitsOf, List.count_filter isExit, List.count, List.countP_map]
  congr 1

namespace Builder

variable {builder : Builder}

theorem Labelled.exits_sublist (labelled : builder.Labelled) (member : node ∈ builder.nodes) :
    (exitsOf node.edges).Sublist node.instruction.exits := by
  obtain ⟨place, found⟩ := List.mem_iff_getElem?.mp member
  exact (List.sublist_append_left _ _).trans (labelled.exits place node found)

/-- The only edge to a node that stops the program is the one it was added with. -/
theorem Labelled.stopped (labelled : builder.Labelled) (sound : builder.Sound) {id : Nat}
    (found : builder.nodes[id]? = some node) (stops : node.instruction = .finish) :
    ∃ source, (builder.graph.edges.filter fun (_, edge) => edge.target = id) =
      [(source, ⟨id, .programFinished⟩)] := by
  obtain ⟨source, condition, _, _, fits, only⟩ :=
    labelled.entry sound found (by rw [stops]; nofun)
  cases fits.stops.mpr stops
  -- No edge leads back to such a node, so the entry is all there is.
  have entries : ∀ entry ∈ builder.graph.edges,
      (entry.2.target = id : Bool) = (entry.2.target = id ∧ entry.1 < id : Bool) := by
    rintro ⟨source, edge⟩ member
    by_cases leads : edge.target = id
    · obtain ⟨goal, foundGoal, fits⟩ := labelled.fitted source edge member
      rw [leads, graph_nodes, found] at foundGoal
      cases foundGoal
      have ahead : source < id := by
        apply Nat.lt_of_not_le
        intro behind
        have opens := fits.back (leads ▸ behind)
        rw [stops] at opens
        cases opens
      simp [leads, ahead]
    · simp [leads]
  exact ⟨source, (List.filter_congr entries).trans only⟩

theorem Labelled.mem_exits (labelled : builder.Labelled) (member : node ∈ builder.nodes)
    (inside : edge ∈ node.edges) (isExit : edge.condition.isExit) :
    edge.condition ∈ node.instruction.exits :=
  (labelled.exits_sublist member).subset (mem_exitsOf inside isExit)

theorem Labelled.wellLabelled (labelled : builder.Labelled) (sound : builder.Sound)
    (closed : builder.scopes = []) : builder.graph.WellLabelled where
  numbered := sound.rooted.numbered
  tests := by
    intro node member edge inside tests
    have isExit : edge.condition.isExit := by rcases tests with same | same <;> rw [same] <;> rfl
    exact Instruction.eq_ifRead (labelled.mem_exits member inside isExit) tests
  loops := by
    intro node member edge inside loops
    have isExit : edge.condition.isExit := by rcases loops with same | same <;> rw [same] <;> rfl
    exact Instruction.eq_loop (labelled.mem_exits member inside isExit) loops
  plain := by
    intro node member edge inside plain
    have exit := labelled.mem_exits member inside (by rw [plain]; rfl)
    rw [plain] at exit
    exact Instruction.eq_plain exit
  unique := by
    intro node member condition isExit
    rw [countP_edges isExit]
    exact Nat.le_trans ((labelled.exits_sublist member).count_le condition)
      (List.nodup_iff_count.mp node.instruction.nodup_exits condition)
  ordered := by
    intro node member
    have inOrder := node.instruction.exits_inOrder.sublist (labelled.exits_sublist member)
    rw [exitsOf, List.pairwise_filter, List.pairwise_map] at inOrder
    exact inOrder.imp Condition.InOrder.of_exits
  into := by
    intro source edge member
    obtain ⟨goal, _, fits⟩ := labelled.fitted source edge member
    exact fits.into
  again := by
    intro source edge member again
    obtain ⟨goal, found, fits⟩ := labelled.fitted source edge member
    exact ⟨goal, found, fits.loops again⟩
  continued := by
    intro id node found isLoop
    have one := labelled.continues id node found isLoop
    rwa [sound.loops_eq, closed] at one
  stops := by
    intro source edge member stops
    obtain ⟨goal, found, fits⟩ := labelled.fitted source edge member
    exact ⟨goal, found, fits.stops.mp stops⟩
  stopped := fun id node => labelled.stopped sound
  ended := by
    intro node member last
    obtain ⟨place, found⟩ := List.mem_iff_getElem?.mp member
    apply labelled.ends place node found
    rcases last with same | same <;> rw [same] <;> rfl

end Builder

/-- The conditions of a built graph are consistent with its nodes: they tell what a node does that
has them on its edges, how often and in which order they come, and where the edges lead. -/
theorem build_wellLabelled {tokens : List Token} (built : build tokens = .ok graph) :
    graph.WellLabelled := by
  obtain ⟨_, last, reached, closed, rfl⟩ := Builder.last_of_build built
  have marked := last.reads_end
  have labelled := reached.labelled.step reached.sound marked
  exact labelled.wellLabelled (reached.sound.step marked) closed

theorem build_wellLabelled_in_loop :
    ∃ graph, build [.leave, .loop, .branch .zero, .leave, .moveRight, .close, .close, .endOfFile] =
      .ok graph ∧ graph.WellLabelled := by
  have built : build [.leave, .loop, .branch .zero, .leave, .moveRight, .close, .close, .endOfFile] =
      .ok _ := rfl
  exact ⟨_, built, build_wellLabelled built⟩

end TapeFlow
