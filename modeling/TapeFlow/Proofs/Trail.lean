import TapeFlow.Proofs.Reducible

namespace TapeFlow

/-! The way of the current node. It moves along the edges that are added, also where a closer takes it
back, and every node is current once, except for those that stop the program. So the places where it
has been make one walk through the graph, and the end mark takes that walk to the end. -/

theorem Graph.Rooted.reaches {graph : Graph} (rooted : graph.Rooted) (id : Nat)
    (inside : id < graph.size) : graph.Reaches 0 id := by
  induction id using Nat.strongRecOn with
  | ind id ih =>
      rcases Nat.eq_zero_or_pos id with rfl | positive
      · exact ⟨_, .stay⟩
      · obtain ⟨source, condition, ahead, member, _⟩ := rooted.entry positive inside
        obtain ⟨visited, walk⟩ := ih source ahead (rooted.source_lt member)
        exact ⟨_, walk.onward ⟨condition, member⟩⟩

theorem Instruction.exits_eq_nil {instruction : Instruction} (none : instruction.exits = []) :
    instruction = .finish ∨ instruction = .endProgram := by
  cases instruction <;> simp [exits] at none ⊢

namespace Builder

variable {builder next last : Builder} {index place : Nat} {node : Node} {token : Token}
  {tokens : List Token} {graph : Graph}

/-- The current node stays or moves along the edge that is added. -/
theorem Takes.moves (taken : builder.Takes index token next) :
    next.current = builder.current ∨
      ∃ edge, builder.edge? token = some edge ∧ edge.target = next.current := by
  cases taken with
  | act operation => exact .inr ⟨_, edge?_operation operation, rfl⟩
  | branch symbol => exact .inr ⟨_, rfl, rfl⟩
  | loop => exact .inr ⟨_, rfl, rfl⟩
  | leave => exact .inl (leave_current builder)
  | @closeBranch node opened outer innermost =>
      by_cases atTest : builder.current = node
      · exact .inl atTest.symm
      · exact .inr ⟨⟨node, builder.exit.condition⟩, by simp [edge?, innermost, atTest], rfl⟩
  | @closeLoop node opened outer innermost =>
      exact .inr ⟨⟨node, .continueLoop⟩, by simp [edge?, innermost], rfl⟩

/-- A new node where an exit is due is the current one. -/
theorem Reads.current_of_fresh (reads : builder.Reads index token next) (sound : builder.Sound)
    (goesOn : next.due builder.nodes.length ≠ []) : next.current = builder.nodes.length := by
  have soundNext := sound.step reads
  have bound := soundNext.current_lt
  have size := (reads.grows sound).size_le
  apply Classical.byContradiction
  intro away
  rw [due, if_neg (Ne.symm away), List.nil_append] at goesOn
  obtain ⟨condition, member⟩ := List.exists_mem_of_ne_nil _ goesOn
  obtain ⟨scope, inside, _⟩ := List.mem_map.mp member
  obtain ⟨member, here⟩ := List.mem_filter.mp inside
  have below := soundNext.scopes_le scope member
  have same := of_decide_eq_true here
  simp only [graph_size] at size
  omega

/-- A walk to the current node that has visited every node with exits. -/
def Trail (builder : Builder) (visited : List Nat) : Prop :=
  builder.graph.Walk 0 visited builder.current ∧
    ∀ (place : Nat) (node : Node), builder.nodes[place]? = some node →
      node.instruction.exits ≠ [] → place ∈ visited

theorem Trail.step {visited : List Nat} (trail : builder.Trail visited) (sound : builder.Sound)
    (taken : builder.Takes index token next) : ∃ longer, next.Trail longer := by
  have reads : builder.Reads index token next := .takes taken
  have walk := trail.1.mono (reads.leads sound)
  have covers {longer : List Nat} (holds : visited ⊆ longer) (here : next.current ∈ longer)
      (place : Nat) (node : Node) (found : next.nodes[place]? = some node)
      (goesOn : node.instruction.exits ≠ []) : place ∈ longer := by
    rcases reads.node_cases sound found with ⟨old, foundOld, _, rfl⟩ | ⟨rfl, _, due, _⟩
    · exact holds (trail.2 place old foundOld goesOn)
    · rw [← due] at goesOn
      exact reads.current_of_fresh sound goesOn ▸ here
  rcases taken.moves with stays | ⟨edge, emitted, moves⟩
  · rw [← stays] at walk
    exact ⟨visited, walk, covers (List.Subset.refl _) walk.last_mem⟩
  · have leads := reads.leads_edge sound emitted
    rw [moves] at leads
    have longer := walk.onward leads
    exact ⟨_, longer, covers (List.subset_append_left _ _) longer.last_mem⟩

theorem Reached.trail (reached : Reached tokens builder) : ∃ visited, builder.Trail visited := by
  induction reached with
  | initial =>
      refine ⟨[0], .stay, ?_⟩
      intro place node found _
      cases place with
      | zero => simp
      | succ place => cases found
  | step reached taken ih =>
      obtain ⟨visited, trail⟩ := ih
      exact trail.step reached.sound taken

theorem edge?_endOfFile {edge : Edge} (emitted : builder.edge? token = some edge)
    (ended : edge.condition = .endOfFile) : token = .endOfFile := by
  have pending : builder.exit.condition ≠ .endOfFile := builder.exit.condition_ne rfl
  rcases edge?_cases emitted with ⟨_, rfl⟩ | ⟨_, other | other⟩ |
    ⟨_, other | ⟨scope, _, rfl⟩⟩ | ⟨marked, _⟩
  · exact absurd ended pending
  · rw [other] at ended; cases ended
  · rw [other] at ended; cases ended
  · rw [other] at ended; cases ended
  · exact absurd ended pending
  · exact marked

namespace Reached

/-- Before the end mark no edge is for the end of the program. -/
theorem unended (reached : Reached tokens builder) (source : Nat) (edge : Edge)
    (member : (source, edge) ∈ builder.graph.edges) : edge.condition ≠ .endOfFile := by
  induction reached with
  | initial => cases member
  | step reached taken ih =>
      rw [((Reads.takes taken).edges_perm reached.sound).mem_iff] at member
      rcases List.mem_append.mp member with added | member
      · obtain ⟨other, emitted, same⟩ := List.mem_map.mp added
        cases same
        intro ended
        exact taken.not_end (edge?_endOfFile (Option.mem_toList.mp emitted) ended)
      · exact ih member

theorem not_endProgram (reached : Reached tokens builder)
    (found : builder.nodes[place]? = some node) : node.instruction ≠ .endProgram := by
  intro ended
  obtain ⟨source, condition, _, member, fits, _⟩ :=
    reached.labelled.entry reached.sound found (by rw [ended]; nofun)
  exact reached.unended source _ member (fits.ends.mpr ended)

theorem end_edges (reached : Reached tokens last) :
    ((last.addNode .endProgram .endOfFile).graph.edges.filter fun (_, edge) =>
      edge.condition = .endOfFile) = [(last.current, ⟨last.nodes.length, .endOfFile⟩)] := by
  have sound := reached.sound
  have added := addNode_edges sound.rooted.numbered sound.current_lt .endProgram .endOfFile
  have others : (last.graph.edges.filter fun (_, edge) => edge.condition = .endOfFile) = [] := by
    apply List.filter_eq_nil_iff.mpr
    rintro ⟨source, edge⟩ member ended
    exact reached.unended source edge member (of_decide_eq_true ended)
  have filtered := added.filter fun (_, edge) => edge.condition = .endOfFile
  rw [List.filter_cons_of_pos (by simp), others] at filtered
  exact List.perm_singleton.mp filtered

theorem endNode?_eq (reached : Reached tokens last) :
    (last.addNode .endProgram .endOfFile).graph.endNode? =
      some ⟨last.nodes.length, .endProgram, []⟩ := by
  rw [Graph.endNode?, ← List.head?_filter, reached.end_edges]
  exact reached.sound.fresh .endProgram .endOfFile

/-- The end mark takes the trail on to the end of the program. -/
theorem covering_walk (reached : Reached tokens last) :
    ∃ visited, (last.addNode .endProgram .endOfFile).graph.Walk 0 visited last.nodes.length ∧
      ∀ (place : Nat) (node : Node),
        (last.addNode .endProgram .endOfFile).nodes[place]? = some node →
          node.instruction ≠ .finish → place ∈ visited := by
  have sound := reached.sound
  have marked := last.reads_end
  obtain ⟨visited, walk, covers⟩ := reached.trail
  have longer := (walk.mono (marked.leads sound)).onward (marked.leads_edge sound rfl)
  refine ⟨_, longer, ?_⟩
  intro place node found goesOn
  rcases marked.node_cases sound found with ⟨old, foundOld, _, rfl⟩ | ⟨rfl, _⟩
  · apply List.mem_append_left
    apply covers place old foundOld
    intro none
    rcases Instruction.exits_eq_nil none with stops | ends
    · exact goesOn stops
    · exact reached.not_endProgram foundOld ends
  · exact longer.last_mem

end Reached

end Builder

/-- Nothing in a built graph is dead: control can come to every node, and from every node that does
not stop the program it can come to the end. One walk to the end visits all of these. -/
theorem build_has_no_dead_ends {tokens : List Token} {graph : Graph}
    (built : build tokens = .ok graph) :
    graph.Numbered ∧ (∀ id < graph.size, graph.Reaches 0 id) ∧
      ∃ ended, graph.endNode? = some ended ∧ ended.instruction = .endProgram ∧
        (∀ id node, graph.node? id = some node → node.instruction ≠ .finish →
          graph.Reaches id ended.id) ∧
        ∃ visited, graph.Walk 0 visited ended.id ∧
          ∀ id node, graph.node? id = some node → node.instruction ≠ .finish → id ∈ visited := by
  obtain ⟨_, last, reached, _, rfl⟩ := Builder.last_of_build built
  have rooted := (reached.sound.step last.reads_end).rooted
  obtain ⟨visited, walk, covers⟩ := reached.covering_walk
  refine ⟨rooted.numbered, rooted.reaches, _, reached.endNode?_eq, rfl, ?_, visited, walk, covers⟩
  intro id node found goesOn
  exact walk.reaches_last (covers id node found goesOn)

theorem build_has_no_dead_ends_in_branch :
    ∃ graph, build [.branch .zero, .leave, .close, .loop, .branch .one, .close, .leave, .close,
      .endOfFile] = .ok graph ∧ ∃ ended, graph.endNode? = some ended ∧
        ∃ visited, graph.Walk 0 visited ended.id := by
  have built : build [.branch .zero, .leave, .close, .loop, .branch .one, .close, .leave, .close,
      .endOfFile] = .ok _ := rfl
  obtain ⟨_, _, ended, found, _, _, visited, walk, _⟩ := build_has_no_dead_ends built
  exact ⟨_, built, ended, found, visited, walk⟩

end TapeFlow
