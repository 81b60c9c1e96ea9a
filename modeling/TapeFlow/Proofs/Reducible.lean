import TapeFlow.Proofs.Exits
import TapeFlow.Proofs.Walks

namespace TapeFlow

/-! Built graphs are reducible. Every node but the start is added with an edge from the current node,
and these edges make a tree. All open blocks have their tests above the current node, one above the
other, so the edges that lead back, which go to such tests, lead up in the tree. -/

namespace Graph

variable {graph : Graph}

def Opener (graph : Graph) (id : Nat) : Prop :=
  ∃ node, graph.node? id = some node ∧ node.instruction.opens = true

/-- One edge leads to each node from a smaller number. All others lead from a node to the test of a
block that is on every way to the node. Control comes into a cycle by its smallest node only, and
that is such a test. -/
structure Reducible (graph : Graph) : Prop where
  numbered : graph.Numbered
  one_entry : ∀ id, 0 < id → id < graph.size →
    (graph.edges.countP fun (source, edge) => edge.target = id ∧ source < id) = 1
  others : ∀ source edge, (source, edge) ∈ graph.edges →
    (source < edge.target ∧ edge.target < graph.size) ∨
      (edge.target ≤ source ∧ graph.Opener edge.target ∧ graph.Dominates edge.target source)
  cycles : ∀ cycle, graph.Cycle cycle →
    ∃ head ∈ cycle, (∀ id ∈ cycle, head ≤ id) ∧ graph.Opener head ∧
      ∀ visited last, graph.Walk 0 visited last → (∃ id ∈ visited, id ∈ cycle) →
        visited.find? (· ∈ cycle) = some head

theorem Rooted.parent_unique (rooted : graph.Rooted) (parent other child : Nat)
    (one : graph.Parent parent child) (two : graph.Parent other child) : parent = other := by
  obtain ⟨below, condition, member⟩ := one
  obtain ⟨belowToo, conditionToo, memberToo⟩ := two
  have positive : 0 < child := Nat.zero_lt_of_lt below
  obtain ⟨entry, _, _, _, only⟩ := rooted.entry positive (rooted.target_lt parent _ member)
  have isEntry {source : Nat} {condition : Condition} (ahead : source < child)
      (inside : (source, ⟨child, condition⟩) ∈ graph.edges) : source = entry := by
    have filtered : (source, ⟨child, condition⟩) ∈ graph.edges.filter fun (source, edge) =>
        edge.target = child ∧ source < child :=
      List.mem_filter.mpr ⟨inside, by simp [ahead]⟩
    rw [only] at filtered
    exact congrArg Prod.fst (List.mem_singleton.mp filtered)
  rw [isEntry below member, isEntry belowToo memberToo]

end Graph

namespace Builder

variable {builder next : Builder} {graph : Graph} {index : Nat} {token : Token}
  {tokens : List Token}

theorem Reads.leads (reads : builder.Reads index token next) (sound : builder.Sound)
    (source target : Nat) (leads : builder.graph.Leads source target) :
    next.graph.Leads source target := by
  obtain ⟨condition, member⟩ := leads
  exact ⟨condition, (reads.edges_perm sound).mem_iff.mpr (List.mem_append_right _ member)⟩

theorem Reads.leads_edge (reads : builder.Reads index token next) (sound : builder.Sound)
    {edge : Edge} (emitted : builder.edge? token = some edge) :
    next.graph.Leads builder.current edge.target := by
  refine ⟨edge.condition, (reads.edges_perm sound).mem_iff.mpr ?_⟩
  apply List.mem_append_left
  simp [emitted]

/-- The tests of open blocks are above one another and above the current node, and edges lead to a
larger number or up. -/
structure Nested (builder : Builder) : Prop where
  outer_above : builder.scopes.Pairwise fun inner outer =>
    builder.graph.Above outer.node inner.node
  scope_above : ∀ scope ∈ builder.scopes, builder.graph.Above scope.node builder.current
  returns : ∀ source target, builder.graph.Leads source target → target ≤ source →
    builder.graph.Above target source

theorem initial_nested : initial.Nested where
  outer_above := .nil
  scope_above := by intro scope member; cases member
  returns := by rintro source target ⟨condition, member⟩; cases member

namespace Nested

theorem returns_step (nested : builder.Nested) (sound : builder.Sound)
    (reads : builder.Reads index token next) (source target : Nat)
    (leads : next.graph.Leads source target) (behind : target ≤ source) :
    next.graph.Above target source := by
  have keeps := reads.leads sound
  have old (leads : builder.graph.Leads source target) : next.graph.Above target source :=
    (nested.returns source target leads behind).mono keeps
  obtain ⟨condition, member⟩ := leads
  have grows := reads.grows sound
  generalize next.graph = grown at *
  cases grows with
  | same => exact old ⟨condition, member⟩
  | node instruction added =>
      rw [(addNode_edges sound.rooted.numbered sound.current_lt _ _).mem_iff] at member
      rcases List.mem_cons.mp member with new | member
      · cases new
        exact absurd behind (Nat.not_le.mpr sound.current_lt)
      · exact old ⟨condition, member⟩
  | back inside added =>
      rw [(link_edges sound.rooted.numbered sound.current_lt _ _).mem_iff] at member
      rcases List.mem_cons.mp member with new | member
      · cases new
        exact (nested.scope_above _ inside).mono keeps
      · exact old ⟨condition, member⟩

theorem step (nested : builder.Nested) (sound : builder.Sound)
    (reads : builder.Reads index token next) : next.Nested := by
  have returns := nested.returns_step sound reads
  have keeps := reads.leads sound
  have outer := nested.outer_above.imp fun above => Graph.Above.mono above keeps
  have scopes := fun scope member => (nested.scope_above scope member).mono keeps
  -- A new node that becomes the current one is below all that the current node is below.
  have onward (emitted : builder.edge? token = some ⟨builder.nodes.length, builder.exit.condition⟩)
      (scope : Scope) (member : scope ∈ builder.scopes) :
      next.graph.Above scope.node builder.nodes.length :=
    (scopes scope member).tail ⟨sound.current_lt, reads.leads_edge sound emitted⟩
  cases reads with
  | ends => exact ⟨outer, scopes, returns⟩
  | takes taken =>
      cases taken with
      | act operation => exact ⟨outer, onward (edge?_operation operation), returns⟩
      | branch symbol =>
          exact ⟨.cons (onward rfl) outer, List.forall_mem_cons.mpr ⟨.refl, onward rfl⟩, returns⟩
      | loop =>
          exact ⟨.cons (onward rfl) outer, List.forall_mem_cons.mpr ⟨.refl, onward rfl⟩, returns⟩
      | leave =>
          refine ⟨?_, ?_, returns⟩
          · rw [leave_scopes]; exact outer
          · rw [leave_scopes, leave_current]; exact scopes
      | closeBranch innermost =>
          rw [innermost] at outer
          obtain ⟨above, outer⟩ := List.pairwise_cons.mp outer
          exact ⟨outer, above, returns⟩
      | closeLoop innermost =>
          rw [innermost] at outer
          obtain ⟨above, outer⟩ := List.pairwise_cons.mp outer
          exact ⟨outer, above, returns⟩

end Nested

theorem Reached.nested (reached : Reached tokens builder) : builder.Nested := by
  induction reached with
  | initial => exact initial_nested
  | step reached taken ih => exact ih.step reached.sound (.takes taken)

theorem Labelled.opener (labelled : builder.Labelled) {source : Nat} {edge : Edge}
    (member : (source, edge) ∈ builder.graph.edges) (behind : edge.target ≤ source) :
    builder.graph.Opener edge.target := by
  obtain ⟨goal, found, fits⟩ := labelled.fitted source edge member
  exact ⟨goal, found, fits.back behind⟩

theorem Nested.dominates (nested : builder.Nested) (sound : builder.Sound) (source target : Nat)
    (leads : builder.graph.Leads source target) (behind : target ≤ source) :
    builder.graph.Dominates target source :=
  (nested.returns source target leads behind).dominates sound.rooted.parent_unique nested.returns

theorem Nested.reducible (nested : builder.Nested) (sound : builder.Sound)
    (labelled : builder.Labelled) : builder.graph.Reducible where
  numbered := sound.rooted.numbered
  one_entry := sound.rooted.one_entry
  others := by
    intro source edge member
    by_cases behind : edge.target ≤ source
    · exact .inr ⟨behind, labelled.opener member behind,
        nested.dominates sound source edge.target ⟨edge.condition, member⟩ behind⟩
    · exact .inl ⟨Nat.lt_of_not_le behind, sound.rooted.target_lt source edge member⟩
  cycles := by
    intro cycle isCycle
    obtain ⟨head, onCycle, least, ⟨source, _, ⟨condition, member⟩, behind⟩, dominated⟩ :=
      isCycle.exists_head (nested.dominates sound)
    refine ⟨head, onCycle, least, labelled.opener member behind, ?_⟩
    intro visited last walk meets
    exact walk.find?_eq onCycle dominated meets

end Builder

/-- A built graph is reducible, and its loops are entered at the tests of blocks. -/
theorem build_reducible {tokens : List Token} {graph : Graph} (built : build tokens = .ok graph) :
    graph.Reducible := by
  obtain ⟨_, last, reached, _, rfl⟩ := Builder.last_of_build built
  have marked := last.reads_end
  have nested := reached.nested.step reached.sound marked
  exact nested.reducible (reached.sound.step marked) (reached.labelled.step reached.sound marked)

theorem build_reducible_of_nested :
    ∃ graph, build [.loop, .branch .one, .loop, .leave, .close, .close, .close, .endOfFile] = .ok graph ∧
      graph.Reducible := by
  have built : build [.loop, .branch .one, .loop, .leave, .close, .close, .close, .endOfFile] =
      .ok _ := rfl
  exact ⟨_, built, build_reducible built⟩

end TapeFlow
