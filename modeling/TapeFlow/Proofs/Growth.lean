import TapeFlow.Proofs.Runs

namespace TapeFlow

/-! Graphs only grow while they are built: a node keeps its number and its instruction, and edges
are added behind those it has. A token adds at most one edge to a node that is there before it, and
only to the current one. -/

/-- What `after` has at a place is what `before` has there, with some edges added. -/
def Adds (before after : List Node) (place : Nat) (added : List Edge) : Prop :=
  ∃ node, before[place]? = some node ∧
    after[place]? = some { node with edges := node.edges ++ added }

namespace Adds

variable {before middle after : List Node} {place : Nat} {first second : List Edge}

theorem refl (inside : place < before.length) : Adds before before place [] :=
  ⟨before[place], List.getElem?_eq_getElem inside, by simp [List.getElem?_eq_getElem inside]⟩

theorem trans (one : Adds before middle place first) (two : Adds middle after place second) :
    Adds before after place (first ++ second) := by
  obtain ⟨node, found, grown⟩ := one
  obtain ⟨later, foundLater, grownLater⟩ := two
  rw [grown] at foundLater
  cases foundLater
  exact ⟨node, found, by rw [grownLater, List.append_assoc]⟩

theorem unique (one : Adds before after place first) (two : Adds before after place second) :
    first = second := by
  obtain ⟨node, found, grown⟩ := one
  obtain ⟨other, foundOther, grownOther⟩ := two
  rw [found] at foundOther
  cases foundOther
  rw [grown] at grownOther
  injection grownOther with same
  injection same with _ _ edges
  exact List.append_cancel_left edges

theorem append (inside : place < before.length) (more : List Node) :
    Adds before (before ++ more) place [] := by
  refine ⟨before[place], List.getElem?_eq_getElem inside, ?_⟩
  rw [List.getElem?_append_left inside, List.getElem?_eq_getElem inside, List.append_nil]

theorem inside (adds : Adds before after place first) : place < after.length := by
  obtain ⟨node, _, grown⟩ := adds
  exact (List.getElem?_eq_some_iff.mp grown).1

end Adds

/-- The instruction of the node that a token adds and goes on from. -/
def Token.instruction? : Token → Option Instruction
  | .printState => some .printState
  | .pause => some .pause
  | .moveLeft => some .moveLeft
  | .moveRight => some .moveRight
  | .write symbol => some (.write symbol)
  | .branch symbol => some (.ifRead symbol)
  | .loop => some .loop
  | _ => none

theorem Token.instruction?_operation (operation : Operation) :
    operation.token.instruction? = some operation.instruction := by
  cases operation <;> rfl

namespace Builder

variable {builder next : Builder} {index place : Nat} {token : Token} {tokens : List Token}
  {graph : Graph}

/-- The edge that a token adds to the current node, if it adds one. -/
def edge? (builder : Builder) : Token → Option Edge
  | .leave =>
    match builder.loops with
    | innermost :: _ => some ⟨innermost, .breakLoop⟩
    | [] => some ⟨builder.nodes.length, .programFinished⟩
  | .close =>
    match builder.scopes with
    | ⟨.branch, node, _⟩ :: _ =>
      if builder.current = node then none else some ⟨node, builder.exit.condition⟩
    | ⟨.loop, node, _⟩ :: _ => some ⟨node, .continueLoop⟩
    | [] => none
  | .endOfFile => some ⟨builder.nodes.length, .endOfFile⟩
  | .unknown _ => none
  | _ => some ⟨builder.nodes.length, builder.exit.condition⟩

theorem edge?_operation (operation : Operation) :
    builder.edge? operation.token = some ⟨builder.nodes.length, builder.exit.condition⟩ := by
  cases operation <;> rfl

theorem link_adds (builder : Builder) (target : Nat) (condition : Condition)
    (inside : place < builder.nodes.length) :
    Adds builder.nodes (builder.link builder.current target condition).nodes place
      (if place = builder.current then [⟨target, condition⟩] else []) := by
  refine ⟨builder.nodes[place], List.getElem?_eq_getElem inside, ?_⟩
  rw [link, List.getElem?_modify, List.getElem?_eq_getElem inside]
  by_cases here : place = builder.current
  · simp [here]
  · simp [here, Ne.symm here]

theorem addNode_adds (builder : Builder) (instruction : Instruction) (condition : Condition)
    (inside : place < builder.nodes.length) :
    Adds builder.nodes (builder.addNode instruction condition).nodes place
      (if place = builder.current then [⟨builder.nodes.length, condition⟩] else []) := by
  let extended : Builder :=
    { builder with nodes := builder.nodes ++ [⟨builder.nodes.length, instruction, []⟩] }
  have within : place < extended.nodes.length := by simp [extended]; omega
  exact (Adds.append inside _).trans
    (extended.link_adds builder.nodes.length condition within)

@[simp] theorem link_length (source target : Nat) (condition : Condition) :
    (builder.link source target condition).nodes.length = builder.nodes.length :=
  List.length_modify ..

@[simp] theorem addNode_length (instruction : Instruction) (condition : Condition) :
    (builder.addNode instruction condition).nodes.length = builder.nodes.length + 1 := by
  simp [addNode]

@[simp] theorem closeBranch_length (test : Nat) :
    (builder.closeBranch test).nodes.length = builder.nodes.length := by
  unfold closeBranch
  split <;> simp

theorem addNode_fresh (instruction : Instruction) (condition : Condition)
    (inside : builder.current < builder.nodes.length) :
    (builder.addNode instruction condition).nodes[builder.nodes.length]? =
      some ⟨builder.nodes.length, instruction, []⟩ := by
  -- The node that gets an edge is the current one, not the new one.
  have other : builder.current ≠ builder.nodes.length := Nat.ne_of_lt inside
  simp [addNode, link, other]

theorem Takes.adds (taken : builder.Takes index token next) (inside : place < builder.nodes.length) :
    Adds builder.nodes next.nodes place
      (if place = builder.current then (builder.edge? token).toList else []) := by
  cases taken with
  | act operation =>
      rw [edge?_operation]
      exact builder.addNode_adds operation.instruction builder.exit.condition inside
  | branch symbol => exact builder.addNode_adds (.ifRead symbol) builder.exit.condition inside
  | loop => exact builder.addNode_adds .loop builder.exit.condition inside
  | leave =>
      simp only [Builder.leave, edge?]
      cases builder.loops with
      | nil => exact builder.addNode_adds .finish .programFinished inside
      | cons innermost outer => exact builder.link_adds innermost .breakLoop inside
  | @closeBranch node opened outer innermost =>
      simp only [Builder.closeBranch, edge?, innermost]
      by_cases atTest : builder.current = node
      · simpa [atTest] using Adds.refl inside
      · simpa [atTest] using builder.link_adds node builder.exit.condition inside
  | @closeLoop node opened outer innermost =>
      simp only [edge?, innermost]
      exact builder.link_adds node .continueLoop inside

/-- Open blocks have their tests at or before the current node, inner ones after outer ones, and the
current node is the test of the innermost block as long as that block, a branch, is just entered. -/
structure WellFormed (builder : Builder) : Prop where
  current_lt : builder.current < builder.nodes.length
  scopes_le : ∀ scope ∈ builder.scopes, scope.node ≤ builder.current
  descending : builder.scopes.Pairwise fun inner outer => outer.node < inner.node
  entered : builder.exit = .intoBranch ↔
    ∃ opened outer, builder.scopes = ⟨.branch, builder.current, opened⟩ :: outer

theorem initial_wellFormed : initial.WellFormed where
  current_lt := by decide
  scopes_le := by intro scope member; cases member
  descending := .nil
  entered := by simp [initial]

namespace WellFormed

theorem scope_lt (wellFormed : builder.WellFormed) {scope : Scope}
    (member : scope ∈ builder.scopes) : scope.node < builder.nodes.length :=
  Nat.lt_of_le_of_lt (wellFormed.scopes_le scope member) wellFormed.current_lt

theorem advance (wellFormed : builder.WellFormed) (instruction : Instruction) :
    (builder.advance instruction .plain).WellFormed where
  current_lt := by simp [Builder.advance]
  scopes_le := by
    intro scope member
    exact Nat.le_of_lt (wellFormed.scope_lt member)
  descending := wellFormed.descending
  entered := by
    refine ⟨nofun, ?_⟩
    rintro ⟨opened, outer, top⟩
    have below := wellFormed.scope_lt (top ▸ List.mem_cons_self)
    exact absurd below (Nat.lt_irrefl _)

theorem opening (wellFormed : builder.WellFormed) {kind : BlockKind}
    (current : next.current = builder.nodes.length)
    (length : next.nodes.length = builder.nodes.length + 1)
    (scopes : next.scopes = ⟨kind, builder.nodes.length, index⟩ :: builder.scopes)
    (exit : next.exit = .intoBranch ↔ kind = .branch) : next.WellFormed where
  current_lt := by omega
  scopes_le := by
    intro scope member
    rw [scopes] at member
    rw [current]
    rcases List.mem_cons.mp member with rfl | member
    · exact Nat.le_refl _
    · exact Nat.le_of_lt (wellFormed.scope_lt member)
  descending := by
    rw [scopes]
    exact .cons (fun scope member => wellFormed.scope_lt member) wellFormed.descending
  entered := by
    rw [exit, scopes, current]
    constructor
    · rintro rfl
      exact ⟨index, builder.scopes, rfl⟩
    · rintro ⟨opened, outer, same⟩
      cases same
      rfl

theorem closing (wellFormed : builder.WellFormed) {scope : Scope}
    (innermost : builder.scopes = scope :: next.scopes) (current : next.current = scope.node)
    (length : next.nodes.length = builder.nodes.length) (exit : next.exit ≠ .intoBranch) :
    next.WellFormed := by
  have descending := wellFormed.descending
  rw [innermost, List.pairwise_cons] at descending
  obtain ⟨outside, descending⟩ := descending
  refine ⟨?_, ?_, descending, ?_⟩
  · rw [current, length]
    exact wellFormed.scope_lt (innermost ▸ List.mem_cons_self)
  · intro outer member
    rw [current]
    exact Nat.le_of_lt (outside outer member)
  · refine ⟨fun entered => absurd entered exit, ?_⟩
    rintro ⟨opened, outer, top⟩
    have below := outside _ (top ▸ List.mem_cons_self)
    rw [current] at below
    exact absurd below (Nat.lt_irrefl _)

theorem leave (wellFormed : builder.WellFormed) : builder.leave.WellFormed where
  current_lt := by
    have taken : builder.Takes 0 .leave builder.leave := .leave
    rw [leave_current]
    exact (taken.adds wellFormed.current_lt).inside
  scopes_le := by simpa using wellFormed.scopes_le
  descending := by simpa using wellFormed.descending
  entered := by simpa using wellFormed.entered

theorem step (wellFormed : builder.WellFormed) (taken : builder.Takes index token next) :
    next.WellFormed := by
  cases taken with
  | act operation => exact wellFormed.advance operation.instruction
  | branch symbol =>
      exact wellFormed.opening rfl (addNode_length ..) rfl ⟨fun _ => rfl, fun _ => rfl⟩
  | loop => exact wellFormed.opening rfl (addNode_length ..) rfl ⟨nofun, nofun⟩
  | leave => exact wellFormed.leave
  | closeBranch innermost =>
      exact wellFormed.closing innermost rfl (closeBranch_length ..) nofun
  | closeLoop innermost => exact wellFormed.closing innermost rfl (link_length ..) nofun

end WellFormed

theorem Accepts.adds (accepted : builder.Accepts index tokens graph)
    (inside : place < builder.nodes.length) : ∃ added, Adds builder.nodes graph.nodes place added := by
  induction accepted with
  | ended _ => exact ⟨_, addNode_adds _ _ _ inside⟩
  | step taken _ ih =>
      have one := taken.adds inside
      obtain ⟨later, more⟩ := ih one.inside
      exact ⟨_, one.trans more⟩

/-- The edge that the first token adds is the next one of the current node in the graph. -/
theorem Accepts.first_edge {edge : Edge} (accepted : builder.Accepts index (token :: tokens) graph)
    (inside : builder.current < builder.nodes.length) (emitted : builder.edge? token = some edge) :
    ∃ more, Adds builder.nodes graph.nodes builder.current (edge :: more) := by
  cases accepted with
  | ended _ =>
      cases emitted
      have one := builder.addNode_adds .endProgram .endOfFile inside
      rw [if_pos rfl] at one
      exact ⟨[], one⟩
  | step taken accepted =>
      have one := taken.adds inside
      rw [if_pos rfl, emitted] at one
      obtain ⟨later, more⟩ := accepted.adds one.inside
      exact ⟨later, one.trans more⟩

theorem Accepts.first_instruction {instruction : Instruction}
    (accepted : builder.Accepts index (token :: tokens) graph)
    (inside : builder.current < builder.nodes.length)
    (added : token.instruction? = some instruction) :
    ∃ edges, graph.nodes[builder.nodes.length]? =
      some ⟨builder.nodes.length, instruction, edges⟩ := by
  cases accepted with
  | ended _ => cases added
  | @step _ next _ _ _ _ taken accepted =>
      have fresh : next.nodes[builder.nodes.length]? =
          some ⟨builder.nodes.length, instruction, []⟩ := by
        cases taken with
        | act operation =>
            rw [Token.instruction?_operation] at added
            cases added
            exact addNode_fresh _ _ inside
        | branch symbol => cases added; exact addNode_fresh _ _ inside
        | loop => cases added; exact addNode_fresh _ _ inside
        | leave => cases added
        | closeBranch _ => cases added
        | closeLoop _ => cases added
      obtain ⟨edges, node, found, grown⟩ :=
        accepted.adds (List.getElem?_eq_some_iff.mp fresh).1
      rw [fresh] at found
      cases found
      exact ⟨edges, grown⟩

end Builder

end TapeFlow
