import TapeFlow.Proofs.Decompiling
import TapeFlow.Proofs.Reached

namespace TapeFlow

/-! Which edges a node has. An instruction has a list of conditions under which control goes on from
it, and those that the edges of a node carry are part of that list, in its order. While a graph is
built, some of them are still due: the exit of the current node and the way past every open block.
They come behind those that are there, and no token makes more of them due. -/

/-- The conditions under which control goes on from a node, in the order of its edges. -/
def Instruction.exits : Instruction → List Condition
  | .ifRead _ => [.onTrue, .onFalse]
  | .loop => [.startLoop, .endLoop]
  | .finish => []
  | .endProgram => []
  | _ => [.always]

def Instruction.opens : Instruction → Bool
  | .ifRead _ => true
  | .loop => true
  | _ => false

def Condition.isExit : Condition → Bool
  | .always => true
  | .onTrue => true
  | .onFalse => true
  | .startLoop => true
  | .endLoop => true
  | _ => false

/-- The condition under which control goes on behind a block. -/
def BlockKind.past : BlockKind → Condition
  | .branch => .onFalse
  | .loop => .endLoop

def exitsOf (edges : List Edge) : List Condition :=
  (edges.map (·.condition)).filter (·.isExit)

@[simp] theorem exitsOf_append (left right : List Edge) :
    exitsOf (left ++ right) = exitsOf left ++ exitsOf right := by
  simp [exitsOf]

@[simp] theorem exitsOf_nil : exitsOf [] = [] := rfl

@[simp] theorem Exit.isExit_condition (exit : Exit) : exit.condition.isExit = true := by
  cases exit <;> rfl

theorem Exit.condition_ne (exit : Exit) {condition : Condition} (other : condition.isExit = false) :
    exit.condition ≠ condition := by
  rintro rfl
  simp at other

theorem Operation.exits_instruction (operation : Operation) :
    operation.instruction.exits = [.always] := by
  cases operation <;> rfl

theorem Instruction.eq_ifRead {instruction : Instruction} {condition : Condition}
    (member : condition ∈ instruction.exits)
    (tests : condition = .onTrue ∨ condition = .onFalse) :
    ∃ symbol, instruction = .ifRead symbol := by
  rcases tests with rfl | rfl <;> cases instruction <;> simp [exits] at member ⊢

theorem Instruction.eq_loop {instruction : Instruction} {condition : Condition}
    (member : condition ∈ instruction.exits)
    (loops : condition = .startLoop ∨ condition = .endLoop) : instruction = .loop := by
  rcases loops with rfl | rfl <;> cases instruction <;> simp [exits] at member ⊢

theorem Instruction.eq_plain {instruction : Instruction} (member : .always ∈ instruction.exits) :
    instruction = .start ∨ ∃ operation : Operation, instruction = operation.instruction := by
  cases instruction with
  | start => exact .inl rfl
  | printState => exact .inr ⟨.printState, rfl⟩
  | pause => exact .inr ⟨.pause, rfl⟩
  | moveLeft => exact .inr ⟨.moveLeft, rfl⟩
  | moveRight => exact .inr ⟨.moveRight, rfl⟩
  | write symbol => exact .inr ⟨.write symbol, rfl⟩
  | _ => simp [exits] at member

/-- What the condition of an edge says of the node that it leads to. -/
structure Edge.Fits (edge : Edge) (source : Nat) (goal : Instruction) : Prop where
  into : edge.condition = .onTrue ∨ edge.condition = .startLoop → source < edge.target
  loops : edge.condition = .breakLoop ∨ edge.condition = .continueLoop → goal = .loop
  stops : edge.condition = .programFinished ↔ goal = .finish
  ends : edge.condition = .endOfFile ↔ goal = .endProgram
  back : edge.target ≤ source → goal.opens = true

theorem Edge.Fits.onward (exit : Exit) {source target : Nat} {goal : Instruction}
    (ahead : source < target) (goesOn : goal.exits ≠ []) :
    (Edge.mk target exit.condition).Fits source goal where
  into := fun _ => ahead
  loops := by cases exit <;> simp [Exit.condition]
  stops := by
    have other : goal ≠ .finish := by rintro rfl; exact goesOn rfl
    cases exit <;> simp [Exit.condition, other]
  ends := by
    have other : goal ≠ .endProgram := by rintro rfl; exact goesOn rfl
    cases exit <;> simp [Exit.condition, other]
  back := fun behind => absurd ahead (Nat.not_lt.mpr behind)

theorem Edge.Fits.around {exit : Exit} (passed : ¬ exit.Enters) (source target : Nat)
    (symbol : Symbol) : (Edge.mk target exit.condition).Fits source (.ifRead symbol) where
  into := by cases exit <;> simp_all [Exit.condition, Exit.Enters]
  loops := by cases exit <;> simp [Exit.condition]
  stops := by cases exit <;> simp [Exit.condition]
  ends := by cases exit <;> simp [Exit.condition]
  back := fun _ => rfl

theorem Edge.Fits.again {condition : Condition} (source target : Nat)
    (again : condition = .breakLoop ∨ condition = .continueLoop) :
    (Edge.mk target condition).Fits source .loop where
  into := by rcases again with rfl | rfl <;> simp
  loops := fun _ => rfl
  stops := by rcases again with rfl | rfl <;> simp
  ends := by rcases again with rfl | rfl <;> simp
  back := fun _ => rfl

theorem Edge.Fits.stop {source target : Nat} (ahead : source < target) :
    (Edge.mk target .programFinished).Fits source .finish where
  into := fun _ => ahead
  loops := by simp
  stops := by simp
  ends := by simp
  back := fun behind => absurd ahead (Nat.not_lt.mpr behind)

theorem Edge.Fits.last {source target : Nat} (ahead : source < target) :
    (Edge.mk target .endOfFile).Fits source .endProgram where
  into := fun _ => ahead
  loops := by simp
  stops := by simp
  ends := by simp
  back := fun behind => absurd ahead (Nat.not_lt.mpr behind)

namespace Graph

def Fitted (graph : Graph) : Prop :=
  ∀ source edge, (source, edge) ∈ graph.edges →
    ∃ goal, graph.nodes[edge.target]? = some goal ∧ edge.Fits source goal.instruction

/-- How many edges lead back to a loop from the end of its block. -/
def continueCount (graph : Graph) (place : Nat) : Nat :=
  graph.edges.countP fun (_, edge) => edge = ⟨place, .continueLoop⟩

end Graph

namespace Builder

variable {builder next : Builder} {index place : Nat} {node : Node} {token : Token}
  {tokens : List Token} {graph : Graph}

/-- The exits that a node is still to get: that of the current node, and the ones past the blocks that
it tests for. -/
def due (builder : Builder) (place : Nat) : List Condition :=
  (if place = builder.current then [builder.exit.condition] else []) ++
    (builder.scopes.filter (·.node = place)).map (·.kind.past)

/-- An edge takes the exit of the current node or none. -/
theorem exitsOf_edge (builder : Builder) (token : Token) :
    exitsOf (builder.edge? token).toList = [] ∨
      exitsOf (builder.edge? token).toList = [builder.exit.condition] := by
  cases emitted : builder.edge? token with
  | none => exact .inl rfl
  | some edge =>
      rcases edge?_cases emitted with ⟨_, rfl⟩ | ⟨_, other | other⟩ |
        ⟨_, other | ⟨scope, _, rfl⟩⟩ | ⟨_, other⟩
      · exact .inr (by simp [exitsOf])
      · exact .inl (by simp [exitsOf, other, Condition.isExit])
      · exact .inl (by simp [exitsOf, other, Condition.isExit])
      · exact .inl (by simp [exitsOf, other, Condition.isExit])
      · exact .inr (by simp [exitsOf])
      · exact .inl (by simp [exitsOf, other, Condition.isExit])

theorem exitsOf_edge_leave (builder : Builder) : exitsOf (builder.edge? .leave).toList = [] := by
  rw [edge?]
  cases builder.loops <;> rfl

/-- A token that moves the current node takes its exit, or drops it; all that is due elsewhere stays. -/
theorem Takes.due_of_moves (taken : builder.Takes index token next) (moves : token ≠ .leave)
    (inside : place < builder.nodes.length) :
    next.due place = (builder.scopes.filter (·.node = place)).map (·.kind.past) := by
  have here : place ≠ builder.nodes.length := Nat.ne_of_lt inside
  cases taken with
  | act operation => simp [due, here]
  | branch symbol => simp [due, openBranch, here, Ne.symm here]
  | loop => simp [due, openLoop, here, Ne.symm here]
  | leave => exact absurd rfl moves
  | @closeBranch node opened outer innermost =>
      by_cases atTest : node = place
      · simp [due, Builder.closeBranch, innermost, atTest, BlockKind.past, Exit.condition]
      · simp [due, Builder.closeBranch, innermost, atTest, Ne.symm atTest]
  | @closeLoop node opened outer innermost =>
      by_cases atTest : node = place
      · simp [due, Builder.closeLoop, innermost, atTest, BlockKind.past, Exit.condition]
      · simp [due, Builder.closeLoop, innermost, atTest, Ne.symm atTest]

theorem due_leave (builder : Builder) : builder.leave.due = builder.due := by
  funext place
  simp [due]

/-- The exits that a node gets and those that are due at it afterwards were due at it before. -/
theorem Reads.due_sublist (reads : builder.Reads index token next)
    (inside : place < builder.nodes.length) :
    (exitsOf (if place = builder.current then (builder.edge? token).toList else []) ++
      next.due place).Sublist (builder.due place) := by
  cases reads with
  | ends =>
      have kept : (builder.addNode .endProgram .endOfFile).due place = builder.due place := rfl
      rw [kept]
      split <;> simp [edge?, exitsOf, Condition.isExit]
  | takes taken =>
      by_cases stays : token = .leave
      · subst stays
        cases taken.unique .leave
        rw [due_leave]
        split <;> simp [exitsOf_edge_leave]
      · rw [taken.due_of_moves stays inside, due]
        apply List.Sublist.append ?_ (List.Sublist.refl _)
        split
        · rcases builder.exitsOf_edge token with none | one
          · simp [none]
          · simp [one]
        · exact List.nil_sublist _

theorem Sound.fresh (sound : builder.Sound) (instruction : Instruction) (condition : Condition) :
    (builder.addNode instruction condition).nodes[builder.nodes.length]? =
      some ⟨builder.nodes.length, instruction, []⟩ :=
  addNode_fresh instruction condition sound.current_lt

theorem Sound.filter_scopes_fresh (sound : builder.Sound) :
    builder.scopes.filter (·.node = builder.nodes.length) = [] := by
  apply List.filter_eq_nil_iff.mpr
  intro scope member
  have below := sound.scope_lt member
  simp only [decide_eq_true_eq]
  omega

/-- A new node has no edges, and all its exits are due. Only the token for a loop adds a loop. -/
theorem Reads.fresh (reads : builder.Reads index token next) (sound : builder.Sound)
    (outside : ¬ place < builder.nodes.length) (found : next.nodes[place]? = some node) :
    place = builder.nodes.length ∧ node.edges = [] ∧
      next.due place = node.instruction.exits ∧ (node.instruction = .loop → token = .loop) := by
  have none := sound.filter_scopes_fresh
  have other : builder.nodes.length ≠ builder.current := Nat.ne_of_gt sound.current_lt
  obtain ⟨rfl, _, bare⟩ : place = builder.nodes.length ∧ node.id = place ∧ node.edges = [] := by
    rcases (reads.grows sound).node_cases sound.current_lt found with ⟨old, _, foundOld, _⟩ | fresh
    · exact absurd (List.getElem?_eq_some_iff.mp foundOld).1 outside
    · exact fresh
  refine ⟨rfl, bare, ?_⟩
  cases reads with
  | ends =>
      cases (sound.fresh .endProgram .endOfFile).symm.trans found
      refine ⟨?_, by intro isLoop; cases isLoop⟩
      simp [due, other, none, Instruction.exits, addNode, link]
  | takes taken =>
      cases taken with
      | act operation =>
          cases (sound.fresh operation.instruction builder.exit.condition).symm.trans found
          refine ⟨?_, by intro isLoop; cases operation <;> cases isLoop⟩
          simp [due, none, operation.exits_instruction, Exit.condition, advance, addNode, link]
      | branch symbol =>
          cases (sound.fresh (.ifRead symbol) builder.exit.condition).symm.trans found
          refine ⟨?_, by intro isLoop; cases isLoop⟩
          simp [due, openBranch, none, Instruction.exits, Exit.condition, BlockKind.past, advance]
      | loop =>
          cases (sound.fresh .loop builder.exit.condition).symm.trans found
          refine ⟨?_, fun _ => rfl⟩
          simp [due, openLoop, none, Instruction.exits, Exit.condition, BlockKind.past, advance]
      | leave =>
          rw [due_leave]
          unfold Builder.leave at found
          cases loops : builder.loops with
          | nil =>
              rw [loops] at found
              cases (sound.fresh .finish .programFinished).symm.trans found
              refine ⟨?_, by intro isLoop; cases isLoop⟩
              simp [due, other, none, Instruction.exits]
          | cons innermost outer =>
              rw [loops] at found
              have within := (List.getElem?_eq_some_iff.mp found).1
              simp at within
      | closeBranch _ =>
          have within := (List.getElem?_eq_some_iff.mp found).1
          simp at within
      | closeLoop _ =>
          have within := (List.getElem?_eq_some_iff.mp found).1
          simp [Builder.closeLoop] at within

/-- A node is an old one, with the edge of the token added if it is the current one, or new. -/
theorem Reads.node_cases (reads : builder.Reads index token next) (sound : builder.Sound)
    (found : next.nodes[place]? = some node) :
    (∃ old, builder.nodes[place]? = some old ∧ place < builder.nodes.length ∧
        node = { old with
          edges := old.edges ++
            if place = builder.current then (builder.edge? token).toList else [] }) ∨
      (place = builder.nodes.length ∧ node.edges = [] ∧
        next.due place = node.instruction.exits ∧ (node.instruction = .loop → token = .loop)) := by
  by_cases inside : place < builder.nodes.length
  · obtain ⟨old, foundOld, grown⟩ := reads.adds inside
    rw [grown] at found
    exact .inl ⟨old, foundOld, inside, (Option.some.inj found).symm⟩
  · exact .inr (reads.fresh sound inside found)

theorem Reads.continueCount_eq (reads : builder.Reads index token next) (sound : builder.Sound)
    (place : Nat) :
    next.graph.continueCount place =
      (builder.edge? token).toList.countP (· = ⟨place, .continueLoop⟩) +
        builder.graph.continueCount place := by
  rw [Graph.continueCount, (reads.edges_perm sound).countP_eq, List.countP_append, List.countP_map]
  rfl

/-- A loop goes off the stack with the edge that leads back to it. -/
theorem Reads.loops_count (reads : builder.Reads index token next) (sound : builder.Sound)
    (inside : place < builder.nodes.length) :
    (builder.edge? token).toList.countP (· = ⟨place, .continueLoop⟩) + next.loops.count place =
      builder.loops.count place := by
  have pending : builder.exit.condition ≠ .continueLoop := builder.exit.condition_ne rfl
  cases reads with
  | ends => simp [edge?, addNode, link]
  | takes taken =>
      cases taken with
      | act operation => simp [edge?_operation, pending, advance, addNode, link]
      | branch symbol => simp [edge?, pending, openBranch, advance, addNode, link]
      | loop =>
          have other : builder.nodes.length ≠ place := Nat.ne_of_gt inside
          simp [edge?, pending, openLoop, other]
      | leave =>
          rw [edge?, leave_loops]
          cases builder.loops <;> simp
      | @closeBranch node opened outer innermost =>
          by_cases atTest : builder.current = node
          · simp [edge?, innermost, atTest]
          · simp [edge?, innermost, atTest, pending]
      | @closeLoop node opened outer innermost =>
          have loops := sound.loops_eq
          rw [innermost] at loops
          by_cases here : node = place
          · simp [edge?, innermost, Builder.closeLoop, loops, here, Nat.add_comm]
          · simp [edge?, innermost, Builder.closeLoop, loops, here]

theorem Sound.loops_count_fresh (sound : builder.Sound) :
    builder.loops.count builder.nodes.length = 0 := by
  apply List.count_eq_zero.mpr
  intro member
  rw [sound.loops_eq] at member
  obtain ⟨scope, inside, same⟩ := List.mem_map.mp member
  have below := sound.scope_lt (List.mem_filter.mp inside).1
  omega

theorem Sound.continueCount_fresh (sound : builder.Sound) :
    builder.graph.continueCount builder.nodes.length = 0 := by
  apply List.countP_eq_zero.mpr
  rintro ⟨source, edge⟩ member same
  have below := sound.rooted.target_lt source edge member
  simp only [decide_eq_true_eq] at same
  simp [same] at below

/-- The exits that a node has, with those that are due behind them, are among those of its
instruction, and a node without exits has no edges at all. Edges fit the nodes they lead to, and a
loop is led back to once it is closed. -/
structure Labelled (builder : Builder) : Prop where
  exits : ∀ (place : Nat) (node : Node), builder.nodes[place]? = some node →
    (exitsOf node.edges ++ builder.due place).Sublist node.instruction.exits
  ends : ∀ (place : Nat) (node : Node), builder.nodes[place]? = some node →
    node.instruction.exits = [] → node.edges = []
  fitted : builder.graph.Fitted
  continues : ∀ (place : Nat) (node : Node), builder.nodes[place]? = some node →
    node.instruction = .loop → builder.graph.continueCount place + builder.loops.count place = 1

theorem initial_labelled : initial.Labelled where
  exits := by
    intro place node found
    cases place with
    | zero => cases found; decide
    | succ place => cases found
  ends := by
    intro place node found
    cases place with
    | zero => cases found; nofun
    | succ place => cases found
  fitted := by intro source edge member; cases member
  continues := by
    intro place node found
    cases place with
    | zero => cases found; nofun
    | succ place => cases found

namespace Labelled

theorem current_exits_ne (labelled : builder.Labelled)
    (found : builder.nodes[builder.current]? = some node) : node.instruction.exits ≠ [] := by
  intro none
  have exits := labelled.exits builder.current node found
  rw [none] at exits
  simp [due] at exits

theorem past_mem_exits (labelled : builder.Labelled) (sound : builder.Sound) {scope : Scope}
    (member : scope ∈ builder.scopes) :
    ∃ node, builder.nodes[scope.node]? = some node ∧ scope.kind.past ∈ node.instruction.exits := by
  have found := List.getElem?_eq_getElem (sound.scope_lt member)
  refine ⟨_, found, (labelled.exits scope.node _ found).subset ?_⟩
  apply List.mem_append_right
  apply List.mem_append_right
  exact List.mem_map.mpr ⟨scope, List.mem_filter.mpr ⟨member, by simp⟩, rfl⟩

theorem loop_of_mem (labelled : builder.Labelled) (sound : builder.Sound) {head : Nat}
    (member : head ∈ builder.loops) :
    ∃ node, builder.nodes[head]? = some node ∧ node.instruction = .loop := by
  rw [sound.loops_eq] at member
  obtain ⟨scope, inside, rfl⟩ := List.mem_map.mp member
  obtain ⟨member, isLoop⟩ := List.mem_filter.mp inside
  obtain ⟨node, found, past⟩ := labelled.past_mem_exits sound member
  rw [of_decide_eq_true isLoop] at past
  exact ⟨node, found, Instruction.eq_loop past (.inr rfl)⟩

/-- The edge that a node was added with. -/
theorem entry (labelled : builder.Labelled) (sound : builder.Sound)
    (found : builder.nodes[place]? = some node) (added : node.instruction ≠ .start) :
    ∃ source condition, source < place ∧ (source, ⟨place, condition⟩) ∈ builder.graph.edges ∧
      (Edge.mk place condition).Fits source node.instruction ∧
      (builder.graph.edges.filter fun (source, edge) => edge.target = place ∧ source < place) =
        [(source, ⟨place, condition⟩)] := by
  have positive : 0 < place := by
    obtain ⟨edges, start⟩ := sound.start
    rcases Nat.eq_zero_or_pos place with rfl | positive
    · rw [start] at found
      cases found
      exact absurd rfl added
    · exact positive
  obtain ⟨source, condition, ahead, member, only⟩ :=
    sound.rooted.entry positive (List.getElem?_eq_some_iff.mp found).1
  obtain ⟨goal, foundGoal, fits⟩ := labelled.fitted source _ member
  rw [graph_nodes, found] at foundGoal
  cases foundGoal
  exact ⟨source, condition, ahead, member, fits, only⟩

theorem exits_step (labelled : builder.Labelled) (sound : builder.Sound)
    (reads : builder.Reads index token next) (found : next.nodes[place]? = some node) :
    (exitsOf node.edges ++ next.due place).Sublist node.instruction.exits := by
  rcases reads.node_cases sound found with ⟨old, foundOld, inside, rfl⟩ | ⟨_, bare, due, _⟩
  · rw [exitsOf_append, List.append_assoc]
    have kept := (List.Sublist.refl (exitsOf old.edges)).append (reads.due_sublist inside)
    exact kept.trans (labelled.exits place old foundOld)
  · simp [bare, due]

theorem ends_step (labelled : builder.Labelled) (sound : builder.Sound)
    (reads : builder.Reads index token next) (found : next.nodes[place]? = some node)
    (none : node.instruction.exits = []) : node.edges = [] := by
  rcases reads.node_cases sound found with ⟨old, foundOld, _, rfl⟩ | ⟨_, bare, _⟩
  · have away : place ≠ builder.current := by
      rintro rfl
      exact labelled.current_exits_ne foundOld none
    simpa [away] using labelled.ends place old foundOld none
  · exact bare

theorem edge_fits (labelled : builder.Labelled) (sound : builder.Sound)
    (reads : builder.Reads index token next) {edge : Edge}
    (emitted : builder.edge? token = some edge) :
    ∃ goal, next.nodes[edge.target]? = some goal ∧ edge.Fits builder.current goal.instruction := by
  have ahead := sound.current_lt
  have grows := reads.grows sound
  cases reads with
  | ends =>
      cases emitted
      exact ⟨_, sound.fresh .endProgram .endOfFile, .last ahead⟩
  | takes taken =>
      cases taken with
      | act operation =>
          rw [edge?_operation] at emitted
          cases emitted
          refine ⟨_, sound.fresh operation.instruction builder.exit.condition, .onward _ ahead ?_⟩
          simp [operation.exits_instruction]
      | branch symbol =>
          cases emitted
          exact ⟨_, sound.fresh (.ifRead symbol) builder.exit.condition, .onward _ ahead nofun⟩
      | loop =>
          cases emitted
          exact ⟨_, sound.fresh .loop builder.exit.condition, .onward _ ahead nofun⟩
      | leave =>
          rw [edge?] at emitted
          unfold Builder.leave at grows ⊢
          cases loops : builder.loops with
          | nil =>
              rw [loops] at emitted
              cases emitted
              exact ⟨_, sound.fresh .finish .programFinished, .stop ahead⟩
          | cons innermost outer =>
              rw [loops] at emitted grows
              cases emitted
              obtain ⟨goal, found, isLoop⟩ :=
                labelled.loop_of_mem sound (loops ▸ List.mem_cons_self)
              obtain ⟨_, kept⟩ := grows.keeps found
              refine ⟨_, kept, ?_⟩
              rw [isLoop]
              exact .again _ _ (.inl rfl)
      | @closeBranch node opened outer innermost =>
          simp only [edge?, innermost] at emitted
          split at emitted
          · cases emitted
          · rename_i away
            cases emitted
            obtain ⟨goal, found, past⟩ :=
              labelled.past_mem_exits sound (innermost ▸ List.mem_cons_self)
            obtain ⟨symbol, isTest⟩ := Instruction.eq_ifRead past (.inr rfl)
            obtain ⟨_, kept⟩ := grows.keeps found
            have passed : ¬ builder.exit.Enters := by
              intro entered
              obtain ⟨scope, _, top, here⟩ := sound.entering entered
              rw [innermost] at top
              cases top
              exact away here.symm
            refine ⟨_, kept, ?_⟩
            rw [isTest]
            exact .around passed _ _ symbol
      | @closeLoop node opened outer innermost =>
          simp only [edge?, innermost] at emitted
          cases emitted
          obtain ⟨goal, found, past⟩ :=
            labelled.past_mem_exits sound (innermost ▸ List.mem_cons_self)
          have isLoop := Instruction.eq_loop past (.inr rfl)
          obtain ⟨_, kept⟩ := grows.keeps found
          refine ⟨_, kept, ?_⟩
          rw [isLoop]
          exact .again _ _ (.inr rfl)

theorem fitted_step (labelled : builder.Labelled) (sound : builder.Sound)
    (reads : builder.Reads index token next) : next.graph.Fitted := by
  intro source edge member
  rw [(reads.edges_perm sound).mem_iff, List.mem_append] at member
  rcases member with added | member
  · obtain ⟨other, emitted, same⟩ := List.mem_map.mp added
    cases same
    exact labelled.edge_fits sound reads (Option.mem_toList.mp emitted)
  · obtain ⟨goal, found, fits⟩ := labelled.fitted source edge member
    obtain ⟨_, kept⟩ := (reads.grows sound).keeps found
    exact ⟨_, kept, fits⟩

theorem continues_step (labelled : builder.Labelled) (sound : builder.Sound)
    (reads : builder.Reads index token next) (found : next.nodes[place]? = some node)
    (isLoop : node.instruction = .loop) :
    next.graph.continueCount place + next.loops.count place = 1 := by
  rw [reads.continueCount_eq sound]
  rcases reads.node_cases sound found with ⟨old, foundOld, inside, rfl⟩ | ⟨rfl, _, _, opened⟩
  · have balance := reads.loops_count sound inside
    have before := labelled.continues place old foundOld isLoop
    omega
  · have fresh := sound.loops_count_fresh
    have none := sound.continueCount_fresh
    cases opened isLoop
    cases reads with
    | takes taken =>
        cases taken.unique .loop
        have pending : builder.exit.condition ≠ .continueLoop := builder.exit.condition_ne rfl
        simp [edge?, openLoop, pending, none, fresh]

theorem step (labelled : builder.Labelled) (sound : builder.Sound)
    (reads : builder.Reads index token next) : next.Labelled where
  exits _ _ found := labelled.exits_step sound reads found
  ends _ _ found := labelled.ends_step sound reads found
  fitted := labelled.fitted_step sound reads
  continues _ _ found := labelled.continues_step sound reads found

end Labelled

theorem Reached.labelled (reached : Reached tokens builder) : builder.Labelled := by
  induction reached with
  | initial => exact initial_labelled
  | step reached taken ih => exact ih.step reached.sound (.takes taken)

end Builder

end TapeFlow
