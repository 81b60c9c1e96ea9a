import TapeFlow.Proofs.Behaviour
import TapeFlow.Proofs.Trail

namespace TapeFlow

/-! One program behind another. The graph of the second takes the place of the end of the first:
what leaves its start leaves the node that led to the end, and its numbers go on from there. The
compiler does to a fragment behind another what it does to the fragment alone, and so the same holds
of whole programs. -/

def Edge.shift (edge : Edge) (offset : Nat) : Edge :=
  { edge with target := edge.target + offset }

/-- The condition of an edge from a start, at a node that control leaves under another one. -/
def Condition.resume (condition past : Condition) : Condition :=
  if condition = .always then past else condition

def Edge.resume (edge : Edge) (offset : Nat) (past : Condition) : Edge :=
  ⟨edge.target + offset, edge.condition.resume past⟩

def Node.shift (node : Node) (offset : Nat) : Node :=
  { node with id := node.id + offset, edges := node.edges.map (·.shift offset) }

def Node.extend (node : Node) (more : List Edge) : Node :=
  { node with edges := node.edges ++ more }

/-- The condition under which control goes on behind a node and its block. -/
def Instruction.past? : Instruction → Option Condition
  | .ifRead _ => some .onFalse
  | .loop => some .endLoop
  | .finish => none
  | .endProgram => none
  | _ => some .always

theorem Instruction.past?_eq {instruction : Instruction} {exit : Exit}
    (member : exit.condition ∈ instruction.exits) (passed : ¬ exit.Enters) :
    instruction.past? = some exit.condition := by
  cases exit <;> cases instruction <;>
    simp_all [exits, past?, Exit.condition, Exit.Enters]

/-- Nodes with those of another graph behind them: its start becomes the source, and the numbers of
the others are shifted. -/
def splice (nodes : List Node) (source offset : Nat) (past : Condition) : List Node → List Node
  | [] => nodes
  | start :: rest =>
    nodes.modify source (·.extend (start.edges.map (·.resume offset past))) ++
      rest.map (·.shift offset)

namespace Graph

/-- The nodes of a graph without that for its end, and without the edge that leads there. -/
def unended (graph : Graph) (ended source : Nat) : List Node :=
  (graph.nodes.eraseIdx ended).modify source fun node => { node with edges := node.edges.dropLast }

/-- One graph with another in place of its end. -/
def followedBy (graph after : Graph) (ended source : Nat) (past : Condition) : Graph :=
  ⟨splice (graph.unended ended source) source (ended - 1) past after.nodes⟩

end Graph

section Modify

variable {α β : Type} {left right items : List α} {place : Nat} {change : α → α}

theorem modify_append_left (inside : place < left.length) :
    (left ++ right).modify place change = left.modify place change ++ right := by
  induction left generalizing place with
  | nil => cases inside
  | cons first rest ih =>
      cases place with
      | zero => rfl
      | succ place => simp [ih (Nat.lt_of_succ_lt_succ inside)]

theorem map_modify {view : α → β} {changed : β → β}
    (same : ∀ item, view (change item) = changed (view item)) :
    (items.modify place change).map view = (items.map view).modify place changed := by
  induction items generalizing place with
  | nil => simp
  | cons first rest ih =>
      cases place with
      | zero => simp [same]
      | succ place => simp [ih]

end Modify

section Splice

variable {nodes others : List Node} {source offset : Nat} {past : Condition}

theorem length_splice (size : nodes.length = offset + 1) (positive : 0 < others.length) :
    (splice nodes source offset past others).length = others.length + offset := by
  cases others with
  | nil => cases positive
  | cons start rest =>
      simp only [splice, List.length_append, List.length_modify, List.length_map, List.length_cons,
        size]
      omega

theorem splice_append (positive : 0 < others.length) (more : List Node) :
    splice nodes source offset past (others ++ more) =
      splice nodes source offset past others ++ more.map (·.shift offset) := by
  cases others with
  | nil => cases positive
  | cons start rest => simp [splice]

theorem splice_extend_start (inside : source < nodes.length) (positive : 0 < others.length)
    (edge : Edge) :
    splice nodes source offset past (others.modify 0 (·.extend [edge])) =
      (splice nodes source offset past others).modify source
        (·.extend [edge.resume offset past]) := by
  cases others with
  | nil => cases positive
  | cons start rest =>
      simp only [splice, List.modify_zero_cons]
      rw [modify_append_left (by simpa using inside), List.modify_modify_eq]
      simp [Function.comp_def, Node.extend]

theorem splice_extend_rest (size : nodes.length = offset + 1) (positive : 0 < others.length)
    (place : Nat) (edge : Edge) :
    splice nodes source offset past (others.modify (place + 1) (·.extend [edge])) =
      (splice nodes source offset past others).modify (place + 1 + offset)
        (·.extend [edge.shift offset]) := by
  cases others with
  | nil => cases positive
  | cons start rest =>
      have behind : place + 1 + offset = (nodes.modify source
          (·.extend (start.edges.map (·.resume offset past)))).length + place := by
        rw [List.length_modify]
        omega
      have shifted : (rest.modify place (·.extend [edge])).map (·.shift offset) =
          (rest.map (·.shift offset)).modify place (·.extend [edge.shift offset]) := by
        apply map_modify
        simp [Node.shift, Node.extend]
      rw [behind, List.modify_succ_cons]
      simp only [splice, shifted]
      exact (List.modifyTailIdx_add ..).symm

end Splice

namespace Fragment

variable {base fragment : Fragment} {offset : Nat}

/-- The node that a node of a fragment becomes where the fragment stands behind another. -/
def place (base : Fragment) (offset id : Nat) : Nat :=
  if id = 0 then base.current else id + offset

def relabel (base : Fragment) (source : Nat) (condition : Condition) : Condition :=
  if source = 0 then condition.resume base.pending else condition

def join (base fragment : Fragment) (offset : Nat) : Fragment where
  nodes := splice base.nodes base.current offset base.pending fragment.nodes
  current := base.place offset fragment.current
  pending := base.relabel fragment.current fragment.pending

theorem join_initial (base : Fragment) (offset : Nat) : base.join .initial offset = base := by
  have same : (fun node : Node => node.extend []) = id := by
    funext node
    simp [Node.extend]
  simp [join, initial, splice, same, place, relabel, Condition.resume]

theorem relabel_of_ne {condition : Condition} (other : condition ≠ .always) (source : Nat) :
    base.relabel source condition = condition := by
  simp [relabel, Condition.resume, other]

@[simp] theorem length_link (fragment : Fragment) (target : Nat) (condition : Condition) :
    (fragment.link target condition).nodes.length = fragment.nodes.length := by
  simp [link]

@[simp] theorem length_add (fragment : Fragment) (instruction : Instruction)
    (condition : Condition) :
    (fragment.add instruction condition).nodes.length = fragment.nodes.length + 1 := by
  simp [add]

@[simp] theorem length_enter (fragment : Fragment) (instruction : Instruction)
    (pending : Condition) :
    (fragment.enter instruction pending).nodes.length = fragment.nodes.length + 1 := by
  simp [enter]

@[simp] theorem length_closeBranch (fragment : Fragment) (test : Nat) :
    (fragment.closeBranch test).nodes.length = fragment.nodes.length := by
  by_cases atTest : fragment.current = test <;> simp [closeBranch, atTest]

@[simp] theorem length_closeLoop (fragment : Fragment) (head : Nat) :
    (fragment.closeLoop head).nodes.length = fragment.nodes.length := by
  simp [closeLoop]

def push (fragment : Fragment) (instruction : Instruction) : Fragment :=
  { fragment with nodes := fragment.nodes ++ [⟨fragment.nodes.length, instruction, []⟩] }

theorem add_eq (fragment : Fragment) (instruction : Instruction) (condition : Condition) :
    fragment.add instruction condition =
      (fragment.push instruction).link fragment.nodes.length condition := rfl

theorem join_at {id : Nat} (behind : id ≠ 0) (pending : Condition) :
    base.join { fragment with current := id, pending := pending } offset =
      { base.join fragment offset with current := id + offset, pending := pending } := by
  simp [join, place, relabel, behind]

section Join

variable (inside : base.current ≤ offset) (size : base.nodes.length = offset + 1)
  (positive : 0 < fragment.nodes.length)

include size positive

theorem length_join :
    (base.join fragment offset).nodes.length = fragment.nodes.length + offset :=
  length_splice size positive

theorem join_push (instruction : Instruction) :
    base.join (fragment.push instruction) offset =
      (base.join fragment offset).push instruction := by
  rw [push, push, length_join size positive]
  exact congrArg (Fragment.mk · _ _) (splice_append positive _)

include inside

theorem join_link (target : Nat) (condition : Condition) :
    base.join (fragment.link target condition) offset =
      (base.join fragment offset).link (target + offset)
        (base.relabel fragment.current condition) := by
  obtain ⟨nodes, current, pending⟩ := fragment
  cases current with
  | zero =>
      exact congrArg (Fragment.mk · _ _)
        (splice_extend_start (size ▸ Nat.lt_succ_of_le inside) positive ⟨target, condition⟩)
  | succ current =>
      exact congrArg (Fragment.mk · _ _)
        (splice_extend_rest size positive current ⟨target, condition⟩)

theorem join_add (instruction : Instruction) (condition : Condition) :
    base.join (fragment.add instruction condition) offset =
      (base.join fragment offset).add instruction (base.relabel fragment.current condition) := by
  have pushed : 0 < (fragment.push instruction).nodes.length := by simp [push]
  rw [add_eq, add_eq, join_link inside size pushed, join_push size positive,
    length_join size positive]
  rfl

theorem join_enter (instruction : Instruction) (pending : Condition) :
    base.join (fragment.enter instruction pending) offset =
      (base.join fragment offset).enter instruction pending := by
  have behind := Nat.pos_iff_ne_zero.mp positive
  rw [enter, enter, length_join size positive, join_at behind, join_add inside size positive]
  rfl

theorem join_closeBranch {test : Nat} (behind : test ≠ 0) :
    base.join (fragment.closeBranch test) offset =
      (base.join fragment offset).closeBranch (test + offset) := by
  -- The numbers behind the first fragment start at its size, so nothing of it is taken for the test.
  have same : (base.join fragment offset).current = test + offset ↔ fragment.current = test := by
    simp only [join, place]
    split <;> omega
  rw [closeBranch, closeBranch, join_at behind]
  by_cases atTest : fragment.current = test
  · rw [if_pos atTest, if_pos (same.mpr atTest)]
  · rw [if_neg atTest, if_neg (mt same.mp atTest), join_link inside size positive]
    rfl

theorem join_closeLoop {head : Nat} (behind : head ≠ 0) :
    base.join (fragment.closeLoop head) offset =
      (base.join fragment offset).closeLoop (head + offset) := by
  rw [closeLoop, closeLoop, join_at behind, join_link inside size positive,
    relabel_of_ne (by decide)]

end Join

end Fragment

namespace Program

theorem compile_append (program after : Program) (enclosing : Option Nat) (fragment : Fragment) :
    (program.append after).compile enclosing fragment =
      after.compile enclosing (program.compile enclosing fragment) := by
  induction program generalizing fragment with
  | done => rfl
  | act operation rest ih => exact ih _
  | leave rest ih => cases enclosing <;> exact ih _
  | branch symbol body rest _ ih => exact ih _
  | loop body rest _ ih => exact ih _

theorem compile_nodes_pos (program : Program) (enclosing : Option Nat) (fragment : Fragment)
    (positive : 0 < fragment.nodes.length) :
    0 < (program.compile enclosing fragment).nodes.length := by
  induction program generalizing enclosing fragment with
  | done => exact positive
  | act operation rest ih => exact ih _ _ (by simp)
  | leave rest ih =>
      cases enclosing with
      | none => exact ih _ _ (by simp)
      | some head => exact ih _ _ (by simpa using positive)
  | branch symbol body rest bodyIH restIH =>
      have inner := bodyIH enclosing (fragment.enter (.ifRead symbol) .onTrue) (by simp)
      exact restIH _ _ (by simpa using inner)
  | loop body rest bodyIH restIH =>
      have inner := bodyIH (some fragment.nodes.length) (fragment.enter .loop .startLoop) (by simp)
      exact restIH _ _ (by simpa using inner)

/-- Behind a fragment, a program comes to what it comes to alone, joined to the fragment. -/
theorem compile_join {base : Fragment} {offset : Nat} (inside : base.current ≤ offset)
    (size : base.nodes.length = offset + 1) (program : Program) (enclosing : Option Nat)
    (fragment : Fragment) (positive : 0 < fragment.nodes.length) :
    program.compile (enclosing.map (· + offset)) (base.join fragment offset) =
      base.join (program.compile enclosing fragment) offset := by
  -- Every step of the compiler goes through the join. Where control leaves the start it does so under
  -- the pending condition, which the join has already replaced.
  induction program generalizing enclosing fragment with
  | done => rfl
  | act operation rest ih =>
      rw [compile, ← Fragment.join_enter inside size positive, ih _ _ (by simp), compile]
  | leave rest ih =>
      cases enclosing with
      | none =>
          have added := Fragment.join_add inside size positive .finish .programFinished
          rw [Fragment.relabel_of_ne (by decide)] at added
          rw [Option.map_none, compile, ← added]
          exact ih none _ (by simp)
      | some head =>
          have linked := Fragment.join_link inside size positive head .breakLoop
          rw [Fragment.relabel_of_ne (by decide)] at linked
          rw [Option.map_some, compile, ← linked]
          exact ih (some head) _ (by simpa using positive)
  | branch symbol body rest bodyIH restIH =>
      let inner := body.compile enclosing (fragment.enter (.ifRead symbol) .onTrue)
      have innerPositive : 0 < inner.nodes.length := body.compile_nodes_pos _ _ (by simp)
      have closed := Fragment.join_closeBranch inside size innerPositive (Nat.ne_of_gt positive)
      rw [compile, ← Fragment.join_enter inside size positive, bodyIH _ _ (by simp),
        Fragment.length_join size positive, ← closed]
      exact restIH enclosing _ (by simpa using innerPositive)
  | loop body rest bodyIH restIH =>
      let inner := body.compile (some fragment.nodes.length) (fragment.enter .loop .startLoop)
      have innerPositive : 0 < inner.nodes.length := body.compile_nodes_pos _ _ (by simp)
      have closed := Fragment.join_closeLoop inside size innerPositive (Nat.ne_of_gt positive)
      have innerIH := bodyIH (some fragment.nodes.length) (fragment.enter .loop .startLoop)
        (by simp)
      rw [compile, ← Fragment.join_enter inside size positive, Fragment.length_join size positive,
        ← Option.map_some (f := (· + offset)), innerIH, ← closed]
      exact restIH enclosing _ (by simpa using innerPositive)

/-- The graph of a program behind another is spliced to what the other comes to before its end. -/
theorem graph_append {program : Program} {base : Fragment}
    (compiled : program.compile none .initial = base) (inside : base.current < base.nodes.length)
    (after : Program) :
    (program.append after).graph =
      ⟨splice base.nodes base.current (base.nodes.length - 1) base.pending after.graph.nodes⟩ := by
  have behind : base.current ≤ base.nodes.length - 1 := Nat.le_sub_one_of_lt inside
  have size : base.nodes.length = base.nodes.length - 1 + 1 := by omega
  have joined := after.compile_join behind size none .initial (by decide)
  rw [Fragment.join_initial] at joined
  have positive := after.compile_nodes_pos none .initial (by decide)
  have added := Fragment.join_add behind size positive .endProgram .endOfFile
  rw [Fragment.relabel_of_ne (by decide), ← joined] at added
  rw [graph, compile_append, compiled]
  exact congrArg (Graph.mk ·.nodes) added.symm

theorem reached (program : Program) :
    ∃ last, Builder.Reached program.tokens last ∧ last.scopes = [] ∧
      program.compile none .initial = last.fragment := by
  obtain ⟨last, fed, same, scopes, _⟩ := Builder.feeds_program program .initial 0
  exact ⟨last, Builder.Reached.initial.feeds fed rfl, scopes, same.symm⟩

theorem eq_tokens_of_build {tokens : List Token} {graph : Graph} (unended : .endOfFile ∉ tokens)
    (built : build (tokens ++ [.endOfFile]) = .ok graph) :
    ∃ program : Program, tokens = program.tokens ∧ graph = program.graph := by
  obtain ⟨program, rest, split⟩ := Builder.tokens_of_build built
  obtain ⟨rfl, _, rfl⟩ := (List.append_cons_inj_of_notMem unended List.not_mem_nil).mp split
  rw [Builder.build_tokens] at built
  cases built
  exact ⟨program, rfl, rfl⟩

end Program

namespace Builder

variable {last : Builder} {tokens : List Token}

/-- Taking the end away again leaves the nodes that were there before it. -/
theorem unended_addNode (inside : last.current < last.nodes.length) :
    (last.addNode .endProgram .endOfFile).graph.unended last.nodes.length last.current =
      last.nodes := by
  have added : (last.addNode .endProgram .endOfFile).nodes =
      (last.nodes ++ [Node.mk last.nodes.length .endProgram []]).modify last.current
        fun node : Node => node.extend [⟨last.nodes.length, .endOfFile⟩] := rfl
  have undone : (fun node : Node => { node with edges := node.edges.dropLast }) ∘
      (fun node : Node => node.extend [⟨last.nodes.length, .endOfFile⟩]) = id := by
    funext node
    simp [Node.extend]
  rw [Graph.unended, List.modify_eraseIdx_of_lt _ _ _ _ inside, graph_nodes, added,
    List.modify_modify_eq, undone, List.modify_id]
  simp [List.eraseIdx_append_of_length_le]

/-- With no block open, the edge to the end comes last at the current node, in the place of its way
past. -/
theorem Reached.exit_node (reached : Reached tokens last) (closed : last.scopes = []) :
    ∃ exit, (last.addNode .endProgram .endOfFile).graph.node? last.current = some exit ∧
      exit.edges.getLast? = some ⟨last.nodes.length, .endOfFile⟩ ∧
      exit.instruction.past? = some last.exit.condition := by
  have sound := reached.sound
  have passed : ¬ last.exit.Enters := by
    intro enters
    obtain ⟨scope, outer, innermost, _⟩ := sound.entering enters
    rw [closed] at innermost
    cases innermost
  obtain ⟨node, found, grown⟩ := last.reads_end.adds sound.current_lt
  rw [if_pos rfl] at grown
  have exits := reached.labelled.exits last.current node found
  have member : last.exit.condition ∈ node.instruction.exits := by
    apply exits.subset
    simp [due]
  exact ⟨_, grown, List.getLast?_concat .., Instruction.past?_eq member passed⟩

end Builder

/-- The graph of one program behind another is that of the first, with that of the second in place of
its end. -/
theorem build_append {left right : List Token} {first second : Graph}
    (leftUnended : .endOfFile ∉ left) (rightUnended : .endOfFile ∉ right)
    (leftBuilt : build (left ++ [.endOfFile]) = .ok first)
    (rightBuilt : build (right ++ [.endOfFile]) = .ok second) :
    ∃ ended source exit past,
      first.endNode? = some ended ∧ first.node? ended.id = some ended ∧
      (first.edges.filter fun (_, edge) => edge.condition = .endOfFile) =
        [(source, ⟨ended.id, .endOfFile⟩)] ∧
      source < ended.id ∧ first.node? source = some exit ∧
      exit.edges.getLast? = some ⟨ended.id, .endOfFile⟩ ∧ exit.instruction.past? = some past ∧
      build (left ++ right ++ [.endOfFile]) =
        .ok (first.followedBy second ended.id source past) := by
  obtain ⟨program, rfl, rfl⟩ := Program.eq_tokens_of_build leftUnended leftBuilt
  obtain ⟨after, rfl, rfl⟩ := Program.eq_tokens_of_build rightUnended rightBuilt
  obtain ⟨last, reached, closed, compiled⟩ := program.reached
  have sound := reached.sound
  have graph_eq : program.graph = (last.addNode .endProgram .endOfFile).graph := by
    rw [Program.graph, compiled]
    rfl
  obtain ⟨exit, found, lastEdge, past⟩ := reached.exit_node closed
  rw [graph_eq, ← Program.tokens_append, Builder.build_tokens,
    Program.graph_append compiled sound.current_lt]
  refine ⟨_, _, exit, _, reached.endNode?_eq, sound.fresh .endProgram .endOfFile,
    reached.end_edges, sound.current_lt, found, lastEdge, past, ?_⟩
  rw [Graph.followedBy, Builder.unended_addNode sound.current_lt]
  rfl

theorem build_append_behind_loop :
    ∃ first second ended source past,
      build [.loop, .branch .one, .leave, .close, .close, .endOfFile] = .ok first ∧
      build [.leave, .branch .zero, .moveRight, .close, .endOfFile] = .ok second ∧
      build [.loop, .branch .one, .leave, .close, .close, .leave, .branch .zero, .moveRight, .close,
        .endOfFile] = .ok (first.followedBy second ended source past) := by
  let left : List Token := [.loop, .branch .one, .leave, .close, .close]
  let right : List Token := [.leave, .branch .zero, .moveRight, .close]
  have leftBuilt : build (left ++ [.endOfFile]) = .ok _ := rfl
  have rightBuilt : build (right ++ [.endOfFile]) = .ok _ := rfl
  obtain ⟨ended, source, _, past, _, _, _, _, _, _, _, built⟩ :=
    build_append (by decide) (by decide) leftBuilt rightBuilt
  exact ⟨_, _, ended.id, source, past, leftBuilt, rightBuilt, built⟩

end TapeFlow
