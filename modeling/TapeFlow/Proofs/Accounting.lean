import Mathlib.Data.Nat.Count
import TapeFlow.Proofs.Enclosure
import TapeFlow.Proofs.Exits
import TapeFlow.Proofs.Validity

namespace TapeFlow

/-! What every token of a program comes to in its graph. A token adds the node of its instruction, if it
has one, and the edge to that node; the other edges are those of leaving a loop and those of coming back
to the test of a block. The openers and closers in front of a token tell which loop it leaves, and the
body of a block tells whether control comes back from it. -/

/-- The instruction that the token at a place stands for. Leaving stops the program outside of all loops
and stands for none inside of one. -/
def instructionAt? (tokens : List Token) (place : Nat) : Option Instruction :=
  match tokens[place]? with
  | none => none
  | some .leave => if (enclosingLoop? tokens place).isSome then none else some .finish
  | some token => token.instruction?

/-- The number of the node that the token at a place adds, behind the start and those of the tokens
before it. -/
def nodeOf (tokens : List Token) (place : Nat) : Nat :=
  ((List.range place).filterMap (instructionAt? tokens)).length + 1

/-- The node of the innermost loop around a token that leaves it. -/
def breakTarget? (tokens : List Token) (place : Nat) : Option Nat :=
  if tokens[place]? = some .leave then (enclosingLoop? tokens place).map (nodeOf tokens) else none

/-- The targets of the edges that leave loops. -/
def Graph.breakTargets (graph : Graph) : List Nat :=
  (graph.edges.filter (·.2.condition = .breakLoop)).map (·.2.target)

/-- The token at a place leaves a loop. -/
def LeavesLoop (tokens : List Token) (place : Nat) : Prop :=
  tokens[place]? = some .leave ∧ (enclosingLoop? tokens place).isSome = true

def OpensLoop (tokens : List Token) (place : Nat) : Prop :=
  blockAt? tokens place = some .loop

/-- The token at a place opens a branch with a token that does more than leave. -/
def OpensFilledBranch (tokens : List Token) (place : Nat) : Prop :=
  blockAt? tokens place = some .branch ∧ Filled tokens place

instance (tokens : List Token) : DecidablePred (LeavesLoop tokens) :=
  fun _ => inferInstanceAs (Decidable (_ ∧ _))

instance (tokens : List Token) : DecidablePred (OpensLoop tokens) :=
  fun place => inferInstanceAs (Decidable (blockAt? tokens place = some .loop))

instance (tokens : List Token) : DecidablePred (OpensFilledBranch tokens) :=
  fun _ => inferInstanceAs (Decidable (_ ∧ _))

/-- Control comes back from the block that the token at a place opens. -/
def Returns (tokens : List Token) (opener : Nat) : Prop :=
  OpensLoop tokens opener ∨ OpensFilledBranch tokens opener

instance (tokens : List Token) : DecidablePred (Returns tokens) :=
  fun _ => inferInstanceAs (Decidable (_ ∨ _))

theorem filterMap_range_succ {α : Type} (value? : Nat → Option α) (place : Nat) :
    (List.range (place + 1)).filterMap value? =
      (List.range place).filterMap value? ++ (value? place).toList := by
  rw [List.range_succ, List.filterMap_append, List.filterMap_cons, List.filterMap_nil]
  cases value? place <;> rfl

/-- Where the value of a place is found, among those of the places before a bound. -/
theorem getElem?_filterMap_range {α : Type} {value? : Nat → Option α} {value : α} {place bound : Nat}
    (found : value? place = some value) (before : place < bound) :
    ((List.range bound).filterMap value?)[((List.range place).filterMap value?).length]? =
      some value := by
  induction bound with
  | zero => cases before
  | succ bound ih =>
      rw [filterMap_range_succ]
      rcases Nat.lt_succ_iff_lt_or_eq.mp before with before | rfl
      · have inside := (List.getElem?_eq_some_iff.mp (ih before)).1
        rw [List.getElem?_append_left inside, ih before]
      · rw [List.getElem?_append_right (Nat.le_refl _), Nat.sub_self, found]
        rfl

section Tokens

variable {tokens : List Token} {token : Token} {place : Nat}

theorem leavesLoop_iff (found : tokens[place]? = some token) :
    LeavesLoop tokens place ↔ token = .leave ∧ (enclosingLoop? tokens place).isSome = true := by
  rw [LeavesLoop, found, Option.some.injEq]

theorem opensLoop_iff (found : tokens[place]? = some token) :
    OpensLoop tokens place ↔ token.block? = some .loop := by
  rw [OpensLoop, blockAt?_of_getElem? found]

theorem opensFilledBranch_iff (found : tokens[place]? = some token) :
    OpensFilledBranch tokens place ↔ token.block? = some .branch ∧ Filled tokens place := by
  rw [OpensFilledBranch, blockAt?_of_getElem? found]

end Tokens

namespace Builder

variable {builder next : Builder} {tokens : List Token} {token : Token} {place : Nat}

/-- Where a token takes a builder: into a block, out of one, nowhere, or on. -/
theorem Takes.scope_cases (taken : builder.Takes place token next) :
    (∃ kind, token.block? = some kind ∧
        next.scopes = ⟨kind, builder.nodes.length, place⟩ :: builder.scopes ∧
        next.current = builder.nodes.length) ∨
      (token = .close ∧ ∃ scope, builder.scopes = scope :: next.scopes ∧
        next.current = scope.node) ∨
      (token = .leave ∧ next.scopes = builder.scopes ∧ next.current = builder.current) ∨
      (token.weight = 0 ∧ token ≠ .leave ∧ next.scopes = builder.scopes ∧
        next.current = builder.nodes.length) := by
  cases taken with
  | act operation =>
      refine .inr (.inr (.inr ⟨?_, ?_, rfl, rfl⟩))
      · cases operation <;> rfl
      · cases operation <;> exact Token.noConfusion
  | branch symbol => exact .inl ⟨.branch, rfl, rfl, rfl⟩
  | loop => exact .inl ⟨.loop, rfl, rfl, rfl⟩
  | leave => exact .inr (.inr (.inl ⟨rfl, leave_scopes builder, leave_current builder⟩))
  | closeBranch innermost => exact .inr (.inl ⟨rfl, _, innermost, rfl⟩)
  | closeLoop innermost => exact .inr (.inl ⟨rfl, _, innermost, rfl⟩)

/-- A block that is open after a token was open before it, or the token opens it. -/
theorem Takes.mem_scopes {scope : Scope} (taken : builder.Takes place token next)
    (member : scope ∈ next.scopes) :
    scope ∈ builder.scopes ∨
      ∃ kind, token.block? = some kind ∧ scope = ⟨kind, builder.nodes.length, place⟩ := by
  rcases taken.scope_cases with ⟨kind, opens, pushed, _⟩ | ⟨_, top, popped, _⟩ | ⟨_, same, _⟩ |
    ⟨_, _, same, _⟩
  · rw [pushed] at member
    rcases List.mem_cons.mp member with added | member
    · exact .inr ⟨kind, opens, added⟩
    · exact .inl member
  · exact .inl (popped ▸ List.mem_cons_of_mem _ member)
  · exact .inl (same ▸ member)
  · exact .inl (same ▸ member)

/-- A token adds to the targets of leaving the one of its edge, if that leaves a loop. -/
theorem Reads.breakTargets (reads : builder.Reads place token next) (sound : builder.Sound) :
    next.graph.breakTargets.Perm
      ((((builder.edge? token).filter (·.condition = .breakLoop)).map (·.target)).toList ++
        builder.graph.breakTargets) := by
  have added := ((reads.edges_perm sound).filter (·.2.condition = .breakLoop)).map (·.2.target)
  rwa [List.filter_append, List.map_append, List.filter_map, List.map_map, ← Graph.breakTargets,
    ← Graph.breakTargets, Function.comp_def, Function.comp_def, ← Option.toList_filter,
    ← Option.toList_map] at added

/-- A builder at a place of a token list has on its stack the blocks that are open there, and its
current node is the test of the innermost one as long as nothing in it did more than leave. -/
structure Tracks (builder : Builder) (tokens : List Token) (place : Nat) : Prop where
  sound : builder.Sound
  stands : builder.StandsAt tokens place
  blocks : builder.scopes.map (·.opened) = openBlocks tokens place
  level : ∀ scope outer, scope :: outer <:+ builder.scopes →
    depth tokens scope.opened = outer.length
  kinds : ∀ scope ∈ builder.scopes, blockAt? tokens scope.opened = some scope.kind
  untouched : ∀ scope outer, builder.scopes = scope :: outer →
    (builder.current = scope.node ↔
      ∀ inner, scope.opened < inner → inner < place → tokens[inner]? = some .leave)

theorem initial_tracks (tokens : List Token) : initial.Tracks tokens 0 where
  sound := initial_sound
  stands := initial_standsAt tokens
  blocks := rfl
  level := by
    intro scope outer part
    cases List.suffix_nil.mp part
  kinds := by intro scope member; cases member
  untouched := by intro scope outer top; cases top

namespace Tracks

variable {scope : Scope} {outer : List Scope}

theorem openAt (tracks : builder.Tracks tokens place) (member : scope ∈ builder.scopes) :
    OpenAt tokens scope.opened place := by
  have opened := List.mem_map_of_mem (f := Scope.opened) member
  rw [tracks.blocks] at opened
  exact mem_openBlocks.mp opened

theorem depth_top (tracks : builder.Tracks tokens place) (top : builder.scopes = scope :: outer) :
    depth tokens place = depth tokens scope.opened + 1 := by
  have level := tracks.level scope outer (top ▸ List.suffix_refl _)
  have counted := tracks.stands.depth_eq
  rw [top, List.length_cons] at counted
  omega

theorem blocks_step (tracks : builder.Tracks tokens place) (found : tokens[place]? = some token)
    (taken : builder.Takes place token next) :
    next.scopes.map (·.opened) = openBlocks tokens (place + 1) := by
  have blocks := tracks.blocks
  rcases taken.scope_cases with ⟨kind, opens, pushed, _⟩ | ⟨rfl, scope, popped, _⟩ | ⟨rfl, same, _⟩ |
    ⟨weight, _, same, _⟩
  · rw [openBlocks_opening found (Token.weight_of_block? opens), pushed, List.map_cons, blocks]
  · have level := tracks.depth_top popped
    rw [popped, List.map_cons] at blocks
    exact (openBlocks_closing found blocks.symm level).symm
  · rw [openBlocks_keeping found rfl, same, blocks]
  · rw [openBlocks_keeping found weight, same, blocks]

theorem level_step (tracks : builder.Tracks tokens place)
    (taken : builder.Takes place token next) (part : scope :: outer <:+ next.scopes) :
    depth tokens scope.opened = outer.length := by
  have level := tracks.level scope outer
  rcases taken.scope_cases with ⟨kind, _, pushed, _⟩ | ⟨_, top, popped, _⟩ | ⟨_, same, _⟩ | ⟨_, _, same, _⟩
  · rw [pushed, List.suffix_cons_iff] at part
    rcases part with added | part
    · cases added
      exact tracks.stands.depth_eq.symm
    · exact level part
  · exact level (popped ▸ part.trans (List.suffix_cons _ _))
  · exact level (same ▸ part)
  · exact level (same ▸ part)

theorem kinds_step (tracks : builder.Tracks tokens place) (found : tokens[place]? = some token)
    (taken : builder.Takes place token next) :
    ∀ scope ∈ next.scopes, blockAt? tokens scope.opened = some scope.kind := by
  intro scope member
  rcases taken.mem_scopes member with member | ⟨kind, opens, rfl⟩
  · exact tracks.kinds scope member
  · exact (blockAt?_of_getElem? found).trans opens

theorem untouched_step (tracks : builder.Tracks tokens place)
    (found : tokens[place]? = some token) (taken : builder.Takes place token next)
    (top : next.scopes = scope :: outer) :
    next.current = scope.node ↔
      ∀ inner, scope.opened < inner → inner < place + 1 → tokens[inner]? = some .leave := by
  -- A token that does more than leave moves on from the test and is a witness against the right side.
  have moved (member : scope ∈ builder.scopes) (other : token ≠ .leave)
      (away : next.current ≠ scope.node) : next.current = scope.node ↔
        ∀ inner, scope.opened < inner → inner < place + 1 → tokens[inner]? = some .leave := by
    refine ⟨fun stays => absurd stays away, fun leaves => ?_⟩
    have here := leaves place (tracks.openAt member).1 (Nat.lt_succ_self _)
    rw [found] at here
    exact absurd (Option.some.inj here) other
  rcases taken.scope_cases with ⟨kind, _, pushed, current⟩ | ⟨rfl, closed, popped, current⟩ |
    ⟨rfl, same, current⟩ | ⟨_, other, same, current⟩
  · rw [pushed] at top
    cases top
    simp only [current, true_iff]
    intro inner after before
    omega
  · rw [top] at popped
    have descending := tracks.sound.descending
    rw [popped, List.pairwise_cons] at descending
    have below := descending.1 scope List.mem_cons_self
    refine moved (by simp [popped]) Token.noConfusion ?_
    omega
  · rw [current, tracks.untouched scope outer (same ▸ top)]
    constructor
    · intro leaves inner after before
      rcases Nat.lt_succ_iff_lt_or_eq.mp before with before | rfl
      · exact leaves inner after before
      · exact found
    · intro leaves inner after before
      exact leaves inner after (Nat.lt_succ_of_lt before)
  · have member : scope ∈ builder.scopes := by simp [← same, top]
    have below := tracks.sound.scope_lt member
    exact moved member other (by omega)

theorem step (tracks : builder.Tracks tokens place) (found : tokens[place]? = some token)
    (taken : builder.Takes place token next) : next.Tracks tokens (place + 1) where
  sound := tracks.sound.step (.takes taken)
  stands := tracks.stands.step found taken
  blocks := tracks.blocks_step found taken
  level := fun _ _ => tracks.level_step taken
  kinds := tracks.kinds_step found taken
  untouched := fun _ _ => tracks.untouched_step found taken

/-- A branch that is closed comes back to its test just if it is filled. -/
theorem current_ne_iff (tracks : builder.Tracks tokens place) (found : tokens[place]? = some .close)
    (top : builder.scopes = scope :: outer) :
    builder.current ≠ scope.node ↔ Filled tokens scope.opened := by
  have opened : OpenAt tokens scope.opened place := tracks.openAt (by simp [top])
  have reached := lt_endPlace tracks.stands.reached found Token.noConfusion
  have level := tracks.depth_top top
  have closes : depth tokens (place + 1) = depth tokens place + -1 := depth_succ found
  rw [filled_iff_of_closing reached opened (by omega), ne_eq, tracks.untouched scope outer top]
  simp only [Classical.not_forall, exists_prop, ne_eq]

end Tracks

/-- The open blocks from which control still has to come back. -/
def pending (builder : Builder) (tokens : List Token) : Nat :=
  builder.scopes.countP (Returns tokens ·.opened)

theorem pending_cons {scope : Scope} {inner outer : Builder}
    (top : inner.scopes = scope :: outer.scopes) :
    inner.pending tokens = outer.pending tokens + if Returns tokens scope.opened then 1 else 0 := by
  rw [pending, top, List.countP_cons, pending]
  simp only [decide_eq_true_eq]

theorem pending_congr {other : Builder} (same : other.scopes = builder.scopes) :
    other.pending tokens = builder.pending tokens := by
  rw [pending, same, pending]

/-- What the tokens before a place come to in the graph of a builder. -/
structure Accounts (builder : Builder) (tokens : List Token) (place : Nat) : Prop
    extends builder.Tracks tokens place where
  tests : ∀ scope ∈ builder.scopes, scope.node = nodeOf tokens scope.opened
  instructions : builder.graph.instructions =
    .start :: (List.range place).filterMap (instructionAt? tokens)
  breaks : builder.graph.breakTargets.Perm ((List.range place).filterMap (breakTarget? tokens))
  edges : builder.graph.edges.length + 1 + builder.pending tokens =
    builder.nodes.length + Nat.count (LeavesLoop tokens) place + Nat.count (OpensLoop tokens) place +
      Nat.count (OpensFilledBranch tokens) place

theorem initial_accounts (tokens : List Token) : initial.Accounts tokens 0 where
  toTracks := initial_tracks tokens
  tests := by intro scope member; cases member
  instructions := rfl
  breaks := .nil
  edges := rfl

namespace Accounts

theorem head?_loops (accounts : builder.Accounts tokens place) :
    builder.loops.head? = (enclosingLoop? tokens place).map (nodeOf tokens) := by
  have kinds : builder.scopes.filter (blockAt? tokens ·.opened = some .loop) =
      builder.scopes.filter (·.kind = .loop) := by
    apply List.filter_congr
    intro scope member
    simp [accounts.kinds scope member]
  have nodes : (builder.scopes.filter (·.kind = .loop)).map (·.node) =
      (builder.scopes.filter (·.kind = .loop)).map (nodeOf tokens ·.opened) := by
    apply List.map_congr_left
    intro scope member
    exact accounts.tests scope (List.mem_filter.mp member).1
  rw [accounts.sound.loops_eq, nodes, enclosingLoop?, ← accounts.blocks, List.find?_map,
    ← List.head?_filter]
  simp only [Function.comp_def, kinds, List.head?_map, Option.map_map]

theorem length_nodes (accounts : builder.Accounts tokens place) :
    builder.nodes.length = nodeOf tokens place := by
  have lengths := congrArg List.length accounts.instructions
  simpa [Graph.instructions, nodeOf] using lengths

/-- A builder is in a loop just if the list is. -/
theorem loops_cases (accounts : builder.Accounts tokens place) :
    (enclosingLoop? tokens place = none ∧ builder.loops = []) ∨
      ∃ opener outer, enclosingLoop? tokens place = some opener ∧
        builder.loops = nodeOf tokens opener :: outer := by
  have loops := accounts.head?_loops
  cases enclosing : enclosingLoop? tokens place with
  | none =>
      rw [enclosing, Option.map_none, List.head?_eq_none_iff] at loops
      exact .inl ⟨rfl, loops⟩
  | some opener =>
      rw [enclosing, Option.map_some, List.head?_eq_some_iff] at loops
      obtain ⟨outer, loops⟩ := loops
      exact .inr ⟨opener, outer, rfl, loops⟩

theorem instruction?_eq (accounts : builder.Accounts tokens place)
    (found : tokens[place]? = some token) (inside : token ≠ .endOfFile) :
    builder.instruction? token = instructionAt? tokens place := by
  cases token with
  | leave =>
      simp only [instructionAt?, found, instruction?]
      rcases accounts.loops_cases with ⟨none, loops⟩ | ⟨opener, outer, enclosing, loops⟩
      · simp [none, loops]
      · simp [enclosing, loops]
  | endOfFile => contradiction
  | _ => simp [instructionAt?, found, instruction?]

theorem edge?_break (accounts : builder.Accounts tokens place)
    (found : tokens[place]? = some token) :
    ((builder.edge? token).filter (·.condition = .breakLoop)).map (·.target) =
      breakTarget? tokens place := by
  have plain : builder.exit.condition ≠ .breakLoop := builder.exit.condition_ne rfl
  cases token with
  | leave =>
      simp only [breakTarget?, found, edge?]
      rcases accounts.loops_cases with ⟨none, loops⟩ | ⟨opener, outer, enclosing, loops⟩
      · simp [none, loops, Option.filter]
      · simp [enclosing, loops, Option.filter]
  | close =>
      simp only [breakTarget?, found, edge?]
      split
      · split <;> simp [Option.filter, plain]
      · simp [Option.filter]
      · simp
  | _ => simp [breakTarget?, found, edge?, Option.filter, plain]

/-- Every token adds an edge for its node, and the edges without a node of their own are those that
leave a loop or come back from a block. -/
theorem balance (accounts : builder.Accounts tokens place)
    (found : tokens[place]? = some token) (taken : builder.Takes place token next) :
    (builder.edge? token).toList.length + next.pending tokens =
      (instructionAt? tokens place).toList.length + builder.pending tokens +
        (if LeavesLoop tokens place then 1 else 0) + (if OpensLoop tokens place then 1 else 0) +
        (if OpensFilledBranch tokens place then 1 else 0) := by
  rw [← accounts.instruction?_eq found taken.not_end]
  simp only [leavesLoop_iff found, opensLoop_iff found, opensFilledBranch_iff found]
  cases taken with
  | act operation =>
      have same : (builder.advance operation.instruction .plain).pending tokens =
          builder.pending tokens := pending_congr rfl
      rw [same, edge?_operation]
      cases operation <;> simp [Operation.token, instruction?, Token.instruction?, Token.block?]
  | branch symbol =>
      have pushed : (builder.openBranch place symbol).pending tokens = _ := pending_cons rfl
      have returns : Returns tokens place ↔ Filled tokens place := by
        simp [Returns, opensLoop_iff found, opensFilledBranch_iff found, Token.block?]
      simp [pushed, returns, edge?, instruction?, Token.instruction?, Token.block?, Nat.add_assoc]
  | loop =>
      have pushed : (builder.openLoop place).pending tokens = _ := pending_cons rfl
      have returns : Returns tokens place := .inl ((opensLoop_iff found).mpr rfl)
      simp [pushed, returns, edge?, instruction?, Token.instruction?, Token.block?, Nat.add_assoc]
  | leave =>
      rw [pending_congr (leave_scopes builder)]
      rcases accounts.loops_cases with ⟨none, loops⟩ | ⟨opener, outer, enclosing, loops⟩
      · simp [none, loops, edge?, instruction?, Token.block?]
      · simp [enclosing, loops, edge?, instruction?, Token.block?, Nat.add_comm]
  | @closeBranch node opened outer innermost =>
      have popped : builder.pending tokens =
          pending { builder.closeBranch node with scopes := outer } tokens + _ :=
        pending_cons innermost
      have kind : blockAt? tokens opened = some .branch :=
        accounts.kinds _ (innermost ▸ List.mem_cons_self)
      have returns : Returns tokens opened ↔ builder.current ≠ node := by
        rw [accounts.current_ne_iff found innermost]
        simp [Returns, OpensLoop, OpensFilledBranch, kind]
      rw [popped]
      by_cases atTest : builder.current = node
      · simp [returns, atTest, innermost, edge?, instruction?, Token.instruction?, Token.block?]
      · simp [returns, atTest, innermost, edge?, instruction?, Token.instruction?, Token.block?,
          Nat.add_comm]
  | @closeLoop node opened outer innermost =>
      have popped : builder.pending tokens =
          pending { builder.closeLoop node with scopes := outer } tokens + _ :=
        pending_cons innermost
      have kind : blockAt? tokens opened = some .loop :=
        accounts.kinds _ (innermost ▸ List.mem_cons_self)
      have returns : Returns tokens opened := .inl kind
      rw [popped]
      simp [returns, innermost, edge?, instruction?, Token.instruction?, Token.block?, Nat.add_comm]

theorem tests_step (accounts : builder.Accounts tokens place)
    (taken : builder.Takes place token next) :
    ∀ scope ∈ next.scopes, scope.node = nodeOf tokens scope.opened := by
  intro scope member
  rcases taken.mem_scopes member with member | ⟨kind, _, rfl⟩
  · exact accounts.tests scope member
  · exact accounts.length_nodes

theorem instructions_step (accounts : builder.Accounts tokens place)
    (found : tokens[place]? = some token) (taken : builder.Takes place token next) :
    next.graph.instructions =
      .start :: (List.range (place + 1)).filterMap (instructionAt? tokens) := by
  rw [(Reads.takes taken).instructions, accounts.instructions,
    accounts.instruction?_eq found taken.not_end, filterMap_range_succ, List.cons_append]

theorem breaks_step (accounts : builder.Accounts tokens place)
    (found : tokens[place]? = some token) (taken : builder.Takes place token next) :
    next.graph.breakTargets.Perm ((List.range (place + 1)).filterMap (breakTarget? tokens)) := by
  have added := (Reads.takes taken).breakTargets accounts.sound
  rw [accounts.edge?_break found] at added
  rw [filterMap_range_succ]
  exact added.trans ((accounts.breaks.append_left _).trans List.perm_append_comm)

theorem edges_step (accounts : builder.Accounts tokens place)
    (found : tokens[place]? = some token) (taken : builder.Takes place token next) :
    next.graph.edges.length + 1 + next.pending tokens =
      next.nodes.length + Nat.count (LeavesLoop tokens) (place + 1) +
        Nat.count (OpensLoop tokens) (place + 1) +
        Nat.count (OpensFilledBranch tokens) (place + 1) := by
  have before := accounts.edges
  have balance := accounts.balance found taken
  have edges := ((Reads.takes taken).edges_perm accounts.sound).length_eq
  have nodes := congrArg List.length (Reads.takes taken).instructions
  rw [accounts.instruction?_eq found taken.not_end] at nodes
  simp only [List.length_append, List.length_map, Graph.instructions, graph_nodes] at edges nodes
  simp only [Nat.count_succ]
  omega

theorem step (accounts : builder.Accounts tokens place) (found : tokens[place]? = some token)
    (taken : builder.Takes place token next) : next.Accounts tokens (place + 1) where
  toTracks := accounts.toTracks.step found taken
  tests := accounts.tests_step taken
  instructions := accounts.instructions_step found taken
  breaks := accounts.breaks_step found taken
  edges := accounts.edges_step found taken

theorem edges_end (accounts : builder.Accounts tokens place) (closed : builder.scopes = []) :
    (builder.addNode .endProgram .endOfFile).graph.edges.length =
      (builder.addNode .endProgram .endOfFile).graph.size - 1 +
        Nat.count (LeavesLoop tokens) place + Nat.count (OpensLoop tokens) place +
        Nat.count (OpensFilledBranch tokens) place := by
  have balance := accounts.edges
  have edges := (builder.reads_end.edges_perm accounts.sound).length_eq
  simp only [List.length_append, edge?, Option.toList_some, List.map_cons, List.map_nil,
    List.length_singleton] at edges
  rw [pending, closed, List.countP_nil] at balance
  rw [graph_size, addNode_length]
  omega

end Accounts

/-- Up to the end mark the tokens of an accepted list are all accounted for. -/
theorem Accepts.accounts {rest : List Token} {graph : Graph}
    (accepted : builder.Accepts place rest graph) (accounts : builder.Accounts tokens place)
    (remaining : tokens.drop place = rest) :
    ∃ last : Builder, last.Accounts tokens (endPlace tokens) ∧ last.scopes = [] ∧
      graph = (last.addNode .endProgram .endOfFile).graph := by
  induction accepted with
  | @ended builder place rest closed =>
      have atEnd := endPlace_eq accounts.stands.reached (getElem?_of_drop remaining)
      exact ⟨builder, atEnd ▸ accounts, closed, rfl⟩
  | @step builder next place token rest graph taken _ ih =>
      exact ih (accounts.step (getElem?_of_drop remaining) taken) (drop_succ_of_drop remaining)

end Builder

/-- Every token of a program is accounted for once in its graph. The instructions are those of the
tokens, in order, between the start and the end. Every node but the start has an edge of its own, and
the other edges come from leaving a loop, from closing a loop and from closing a branch that is filled.
Whoever leaves a loop goes to the test of the innermost one. -/
theorem build_accounts_for_tokens {tokens : List Token} {graph : Graph}
    (built : build tokens = .ok graph) :
    graph.Numbered ∧
      graph.instructions =
        .start :: (List.range (endPlace tokens)).filterMap (instructionAt? tokens) ++
          [.endProgram] ∧
      (∀ place < endPlace tokens, ∀ instruction, instructionAt? tokens place = some instruction →
        ∃ node, graph.node? (nodeOf tokens place) = some node ∧ node.instruction = instruction) ∧
      graph.edges.length = graph.size - 1 + Nat.count (LeavesLoop tokens) (endPlace tokens) +
        Nat.count (OpensLoop tokens) (endPlace tokens) +
        Nat.count (OpensFilledBranch tokens) (endPlace tokens) ∧
      graph.breakTargets.Perm
        ((List.range (endPlace tokens)).filterMap (breakTarget? tokens)) := by
  have numbered := (valid_of_build built).numbered
  obtain ⟨last, accounts, closed, rfl⟩ :=
    (Builder.run_eq_ok_iff.mp built).accounts (Builder.initial_accounts tokens) rfl
  have instructions := last.addNode_instructions .endProgram .endOfFile
  rw [accounts.instructions] at instructions
  have breaks := last.reads_end.breakTargets accounts.sound
  refine ⟨numbered, instructions, ?_, accounts.edges_end closed, breaks.trans accounts.breaks⟩
  intro place before instruction added
  have here := getElem?_filterMap_range added before
  have inside := (List.getElem?_eq_some_iff.mp here).1
  have found : (last.addNode .endProgram .endOfFile).graph.instructions[nodeOf tokens place]? =
      some instruction := by
    rw [instructions, nodeOf, List.cons_append, List.getElem?_cons_succ,
      List.getElem?_append_left inside, here]
  rw [Graph.instructions, List.getElem?_map, Option.map_eq_some_iff] at found
  exact found

/-- The program stops, then leaves the outer loop from a branch of its own, the inner loop from a branch
that does more, and the outer loop behind the inner one. -/
theorem build_accounts_for_nested_loops :
    ∃ graph, build [.leave, .loop, .branch .zero, .leave, .close, .loop, .branch .one, .moveLeft,
        .leave, .close, .close, .leave, .close, .endOfFile] = .ok graph ∧
      graph.instructions = [.start, .finish, .loop, .ifRead .zero, .loop, .ifRead .one, .moveLeft,
        .endProgram] ∧
      graph.edges.length = graph.size - 1 + 3 + 2 + 1 ∧ graph.breakTargets.Perm [2, 4, 2] := by
  have built : build [.leave, .loop, .branch .zero, .leave, .close, .loop, .branch .one, .moveLeft,
      .leave, .close, .close, .leave, .close, .endOfFile] = .ok _ := rfl
  obtain ⟨_, instructions, _, edges, breaks⟩ := build_accounts_for_tokens built
  refine ⟨_, built, instructions.trans ?_, edges.trans ?_, breaks.trans (.of_eq ?_)⟩
  · decide +kernel
  · decide +kernel
  · decide +kernel

end TapeFlow
