import TapeFlow.Proofs.FirstFault
import TapeFlow.Proofs.Growth
import TapeFlow.Proofs.Settling
import TapeFlow.Proofs.Structural

namespace TapeFlow

/-! Reading tokens back from a graph. The next edge of the current node tells which token added it;
the one token that adds nothing is the closer of a branch just entered, and then the branch never
gets an edge into its block. So a settled list is read back token by token. -/

def Instruction.token? : Instruction → Option Token
  | .printState => some .printState
  | .pause => some .pause
  | .moveLeft => some .moveLeft
  | .moveRight => some .moveRight
  | .write symbol => some (.write symbol)
  | .ifRead symbol => some (.branch symbol)
  | .loop => some .loop
  | _ => none

theorem Token.token?_instruction {token : Token} {instruction : Instruction}
    (added : token.instruction? = some instruction) : instruction.token? = some token := by
  cases token <;> cases added <;> rfl

theorem Exit.eq_intoBranch {exit : Exit} (onTrue : exit.condition = .onTrue) :
    exit = .intoBranch := by
  cases exit with
  | intoBranch => rfl
  | _ => cases onTrue

namespace Builder

variable {builder next : Builder} {index : Nat} {tokens : List Token} {graph : Graph}

/-- An edge tells what kind of token added it: one that adds a node to go on from, or one of those
with conditions of their own, or a closer that leads back under the pending condition. -/
theorem edge?_cases {token : Token} {edge : Edge} (emitted : builder.edge? token = some edge) :
    (token.instruction?.isSome ∧ edge = ⟨builder.nodes.length, builder.exit.condition⟩) ∨
      (token = .leave ∧ (edge.condition = .breakLoop ∨ edge.condition = .programFinished)) ∨
      (token = .close ∧ (edge.condition = .continueLoop ∨
        ∃ scope ∈ builder.scopes, edge = ⟨scope.node, builder.exit.condition⟩)) ∨
      (token = .endOfFile ∧ edge.condition = .endOfFile) := by
  cases token using Token.kindCases with
  | act operation =>
      rw [edge?_operation] at emitted
      cases emitted
      exact .inl ⟨by rw [Token.instruction?_operation]; rfl, rfl⟩
  | branch symbol => cases emitted; exact .inl ⟨rfl, rfl⟩
  | loop => cases emitted; exact .inl ⟨rfl, rfl⟩
  | leave =>
      rw [edge?] at emitted
      split at emitted <;> cases emitted
      · exact .inr (.inl ⟨rfl, .inl rfl⟩)
      · exact .inr (.inl ⟨rfl, .inr rfl⟩)
  | close =>
      rw [edge?] at emitted
      split at emitted
      · rename_i innermost
        split at emitted <;> cases emitted
        exact .inr (.inr (.inl ⟨rfl, .inr ⟨_, innermost ▸ List.mem_cons_self, rfl⟩⟩))
      · cases emitted
        exact .inr (.inr (.inl ⟨rfl, .inl rfl⟩))
      · cases emitted
  | endOfFile => cases emitted; exact .inr (.inr (.inr ⟨rfl, rfl⟩))
  | unknown word => cases emitted

theorem edge?_onTrue {token : Token} {edge : Edge} (emitted : builder.edge? token = some edge)
    (onTrue : edge.condition = .onTrue) : builder.exit = .intoBranch := by
  rcases edge?_cases emitted with ⟨_, rfl⟩ | ⟨_, other | other⟩ |
    ⟨_, other | ⟨scope, _, rfl⟩⟩ | ⟨_, other⟩
  · exact Exit.eq_intoBranch onTrue
  · rw [other] at onTrue; cases onTrue
  · rw [other] at onTrue; cases onTrue
  · rw [other] at onTrue; cases onTrue
  · exact Exit.eq_intoBranch onTrue
  · rw [other] at onTrue; cases onTrue

theorem Takes.not_entered {token : Token} {place : Nat} (taken : builder.Takes index token next)
    (inside : place < builder.nodes.length)
    (passed : ¬ (builder.current = place ∧ builder.exit = .intoBranch)) :
    ¬ (next.current = place ∧ next.exit = .intoBranch) := by
  cases taken with
  | act operation => rintro ⟨_, entered⟩; cases entered
  | branch symbol => rintro ⟨rfl, _⟩; exact absurd inside (Nat.lt_irrefl _)
  | loop => rintro ⟨_, entered⟩; cases entered
  | leave => simpa using passed
  | closeBranch _ => rintro ⟨_, entered⟩; cases entered
  | closeLoop _ => rintro ⟨_, entered⟩; cases entered

/-- A node that control does not go on from as from a branch just entered gets no more edges into
a block. -/
theorem Accepts.adds_passed {place : Nat} (accepted : builder.Accepts index tokens graph)
    (inside : place < builder.nodes.length)
    (passed : ¬ (builder.current = place ∧ builder.exit = .intoBranch)) :
    ∃ added, Adds builder.nodes graph.nodes place added ∧
      ∀ edge ∈ added, edge.condition ≠ .onTrue := by
  induction accepted with
  | ended _ =>
      refine ⟨_, addNode_adds _ _ _ inside, ?_⟩
      intro edge member
      split at member
      · cases List.mem_singleton.mp member
        nofun
      · cases member
  | @step builder next index token rest graph taken _ ih =>
      have one := taken.adds inside
      obtain ⟨later, more, untrue⟩ := ih one.inside (taken.not_entered inside passed)
      refine ⟨_, one.trans more, ?_⟩
      intro edge member
      rcases List.mem_append.mp member with now | member
      · split at now
        · rename_i here
          intro onTrue
          exact passed ⟨here.symm, edge?_onTrue (Option.mem_toList.mp now) onTrue⟩
        · cases now
      · exact untrue edge member

theorem Accepts.adds_into_block {token : Token}
    (accepted : builder.Accepts index (token :: tokens) graph) (wellFormed : builder.WellFormed)
    (entered : builder.exit = .intoBranch)
    (emitted : builder.edge? token = some ⟨builder.nodes.length, builder.exit.condition⟩) :
    ∃ added, Adds builder.nodes graph.nodes builder.current added ∧
      ∃ edge ∈ added, edge.condition = .onTrue := by
  obtain ⟨more, adds⟩ := accepted.first_edge wellFormed.current_lt emitted
  exact ⟨_, adds, _, List.mem_cons_self, by rw [entered]; rfl⟩

/-- A branch just entered gets an edge into its block, unless the block only leaves. -/
theorem Accepts.adds_entered (accepted : builder.Accepts index tokens graph)
    (wellFormed : builder.WellFormed) (entered : builder.exit = .intoBranch)
    (holds : ¬ ClosesBare tokens) :
    ∃ added, Adds builder.nodes graph.nodes builder.current added ∧
      ∃ edge ∈ added, edge.condition = .onTrue := by
  induction accepted with
  | ended closed =>
      -- The list cannot end here, with the block of the branch still open.
      obtain ⟨opened, outer, scopes⟩ := wellFormed.entered.mp entered
      rw [closed] at scopes
      cases scopes
  | @step builder next index token rest graph taken accepted ih =>
      have whole := Accepts.step taken accepted
      have one := taken.adds wellFormed.current_lt
      cases taken with
      | act operation => exact whole.adds_into_block wellFormed entered (edge?_operation operation)
      | branch symbol => exact whole.adds_into_block wellFormed entered rfl
      | loop => exact whole.adds_into_block wellFormed entered rfl
      | leave =>
          obtain ⟨later, more, edge, member, onTrue⟩ :=
            ih wellFormed.leave (by rw [leave_exit, entered])
              (fun closes => holds (closesBare_leave.mpr closes))
          rw [leave_current] at more
          exact ⟨_, one.trans more, edge, List.mem_append_right _ member, onTrue⟩
      | closeBranch _ => exact absurd (closesBare_close rest) holds
      | closeLoop _ => exact absurd (closesBare_close rest) holds

/-- Only the closer of a branch just entered adds nothing, and then no edge into the block follows. -/
theorem Accepts.adds_silent {token : Token}
    (accepted : builder.Accepts index (token :: tokens) graph) (wellFormed : builder.WellFormed)
    (silent : builder.edge? token = none) :
    token = .close ∧ builder.exit = .intoBranch ∧
      ∃ added, Adds builder.nodes graph.nodes builder.current added ∧
        ∀ edge ∈ added, edge.condition ≠ .onTrue := by
  cases accepted with
  | ended _ => cases silent
  | step taken accepted =>
      have one := taken.adds wellFormed.current_lt
      rw [if_pos rfl, silent] at one
      cases taken with
      | act operation => rw [edge?_operation] at silent; cases silent
      | branch symbol => cases silent
      | loop => cases silent
      | leave => rw [edge?] at silent; split at silent <;> cases silent
      | @closeBranch node opened outer innermost =>
          by_cases atTest : builder.current = node
          · -- With its block closed the branch is passed, so no edge into the block can follow.
            subst atTest
            obtain ⟨later, more, untrue⟩ :=
              accepted.adds_passed one.inside (by rintro ⟨_, entered⟩; cases entered)
            have entered := wellFormed.entered.mpr ⟨opened, outer, innermost⟩
            exact ⟨rfl, entered, later, one.trans more, untrue⟩
          · simp [edge?, innermost, atTest] at silent
      | closeLoop innermost => simp [edge?, innermost] at silent

/-- If the builder has just entered a branch, the list does not leave it and then close it. -/
def Ready (builder : Builder) (tokens : List Token) : Prop :=
  builder.exit = .intoBranch → ClosesBare tokens → tokens.head? = some .close

theorem Accepts.close_of_silent {first second : Token} {left right : List Token}
    (wellFormed : builder.WellFormed) (one : builder.Accepts index (first :: left) graph)
    (silent : builder.edge? first = none) (two : builder.Accepts index (second :: right) graph)
    (ready : builder.Ready (second :: right)) : second = .close := by
  obtain ⟨_, entered, added, adds, untrue⟩ := one.adds_silent wellFormed silent
  by_cases closes : ClosesBare (second :: right)
  · exact Option.some.inj (ready entered closes)
  · obtain ⟨_, addsToo, edge, member, onTrue⟩ := two.adds_entered wellFormed entered closes
    rw [adds.unique addsToo] at untrue
    exact absurd onTrue (untrue edge member)

def tokenOf? (builder : Builder) (graph : Graph) (edge : Edge) : Option Token :=
  match edge.condition with
  | .breakLoop => some .leave
  | .programFinished => some .leave
  | .continueLoop => some .close
  | .endOfFile => some .endOfFile
  | _ =>
    if edge.target = builder.nodes.length then
      graph.nodes[builder.nodes.length]?.bind (·.instruction.token?)
    else some .close

theorem tokenOf?_pending (builder : Builder) (graph : Graph) (target : Nat) :
    builder.tokenOf? graph ⟨target, builder.exit.condition⟩ =
      if target = builder.nodes.length then
        graph.nodes[builder.nodes.length]?.bind (·.instruction.token?)
      else some .close := by
  unfold tokenOf?
  cases builder.exit <;> rfl

theorem Accepts.tokenOf?_eq {token : Token} {edge : Edge}
    (accepted : builder.Accepts index (token :: tokens) graph) (wellFormed : builder.WellFormed)
    (emitted : builder.edge? token = some edge) : builder.tokenOf? graph edge = some token := by
  rcases edge?_cases emitted with ⟨goesOn, rfl⟩ | ⟨rfl, condition | condition⟩ |
    ⟨rfl, condition | ⟨scope, member, rfl⟩⟩ | ⟨rfl, condition⟩
  · obtain ⟨instruction, added⟩ := Option.isSome_iff_exists.mp goesOn
    obtain ⟨edges, found⟩ := accepted.first_instruction wellFormed.current_lt added
    rw [tokenOf?_pending, if_pos rfl, found]
    exact Token.token?_instruction added
  · rw [tokenOf?, condition]
  · rw [tokenOf?, condition]
  · rw [tokenOf?, condition]
  · rw [tokenOf?_pending, if_neg (Nat.ne_of_lt (wellFormed.scope_lt member))]
  · rw [tokenOf?, condition]

theorem Accepts.same_token {first second : Token} {left right : List Token}
    (wellFormed : builder.WellFormed) (one : builder.Accepts index (first :: left) graph)
    (two : builder.Accepts index (second :: right) graph) (oneReady : builder.Ready (first :: left))
    (twoReady : builder.Ready (second :: right)) : first = second := by
  cases emitted : builder.edge? first with
  | none =>
      rw [(one.adds_silent wellFormed emitted).1]
      exact (one.close_of_silent wellFormed emitted two twoReady).symm
  | some edge =>
      cases emittedToo : builder.edge? second with
      | none =>
          rw [(two.adds_silent wellFormed emittedToo).1]
          exact two.close_of_silent wellFormed emittedToo one oneReady
      | some other =>
          obtain ⟨_, adds⟩ := one.first_edge wellFormed.current_lt emitted
          obtain ⟨_, addsToo⟩ := two.first_edge wellFormed.current_lt emittedToo
          obtain ⟨rfl, _⟩ := List.cons.inj (adds.unique addsToo)
          have told := one.tokenOf?_eq wellFormed emitted
          rw [two.tokenOf?_eq wellFormed emittedToo] at told
          exact (Option.some.inj told).symm

theorem Ready.append_end (ready : builder.Ready tokens) (rest : List Token) :
    builder.Ready (tokens ++ .endOfFile :: rest) := by
  intro entered closes
  have head := ready entered (closesBare_of_append_end closes)
  rw [List.head?_append, head]
  rfl

theorem Ready.step {token : Token} (ready : builder.Ready (token :: tokens))
    (settled : Settled (token :: tokens)) (taken : builder.Takes index token next) :
    next.Ready tokens := by
  intro entered closes
  cases taken with
  | branch symbol => exact settled.1 closes
  | leave =>
      rw [leave_exit] at entered
      have head := ready entered (closesBare_leave.mpr closes)
      cases head
  | act operation => cases entered
  | loop => cases entered
  | closeBranch _ => cases entered
  | closeLoop _ => cases entered

/-- From one builder, settled lists that come to one graph are the same up to their end marks. -/
theorem Accepts.settled_unique {left right leftRest rightRest : List Token}
    (wellFormed : builder.WellFormed)
    (one : builder.Accepts index (left ++ .endOfFile :: leftRest) graph)
    (two : builder.Accepts index (right ++ .endOfFile :: rightRest) graph)
    (leftInside : .endOfFile ∉ left) (rightInside : .endOfFile ∉ right)
    (leftSettled : Settled left) (rightSettled : Settled right)
    (leftReady : builder.Ready left) (rightReady : builder.Ready right) : left = right := by
  induction left generalizing builder index right with
  | nil =>
      cases right with
      | nil => rfl
      | cons token rest =>
          have same := one.same_token wellFormed two (leftReady.append_end _) (rightReady.append_end _)
          exact absurd (same ▸ List.mem_cons_self) rightInside
  | cons token rest ih =>
      cases right with
      | nil =>
          have same := one.same_token wellFormed two (leftReady.append_end _) (rightReady.append_end _)
          exact absurd (same ▸ List.mem_cons_self) leftInside
      | cons other right =>
          have same := one.same_token wellFormed two (leftReady.append_end _) (rightReady.append_end _)
          subst same
          -- One token makes one builder, from which the rests come to the same graph again.
          rw [List.mem_cons, not_or] at leftInside rightInside
          cases one with
          | ended _ => exact absurd rfl leftInside.1
          | step taken one =>
              cases two with
              | ended _ => exact absurd rfl rightInside.1
              | step takenToo two =>
                  cases taken.unique takenToo
                  rw [ih (wellFormed.step taken) one two leftInside.2 rightInside.2
                    leftSettled.tail rightSettled.tail (leftReady.step leftSettled taken)
                    (rightReady.step rightSettled taken)]

end Builder

theorem settle_eq_of_build {left right leftRest rightRest : List Token} {graph : Graph}
    (leftInside : .endOfFile ∉ left) (rightInside : .endOfFile ∉ right)
    (leftBuilt : build (left ++ .endOfFile :: leftRest) = .ok graph)
    (rightBuilt : build (right ++ .endOfFile :: rightRest) = .ok graph) :
    settle left = settle right := by
  rw [← build_settle] at leftBuilt rightBuilt
  rw [← (settle_perm left).mem_iff] at leftInside
  rw [← (settle_perm right).mem_iff] at rightInside
  have ready (tokens : List Token) : Builder.initial.Ready tokens := nofun
  exact Builder.Accepts.settled_unique Builder.initial_wellFormed
    (Builder.run_eq_ok_iff.mp leftBuilt) (Builder.run_eq_ok_iff.mp rightBuilt) leftInside rightInside
    (settled_settle left) (settled_settle right) (ready _) (ready _)

/-- No end mark and no unknown token, a block to close for every closer, and no block left open. -/
structure WellNested (tokens : List Token) : Prop where
  unended : .endOfFile ∉ tokens
  known : ∀ word, .unknown word ∉ tokens
  depth_nonneg : ∀ place ≤ tokens.length, 0 ≤ depth tokens place
  balanced : depth tokens tokens.length = 0

namespace WellNested

variable {tokens : List Token}

theorem endPlace_append_end (nested : WellNested tokens) :
    endPlace (tokens ++ [.endOfFile]) = tokens.length := by
  have unmarked : ∀ token ∈ tokens, (token = .endOfFile : Bool) = false := by
    rintro token member
    exact decide_eq_false fun marked => nested.unended (marked ▸ member)
  rw [endPlace, List.findIdx_append, List.findIdx_eq_length_of_false unmarked]
  simp

theorem depth_append_end (tokens : List Token) {place : Nat} (inside : place ≤ tokens.length) :
    depth (tokens ++ [.endOfFile]) place = depth tokens place := by
  rw [depth, List.take_append_of_le_length inside, depth]

theorem faultless (nested : WellNested tokens) : Faultless (tokens ++ [.endOfFile]) := by
  intro place before fault
  rw [nested.endPlace_append_end] at before
  rw [FaultAt, List.getElem?_append_left before,
    depth_append_end tokens (Nat.le_of_lt before)] at fault
  rcases fault with ⟨word, found⟩ | ⟨found, level⟩
  · exact nested.known word (List.mem_of_getElem? found)
  · have nonnegative := nested.depth_nonneg (place + 1) before
    rw [depth_succ found, level] at nonnegative
    exact absurd nonnegative (by decide)

theorem builds (nested : WellNested tokens) : ∃ graph, build (tokens ++ [.endOfFile]) = .ok graph := by
  refine (build_eq_ok_iff _).mpr ⟨nested.faultless, by simp, ?_⟩
  rw [nested.endPlace_append_end, depth_append_end tokens (Nat.le_refl _)]
  exact nested.balanced

end WellNested

/-- Graphs tell well nested lists apart, except for leaves on the two sides of the closer of a branch
that holds nothing else. -/
theorem build_eq_iff_settle_eq {left right : List Token} (leftNested : WellNested left)
    (rightNested : WellNested right) :
    build (left ++ [.endOfFile]) = build (right ++ [.endOfFile]) ↔ settle left = settle right := by
  constructor
  · intro same
    obtain ⟨graph, built⟩ := leftNested.builds
    exact settle_eq_of_build leftNested.unended rightNested.unended built (same ▸ built)
  · intro same
    rw [← build_settle left, same, build_settle]

theorem build_eq_iff_settle_eq_in_loop :
    WellNested [.loop, .branch .zero, .leave, .leave, .close, .leave, .close] ∧
      WellNested [.loop, .branch .zero, .leave, .close, .leave, .leave, .close] ∧
      build [.loop, .branch .zero, .leave, .leave, .close, .leave, .close, .endOfFile] =
        build [.loop, .branch .zero, .leave, .close, .leave, .leave, .close, .endOfFile] := by
  have leftNested : WellNested [.loop, .branch .zero, .leave, .leave, .close, .leave, .close] :=
    ⟨by decide, by simp, by decide, by decide⟩
  have rightNested : WellNested [.loop, .branch .zero, .leave, .close, .leave, .leave, .close] :=
    ⟨by decide, by simp, by decide, by decide⟩
  exact ⟨leftNested, rightNested, (build_eq_iff_settle_eq leftNested rightNested).mpr (by decide)⟩

end TapeFlow
