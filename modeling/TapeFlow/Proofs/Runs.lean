import TapeFlow.Proofs.Program

namespace TapeFlow.Builder

/-! Runs of the builder as relations. `Takes` says what one token makes of a builder, `Feeds` what
several do, and `Accepts` that a token list comes to a graph. Proofs about runs go by cases on the
first and by induction on the other two, and do not open `step` and `run`. -/

variable {builder next after : Builder} {index : Nat} {token : Token} {tokens : List Token}
  {graph : Graph}

inductive Takes (builder : Builder) (index : Nat) : Token → Builder → Prop
  | act (operation : Operation) :
      Takes builder index operation.token (builder.advance operation.instruction .plain)
  | branch (symbol : Symbol) :
      Takes builder index (.branch symbol) (builder.openBranch index symbol)
  | loop : Takes builder index .loop (builder.openLoop index)
  | leave : Takes builder index .leave builder.leave
  | closeBranch {node opened : Nat} {outer : List Scope}
      (innermost : builder.scopes = ⟨.branch, node, opened⟩ :: outer) :
      Takes builder index .close { builder.closeBranch node with scopes := outer }
  | closeLoop {node opened : Nat} {outer : List Scope}
      (innermost : builder.scopes = ⟨.loop, node, opened⟩ :: outer) :
      Takes builder index .close { builder.closeLoop node with scopes := outer }

inductive Feeds : Builder → Nat → List Token → Builder → Prop
  | nil {builder : Builder} {index : Nat} : Feeds builder index [] builder
  | cons {builder next after : Builder} {index : Nat} {token : Token} {rest : List Token}
      (taken : builder.Takes index token next) (fed : Feeds next (index + 1) rest after) :
      Feeds builder index (token :: rest) after

inductive Accepts : Builder → Nat → List Token → Graph → Prop
  | ended {builder : Builder} {index : Nat} {rest : List Token} (closed : builder.scopes = []) :
      Accepts builder index (.endOfFile :: rest) ⟨(builder.addNode .endProgram .endOfFile).nodes⟩
  | step {builder next : Builder} {index : Nat} {token : Token} {rest : List Token} {graph : Graph}
      (taken : builder.Takes index token next) (accepted : Accepts next (index + 1) rest graph) :
      Accepts builder index (token :: rest) graph

theorem step_operation (builder : Builder) (index : Nat) (operation : Operation) :
    builder.step index operation.token = .ok (builder.advance operation.instruction .plain) := by
  cases operation <;> rfl

theorem step_eq_ok_iff (inside : token ≠ .endOfFile) :
    builder.step index token = .ok next ↔ builder.Takes index token next := by
  constructor
  · intro stepped
    cases token using Token.kindCases with
    | act operation =>
        rw [step_operation] at stepped
        cases stepped
        exact .act operation
    | branch symbol => cases stepped; exact .branch symbol
    | loop => cases stepped; exact .loop
    | leave => cases stepped; exact .leave
    | close =>
        rw [step, close] at stepped
        split at stepped
        · contradiction
        · cases stepped; exact .closeBranch ‹_›
        · cases stepped; exact .closeLoop ‹_›
    | endOfFile => contradiction
    | unknown word => cases stepped
  · intro taken
    cases taken with
    | act operation => exact step_operation builder index operation
    | branch symbol => rfl
    | loop => rfl
    | leave => rfl
    | closeBranch innermost => rw [step, close, innermost]
    | closeLoop innermost => rw [step, close, innermost]

theorem step_eq_error {reason : BuildError} (refused : builder.step index token = .error reason) :
    (token = .close ∧ builder.scopes = [] ∧ reason = .unmatchedCloser index) ∨
      ∃ word, token = .unknown word ∧ reason = .unknownToken index word := by
  cases token using Token.kindCases with
  | act operation => rw [step_operation] at refused; cases refused
  | close =>
      rw [step, close] at refused
      split at refused
      · cases refused; exact .inl ⟨rfl, ‹_›, rfl⟩
      · cases refused
      · cases refused
  | unknown word => cases refused; exact .inr ⟨word, rfl, rfl⟩
  | _ => cases refused

theorem Takes.not_end (taken : builder.Takes index token next) : token ≠ .endOfFile := by
  cases taken with
  | act operation => cases operation <;> exact Token.noConfusion
  | _ => exact Token.noConfusion

theorem Takes.not_unknown {word : Text} (taken : builder.Takes index token next) :
    token ≠ .unknown word := by
  cases taken with
  | act operation => cases operation <;> exact Token.noConfusion
  | _ => exact Token.noConfusion

theorem Takes.unique {other : Builder} (taken : builder.Takes index token next)
    (takenToo : builder.Takes index token other) : next = other := by
  have stepped := (step_eq_ok_iff taken.not_end).mpr taken
  rw [(step_eq_ok_iff taken.not_end).mpr takenToo] at stepped
  exact (Except.ok.inj stepped).symm

theorem Takes.run_cons (taken : builder.Takes index token next) (rest : List Token) :
    builder.run index (token :: rest) = next.run (index + 1) rest := by
  have inside := taken.not_end
  rw [run, (step_eq_ok_iff inside).mpr taken]
  exact if_neg inside

theorem Feeds.append {middle : Builder} {later : List Token} (first : builder.Feeds index tokens middle)
    (second : middle.Feeds (index + tokens.length) later after) :
    builder.Feeds index (tokens ++ later) after := by
  induction first with
  | nil => exact second
  | cons taken _ ih =>
      rw [List.length_cons, Nat.add_comm _ 1, ← Nat.add_assoc] at second
      exact .cons taken (ih second)

theorem Feeds.run_append (fed : builder.Feeds index tokens after) (rest : List Token) :
    builder.run index (tokens ++ rest) = after.run (index + tokens.length) rest := by
  induction fed with
  | nil => rfl
  | cons taken _ ih =>
      rw [List.cons_append, taken.run_cons, ih, List.length_cons, Nat.add_right_comm, Nat.add_assoc]

theorem finish_eq_ok_iff : builder.finish = .ok graph ↔ builder.scopes = [] ∧ graph = ⟨builder.nodes⟩ := by
  unfold finish
  cases scopes : builder.scopes.getLast? with
  | none => simp [List.getLast?_eq_none_iff.mp scopes, eq_comm]
  | some outermost =>
      have opened : builder.scopes ≠ [] := by
        intro closed
        simp [closed] at scopes
      simp [opened]

theorem run_eq_ok_iff : builder.run index tokens = .ok graph ↔ builder.Accepts index tokens graph := by
  constructor
  · intro ran
    induction tokens generalizing builder index with
    | nil => cases ran
    | cons token rest ih =>
        by_cases ends : token = .endOfFile
        · subst ends
          simp only [run, step, if_true] at ran
          obtain ⟨closed, rfl⟩ := finish_eq_ok_iff.mp ran
          exact .ended closed
        · cases stepped : builder.step index token with
          | error reason => simp [run, stepped] at ran
          | ok next =>
              have taken := (step_eq_ok_iff ends).mp stepped
              rw [taken.run_cons] at ran
              exact .step taken (ih ran)
  · intro accepted
    induction accepted with
    | ended closed =>
        simp only [run, step, if_true]
        exact finish_eq_ok_iff.mpr ⟨closed, rfl⟩
    | step taken _ ih => rw [taken.run_cons, ih]

section Fields

variable (builder)

@[simp] theorem advance_scopes (instruction : Instruction) (exit : Exit) :
    (builder.advance instruction exit).scopes = builder.scopes := rfl

@[simp] theorem leave_current : builder.leave.current = builder.current := by
  unfold leave
  split <;> rfl

@[simp] theorem leave_exit : builder.leave.exit = builder.exit := by
  unfold leave
  split <;> rfl

@[simp] theorem leave_scopes : builder.leave.scopes = builder.scopes := by
  unfold leave
  split <;> rfl

@[simp] theorem leave_loops : builder.leave.loops = builder.loops := by
  unfold leave
  split <;> rfl

end Fields

/-- Every open block needs a closer: an accepted list has one segment for each, and one more. -/
theorem Accepts.segments_length (accepted : builder.Accepts index tokens graph) :
    (Program.segments tokens).length = builder.scopes.length + 1 := by
  induction accepted with
  | ended closed => simp [Program.segments, Program.prepend, closed]
  | @step builder next index token rest graph taken _ ih =>
      rw [Program.segments]
      cases taken with
      | act operation =>
          obtain ⟨first, outer, found⟩ := List.exists_cons_of_length_eq_add_one ih
          simpa [found, Program.prepend_operation] using ih
      | branch symbol => exact Program.length_prepend_opener rfl ih
      | loop => exact Program.length_prepend_opener rfl ih
      | leave =>
          obtain ⟨first, outer, found⟩ := List.exists_cons_of_length_eq_add_one ih
          simpa [found, Program.prepend] using ih
      | closeBranch innermost =>
          obtain ⟨first, outer, found⟩ := List.exists_cons_of_length_eq_add_one ih
          simpa [found, Program.prepend, innermost] using ih
      | closeLoop innermost =>
          obtain ⟨first, outer, found⟩ := List.exists_cons_of_length_eq_add_one ih
          simpa [found, Program.prepend, innermost] using ih

theorem tokens_of_build {tokens : List Token} {graph : Graph} (built : build tokens = .ok graph) :
    ∃ program rest, tokens = Program.tokens program ++ .endOfFile :: rest := by
  have single := (run_eq_ok_iff.mp built).segments_length
  obtain ⟨program, read⟩ := List.length_eq_one_iff.mp single
  exact ⟨program, Program.tokens_of_segments read⟩

end TapeFlow.Builder
