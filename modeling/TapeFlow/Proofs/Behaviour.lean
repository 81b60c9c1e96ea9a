import TapeFlow.Proofs.Decompiling
import TapeFlow.Proofs.Machine

namespace TapeFlow

/-! What a graph tells of the behaviour of a program. Settling moves leaves out of a branch, and so
turns an exit that depends on the tape into one that does not. Where two programs have the same exits
of that kind, one graph means one behaviour. -/

namespace Program

def leads : Program → Bool
  | .leave _ => true
  | _ => false

/-- For every branch in order, up to the first leave of the block that it stands in: whether its own
block leaves and does nothing else, and no leave follows it. If one follows, control leaves there
whatever is on the tape. -/
def conditionalExits : Program → List Bool
  | .done => []
  | .act _ rest => rest.conditionalExits
  | .leave _ => []
  | .branch _ body rest =>
    (body.bare && body.leads && !rest.leads) :: (body.conditionalExits ++ rest.conditionalExits)
  | .loop body rest => body.conditionalExits ++ rest.conditionalExits

/-- Moves the leaves of every branch that holds nothing else behind the branch. -/
def settle : Program → Program
  | .done => .done
  | .act operation rest => .act operation rest.settle
  | .leave rest => .leave rest.settle
  | .branch symbol body rest =>
    if body.bare then .branch symbol .done (body.append rest.settle)
    else .branch symbol body.settle rest.settle
  | .loop body rest => .loop body.settle rest.settle

variable {program body rest : Program}

theorem tokens_append (program after : Program) :
    (program.append after).tokens = program.tokens ++ after.tokens := by
  induction program with
  | done => rfl
  | act operation rest ih => simp only [append, tokens, ih, List.cons_append]
  | leave rest ih => simp only [append, tokens, ih, List.cons_append]
  | branch symbol body rest _ ih =>
      simp only [append, tokens, ih, List.cons_append, List.append_assoc]
  | loop body rest _ ih => simp only [append, tokens, ih, List.cons_append, List.append_assoc]

theorem tokens_bare (bare : program.bare) :
    ∃ count, program.tokens = List.replicate count .leave := by
  induction program with
  | done => exact ⟨0, rfl⟩
  | leave rest ih =>
      obtain ⟨count, leaves⟩ := ih bare
      exact ⟨count + 1, by rw [tokens, leaves, List.replicate_succ]⟩
  | _ => cases bare

theorem bare_of_closesBare {after : List Token} (closes : ClosesBare (program.tokens ++ after)) :
    program.bare := by
  induction program with
  | done => rfl
  | leave rest ih => exact ih (closesBare_leave.mp closes)
  | act operation rest _ => cases operation <;> rcases closes.head with other | other <;> cases other
  | branch symbol body rest _ _ => rcases closes.head with other | other <;> cases other
  | loop body rest _ _ => rcases closes.head with other | other <;> cases other

/-- Settling a program and settling its tokens come to the same. -/
theorem settle_tokens (program : Program) (after : List Token) :
    TapeFlow.settle (program.tokens ++ after) = program.settle.tokens ++ TapeFlow.settle after := by
  induction program generalizing after with
  | done => rfl
  | act operation rest ih =>
      rw [tokens, List.cons_append, settle_operation, ih]
      rfl
  | leave rest ih => exact congrArg (Token.leave :: ·) (ih after)
  | branch symbol body rest bodyIH restIH =>
      rw [tokens, settle]
      by_cases bare : body.bare
      · obtain ⟨count, leaves⟩ := tokens_bare bare
        rw [if_pos bare, leaves, List.cons_append, List.append_assoc, List.cons_append,
          settle_bare, restIH]
        simp [tokens, tokens_append, leaves]
      · rw [if_neg bare, List.cons_append, List.append_assoc,
          settle_of_not_bare symbol (fun closes => bare (bare_of_closesBare closes)), bodyIH]
        have closed : TapeFlow.settle (.close :: (rest.tokens ++ after)) =
            .close :: (rest.settle.tokens ++ TapeFlow.settle after) :=
          congrArg (Token.close :: ·) (restIH after)
        rw [List.cons_append, closed]
        simp [tokens]
  | loop body rest bodyIH restIH =>
      have closed : TapeFlow.settle (.close :: (rest.tokens ++ after)) =
          .close :: (rest.settle.tokens ++ TapeFlow.settle after) :=
        congrArg (Token.close :: ·) (restIH after)
      have opened (inner : List Token) : TapeFlow.settle (.loop :: inner) =
        .loop :: TapeFlow.settle inner := rfl
      rw [tokens, List.cons_append, List.append_assoc, opened, bodyIH, List.cons_append, closed]
      simp [tokens, settle]

theorem leads_settle (program : Program) : program.settle.leads = program.leads := by
  cases program with
  | branch symbol body rest => rw [settle]; split <;> rfl
  | _ => rfl

theorem leads_append (bare : body.bare) (after : Program) :
    (body.append after).leads = (body.leads || after.leads) := by
  cases body with
  | done => rfl
  | leave rest => rfl
  | _ => cases bare

theorem append_bare_inj {other after otherAfter : Program} (bare : body.bare) (otherBare : other.bare)
    (goesOn : after.leads = false) (otherGoesOn : otherAfter.leads = false)
    (same : body.append after = other.append otherAfter) : body = other ∧ after = otherAfter := by
  induction body generalizing other with
  | done =>
      cases other with
      | done => exact ⟨rfl, same⟩
      | leave rest => cases same; cases goesOn
      | _ => cases otherBare
  | leave rest ih =>
      cases other with
      | done => cases same; cases otherGoesOn
      | leave otherRest =>
          have inner : rest.append after = otherRest.append otherAfter := Program.leave.inj same
          obtain ⟨rfl, sameAfter⟩ := @ih otherRest bare otherBare inner
          exact ⟨rfl, sameAfter⟩
      | _ => cases otherBare
  | _ => cases bare

theorem conditionalExits_bare (bare : body.bare) : body.conditionalExits = [] := by
  cases body with
  | done => rfl
  | leave rest => rfl
  | _ => cases bare

theorem eq_leave_of_leads (leads : program.leads = true) : ∃ rest, program = .leave rest := by
  cases program with
  | leave rest => exact ⟨rest, rfl⟩
  | _ => cases leads

theorem eq_done_of_settle (same : program.settle = .done) : program = .done := by
  cases program with
  | done => rfl
  | branch symbol body rest => rw [settle] at same; split at same <;> cases same
  | _ => cases same

theorem eq_act_of_settle {operation : Operation} {after : Program}
    (same : program.settle = .act operation after) :
    ∃ rest, program = .act operation rest ∧ rest.settle = after := by
  cases program with
  | act operation rest => cases same; exact ⟨rest, rfl, rfl⟩
  | branch symbol body rest => rw [settle] at same; split at same <;> cases same
  | _ => cases same

theorem eq_loop_of_settle {inner after : Program} (same : program.settle = .loop inner after) :
    ∃ body rest, program = .loop body rest ∧ body.settle = inner ∧ rest.settle = after := by
  cases program with
  | loop body rest => cases same; exact ⟨body, rest, rfl, rfl, rfl⟩
  | branch symbol body rest => rw [settle] at same; split at same <;> cases same
  | _ => cases same

theorem eq_branch_of_settle {symbol : Symbol} {inner after : Program}
    (same : program.settle = .branch symbol inner after) :
    ∃ body rest, program = .branch symbol body rest ∧
      ((body.bare ∧ inner = .done ∧ body.append rest.settle = after) ∨
        (¬ body.bare ∧ body.settle = inner ∧ rest.settle = after)) := by
  cases program with
  | branch symbol body rest =>
      rw [settle] at same
      split at same
      · cases same; exact ⟨body, rest, rfl, .inl ⟨‹_›, rfl, rfl⟩⟩
      · cases same; exact ⟨body, rest, rfl, .inr ⟨‹_›, rfl, rfl⟩⟩
  | _ => cases same

/-- Two branches that only leave, with as many leaves in and behind them: there is a leave behind both
or behind neither if both, or neither, are exits that depend on the tape. -/
theorem leads_of_bare {otherBody otherRest : Program} (bare : body.bare) (otherBare : otherBody.bare)
    (settled : body.append rest.settle = otherBody.append otherRest.settle)
    (exits : (body.leads && !rest.leads) = (otherBody.leads && !otherRest.leads)) :
    rest.leads = otherRest.leads := by
  have leads : (body.leads || rest.leads) = (otherBody.leads || otherRest.leads) := by
    rw [← leads_settle rest, ← leads_append bare, settled, leads_append otherBare, leads_settle]
  cases inside : body.leads <;> cases otherInside : otherBody.leads <;>
    simp [inside, otherInside] at leads exits <;> simp [leads, exits]

/-- Programs with one settled form are alike if they agree on the exits that depend on the tape. -/
theorem alike_of_settle_eq {left right : Program} {after otherAfter : List Bool}
    (settled : left.settle = right.settle)
    (exits : left.conditionalExits ++ after = right.conditionalExits ++ otherAfter) :
    Alike left right ∧ after = otherAfter := by
  -- With the exits that come after, since how many a block has is known only when it is done.
  induction left generalizing right after otherAfter with
  | done =>
      cases eq_done_of_settle settled.symm
      exact ⟨.done, exits⟩
  | act operation rest ih =>
      obtain ⟨otherRest, rfl, same⟩ := eq_act_of_settle settled.symm
      obtain ⟨rests, exits⟩ := ih same.symm exits
      exact ⟨.act operation rests, exits⟩
  | leave rest _ =>
      have leads := right.leads_settle
      rw [← settled] at leads
      obtain ⟨otherRest, rfl⟩ := eq_leave_of_leads leads.symm
      exact ⟨.leave rest otherRest, exits⟩
  | branch symbol body rest bodyIH restIH =>
      rw [settle] at settled
      split at settled
      · rename_i bare
        obtain ⟨otherBody, otherRest, rfl, ⟨otherBare, _, same⟩ | ⟨otherHolds, inner, _⟩⟩ :=
          eq_branch_of_settle settled.symm
        · simp only [conditionalExits, bare, otherBare, conditionalExits_bare, Bool.true_and,
            List.nil_append, List.cons_append, List.cons.injEq] at exits
          obtain ⟨exit, exits⟩ := exits
          have leads := leads_of_bare bare otherBare same.symm exit
          cases follows : rest.leads with
          | true =>
              obtain ⟨rest, rfl⟩ := eq_leave_of_leads follows
              obtain ⟨otherRest, rfl⟩ := eq_leave_of_leads (leads ▸ follows)
              exact ⟨.exit symbol rest otherRest bare otherBare, exits⟩
          | false =>
              have otherFollows : otherRest.leads = false := leads ▸ follows
              rw [← leads_settle] at follows otherFollows
              obtain ⟨rfl, sameRest⟩ := append_bare_inj bare otherBare follows otherFollows same.symm
              obtain ⟨rests, exits⟩ := restIH sameRest exits
              exact ⟨.branch symbol (.refl body) rests, exits⟩
        · cases eq_done_of_settle inner
          exact absurd rfl otherHolds
      · rename_i holds
        obtain ⟨otherBody, otherRest, rfl, ⟨_, inner, _⟩ | ⟨_, sameBody, sameRest⟩⟩ :=
          eq_branch_of_settle settled.symm
        · cases eq_done_of_settle inner
          exact absurd rfl holds
        · simp only [conditionalExits, List.cons_append, List.append_assoc, List.cons.injEq] at exits
          obtain ⟨bodies, behind⟩ := bodyIH sameBody.symm exits.2
          obtain ⟨rests, exits⟩ := restIH sameRest.symm behind
          exact ⟨.branch symbol bodies rests, exits⟩
  | loop body rest bodyIH restIH =>
      obtain ⟨otherBody, otherRest, rfl, sameBody, sameRest⟩ := eq_loop_of_settle settled.symm
      rw [conditionalExits, conditionalExits, List.append_assoc, List.append_assoc] at exits
      obtain ⟨bodies, behind⟩ := bodyIH sameBody.symm exits
      obtain ⟨rests, exits⟩ := restIH sameRest.symm behind
      exact ⟨.loop bodies rests, exits⟩

end Program

/-- The exits of a token list that depend on the tape, branch by branch. -/
def conditionalExits (tokens : List Token) : List Bool :=
  match Program.read? tokens with
  | some program => program.conditionalExits
  | none => []

/-- Token lists with one graph and the same exits that depend on the tape perform the same operations
on every tape, step by step. -/
theorem performed_eq_of_build_eq {left right : List Token} {graph : Graph}
    (leftBuilt : build left = .ok graph) (rightBuilt : build right = .ok graph)
    (exits : conditionalExits left = conditionalExits right) (tape : Tape) (steps : Nat) :
    performed left tape steps = performed right tape steps := by
  obtain ⟨leftProgram, leftRest, rfl⟩ := Builder.tokens_of_build leftBuilt
  obtain ⟨rightProgram, rightRest, rfl⟩ := Builder.tokens_of_build rightBuilt
  simp only [conditionalExits, Program.read?_tokens] at exits
  have settled : leftProgram.settle = rightProgram.settle := by
    have same := settle_eq_of_build leftProgram.end_not_mem_tokens rightProgram.end_not_mem_tokens
      leftBuilt rightBuilt
    rw [← List.append_nil leftProgram.tokens, ← List.append_nil rightProgram.tokens,
      Program.settle_tokens, Program.settle_tokens] at same
    exact Program.tokens_injective (List.append_cancel_right same)
  rw [performed_tokens, performed_tokens]
  have alike := (Program.alike_of_settle_eq settled (congrArg (· ++ []) exits)).1
  exact alike.performed_eq tape steps

theorem performed_eq_of_build_eq_in_loop :
    ∃ graph,
      build [.loop, .moveRight, .branch .zero, .leave, .close, .branch .one, .leave, .leave, .close,
        .leave, .close, .pause, .endOfFile] = .ok graph ∧
      build [.loop, .moveRight, .branch .zero, .leave, .close, .branch .one, .leave, .close, .leave,
        .leave, .close, .pause, .endOfFile] = .ok graph ∧
      conditionalExits [.loop, .moveRight, .branch .zero, .leave, .close, .branch .one, .leave,
          .leave, .close, .leave, .close, .pause, .endOfFile] =
        conditionalExits [.loop, .moveRight, .branch .zero, .leave, .close, .branch .one, .leave,
          .close, .leave, .leave, .close, .pause, .endOfFile] ∧
      performed [.loop, .moveRight, .branch .zero, .leave, .close, .branch .one, .leave, .leave,
          .close, .leave, .close, .pause, .endOfFile] ⟨fun _ => .one, 0⟩ 6 =
        performed [.loop, .moveRight, .branch .zero, .leave, .close, .branch .one, .leave, .close,
          .leave, .leave, .close, .pause, .endOfFile] ⟨fun _ => .one, 0⟩ 6 :=
  ⟨_, rfl, rfl, by decide, performed_eq_of_build_eq rfl rfl (by decide) ⟨fun _ => .one, 0⟩ 6⟩

/-- An exit that depends on the tape and one that does not may have one graph: on a tape of ones only
the first of these programs gets to move. -/
theorem performed_ne_of_conditional_exit :
    (∃ graph,
      build [.branch .zero, .leave, .close, .moveRight, .endOfFile] = .ok graph ∧
      build [.branch .zero, .close, .leave, .moveRight, .endOfFile] = .ok graph) ∧
    performed [.branch .zero, .leave, .close, .moveRight, .endOfFile] ⟨fun _ => .one, 0⟩ 2 ≠
      performed [.branch .zero, .close, .leave, .moveRight, .endOfFile] ⟨fun _ => .one, 0⟩ 2 :=
  ⟨⟨_, rfl, rfl⟩, by decide⟩

end TapeFlow
