import TapeFlow.Proofs.FirstFault
import TapeFlow.Proofs.Growth

namespace TapeFlow

/-! What a graph tells of the program it was built from. A branch whose block only leaves and the
same branch with an empty block in front of as many leaves have one graph, since leaving does not
move on and an empty block adds no edge. `settle` moves such leaves behind the closer; apart from
that, different programs have different graphs. -/

/-- A list that begins with leaves, perhaps none, and then a closer. -/
def ClosesBare (tokens : List Token) : Prop :=
  ∃ count rest, tokens = List.replicate count .leave ++ .close :: rest

/-- Moves a closer in front of the leaves before it, if there is nothing else before it. -/
def hoist (tokens : List Token) : List Token :=
  match tokens.dropWhile (· = .leave) with
  | .close :: rest => .close :: (tokens.takeWhile (· = .leave) ++ rest)
  | _ => tokens

/-- Moves the leaves of every branch that holds nothing else behind its closer. -/
def settle : List Token → List Token
  | [] => []
  | .branch symbol :: rest => .branch symbol :: hoist (settle rest)
  | token :: rest => token :: settle rest

variable {tokens rest : List Token}

theorem hoist_bare (count : Nat) (rest : List Token) :
    hoist (List.replicate count .leave ++ .close :: rest) =
      .close :: (List.replicate count .leave ++ rest) := by
  have leaves : ∀ token ∈ List.replicate count Token.leave, (token = .leave : Bool) = true := by
    intro token member
    exact decide_eq_true (List.eq_of_mem_replicate member)
  rw [hoist, List.dropWhile_append_of_pos leaves, List.takeWhile_append_of_pos leaves]
  simp

theorem closesBare_of_dropWhile (closer : tokens.dropWhile (· = .leave) = .close :: rest) :
    ClosesBare tokens := by
  refine ⟨(tokens.takeWhile (· = .leave)).length, rest, ?_⟩
  rw [← closer, ← List.eq_replicate_of_mem, List.takeWhile_append_dropWhile]
  intro token member
  exact of_decide_eq_true (List.all_eq_true.mp List.all_takeWhile token member)

theorem hoist_of_not_bare (holds : ¬ ClosesBare tokens) : hoist tokens = tokens := by
  unfold hoist
  split
  · exact absurd (closesBare_of_dropWhile ‹_›) holds
  · rfl

theorem settle_operation (operation : Operation) (rest : List Token) :
    settle (operation.token :: rest) = operation.token :: settle rest := by
  cases operation <;> rfl

theorem settle_leaves (count : Nat) (rest : List Token) :
    settle (List.replicate count .leave ++ rest) = List.replicate count .leave ++ settle rest := by
  induction count with
  | zero => rfl
  | succ count ih =>
      rw [List.replicate_succ]
      exact congrArg (Token.leave :: ·) ih

/-- What `settle` does to a branch whose block only leaves. -/
theorem settle_bare (symbol : Symbol) (count : Nat) (rest : List Token) :
    settle (.branch symbol :: (List.replicate count .leave ++ .close :: rest)) =
      .branch symbol :: .close :: (List.replicate count .leave ++ settle rest) := by
  have inner : settle (.close :: rest) = .close :: settle rest := rfl
  rw [settle, settle_leaves, inner, hoist_bare]

theorem closesBare_leave : ClosesBare (.leave :: rest) ↔ ClosesBare rest := by
  constructor
  · rintro ⟨count, after, same⟩
    cases count with
    | zero => cases same
    | succ count =>
        rw [List.replicate_succ] at same
        exact ⟨count, after, (List.cons.inj same).2⟩
  · rintro ⟨count, after, rfl⟩
    exact ⟨count + 1, after, rfl⟩

theorem closesBare_close (rest : List Token) : ClosesBare (.close :: rest) :=
  ⟨0, rest, rfl⟩

theorem closesBare_of_append_end (closes : ClosesBare (tokens ++ .endOfFile :: rest)) :
    ClosesBare tokens := by
  obtain ⟨count, after, same⟩ := closes
  induction count generalizing tokens with
  | zero =>
      cases tokens with
      | nil => cases same
      | cons token tokens =>
          cases (List.cons.inj same).1
          exact closesBare_close tokens
  | succ count ih =>
      cases tokens with
      | nil => cases same
      | cons token tokens =>
          rw [List.replicate_succ] at same
          obtain ⟨rfl, sameRest⟩ := List.cons.inj same
          exact closesBare_leave.mpr (ih sameRest)

theorem ClosesBare.head {token : Token} (closes : ClosesBare (token :: rest)) :
    token = .leave ∨ token = .close := by
  obtain ⟨count, after, same⟩ := closes
  cases count with
  | zero => exact .inr (List.cons.inj same).1
  | succ count =>
      rw [List.replicate_succ] at same
      exact .inl (List.cons.inj same).1

theorem closesBare_of_settle (closes : ClosesBare (settle tokens)) : ClosesBare tokens := by
  induction tokens with
  | nil => exact closes
  | cons token rest ih =>
      cases token using Token.kindCases with
      | leave => exact closesBare_leave.mpr (ih (closesBare_leave.mp closes))
      | close => exact closesBare_close rest
      | act operation =>
          rw [settle_operation] at closes
          cases operation <;> rcases closes.head with other | other <;> cases other
      | _ => rcases closes.head with other | other <;> cases other

/-- What `settle` does to any other branch: it goes on behind the opener. -/
theorem settle_of_not_bare (symbol : Symbol) (holds : ¬ ClosesBare rest) :
    settle (.branch symbol :: rest) = .branch symbol :: settle rest := by
  rw [settle, hoist_of_not_bare (fun closes => holds (closesBare_of_settle closes))]

theorem hoist_perm (tokens : List Token) : (hoist tokens).Perm tokens := by
  by_cases closes : ClosesBare tokens
  · obtain ⟨count, rest, rfl⟩ := closes
    rw [hoist_bare]
    exact List.perm_middle.symm
  · rw [hoist_of_not_bare closes]

theorem settle_perm (tokens : List Token) : (settle tokens).Perm tokens := by
  induction tokens with
  | nil => exact .nil
  | cons token rest ih =>
      cases token with
      | branch symbol => exact ((hoist_perm _).trans ih).cons _
      | _ => exact ih.cons _

/-- No branch holds leaves and nothing else. -/
def Settled : List Token → Prop
  | [] => True
  | .branch _ :: rest => (ClosesBare rest → rest.head? = some .close) ∧ Settled rest
  | _ :: rest => Settled rest

theorem Settled.tail {token : Token} (settled : Settled (token :: rest)) : Settled rest := by
  cases token with
  | branch symbol => exact settled.2
  | _ => exact settled

theorem settled_leaves (count : Nat) :
    Settled (List.replicate count .leave ++ rest) ↔ Settled rest := by
  induction count with
  | zero => rfl
  | succ count ih => exact ih

theorem settled_settle (tokens : List Token) : Settled (settle tokens) := by
  induction tokens with
  | nil => trivial
  | cons token rest ih =>
      cases token with
      | branch symbol =>
          rw [settle]
          by_cases closes : ClosesBare (settle rest)
          · obtain ⟨count, after, same⟩ := closes
            rw [same, settled_leaves] at ih
            rw [same, hoist_bare]
            exact ⟨fun _ => rfl, (settled_leaves count).mpr ih⟩
          · rw [hoist_of_not_bare closes]
            exact ⟨fun bare => absurd bare closes, ih⟩
      | _ => exact ih

namespace Builder

variable {builder next : Builder} {index : Nat} {graph : Graph}

theorem closeBranch_current (builder : Builder) :
    builder.closeBranch builder.current = { builder with exit := .pastBranch } := by
  simp [closeBranch]

/-- Leaving goes by the loops that are open, not by the branches. -/
theorem leave_with (builder : Builder) (exit : Exit) (scopes : List Scope) :
    { builder with exit := exit, scopes := scopes }.leave =
      { builder.leave with exit := exit, scopes := scopes } := by
  obtain ⟨nodes, current, _, _, loops⟩ := builder
  cases loops <;> rfl

theorem run_leave_close {opened : Nat} {outer : List Scope}
    (bare : builder.scopes = ⟨.branch, builder.current, opened⟩ :: outer) (rest : List Token) :
    builder.run index (.leave :: .close :: rest) = builder.run index (.close :: .leave :: rest) := by
  have bareAfter : builder.leave.scopes = ⟨.branch, builder.leave.current, opened⟩ :: outer := by
    rw [leave_scopes, leave_current, bare]
  rw [Takes.leave.run_cons, (Takes.closeBranch bareAfter).run_cons, closeBranch_current,
    (Takes.closeBranch bare).run_cons, closeBranch_current, Takes.leave.run_cons]
  exact congrArg (run · _ rest) (leave_with builder .pastBranch outer).symm

theorem run_hoist {opened : Nat} {outer : List Scope}
    (bare : builder.scopes = ⟨.branch, builder.current, opened⟩ :: outer) (count : Nat)
    (rest : List Token) :
    builder.run index (List.replicate count .leave ++ .close :: rest) =
      builder.run index (.close :: (List.replicate count .leave ++ rest)) := by
  induction count generalizing builder index with
  | zero => rfl
  | succ count ih =>
      have bareAfter : builder.leave.scopes = ⟨.branch, builder.leave.current, opened⟩ :: outer := by
        rw [leave_scopes, leave_current, bare]
      calc
        _ = builder.leave.run (index + 1) (List.replicate count .leave ++ .close :: rest) :=
          Takes.leave.run_cons _
        _ = builder.leave.run (index + 1) (.close :: (List.replicate count .leave ++ rest)) :=
          ih bareAfter
        _ = builder.run index (.leave :: .close :: (List.replicate count .leave ++ rest)) :=
          (Takes.leave.run_cons _).symm
        _ = _ := run_leave_close bare _

theorem run_cons_congr {left right : List Token} (token : Token)
    (same : ∀ (builder : Builder) (index : Nat), builder.run index left = builder.run index right) :
    builder.run index (token :: left) = builder.run index (token :: right) := by
  rw [run, run]
  cases builder.step index token with
  | error reason => rfl
  | ok next => simp only [same]

/-- Settling changes neither the graph nor the fault that a builder comes to. -/
theorem run_settle (builder : Builder) (index : Nat) (tokens after : List Token) :
    builder.run index (settle tokens ++ after) = builder.run index (tokens ++ after) := by
  induction tokens generalizing builder index with
  | nil => rfl
  | cons token rest ih =>
      cases token using Token.kindCases with
      | branch symbol =>
          -- Behind its opener the branch is the current node, as moving its closer requires.
          have bare : (builder.openBranch index symbol).scopes =
            ⟨.branch, (builder.openBranch index symbol).current, index⟩ :: builder.scopes := rfl
          rw [settle, List.cons_append, List.cons_append, (Takes.branch symbol).run_cons,
            (Takes.branch symbol).run_cons, ← ih]
          by_cases closes : ClosesBare (settle rest)
          · obtain ⟨count, inner, same⟩ := closes
            rw [same, hoist_bare]
            simpa using (run_hoist bare count (inner ++ after)).symm
          · rw [hoist_of_not_bare closes]
      | act operation =>
          rw [settle_operation]
          exact run_cons_congr _ ih
      | _ => exact run_cons_congr _ ih

end Builder

theorem build_settle (tokens after : List Token) :
    build (settle tokens ++ after) = build (tokens ++ after) :=
  Builder.initial.run_settle 0 tokens after

end TapeFlow
