import TapeFlow.Command.Request

namespace TapeFlow

/-! What the arguments that are accepted have in common. A property of drafts that every option and
every positional argument keeps is a property of the draft that a run is made of. -/

namespace Arguments

variable {α β : Type} {good : α → Prop} {better : β → Prop} {draft : Draft}

/-- Either a result with a property, or an end of the command that is no run. -/
def Leads (good : α → Prop) : Except Invocation α → Prop
  | .ok result => good result
  | .error invocation => ∀ request, invocation ≠ .run request

theorem leads_misuse : Leads good (.error .misuse) := by
  intro request same
  cases same

theorem Leads.of_ok {result : Except Invocation α} {value : α} (leads : Leads good result)
    (same : result = .ok value) : good value := by
  rw [same] at leads
  exact leads

theorem Leads.of_error {result : Except Invocation α} {invocation : Invocation}
    (leads : Leads good result) (same : result = .error invocation) :
    Leads better (.error invocation) := by
  rw [same] at leads
  exact leads

theorem Leads.map {result : Except Invocation α} {next : α → β} (leads : Leads good result)
    (kept : ∀ result, good result → better (next result)) : Leads better (result.map next) := by
  cases result with
  | error invocation => exact leads
  | ok result => exact kept result leads

/-- The output is not given as an empty path. -/
def Draft.Named (draft : Draft) : Prop :=
  draft.output ≠ some []

def Effect.Named : Effect → Prop
  | .taken draft => draft.Named
  | .awaits draft _ => draft.Named

theorem Draft.Named.set (named : draft.Named) (setting : Setting) (value : Text) :
    Leads Draft.Named (draft.set setting value) := by
  cases setting with
  | output =>
      rw [Draft.set, Draft.setOutput]
      split
      · exact leads_misuse
      · rename_i given
        intro same
        exact given (.inr (Option.some.inj same))
  | encoding =>
      rw [Draft.set, Draft.setEncoding]
      split
      · exact named
      · exact leads_misuse

theorem Draft.Named.setQuiet (named : draft.Named) : Leads Draft.Named draft.setQuiet := by
  rw [Draft.setQuiet]
  split
  · exact leads_misuse
  · exact named

theorem Draft.Named.addPositional (named : draft.Named) (argument : Text) :
    Leads Draft.Named (draft.addPositional argument) := by
  rw [Draft.addPositional]
  split
  · split
    · exact leads_misuse
    · exact named
  · split
    · exact named
    · exact leads_misuse

theorem Draft.Named.valued (named : draft.Named) (setting : Setting) (value : Text) :
    Leads Effect.Named ((draft.set setting value).map .taken) :=
  (named.set setting value).map fun _ kept => kept

theorem Draft.Named.letters (named : draft.Named) (argument : Text) :
    Leads Effect.Named (letters draft argument) := by
  fun_induction Arguments.letters draft argument with
  | case1 => exact named
  | case2 draft rest setting | case3 draft rest setting =>
      dsimp only [setting]
      split
      · exact named
      · exact named.valued _ _
      · exact named.valued _ _
  | case4 | case5 => intro request same; cases same
  | case6 draft rest quieter quiet ih => exact ih (named.setQuiet.of_ok quiet)
  | case7 draft rest invocation refused => exact named.setQuiet.of_error refused
  | case8 => exact leads_misuse

theorem Draft.Named.word (named : draft.Named) (argument : Text) :
    Leads Effect.Named (word draft argument) := by
  unfold Arguments.word
  split
  split
  · exact named.valued _ _
  · exact named
  · exact leads_misuse
  · split
    · exact named.setQuiet.map fun _ kept => kept
    · split
      · intro request same
        cases same
      · split
        · intro request same
          cases same
        · exact leads_misuse

theorem Draft.Named.option (named : draft.Named) (argument : Text) :
    Leads Effect.Named (option draft argument) := by
  unfold Arguments.option
  split
  · exact named.word _
  · exact named.letters _

theorem Draft.Named.addPositionals (named : draft.Named) (arguments : List Text) :
    Leads Draft.Named (arguments.foldlM Draft.addPositional draft) := by
  induction arguments generalizing draft with
  | nil => exact named
  | cons argument arguments ih =>
      rw [List.foldlM_cons]
      cases taken : draft.addPositional argument with
      | error invocation => exact (named.addPositional argument).of_error taken
      | ok middle => exact ih ((named.addPositional argument).of_ok taken)

theorem Draft.Named.take (named : draft.Named) (arguments : List Text) :
    Leads Draft.Named (take draft arguments) := by
  fun_induction Arguments.take draft arguments with
  | case1 => exact named
  | case2 => exact named.addPositionals _
  | case3 draft argument rest _ _ invocation found => exact (named.option argument).of_error found
  | case4 draft argument rest _ _ middle found ih => exact ih ((named.option argument).of_ok found)
  | case5 | case6 => exact leads_misuse
  | case7 draft argument _ _ middle setting found value rest _ invocation given =>
      have awaiting : middle.Named := (named.option argument).of_ok found
      exact (awaiting.set setting value).of_error given
  | case8 draft argument _ _ middle setting found value rest _ later given ih =>
      have awaiting : middle.Named := (named.option argument).of_ok found
      exact ih ((awaiting.set setting value).of_ok given)
  | case9 draft argument rest _ _ invocation found =>
      exact (named.addPositional argument).of_error found
  | case10 draft argument rest _ _ middle found ih =>
      exact ih ((named.addPositional argument).of_ok found)

end Arguments

theorem output_ne_nil_of_accepted {arguments : List Text} {request : Request}
    (accepted : Invocation.ofArguments arguments = .run request) : request.output ≠ some [] := by
  have start : Arguments.Draft.Named {} := by
    intro same
    cases same
  have leads := start.take arguments
  rw [Invocation.ofArguments] at accepted
  cases taken : Arguments.take {} arguments with
  | error invocation =>
      rw [taken] at accepted leads
      exact absurd accepted (leads request)
  | ok draft =>
      rw [taken] at accepted leads
      simp only [Arguments.Draft.invocation] at accepted
      split at accepted
      · cases accepted
      · cases accepted
        exact leads

end TapeFlow
