import Mathlib.Logic.ExistsUnique
import TapeFlow.Proofs.Runs

namespace TapeFlow

/-! Which token lists the builder accepts, and what it says of the others, by counting alone: the
blocks open at a place are the openers before it less the closers. The stacks of the builder do not
occur in the statements; a builder at a place of a list has as many open blocks as the count says,
and the outermost of them was opened where the count was last zero. -/

def Token.weight : Token → Int
  | .branch _ => 1
  | .loop => 1
  | .close => -1
  | _ => 0

/-- The openers before a place less the closers before it. -/
def depth (tokens : List Token) (place : Nat) : Int :=
  ((tokens.take place).countP Token.opens : Int) - ((tokens.take place).count .close : Int)

/-- The place of the first end mark, or the length of a list that has none. -/
def endPlace (tokens : List Token) : Nat :=
  tokens.findIdx (· = .endOfFile)

/-- The token at a place is unknown, or closes a block where none is open. -/
def FaultAt (tokens : List Token) (place : Nat) : Prop :=
  (∃ word, tokens[place]? = some (.unknown word)) ∨
    (tokens[place]? = some .close ∧ depth tokens place = 0)

def FirstFault (tokens : List Token) (place : Nat) : Prop :=
  place < endPlace tokens ∧ FaultAt tokens place ∧ ∀ earlier < place, ¬ FaultAt tokens earlier

def Faultless (tokens : List Token) : Prop :=
  ∀ place < endPlace tokens, ¬ FaultAt tokens place

/-- No block is open at a place, and from then on to the end mark one always is. -/
def OpenSince (tokens : List Token) (place : Nat) : Prop :=
  place < endPlace tokens ∧ depth tokens place = 0 ∧
    ∀ later, place < later → later ≤ endPlace tokens → 0 < depth tokens later

variable {tokens rest : List Token} {token : Token} {place : Nat}

theorem getElem?_of_drop (remaining : tokens.drop place = token :: rest) :
    tokens[place]? = some token := by
  rw [← List.head?_drop, remaining, List.head?_cons]

theorem drop_succ_of_drop (remaining : tokens.drop place = token :: rest) :
    tokens.drop (place + 1) = rest := by
  rw [← List.tail_drop, remaining, List.tail_cons]

theorem depth_zero (tokens : List Token) : depth tokens 0 = 0 := by
  simp [depth]

theorem depth_succ (found : tokens[place]? = some token) :
    depth tokens (place + 1) = depth tokens place + token.weight := by
  simp only [depth, List.take_add_one, found, Option.toList_some, List.countP_append,
    List.count_append, List.countP_singleton, List.count_singleton]
  cases token <;> simp [Token.opens, Token.weight] <;> omega

theorem lt_endPlace (reached : place ≤ endPlace tokens) (found : tokens[place]? = some token)
    (inside : token ≠ .endOfFile) : place < endPlace tokens := by
  refine Nat.lt_of_le_of_ne reached ?_
  rintro rfl
  obtain ⟨bound, rfl⟩ := List.getElem?_eq_some_iff.mp found
  have marked := List.findIdx_getElem (w := bound)
  exact inside (of_decide_eq_true marked)

theorem endPlace_eq (reached : place ≤ endPlace tokens)
    (found : tokens[place]? = some .endOfFile) : endPlace tokens = place := by
  obtain ⟨bound, marked⟩ := List.getElem?_eq_some_iff.mp found
  refine Nat.le_antisymm (Nat.le_of_not_lt ?_) reached
  intro before
  simpa [marked] using List.not_of_lt_findIdx before

namespace Builder

variable {builder next : Builder}

theorem Takes.scopes_change {index : Nat} (taken : builder.Takes index token next) :
    (token.weight = 1 ∧ ∃ scope : Scope, scope.opened = index ∧
        next.scopes = scope :: builder.scopes) ∨
      (token.weight = -1 ∧ ∃ scope, builder.scopes = scope :: next.scopes) ∨
      (token.weight = 0 ∧ next.scopes = builder.scopes) := by
  cases taken with
  | act operation => exact .inr (.inr ⟨by cases operation <;> rfl, rfl⟩)
  | branch symbol => exact .inl ⟨rfl, _, rfl, rfl⟩
  | loop => exact .inl ⟨rfl, _, rfl, rfl⟩
  | leave => exact .inr (.inr ⟨rfl, leave_scopes builder⟩)
  | closeBranch innermost => exact .inr (.inl ⟨rfl, _, innermost⟩)
  | closeLoop innermost => exact .inr (.inl ⟨rfl, _, innermost⟩)

/-- A builder at a place of a token list, before its end mark: it has as many open blocks as the
list has by count, the outermost of them was opened where the count was last zero, and nothing it
has taken in was a fault. -/
structure StandsAt (builder : Builder) (tokens : List Token) (place : Nat) : Prop where
  reached : place ≤ endPlace tokens
  faultless : ∀ earlier < place, ¬ FaultAt tokens earlier
  depth_eq : (builder.scopes.length : Int) = depth tokens place
  outermost : ∀ scope, builder.scopes.getLast? = some scope →
    scope.opened < place ∧ depth tokens scope.opened = 0 ∧
      ∀ later, scope.opened < later → later ≤ place → 0 < depth tokens later

theorem initial_standsAt (tokens : List Token) : initial.StandsAt tokens 0 where
  reached := Nat.zero_le _
  faultless := by intro earlier before; omega
  depth_eq := (depth_zero tokens).symm
  outermost := by intro scope last; cases last

namespace StandsAt

theorem not_fault (stands : builder.StandsAt tokens place) (found : tokens[place]? = some token)
    (taken : builder.Takes place token next) : ¬ FaultAt tokens place := by
  rintro (⟨word, unknown⟩ | ⟨closer, level⟩)
  · rw [found] at unknown
    cases unknown
    exact taken.not_unknown rfl
  · rw [found] at closer
    cases closer
    have counted := stands.depth_eq
    rcases taken.scopes_change with ⟨weight, _⟩ | ⟨_, scope, popped⟩ | ⟨weight, _⟩
    · cases weight
    · rw [popped, List.length_cons] at counted
      omega
    · cases weight

/-- The outermost block after a token is the one that it opens where none was open, and otherwise
the one there was. -/
theorem outermost_step (stands : builder.StandsAt tokens place)
    (taken : builder.Takes place token next) {scope : Scope}
    (last : next.scopes.getLast? = some scope) :
    scope.opened < place + 1 ∧ depth tokens scope.opened = 0 ∧
      ∀ later, scope.opened < later → later ≤ place → 0 < depth tokens later := by
  have kept (before : builder.scopes.getLast? = some scope) :
      scope.opened < place + 1 ∧ depth tokens scope.opened = 0 ∧
        ∀ later, scope.opened < later → later ≤ place → 0 < depth tokens later := by
    obtain ⟨opened, level, above⟩ := stands.outermost scope before
    exact ⟨Nat.lt_succ_of_lt opened, level, above⟩
  rcases taken.scopes_change with ⟨_, added, atPlace, pushed⟩ | ⟨_, top, popped⟩ | ⟨_, same⟩
  · rw [pushed, List.getLast?_cons] at last
    cases before : builder.scopes.getLast? with
    | some outermost =>
        rw [before] at last
        exact kept (before.trans last)
    | none =>
        rw [before] at last
        cases last
        have level := stands.depth_eq
        rw [List.getLast?_eq_none_iff.mp before] at level
        rw [Option.getD_none, atPlace]
        refine ⟨Nat.lt_succ_self place, level.symm, ?_⟩
        intro later above atMost
        omega
  · exact kept (by rw [popped, List.getLast?_cons, last, Option.getD_some])
  · exact kept (same ▸ last)

theorem depth_step (stands : builder.StandsAt tokens place) (found : tokens[place]? = some token)
    (taken : builder.Takes place token next) :
    (next.scopes.length : Int) = depth tokens (place + 1) := by
  have counted := stands.depth_eq
  rw [depth_succ found]
  rcases taken.scopes_change with ⟨weight, scope, _, pushed⟩ | ⟨weight, scope, popped⟩ |
    ⟨weight, same⟩
  · rw [pushed, List.length_cons, weight]
    omega
  · rw [popped, List.length_cons] at counted
    rw [weight]
    omega
  · rw [same, weight]
    omega

theorem step (stands : builder.StandsAt tokens place) (found : tokens[place]? = some token)
    (taken : builder.Takes place token next) : next.StandsAt tokens (place + 1) where
  reached := lt_endPlace stands.reached found taken.not_end
  faultless := by
    intro earlier before
    rcases Nat.lt_succ_iff_lt_or_eq.mp before with before | rfl
    · exact stands.faultless earlier before
    · exact stands.not_fault found taken
  depth_eq := stands.depth_step found taken
  outermost := by
    intro scope last
    obtain ⟨opened, level, above⟩ := stands.outermost_step taken last
    refine ⟨opened, level, ?_⟩
    intro later after atMost
    rcases Nat.le_succ_iff.mp atMost with atMost | rfl
    · exact above later after atMost
    · have nonempty : 0 < next.scopes.length :=
        List.length_pos_of_mem (List.mem_of_getLast? last)
      rw [← stands.depth_step found taken]
      omega

end StandsAt

end Builder

/-- The fault that counting finds in a token list, or none. -/
def Verdict (tokens : List Token) : Option BuildError → Prop
  | some (.unknownToken place word) =>
    FirstFault tokens place ∧ tokens[place]? = some (.unknown word)
  | some (.unmatchedCloser place) => FirstFault tokens place ∧ tokens[place]? = some .close
  | some .missingEndOfFile => Faultless tokens ∧ .endOfFile ∉ tokens
  | some (.unclosedScope place) => Faultless tokens ∧ .endOfFile ∈ tokens ∧ OpenSince tokens place
  | none => Faultless tokens ∧ .endOfFile ∈ tokens ∧ depth tokens (endPlace tokens) = 0

def refusal : Except BuildError Graph → Option BuildError
  | .error reason => some reason
  | .ok _ => none

namespace Builder.StandsAt

variable {builder : Builder}

theorem faultless_of_endPlace (stands : builder.StandsAt tokens place)
    (atEnd : endPlace tokens = place) : Faultless tokens := by
  intro earlier before
  exact stands.faultless earlier (atEnd ▸ before)

theorem firstFault (stands : builder.StandsAt tokens place) (found : tokens[place]? = some token)
    (inside : token ≠ .endOfFile) (fault : FaultAt tokens place) : FirstFault tokens place :=
  ⟨lt_endPlace stands.reached found inside, fault, stands.faultless⟩

theorem verdict_finish (stands : builder.StandsAt tokens place)
    (found : tokens[place]? = some .endOfFile) :
    Verdict tokens (refusal (builder.addNode .endProgram .endOfFile).finish) := by
  have atEnd := endPlace_eq stands.reached found
  have marked := List.mem_of_getElem? found
  have faultless := stands.faultless_of_endPlace atEnd
  have finished : (builder.addNode .endProgram .endOfFile).scopes = builder.scopes := rfl
  rw [finish, finished]
  cases last : builder.scopes.getLast? with
  | none =>
      have level := stands.depth_eq
      rw [List.getLast?_eq_none_iff.mp last, ← atEnd] at level
      exact ⟨faultless, marked, level.symm⟩
  | some scope =>
      obtain ⟨opened, level, above⟩ := stands.outermost scope last
      rw [← atEnd] at opened above
      exact ⟨faultless, marked, opened, level, above⟩

/-- From any place on, the builder's answer is the verdict on the whole list. -/
theorem verdict_run (stands : builder.StandsAt tokens place)
    (remaining : tokens.drop place = rest) : Verdict tokens (refusal (builder.run place rest)) := by
  induction rest generalizing builder place with
  | nil =>
      have past := List.drop_eq_nil_iff.mp remaining
      have atEnd : endPlace tokens = place :=
        Nat.le_antisymm (Nat.le_trans List.findIdx_le_length past) stands.reached
      refine ⟨stands.faultless_of_endPlace atEnd, ?_⟩
      intro marked
      have before := List.findIdx_lt_length_of_exists (p := (· = Token.endOfFile))
        ⟨_, marked, decide_eq_true rfl⟩
      rw [endPlace] at atEnd
      omega
  | cons token rest ih =>
      have found := getElem?_of_drop remaining
      by_cases ends : token = .endOfFile
      · subst ends
        rw [run, Builder.step]
        exact stands.verdict_finish found
      · cases stepped : builder.step place token with
        | ok next =>
            have taken := (step_eq_ok_iff ends).mp stepped
            rw [taken.run_cons]
            exact ih (stands.step found taken) (drop_succ_of_drop remaining)
        | error reason =>
            rw [run, stepped]
            rcases step_eq_error stepped with ⟨rfl, closed, rfl⟩ | ⟨word, rfl, rfl⟩
            · have level := stands.depth_eq
              rw [closed] at level
              exact ⟨stands.firstFault found ends (.inr ⟨found, level.symm⟩), found⟩
            · exact ⟨stands.firstFault found ends (.inl ⟨word, found⟩), found⟩

end Builder.StandsAt

theorem verdict_build (tokens : List Token) : Verdict tokens (refusal (build tokens)) :=
  (Builder.initial_standsAt tokens).verdict_run rfl

theorem FirstFault.unique {other : Nat} (first : FirstFault tokens place)
    (second : FirstFault tokens other) : place = other := by
  obtain ⟨_, fault, before⟩ := first
  obtain ⟨_, otherFault, otherBefore⟩ := second
  rcases Nat.lt_trichotomy place other with earlier | same | later
  · exact absurd fault (otherBefore place earlier)
  · exact same
  · exact absurd otherFault (before other later)

theorem FirstFault.not_faultless (first : FirstFault tokens place) : ¬ Faultless tokens :=
  fun faultless => faultless place first.1 first.2.1

theorem OpenSince.unique {other : Nat} (first : OpenSince tokens place)
    (second : OpenSince tokens other) : place = other := by
  obtain ⟨inside, level, above⟩ := first
  obtain ⟨otherInside, otherLevel, otherAbove⟩ := second
  rcases Nat.lt_trichotomy place other with earlier | same | later
  · have opened := above other earlier (Nat.le_of_lt otherInside)
    omega
  · exact same
  · have opened := otherAbove place later (Nat.le_of_lt inside)
    omega

theorem OpenSince.depth_pos (opened : OpenSince tokens place) :
    0 < depth tokens (endPlace tokens) :=
  opened.2.2 _ opened.1 (Nat.le_refl _)

theorem Verdict.unique {first second : Option BuildError} (left : Verdict tokens first)
    (right : Verdict tokens second) : first = second := by
  have sameFault (place other : Nat) : FirstFault tokens place → FirstFault tokens other →
      place = other := FirstFault.unique
  have sameOpener (place other : Nat) : OpenSince tokens place → OpenSince tokens other →
      place = other := OpenSince.unique
  have faulty (place : Nat) : FirstFault tokens place → ¬ Faultless tokens :=
    FirstFault.not_faultless
  have opened (place : Nat) : OpenSince tokens place → 0 < depth tokens (endPlace tokens) :=
    OpenSince.depth_pos
  rcases first with _ | (_ | _ | _ | _) <;> rcases second with _ | (_ | _ | _ | _) <;>
    simp only [Verdict] at left right <;> grind

theorem build_eq_error_iff (tokens : List Token) (reason : BuildError) :
    build tokens = .error reason ↔ Verdict tokens (some reason) := by
  have verdict := verdict_build tokens
  constructor
  · intro refused
    rwa [refused] at verdict
  · intro given
    cases built : build tokens with
    | error other =>
        rw [built] at verdict
        cases verdict.unique given
        rfl
    | ok graph =>
        rw [built] at verdict
        cases verdict.unique given

theorem build_eq_ok_iff (tokens : List Token) :
    (∃ graph, build tokens = .ok graph) ↔ Verdict tokens none := by
  have verdict := verdict_build tokens
  constructor
  · rintro ⟨graph, built⟩
    rwa [built] at verdict
  · intro given
    cases built : build tokens with
    | error other =>
        rw [built] at verdict
        cases verdict.unique given
    | ok graph => exact ⟨graph, rfl⟩

theorem Faultless.depth_nonneg (faultless : Faultless tokens) :
    0 ≤ depth tokens (endPlace tokens) := by
  suffices within : ∀ place ≤ endPlace tokens, 0 ≤ depth tokens place from
    within _ (Nat.le_refl _)
  intro place
  induction place with
  | zero => intro _; exact Int.le_of_eq (depth_zero tokens).symm
  | succ place ih =>
      intro reached
      have nonnegative := ih (Nat.le_of_lt reached)
      have bound : place < tokens.length := Nat.lt_of_lt_of_le reached List.findIdx_le_length
      have found := List.getElem?_eq_getElem bound
      rw [depth_succ found]
      by_cases closes : tokens[place] = .close
      · have level : depth tokens place ≠ 0 := by
          intro level
          exact faultless place reached (.inr ⟨by rw [found, closes], level⟩)
        rw [closes, Token.weight]
        omega
      · have light : 0 ≤ tokens[place].weight := by
          cases kind : tokens[place] <;> simp [Token.weight]
          exact closes kind
        omega

theorem exists_openSince (faultless : Faultless tokens) (marked : .endOfFile ∈ tokens)
    (opened : 0 < depth tokens (endPlace tokens)) : ∃ place, OpenSince tokens place := by
  -- The builder finds the place: no other verdict fits the list.
  have verdict := verdict_build tokens
  match found : refusal (build tokens) with
  | none =>
      rw [found] at verdict
      have level := verdict.2.2
      omega
  | some (.unknownToken place word) =>
      rw [found] at verdict
      exact absurd faultless verdict.1.not_faultless
  | some (.unmatchedCloser place) =>
      rw [found] at verdict
      exact absurd faultless verdict.1.not_faultless
  | some .missingEndOfFile =>
      rw [found] at verdict
      exact absurd marked verdict.2
  | some (.unclosedScope place) =>
      rw [found] at verdict
      exact ⟨place, verdict.2.2⟩

/-- What the builder says of a token list is what counting says. The first unknown token or closer
that has nothing to close comes before everything else; then comes the end mark, and only then
the blocks that it leaves open, of which the outermost is named. -/
theorem build_reports_first_fault (tokens : List Token) :
    (∀ place word, build tokens = .error (.unknownToken place word) ↔
      FirstFault tokens place ∧ tokens[place]? = some (.unknown word)) ∧
    (∀ place, build tokens = .error (.unmatchedCloser place) ↔
      FirstFault tokens place ∧ tokens[place]? = some .close) ∧
    (build tokens = .error .missingEndOfFile ↔ Faultless tokens ∧ .endOfFile ∉ tokens) ∧
    (∀ place, build tokens = .error (.unclosedScope place) ↔
      Faultless tokens ∧ .endOfFile ∈ tokens ∧ 0 < depth tokens (endPlace tokens) ∧
        OpenSince tokens place) ∧
    ((∃ graph, build tokens = .ok graph) ↔
      Faultless tokens ∧ .endOfFile ∈ tokens ∧ ¬ 0 < depth tokens (endPlace tokens)) ∧
    (Faultless tokens → .endOfFile ∈ tokens → 0 < depth tokens (endPlace tokens) →
      ∃! place, OpenSince tokens place) := by
  refine ⟨fun place word => build_eq_error_iff tokens _, fun place => build_eq_error_iff tokens _,
    build_eq_error_iff tokens _, ?_, ?_, ?_⟩
  · intro place
    rw [build_eq_error_iff, Verdict]
    constructor
    · rintro ⟨faultless, marked, opened⟩
      exact ⟨faultless, marked, opened.depth_pos, opened⟩
    · rintro ⟨faultless, marked, _, opened⟩
      exact ⟨faultless, marked, opened⟩
  · rw [build_eq_ok_iff, Verdict]
    constructor
    · rintro ⟨faultless, marked, level⟩
      exact ⟨faultless, marked, by omega⟩
    · rintro ⟨faultless, marked, level⟩
      have nonnegative := faultless.depth_nonneg
      exact ⟨faultless, marked, by omega⟩
  · intro faultless marked opened
    obtain ⟨place, since⟩ := exists_openSince faultless marked opened
    exact ⟨place, since, fun other otherSince => otherSince.unique since⟩

end TapeFlow
