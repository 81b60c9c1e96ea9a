import TapeFlow.Graph.Builder

namespace TapeFlow

/-! Programs as trees. `Program.tokens` writes a program down, and `Program.segments` reads a token
list back: with blocks open, a list is one program up to the next unmatched closer, another one up
to the closer after it, and so on up to the end mark. -/

inductive Operation where
  | printState
  | pause
  | moveLeft
  | moveRight
  | write (symbol : Symbol)
  deriving DecidableEq

namespace Operation

def token : Operation → Token
  | .printState => .printState
  | .pause => .pause
  | .moveLeft => .moveLeft
  | .moveRight => .moveRight
  | .write symbol => .write symbol

def instruction : Operation → Instruction
  | .printState => .printState
  | .pause => .pause
  | .moveLeft => .moveLeft
  | .moveRight => .moveRight
  | .write symbol => .write symbol

end Operation

def Token.opens : Token → Bool
  | .branch _ => true
  | .loop => true
  | _ => false

/-- The kinds of token, with the five instructions that act taken together. -/
@[elab_as_elim] theorem Token.kindCases {motive : Token → Prop}
    (act : ∀ operation : Operation, motive operation.token)
    (branch : ∀ symbol, motive (.branch symbol)) (loop : motive .loop)
    (leave : motive .leave) (close : motive .close) (endOfFile : motive .endOfFile)
    (unknown : ∀ word, motive (.unknown word)) (token : Token) : motive token := by
  cases token with
  | printState => exact act .printState
  | pause => exact act .pause
  | moveLeft => exact act .moveLeft
  | moveRight => exact act .moveRight
  | write symbol => exact act (.write symbol)
  | branch symbol => exact branch symbol
  | loop => exact loop
  | leave => exact leave
  | close => exact close
  | endOfFile => exact endOfFile
  | unknown word => exact unknown word

/-- A list of statements: every constructor but `done` puts one statement in front of the rest. -/
inductive Program where
  | done
  | act (operation : Operation) (rest : Program)
  | leave (rest : Program)
  | branch (symbol : Symbol) (body rest : Program)
  | loop (body rest : Program)
  deriving DecidableEq

namespace Program

def tokens : Program → List Token
  | .done => []
  | .act operation rest => operation.token :: rest.tokens
  | .leave rest => .leave :: rest.tokens
  | .branch symbol body rest => .branch symbol :: (body.tokens ++ .close :: rest.tokens)
  | .loop body rest => .loop :: (body.tokens ++ .close :: rest.tokens)

theorem end_not_mem_tokens (program : Program) : .endOfFile ∉ program.tokens := by
  induction program with
  | done => exact List.not_mem_nil
  | act operation rest ih => cases operation <;> simpa [tokens, Operation.token] using ih
  | leave rest ih => simpa [tokens] using ih
  | branch symbol body rest bodyIH restIH => simp [tokens, bodyIH, restIH]
  | loop body rest bodyIH restIH => simp [tokens, bodyIH, restIH]

def append : Program → Program → Program
  | .done, after => after
  | .act operation rest, after => .act operation (rest.append after)
  | .leave rest, after => .leave (rest.append after)
  | .branch symbol body rest, after => .branch symbol body (rest.append after)
  | .loop body rest, after => .loop body (rest.append after)

theorem append_done (program : Program) : program.append .done = program := by
  induction program with
  | done => rfl
  | act operation rest ih => rw [append, ih]
  | leave rest ih => rw [append, ih]
  | branch symbol body rest _ ih => rw [append, ih]
  | loop body rest _ ih => rw [append, ih]

/-- Puts a token in front of what follows it, given segment by segment. No segments at all stand
for a list that cannot be read. -/
def prepend : Token → List Program → List Program
  | .endOfFile, _ => [.done]
  | .close, inner :: outer => .done :: inner :: outer
  | .branch symbol, body :: rest :: outer => .branch symbol body rest :: outer
  | .loop, body :: rest :: outer => .loop body rest :: outer
  | .leave, rest :: outer => .leave rest :: outer
  | .printState, rest :: outer => .act .printState rest :: outer
  | .pause, rest :: outer => .act .pause rest :: outer
  | .moveLeft, rest :: outer => .act .moveLeft rest :: outer
  | .moveRight, rest :: outer => .act .moveRight rest :: outer
  | .write symbol, rest :: outer => .act (.write symbol) rest :: outer
  | _, _ => []

/-- The programs that a token list holds between its unmatched closers, up to the end mark. -/
def segments : List Token → List Program
  | [] => []
  | token :: rest => prepend token (segments rest)

def read? (tokens : List Token) : Option Program :=
  match segments tokens with
  | [program] => some program
  | _ => none

theorem prepend_operation (operation : Operation) (rest : Program) (outer : List Program) :
    prepend operation.token (rest :: outer) = .act operation rest :: outer := by
  cases operation <;> rfl

theorem length_prepend_opener {token : Token} {following : List Program} {count : Nat}
    (opens : token.opens = true) (long : following.length = count + 2) :
    (prepend token following).length = count + 1 := by
  obtain ⟨body, outer, rfl⟩ := List.exists_cons_of_length_eq_add_one long
  obtain ⟨rest, outer, rfl⟩ :=
    List.exists_cons_of_length_eq_add_one (Nat.succ.inj long : outer.length = count + 1)
  cases token with
  | branch symbol => exact Nat.succ.inj long
  | loop => exact Nat.succ.inj long
  | _ => cases opens

theorem segments_tokens_append (program : Program) {after : Program} {outer : List Program}
    {rest : List Token} (read : segments rest = after :: outer) :
    segments (program.tokens ++ rest) = program.append after :: outer := by
  induction program generalizing after outer rest with
  | done => exact read
  | act operation next ih =>
      simp only [tokens, List.cons_append, segments, ih read, prepend_operation, append]
  | leave next ih =>
      simp only [tokens, List.cons_append, segments, ih read, prepend, append]
  | branch symbol body next bodyIH nextIH =>
      have closed : segments (.close :: (next.tokens ++ rest)) =
          .done :: next.append after :: outer := by
        simp only [segments, nextIH read, prepend]
      simp only [tokens, List.cons_append, List.append_assoc, segments, bodyIH closed, prepend,
        append, append_done]
  | loop body next bodyIH nextIH =>
      have closed : segments (.close :: (next.tokens ++ rest)) =
          .done :: next.append after :: outer := by
        simp only [segments, nextIH read, prepend]
      simp only [tokens, List.cons_append, List.append_assoc, segments, bodyIH closed, prepend,
        append, append_done]

theorem segments_tokens_end (program : Program) (rest : List Token) :
    segments (program.tokens ++ .endOfFile :: rest) = [program] := by
  have ended : segments (.endOfFile :: rest) = [.done] := rfl
  rw [program.segments_tokens_append ended, append_done]

theorem tokens_injective {left right : Program} (same : left.tokens = right.tokens) :
    left = right := by
  have read := left.segments_tokens_end []
  rw [same, right.segments_tokens_end] at read
  injection read with equal
  exact equal.symm

/-- A first segment and the ones around it, written down with the closers between them and the end
mark after the last. -/
def written (first : Program) (outer : List Program) (rest : List Token) : List Token :=
  match outer with
  | [] => first.tokens ++ .endOfFile :: rest
  | next :: outer => first.tokens ++ .close :: written next outer rest

theorem written_eq (first : Program) (outer : List Program) (rest : List Token) :
    first.written outer rest = first.tokens ++ Program.done.written outer rest := by
  cases outer <;> rfl

theorem written_prepend {token : Token} {inner first : Program} {after outer : List Program}
    (inside : token ≠ .endOfFile) (read : prepend token (inner :: after) = first :: outer)
    (rest : List Token) : first.written outer rest = token :: inner.written after rest := by
  cases token using Token.kindCases with
  | act operation =>
      rw [prepend_operation] at read
      cases read
      rw [written_eq, written_eq inner]
      rfl
  | leave =>
      cases read
      rw [written_eq, written_eq inner]
      rfl
  | branch symbol =>
      cases after with
      | nil => cases read
      | cons next after =>
          cases read
          rw [written, written_eq next, written_eq (.branch symbol inner next)]
          simp [tokens]
  | loop =>
      cases after with
      | nil => cases read
      | cons next after =>
          cases read
          rw [written, written_eq next, written_eq (.loop inner next)]
          simp [tokens]
  | close => cases read; rfl
  | endOfFile => exact absurd rfl inside
  | unknown word => cases read

theorem prepend_nil {token : Token} (inside : token ≠ .endOfFile) : prepend token [] = [] := by
  cases token with
  | endOfFile => exact absurd rfl inside
  | _ => rfl

theorem tokens_of_segments {tokens : List Token} {first : Program} {outer : List Program}
    (read : segments tokens = first :: outer) : ∃ rest, tokens = first.written outer rest := by
  induction tokens generalizing first outer with
  | nil => cases read
  | cons token tail ih =>
      rw [segments] at read
      by_cases ends : token = .endOfFile
      · subst ends
        cases read
        exact ⟨tail, rfl⟩
      · cases found : segments tail with
        | nil => rw [found, prepend_nil ends] at read; cases read
        | cons inner after =>
            obtain ⟨rest, same⟩ := ih found
            rw [found] at read
            exact ⟨rest, by rw [same, written_prepend ends read]⟩

theorem read?_tokens (program : Program) (rest : List Token) :
    read? (program.tokens ++ .endOfFile :: rest) = some program := by
  rw [read?, program.segments_tokens_end]

end Program

end TapeFlow
