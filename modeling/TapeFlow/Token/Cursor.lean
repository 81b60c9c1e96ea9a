import TapeFlow.Token.Line

namespace TapeFlow

/-- A place between two lines of a text that is being read. -/
structure Cursor where
  /-- How many lines are read. -/
  line : Nat
  /-- The lines to come. -/
  rest : List Text

namespace Cursor

def ofText (text : Text) : Cursor :=
  ⟨0, text.lines⟩

/-- The tokens of the next line and the place after it. -/
def next? : Cursor → Option (List Token × Cursor)
  | ⟨_, []⟩ => none
  | ⟨line, first :: rest⟩ => some (Line.tokens first, ⟨line + 1, rest⟩)

/-- The tokens of all lines to come and the place at the end. -/
def drain : Cursor → List Token × Cursor
  | ⟨line, []⟩ => ([], ⟨line, []⟩)
  | ⟨line, first :: rest⟩ =>
    let (tokens, done) := drain ⟨line + 1, rest⟩
    (Line.tokens first ++ tokens, done)
termination_by cursor => cursor.rest.length

theorem drain_eq (line : Nat) (rest : List Text) :
    drain ⟨line, rest⟩ = (rest.flatMap Line.tokens, ⟨line + rest.length, []⟩) := by
  induction rest generalizing line with
  | nil => simp [drain]
  | cons first rest ih =>
      rw [drain, ih]
      simp only [List.flatMap_cons, List.length_cons, Prod.mk.injEq, Cursor.mk.injEq, true_and,
        and_true]
      omega

end Cursor

/-- The tokens of a program. -/
def tokenize (text : Text) : List Token :=
  (Cursor.ofText text).drain.1

theorem tokenize_eq_flatMap (text : Text) : tokenize text = text.lines.flatMap Line.tokens := by
  rw [tokenize, Cursor.ofText, Cursor.drain_eq]

end TapeFlow
