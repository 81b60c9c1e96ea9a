import TapeFlow.Json.Error

namespace TapeFlow.Json

/-! Reading from the front of a text. A reader takes what it needs and leaves the rest, and the
first problem that it meets is the one reported. -/

abbrev Reader := StateT Text (Except ReadError)

namespace Reader

def mismatch {α : Type} (reason : Mismatch) : Reader α :=
  throw (.mismatch reason)

/-- The character that comes next, which stays. -/
def peek? : Reader (Option Char) := do
  return (← get).head?

/-- Drops the character that comes next. -/
def drop : Reader Unit :=
  modify List.tail

/-- Between the parts of a document only these characters are blank. -/
def isGap (c : Char) : Bool :=
  c = ' ' || c = '\n' || c = '\t' || c = '\r'

def skipGap : Reader Unit :=
  modify (List.dropWhile isGap)

/-- The character that the next part starts with, which stays. -/
def peekPart? : Reader (Option Char) := do
  skipGap
  peek?

/-- The characters of a word, one by one. -/
def exactly : Text → Reader Unit
  | [] => pure ()
  | expected :: rest => do
    match ← peek? with
    | none => throw .truncated
    | some found =>
      if found = expected then
        drop
        exactly rest
      else throw .malformed

/-- A mark between parts. -/
def mark (expected : Char) : Reader Unit := do
  skipGap
  exactly [expected]

/-- Reads a whole text. -/
def readAll {α : Type} (reader : Reader α) (text : Text) : Except ReadError α :=
  match reader.run text with
  | .error problem => .error problem
  | .ok (value, rest) => if rest.all isGap then .ok value else .error .malformed

end Reader

end TapeFlow.Json
