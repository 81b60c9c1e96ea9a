import TapeFlow.Text.Basic

namespace TapeFlow.Json

/-! Indented JSON: every element of a list and every member of an object on a line of its own, four
blanks deeper than its brackets. -/

def newline (depth : Nat) : Text :=
  '\n' :: List.replicate (4 * depth) ' '

/-- Items between brackets that stand at `depth`. Without items the brackets touch. -/
def block (opening closing : Char) (depth : Nat) (items : List Text) : Text :=
  if items.isEmpty then [opening, closing]
  else opening :: (newline (depth + 1) ++ (',' :: newline (depth + 1)).intercalate items ++
    newline depth ++ [closing])

def array (depth : Nat) (items : List Text) : Text :=
  block '[' ']' depth items

def object (depth : Nat) (members : List Text) : Text :=
  block '\x7b' '\x7d' depth members

/-- A string of characters that need no escape. -/
def plainString (text : Text) : Text :=
  '"' :: text ++ ['"']

def member (key : String) (value : Text) : Text :=
  plainString key.toList ++ ": ".toList ++ value

end TapeFlow.Json
