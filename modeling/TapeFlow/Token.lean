import TapeFlow.Text.Basic

namespace TapeFlow

/-- What a cell of the tape holds. -/
inductive Symbol where
  | zero
  | one
  deriving DecidableEq

def Symbol.char : Symbol → Char
  | .zero => '0'
  | .one => '1'

/-- A word of a program. -/
inductive Token where
  /-- Prints the state of the machine. -/
  | printState
  /-- Waits for a key. -/
  | pause
  /-- Moves the head one cell to the left. -/
  | moveLeft
  /-- Moves the head one cell to the right. -/
  | moveRight
  /-- Writes the symbol under the head. -/
  | write (symbol : Symbol)
  /-- Opens a block that runs only if the head reads the symbol. -/
  | branch (symbol : Symbol)
  /-- Opens a block that is repeated until it is left. -/
  | loop
  /-- Leaves the nearest loop, or stops the program outside of any loop. -/
  | leave
  /-- Closes the innermost block. -/
  | close
  /-- Ends the program. -/
  | endOfFile
  /-- Any other word. -/
  | unknown (word : Text)
  deriving DecidableEq

namespace Token

/-- The source form of a token. -/
def text : Token → Text
  | .printState => ['I']
  | .pause => ['P']
  | .moveLeft => ['G']
  | .moveRight => ['D']
  | .write symbol => [symbol.char]
  | .branch symbol => ['s', 'i', ' ', '(', symbol.char, ')']
  | .loop => ['b', 'o', 'u', 'c', 'l', 'e']
  | .leave => ['f', 'i', 'n']
  | .close => ['}']
  | .endOfFile => ['#']
  | .unknown word => word

/-- The tokens that have a source form of their own. -/
def keywords : List Token :=
  [.printState, .pause, .moveLeft, .moveRight, .write .zero, .write .one, .branch .zero,
    .branch .one, .loop, .leave, .close, .endOfFile]

/-- The token written as `word`. -/
def ofWord (word : Text) : Token :=
  (keywords.find? (·.text = word)).getD (.unknown word)

theorem ofWord_text {token : Token} (known : token ∈ keywords) : ofWord token.text = token := by
  have all : ∀ token ∈ keywords, ofWord token.text = token := by decide
  exact all token known

theorem text_ofWord (word : Text) : (ofWord word).text = word := by
  unfold ofWord
  cases found : keywords.find? (·.text = word) with
  | none => rfl
  | some token => simpa using List.find?_some found

end Token

end TapeFlow
