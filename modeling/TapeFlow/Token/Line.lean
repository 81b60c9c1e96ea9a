import TapeFlow.Text.Blank
import TapeFlow.Token

namespace TapeFlow.Line

/-! From the characters of one line to its tokens. Brackets decide where words end: a `}` is a word
of its own, and the argument of a branch is pulled together before the line is cut at blanks. -/

/-- Sets every `}` apart and puts a blank in front of every `(`. -/
def separate (line : Text) : Text :=
  line.flatMap fun c =>
    if c = '}' then [' ', '}', ' ']
    else if c = '(' then [' ', '(']
    else [c]

/-- Drops the blanks whose nearest other character is a `(` before them or a `)` after them.
`opened` tells whether the nearest character before the line that is not blank is a `(`. -/
def tightenFrom (opened : Bool) : Text → Text
  | [] => []
  | c :: rest =>
    if isBlank c then
      if opened || (rest.dropWhile isBlank).head? = some ')' then tightenFrom opened rest
      else c :: tightenFrom false rest
    else c :: tightenFrom (c = '(') rest

def tighten (line : Text) : Text :=
  tightenFrom false line

def isComment (word : Text) : Bool :=
  word.head? = some '%'

/-- The words of a line up to its comment. -/
def code (line : Text) : List Text :=
  (tighten (separate line)).words.takeWhile (!isComment ·)

/-- The branch header that a text begins with. -/
def branchHeader? (text : Text) : Option Symbol :=
  [Symbol.zero, Symbol.one].find? fun symbol => (Token.branch symbol).text.isPrefixOf text

/-- Cuts a line whose words stand one space apart. A branch header is a lexeme wherever it comes
first in what is left, whatever follows it, and any other lexeme ends at a space. -/
def lexemes : Text → List Text
  | [] => []
  | c :: rest =>
    if c = ' ' then lexemes rest
    else match branchHeader? (c :: rest) with
      | some symbol =>
        let header := (Token.branch symbol).text
        header :: lexemes ((c :: rest).drop header.length)
      | none => (c :: rest.takeWhile (· ≠ ' ')) :: lexemes (rest.dropWhile (· ≠ ' '))
termination_by line => line.length
decreasing_by
  · simp
  · simp only [Token.text, List.length_drop, List.length_cons, List.length_nil]
    omega
  · have shorter := (List.dropWhile_sublist (l := rest) (fun c => decide (c ≠ ' '))).length_le
    simp only [List.length_cons]
    omega

def tokens (line : Text) : List Token :=
  (lexemes ([' '].intercalate (code line))).map Token.ofWord

end TapeFlow.Line
