namespace TapeFlow

/-! Texts, and the ways of cutting them that do not depend on what they say. -/

/-- A text is the list of its characters. -/
abbrev Text := List Char

/-- The lines of a text, cut at line feeds only. Every text has at least one line, and a final line
feed is followed by one more, empty, line. -/
def Text.lines (text : Text) : List Text :=
  text.splitOn '\n'

/-- Writes every pair of carriage return and line feed as a line feed alone, from left to right.
Pairs do not overlap, so a carriage return before such a pair stays. -/
def Text.unifyNewlines : Text → Text
  | '\r' :: '\n' :: rest => '\n' :: unifyNewlines rest
  | c :: rest => c :: unifyNewlines rest
  | [] => []

/-- The decimal digits of a number. -/
def Text.ofNat (n : Nat) : Text :=
  Nat.toDigits 10 n

end TapeFlow
