import TapeFlow.Text.Basic
import TapeFlow.Text.Unprintable

namespace TapeFlow

/-! Texts shown between quotes, so that one line holds them and every character can be told. -/

/-- A character by its code. -/
def codeEscape (c : Char) : Text :=
  "\\u\x7b".toList ++ Nat.toDigits 16 c.toNat ++ ['\x7d']

def quotedChar (c : Char) : Text :=
  match c with
  | '"' => ['\\', '"']
  | '\\' => ['\\', '\\']
  | '\n' => ['\\', 'n']
  | '\r' => ['\\', 'r']
  | '\t' => ['\\', 't']
  | '\x00' => ['\\', '0']
  | c => if isUnprintable c then codeEscape c else [c]

def Text.quoted (text : Text) : Text :=
  '"' :: text.flatMap quotedChar ++ ['"']

end TapeFlow
