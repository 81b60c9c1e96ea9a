import TapeFlow.Json.Reader
import TapeFlow.Text.Utf8

namespace TapeFlow.Json

/-! Strings. An escape is worked out from the text after its backslash, giving the character that it
stands for and the number of characters that it takes. -/

def hexDigit? (c : Char) : Option Nat :=
  if '0' ≤ c ∧ c ≤ '9' then some (c.toNat - '0'.toNat)
  else if 'a' ≤ c ∧ c ≤ 'f' then some (c.toNat - 'a'.toNat + 10)
  else if 'A' ≤ c ∧ c ≤ 'F' then some (c.toNat - 'A'.toNat + 10)
  else none

/-- The value of four hexadecimal digits. The text counts as cut off where fewer than four octets
are left, whatever they are. -/
def hexQuad (text : Text) : Except ReadError Nat :=
  let quad := text.take 4
  if (Utf8.encode quad).length < 4 then .error .truncated
  else match quad.mapM hexDigit? with
    | some [a, b, c, d] => .ok (((a * 16 + b) * 16 + c) * 16 + d)
    | _ => .error .malformed

def simpleEscape? : Char → Option Char
  | '"' => some '"'
  | '\\' => some '\\'
  | '/' => some '/'
  | 'b' => some '\x08'
  | 'f' => some '\x0c'
  | 'n' => some '\n'
  | 'r' => some '\r'
  | 't' => some '\t'
  | _ => none

/-- The second half of a pair of surrogates, with its backslash. -/
def lowSurrogate : Text → Except ReadError Nat
  | [] => .error .truncated
  | '\\' :: [] => .error .truncated
  | '\\' :: 'u' :: rest => do
    let low ← hexQuad rest
    if 0xDC00 ≤ low ∧ low ≤ 0xDFFF then return low
    else throw .malformed
  | _ => .error .malformed

/-- A character by its code, or by two codes where one is not enough. A surrogate alone is no
character. -/
def strictCode (text : Text) : Except ReadError (Char × Nat) := do
  let code ← hexQuad text
  if 0xDC00 ≤ code ∧ code ≤ 0xDFFF then throw .malformed
  else if 0xD800 ≤ code ∧ code ≤ 0xDBFF then
    let low ← lowSurrogate (text.drop 4)
    return (Char.ofNat (0x10000 + (code - 0xD800) * 0x400 + (low - 0xDC00)), 10)
  else return (Char.ofNat code, 4)

/-- A character by its code, where any four digits will do. -/
def looseCode (text : Text) : Except ReadError (Char × Nat) := do
  return (Char.ofNat (← hexQuad text), 4)

/-- The escape at the front of a text, with its length. -/
def escape (code : Text → Except ReadError (Char × Nat)) :
    Text → Except ReadError (Char × Nat)
  | [] => .error .truncated
  | 'u' :: rest => do
    let (c, length) ← code rest
    return (c, length + 1)
  | c :: _ => match simpleEscape? c with
    | some c => .ok (c, 1)
    | none => .error .malformed

/-- The characters of a string whose opening quote is read, and the text after its closing quote.
Characters below the space have to be escaped. -/
def stringBody (code : Text → Except ReadError (Char × Nat)) :
    Text → Except ReadError (Text × Text)
  | [] => .error .truncated
  | c :: rest =>
    if c = '"' then .ok ([], rest)
    else if c = '\\' then do
      let (c, length) ← escape code rest
      let (body, after) ← stringBody code (rest.drop length)
      return (c :: body, after)
    else if c < ' ' then .error .malformed
    else do
      let (body, after) ← stringBody code rest
      return (c :: body, after)
termination_by text => text.length

namespace Reader

/-- A string whose opening quote is read. -/
def string : Reader Text := fun text => stringBody strictCode text

/-- A string of which only the form matters. -/
def anyString : Reader Text := fun text => stringBody looseCode text

end Reader

end TapeFlow.Json
