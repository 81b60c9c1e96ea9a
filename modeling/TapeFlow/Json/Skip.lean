import TapeFlow.Json.Number
import TapeFlow.Json.String

namespace TapeFlow.Json

/-! Values that are read over, of any shape and any depth. Only their form matters: a number may be
out of any range, and a text that ends within a number counts as malformed. -/

inductive Bracket where
  | list
  | object

namespace Reader

/-- A key and its colon, inside a value that is read over. -/
def anyKey : Reader Unit := do
  mark '"'
  let _ ← anyString
  mark ':'

/-- A value that holds no other value, if there is one. -/
def anyScalar (first : Char) : Reader Unit := do
  match first with
  | 'n' => exactly "null".toList
  | 't' => exactly "true".toList
  | 'f' => exactly "false".toList
  | '"' =>
    drop
    let _ ← anyString
  | c =>
    if c = '-' ∨ c.isDigit then
      let _ ← numeral .malformed
    else throw .malformed

mutual

/-- Reads over a value and then what is left of the open brackets around it. Every step takes a
character of the text and one of `clock`, so the text has ended where `clock` has. -/
def overValue (clock : Text) (brackets : List Bracket) : Reader Unit :=
  match clock with
  | [] => throw .truncated
  | _ :: clock => do
    match ← peekPart? with
    | none => throw .truncated
    | some '[' =>
      drop
      if (← peekPart?) = some ']' then
        drop
        overRest clock brackets
      else overValue clock (.list :: brackets)
    | some '\x7b' =>
      drop
      if (← peekPart?) = some '\x7d' then
        drop
        overRest clock brackets
      else
        anyKey
        overValue clock (.object :: brackets)
    | some c =>
      anyScalar c
      overRest clock brackets

/-- Reads over what follows a value inside open brackets. -/
def overRest (clock : Text) (brackets : List Bracket) : Reader Unit :=
  match clock, brackets with
  | _, [] => pure ()
  | [], _ => throw .truncated
  | _ :: clock, bracket :: outer => do
    match ← peekPart?, bracket with
    | none, _ => throw .truncated
    | some ',', .list =>
      drop
      overValue clock (.list :: outer)
    | some ',', .object =>
      drop
      anyKey
      overValue clock (.object :: outer)
    | some ']', .list =>
      drop
      overRest clock outer
    | some '\x7d', .object =>
      drop
      overRest clock outer
    | some _, _ => throw .malformed

end

/-- Reads over a value. -/
def skipValue : Reader Unit := do
  overValue (← get) []

end Reader

end TapeFlow.Json
