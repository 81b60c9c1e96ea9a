import TapeFlow.Json.Skip

namespace TapeFlow.Json.Reader

/-! Values of a known shape. -/

/-- Reports the value that comes next as one of the wrong type. A value that holds others is not
looked into, any other is read first and may be malformed itself. -/
def wrongType {α : Type} (shape : Shape) : Reader α := do
  let report (found : Found) : Reader α := mismatch (.wrongType found shape)
  match ← peekPart? with
  | none => throw .truncated
  | some 'n' =>
    exactly "null".toList
    report .null
  | some 't' =>
    exactly "true".toList
    report (.boolean true)
  | some 'f' =>
    exactly "false".toList
    report (.boolean false)
  | some '"' =>
    drop
    report (.string (← string))
  | some '[' => report .sequence
  | some '\x7b' => report .map
  | some c =>
    if c = '-' ∨ c.isDigit then report (← number).found
    else throw .malformed

/-- A number that can be a place in a list. -/
def index : Reader Nat := do
  match ← peekPart? with
  | none => throw .truncated
  | some c =>
    if c = '-' ∨ c.isDigit then
      match ← number with
      | .natural value => return value
      | .negative value => mismatch (.wrongValue (.integer (-value)) .number)
      | .decimal value => mismatch (.wrongType (.decimal value) .number)
    else wrongType .number

def null : Reader Unit := do
  match ← peekPart? with
  | some 'n' => exactly "null".toList
  | _ => wrongType .null

/-- One of some named values: its name, or an object with its name as the only key, for null. -/
def variant {α : Type} (all : List α) (name : α → Text) : Reader α := do
  let known (text : Text) : Reader α := match all.find? (name · = text) with
    | some value => pure value
    | none => mismatch (.unknownVariant text (all.map name))
  match ← peekPart? with
  | none => throw .truncated
  | some '"' =>
    drop
    known (← string)
  | some '\x7b' =>
    drop
    mark '"'
    let value ← known (← string)
    mark ':'
    null
    mark '\x7d'
    return value
  | some _ => throw .malformed

/-- Whether a list, whose opening bracket is read, has one more element. If so the element comes
next, if not the closing bracket does. -/
def hasElement (first : Bool) : Reader Bool := do
  match ← peekPart? with
  | none => throw .truncated
  | some ']' => return false
  | some c =>
    if first then return true
    else if c = ',' then
      drop
      match ← peekPart? with
      | none => throw .truncated
      | some ']' => throw .malformed
      | some _ => return true
    else throw .malformed

/-- The elements of a list whose opening bracket is read. Every element takes a character of the
text and one of `clock`, so the text has ended where `clock` has. -/
def elements {α : Type} (element : Reader α) (first : Bool) : Text → Reader (List α)
  | [] => throw .truncated
  | _ :: clock => do
    if ← hasElement first then
      let value ← element
      let others ← elements element false clock
      return value :: others
    else
      drop
      return []

/-- A list of any length. -/
def list {α : Type} (element : Reader α) : Reader (List α) := do
  match ← peekPart? with
  | none => throw .truncated
  | some '[' =>
    drop
    elements element true (← get)
  | some _ => wrongType .sequence

/-- The element at a place of a list of fixed length. -/
def elementAt {α : Type} (shape : Shape) (position : Nat) (element : Reader α) : Reader α := do
  if ← hasElement (position = 0) then element
  else mismatch (.wrongLength position shape)

/-- The closing bracket of a list of fixed length; elements too many are malformed. -/
def endList : Reader Unit := do
  match ← peekPart? with
  | none => throw .truncated
  | some ']' => drop
  | some _ => throw .malformed

/-- The next key of an object whose opening brace is read, or its closing brace. -/
def nextKey? (first : Bool) : Reader (Option Text) := do
  match ← peekPart? with
  | none => throw .truncated
  | some '\x7d' =>
    drop
    return none
  | some c =>
    if !first then
      if c = ',' then drop else throw .malformed
    mark '"'
    return some (← string)

/-- The members of an object whose opening brace is read. `member` takes in one of them, from its
colon on, by its key. Every member takes a character of the text and one of `clock`, so the text has
ended where `clock` has. -/
def members {σ : Type} (member : Text → σ → Reader σ) (first : Bool) (fields : σ) :
    Text → Reader σ
  | [] => throw .truncated
  | _ :: clock => do
    match ← nextKey? first with
    | none => return fields
    | some key =>
      let fields ← member key fields
      members member false fields clock

/-- The value of a field that may be given once. -/
def field {α : Type} (name : String) (present : Bool) (value : Reader α) : Reader α := do
  if present then mismatch (.duplicateField name)
  mark ':'
  value

/-- The value of a field that has to be given. -/
def required {α : Type} (name : String) : Option α → Reader α
  | some value => pure value
  | none => mismatch (.missingField name)

/-- Reads over the value of a field that has no meaning. -/
def ignoredField : Reader Unit := do
  mark ':'
  skipValue

/-- A value with fields, as an object or as the list of its fields in order. -/
def record {α : Type} (shape : Shape) (asObject asList : Reader α) : Reader α := do
  match ← peekPart? with
  | none => throw .truncated
  | some '\x7b' =>
    drop
    asObject
  | some '[' =>
    drop
    let value ← asList
    endList
    return value
  | some _ => wrongType shape

end TapeFlow.Json.Reader
