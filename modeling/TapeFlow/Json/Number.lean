import TapeFlow.Json.Reader

namespace TapeFlow.Json

/-! Numbers. The digits are read first; what they amount to is worked out afterwards. -/

/-- A number as it is written. -/
structure Numeral where
  negative : Bool
  whole : Text
  fraction : Option Text
  exponent : Option (Bool × Text)

inductive Number where
  /-- A value that fits a machine word. -/
  | natural (value : Nat)
  /-- The integer `-value`, where `value` is at least one and fits a signed machine word. -/
  | negative (value : Nat)
  | decimal (value : Float)

def Number.found : Number → Found
  | .natural value => .integer value
  | .negative value => .integer (-value)
  | .decimal value => .decimal value

namespace Reader

/-- One digit or more. A text that ends before the first one fails with `cutOff`. -/
def digits (cutOff : ReadError) : Reader Text := do
  let text ← get
  if text.isEmpty then throw cutOff
  let found := text.takeWhile Char.isDigit
  if found.isEmpty then throw .malformed
  set (text.dropWhile Char.isDigit)
  return found

/-- A zero has no digit after it. -/
def wholeDigits (cutOff : ReadError) : Reader Text := do
  let found ← digits cutOff
  if found.head? = some '0' ∧ 1 < found.length then throw .malformed
  return found

def fractionDigits? (cutOff : ReadError) : Reader (Option Text) := do
  if (← peek?) = some '.' then
    drop
    return some (← digits cutOff)
  return none

/-- The digits of an exponent and whether it is negative. -/
def exponent? (cutOff : ReadError) : Reader (Option (Bool × Text)) := do
  let next ← peek?
  if next = some 'e' ∨ next = some 'E' then
    drop
    let sign ← peek?
    if sign = some '-' ∨ sign = some '+' then drop
    return some (sign = some '-', ← digits cutOff)
  return none

def numeral (cutOff : ReadError) : Reader Numeral := do
  let negative := (← peek?) = some '-'
  if negative then drop
  let whole ← wholeDigits cutOff
  let fraction ← fractionDigits? cutOff
  let exponent ← exponent? cutOff
  return ⟨negative, whole, fraction, exponent⟩

end Reader

def digitValue (c : Char) : Nat :=
  c.toNat - '0'.toNat

/-- One more than the greatest machine word. -/
def wordSize : Nat :=
  0x10000000000000000

/-- Appends decimal digits to a number while it fits a machine word, and counts the digits that are
left when it would not. -/
def appendDigits (value : Nat) : Text → Nat × Nat
  | [] => (value, 0)
  | digit :: rest =>
    let next := value * 10 + digitValue digit
    if next < wordSize then appendDigits next rest else (value, rest.length + 1)

/-- The number that digits stand for, however large. -/
def valueOf (digits : Text) : Nat :=
  digits.foldl (fun value digit => value * 10 + digitValue digit) 0

/-- Divides by `10 ^ exponent`, in steps as large as a double takes. -/
def divideByTens (value : Float) (exponent : Nat) : Float :=
  if exponent ≤ 308 then value / Float.ofScientific 1 false exponent
  else if value == 0 then value
  else divideByTens (value / Float.ofScientific 1 false 308) (exponent - 308)
termination_by exponent

/-- Multiplies by `10 ^ exponent`, unless the product is too large for a double. -/
def multiplyByTens? (value : Float) (exponent : Nat) : Option Float :=
  if exponent ≤ 308 then
    let product := value * Float.ofScientific 1 false exponent
    if product.isInf then none else some product
  else if value == 0 then some value
  else none

/-- `significand * 10 ^ exponent` with one rounding for the significand and one for the power. -/
def scale? (significand : Nat) (exponent : Int) : Option Float :=
  let value := significand.toUInt64.toFloat
  if 0 ≤ exponent then multiplyByTens? value exponent.toNat
  else some (divideByTens value (-exponent).toNat)

/-- The magnitude of the least signed machine word. -/
def mostNegative : Nat :=
  0x8000000000000000

/-- What a numeral amounts to, unless it is too large for a double. Of the digits as many count as
fit a machine word; the other digits of the whole part only raise the exponent. -/
def Numeral.number? (numeral : Numeral) : Option Number :=
  let (whole, raised) := appendDigits 0 numeral.whole
  let sign (value : Float) : Number := .decimal (if numeral.negative then -value else value)
  if numeral.fraction.isNone ∧ numeral.exponent.isNone ∧ raised = 0 then
    if !numeral.negative then some (.natural whole)
    else if 1 ≤ whole ∧ whole ≤ mostNegative then some (.negative whole)
    else some (sign whole.toUInt64.toFloat)
  else
    let fraction := numeral.fraction.getD []
    let (significand, ignored) := appendDigits whole fraction
    let lowered := fraction.length - ignored
    let exponent : Int := match numeral.exponent with
      | none => 0
      | some (negative, digits) => if negative then -(valueOf digits) else valueOf digits
    (scale? significand (raised - lowered + exponent)).map sign

namespace Reader

def number : Reader Number := do
  match (← numeral .truncated).number? with
  | some number => return number
  | none => throw .malformed

end Reader

end TapeFlow.Json
