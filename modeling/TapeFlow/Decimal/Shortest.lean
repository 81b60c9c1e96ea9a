namespace TapeFlow.Decimal

/-! The fewest decimal digits that name a binary fraction: every real number between the midpoints
to its two neighbours reads back as the fraction, and of the shortest decimals there the nearest is
taken. -/

/-- A positive binary fraction `mantissa * 2 ^ exponent`. The neighbour below is at half the
distance of the one above where `narrowBelow` says so. -/
structure Fraction where
  mantissa : Nat
  exponent : Int
  narrowBelow : Bool

/-- The first bit that a double does not store. -/
def hiddenBit : Nat :=
  0x10000000000000

/-- The magnitude of a finite double. -/
def Fraction.ofFloat (value : Float) : Fraction :=
  let bits := value.toBits.toNat
  let low := bits % hiddenBit
  let high : Nat := bits / hiddenBit % 0x800
  if high = 0 then ⟨low, -1074, false⟩
  else ⟨hiddenBit + low, (high : Int) - 1075, low = 0 && 1 < high⟩

/-- A decimal `significand * 10 ^ exponent`. -/
structure Digits where
  significand : Nat
  exponent : Int

/-- Numerator and denominator of a power. -/
def ratio (base : Nat) (exponent : Int) : Nat × Nat :=
  if 0 ≤ exponent then (base.pow exponent.toNat, 1) else (1, base.pow (-exponent).toNat)

/-- A quarter of the fraction's last place, over the decimal unit `10 ^ exponent`. -/
def Fraction.quarter (fraction : Fraction) (exponent : Int) : Nat × Nat :=
  let place := ratio 2 (fraction.exponent - 2)
  let unit := ratio 10 exponent
  (place.1 * unit.2, place.2 * unit.1)

/-- How many decimal units `10 ^ exponent` the fraction holds. -/
def Fraction.floor (fraction : Fraction) (exponent : Int) : Nat :=
  let quarter := fraction.quarter exponent
  4 * fraction.mantissa * quarter.1 / quarter.2

/-- Whether a decimal reads back as the fraction. A midpoint goes to the even mantissa. -/
def Fraction.admits (fraction : Fraction) (digits : Digits) : Bool :=
  let quarter := fraction.quarter digits.exponent
  let least := (4 * fraction.mantissa - if fraction.narrowBelow then 1 else 2) * quarter.1
  let greatest := (4 * fraction.mantissa + 2) * quarter.1
  let place := digits.significand * quarter.2
  if fraction.mantissa % 2 = 0 then least ≤ place && place ≤ greatest
  else least < place && place < greatest

/-- The exponent of the first decimal digit of a double. -/
def Fraction.leading (fraction : Fraction) : Int :=
  let exponents := (List.range 633).map fun (step : Nat) => (step : Int) - 324
  (exponents.find? fun exponent => fraction.floor exponent < 10).getD 0

/-- The nearer of the two neighbours on the grid `10 ^ exponent` that reads back. -/
def Fraction.onGrid? (fraction : Fraction) (exponent : Int) : Option Digits :=
  let quarter := fraction.quarter exponent
  let centre := 4 * fraction.mantissa * quarter.1
  let below : Digits := ⟨fraction.floor exponent, exponent⟩
  let above : Digits := ⟨below.significand + 1, exponent⟩
  let shortfall := centre - below.significand * quarter.2
  let excess := above.significand * quarter.2 - centre
  match fraction.admits below, fraction.admits above with
  | true, true =>
    if shortfall < excess then some below
    else if excess < shortfall then some above
    else if below.significand % 2 = 0 then some below else some above
  | true, false => some below
  | false, true => some above
  | false, false => none

/-- Seventeen digits always read back, so the default is never taken. -/
def Fraction.shortest (fraction : Fraction) : Digits :=
  let leading := fraction.leading
  ((List.range 17).findSome? fun (more : Nat) => fraction.onGrid? (leading - more)).getD ⟨0, 0⟩

end TapeFlow.Decimal
