import TapeFlow.Text.Basic
import TapeFlow.Decimal.Shortest

namespace TapeFlow.Decimal

/-! How decimal digits are set out. -/

/-- Numbers whose first digit has an exponent from `least` to `greatest` are written out in full,
with at least one digit after the point. All others have one digit before the point and an exponent
with its sign. -/
structure Style where
  least : Int
  greatest : Int

def exponentText (exponent : Int) : Text :=
  'e' :: (if exponent < 0 then '-' else '+') :: Text.ofNat exponent.natAbs

/-- Sets out digits of which the first has the exponent `leading`. -/
def Style.write (style : Style) (digits : Text) (leading : Int) : Text :=
  if style.least ≤ leading ∧ leading ≤ style.greatest then
    if leading < 0 then
      "0.".toList ++ List.replicate ((-leading).toNat - 1) '0' ++ digits
    else
      let whole := leading.toNat + 1
      if digits.length ≤ whole then
        digits ++ List.replicate (whole - digits.length) '0' ++ ".0".toList
      else digits.take whole ++ '.' :: digits.drop whole
  else match digits with
    | first :: second :: rest => first :: '.' :: second :: rest ++ exponentText leading
    | _ => digits ++ exponentText leading

/-- The text of a finite double. -/
def Style.ofFloat (style : Style) (value : Float) : Text :=
  let sign := if 0x8000000000000000 ≤ value.toBits.toNat then ['-'] else []
  let fraction := Fraction.ofFloat value
  if fraction.mantissa = 0 then sign ++ "0.0".toList
  else
    let shortest := fraction.shortest
    let digits := Text.ofNat shortest.significand
    let leading := shortest.exponent + digits.length - 1
    sign ++ style.write (digits.reverse.dropWhile (· = '0')).reverse leading

end TapeFlow.Decimal
