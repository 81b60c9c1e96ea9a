import TapeFlow.Text.Basic

namespace TapeFlow

/-! The characters that keep words apart: those with the property White_Space. -/

/-- The first and the last code of each run of blank characters. -/
def blankRanges : List (Nat × Nat) :=
  [(0x09, 0x0D), (0x20, 0x20), (0x85, 0x85), (0xA0, 0xA0), (0x1680, 0x1680), (0x2000, 0x200A),
    (0x2028, 0x2029), (0x202F, 0x202F), (0x205F, 0x205F), (0x3000, 0x3000)]

def isBlank (c : Char) : Bool :=
  blankRanges.any fun (first, last) => first ≤ c.toNat && c.toNat ≤ last

/-- The longest runs of characters that are not blank. -/
def Text.words (text : Text) : List Text :=
  (text.splitOnP isBlank).filter (· ≠ [])

end TapeFlow
