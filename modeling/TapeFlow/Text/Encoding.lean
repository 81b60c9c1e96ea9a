import TapeFlow.Text.Utf8

namespace TapeFlow

/-- How the octets of a program stand for characters. -/
inductive Encoding where
  | utf8
  /-- Every octet is the code of its character. -/
  | latin1
  deriving DecidableEq

namespace Encoding

def characters : Encoding → List UInt8 → Text
  | .utf8, octets => Utf8.decodeLossy octets
  | .latin1, octets => octets.map fun octet => Char.ofNat octet.toNat

/-- No octet sequence is refused; line ends come out as line feeds. -/
def decode (encoding : Encoding) (octets : List UInt8) : Text :=
  (encoding.characters octets).unifyNewlines

end Encoding

end TapeFlow
