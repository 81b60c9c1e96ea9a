import TapeFlow.Text.Basic

namespace TapeFlow.Utf8

/-! UTF-8, read one octet at a time. Octets that begin no character, and octets that begin one but
are not continued, are found as ill-formed parts: each part is as long as it can be, and the octet
that shows the fault is read again as a beginning. -/

/-- A character of which some octets are read. The next octet lies between `low` and `high`, and
`owed` octets follow that one. -/
structure Begun where
  value : Nat
  low : UInt8
  high : UInt8
  owed : Nat

/-- What an octet above the seven-bit range begins. The narrower bounds shut out long forms,
surrogates and values above the last code point. -/
def Begun.of? (octet : UInt8) : Option Begun :=
  if 0xC2 ≤ octet ∧ octet ≤ 0xDF then some ⟨octet.toNat - 0xC0, 0x80, 0xBF, 0⟩
  else if octet = 0xE0 then some ⟨0x0, 0xA0, 0xBF, 1⟩
  else if octet = 0xED then some ⟨0xD, 0x80, 0x9F, 1⟩
  else if 0xE1 ≤ octet ∧ octet ≤ 0xEF then some ⟨octet.toNat - 0xE0, 0x80, 0xBF, 1⟩
  else if octet = 0xF0 then some ⟨0, 0x90, 0xBF, 2⟩
  else if octet = 0xF4 then some ⟨4, 0x80, 0x8F, 2⟩
  else if 0xF1 ≤ octet ∧ octet ≤ 0xF3 then some ⟨octet.toNat - 0xF0, 0x80, 0xBF, 2⟩
  else none

/-- What reading stands at between two octets, after the parts it has found. -/
structure Progress where
  found : List (Option Char)
  begun : Option Begun

/-- Reads an octet between characters. -/
def start (octet : UInt8) : Progress :=
  if octet < 0x80 then ⟨[some (Char.ofNat octet.toNat)], none⟩
  else match Begun.of? octet with
    | some begun => ⟨[], some begun⟩
    | none => ⟨[none], none⟩

/-- Reads an octet that is to continue a character. -/
def Begun.extend (begun : Begun) (octet : UInt8) : Progress :=
  if begun.low ≤ octet ∧ octet ≤ begun.high then
    let value := begun.value * 64 + (octet.toNat - 0x80)
    match begun.owed with
    | 0 => ⟨[some (Char.ofNat value)], none⟩
    | owed + 1 => ⟨[], some ⟨value, 0x80, 0xBF, owed⟩⟩
  else
    let again := start octet
    ⟨none :: again.found, again.begun⟩

def step (begun : Option Begun) (octet : UInt8) : Progress :=
  match begun with
  | none => start octet
  | some begun => begun.extend octet

/-- The characters of an octet sequence, with `none` for each ill-formed part. -/
def partsFrom (begun : Option Begun) : List UInt8 → List (Option Char)
  | [] => if begun.isSome then [none] else []
  | octet :: rest =>
    let progress := step begun octet
    progress.found ++ partsFrom progress.begun rest

def parts (octets : List UInt8) : List (Option Char) :=
  partsFrom none octets

/-- Takes the place of an ill-formed part. -/
def replacement : Char := '�'

def decodeLossy (octets : List UInt8) : Text :=
  (parts octets).map (·.getD replacement)

/-- The text of a well-formed octet sequence. -/
def decode? (octets : List UInt8) : Option Text :=
  (parts octets).mapM id

def encode (text : Text) : List UInt8 :=
  text.flatMap String.utf8EncodeChar

end TapeFlow.Utf8
