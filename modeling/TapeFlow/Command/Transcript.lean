import TapeFlow.Command.Run

namespace TapeFlow

/-! What a run writes on its two streams. -/

def Tint.code : Tint → Text
  | .blue => "34".toList
  | .green => "32".toList
  | .red => "31".toList

/-- A text in colour, where colours are shown. -/
def Tint.paint (tint : Tint) (colour : Bool) (text : Text) : Text :=
  if colour then "\x1b[".toList ++ tint.code ++ 'm' :: text ++ "\x1b[0m".toList else text

def Span.text (colour : Bool) (elapsed : Text) : Span → Text
  | .plain text => text
  | .tinted tint text => tint.paint colour text
  | .elapsed => elapsed

/-- A status line with its line feed. -/
def statusLine (colour : Bool) (elapsed : Text) (line : List Span) : Text :=
  line.flatMap (Span.text colour elapsed) ++ ['\n']

def Output.octets (colour : Bool) (elapsed : Text) : Output → List UInt8
  | .status line => Utf8.encode (statusLine colour elapsed line)
  | .content text => Utf8.encode (text ++ ['\n'])
  | .foreign octets => octets

def RunError.text (colour : Bool) (error : RunError) : Text :=
  Tint.red.paint colour "Error".toList ++ ": ".toList ++ error.message.toList ++ ['\n']

namespace Outcome

/-- What is printed, with one text for every time that is reported. -/
def standardOutput (outcome : Outcome) (colour : Bool) (elapsed : Text) : List UInt8 :=
  outcome.printed.flatMap (Output.octets colour elapsed)

/-- The reason of a failure comes last. -/
def standardError (outcome : Outcome) (colour : Bool) : List UInt8 :=
  outcome.complaints ++ Utf8.encode ((outcome.error.map (RunError.text colour)).getD [])

end Outcome

/-- A length of time in its largest unit, with two places. -/
def durationText (nanoseconds : Nat) : Text :=
  let (unit, name) :=
    if 1000000000 ≤ nanoseconds then (1000000000, "s")
    else if 1000000 ≤ nanoseconds then (1000000, "ms")
    else if 1000 ≤ nanoseconds then (1000, "µs")
    else (1, "ns")
  let hundredths := (nanoseconds * 100 + unit / 2) / unit
  let places := Text.ofNat (hundredths % 100)
  Text.ofNat (hundredths / 100) ++ '.' :: List.replicate (2 - places.length) '0' ++ places ++
    name.toList

/-- The name of the command and its version. -/
def versionLine : Text :=
  "mtdv 0.1.0\n".toList

def usageText : Text :=
  "Usage: mtdv [-o DIR] [-e utf8|latin1] [-q] FILE [tokens|graph|json|dot|png]...\n".toList

end TapeFlow
