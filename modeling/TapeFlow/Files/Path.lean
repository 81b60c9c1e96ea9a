import TapeFlow.Text.Utf8

namespace TapeFlow.Path

/-! Paths as they are written: names between slashes, from the root if the first character is a
slash. -/

def names (path : Text) : List Text :=
  path.splitOn '/'

def isAbsolute (path : Text) : Bool :=
  path.head? = some '/'

/-- Names that lead from a directory to itself: a dot, and the nothing between two slashes. -/
def stays (name : Text) : Bool :=
  name = [] || name = ['.']

/-- The name that leads from a directory to the one that holds it. -/
def parent : Text :=
  ['.', '.']

/-- Names without the empty ones that slashes at the end of a path leave. -/
def trimmed (names : List Text) : List Text :=
  (names.reverse.dropWhile (·.isEmpty)).reverse

/-- Directories hold names of at most 255 octets. -/
def isLongName (name : Text) : Bool :=
  255 < (Utf8.encode name).length

/-- A path has at most 4095 octets, with the slashes between its names. -/
def isLong (names : List Text) : Bool :=
  4095 < (Utf8.encode (['/'].intercalate names)).length

/-- No name holds the character that marks the end of a path. -/
def isUsable (names : List Text) : Bool :=
  names.all (!·.contains '\x00')

/-- The path of a name in a directory. -/
def join (directory name : Text) : Text :=
  if directory.getLast? = some '/' then directory ++ name else directory ++ '/' :: name

/-- What stands before the last dot of a name, unless that is nothing. -/
def withoutExtension (name : Text) : Text :=
  let front := (name.reverse.dropWhile (· ≠ '.')).tail.reverse
  if front.isEmpty then name else front

/-- The last name of a path without its extension. -/
def stem (path : Text) : Text :=
  match ((names path).filter (!stays ·)).getLast? with
  | none => []
  | some name => if name = parent then [] else withoutExtension name

end TapeFlow.Path
