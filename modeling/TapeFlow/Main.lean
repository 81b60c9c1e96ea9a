import TapeFlow.Command.Transcript

namespace TapeFlow.Command

/-! The command on a disk. It starts no other program, so a picture is asked of it in vain. -/

/-- Codes come with either sign. -/
def fileError : IO.Error → FileError
  | .noFileOrDirectory _ _ _ => .notFound
  | .alreadyExists _ _ _ => .alreadyExists
  | .inappropriateType _ code details =>
    if code = 20 ∨ code = 0 - 20 then .notADirectory
    else if code = 21 ∨ code = 0 - 21 then .isADirectory
    else .other details
  | .invalidArgument _ code details =>
    if code = 36 ∨ code = 0 - 36 then .nameTooLong else .other details
  | error => .other (toString error)

def readSource (path : Text) : IO (Except FileError (List UInt8)) := do
  try
    return .ok (← IO.FS.readBinFile (String.ofList path)).toList
  catch error => return .error (fileError error)

/-- Makes a directory unless there is one. -/
def ensureDirectoryOnDisk (path : Text) : IO (Except FileError Unit) := do
  try
    IO.FS.createDir (String.ofList path)
    return .ok ()
  catch error =>
    match fileError error, ← readSource path with
    | .alreadyExists, .error .isADirectory => return .ok ()
    | reason, _ => return .error reason

/-- Makes a directory and, where it cannot be found, first the directory above it. Names are listed
from the last to the first. -/
def ensureDirectoriesOnDisk (reversed : List Text) : IO (Except FileError Unit) := do
  match reversed with
  | [] => return .ok ()
  | name :: above =>
    let path := ['/'].intercalate (name :: above).reverse
    match ← ensureDirectoryOnDisk path with
    | .error .notFound =>
      match ← ensureDirectoriesOnDisk (FileTree.namesAbove (name :: above)) with
      | .error reason => return .error reason
      | .ok () => ensureDirectoryOnDisk path
    | result => return result
termination_by reversed.length
decreasing_by exact FileTree.namesAbove_length_lt name above

def performOnDisk : Action → IO (Option RunError)
  | .createDirectories path => do
    match ← ensureDirectoriesOnDisk (Path.names path).reverse with
    | .ok () => return none
    | .error reason => return some (.file reason)
  | .write path content => do
    try
      IO.FS.writeFile (String.ofList path) (String.ofList content)
      return none
    catch error => return some (.exporting (.file (fileError error)))
  | .render _ _ => return some (.exporting .missingRenderer)
  | .fail reason => return some reason
  | _ => return none

/-- Performs actions up to the first that fails. A time that is reported is the time since the
action before. -/
def performAllOnDisk (quiet colour : Bool) (since : Nat) : List Action → IO UInt32
  | [] => return 0
  | action :: rest => do
    let now ← IO.monoNanosNow
    for output in action.output quiet none do
      let octets := output.octets colour (durationText (now - since))
      (← IO.getStdout).write (ByteArray.mk octets.toArray)
    match ← performOnDisk action with
    | some error =>
      IO.eprint (String.ofList (error.text colour))
      return 1
    | none => performAllOnDisk quiet colour now rest

/-- Colours are shown where they are forced, and on a terminal unless they are declined. -/
def showsColour : IO Bool := do
  match ← IO.getEnv "CLICOLOR_FORCE" with
  | some value => return value ≠ "0"
  | none => return (← IO.getEnv "NO_COLOR").isNone && (← (← IO.getStdout).isTty)

def runOnDisk (request : Request) : IO UInt32 := do
  let colour ← showsColour
  let start ← IO.monoNanosNow
  performAllOnDisk request.quiet colour start (request.actions (← readSource request.file))

end TapeFlow.Command

def main (arguments : List String) : IO UInt32 := do
  match TapeFlow.Invocation.ofArguments (arguments.map String.toList) with
  | .run request => TapeFlow.Command.runOnDisk request
  | .version =>
    IO.print (String.ofList TapeFlow.versionLine)
    return 0
  | .help =>
    IO.print (String.ofList TapeFlow.usageText)
    return 0
  | .misuse =>
    IO.eprint (String.ofList TapeFlow.usageText)
    return 2
