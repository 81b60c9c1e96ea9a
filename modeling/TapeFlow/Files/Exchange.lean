import TapeFlow.Files.Tree
import TapeFlow.Graph.Document
import TapeFlow.Graph.Dot
import TapeFlow.Text.Utf8

namespace TapeFlow

/-! Graphs in files: documents and DOT texts that are written, documents that are read, and pictures
that a renderer makes of DOT texts. -/

/-- How a program that was started ends: by itself, or by a signal, perhaps with its memory saved. -/
inductive ExitStatus where
  | code (value : Nat)
  | killed (signal : Nat) (dumped : Bool)
  deriving DecidableEq

/-- The names of signals, from that of signal one on. The signals above these have no names. -/
def signalNames : List String :=
  ["SIGHUP", "SIGINT", "SIGQUIT", "SIGILL", "SIGTRAP", "SIGABRT", "SIGBUS", "SIGFPE", "SIGKILL",
    "SIGUSR1", "SIGSEGV", "SIGUSR2", "SIGPIPE", "SIGALRM", "SIGTERM", "SIGSTKFLT", "SIGCHLD",
    "SIGCONT", "SIGSTOP", "SIGTSTP", "SIGTTIN", "SIGTTOU", "SIGURG", "SIGXCPU", "SIGXFSZ",
    "SIGVTALRM", "SIGPROF", "SIGWINCH", "SIGIO", "SIGPWR", "SIGSYS"]

/-- What is shown behind the number of a signal. -/
def signalName : Nat → String
  | 0 => ""
  | below + 1 =>
    match signalNames.drop below with
    | [] => ""
    | name :: _ => s!" ({name})"

def ExitStatus.message : ExitStatus → String
  | .code value => s!"exit status: {value}"
  | .killed signal dumped =>
    let name := signalName signal
    let saved := if dumped then " (core dumped)" else ""
    s!"signal: {signal}{name}{saved}"

/-- What a renderer does until a run goes on without it. It shares the two streams of the run. -/
structure Rendering where
  /-- Whether the whole text is taken. A renderer may close its end of the pipe before that. -/
  takesText : Bool
  picture : Option (List UInt8)
  output : List UInt8
  complaints : List UInt8
  /-- How it ends, if the run waits for that. -/
  status : ExitStatus

/-- A program that draws DOT texts. It writes no file but its picture. -/
abbrev Renderer := Text → Rendering

/-- Why a graph does not get into a file. -/
inductive ExportError where
  | file (reason : FileError)
  | missingRenderer
  /-- The renderer does not take the whole text. -/
  | brokenPipe
  | renderer (status : ExitStatus)
  deriving DecidableEq

def ExportError.message : ExportError → String
  | .file _ => "IO Error"
  | .missingRenderer => "IO Error"
  | .brokenPipe => "IO Error"
  | .renderer status =>
    let ending := status.message
    s!"Renderer `dot` failed with {ending}"

/-- Starts the renderer on a DOT text. It cannot be started with a path that no file can have. -/
def startRenderer (renderer : Option Renderer) (path dot : Text) : Except ExportError Rendering :=
  if !Path.isUsable (Path.names path) then .error (.file .unusableName) else
  match renderer with
  | none => .error .missingRenderer
  | some renderer => .ok (renderer dot)

/-- Why no graph is got from a file. -/
inductive ImportError where
  | file (reason : FileError)
  /-- The octets of the file are no text. -/
  | notText
  | document (reason : DocumentError)
  deriving DecidableEq

namespace FileTree

def writeText (tree : FileTree) (path content : Text) : Except ExportError FileTree :=
  (tree.write path (Utf8.encode content)).mapError .file

def writeJson (tree : FileTree) (path : Text) (graph : Graph) : Except ExportError FileTree :=
  tree.writeText path graph.toJson

def writeDot (tree : FileTree) (path : Text) (graph : Graph) : Except ExportError FileTree :=
  tree.writeText path graph.dot

def readJson (tree : FileTree) (path : Text) : Except ImportError Graph :=
  match tree.read path with
  | .error reason => .error (.file reason)
  | .ok octets =>
    match Utf8.decode? octets with
    | none => .error .notText
    | some text => (Graph.ofJson text).mapError .document

/-- The tree and the end of a renderer after it has run. A renderer that cannot write its picture
fails; one that ends in another way without a picture is one that has none. -/
def afterRendering (tree : FileTree) (path : Text) (rendering : Rendering) :
    FileTree × ExitStatus :=
  match rendering.picture with
  | none => (tree, rendering.status)
  | some octets =>
    match tree.write path octets with
    | .ok drawn => (drawn, rendering.status)
    | .error _ => (tree, .code 1)

/-- Hands a DOT text to the renderer, and waits for its end if it takes the whole text. The tree may
change even if this fails. -/
def render (tree : FileTree) (renderer : Option Renderer) (path dot : Text) :
    FileTree × Option ExportError :=
  match startRenderer renderer path dot with
  | .error reason => (tree, some reason)
  | .ok rendering =>
    let (after, status) := tree.afterRendering path rendering
    (after,
      if !rendering.takesText then some .brokenPipe
      else if status = .code 0 then none
      else some (.renderer status))

end FileTree

end TapeFlow
