import TapeFlow.Command.Request
import TapeFlow.Compile
import TapeFlow.Files.Exchange
import TapeFlow.Graph.Dump

namespace TapeFlow

/-! What a run of the command does, as a list of actions. The list depends on the request and on
what the file holds; only the file is read before it is known. -/

inductive Tint where
  | blue
  | green
  | red
  deriving DecidableEq

/-- A piece of a status line. -/
inductive Span where
  | plain (text : Text)
  | tinted (tint : Tint) (text : Text)
  /-- How long the work took that the line reports. -/
  | elapsed
  deriving DecidableEq

/-- Why a run fails. -/
inductive RunError where
  | file (reason : FileError)
  | program (reason : BuildError)
  | exporting (reason : ExportError)
  deriving DecidableEq

def RunError.message : RunError → String
  | .file reason => "IO Error: " ++ reason.message
  | .program reason => "Parser error: " ++ reason.message
  | .exporting reason => "Export error: " ++ reason.message

inductive Action where
  /-- Tells what is going on. -/
  | status (line : List Span)
  /-- Prints what was asked for. -/
  | print (content : Text)
  | createDirectories (path : Text)
  | write (path content : Text)
  | render (path dot : Text)
  /-- Ends the run. -/
  | fail (reason : RunError)
  deriving DecidableEq

namespace Request

/-- The file that a product is written to. -/
def outputPath (request : Request) (extension : String) : Text :=
  Path.join (request.output.getD ['.']) (Path.stem request.file ++ '.' :: extension.toList)

def wrote (path : Text) : Action :=
  .status [.tinted .green "Wrote".toList, .plain (' ' :: path)]

def directoryActions (request : Request) : List Action :=
  (request.output.map Action.createDirectories).toList

def jsonActions (request : Request) (graph : Graph) : List Action :=
  let path := request.outputPath "json"
  if request.wants .json then [.write path graph.toJson, wrote path] else []

def dotActions (request : Request) (graph : Graph) : List Action :=
  let path := request.outputPath "dot"
  if request.wants .dot then [.write path graph.dot, wrote path] else []

def pngActions (request : Request) (graph : Graph) : List Action :=
  let path := request.outputPath "png"
  if request.wants .png then
    [.status [.tinted .blue "Starting".toList, .plain " dot".toList],
      .render path graph.dot,
      .status [.tinted .green "Rendered".toList, .plain (' ' :: path ++ " in ".toList), .elapsed]]
  else []

/-- What is done with a graph. -/
def graphActions (request : Request) (graph : Graph) : List Action :=
  let count := Text.ofNat graph.size
  .status [.tinted .green "Finished graph building with".toList,
      .plain (' ' :: count ++ " nodes in ".toList), .elapsed] ::
    (if request.wants .graph then [.print graph.dump] else []) ++
    request.directoryActions ++ request.jsonActions graph ++ request.dotActions graph ++
    request.pngActions graph

/-- What is done with a program. -/
def programActions (request : Request) (program : Text) : List Action :=
  let tokens := tokenize program
  [.status [.tinted .blue "Starting lexing".toList],
    .status [.tinted .green "Finished lexing in".toList, .plain [' '], .elapsed]] ++
    (if request.wants .tokens then [.print ([' '].intercalate (tokens.map Token.text))] else []) ++
    .status [.tinted .blue "Starting graph building".toList] ::
    match build tokens with
    | .error reason => [.fail (.program reason)]
    | .ok graph => request.graphActions graph

/-- What is done, once the file is read or has failed to be. -/
def actions (request : Request) (source : Except FileError (List UInt8)) : List Action :=
  .status [.plain ("Running ".toList ++ request.file)] ::
    match source with
    | .error reason => [.fail (.file reason)]
    | .ok octets => request.programActions (request.encoding.decode octets)

end Request

end TapeFlow
