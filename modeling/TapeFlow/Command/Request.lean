import TapeFlow.Text.Encoding

namespace TapeFlow

/-! What the arguments of the command ask for. They are taken from left to right, so a question for
the version is answered unless something before it is wrong. -/

/-- What can be made of a program. -/
inductive Product where
  | tokens
  | graph
  | json
  | dot
  | png
  deriving DecidableEq

def Product.ofName? (name : Text) : Option Product :=
  if name = "tokens".toList then some .tokens
  else if name = "graph".toList then some .graph
  else if name = "json".toList then some .json
  else if name = "dot".toList then some .dot
  else if name = "png".toList then some .png
  else none

def Encoding.ofName? (name : Text) : Option Encoding :=
  if name = "utf8".toList then some .utf8
  else if name = "latin1".toList then some .latin1
  else none

structure Request where
  file : Text
  products : List Product
  output : Option Text
  encoding : Encoding
  quiet : Bool
  deriving DecidableEq

/-- Whether a product is asked for. Who asks for none gets the document and the DOT text. -/
def Request.wants (request : Request) (product : Product) : Bool :=
  if request.products.isEmpty then product = .json || product = .dot
  else request.products.contains product

inductive Invocation where
  | run (request : Request)
  | version
  | help
  | misuse
  deriving DecidableEq

namespace Arguments

/-- What the arguments so far have asked for. -/
structure Draft where
  file : Option Text := none
  products : List Product := []
  output : Option Text := none
  encoding : Option Encoding := none
  quiet : Bool := false

/-- What an argument leads to: more arguments are taken, or the rest has no meaning. -/
abbrev Taken := Except Invocation Draft

inductive Setting where
  | output
  | encoding

namespace Draft

def setOutput (draft : Draft) (value : Text) : Taken :=
  if draft.output.isSome ∨ value = [] then .error .misuse
  else .ok { draft with output := some value }

def setEncoding (draft : Draft) (value : Text) : Taken :=
  match draft.encoding, Encoding.ofName? value with
  | none, some encoding => .ok { draft with encoding := some encoding }
  | _, _ => .error .misuse

def set (draft : Draft) (setting : Setting) (value : Text) : Taken :=
  match setting with
  | .output => draft.setOutput value
  | .encoding => draft.setEncoding value

def setQuiet (draft : Draft) : Taken :=
  if draft.quiet then .error .misuse else .ok { draft with quiet := true }

/-- The first argument that is no option is the file, the others name products. -/
def addPositional (draft : Draft) (argument : Text) : Taken :=
  match draft.file with
  | none => if argument = [] then .error .misuse else .ok { draft with file := some argument }
  | some _ =>
    match Product.ofName? argument with
    | some product => .ok { draft with products := draft.products ++ [product] }
    | none => .error .misuse

def invocation (draft : Draft) : Invocation :=
  match draft.file with
  | none => .misuse
  | some file =>
    .run ⟨file, draft.products, draft.output, draft.encoding.getD .latin1, draft.quiet⟩

end Draft

/-- What an option asks for: what it changes by itself, or the setting that the next argument is the
value of. -/
inductive Effect where
  | taken (draft : Draft)
  | awaits (draft : Draft) (setting : Setting)

/-- Options of one letter may stand together. The first one that has a value takes the letters after
it as its value, without an equals sign between. -/
def letters (draft : Draft) : Text → Except Invocation Effect
  | [] => .ok (.taken draft)
  | letter :: rest =>
    let setting (setting : Setting) : Except Invocation Effect :=
      match rest with
      | [] => .ok (.awaits draft setting)
      | '=' :: value => (draft.set setting value).map .taken
      | value => (draft.set setting value).map .taken
    match letter with
    | 'o' => setting .output
    | 'e' => setting .encoding
    | 'V' => .error .version
    | 'h' => .error .help
    | 'q' =>
      match draft.setQuiet with
      | .ok draft => letters draft rest
      | .error invocation => .error invocation
    | _ => .error .misuse

/-- The name of an option and its value, which may be given after an equals sign. -/
def splitValue (argument : Text) : Text × Option Text :=
  match argument.dropWhile (· ≠ '=') with
  | [] => (argument, none)
  | _ :: value => (argument.takeWhile (· ≠ '='), some value)

def settingOf? (name : Text) : Option Setting :=
  if name = "output".toList then some .output
  else if name = "encoding".toList then some .encoding
  else none

/-- An option by its full name. -/
def word (draft : Draft) (argument : Text) : Except Invocation Effect :=
  let (name, value) := splitValue argument
  match settingOf? name, value with
  | some setting, some value => (draft.set setting value).map .taken
  | some setting, none => .ok (.awaits draft setting)
  | none, some _ => .error .misuse
  | none, none =>
    if name = "quiet".toList then draft.setQuiet.map .taken
    else if name = "version".toList then .error .version
    else if name = "help".toList then .error .help
    else .error .misuse

/-- Whether an argument is an option and not a value. A dash alone is a value. -/
def isOption : Text → Bool
  | '-' :: _ :: _ => true
  | _ => false

def option (draft : Draft) (argument : Text) : Except Invocation Effect :=
  match argument with
  | '-' :: '-' :: name => word draft name
  | _ => letters draft argument.tail

/-- Takes in arguments. After two dashes alone no argument is an option. -/
def take (draft : Draft) : List Text → Taken
  | [] => .ok draft
  | argument :: rest =>
    if argument = ['-', '-'] then rest.foldlM Draft.addPositional draft
    else if isOption argument then
      match option draft argument with
      | .error invocation => .error invocation
      | .ok (.taken draft) => take draft rest
      | .ok (.awaits draft setting) =>
        match rest with
        | [] => .error .misuse
        | value :: rest =>
          if isOption value then .error .misuse
          else match draft.set setting value with
            | .error invocation => .error invocation
            | .ok draft => take draft rest
    else match draft.addPositional argument with
      | .error invocation => .error invocation
      | .ok draft => take draft rest

end Arguments

/-- What the arguments of the command ask for. -/
def Invocation.ofArguments (arguments : List Text) : Invocation :=
  match Arguments.take {} arguments with
  | .ok draft => draft.invocation
  | .error invocation => invocation

end TapeFlow
