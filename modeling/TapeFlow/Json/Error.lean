import TapeFlow.Decimal.Style
import TapeFlow.Text.Quoted

namespace TapeFlow.Json

/-! What can be wrong with a document that is read as a value of a known shape. -/

/-- What stands where another shape is called for. -/
inductive Found where
  | null
  | boolean (value : Bool)
  | integer (value : Int)
  | decimal (value : Float)
  | string (text : Text)
  | sequence
  | map
  deriving DecidableEq

/-- What a place of a document calls for. -/
inductive Shape where
  | graph
  | node
  | edge
  | sequence
  | number
  | null
  deriving DecidableEq

/-- A well-formed document that is not of the shape called for. -/
inductive Mismatch where
  | missingField (field : String)
  | duplicateField (field : String)
  | wrongLength (length : Nat) (shape : Shape)
  | wrongType (found : Found) (shape : Shape)
  | wrongValue (found : Found) (shape : Shape)
  | unknownVariant (found : Text) (variants : List Text)
  deriving DecidableEq

/-- Why a document is not read. -/
inductive ReadError where
  /-- The text ends where more is needed. -/
  | truncated
  /-- The text is no JSON, or has elements too many. -/
  | malformed
  | mismatch (reason : Mismatch)
  deriving DecidableEq

/-- Doubles are written in full from 0.00001 up to sixteen digits before the point. -/
def decimalStyle : Decimal.Style :=
  ⟨-5, 15⟩

def Found.description : Found → String
  | .null => "null"
  | .boolean value => s!"boolean `{value}`"
  | .integer value => s!"integer `{value}`"
  | .decimal value =>
    let shown := String.ofList (decimalStyle.ofFloat value)
    s!"floating point `{shown}`"
  | .string text =>
    let shown := String.ofList text.quoted
    s!"string {shown}"
  | .sequence => "sequence"
  | .map => "map"

def Shape.description : Shape → String
  | .graph => "struct Graph"
  | .node => "struct Node"
  | .edge => "a tuple of size 2"
  | .sequence => "a sequence"
  | .number => "usize"
  | .null => "unit"

/-- A shape with the number of its elements. -/
def Shape.sized : Shape → String
  | .graph => "struct Graph with 1 element"
  | .node => "struct Node with 3 elements"
  | shape => shape.description

/-- Variants between backticks. -/
def variantList (variants : List Text) : String :=
  ", ".intercalate (variants.map fun variant => "`" ++ String.ofList variant ++ "`")

def Mismatch.message : Mismatch → String
  | .missingField field => s!"missing field `{field}`"
  | .duplicateField field => s!"duplicate field `{field}`"
  | .wrongLength length shape =>
    let expected := shape.sized
    s!"invalid length {length}, expected {expected}"
  | .wrongType found shape =>
    let given := found.description
    let expected := shape.description
    s!"invalid type: {given}, expected {expected}"
  | .wrongValue found shape =>
    let given := found.description
    let expected := shape.description
    s!"invalid value: {given}, expected {expected}"
  | .unknownVariant found variants =>
    let given := String.ofList found
    let expected := variantList variants
    s!"unknown variant `{given}`, expected one of {expected}"

end TapeFlow.Json
