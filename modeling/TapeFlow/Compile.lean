import TapeFlow.Token.Cursor
import TapeFlow.Graph.Builder

namespace TapeFlow

/-- The control-flow graph of a program text. -/
def compile (text : Text) : Except BuildError Graph :=
  build (tokenize text)

end TapeFlow
