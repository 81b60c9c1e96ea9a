import TapeFlow.Text.Basic
import TapeFlow.Text.Blank
import TapeFlow.Text.Utf8
import TapeFlow.Text.Encoding
import TapeFlow.Text.Unprintable
import TapeFlow.Text.Quoted
import TapeFlow.Token
import TapeFlow.Token.Line
import TapeFlow.Token.Cursor
import TapeFlow.Graph
import TapeFlow.Graph.Builder
import TapeFlow.Graph.Fault
import TapeFlow.Graph.Dot
import TapeFlow.Graph.Dump
import TapeFlow.Graph.Json
import TapeFlow.Graph.Document
import TapeFlow.Compile
import TapeFlow.Decimal.Shortest
import TapeFlow.Decimal.Style
import TapeFlow.Json.Layout
import TapeFlow.Json.Error
import TapeFlow.Json.Reader
import TapeFlow.Json.Number
import TapeFlow.Json.String
import TapeFlow.Json.Skip
import TapeFlow.Json.Value
import TapeFlow.Files.Path
import TapeFlow.Files.Tree
import TapeFlow.Files.Exchange
import TapeFlow.Command.Request
import TapeFlow.Command.Plan
import TapeFlow.Command.Run
import TapeFlow.Command.Transcript
import TapeFlow.Main
import TapeFlow.Proofs.Program
import TapeFlow.Proofs.Runs
import TapeFlow.Proofs.Structural
import TapeFlow.Proofs.FirstFault
import TapeFlow.Proofs.Growth
import TapeFlow.Proofs.Settling
import TapeFlow.Proofs.Decompiling
import TapeFlow.Proofs.Machine
import TapeFlow.Proofs.Behaviour
import TapeFlow.Proofs.Reached
import TapeFlow.Proofs.Exits
import TapeFlow.Proofs.Labels
import TapeFlow.Proofs.Walks
import TapeFlow.Proofs.Reducible
import TapeFlow.Proofs.Trail
import TapeFlow.Proofs.Sequencing
import TapeFlow.Proofs.Validity
import TapeFlow.Proofs.Texts
import TapeFlow.Proofs.Numerals
import TapeFlow.Proofs.Drawing
import TapeFlow.Proofs.Reading
import TapeFlow.Proofs.Lexing
import TapeFlow.Proofs.Layouts
import TapeFlow.Proofs.RoundTrip
import TapeFlow.Proofs.Comments
import TapeFlow.Proofs.Decoding
import TapeFlow.Proofs.Irrelevance
import TapeFlow.Proofs.Arguments
import TapeFlow.Proofs.FileTrees
import TapeFlow.Proofs.Stages
import TapeFlow.Proofs.Spacing
import TapeFlow.Proofs.Marks
import TapeFlow.Proofs.Merging
import TapeFlow.Proofs.Enclosure
import TapeFlow.Proofs.Faults
import TapeFlow.Proofs.Accounting
import TapeFlow.Proofs.Bounds
import TapeFlow.Proofs.Transcoding
import TapeFlow.Proofs.Resuming
import TapeFlow.Proofs.Noninterference
