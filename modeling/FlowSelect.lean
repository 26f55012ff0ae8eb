import FlowSelect.Main
import FlowSelect.Proofs.Grammar.Move
import FlowSelect.Proofs.Grammar.Depth
import FlowSelect.Proofs.Grammar.Brackets
import FlowSelect.Proofs.Grammar.Places
import FlowSelect.Proofs.Grammar.Failures
import FlowSelect.Proofs.Query.Reading
import FlowSelect.Proofs.Query.Composition
import FlowSelect.Proofs.Query.Precedence
import FlowSelect.Proofs.Query.Literals
import FlowSelect.Proofs.Query.Blank
import FlowSelect.Proofs.Query.Words
import FlowSelect.Proofs.Query.Forms
import FlowSelect.Proofs.Query.Excerpt
import FlowSelect.Proofs.Query.Leftmost
import FlowSelect.Proofs.Query.Layout
import FlowSelect.Proofs.BareWords
import FlowSelect.Proofs.Spans
import FlowSelect.Proofs.Kleene
import FlowSelect.Proofs.Negation
import FlowSelect.Proofs.Schema.Validity
import FlowSelect.Proofs.Faults
import FlowSelect.Proofs.Engine.Reader
import FlowSelect.Proofs.Engine.Lexemes
import FlowSelect.Proofs.Engine.Reading
import FlowSelect.Proofs.Engine.Names
import FlowSelect.Proofs.Relaxation
import FlowSelect.Proofs.Pushdown
import FlowSelect.Proofs.Net.Halves
import FlowSelect.Proofs.Net.Ip4
import FlowSelect.Proofs.Extension
import FlowSelect.Proofs.Json.ReadBack
import FlowSelect.Proofs.Configuration
import FlowSelect.Proofs.Row
import FlowSelect.Proofs.Compile.Range
import FlowSelect.Proofs.Compile.Kinds
import FlowSelect.Proofs.Compile.IntegerMeaning
import FlowSelect.Proofs.Engine.Legible
import FlowSelect.Proofs.FixedPoint
import FlowSelect.Proofs.Net.Order
import FlowSelect.Proofs.Compile.Union
import FlowSelect.Proofs.Net.FullWidth
import FlowSelect.Proofs.Net.DottedQuad
import FlowSelect.Proofs.Net.TcpFlags
import FlowSelect.Proofs.Text.Numerals
import FlowSelect.Proofs.Time.Timestamp
import FlowSelect.Proofs.Name.Wire
import FlowSelect.Proofs.Name.SelfMatch
import FlowSelect.Proofs.Name.WireMatch
import FlowSelect.Proofs.Name.PercentEncoding
import FlowSelect.Proofs.Suggestions
