import ConditionalStyle.Assembly.Chain
import ConditionalStyle.Assembly.Compile
import ConditionalStyle.Assembly.Fragment
import ConditionalStyle.CommandLine.Arguments
import ConditionalStyle.CommandLine.Assignment
import ConditionalStyle.CommandLine.Run
import ConditionalStyle.Decimal.Length
import ConditionalStyle.Decimal.Nearest
import ConditionalStyle.Decimal.Reading
import ConditionalStyle.Decimal.Shortest
import ConditionalStyle.Expression.Eval
import ConditionalStyle.Expression.Host
import ConditionalStyle.Expression.Parser
import ConditionalStyle.Expression.Token
import ConditionalStyle.Expression.Tree
import ConditionalStyle.Main
import ConditionalStyle.Path
import ConditionalStyle.Proofs.Expression.Grammar
import ConditionalStyle.Proofs.Expression.Reading
import ConditionalStyle.Proofs.Expression.Scanning
import ConditionalStyle.Proofs.Expression.Soundness
import ConditionalStyle.Report
import ConditionalStyle.Settings.Load
import ConditionalStyle.Settings.Options
import ConditionalStyle.Settings.Yaml
import ConditionalStyle.Settings.Yaml.Cursor
import ConditionalStyle.Settings.Yaml.Fault
import ConditionalStyle.Settings.Yaml.Node
import ConditionalStyle.Settings.Yaml.Resolve
import ConditionalStyle.Settings.Yaml.Scalar
import ConditionalStyle.Settings.Yaml.Token
import ConditionalStyle.Source
import ConditionalStyle.Stylesheet.Compact
import ConditionalStyle.Stylesheet.Node
import ConditionalStyle.Stylesheet.Parser
import ConditionalStyle.Stylesheet.Scan
import ConditionalStyle.Stylesheet.Stats
import ConditionalStyle.Stylesheet.Token
import ConditionalStyle.Stylesheet.Walk
import ConditionalStyle.Text.Blank
import ConditionalStyle.Text.CodePoint
import ConditionalStyle.Text.Digit
import ConditionalStyle.Text.Display
import ConditionalStyle.Text.Literal
import ConditionalStyle.Text.Printable
import ConditionalStyle.Text.Scan
import ConditionalStyle.Text.Utf16
import ConditionalStyle.Text.Utf8
import ConditionalStyle.Text.Word
import ConditionalStyle.Value
import ConditionalStyle.Proofs.Expression.Completeness
import ConditionalStyle.Proofs.Text.Lexeme
import ConditionalStyle.Proofs.Text.Literal
import ConditionalStyle.Proofs.Expression.Splicing
import ConditionalStyle.Proofs.Expression.Path
import ConditionalStyle.Proofs.Stylesheet.Reading
import ConditionalStyle.Proofs.Stylesheet.Regular
import ConditionalStyle.Proofs.Assembly.Outline
import ConditionalStyle.Proofs.Assembly.Layout
import ConditionalStyle.Proofs.Assembly.Walk
import ConditionalStyle.Proofs.Assembly.Outcome
import ConditionalStyle.Proofs.Assembly.Pruning
import ConditionalStyle.Proofs.Assembly.Derivation
import ConditionalStyle.Proofs.Assembly.Meaning
import ConditionalStyle.Proofs.Assembly.Printing
import ConditionalStyle.Proofs.Assembly.Resolve
import ConditionalStyle.Proofs.Assembly.Preservation
import ConditionalStyle.Proofs.Stylesheet.Spelling
import ConditionalStyle.Proofs.Stylesheet.Rereading
import ConditionalStyle.Proofs.Assembly.RoundTrip
import ConditionalStyle.Proofs.Assembly.Requests
import ConditionalStyle.Proofs.Assembly.Sums
import ConditionalStyle.Proofs.Assembly.Nesting
import ConditionalStyle.Proofs.Assembly.Neighbours
import ConditionalStyle.Proofs.Assembly.DeadTerms
import ConditionalStyle.Proofs.Expression.RoundTrip
import ConditionalStyle.Proofs.Assembly.Stats
import ConditionalStyle.Proofs.Assembly.Idempotence
import ConditionalStyle.Proofs.Text.Spelled
import ConditionalStyle.Proofs.Stylesheet.Places
import ConditionalStyle.Proofs.Stylesheet.Faults
import ConditionalStyle.Proofs.Decimal.Length
import ConditionalStyle.Proofs.Decimal.Range
import ConditionalStyle.Proofs.Expression.Failures
import ConditionalStyle.Proofs.Assembly.Building
import ConditionalStyle.Proofs.Stylesheet.Flushing
import ConditionalStyle.Proofs.Stylesheet.Quoting
import ConditionalStyle.Proofs.CommandLine.LastAssignment
import ConditionalStyle.Proofs.Expression.Boundaries
import ConditionalStyle.Proofs.Expression.Regrouping
import ConditionalStyle.Proofs.Assembly.Protocol
import ConditionalStyle.Proofs.Settings.Loading
