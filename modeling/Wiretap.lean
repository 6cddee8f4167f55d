import Wiretap.Command.Arguments
import Wiretap.Command.Invocation
import Wiretap.Command.Policy
import Wiretap.Command.Run
import Wiretap.Event
import Wiretap.Files.Disk
import Wiretap.Json.Basic
import Wiretap.Json.Encoding
import Wiretap.Json.Reader
import Wiretap.Json.Writer
import Wiretap.Knowledge.Exposure
import Wiretap.Knowledge.Saturation
import Wiretap.Knowledge.State
import Wiretap.Knowledge.Terms
import Wiretap.Main
import Wiretap.Naming
import Wiretap.Naming.Decoding
import Wiretap.Naming.Loading
import Wiretap.Protocol.Basic
import Wiretap.Protocol.Declarations
import Wiretap.Protocol.Node
import Wiretap.Protocol.Summary
import Wiretap.Report.Basic
import Wiretap.Report.Classification
import Wiretap.Report.Rendering
import Wiretap.Report.Summary
import Wiretap.Signatures
import Wiretap.Source.Diagnostic
import Wiretap.Source.Expectation
import Wiretap.Source.Grammar
import Wiretap.Source.Lexer
import Wiretap.Source.Position
import Wiretap.Source.Reference
import Wiretap.Source.Stream
import Wiretap.Source.Token
import Wiretap.Text.Charset
import Wiretap.Text.Hexadecimal
import Wiretap.Text.Integer
import Wiretap.Text.Letter
import Wiretap.Text.Lowercase
import Wiretap.Text.Numeral
import Wiretap.Text.Printable
import Wiretap.Text.Punycode
import Wiretap.Text.Quoted
import Wiretap.Text.Ranges
import Wiretap.Text.Space
import Wiretap.Text.Units
import Wiretap.Text.Utf8
import Wiretap.Text.Word
import Wiretap.Web.Address
import Wiretap.Web.Analysis
import Wiretap.Web.Delivery
import Wiretap.Web.Form
import Wiretap.Web.Header
import Wiretap.Web.Host
import Wiretap.Web.Multipart
import Wiretap.Web.Page
import Wiretap.Web.Percent
import Wiretap.Web.Request
import Wiretap.Web.Response
import Wiretap.Web.Route
import Wiretap.Web.Service
import Wiretap.Web.Startup
import Wiretap.Proofs.Atomicity
import Wiretap.Proofs.Classification
import Wiretap.Proofs.Declarations
import Wiretap.Proofs.Disclosure
import Wiretap.Proofs.Disk
import Wiretap.Proofs.Errands
import Wiretap.Proofs.Exposure
import Wiretap.Proofs.Grammar
import Wiretap.Proofs.Growth
import Wiretap.Proofs.Incremental
import Wiretap.Proofs.Labels
import Wiretap.Proofs.LeastKnowledge
import Wiretap.Proofs.Lexing.Access
import Wiretap.Proofs.Lexing.Faults
import Wiretap.Proofs.Lexing.LineEnds
import Wiretap.Proofs.Lexing.Lossless
import Wiretap.Proofs.Lexing.Scan
import Wiretap.Proofs.Noninterference
import Wiretap.Proofs.Parsing.Acceptance
import Wiretap.Proofs.Parsing.Blame
import Wiretap.Proofs.Parsing.Completeness
import Wiretap.Proofs.Parsing.Layout
import Wiretap.Proofs.Parsing.Likeness
import Wiretap.Proofs.Parsing.Outcome
import Wiretap.Proofs.Parsing.Productions
import Wiretap.Proofs.Parsing.RoundTrip
import Wiretap.Proofs.Parsing.Shape
import Wiretap.Proofs.Parsing.Soundness
import Wiretap.Proofs.Places
import Wiretap.Proofs.Provenance
import Wiretap.Proofs.Rearrangement
import Wiretap.Proofs.Report
import Wiretap.Proofs.Rounds
import Wiretap.Proofs.Saturation
import Wiretap.Proofs.Secrecy
import Wiretap.Proofs.Signatures
import Wiretap.Proofs.Success
import Wiretap.Proofs.Totality
import Wiretap.Proofs.Unwrapping
import Wiretap.Proofs.Web.Submission
import Wiretap.Proofs.Web.PolicyRuns
import Wiretap.Proofs.Intake
import Wiretap.Proofs.Parsing.Walk
import Wiretap.Proofs.Parsing.Calls
import Wiretap.Proofs.Lexing.Calls
import Wiretap.Proofs.NamingSchema
import Wiretap.Proofs.Lines
import Wiretap.Proofs.Dumps
import Wiretap.Proofs.Rendering
