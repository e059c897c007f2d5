import ProofHarness.Main
import ProofHarness.Proofs.Attribute.BareProof
import ProofHarness.Proofs.Attribute.Bound
import ProofHarness.Proofs.Attribute.Bundled
import ProofHarness.Proofs.Attribute.Classification
import ProofHarness.Proofs.Attribute.Composite
import ProofHarness.Proofs.Attribute.PathPlace
import ProofHarness.Proofs.Attribute.Pieces
import ProofHarness.Proofs.Attribute.Solver
import ProofHarness.Proofs.Attribute.Spacing
import ProofHarness.Proofs.Attribute.Splitting
import ProofHarness.Proofs.Attribute.Squeezed
import ProofHarness.Proofs.Command.Attempts
import ProofHarness.Proofs.Command.Choices
import ProofHarness.Proofs.CommandLine.CommandRequest
import ProofHarness.Proofs.Discovery.Accounting
import ProofHarness.Proofs.Discovery.SameFile
import ProofHarness.Proofs.Disk.Location
import ProofHarness.Proofs.Disk.Path
import ProofHarness.Proofs.Harness.Arguments
import ProofHarness.Proofs.Harness.BareMark
import ProofHarness.Proofs.Harness.Bundling
import ProofHarness.Proofs.Harness.LineAddress
import ProofHarness.Proofs.Harness.Partition
import ProofHarness.Proofs.Harness.Record
import ProofHarness.Proofs.Json.Denotation
import ProofHarness.Proofs.Lexical.Ahead
import ProofHarness.Proofs.Lexical.Cutting
import ProofHarness.Proofs.Lexical.Grouping
import ProofHarness.Proofs.Lexical.NumberExtent
import ProofHarness.Proofs.Lexical.QuotedExtent
import ProofHarness.Proofs.Lexical.TokenExtent
import ProofHarness.Proofs.Lexical.Words
import ProofHarness.Proofs.Listing.Filtering
import ProofHarness.Proofs.Module.Agreement
import ProofHarness.Proofs.Module.Ancestors
import ProofHarness.Proofs.Module.Inversion
import ProofHarness.Proofs.Module.KeyOrder
import ProofHarness.Proofs.Report.Block
import ProofHarness.Proofs.Report.Description
import ProofHarness.Proofs.Report.Entry
import ProofHarness.Proofs.Report.Field
import ProofHarness.Proofs.Report.FieldOrder
import ProofHarness.Proofs.Report.LineEnd
import ProofHarness.Proofs.Report.Paragraph
import ProofHarness.Proofs.Report.Printout
import ProofHarness.Proofs.Report.RoundTrip
import ProofHarness.Proofs.Report.RunError
import ProofHarness.Proofs.Report.Sequence
import ProofHarness.Proofs.Scan.Completeness
import ProofHarness.Proofs.Scan.Irrelevance
import ProofHarness.Proofs.Scan.QuickCheck
import ProofHarness.Proofs.Session.Invariant
import ProofHarness.Proofs.Syntax.Descendants
import ProofHarness.Proofs.Syntax.NodeLine
import ProofHarness.Proofs.Target.Candidate
import ProofHarness.Proofs.Target.Disambiguation
import ProofHarness.Proofs.Text.Glob
import ProofHarness.Proofs.Text.Marker
import ProofHarness.Proofs.Text.Occurrence
import ProofHarness.Proofs.Text.Regex
import ProofHarness.Session
