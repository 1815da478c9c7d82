import Sexpr.Command
import Sexpr.Datum.Abbreviation
import Sexpr.Datum.Basic
import Sexpr.Datum.Copy
import Sexpr.Datum.Tagged
import Sexpr.Datum.Written
import Sexpr.Files.Load
import Sexpr.Files.Store
import Sexpr.Main
import Sexpr.Number.Basic
import Sexpr.Number.Decimal
import Sexpr.Number.Leading
import Sexpr.Number.Shortest
import Sexpr.Number.Written
import Sexpr.Output.Lines
import Sexpr.Output.Sink
import Sexpr.Pipeline
import Sexpr.Proofs.Datum.Chains
import Sexpr.Proofs.Datum.Equality
import Sexpr.Proofs.Datum.Readable
import Sexpr.Proofs.Datum.Rendering
import Sexpr.Proofs.Datum.Tagged
import Sexpr.Proofs.Files.Agreement
import Sexpr.Proofs.Files.Store
import Sexpr.Proofs.Number.Fields
import Sexpr.Proofs.Number.Rounding
import Sexpr.Proofs.Output.Framing
import Sexpr.Proofs.Output.Lines
import Sexpr.Proofs.Pipeline.Stages
import Sexpr.Proofs.Reader.Atoms
import Sexpr.Proofs.Reader.Causes
import Sexpr.Proofs.Reader.Checked
import Sexpr.Proofs.Reader.Completion
import Sexpr.Proofs.Reader.Composition
import Sexpr.Proofs.Reader.Depth
import Sexpr.Proofs.Reader.Finality
import Sexpr.Proofs.Reader.Following
import Sexpr.Proofs.Reader.Grammar
import Sexpr.Proofs.Reader.LeadingSign
import Sexpr.Proofs.Reader.Literals
import Sexpr.Proofs.Reader.Locality
import Sexpr.Proofs.Reader.Location
import Sexpr.Proofs.Reader.Names
import Sexpr.Proofs.Reader.Numerals
import Sexpr.Proofs.Reader.Parallel
import Sexpr.Proofs.Reader.Placement
import Sexpr.Proofs.Reader.Produced
import Sexpr.Proofs.Reader.Progress
import Sexpr.Proofs.Reader.Renderings
import Sexpr.Proofs.Reader.Report
import Sexpr.Proofs.Reader.Roundtrip
import Sexpr.Proofs.Reader.Safety
import Sexpr.Proofs.Reader.Sightings
import Sexpr.Proofs.Reader.Step
import Sexpr.Proofs.Reader.Strays
import Sexpr.Proofs.Reader.Strings
import Sexpr.Proofs.Reader.Tokens
import Sexpr.Proofs.Reader.Trailing
import Sexpr.Proofs.Reader.Walks
import Sexpr.Proofs.Text.Extension
import Sexpr.Proofs.Text.History
import Sexpr.Proofs.Text.Quoted
import Sexpr.Proofs.Text.Slice
import Sexpr.Reader.Error
import Sexpr.Reader.Event
import Sexpr.Reader.Form
import Sexpr.Reader.Numeral
import Sexpr.Reader.Outcome
import Sexpr.Reader.Scan
import Sexpr.Reader.Token
import Sexpr.Text.Blank
import Sexpr.Text.Cursor
import Sexpr.Text.Hidden
import Sexpr.Text.Quoted
import Sexpr.Text.Shown
