import Derw.Block.Basic
import Derw.Block.Document
import Derw.Block.Line
import Derw.Block.Segment
import Derw.Command.Basic
import Derw.Command.Flags
import Derw.Config.Basic
import Derw.Config.Document
import Derw.Config.Find
import Derw.Diagnostic
import Derw.File.Disk
import Derw.File.Tree
import Derw.Glob.Compile
import Derw.Glob.Matcher
import Derw.Glob.Pattern
import Derw.Job.Basic
import Derw.Main
import Derw.Module.Basic
import Derw.Module.Document
import Derw.Module.Import
import Derw.Module.Pattern
import Derw.Module.Pipe
import Derw.Module.Type
import Derw.Name.Distance
import Derw.Name.Missing
import Derw.Name.Seen
import Derw.Name.Usage
import Derw.Script.ListMatch
import Derw.Script.Lower
import Derw.Script.Match
import Derw.Script.Print
import Derw.Script.Program
import Derw.Script.Syntax
import Derw.Script.Type
import Derw.Text.Blank
import Derw.Text.Casing
import Derw.Text.CharSet
import Derw.Text.Cut
import Derw.Text.Letter
import Derw.Text.Number
import Derw.Text.Path
import Derw.Text.Printable
import Derw.Text.Quoted
import Derw.Text.Utf8
import Derw.Toml.Document
import Derw.Toml.Scalar
import Derw.Toml.Table
import Derw.Yaml.Glyph
import Derw.Yaml.Node
import Derw.Yaml.Scalar
import Derw.Yaml.Scan
import Derw.Yaml.Time
import Derw.Yaml.Token
import Derw.Yaml.Typed
import Derw.Yaml.Value
import Derw.Yaml.Write
import Derw.Proofs.Text.Cut
import Derw.Proofs.Text.Distinct
import Derw.Proofs.Match.Plan
import Derw.Proofs.Match.Code
import Derw.Proofs.Match.Nesting
import Derw.Proofs.Match.Gapless
import Derw.Proofs.Match.Leftmost
import Derw.Proofs.Match.Blocks
import Derw.Proofs.Match.Arrival
import Derw.Proofs.Match.Agreement
import Derw.Proofs.Block.Segmentation
import Derw.Proofs.Block.Ranges
import Derw.Proofs.Block.Joining
import Derw.Proofs.Reader.Token
import Derw.Proofs.Reader.Tree
import Derw.Proofs.Reader.Printed
import Derw.Proofs.Reader.Structure
import Derw.Proofs.Reader.Element
import Derw.Proofs.Case.Matching
import Derw.Proofs.Case.Visits
import Derw.Proofs.Case.Selection
import Derw.Proofs.Name.Bound
import Derw.Proofs.Name.Pipe
import Derw.Proofs.Program.Bindings
import Derw.Proofs.Name.Collision
import Derw.Proofs.Name.Listing
import Derw.Proofs.Name.Interpolation
import Derw.Proofs.Program.Reads
import Derw.Proofs.Name.Coverage
import Derw.Proofs.Scope.Basic
import Derw.Proofs.Scope.Program
import Derw.Proofs.Scope.Sites
import Derw.Proofs.Scope.Tidy
import Derw.Proofs.Scope.Match
import Derw.Proofs.Scope.Lowering
import Derw.Proofs.Scope.Temporaries
import Derw.Proofs.Scope.Positional
import Derw.Proofs.Job.Growth
import Derw.Proofs.Command.Looking
import Derw.Proofs.Command.Workers
import Derw.Proofs.Command.Batch
import Derw.Proofs.Command.Reporting
import Derw.Proofs.File.Places
import Derw.Proofs.Config.Nearest
import Derw.Proofs.Command.Folder
import Derw.Proofs.Module.Representation
import Derw.Proofs.Module.Reading
import Derw.Proofs.Module.Chain
import Derw.Proofs.Module.Bracketing
import Derw.Proofs.Program.Untyped
import Derw.Proofs.Program.Emission
import Derw.Proofs.Program.Locality
import Derw.Proofs.Yaml.Scalar
import Derw.Proofs.Yaml.Layout
import Derw.Proofs.Yaml.Numeral
import Derw.Proofs.Yaml.Tree
import Derw.Proofs.Block.RoundTrip
import Derw.Proofs.Name.Distance
import Derw.Proofs.Name.Suggestion
import Derw.Proofs.Name.Unresolved
import Derw.Proofs.Type.Grammar
import Derw.Proofs.Type.Rendered
import Derw.Proofs.Type.Harvest
import Derw.Proofs.Block.Signature
import Derw.Proofs.Block.Declaration
import Derw.Proofs.Program.TypeParameters
import Derw.Proofs.Reader.Unary
import Derw.Proofs.Reader.Comment
import Derw.Proofs.Yaml.Lines
import Derw.Proofs.Module.Faults
import Derw.Proofs.Match.Bounds
import Derw.Proofs.Name.Template
import Derw.Proofs.Name.Path
