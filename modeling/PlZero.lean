import PlZero.Analysis.Analyser
import PlZero.Analysis.Goal
import PlZero.Analysis.SymbolTable
import PlZero.Archive.Checksum
import PlZero.Archive.Directory
import PlZero.Archive.Field
import PlZero.Archive.Inflate
import PlZero.Archive.Pack
import PlZero.Archive.Read
import PlZero.Assembly.Assemble
import PlZero.Assembly.Listing
import PlZero.Command.Options
import PlZero.Command.Session
import PlZero.Console.Sink
import PlZero.Console.Writer
import PlZero.Failure
import PlZero.Files.Access
import PlZero.Files.Disk
import PlZero.Files.Path
import PlZero.Files.Pattern
import PlZero.Files.Tree
import PlZero.Json.Token
import PlZero.Json.Value
import PlZero.Machine.Basic
import PlZero.Machine.Execute
import PlZero.Machine.Fault
import PlZero.Machine.Instruction
import PlZero.Main
import PlZero.Proofs.Analysis.Calls
import PlZero.Proofs.Analysis.Checks
import PlZero.Proofs.Analysis.Consumption
import PlZero.Proofs.Analysis.Declarations
import PlZero.Proofs.Analysis.Expressions
import PlZero.Proofs.Analysis.Items
import PlZero.Proofs.Analysis.Language
import PlZero.Proofs.Analysis.Lookahead
import PlZero.Proofs.Analysis.Prediction
import PlZero.Proofs.Analysis.Programs
import PlZero.Proofs.Analysis.Reading
import PlZero.Proofs.Analysis.Renaming
import PlZero.Proofs.Analysis.Requests
import PlZero.Proofs.Analysis.Spelling
import PlZero.Proofs.Analysis.Table
import PlZero.Proofs.Analysis.Tasks
import PlZero.Proofs.Analysis.Viability
import PlZero.Proofs.Analysis.Violations
import PlZero.Proofs.Archive.Packing
import PlZero.Proofs.Assembly.Grammar
import PlZero.Proofs.Assembly.RoundTrip
import PlZero.Proofs.Command.Arguments
import PlZero.Proofs.Command.Delivery
import PlZero.Proofs.Command.Footprint
import PlZero.Proofs.Command.Listing
import PlZero.Proofs.Command.PostMortem
import PlZero.Proofs.Command.Sessions
import PlZero.Proofs.Compilation.Constants
import PlZero.Proofs.Compilation.Correctness
import PlZero.Proofs.Compilation.Diagnostics
import PlZero.Proofs.Compilation.Expressions
import PlZero.Proofs.Compilation.Layout
import PlZero.Proofs.Compilation.Length
import PlZero.Proofs.Compilation.Programs
import PlZero.Proofs.Compilation.Reformatting
import PlZero.Proofs.Compilation.Replay
import PlZero.Proofs.Compilation.Slots
import PlZero.Proofs.Compilation.Sources
import PlZero.Proofs.Compilation.Standing
import PlZero.Proofs.Compilation.Wrapping
import PlZero.Proofs.Console.Writing
import PlZero.Proofs.Files.Paths
import PlZero.Proofs.Files.Places
import PlZero.Proofs.Files.Queries
import PlZero.Proofs.Files.Resolution
import PlZero.Proofs.Files.Searching
import PlZero.Proofs.Json.Reading
import PlZero.Proofs.Json.Writing
import PlZero.Proofs.Machine.Accounting
import PlZero.Proofs.Machine.Attached
import PlZero.Proofs.Machine.Canonical
import PlZero.Proofs.Machine.Faults
import PlZero.Proofs.Machine.Printing
import PlZero.Proofs.Machine.Trail
import PlZero.Proofs.Snapshot.Documents
import PlZero.Proofs.Snapshot.Interruption
import PlZero.Proofs.Snapshot.RoundTrip
import PlZero.Proofs.Snapshot.Size
import PlZero.Proofs.Source.Literals
import PlZero.Proofs.Source.Order
import PlZero.Proofs.Source.Ranges
import PlZero.Proofs.Source.Spacing
import PlZero.Proofs.Suite.Loading
import PlZero.Proofs.Suite.Schedules
import PlZero.Proofs.Suite.Verdicts
import PlZero.Proofs.Syntax.Code
import PlZero.Proofs.Syntax.Meaning
import PlZero.Proofs.Syntax.Rules
import PlZero.Proofs.Syntax.Tree
import PlZero.Proofs.Syntax.Unambiguity
import PlZero.Proofs.Text.ByteOrder
import PlZero.Proofs.Text.Decoding
import PlZero.Proofs.Text.Encoding
import PlZero.Proofs.Text.Lines
import PlZero.Proofs.Text.Numerals
import PlZero.Snapshot.Basic
import PlZero.Snapshot.Document
import PlZero.Source.CompileError
import PlZero.Source.Diagnostic
import PlZero.Source.Lexer
import PlZero.Source.Position
import PlZero.Source.Token
import PlZero.Source.TokenStream
import PlZero.Suite.Batch
import PlZero.Suite.Case
import PlZero.Suite.Document
import PlZero.Suite.Load
import PlZero.Suite.Verdict
import PlZero.Text.Base64
import PlZero.Text.Blank
import PlZero.Text.CodeRange
import PlZero.Text.Column
import PlZero.Text.Digit
import PlZero.Text.Letter
import PlZero.Text.Lines
import PlZero.Text.Numeral
import PlZero.Text.Printable
import PlZero.Text.Quoted
import PlZero.Text.Uppercase
import PlZero.Text.Utf8
import PlZero.Yaml.Character
import PlZero.Yaml.Cursor
import PlZero.Yaml.Error
import PlZero.Yaml.Node
import PlZero.Yaml.Read
import PlZero.Yaml.Scalar
import PlZero.Yaml.Timestamp
import PlZero.Yaml.Token
import PlZero.Yaml.Value
