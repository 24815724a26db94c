import ParseGoal.Cache.Record
import ParseGoal.Cache.Store
import ParseGoal.Calendar.Date
import ParseGoal.Calendar.Instant
import ParseGoal.Calendar.Text
import ParseGoal.CommandLine
import ParseGoal.CommandLine.Reader
import ParseGoal.Console
import ParseGoal.Console.Records
import ParseGoal.Console.Resolutions
import ParseGoal.Decimal.Shortest
import ParseGoal.Declaration
import ParseGoal.Digest.Sha256
import ParseGoal.Disk
import ParseGoal.Disk.Operations
import ParseGoal.Disk.Walk
import ParseGoal.Ecma.Cursor
import ParseGoal.Ecma.Lexeme
import ParseGoal.Ecma.Literal
import ParseGoal.Ecma.Lookahead
import ParseGoal.Ecma.Probe
import ParseGoal.Ecma.Scan
import ParseGoal.Ecma.State
import ParseGoal.Ecma.Violation
import ParseGoal.Environment
import ParseGoal.Error
import ParseGoal.FileResolver
import ParseGoal.Fingerprint
import ParseGoal.Goal
import ParseGoal.Goal.Named
import ParseGoal.Grammar
import ParseGoal.Grammar.Deadline
import ParseGoal.Json
import ParseGoal.Json.Canonical
import ParseGoal.Json.Fields
import ParseGoal.Json.Reader
import ParseGoal.Json.Writer
import ParseGoal.Main
import ParseGoal.Order
import ParseGoal.Path
import ParseGoal.Program
import ParseGoal.Program.Interleave
import ParseGoal.Resolution
import ParseGoal.Settings
import ParseGoal.Settings.File
import ParseGoal.Settings.Text
import ParseGoal.Text.Alphabetic
import ParseGoal.Text.Blank
import ParseGoal.Text.Digits
import ParseGoal.Text.Letter
import ParseGoal.Text.Numeric
import ParseGoal.Text.Position
import ParseGoal.Text.Utf8
import ParseGoal.Toml
import ParseGoal.Toml.Node
import ParseGoal.Toml.Number
import ParseGoal.Toml.Quoted
import ParseGoal.Toml.Reader
import ParseGoal.Toml.Writer
import ParseGoal.World
import ParseGoal.Proofs.Order
import ParseGoal.Proofs.Resolution
import ParseGoal.Proofs.FileResolver.Answer
import ParseGoal.Proofs.FileResolver.Hint
import ParseGoal.Proofs.Cache.Record
import ParseGoal.Proofs.Cache.Store
import ParseGoal.Proofs.FileResolver.Call
import ParseGoal.Proofs.FileResolver.History
import ParseGoal.Proofs.FileResolver.Memory
import ParseGoal.Proofs.FileResolver.Transparency
import ParseGoal.Proofs.Ecma.Sequence
import ParseGoal.Proofs.Ecma.Trivia
import ParseGoal.Proofs.Ecma.Wrapping
import ParseGoal.Proofs.Ecma.Opacity
import ParseGoal.Proofs.Ecma.Location
import ParseGoal.Proofs.Ecma.Nesting
import ParseGoal.Proofs.Cursor.Run
import ParseGoal.Proofs.Cursor.Violations
import ParseGoal.Proofs.Ecma.Operand
import ParseGoal.Proofs.Ecma.Expression
import ParseGoal.Proofs.Calendar.Instant
import ParseGoal.Proofs.Cache.RoundTrip
import ParseGoal.Proofs.Disk.Directories
import ParseGoal.Proofs.Disk.Names
import ParseGoal.Proofs.Course
import ParseGoal.Proofs.Cache.Phases
import ParseGoal.Proofs.Cache.Atomicity
import ParseGoal.Proofs.Cache.Keeping
import ParseGoal.Proofs.Cache.Effects
import ParseGoal.Proofs.Cache.Representation
import ParseGoal.Proofs.Cache.Map
import ParseGoal.Proofs.Toml.Quoted
import ParseGoal.Proofs.Toml.Value
import ParseGoal.Proofs.Toml.Document
import ParseGoal.Proofs.Disk.Ways
import ParseGoal.Proofs.Settings.Text
import ParseGoal.Proofs.Settings.RoundTrip
import ParseGoal.Proofs.Console.Run
import ParseGoal.Proofs.Console.Init
import ParseGoal.Proofs.Cache.Clearing
import ParseGoal.Proofs.Console.Clear
import ParseGoal.Proofs.Disk.Trail
import ParseGoal.Proofs.Program.Turns
import ParseGoal.Proofs.Program.Sight
import ParseGoal.Proofs.Cache.Sharing
import ParseGoal.Proofs.FileResolver.Conduct
import ParseGoal.Proofs.FileResolver.Batch
import ParseGoal.Proofs.Text.LineEnds
import ParseGoal.Proofs.Ecma.Returns
import ParseGoal.Proofs.Ecma.LineEnds
import ParseGoal.Proofs.Console.Remove
import ParseGoal.Proofs.Ecma.Blank
import ParseGoal.Proofs.Ecma.Member
import ParseGoal.Proofs.Ecma.Key
import ParseGoal.Proofs.Ecma.Spread
import ParseGoal.Proofs.Ecma.Arrow
import ParseGoal.Proofs.Ecma.Heritage
import ParseGoal.Proofs.Cursor.StringLiteral
import ParseGoal.Proofs.Cursor.Final
import ParseGoal.Proofs.Ecma.Specifier
import ParseGoal.Proofs.Path.Ancestors
import ParseGoal.Proofs.Disk.Kept
import ParseGoal.Proofs.Declaration
import ParseGoal.Proofs.Grammar.Deadline
import ParseGoal.Proofs.Cursor.Frames
