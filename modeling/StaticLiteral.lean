import StaticLiteral.Log
import StaticLiteral.Main
import StaticLiteral.Number.Literal
import StaticLiteral.Number.Notation
import StaticLiteral.ParseTree.SourceFile
import StaticLiteral.Path
import StaticLiteral.Pattern.Literal
import StaticLiteral.Program.Report
import StaticLiteral.Proofs.Resolution.Depth
import StaticLiteral.Report
import StaticLiteral.Resolution.Resolve
import StaticLiteral.Resolution.Scripted
import StaticLiteral.Semantic.Binding
import StaticLiteral.Semantic.Fact
import StaticLiteral.Semantic.Scope
import StaticLiteral.Semantic.Type
import StaticLiteral.Syntax.Field
import StaticLiteral.Syntax.Place
import StaticLiteral.Text.Blank
import StaticLiteral.Text.DecimalDigit
import StaticLiteral.Text.Escape
import StaticLiteral.Text.Identifier
import StaticLiteral.Text.Quoted
import StaticLiteral.Text.Utf8
import StaticLiteral.Value
import StaticLiteral.Proofs.Resolution.Aggregate
import StaticLiteral.Proofs.Program.Search
import StaticLiteral.Proofs.Typing.Depth
import StaticLiteral.Proofs.Syntax.Height
import StaticLiteral.Proofs.Typing.Termination
import StaticLiteral.Proofs.Resolution.Termination
import StaticLiteral.Proofs.Binding.Coherence
import StaticLiteral.Proofs.Binding.Emptied
import StaticLiteral.Proofs.Binding.Frames
import StaticLiteral.Proofs.Binding.Isolation
import StaticLiteral.Proofs.Program.Identity
import StaticLiteral.Proofs.Program.Isolation
import StaticLiteral.Proofs.Resolution.Guards
import StaticLiteral.Proofs.Program.Reexports
import StaticLiteral.Proofs.Resolution.SharedNames
import StaticLiteral.Proofs.Resolution.Closed
import StaticLiteral.Proofs.Resolution.NamedReexports
import StaticLiteral.Proofs.Paths
import StaticLiteral.Proofs.Program.Correspondence
import StaticLiteral.Proofs.Typing.Correspondence
import StaticLiteral.Proofs.Resolution.Correspondence
import StaticLiteral.Proofs.Binding.Origins
import StaticLiteral.Proofs.Program.FileSets
import StaticLiteral.Proofs.ParseTree.Forms
import StaticLiteral.Proofs.Binding.Patterns
import StaticLiteral.Proofs.Binding.Coverage
import StaticLiteral.Proofs.Binding.Names
import StaticLiteral.Proofs.Program.Coverage
import StaticLiteral.Proofs.Binding.Hoisting
import StaticLiteral.Proofs.Program.FileScope
import StaticLiteral.Proofs.Binding.Altered
import StaticLiteral.Proofs.Binding.Renamed
import StaticLiteral.Proofs.Program.Renaming
import StaticLiteral.Proofs.Resolution.Renaming
import StaticLiteral.Proofs.Binding.ExportOrigins
import StaticLiteral.Proofs.Directories
import StaticLiteral.Proofs.Escapes
import StaticLiteral.Proofs.ParseTree.DefaultExports
import StaticLiteral.Proofs.Program.DefaultExports
import StaticLiteral.Proofs.Program.Relocation
import StaticLiteral.Proofs.Number.Writing
import StaticLiteral.Proofs.Number.Acceptance
import StaticLiteral.Proofs.Resolution.Loose
import StaticLiteral.Proofs.ParseTree.Nesting
import StaticLiteral.Proofs.Program.Reports
import StaticLiteral.Proofs.Program.Dropped
import StaticLiteral.Proofs.Session.Queries
import StaticLiteral.Proofs.Resolution.Members
import StaticLiteral.Proofs.Resolution.Tuples
import StaticLiteral.Proofs.Program.Cycles
import StaticLiteral.Proofs.Resolution.Valueless
import StaticLiteral.Proofs.Text.Utf16
import StaticLiteral.Proofs.Resolution.Templates
import StaticLiteral.Proofs.Cooked
import StaticLiteral.Proofs.ParseTree.Templates
import StaticLiteral.Proofs.Binding.Destructuring
import StaticLiteral.Proofs.Resolution.Destructuring
import StaticLiteral.Proofs.Binding.Defaults
import StaticLiteral.Proofs.Program.Defaults
import StaticLiteral.Proofs.OutOfRange
import StaticLiteral.Proofs.ParseTree.Apart
import StaticLiteral.Proofs.ParseTree.Elements
import StaticLiteral.Proofs.Number.Bigints
import StaticLiteral.Proofs.ParseTree.Overflows
import StaticLiteral.Proofs.Typing.Unasked
import StaticLiteral.Proofs.Program.MemberSymbols
import StaticLiteral.Proofs.Typing.MemberTypes
import StaticLiteral.Proofs.Text.Canonical
import StaticLiteral.Proofs.Typing.Joining
import StaticLiteral.Proofs.Program.Spellings
import StaticLiteral.Proofs.ParseTree.Totality
import StaticLiteral.Proofs.ParseTree.TypeParameters
import StaticLiteral.Proofs.Resolution.Capture
