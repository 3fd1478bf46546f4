import LanguageServer.Action
import LanguageServer.CommandLine
import LanguageServer.Compiler.Engine
import LanguageServer.Compiler.Node
import LanguageServer.Compiler.Prepared
import LanguageServer.Compiler.Program
import LanguageServer.Compiler.SourceLocation
import LanguageServer.Data
import LanguageServer.Diagnostic
import LanguageServer.Document.Indexed
import LanguageServer.Document.Operation
import LanguageServer.Document.Store
import LanguageServer.Fault
import LanguageServer.Files.FileSystem
import LanguageServer.Files.Path
import LanguageServer.Files.Uri
import LanguageServer.Framing
import LanguageServer.Json.Parser
import LanguageServer.Json.Printer
import LanguageServer.Json.Value
import LanguageServer.LineIndex
import LanguageServer.Main
import LanguageServer.Navigation
import LanguageServer.Number.Binary64
import LanguageServer.Number.Notation
import LanguageServer.Number.Shortest
import LanguageServer.Position
import LanguageServer.Session.Basic
import LanguageServer.Session.Capabilities
import LanguageServer.Session.CompilerBacked
import LanguageServer.Session.Dispatch
import LanguageServer.Session.Outbound
import LanguageServer.Session.Params
import LanguageServer.Session.RequestError
import LanguageServer.Session.Run
import LanguageServer.Session.Scripted
import LanguageServer.Session.Trace
import LanguageServer.Settings.Configuration
import LanguageServer.Settings.Remapping
import LanguageServer.Table
import LanguageServer.Text.Blank
import LanguageServer.Text.Capital
import LanguageServer.Text.Cut
import LanguageServer.Text.Newline
import LanguageServer.Text.Numeral
import LanguageServer.Text.Order
import LanguageServer.Text.Printable
import LanguageServer.Text.Quoted
import LanguageServer.Text.Range
import LanguageServer.Text.Units
import LanguageServer.Text.Utf8
import LanguageServer.Text.Word
import LanguageServer.Toy.Binding
import LanguageServer.Toy.Engine
import LanguageServer.Toy.Gathering
import LanguageServer.Toy.Parser
import LanguageServer.Toy.Token
import LanguageServer.Toy.Tree
import LanguageServer.Workspace.Basic
import LanguageServer.Workspace.Compile
import LanguageServer.Workspace.Diagnostics
import LanguageServer.Workspace.Garbage
import LanguageServer.Yaml.Document
import LanguageServer.Yaml.Scalar
import LanguageServer.Yaml.Token
import LanguageServer.Proofs.Action.Invariant
import LanguageServer.Proofs.Toy.Reading
import LanguageServer.Proofs.Workspace.Frame
import LanguageServer.Proofs.Workspace.Publishing
import LanguageServer.Proofs.Workspace.View
import LanguageServer.Proofs.Workspace.Consulting
import LanguageServer.Proofs.Workspace.Freshness
import LanguageServer.Proofs.Session.Handling
import LanguageServer.Proofs.Session.Freshness
import LanguageServer.Proofs.Toy.Gathering
import LanguageServer.Proofs.Toy.Restriction
import LanguageServer.Proofs.Workspace.Reach
import LanguageServer.Proofs.Toy.Outline
import LanguageServer.Proofs.Document.Store
import LanguageServer.Proofs.Workspace.Naming
import LanguageServer.Proofs.Workspace.Gathered
import LanguageServer.Proofs.Workspace.Needs
import LanguageServer.Proofs.Workspace.Settling
import LanguageServer.Proofs.Action.Twins
import LanguageServer.Proofs.Workspace.Parallel
import LanguageServer.Proofs.Session.Concord
import LanguageServer.Proofs.Document.Editor
import LanguageServer.Proofs.Session.Leftovers
import LanguageServer.Proofs.Toy.Growth
import LanguageServer.Proofs.Toy.Locality
import LanguageServer.Proofs.Toy.Mirror
import LanguageServer.Proofs.Session.Eviction
import LanguageServer.Proofs.Session.Opening
import LanguageServer.Proofs.Session.Changing
import LanguageServer.Proofs.Session.Retention
import LanguageServer.Proofs.Compiler.Layout
import LanguageServer.Proofs.Toy.Checking
import LanguageServer.Proofs.Toy.Exactness
import LanguageServer.Proofs.Toy.Recognition
import LanguageServer.Proofs.Document.RoundTrip
import LanguageServer.Proofs.Toy.Innermost
import LanguageServer.Proofs.Toy.Closure
import LanguageServer.Proofs.Toy.Spacing
import LanguageServer.Proofs.Toy.Pointing
import LanguageServer.Proofs.Workspace.Pointing
import LanguageServer.Proofs.Workspace.Referring
import LanguageServer.Proofs.Files.Resolution
import LanguageServer.Proofs.Workspace.Confinement
import LanguageServer.Proofs.Workspace.Preparation
import LanguageServer.Proofs.Workspace.Aftermath
import LanguageServer.Proofs.Files.Normal
import LanguageServer.Proofs.Workspace.Precedence
import LanguageServer.Proofs.Session.Refinement
import LanguageServer.Proofs.Session.Core
import LanguageServer.Proofs.Session.Moves
import LanguageServer.Proofs.Session.Lifecycle
import LanguageServer.Proofs.Session.Initialisation
import LanguageServer.Proofs.Text.Trim
import LanguageServer.Proofs.Json.Ascii
import LanguageServer.Proofs.Framing
import LanguageServer.Proofs.Session.Announcing
import LanguageServer.Proofs.Session.Isolation
import LanguageServer.Proofs.Text.Utf8
import LanguageServer.Proofs.Document.Columns
import LanguageServer.Proofs.Document.Ordering
import LanguageServer.Proofs.Files.Uri
import LanguageServer.Proofs.Workspace.Reporting
import LanguageServer.Proofs.Workspace.Hiding
import LanguageServer.Proofs.Workspace.Denoting
import LanguageServer.Proofs.Toy.Directives
import LanguageServer.Proofs.Workspace.Searching
import LanguageServer.Proofs.Workspace.Listing
import LanguageServer.Proofs.Workspace.Conservation
import LanguageServer.Proofs.Workspace.Unreadable
import LanguageServer.Proofs.Document.History
import LanguageServer.Proofs.Document.Indexed
import LanguageServer.Proofs.Document.Versions
import LanguageServer.Proofs.Document.Batches
import LanguageServer.Proofs.Settings.Remapping
import LanguageServer.Proofs.Settings.Notation
import LanguageServer.Proofs.Session.Awaiting
import LanguageServer.Proofs.HeaderBlocks
import LanguageServer.Proofs.Compiler.Shifting
import LanguageServer.Proofs.Toy.Shifting
import LanguageServer.Proofs.Toy.Displacement
import LanguageServer.Proofs.Toy.Respelling
import LanguageServer.Proofs.Document.Returns
import LanguageServer.Proofs.Toy.Returns
import LanguageServer.Proofs.Workspace.Handing
import LanguageServer.Proofs.Workspace.Shifting
import LanguageServer.Proofs.Workspace.Copies
import LanguageServer.Proofs.Session.Copying
import LanguageServer.Proofs.Session.Identifying
import LanguageServer.Proofs.Toy.Sharing
import LanguageServer.Proofs.Toy.Typing
import LanguageServer.Proofs.Workspace.Ending
import LanguageServer.Proofs.Compiler.Paths
import LanguageServer.Proofs.Toy.Lossless
import LanguageServer.Proofs.Toy.Unrolling
import LanguageServer.Proofs.Toy.Recovery
import LanguageServer.Proofs.Session.Consuming
