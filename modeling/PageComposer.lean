import PageComposer.Text.Basic
import PageComposer.Text.Search
import PageComposer.Text.Blank
import PageComposer.Text.Utf8
import PageComposer.Path.Basic
import PageComposer.Path.Normal
import PageComposer.Path.Stray
import PageComposer.Kind
import PageComposer.Placeholder
import PageComposer.Glob.Fault
import PageComposer.Failure
import PageComposer.Addressing
import PageComposer.Site
import PageComposer.Scan.Body
import PageComposer.Scan.Tags
import PageComposer.Attributes.Editable
import PageComposer.Attributes.Links
import PageComposer.Region
import PageComposer.Compose.Fragment
import PageComposer.Compose.Composer
import PageComposer.Compose.Binding
import PageComposer.Compose.Run
import PageComposer.Decompile.Marker
import PageComposer.Decompile.Collapse
import PageComposer.Decompile.Nested
import PageComposer.Project.Template
import PageComposer.Toml.Digits
import PageComposer.Toml.Moment
import PageComposer.Toml.Value
import PageComposer.Toml.Quoted
import PageComposer.Toml.Number
import PageComposer.Toml.Scalar
import PageComposer.Toml.Document
import PageComposer.Glob.Regular
import PageComposer.Glob.Pattern
import PageComposer.Glob.Nesting
import PageComposer.Glob.Spelling
import PageComposer.Glob.Ignore
import PageComposer.Glob.Matching
import PageComposer.FileTree.Basic
import PageComposer.FileTree.Change
import PageComposer.Config.Basic
import PageComposer.Config.Read
import PageComposer.Config.Discovery
import PageComposer.Json
import PageComposer.Report
import PageComposer.Project.Collect
import PageComposer.Project.Build
import PageComposer.CommandLine.Invocation
import PageComposer.CommandLine.Outcome
import PageComposer.CommandLine.Run
import PageComposer.Main
import PageComposer.Proofs.Text.Occurrence
import PageComposer.Proofs.Outcome
import PageComposer.Proofs.Substitution
import PageComposer.Proofs.Scan.Spans
import PageComposer.Proofs.Scan.Order
import PageComposer.Proofs.Scan.Meeting
import PageComposer.Proofs.Run.Resolution
import PageComposer.Proofs.Fragment.Wrapping
import PageComposer.Proofs.Fragment.Slot
import PageComposer.Proofs.Run.Simultaneous
import PageComposer.Proofs.Run.Reference
import PageComposer.Proofs.Markup.Opening
import PageComposer.Proofs.Markup.Piece
import PageComposer.Proofs.Markup.Sound
import PageComposer.Proofs.Markup.Links
import PageComposer.Proofs.Markup.Reading
import PageComposer.Proofs.Markup.Rewriting
import PageComposer.Proofs.Markup.Tidy
import PageComposer.Proofs.Path.Markup
import PageComposer.Proofs.Path.Address
import PageComposer.Proofs.Path.Joining
import PageComposer.Proofs.Fragment.Inherited
import PageComposer.Proofs.Fragment.Sound
import PageComposer.Proofs.Fragment.Replacement
import PageComposer.Proofs.Run.Pieces
import PageComposer.Proofs.Run.Expansion
import PageComposer.Proofs.Markup.Erasing
import PageComposer.Proofs.Run.Transparency
import PageComposer.Proofs.Decompile.Matching
import PageComposer.Proofs.Decompile.Balance
import PageComposer.Proofs.Decompile.Restoration
import PageComposer.Proofs.Decompile.Reopening
import PageComposer.Proofs.Decompile.Forest
import PageComposer.Proofs.Decompile.Levels
import PageComposer.Proofs.Fragment.Missing
import PageComposer.Proofs.Run.Degradation
import PageComposer.Proofs.Markup.Inert
import PageComposer.Proofs.Run.Inertness
import PageComposer.Proofs.Run.Idempotence
import PageComposer.Proofs.Layout.Arguments
import PageComposer.Proofs.Layout.Value
import PageComposer.Proofs.Layout.Filling
import PageComposer.Proofs.Layout.Binding
import PageComposer.Proofs.Layout.Literal
import PageComposer.Proofs.Path.Names
import PageComposer.Proofs.Path.Selection
import PageComposer.Proofs.Path.Size
import PageComposer.Proofs.FileTree.Plain
import PageComposer.Proofs.FileTree.Lookup
import PageComposer.Proofs.FileTree.Listing
import PageComposer.Proofs.FileTree.Growth
import PageComposer.Proofs.Project.Walking
import PageComposer.Proofs.Project.Unbounded
import PageComposer.Proofs.Project.Revisiting
import PageComposer.Proofs.Project.Templates
import PageComposer.Proofs.Project.Recollecting
import PageComposer.Proofs.Project.Writing
import PageComposer.Proofs.Project.Keeping
import PageComposer.Proofs.Scan.Finding
import PageComposer.Proofs.Scan.Declaration
import PageComposer.Proofs.Scan.Nesting
import PageComposer.Proofs.Fragment.Failing
import PageComposer.Proofs.Run.Failing
import PageComposer.Proofs.Run.Rejection
import PageComposer.Proofs.Run.Repeating
import PageComposer.Proofs.Text.Order
import PageComposer.Proofs.Path.Canonical
import PageComposer.Proofs.Path.Climbing
import PageComposer.Proofs.Path.Directories
import PageComposer.Proofs.Path.Candidate
import PageComposer.Proofs.Path.Sibling
import PageComposer.Proofs.Fragment.Chain
import PageComposer.Proofs.Fragment.Cycle
import PageComposer.Proofs.Run.Limit
import PageComposer.Proofs.Run.Registration
import PageComposer.Proofs.Decompile.Unnesting
import PageComposer.Proofs.Decompile.Rereading
import PageComposer.Proofs.Text.Counting
import PageComposer.Proofs.Decompile.Closing
import PageComposer.Proofs.Text.Rewriting
import PageComposer.Proofs.Attributes.Completion
import PageComposer.Proofs.Attributes.Passes
import PageComposer.Proofs.Path.Characters
import PageComposer.Proofs.Attributes.Relinking
import PageComposer.Proofs.Fragment.Layers
import PageComposer.Proofs.Path.Order
import PageComposer.Proofs.Project.Composable
