import RouteSplit.Binding.Basic
import RouteSplit.Binding.Collect
import RouteSplit.Binding.Sites
import RouteSplit.Digest.Content
import RouteSplit.Digest.Sha256
import RouteSplit.Export.Names
import RouteSplit.Export.Record
import RouteSplit.Grammar.Classes
import RouteSplit.Grammar.Declarations
import RouteSplit.Grammar.Elements
import RouteSplit.Grammar.Expressions
import RouteSplit.Grammar.Functions
import RouteSplit.Grammar.Module
import RouteSplit.Grammar.Names
import RouteSplit.Grammar.Parameters
import RouteSplit.Grammar.Parser
import RouteSplit.Grammar.Statements
import RouteSplit.Grammar.Targets
import RouteSplit.Grammar.Types
import RouteSplit.Json.Basic
import RouteSplit.Layout.Basic
import RouteSplit.Layout.Classes
import RouteSplit.Layout.Elements
import RouteSplit.Layout.Expressions
import RouteSplit.Layout.Functions
import RouteSplit.Layout.Modules
import RouteSplit.Layout.Patterns
import RouteSplit.Layout.Printer
import RouteSplit.Layout.Statements
import RouteSplit.Layout.Types
import RouteSplit.Layout.Writer
import RouteSplit.Module.Basic
import RouteSplit.Number.Format
import RouteSplit.Number.Literal
import RouteSplit.Number.Scaled
import RouteSplit.Number.Shortest
import RouteSplit.Options.Basic
import RouteSplit.Options.Reader
import RouteSplit.Options.Writer
import RouteSplit.Proofs.Binding.Candidates
import RouteSplit.Proofs.Binding.Collected
import RouteSplit.Proofs.Binding.Faults
import RouteSplit.Proofs.Binding.Supported
import RouteSplit.Proofs.Binding.Wrapping
import RouteSplit.Proofs.Export.Gone
import RouteSplit.Proofs.Export.Stable
import RouteSplit.Proofs.Json.Reading
import RouteSplit.Proofs.Json.Spelling
import RouteSplit.Proofs.Json.Written
import RouteSplit.Proofs.Options.Layouts
import RouteSplit.Proofs.Options.RoundTrip
import RouteSplit.Proofs.Scope.Gather
import RouteSplit.Proofs.Scope.Mentions
import RouteSplit.Proofs.Scope.Parts
import RouteSplit.Proofs.Scope.Region
import RouteSplit.Proofs.Scope.Resolution
import RouteSplit.Proofs.Scope.Wrapping
import RouteSplit.Proofs.Sweep.Agreement
import RouteSplit.Proofs.Sweep.Bound
import RouteSplit.Proofs.Sweep.Composition
import RouteSplit.Proofs.Sweep.Cut
import RouteSplit.Proofs.Sweep.Declarations
import RouteSplit.Proofs.Sweep.Deletion
import RouteSplit.Proofs.Sweep.Destructuring
import RouteSplit.Proofs.Sweep.Kept
import RouteSplit.Proofs.Sweep.Limit
import RouteSplit.Proofs.Sweep.Liveness
import RouteSplit.Proofs.Sweep.Log
import RouteSplit.Proofs.Sweep.Machine
import RouteSplit.Proofs.Sweep.Pieces
import RouteSplit.Proofs.Sweep.Positions
import RouteSplit.Proofs.Sweep.Prune
import RouteSplit.Proofs.Sweep.Removal
import RouteSplit.Proofs.Sweep.Resolution
import RouteSplit.Proofs.Sweep.Run
import RouteSplit.Proofs.Sweep.Separate
import RouteSplit.Proofs.Sweep.Sites
import RouteSplit.Proofs.Sweep.Tally
import RouteSplit.Proofs.Sweep.WellFormed
import RouteSplit.Proofs.Transform.Arrangement
import RouteSplit.Proofs.Transform.Assignments
import RouteSplit.Proofs.Transform.Bundle
import RouteSplit.Proofs.Transform.Contexts
import RouteSplit.Proofs.Transform.Errors
import RouteSplit.Proofs.Transform.Idempotence
import RouteSplit.Proofs.Transform.Interface
import RouteSplit.Proofs.Transform.Marker
import RouteSplit.Proofs.Transform.Meaning
import RouteSplit.Proofs.Transform.Module
import RouteSplit.Proofs.Transform.Order
import RouteSplit.Proofs.Transform.Pruning
import RouteSplit.Proofs.Transform.Reachability
import RouteSplit.Proofs.Transform.Report
import RouteSplit.Proofs.Transform.Steps
import RouteSplit.Proofs.Transform.Survivors
import RouteSplit.Proofs.Tree.Wrapping
import RouteSplit.Scope.Basic
import RouteSplit.Scope.Declarations
import RouteSplit.Scope.Reads
import RouteSplit.Scope.Table
import RouteSplit.Session
import RouteSplit.Source.Dialect
import RouteSplit.Source.Span
import RouteSplit.Sweep.Basic
import RouteSplit.Sweep.Context
import RouteSplit.Sweep.Remove
import RouteSplit.Text.Class
import RouteSplit.Text.HiddenRanges
import RouteSplit.Text.IdentifierRanges
import RouteSplit.Text.Quoted
import RouteSplit.Token.Basic
import RouteSplit.Token.Escape
import RouteSplit.Token.Lexer
import RouteSplit.Transform
import RouteSplit.Tree.Basic
import RouteSplit.Tree.Label
import RouteSplit.Tree.Pattern
import RouteSplit.Tree.Wrapper
