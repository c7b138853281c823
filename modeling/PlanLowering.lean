import PlanLowering.Text.Blank
import PlanLowering.Text.Quoted
import PlanLowering.Value
import PlanLowering.Mode
import PlanLowering.Scalar
import PlanLowering.Failure
import PlanLowering.Tree.Stats
import PlanLowering.Tree.Validate
import PlanLowering.Plan.Globals
import PlanLowering.Physical.Json
import PlanLowering.Config.Json
import PlanLowering.Compiler
import PlanLowering.Plan.Json
import PlanLowering.Strategy.Standard
import PlanLowering.Query.Identifiers
import PlanLowering.Toml.Basic
import PlanLowering.Toml.Quoted
import PlanLowering.Toml.Scalar
import PlanLowering.Config.Toml
import PlanLowering.Config.File
import PlanLowering.Log.File
import PlanLowering.Proofs.Strategy.Totality
import PlanLowering.Proofs.Strategy.Raising
import PlanLowering.Proofs.Strategy.Unfusing
import PlanLowering.Proofs.Strategy.Marking
import PlanLowering.Proofs.Compiler.Refusal
import PlanLowering.Proofs.Compiler.Events
import PlanLowering.Proofs.Strategy.Vocabulary
import PlanLowering.Proofs.Number.Shortest
import PlanLowering.Proofs.Json.Lexing
import PlanLowering.Proofs.Json.Nesting
import PlanLowering.Proofs.Json.Reading
import PlanLowering.Proofs.Json.Containers
import PlanLowering.Proofs.Json.Scalars
import PlanLowering.Proofs.Plan.RoundTrip
import PlanLowering.Proofs.Compiler.Extension
import PlanLowering.Proofs.Strategy.Reporting
import PlanLowering.Proofs.Compiler.Location
import PlanLowering.Proofs.Tree.Orders
import PlanLowering.Proofs.Tree.Visits
import PlanLowering.Proofs.Tree.Outline
import PlanLowering.Proofs.Tree.Subterms
import PlanLowering.Proofs.Tree.Statistics
import PlanLowering.Proofs.Tree.Callbacks
import PlanLowering.Proofs.Pattern.Positions
import PlanLowering.Proofs.Pattern.Building
import PlanLowering.Proofs.Json.RoundTrip
import PlanLowering.Proofs.Physical.RoundTrip
import PlanLowering.Proofs.Text.Runs
import PlanLowering.Proofs.Toml.Quoting
import PlanLowering.Proofs.Toml.Words
import PlanLowering.Proofs.Toml.Lines
import PlanLowering.Proofs.Toml.Tables
import PlanLowering.Proofs.Config.RoundTrip
import PlanLowering.Proofs.Strategy.Taking
import PlanLowering.Proofs.Plan.Globals
import PlanLowering.Proofs.Json.Results
import PlanLowering.Proofs.Plan.Depth
import PlanLowering.Proofs.Json.Trimming
import PlanLowering.Proofs.Plan.OptionalFields
import PlanLowering.Proofs.Tree.Extent
import PlanLowering.Proofs.Tree.Census
import PlanLowering.Proofs.Query.References
import PlanLowering.Proofs.Strategy.Accounting
import PlanLowering.Proofs.Tree.Gathered
import PlanLowering.Proofs.Compiler.Records
import PlanLowering.Proofs.Pattern.Display
import PlanLowering.Proofs.Compiler.Restoration
import PlanLowering.Proofs.Log.LifeCycle
import PlanLowering.Proofs.Toml.Grammar
import PlanLowering.Proofs.Toml.Gaps
import PlanLowering.Proofs.Toml.Strings
import PlanLowering.Proofs.Toml.Numbers
import PlanLowering.Proofs.Toml.Scalars
import PlanLowering.Proofs.Toml.Documents
import PlanLowering.Proofs.Toml.Paths
import PlanLowering.Proofs.Toml.Statements
import PlanLowering.Proofs.Toml.Ranges
import PlanLowering.Proofs.Config.Overlay
import PlanLowering.Proofs.Tree.Display
import PlanLowering.Proofs.Compiler.Messages
