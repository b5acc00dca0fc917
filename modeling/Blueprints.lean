import Blueprints.Catalog.Basic
import Blueprints.Catalog.Palette
import Blueprints.Cli.Arguments
import Blueprints.Cli.Run
import Blueprints.Code.Block
import Blueprints.Code.Helper
import Blueprints.Code.Routine
import Blueprints.Code.Statement
import Blueprints.Compile
import Blueprints.Decimal.Double
import Blueprints.Decimal.Shortest
import Blueprints.Diagnostic
import Blueprints.Document
import Blueprints.Emit.Computation
import Blueprints.Emit.Context
import Blueprints.Emit.Emission
import Blueprints.Emit.Growth
import Blueprints.Emit.Read
import Blueprints.Emit.Successors
import Blueprints.Emit.Visit
import Blueprints.Emit.Walk
import Blueprints.Graph.Basic
import Blueprints.Graph.Edit
import Blueprints.Graph.Format
import Blueprints.Graph.Kind
import Blueprints.Json.Fault
import Blueprints.Json.Reader
import Blueprints.Json.Record
import Blueprints.Json.Scanner
import Blueprints.Json.Skipped
import Blueprints.Json.Value
import Blueprints.Json.Writer
import Blueprints.Main
import Blueprints.Options
import Blueprints.Program.Basic
import Blueprints.Program.Component
import Blueprints.Program.Function
import Blueprints.Storage.Disk
import Blueprints.Storage.FileName
import Blueprints.Storage.FileTree
import Blueprints.Storage.Project
import Blueprints.Text.Blank
import Blueprints.Text.Hidden
import Blueprints.Text.Identifier
import Blueprints.Text.Numeral
import Blueprints.Text.Quoted
import Blueprints.Time.Calendar
import Blueprints.Time.Duration
import Blueprints.Time.Timestamp
import Blueprints.Total
import Blueprints.Wiring.Index
import Blueprints.Wiring.Readers
import Blueprints.Wiring.Source
import Blueprints.Wiring.Temporaries
import Blueprints.Wiring.Unlisted
import Blueprints.Wiring.VisitedPath
import Blueprints.Proofs.Code.Blocks
import Blueprints.Proofs.Code.Passages
import Blueprints.Proofs.Code.Indentation
import Blueprints.Proofs.Emit.Uniform
import Blueprints.Proofs.Emit.Descent
import Blueprints.Proofs.Emit.Filling
import Blueprints.Proofs.Emit.Refinement
import Blueprints.Proofs.Wiring.Names
import Blueprints.Proofs.Wiring.Producers
import Blueprints.Proofs.Emit.Computing
import Blueprints.Proofs.Code.Places
import Blueprints.Proofs.Code.Calls
import Blueprints.Proofs.Emit.Availability
import Blueprints.Proofs.Emit.Visiting
import Blueprints.Proofs.Emit.Running
import Blueprints.Proofs.Emit.Domination
import Blueprints.Proofs.Wiring.Readers
import Blueprints.Proofs.Emit.Freshness
import Blueprints.Proofs.Emit.Grounding
import Blueprints.Proofs.Emit.Loops
import Blueprints.Proofs.Emit.Bounds
import Blueprints.Proofs.Emit.Reachability
import Blueprints.Proofs.Text.Numbering
import Blueprints.Proofs.Graph.Validity
import Blueprints.Proofs.Graph.Sessions
import Blueprints.Proofs.Json.Tokens
import Blueprints.Proofs.Json.Reads
import Blueprints.Proofs.Json.Values
import Blueprints.Proofs.Json.Records
import Blueprints.Proofs.Graph.Format
import Blueprints.Proofs.Graph.Documents
import Blueprints.Proofs.Emit.Jobs
import Blueprints.Proofs.Emit.Paths
import Blueprints.Proofs.Emit.Accounts
import Blueprints.Proofs.Emit.Lines
import Blueprints.Proofs.Program.Parameters
import Blueprints.Proofs.Emit.Correspondence
import Blueprints.Proofs.Emit.Lockstep
import Blueprints.Proofs.Program.Correspondence
import Blueprints.Proofs.Program.InStep
import Blueprints.Proofs.Program.Surplus
import Blueprints.Proofs.Text.Identifiers
import Blueprints.Proofs.Wiring.NameParts
import Blueprints.Proofs.Wiring.Allocation
import Blueprints.Proofs.Wiring.Forks
import Blueprints.Proofs.Emit.Bindings
import Blueprints.Proofs.Program.Hygiene
import Blueprints.Proofs.Wiring.Scans
import Blueprints.Proofs.Storage.Trees
import Blueprints.Proofs.Storage.Persisting
import Blueprints.Proofs.Storage.Saving
import Blueprints.Proofs.Emit.Reports
import Blueprints.Proofs.Program.Degradation
import Blueprints.Proofs.Program.Layout
import Blueprints.Proofs.Program.Presentation
import Blueprints.Proofs.Catalog.Merging
import Blueprints.Proofs.Program.Building
import Blueprints.Proofs.Emit.Generator
import Blueprints.Proofs.Program.Methods
import Blueprints.Proofs.Cli.Commands
import Blueprints.Proofs.Program.UnitFiles
import Blueprints.Proofs.Catalog.Lookups
import Blueprints.Proofs.Code.Contents
import Blueprints.Proofs.Emit.Acts
import Blueprints.Proofs.Program.Routines
import Blueprints.Proofs.Program.Waiting
import Blueprints.Proofs.Program.Noting
import Blueprints.Proofs.Program.Declarations
import Blueprints.Proofs.Program.Calls
import Blueprints.Proofs.Emit.Cycles
import Blueprints.Proofs.Program.Cycles
import Blueprints.Proofs.Text.Comments
import Blueprints.Proofs.Emit.Comments
import Blueprints.Proofs.Program.Comments
import Blueprints.Proofs.Graph.Undoing
import Blueprints.Proofs.Program.Dangling
import Blueprints.Proofs.Text.Literals
import Blueprints.Proofs.Emit.Labels
import Blueprints.Proofs.Code.Trees
import Blueprints.Proofs.Code.Rendering
import Blueprints.Proofs.Program.Rendering
import Blueprints.Proofs.Wiring.Closure
