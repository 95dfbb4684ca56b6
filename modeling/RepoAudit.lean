import RepoAudit.Audit.Inspection
import RepoAudit.Audit.Pipeline
import RepoAudit.Audit.Selection
import RepoAudit.Audit.Structure
import RepoAudit.Command.Grammar
import RepoAudit.Command.Input
import RepoAudit.Command.Request
import RepoAudit.Command.Run
import RepoAudit.Config.Basic
import RepoAudit.Config.Reader
import RepoAudit.Decimal.Places
import RepoAudit.Decimal.Reader
import RepoAudit.Decimal.Shortest
import RepoAudit.Digest.Bytes
import RepoAudit.Digest.Checksum
import RepoAudit.Digest.Sha256
import RepoAudit.Digest.Xxh3
import RepoAudit.Failure
import RepoAudit.Files.Disk
import RepoAudit.Files.Node
import RepoAudit.Files.Path
import RepoAudit.Gate.Record
import RepoAudit.Glob.Path
import RepoAudit.History.Effect
import RepoAudit.History.Log
import RepoAudit.Ignore.Glob
import RepoAudit.Ignore.Rule
import RepoAudit.Json.Document
import RepoAudit.Json.Numeral
import RepoAudit.Json.Printer
import RepoAudit.Json.Value
import RepoAudit.Main
import RepoAudit.Measure.Metric
import RepoAudit.Measure.Run
import RepoAudit.Ordered.Map
import RepoAudit.Ordered.Pair
import RepoAudit.Ordered.Set
import RepoAudit.Project.Basic
import RepoAudit.Project.Record
import RepoAudit.Project.Severity
import RepoAudit.Proofs.Audit.Interleaving
import RepoAudit.Proofs.Audit.Invariant
import RepoAudit.Proofs.Audit.Renewal
import RepoAudit.Proofs.Audit.Stages
import RepoAudit.Proofs.Files.Walk
import RepoAudit.Proofs.Gate.Decision
import RepoAudit.Proofs.History.Coupling
import RepoAudit.Proofs.History.Leaders
import RepoAudit.Proofs.History.Order
import RepoAudit.Proofs.History.Totals
import RepoAudit.Proofs.History.Touches
import RepoAudit.Proofs.Ordered.Gathering
import RepoAudit.Proofs.Project.Issues
import RepoAudit.Proofs.Project.Links
import RepoAudit.Proofs.Shacl.Checks
import RepoAudit.Proofs.Shacl.Compilation
import RepoAudit.Proofs.Shacl.Report
import RepoAudit.Proofs.Shacl.Shapes
import RepoAudit.Proofs.Shacl.Validation
import RepoAudit.Proofs.Text.Blank
import RepoAudit.Proofs.Turtle.Document
import RepoAudit.Proofs.Turtle.Labels
import RepoAudit.Proofs.Turtle.Lexemes
import RepoAudit.Proofs.Turtle.Nodes
import RepoAudit.Proofs.Turtle.Statements
import RepoAudit.Proofs.Turtle.Steps
import RepoAudit.Proofs.Turtle.Terms
import RepoAudit.Ranking.Comparison
import RepoAudit.Ranking.Hotness
import RepoAudit.Ranking.Plan
import RepoAudit.Rdf.Graph
import RepoAudit.Rdf.Term
import RepoAudit.Rdf.Turtle.Cursor
import RepoAudit.Rdf.Turtle.Lexeme
import RepoAudit.Rdf.Turtle.Reader
import RepoAudit.Rdf.Turtle.Writer
import RepoAudit.Rdf.Vocabulary
import RepoAudit.Regex.CharSet
import RepoAudit.Regex.Pattern
import RepoAudit.Regex.Reader
import RepoAudit.Report.Context
import RepoAudit.Report.Document
import RepoAudit.Report.Entity
import RepoAudit.Report.Export
import RepoAudit.Report.Facts
import RepoAudit.Report.Format
import RepoAudit.Report.Markdown
import RepoAudit.Shacl.BundledShapes
import RepoAudit.Shacl.Compile
import RepoAudit.Shacl.Datatype
import RepoAudit.Shacl.Entailment
import RepoAudit.Shacl.Report
import RepoAudit.Shacl.Shape
import RepoAudit.Shacl.Validate
import RepoAudit.Shacl.Validator
import RepoAudit.Source.Complexity
import RepoAudit.Source.Import
import RepoAudit.Source.Language
import RepoAudit.Source.Literal
import RepoAudit.Source.Marker
import RepoAudit.Source.Resolve
import RepoAudit.Text.Blank
import RepoAudit.Text.Casing
import RepoAudit.Text.Category
import RepoAudit.Text.CodePoints
import RepoAudit.Text.Folding
import RepoAudit.Text.Letter
import RepoAudit.Text.Script
import RepoAudit.Text.Search
import RepoAudit.Text.Slug
import RepoAudit.Text.Split
import RepoAudit.Text.Utf8
import RepoAudit.Time.Instant
import RepoAudit.Time.Reader
import RepoAudit.Time.Since
import RepoAudit.Toml.Reader
import RepoAudit.Toml.Scalar
import RepoAudit.Toml.Value
import RepoAudit.Proofs.Rdf.Reach
import RepoAudit.Proofs.Shacl.Entailment
import RepoAudit.Proofs.Report.Turtle
import RepoAudit.Proofs.Json.Numerals
import RepoAudit.Proofs.Text.Utf8
import RepoAudit.Proofs.Json.Text
import RepoAudit.Proofs.Json.Parts
import RepoAudit.Proofs.Report.Document
import RepoAudit.Proofs.Shacl.Saturation
import RepoAudit.Proofs.Turtle.Agreement
import RepoAudit.Proofs.Turtle.Scope
import RepoAudit.Proofs.Turtle.Again
import RepoAudit.Proofs.Shacl.Renaming
import RepoAudit.Proofs.Shacl.Anonymity
import RepoAudit.Proofs.Turtle.Refusals
import RepoAudit.Proofs.Shacl.Instances
import RepoAudit.Proofs.Shacl.Nesting
import RepoAudit.Proofs.Turtle.Blocks
import RepoAudit.Proofs.Turtle.Growth
import RepoAudit.Proofs.Shacl.Rules
import RepoAudit.Proofs.Shacl.Bundled
import RepoAudit.Proofs.Decimal.Rounding
import RepoAudit.Proofs.Decimal.Bounds
import RepoAudit.Proofs.Ranking.Hotness
import RepoAudit.Proofs.Report.Entity
import RepoAudit.Proofs.Report.Records
import RepoAudit.Proofs.Regex.Repetition
import RepoAudit.Proofs.Shacl.Values
import RepoAudit.Proofs.Time.Calendar
import RepoAudit.Proofs.Time.Text
import RepoAudit.Proofs.Shacl.Requirements
import RepoAudit.Proofs.Audit.Sizes
import RepoAudit.Proofs.Audit.Coherence
import RepoAudit.Proofs.Report.Identity
import RepoAudit.Proofs.Report.Conformance
import RepoAudit.Proofs.Shacl.Results
import RepoAudit.Proofs.Shacl.Locality
import RepoAudit.Proofs.Report.Issues
import RepoAudit.Proofs.Gate.Record
import RepoAudit.Proofs.Gate.Results
import RepoAudit.Proofs.Glob.Segment
import RepoAudit.Proofs.Glob.Path
import RepoAudit.Proofs.Text.Fields
import RepoAudit.Proofs.Text.Names
import RepoAudit.Proofs.Time.Characters
import RepoAudit.Proofs.History.Log
import RepoAudit.Proofs.Project.Authors
import RepoAudit.Proofs.Text.Words
import RepoAudit.Proofs.History.Rename
import RepoAudit.Proofs.Decimal.Nearest
import RepoAudit.Proofs.Decimal.Shares
import RepoAudit.Proofs.History.Owners
import RepoAudit.Proofs.Ranking.Hotspots
import RepoAudit.Proofs.Ranking.Plan
import RepoAudit.Proofs.Decimal.Signs
import RepoAudit.Proofs.Ranking.Comparison
import RepoAudit.Proofs.Report.Nodes
import RepoAudit.Proofs.Report.Edges
import RepoAudit.Proofs.Report.Expansion
import RepoAudit.Proofs.Text.Search
import RepoAudit.Proofs.Source.Literals
import RepoAudit.Proofs.Source.Complexity
import RepoAudit.Proofs.Source.Markers
import RepoAudit.Proofs.Source.Resolve
import RepoAudit.Proofs.Source.Relative
import RepoAudit.Proofs.Rdf.Collections
import RepoAudit.Proofs.Turtle.Places
import RepoAudit.Proofs.Turtle.LocalNames
import RepoAudit.Proofs.Turtle.Outcomes
import RepoAudit.Proofs.Turtle.Progress
import RepoAudit.Proofs.Time.Stamps
import RepoAudit.Proofs.Shacl.Moments
import RepoAudit.Proofs.Rdf.Contents
import RepoAudit.Proofs.Project.Modules
