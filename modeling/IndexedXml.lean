import IndexedXml.Axis
import IndexedXml.Cli.Arguments
import IndexedXml.Cli.Files
import IndexedXml.Cli.Report
import IndexedXml.Cli.Run
import IndexedXml.Collection.Basic
import IndexedXml.Collection.IndexKey
import IndexedXml.Collection.Uri
import IndexedXml.Configuration
import IndexedXml.Double.Basic
import IndexedXml.Double.Numeral
import IndexedXml.Double.Round
import IndexedXml.Double.Shortest
import IndexedXml.Json.Reader
import IndexedXml.Json.Value
import IndexedXml.Json.Writer
import IndexedXml.Main
import IndexedXml.Name.IndexedName
import IndexedXml.Name.QName
import IndexedXml.Node.Id
import IndexedXml.Node.Set
import IndexedXml.Proofs.Node.Members
import IndexedXml.Proofs.Node.Order
import IndexedXml.Proofs.Query.Agreement
import IndexedXml.Proofs.Query.Answers
import IndexedXml.Proofs.Query.Audit
import IndexedXml.Proofs.Query.Conditions
import IndexedXml.Proofs.Query.Coverage
import IndexedXml.Proofs.Query.Discovered
import IndexedXml.Proofs.Query.Contributions
import IndexedXml.Proofs.Query.Evidence
import IndexedXml.Proofs.Query.Extent
import IndexedXml.Proofs.Query.Kept
import IndexedXml.Proofs.Query.Interruption
import IndexedXml.Proofs.Query.Keys
import IndexedXml.Proofs.Query.Misreading
import IndexedXml.Proofs.Query.Narrowed
import IndexedXml.Proofs.Query.Navigation
import IndexedXml.Proofs.Query.NoIndex
import IndexedXml.Proofs.Query.Numbering
import IndexedXml.Proofs.Query.Optimized
import IndexedXml.Proofs.Query.Outcome
import IndexedXml.Proofs.Query.Pointwise
import IndexedXml.Proofs.Query.Policy
import IndexedXml.Proofs.Query.Pragmas
import IndexedXml.Proofs.Query.Prepared
import IndexedXml.Proofs.Query.Reach
import IndexedXml.Proofs.Query.Reached
import IndexedXml.Proofs.Query.Related
import IndexedXml.Proofs.Query.Renumbering
import IndexedXml.Proofs.Query.Rounds
import IndexedXml.Proofs.Query.Runs
import IndexedXml.Proofs.Query.Selection
import IndexedXml.Proofs.Query.Shapes
import IndexedXml.Proofs.Query.Strategies
import IndexedXml.Proofs.Query.Structure
import IndexedXml.Proofs.Query.Traversal
import IndexedXml.Proofs.Query.Unindexed
import IndexedXml.Proofs.Results
import IndexedXml.Proofs.Store.Catalog
import IndexedXml.Proofs.Store.Generation
import IndexedXml.Proofs.Store.Invariant
import IndexedXml.Proofs.Store.Indexes
import IndexedXml.Proofs.Store.Layout
import IndexedXml.Proofs.Store.Lookup
import IndexedXml.Proofs.Store.Nodes
import IndexedXml.Proofs.Store.Observations
import IndexedXml.Proofs.Store.Persistence
import IndexedXml.Proofs.Store.Ranges
import IndexedXml.Proofs.Store.ReadBack
import IndexedXml.Proofs.Store.Reachable
import IndexedXml.Proofs.Store.Tables
import IndexedXml.Query.Analysis
import IndexedXml.Query.Builtin
import IndexedXml.Query.Comparison
import IndexedXml.Query.Compiled
import IndexedXml.Query.Context
import IndexedXml.Query.Coverage
import IndexedXml.Query.Discovery
import IndexedXml.Query.Error
import IndexedXml.Query.Evaluation
import IndexedXml.Query.Expr
import IndexedXml.Query.Function
import IndexedXml.Query.Grammar
import IndexedXml.Query.Lowering
import IndexedXml.Query.Narrowing
import IndexedXml.Query.Navigation
import IndexedXml.Query.Optimizer
import IndexedXml.Query.Pragma
import IndexedXml.Query.Probe
import IndexedXml.Query.Reader
import IndexedXml.Query.Run
import IndexedXml.Query.Sequence
import IndexedXml.Query.Surface
import IndexedXml.Query.Table
import IndexedXml.Query.Target
import IndexedXml.Session
import IndexedXml.Store.Basic
import IndexedXml.Store.Document
import IndexedXml.Store.Error
import IndexedXml.Store.Lookup
import IndexedXml.Text.Alphanumeric
import IndexedXml.Text.Blank
import IndexedXml.Value.Atomic
import IndexedXml.Value.Comparison
import IndexedXml.Xml.Document
import IndexedXml.Xml.Reference
import IndexedXml.Xml.Token
import IndexedXml.Xml.Tree
import IndexedXml.Proofs.Xml.NormalForm
import IndexedXml.Proofs.Xml.Writing
import IndexedXml.Proofs.Xml.RoundTrip
import IndexedXml.Proofs.Query.Readers
import IndexedXml.Proofs.Query.Lexemes
import IndexedXml.Proofs.Query.Rendering
import IndexedXml.Proofs.Query.ParsedTrees
import IndexedXml.Proofs.Query.Primaries
import IndexedXml.Proofs.Query.Reparsing
import IndexedXml.Proofs.Query.Numberless
import IndexedXml.Proofs.Query.Distribution
import IndexedXml.Proofs.Query.Withstanding
import IndexedXml.Proofs.Query.NarrowedContext
import IndexedXml.Proofs.Query.Positions
import IndexedXml.Proofs.Query.Nowhere
import IndexedXml.Proofs.Query.Captured
import IndexedXml.Proofs.Node.Narrowing
import IndexedXml.Proofs.Store.Declarations
import IndexedXml.Proofs.Text.Numbers
import IndexedXml.Proofs.Query.Covered
import IndexedXml.Proofs.Query.Prefixes
import IndexedXml.Proofs.Query.Numeric
import IndexedXml.Proofs.Query.Residence
import IndexedXml.Proofs.Query.UseChecks
import IndexedXml.Proofs.Query.BooleanMode
import IndexedXml.Proofs.Query.DoubleSlash
import IndexedXml.Proofs.Node.Compositions
import IndexedXml.Proofs.Query.Verdicts
import IndexedXml.Proofs.Store.Addresses
import IndexedXml.Proofs.Query.Nesting
import IndexedXml.Proofs.Query.Candidates
import IndexedXml.Proofs.Query.Surroundings
import IndexedXml.Proofs.Query.Slots
import IndexedXml.Proofs.Query.Handling
import IndexedXml.Proofs.Query.Statistics
import IndexedXml.Proofs.Query.Chronicle
import IndexedXml.Proofs.Query.Lifecycle
