import TreeCheck.Analysis.Expression
import TreeCheck.Analysis.Resolutions
import TreeCheck.Analysis.Rules
import TreeCheck.Analysis.Run
import TreeCheck.Analysis.Statement
import TreeCheck.Analysis.Walk
import TreeCheck.Command.Arguments
import TreeCheck.Command.Output
import TreeCheck.Command.Run
import TreeCheck.Decimal.Basic
import TreeCheck.Decimal.Double
import TreeCheck.Decimal.Reader
import TreeCheck.Diagnostic
import TreeCheck.Json.Display
import TreeCheck.Json.Reader
import TreeCheck.Json.Value
import TreeCheck.Main
import TreeCheck.ProgramError
import TreeCheck.Project.Check
import TreeCheck.Project.Config
import TreeCheck.Project.Files
import TreeCheck.Project.Machine
import TreeCheck.Project.Path
import TreeCheck.Proofs.Allocation
import TreeCheck.Proofs.Annotations
import TreeCheck.Proofs.Checking
import TreeCheck.Proofs.ClosedWorld
import TreeCheck.Proofs.Colors
import TreeCheck.Proofs.Configuration
import TreeCheck.Proofs.Consistency
import TreeCheck.Proofs.Correspondence
import TreeCheck.Proofs.Coverage
import TreeCheck.Proofs.Declarations
import TreeCheck.Proofs.Definitions
import TreeCheck.Proofs.Documents
import TreeCheck.Proofs.Doubles
import TreeCheck.Proofs.Elaboration
import TreeCheck.Proofs.Encodability
import TreeCheck.Proofs.Exactness
import TreeCheck.Proofs.Frames
import TreeCheck.Proofs.Grammar
import TreeCheck.Proofs.Histories
import TreeCheck.Proofs.Independence
import TreeCheck.Proofs.Inference
import TreeCheck.Proofs.Judgement
import TreeCheck.Proofs.Keys
import TreeCheck.Proofs.Layout
import TreeCheck.Proofs.Likeness
import TreeCheck.Proofs.Lines
import TreeCheck.Proofs.Locality
import TreeCheck.Proofs.LongestMatch
import TreeCheck.Proofs.Magnitudes
import TreeCheck.Proofs.Moments
import TreeCheck.Proofs.Nearest
import TreeCheck.Proofs.Nesting
import TreeCheck.Proofs.Nodes
import TreeCheck.Proofs.Numerals
import TreeCheck.Proofs.ObjectTypes
import TreeCheck.Proofs.Parentheses
import TreeCheck.Proofs.Persistence
import TreeCheck.Proofs.Places
import TreeCheck.Proofs.Preservation
import TreeCheck.Proofs.Quoting
import TreeCheck.Proofs.Readability
import TreeCheck.Proofs.Reading
import TreeCheck.Proofs.Registration
import TreeCheck.Proofs.Relabel
import TreeCheck.Proofs.Renaming
import TreeCheck.Proofs.Retracing
import TreeCheck.Proofs.Rules
import TreeCheck.Proofs.Runs
import TreeCheck.Proofs.Scoping
import TreeCheck.Proofs.Selection
import TreeCheck.Proofs.Settings
import TreeCheck.Proofs.Sharing
import TreeCheck.Proofs.Simulation
import TreeCheck.Proofs.Spelling
import TreeCheck.Proofs.Success
import TreeCheck.Proofs.Suggestions
import TreeCheck.Proofs.Table
import TreeCheck.Proofs.Transfer
import TreeCheck.Proofs.TypeNames
import TreeCheck.Proofs.Typing
import TreeCheck.Proofs.Viewing
import TreeCheck.Proofs.Visits
import TreeCheck.Proofs.Walks
import TreeCheck.Proofs.Weakening
import TreeCheck.Proofs.Widening
import TreeCheck.Proofs.WriteOnce
import TreeCheck.Symbol.Binding
import TreeCheck.Symbol.Block
import TreeCheck.Symbol.Catalog
import TreeCheck.Symbol.Declaration
import TreeCheck.Symbol.Scope
import TreeCheck.Symbol.Store
import TreeCheck.Symbol.Type
import TreeCheck.Text.Alphanumeric
import TreeCheck.Text.Basic
import TreeCheck.Text.Bytes
import TreeCheck.Text.Control
import TreeCheck.Text.Encoding
import TreeCheck.Text.Numeral
import TreeCheck.Text.Printable
import TreeCheck.Text.Quoted
import TreeCheck.Text.Similarity
import TreeCheck.Toml.Document
import TreeCheck.Toml.Reader
import TreeCheck.Toml.Scalar
import TreeCheck.Toml.Value
import TreeCheck.Tree.Basic
import TreeCheck.Tree.Display
import TreeCheck.Tree.Format
import TreeCheck.Tree.Label
import TreeCheck.Tree.Outline
import TreeCheck.Tree.Reader
