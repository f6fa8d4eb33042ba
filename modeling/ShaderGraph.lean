import ShaderGraph.Channel
import ShaderGraph.CheckReport
import ShaderGraph.Command
import ShaderGraph.CommandLine
import ShaderGraph.Edge
import ShaderGraph.Evaluation
import ShaderGraph.FileTree
import ShaderGraph.Glsl.Compile
import ShaderGraph.Glsl.Dialect
import ShaderGraph.Glsl.Expr
import ShaderGraph.Glsl.Program
import ShaderGraph.Graph.Basic
import ShaderGraph.Graph.Buffers
import ShaderGraph.Graph.Edit
import ShaderGraph.Graph.InPlace
import ShaderGraph.Graph.Reach
import ShaderGraph.Graph.Search
import ShaderGraph.Graph.Walk
import ShaderGraph.IdPool
import ShaderGraph.IdPool.Words
import ShaderGraph.Json
import ShaderGraph.Kind
import ShaderGraph.Link.Check
import ShaderGraph.Link.Rule
import ShaderGraph.Main
import ShaderGraph.Node
import ShaderGraph.Path
import ShaderGraph.Proofs.Acyclicity
import ShaderGraph.Proofs.Atomicity
import ShaderGraph.Proofs.BufferRuns
import ShaderGraph.Proofs.Buffers
import ShaderGraph.Proofs.Coherence
import ShaderGraph.Proofs.Compatibility
import ShaderGraph.Proofs.Convergence
import ShaderGraph.Proofs.Decimals
import ShaderGraph.Proofs.Denotation
import ShaderGraph.Proofs.Dependence
import ShaderGraph.Proofs.Edits
import ShaderGraph.Proofs.Effects
import ShaderGraph.Proofs.Except
import ShaderGraph.Proofs.Files
import ShaderGraph.Proofs.Following
import ShaderGraph.Proofs.FreeIds
import ShaderGraph.Proofs.Glsl.Emission
import ShaderGraph.Proofs.Glsl.Fitting
import ShaderGraph.Proofs.Glsl.Grammar
import ShaderGraph.Proofs.Glsl.Meaning
import ShaderGraph.Proofs.Glsl.Names
import ShaderGraph.Proofs.Glsl.NodeTypes
import ShaderGraph.Proofs.Glsl.Operators
import ShaderGraph.Proofs.Glsl.Preservation
import ShaderGraph.Proofs.Glsl.Products
import ShaderGraph.Proofs.Glsl.Reloading
import ShaderGraph.Proofs.Glsl.Rendering
import ShaderGraph.Proofs.Glsl.Renumbering
import ShaderGraph.Proofs.Glsl.Resolution
import ShaderGraph.Proofs.Glsl.Scope
import ShaderGraph.Proofs.Glsl.Subgraph
import ShaderGraph.Proofs.Glsl.Substitutes
import ShaderGraph.Proofs.Glsl.Templates
import ShaderGraph.Proofs.Glsl.Typing
import ShaderGraph.Proofs.Glsl.Variables
import ShaderGraph.Proofs.Glsl.WellTyped
import ShaderGraph.Proofs.Handles
import ShaderGraph.Proofs.InPlace
import ShaderGraph.Proofs.Inputs
import ShaderGraph.Proofs.Lifetimes
import ShaderGraph.Proofs.LinkRules
import ShaderGraph.Proofs.Linking
import ShaderGraph.Proofs.Locality
import ShaderGraph.Proofs.Matrices
import ShaderGraph.Proofs.NodeValues
import ShaderGraph.Proofs.Output
import ShaderGraph.Proofs.Passes
import ShaderGraph.Proofs.Pool
import ShaderGraph.Proofs.PoolRuns
import ShaderGraph.Proofs.Preorder
import ShaderGraph.Proofs.Reachable
import ShaderGraph.Proofs.Rebuild
import ShaderGraph.Proofs.Records
import ShaderGraph.Proofs.Reload
import ShaderGraph.Proofs.Replay
import ShaderGraph.Proofs.ReplayValues
import ShaderGraph.Proofs.RoundTrip
import ShaderGraph.Proofs.Rounding
import ShaderGraph.Proofs.Scalars
import ShaderGraph.Proofs.Sessions
import ShaderGraph.Proofs.SlotChoice
import ShaderGraph.Proofs.SteadySources
import ShaderGraph.Proofs.Transaction
import ShaderGraph.Proofs.Transcript
import ShaderGraph.Proofs.Undo
import ShaderGraph.Proofs.UnusedColumns
import ShaderGraph.Proofs.Walks
import ShaderGraph.Proofs.WellFormed
import ShaderGraph.Proofs.WholeParts
import ShaderGraph.SavedGraph.Load
import ShaderGraph.SavedGraph.Record
import ShaderGraph.SavedGraph.Write
import ShaderGraph.Scalar.Basic
import ShaderGraph.Scalar.Decimal
import ShaderGraph.Scalar.Elementary
import ShaderGraph.Scalar.Integral
import ShaderGraph.Script
import ShaderGraph.Session
import ShaderGraph.Session.InPlace
import ShaderGraph.Settings
import ShaderGraph.Shape
import ShaderGraph.Slots
import ShaderGraph.Term.Decode
import ShaderGraph.Term.Levels
import ShaderGraph.Term.Lexis
import ShaderGraph.Term.LookAhead
import ShaderGraph.Term.Numeral
import ShaderGraph.Term.Quote
import ShaderGraph.Term.Reader
import ShaderGraph.Text
import ShaderGraph.Text.Name
import ShaderGraph.Value.Algebra
import ShaderGraph.Value.Basic
import ShaderGraph.Value.Buffer
import ShaderGraph.Workspace
