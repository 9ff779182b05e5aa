import DeltaCircuit.Assoc
import DeltaCircuit.Calendar
import DeltaCircuit.Circuit.Basic
import DeltaCircuit.Circuit.Contents
import DeltaCircuit.Circuit.Error
import DeltaCircuit.Circuit.Graph
import DeltaCircuit.Circuit.Operator
import DeltaCircuit.Circuit.Pass.Incrementalize
import DeltaCircuit.Circuit.Pass.Manager
import DeltaCircuit.Circuit.Pass.RemoveOperators
import DeltaCircuit.Circuit.Pass.SimplifyFunctions
import DeltaCircuit.Circuit.Rewiring
import DeltaCircuit.Circuit.Run
import DeltaCircuit.Circuit.Summary
import DeltaCircuit.Circuit.Traversal
import DeltaCircuit.Diagnostic
import DeltaCircuit.Double.Arithmetic
import DeltaCircuit.Double.Basic
import DeltaCircuit.Double.Layout
import DeltaCircuit.Double.Reader
import DeltaCircuit.Double.Shortest
import DeltaCircuit.Eval.Error
import DeltaCircuit.Eval.Interpreter
import DeltaCircuit.Eval.Operation
import DeltaCircuit.Eval.Scopes
import DeltaCircuit.Expr.Basic
import DeltaCircuit.Expr.Build
import DeltaCircuit.Expr.Equality
import DeltaCircuit.Expr.Error
import DeltaCircuit.Expr.Free
import DeltaCircuit.Expr.Sameness
import DeltaCircuit.Expr.Simplify
import DeltaCircuit.Expr.Text
import DeltaCircuit.Expr.Transform
import DeltaCircuit.Json.Basic
import DeltaCircuit.Json.Reader
import DeltaCircuit.Literal
import DeltaCircuit.Options
import DeltaCircuit.Plan.Basic
import DeltaCircuit.Plan.Error
import DeltaCircuit.Plan.Fold
import DeltaCircuit.Plan.JoinKeys
import DeltaCircuit.Plan.Lowering
import DeltaCircuit.Plan.RowFunction
import DeltaCircuit.Plan.Scalar
import DeltaCircuit.Plan.ScalarCompiler
import DeltaCircuit.Program
import DeltaCircuit.Text.Blank
import DeltaCircuit.Text.Integer
import DeltaCircuit.Text.Printable
import DeltaCircuit.Text.Quoted
import DeltaCircuit.Traversal.Hook
import DeltaCircuit.Traversal.Recording
import DeltaCircuit.Traversal.Walk
import DeltaCircuit.Ty.Basic
import DeltaCircuit.Ty.Json
import DeltaCircuit.Ty.Text
import DeltaCircuit.Ty.Unify
import DeltaCircuit.Value
import DeltaCircuit.Weighted
import DeltaCircuit.Yaml.Glyph
import DeltaCircuit.Yaml.Mapping
import DeltaCircuit.Yaml.Property
import DeltaCircuit.Yaml.Scalar
import DeltaCircuit.Yaml.Token
import DeltaCircuit.ZSet
import DeltaCircuit.ZSetLiteral
import DeltaCircuit.Proofs.Outcome
import DeltaCircuit.Proofs.Weighted
import DeltaCircuit.Proofs.ZSet
import DeltaCircuit.Proofs.Circuit.Signature
import DeltaCircuit.Proofs.Circuit.Derivation
import DeltaCircuit.Proofs.Circuit.Construction
import DeltaCircuit.Proofs.Circuit.Trace
import DeltaCircuit.Proofs.Circuit.Rewiring
import DeltaCircuit.Proofs.Circuit.Graph
import DeltaCircuit.Proofs.Circuit.RemoveOperators
import DeltaCircuit.Proofs.Circuit.Distinct
import DeltaCircuit.Proofs.Circuit.Incremented
import DeltaCircuit.Proofs.Circuit.Incrementalize
import DeltaCircuit.Proofs.Circuit.Changes
import DeltaCircuit.Proofs.Circuit.Streams
import DeltaCircuit.Proofs.Circuit.MultisetFlag
import DeltaCircuit.Proofs.Circuit.WellFormed
import DeltaCircuit.Proofs.Circuit.SimplifyFunctions
import DeltaCircuit.Proofs.Circuit.Validity
import DeltaCircuit.Proofs.Circuit.Embedding
import DeltaCircuit.Proofs.Circuit.EmbeddingPasses
import DeltaCircuit.Proofs.Expr.Parts
import DeltaCircuit.Proofs.Expr.Transform
import DeltaCircuit.Proofs.Expr.Built
import DeltaCircuit.Proofs.Eval.Frame
import DeltaCircuit.Proofs.Eval.Refinement
import DeltaCircuit.Proofs.Eval.Wiring
import DeltaCircuit.Proofs.Eval.Scoping
import DeltaCircuit.Proofs.Expr.Simplify
import DeltaCircuit.Proofs.Expr.FreeUses
import DeltaCircuit.Proofs.Expr.Rebuild
import DeltaCircuit.Proofs.Expr.Simplifiable
import DeltaCircuit.Proofs.Double
import DeltaCircuit.Proofs.Plan.Conformance
import DeltaCircuit.Proofs.Plan.RowFunction
import DeltaCircuit.Proofs.Plan.Predicate
import DeltaCircuit.Proofs.Plan.JoinCondition
import DeltaCircuit.Proofs.ZSetOperation
import DeltaCircuit.Proofs.Plan.Functions
import DeltaCircuit.Proofs.Plan.Lockstep
import DeltaCircuit.Proofs.Plan.Streams
import DeltaCircuit.Proofs.Plan.Join
import DeltaCircuit.Proofs.Program
import DeltaCircuit.Proofs.Expr.Equality
import DeltaCircuit.Proofs.ZSetLiteral
import DeltaCircuit.Proofs.Plan.SetOperation
import DeltaCircuit.Proofs.ZSetGroups
import DeltaCircuit.Proofs.Plan.Fold
import DeltaCircuit.Proofs.Plan.Aggregate
import DeltaCircuit.Proofs.Eval.Exact
import DeltaCircuit.Proofs.Eval.Twins
import DeltaCircuit.Proofs.ZSetSum
import DeltaCircuit.Proofs.Circuit.Exact
import DeltaCircuit.Proofs.Circuit.Linear
import DeltaCircuit.Proofs.Circuit.EntryOrder
import DeltaCircuit.Proofs.Circuit.Order
import DeltaCircuit.Proofs.ZSetPositive
import DeltaCircuit.Proofs.Circuit.Positive
import DeltaCircuit.Proofs.Circuit.SimplifiedCalls
import DeltaCircuit.Proofs.Plan.Positive
import DeltaCircuit.Proofs.Views
import DeltaCircuit.Proofs.Plan.Conjuncts
import DeltaCircuit.Proofs.Ty.Json
import DeltaCircuit.Proofs.Eval.Admits
import DeltaCircuit.Proofs.Eval.StaticTypes
import DeltaCircuit.Proofs.Plan.FoldLoop
import DeltaCircuit.Proofs.Plan.AggregateRuns
import DeltaCircuit.Proofs.Plan.FoldRound
import DeltaCircuit.Proofs.Plan.AggregateFold
import DeltaCircuit.Proofs.Expr.NormalForm
import DeltaCircuit.Proofs.Expr.KeptTypes
import DeltaCircuit.Proofs.Circuit.KeptOperators
import DeltaCircuit.Proofs.Circuit.Blocks
import DeltaCircuit.Proofs.Circuit.PassesCommute
import DeltaCircuit.Proofs.Circuit.Contents
import DeltaCircuit.Proofs.Plan.ConstantRow
import DeltaCircuit.Proofs.ZSetTally
import DeltaCircuit.Proofs.TableContents
import DeltaCircuit.Proofs.Plan.Reckoning
import DeltaCircuit.Proofs.Plan.ScalarAgreement
import DeltaCircuit.Proofs.Plan.OutputType
import DeltaCircuit.Proofs.Plan.ComparedColumns
import DeltaCircuit.Proofs.Plan.JoinStrictness
import DeltaCircuit.Proofs.Text.Integer
import DeltaCircuit.Proofs.Eval.Integers
import DeltaCircuit.Proofs.Traversal.Children
import DeltaCircuit.Proofs.Traversal.Pruning
import DeltaCircuit.Proofs.Ty.Unification
import DeltaCircuit.Proofs.Circuit.StoredWeights
import DeltaCircuit.Proofs.Eval.Assignments
import DeltaCircuit.Proofs.Eval.Patterns
import DeltaCircuit.Proofs.Expr.Sameness
import DeltaCircuit.Proofs.Expr.KeptNodes
