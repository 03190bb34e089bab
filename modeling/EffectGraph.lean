import EffectGraph.Expression.Evaluate
import EffectGraph.Expression.Graph
import EffectGraph.Document.Part
import EffectGraph.Compile.Context
import EffectGraph.PostProcess.Property
import EffectGraph.Proofs.Exposure
import EffectGraph.Proofs.Usage
import EffectGraph.Proofs.ExpressionDocument
import EffectGraph.Proofs.Reloading
import EffectGraph.Proofs.Writing
import EffectGraph.Proofs.Dependence
import EffectGraph.Proofs.Irrelevance
import EffectGraph.Proofs.Cells
import EffectGraph.Proofs.BindingOutcome
import EffectGraph.Proofs.AscendingTables
import EffectGraph.Proofs.Traversal
import EffectGraph.Proofs.Decimals
import EffectGraph.Proofs.Palette
import EffectGraph.Proofs.NumberText
import EffectGraph.Proofs.Formulas
import EffectGraph.Proofs.Readability
import EffectGraph.Proofs.Faults
import EffectGraph.Proofs.MissingInputs
import EffectGraph.Proofs.Overrides
import EffectGraph.Proofs.Cycles
import EffectGraph.Proofs.Lenses
import EffectGraph.Proofs.Combinations
import EffectGraph.Proofs.Wrapping
import EffectGraph.Proofs.Components
import EffectGraph.Proofs.SourceText
import EffectGraph.Proofs.Identifiers
import EffectGraph.Proofs.DistinctNames
import EffectGraph.Proofs.Grading
import EffectGraph.Proofs.Equality
import EffectGraph.Proofs.InsertionOrder
