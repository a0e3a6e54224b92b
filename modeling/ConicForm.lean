import ConicForm.ConeDims
import ConicForm.RowStack
import ConicForm.Session
import ConicForm.VariableOrder.Given
import ConicForm.Proofs.RationalMeaning
import ConicForm.Proofs.SparseRows
import ConicForm.Proofs.MatrixReading
import ConicForm.Proofs.Arrangement
import ConicForm.Proofs.FormFeasibility
import ConicForm.Proofs.ConeReading
import ConicForm.Proofs.ConicFeasibility
import ConicForm.Proofs.LinearFeasibility
import ConicForm.Proofs.Optimality
import ConicForm.Proofs.WrittenArrays
import ConicForm.Proofs.TaggedRows
import ConicForm.Proofs.LinearAsConic
import ConicForm.Proofs.CompressedColumns
import ConicForm.Proofs.RowCounts
import ConicForm.Proofs.SessionHistory
import ConicForm.Proofs.WellFormedForm
import ConicForm.Proofs.ConeLayout
import ConicForm.Proofs.StackedRows
import ConicForm.Proofs.FixedForm
import ConicForm.Proofs.Refusals
import ConicForm.Proofs.WrittenCones
import ConicForm.Proofs.ConicAcceptance
import ConicForm.Proofs.AssembledForm
import ConicForm.Proofs.DeclaredCones
import ConicForm.Proofs.RelabelledOrder
import ConicForm.Proofs.RelabelledRows
import ConicForm.Proofs.Relabelling
import ConicForm.Proofs.SummedEntries
import ConicForm.Proofs.RowStacking
import ConicForm.Proofs.StackHistory
import ConicForm.Proofs.ConeSequences
import ConicForm.Proofs.SegmentedOrder
import ConicForm.Proofs.FormRows
import ConicForm.Proofs.RowLayout
import ConicForm.Proofs.SplitCones
import ConicForm.Proofs.RelabelledConstraints
import ConicForm.Proofs.AtomicAppends
import ConicForm.Proofs.CountedCones
import ConicForm.Proofs.LinearAcceptance
import ConicForm.Proofs.GivenOrder
import ConicForm.Proofs.RestoredOrder
import ConicForm.Proofs.ComparedProblems
import ConicForm.Proofs.NegatedObjective
import ConicForm.Proofs.ConeDesignation
import ConicForm.Proofs.ImpossibleBounds
import ConicForm.Proofs.AgreeingMatrices
import ConicForm.Proofs.MatrixStorage
import ConicForm.Proofs.ConeNames
import ConicForm.Proofs.IntegerIndices
