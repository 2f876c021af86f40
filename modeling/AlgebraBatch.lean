import AlgebraBatch.Content.Debug
import AlgebraBatch.Main
import AlgebraBatch.Proofs.Batch.Block
import AlgebraBatch.Proofs.Batch.Diagnosis
import AlgebraBatch.Proofs.Batch.ErrorOrder
import AlgebraBatch.Proofs.Batch.Failure
import AlgebraBatch.Proofs.Batch.OptionValues
import AlgebraBatch.Proofs.Batch.Position
import AlgebraBatch.Proofs.Batch.Reserved
import AlgebraBatch.Proofs.Batch.Shape
import AlgebraBatch.Proofs.Batch.Source
import AlgebraBatch.Proofs.Batch.Usage
import AlgebraBatch.Proofs.Decimal.Scaling
import AlgebraBatch.Proofs.Engine.Attempts
import AlgebraBatch.Proofs.Engine.Framing
import AlgebraBatch.Proofs.Engine.Protocol
import AlgebraBatch.Proofs.Report.Faithful
import AlgebraBatch.Proofs.Report.Status
import AlgebraBatch.Proofs.Syntax.Context
import AlgebraBatch.Proofs.Syntax.Located
import AlgebraBatch.Proofs.Syntax.Minimal
import AlgebraBatch.Proofs.Syntax.NormalForm
import AlgebraBatch.Proofs.Syntax.Placed
import AlgebraBatch.Proofs.Syntax.ProperTree
import AlgebraBatch.Proofs.Syntax.Quoted
import AlgebraBatch.Proofs.Syntax.Rejection
import AlgebraBatch.Proofs.Syntax.RoundTrip
import AlgebraBatch.Proofs.Syntax.Termination
