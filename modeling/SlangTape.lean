import SlangTape.Main
import SlangTape.Proofs.BackwardJumps
import SlangTape.Proofs.Causality
import SlangTape.Proofs.ClipboardUse
import SlangTape.Proofs.Composition
import SlangTape.Proofs.Decomposition
import SlangTape.Proofs.Encoding
import SlangTape.Proofs.ExpandedRuns
import SlangTape.Proofs.FailedSteps
import SlangTape.Proofs.InputWords
import SlangTape.Proofs.IntegerInput
import SlangTape.Proofs.Invocation
import SlangTape.Proofs.Isolation
import SlangTape.Proofs.LaterReports
import SlangTape.Proofs.Layout
import SlangTape.Proofs.NarrowCells
import SlangTape.Proofs.NestedTransfer
import SlangTape.Proofs.Positions
import SlangTape.Proofs.Records
import SlangTape.Proofs.Refusal
import SlangTape.Proofs.Relocation
import SlangTape.Proofs.Resuming
import SlangTape.Proofs.RowOrder
import SlangTape.Proofs.Safety
import SlangTape.Proofs.TableFaults
import SlangTape.Proofs.UnboundedTape
import SlangTape.Proofs.Undecodable
import SlangTape.Proofs.Unmatched
