import Pacing.Datagram
import Pacing.Flow.Recorder
import Pacing.LinkRate
import Pacing.Main
import Pacing.Proofs.Flow.Run
import Pacing.Proofs.Ledger.Conservation
import Pacing.Proofs.Beliefs.Capacity
import Pacing.Proofs.Beliefs.Repair
import Pacing.Proofs.Double.Arithmetic
import Pacing.Proofs.Flow.Bracket
import Pacing.Proofs.Flow.FiniteRtt
import Pacing.Proofs.Flow.Outputs
import Pacing.Proofs.Ledger.Reordering
import Pacing.Proofs.Flow.Overlay
import Pacing.Proofs.Flow.Isolation
import Pacing.Proofs.Flow.Causality
import Pacing.Proofs.Flow.Rereading
import Pacing.Proofs.Scalar.Difference
import Pacing.Proofs.Flow.Timers
import Pacing.Proofs.Flow.Chronology
import Pacing.Proofs.Flow.Losses
import Pacing.Proofs.Flow.Queue
import Pacing.Proofs.Flow.Timeouts
import Pacing.Proofs.Phases
import Pacing.Proofs.Ledger.Provenance
import Pacing.Proofs.Flow.Inert
import Pacing.Proofs.Ring.Fifo
import Pacing.Proofs.Beliefs.Translation
import Pacing.Proofs.Flow.Translation
import Pacing.Proofs.Ledger.Memory
import Pacing.Proofs.Ledger.Renaming
import Pacing.Proofs.Flow.Entries
import Pacing.Proofs.Flow.Renaming
import Pacing.Proofs.Flow.Diagnostics
import Pacing.Proofs.Datagram
import Pacing.Proofs.Scalar.Extrema
import Pacing.Proofs.Beliefs.Pass
import Pacing.Proofs.Beliefs.Scan
import Pacing.Proofs.Flow.RttView
import Pacing.Proofs.Flow.LeastRtt
import Pacing.Proofs.Flow.Build
import Pacing.Proofs.Beliefs.Table
import Pacing.Proofs.Ledger.Resolved
import Pacing.Proofs.Ledger.Marking
import Pacing.Proofs.LinkRate
import Pacing.Proofs.Trace.Records
