import EffectMachine.Configuration
import EffectMachine.Facade
import EffectMachine.Program.Inspection
import EffectMachine.Script.Declaration
import EffectMachine.Proofs.Cancellation.Cleanup
import EffectMachine.Proofs.Direct.Refinement
import EffectMachine.Proofs.Concurrent.Orphans
import EffectMachine.Proofs.Concurrent.Results
import EffectMachine.Proofs.Concurrent.Aborts
import EffectMachine.Proofs.Batch.Tending
import EffectMachine.Proofs.Batch.Routing
import EffectMachine.Proofs.Interleaving.Answers
import EffectMachine.Proofs.Acts.Moments
import EffectMachine.Proofs.Protocol.Conformance
import EffectMachine.Proofs.Cancellation.Calls
import EffectMachine.Proofs.Cancellation.Failures
import EffectMachine.Proofs.Unwinding.Verdicts
import EffectMachine.Proofs.Unwinding.Conservation
import EffectMachine.Proofs.Interleaving.Endings
import EffectMachine.Proofs.Interleaving.Ledgers
import EffectMachine.Proofs.Lifecycle.Course
import EffectMachine.Proofs.Explicit.Basic
import EffectMachine.Proofs.Explicit.Equivalence
import EffectMachine.Proofs.Registration.Tables
import EffectMachine.Proofs.Dispatch.Checks
import EffectMachine.Proofs.Dispatch.Delegation
import EffectMachine.Proofs.Dispatch.Terminals
import EffectMachine.Proofs.Coalescing.Calls
import EffectMachine.Proofs.Coalescing.Enrolment
import EffectMachine.Proofs.Batch.Bypass
import EffectMachine.Proofs.Facades.Recency
import EffectMachine.Proofs.Unwinding.Recovery
import EffectMachine.Proofs.Batch.Owed
import EffectMachine.Proofs.Coalescing.Invocation
import EffectMachine.Proofs.Coalescing.Completion
import EffectMachine.Proofs.Coalescing.Once
import EffectMachine.Proofs.Windows.Fixed
import EffectMachine.Proofs.Driving.Termination
import EffectMachine.Proofs.Values.Equality
import EffectMachine.Proofs.Middleware.Transparency
