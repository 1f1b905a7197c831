import AgentScheduler.Session.Run
import AgentScheduler.Main
import AgentScheduler.Proofs.RegistryFacts
import AgentScheduler.Proofs.Consistency
import AgentScheduler.Proofs.Edits
import AgentScheduler.Proofs.Moments
import AgentScheduler.Proofs.Invariance
import AgentScheduler.Proofs.WalkEnd
import AgentScheduler.Proofs.Coherence
import AgentScheduler.Proofs.Bindings
import AgentScheduler.Proofs.Walking
import AgentScheduler.Proofs.WalkOrder
import AgentScheduler.Proofs.Drain
import AgentScheduler.Proofs.Requests
import AgentScheduler.Proofs.Rollback
import AgentScheduler.Proofs.Changes
import AgentScheduler.Proofs.Batches
import AgentScheduler.Proofs.StaticSteps
import AgentScheduler.Proofs.WorkspaceRuns
import AgentScheduler.Proofs.Receiver
import AgentScheduler.Proofs.Rest
import AgentScheduler.Proofs.Continuity
import AgentScheduler.Proofs.Restoring
import AgentScheduler.Proofs.Snapshots
import AgentScheduler.Proofs.RunOnce
import AgentScheduler.Proofs.Isolation
import AgentScheduler.Proofs.Unseen
import AgentScheduler.Proofs.Turns
import AgentScheduler.Proofs.Cleanup
import AgentScheduler.Proofs.Marks
import AgentScheduler.Proofs.Ownership
import AgentScheduler.Proofs.Members
import AgentScheduler.Proofs.Numerals
import AgentScheduler.Proofs.Finiteness
import AgentScheduler.Proofs.Literals
import AgentScheduler.Proofs.JsonText
import AgentScheduler.Proofs.JsonReading
import AgentScheduler.Proofs.SnapshotText
import AgentScheduler.Proofs.DecimalTexts
import AgentScheduler.Proofs.DoubleNumerals
import AgentScheduler.Proofs.Acceptance
import AgentScheduler.Proofs.FiniteStatics
import AgentScheduler.Proofs.Soundness
import AgentScheduler.Proofs.Precision
import AgentScheduler.Proofs.Stages
import AgentScheduler.Proofs.Admissions
import AgentScheduler.Proofs.Registrations
import AgentScheduler.Proofs.Remnants
import AgentScheduler.Proofs.Veil
import AgentScheduler.Proofs.Unnoticed
import AgentScheduler.Proofs.Discretion
import AgentScheduler.Proofs.Invisible
import AgentScheduler.Proofs.Refusals
import AgentScheduler.Proofs.Ancestry
import AgentScheduler.Proofs.Declarations
import AgentScheduler.Proofs.Loading
import AgentScheduler.Proofs.Lineage
import AgentScheduler.Proofs.Naming
import AgentScheduler.Proofs.ArenaStates
import AgentScheduler.Proofs.ArenaPopulation
import AgentScheduler.Proofs.Flushing
import AgentScheduler.Proofs.Recording
import AgentScheduler.Proofs.BackendRuns
