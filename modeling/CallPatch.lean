import CallPatch.Deployment.Batch
import CallPatch.Index.Workload
import CallPatch.Main
import CallPatch.Json.Characters
import CallPatch.Proofs.Machine.Execution
import CallPatch.Proofs.Patch.Delegation
import CallPatch.Proofs.Patch.LookAhead
import CallPatch.Proofs.Patch.Labels
import CallPatch.Proofs.Patch.Meaning
import CallPatch.Proofs.Agent.Confluence
import CallPatch.Proofs.Agent.Pickup
import CallPatch.Proofs.Agent.WakeUp
import CallPatch.Proofs.Artifact.RoundTrip
import CallPatch.Proofs.Index.Alone
import CallPatch.Proofs.Index.Coverage
import CallPatch.Proofs.Index.Handover
import CallPatch.Proofs.Index.Pipeline
import CallPatch.Proofs.Index.Answers
import CallPatch.Proofs.Index.Difference
import CallPatch.Proofs.Host.Inheritance
import CallPatch.Proofs.Host.Search
import CallPatch.Proofs.Patch.Chain
import CallPatch.Proofs.Patch.Distinct
import CallPatch.Proofs.Patch.Asking
import CallPatch.Proofs.Agent.History
import CallPatch.Proofs.Agent.EitherOrder
import CallPatch.Proofs.Deployment.Capability
import CallPatch.Proofs.Deployment.Redefinition
import CallPatch.Proofs.Deployment.Startup
import CallPatch.Proofs.Deployment.AllOrNothing
import CallPatch.Proofs.Patch.Stages
import CallPatch.Proofs.Patch.Interchange
import CallPatch.Proofs.Patch.Repatching
import CallPatch.Proofs.Deployment.Isolation
import CallPatch.Proofs.Artifact.Framing
import CallPatch.Proofs.Index.Lifecycle
import CallPatch.Proofs.Deployment.Installation
import CallPatch.Proofs.Dump.Containment
import CallPatch.Proofs.Index.Collisions
import CallPatch.Proofs.Agent.NameList
