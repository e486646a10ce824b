import AutomationPlatform.Sql.Store
import AutomationPlatform.Sql.Program
import AutomationPlatform.Sql.Lax
import AutomationPlatform.Sql.ReadCommitted
import AutomationPlatform.Sql.Serialization
import AutomationPlatform.Sql.Always
import AutomationPlatform.Sql.Deadlock
import AutomationPlatform.Sql.Conflict
import AutomationPlatform.Domain
import AutomationPlatform.Persistence.WorkflowExecutions
import AutomationPlatform.Application.WorkflowStart
import AutomationPlatform.Application.WorkflowExecutionQuery
import AutomationPlatform.Proofs.Executions.Evolution
import AutomationPlatform.Proofs.Executions.Compile
import AutomationPlatform.Proofs.Executions.Isomorphism
import AutomationPlatform.Proofs.Executions.Atomic
import AutomationPlatform.Proofs.Executions.Coherence
import AutomationPlatform.Proofs.Executions.RowSteps
import AutomationPlatform.Proofs.Executions.Linearize
import AutomationPlatform.Proofs.Executions.Inputs
import AutomationPlatform.Proofs.Executions.Progress
import AutomationPlatform.Proofs.Executions.Isolation
import AutomationPlatform.Proofs.Executions.Serial
import AutomationPlatform.Proofs.Executions.Absorbing
import AutomationPlatform.Proofs.Executions.Budget
import AutomationPlatform.Proofs.Executions.Failure
import AutomationPlatform.Proofs.Executions.Release
import AutomationPlatform.Proofs.Executions.Timestamps
import AutomationPlatform.Proofs.Executions.Deadlock
import AutomationPlatform.Proofs.Executions.Queries
import AutomationPlatform.Proofs.Executions.Completion
import AutomationPlatform.ExecutionQueue.Postgres
import AutomationPlatform.Proofs.Queue.Lease
import AutomationPlatform.Proofs.Queue.Publication
import AutomationPlatform.Runtime.Platform
import AutomationPlatform.Runtime.Reconciler
import AutomationPlatform.Runtime.Worker
import AutomationPlatform.Proofs.Platform.Sound
import AutomationPlatform.Proofs.Platform.NoWorkLost
import AutomationPlatform.Proofs.Platform.Repair
import AutomationPlatform.Proofs.Platform.Results
import AutomationPlatform.Proofs.Executions.Attempts
import AutomationPlatform.Proofs.Platform.WorkerLoop
import AutomationPlatform.Proofs.Platform.Dependencies
import AutomationPlatform.Exceptions
import AutomationPlatform.Python
import AutomationPlatform.Plugins.Tasks
import AutomationPlatform.Plugins.Triggers
import AutomationPlatform.Plugins.Registry
import AutomationPlatform.Proofs.Plugins.Registry
import AutomationPlatform.Sql.Schema
import AutomationPlatform.Persistence.WorkflowDefinitions
import AutomationPlatform.Persistence.ChronologicalTriggers
import AutomationPlatform.Application.ChronologicalTriggers
import AutomationPlatform.Application.WorkflowDefinitions
import AutomationPlatform.Runtime.Scheduler
import AutomationPlatform.Proofs.Triggers.Schedule
import AutomationPlatform.Merge.Agenda
import AutomationPlatform.Proofs.Triggers.Loop
import AutomationPlatform.Proofs.Triggers.Progress
import AutomationPlatform.Proofs.Triggers.CatchUp
import AutomationPlatform.Proofs.Definitions.Save
import AutomationPlatform.Proofs.Definitions.Load
import AutomationPlatform.Graph.Order
import AutomationPlatform.Proofs.Definitions.Replace
import AutomationPlatform.Proofs.Definitions.Cycle
import AutomationPlatform.Proofs.Definitions.Validate
import AutomationPlatform.Proofs.Definitions.Delete
import AutomationPlatform.Proofs.Definitions.Create
import AutomationPlatform.Proofs.Definitions.Range
import AutomationPlatform.Sql.Solo
import AutomationPlatform.Graph.Machine
import AutomationPlatform.Runtime.System
import AutomationPlatform.Proofs.Platform.Actions
import AutomationPlatform.Proofs.System.Definitions
import AutomationPlatform.Proofs.System.Reachable
import AutomationPlatform.Proofs.System.Fidelity
import AutomationPlatform.Proofs.System.Outcomes
import AutomationPlatform.Proofs.System.Meaning
import AutomationPlatform.Proofs.System.Refinement
import AutomationPlatform.Proofs.System.Quiet
import AutomationPlatform.Proofs.System.Recovery
import AutomationPlatform.Sql.Order
import AutomationPlatform.Proofs.System.Same
import AutomationPlatform.Runtime.Statements
import AutomationPlatform.Proofs.System.Statements
import AutomationPlatform.Runtime.Api
import AutomationPlatform.Proofs.System.Answers
import AutomationPlatform.Proofs.System.Api
import AutomationPlatform.Proofs.System.Starts
import AutomationPlatform.Proofs.System.Requests
import AutomationPlatform.Proofs.System.Schedules
import AutomationPlatform.Proofs.System.Backlog
