/-
A start of a workflow, one statement after another.

In the system a unit of work on the definitions is one step.  In the database it is several
statements, and each of them sees what is committed when it begins.  `load` reads a definition
in four of them: its row, its dependencies, and when they are asked for its tasks and its
triggers.  The rows of the execution are inserted at the commit, and a foreign key refuses
them if the definition or a task of it is not there.

A `process_next_due` does the same, after it has selected the state of a trigger.  That row it
has locked, so nobody else changes or deletes it until the commit.
-/
import AutomationPlatform.Runtime.System

namespace AutomationPlatform

namespace WorkflowDefinitionRepository

/-- `workflow_model.task_definitions`, in scan order. -/
def taskDefinitionModels (s : DefinitionStore) (workflowDefinitionId : UUID) :
    List (UUID × TaskDefinitionModel) :=
  s.scan fun
    | .task id, t => if t.workflowDefinitionId = workflowDefinitionId then some (id, t) else none
    | _, _ => none

/-- `load`, as its statements. -/
def loadEach (workflowDefinitionId : UUID) :
    Sql.Program DefinitionRowId DefinitionRow (Option WorkflowDefinition) := do
  match ← .select fun s => workflowDefinitionRow s workflowDefinitionId with
  | none => pure none
  | some model =>
      let dependencies ← .select fun s => dependencyRows s workflowDefinitionId
      let tasks ← .select fun s => taskDefinitionModels s workflowDefinitionId
      let triggers ← .select fun s => loadTriggers s workflowDefinitionId
      let taskDefinitions := tasks.map fun e => WorkflowDefinitionMapper.taskToDomain e.1 e.2
        ((dependencies.filter (·.1 = e.1)).map (·.2))
      pure (some (WorkflowDefinitionMapper.workflowToDomain workflowDefinitionId model
        taskDefinitions triggers))

end WorkflowDefinitionRepository

/-- `start_and_commit` up to the creation of the rows, from what was loaded. -/
def WorkflowStartService.prepareLoaded (draws : Draws) (now : Datetime)
    (workflowDefinitionId : UUID) :
    Option WorkflowDefinition → Except Raised (WorkflowExecution × List UUID)
  | none =>
      .error
        { class_ := .workflowDefinitionNotFound
          message := "Workflow definition " ++ toString workflowDefinitionId ++ " does not exist." }
  | some workflowDefinition =>
      if workflowDefinition.enabled then
        match createWorkflowExecution draws now workflowDefinition with
        | .ok created => .ok created
        | .error _ => .error { class_ := .key }
      else
        .error
          { class_ := .workflowDefinitionDisabled
            message := "Workflow definition " ++ toString workflowDefinitionId ++ " is disabled." }

/-- The foreign keys of a new execution and its tasks. -/
def WorkflowExecution.resolved (workflowExecution : WorkflowExecution) (s : DefinitionStore) :
    Bool :=
  (workflowDefinitionRow s workflowExecution.workflowDefinitionId).isSome &&
    workflowExecution.taskExecutions.all fun t => (taskDefinitionRow s t.taskDefinitionId).isSome

namespace System

/-- The inserts of a start and its commit.  Whatever is raised leaves everything as it is. -/
def insertAndCommit (x : System) (publisher : Nat) (definitions : DefinitionStore)
    (prepared : Except Raised (WorkflowExecution × List UUID)) : Option System :=
  match prepared with
  | .error _ => some x
  | .ok (workflowExecution, rootTaskIds) =>
      if workflowExecution.resolved definitions then
        x.commitStart publisher definitions workflowExecution rootTaskIds
      else some x

/-- The end of a `process_next_due` that has selected a trigger, and then loaded its
definition. -/
def rescheduleAndCommit (x : System) (publisher : Nat) (due : DueChronologicalTrigger)
    (prepared : Except Raised (WorkflowExecution × List UUID)) : Option System :=
  match (do
    let next ← ChronologicalTriggerService.nextRunAt .discovered due.pluginType due.configuration
      due.nextRunAt
    ChronologicalTriggerService.reschedule x.definitions due.triggerDefinitionId next) with
  | .error _ => some x
  | .ok definitions => x.insertAndCommit publisher definitions prepared

end System

end AutomationPlatform
