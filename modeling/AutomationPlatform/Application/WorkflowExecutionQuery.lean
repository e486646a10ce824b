/-
Workflow executions as callers get to see them.

`load` is two statements: the workflow's row, and then the rows of its tasks
(`selectinload`).  Under READ COMMITTED each of them sees what is committed when it
begins, so the two may see different stores.  The second has no `ORDER BY`, and lists the tasks in
an order of its own each time.
-/
import AutomationPlatform.Persistence.WorkflowExecutions

namespace AutomationPlatform

namespace WorkflowExecutionMapper

def taskToDomain (id : UUID) (model : TaskExecutionModel) : TaskExecution where
  id := id
  workflowExecutionId := model.workflowExecutionId
  taskDefinitionId := model.taskDefinitionId
  key := model.key
  pluginType := model.pluginType
  configuration := model.configuration
  status := model.status
  remainingDependencies := model.remainingDependencies
  parentTaskIds := model.parentTaskIds
  childTaskIds := model.childTaskIds
  remainingTries := model.remainingTries
  output := model.output.map outputToDomain
  errorMessage := model.errorMessage
  startedAt := model.startedAt
  completedAt := model.completedAt

def workflowToDomain (id : UUID) (model : WorkflowExecutionModel)
    (taskExecutions : List TaskExecution) : WorkflowExecution where
  id := id
  workflowDefinitionId := model.workflowDefinitionId
  status := model.status
  taskExecutions := taskExecutions
  createdAt := model.createdAt
  startedAt := model.startedAt
  completedAt := model.completedAt

end WorkflowExecutionMapper

namespace WorkflowExecutionRepository

/-- The rows of a workflow's tasks. -/
def taskModels (s : ExecutionStore) (workflowExecutionId : UUID) :
    List (UUID × TaskExecutionModel) :=
  (taskTable s).filter fun e => e.2.workflowExecutionId == workflowExecutionId

/-- Load a workflow execution, if there is one. -/
def load (order : Sql.RowOrder (UUID × TaskExecutionModel)) (workflowExecutionId : UUID) :
    Session (Option WorkflowExecution) := do
  match ← .select fun s => workflowRow s workflowExecutionId with
  | none => pure none
  | some model =>
      let taskModels ← .select fun s => order.list (taskModels s workflowExecutionId)
      let taskExecutions := taskModels.map fun e => WorkflowExecutionMapper.taskToDomain e.1 e.2
      pure (some
        (WorkflowExecutionMapper.workflowToDomain workflowExecutionId model taskExecutions))

end WorkflowExecutionRepository

/-- Retrieve a workflow execution. -/
def WorkflowExecutionQueryService.get (order : Sql.RowOrder (UUID × TaskExecutionModel))
    (workflowExecutionId : UUID) : Session WorkflowExecution := do
  match ← WorkflowExecutionRepository.load order workflowExecutionId with
  | none => .raise ("Workflow execution " ++ toString workflowExecutionId ++ " does not exist.")
  | some workflowExecution => pure workflowExecution

end AutomationPlatform
