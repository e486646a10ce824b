/-
Starting a workflow: compiling a definition into an execution, and storing it.

A `dict` keyed by task definition is a partial function here, and looking up a key
it does not have is the source's `KeyError`.  What `uuid4` returned is a parameter:
one identifier for the workflow execution, and one for every task definition the
comprehension of `task_execution_ids` meets.

The root tasks are enqueued after the commit.  That is a step of its own, which the
transaction knows nothing of.
-/
import AutomationPlatform.ExecutionQueue.Postgres
import AutomationPlatform.Persistence.WorkflowDefinitions
import AutomationPlatform.Persistence.WorkflowExecutions
import Mathlib.Logic.Function.Basic

namespace AutomationPlatform

/-- The identifiers `uuid4` returned while one definition was compiled. -/
structure Draws where
  workflowExecutionId : UUID
  taskExecutionId : UUID → UUID

/-- A `dict` with identifiers as keys. -/
abbrev Lookup (β : Type) := UUID → Option β

/-- `d[key]`. -/
def Lookup.get {β : Type} (d : Lookup β) (key : UUID) : Except String β :=
  match d key with
  | some value => .ok value
  | none => .error "KeyError"

namespace WorkflowStartService

/-- `task_execution_ids`: a new identifier for every task definition. -/
def createTaskExecutionIds (draws : Draws) (taskDefinitions : List TaskDefinition) :
    Lookup UUID :=
  fun id => if id ∈ taskDefinitions.map (·.id) then some (draws.taskExecutionId id) else none

/-- `children[parent_id].append(task_execution_id)`. -/
def appendChild (taskExecutionId : UUID) (children : Lookup (List UUID)) (parentId : UUID) :
    Except String (Lookup (List UUID)) := do
  let ids ← children.get parentId
  pure (Function.update children parentId (some (ids ++ [taskExecutionId])))

/-- One round of the loop of `_create_child_task_lookup`. -/
def appendToParents (taskExecutionIds : Lookup UUID) (children : Lookup (List UUID))
    (taskDefinition : TaskDefinition) : Except String (Lookup (List UUID)) := do
  let taskExecutionId ← taskExecutionIds.get taskDefinition.id
  taskDefinition.dependencies.foldlM (appendChild taskExecutionId) children

/-- Child execution identifiers for each task definition. -/
def createChildTaskLookup (taskDefinitions : List TaskDefinition)
    (taskExecutionIds : Lookup UUID) : Except String (Lookup (List UUID)) :=
  taskDefinitions.foldlM (appendToParents taskExecutionIds)
    fun id => if id ∈ taskDefinitions.map (·.id) then some [] else none

/-- The task execution of one task definition. -/
def createTaskExecution (workflowExecutionId : UUID) (taskExecutionIds : Lookup UUID)
    (childTaskIds : Lookup (List UUID)) (taskDefinition : TaskDefinition) :
    Except String TaskExecution := do
  let id ← taskExecutionIds.get taskDefinition.id
  let parentTaskIds ← taskDefinition.dependencies.mapM taskExecutionIds.get
  let children ← childTaskIds.get taskDefinition.id
  pure
    { id := id
      workflowExecutionId := workflowExecutionId
      key := taskDefinition.key
      pluginType := taskDefinition.pluginType
      configuration := taskDefinition.configuration
      taskDefinitionId := taskDefinition.id
      status := .pending
      remainingDependencies := taskDefinition.dependencies.length
      remainingTries := taskDefinition.maxTries
      parentTaskIds := parentTaskIds
      childTaskIds := children }

/-- The runtime state of a definition, and its root tasks. -/
def createWorkflowExecution (draws : Draws) (now : Datetime)
    (workflowDefinition : WorkflowDefinition) : Except String (WorkflowExecution × List UUID) := do
  let taskExecutionIds := createTaskExecutionIds draws workflowDefinition.taskDefinitions
  let childTaskIds ←
    createChildTaskLookup workflowDefinition.taskDefinitions taskExecutionIds
  let taskExecutions ← workflowDefinition.taskDefinitions.mapM
    (createTaskExecution draws.workflowExecutionId taskExecutionIds childTaskIds)
  let rootTaskIds :=
    (taskExecutions.filter fun task => task.remainingDependencies == 0).map (·.id)
  pure
    ({ id := draws.workflowExecutionId
       workflowDefinitionId := workflowDefinition.id
       status := .running
       taskExecutions := taskExecutions
       createdAt := now }, rootTaskIds)

end WorkflowStartService

/-! ### Transactions -/

/-- What a unit of work reads and writes: the definitions with their scheduling state, and
the executions. -/
structure Database where
  definitions : DefinitionStore
  executions : ExecutionStore

namespace WorkflowStartService

/-- `start_and_commit` up to the creation of the rows: the execution and its root tasks. -/
def prepare (definitions : DefinitionStore) (draws : Draws) (now : Datetime)
    (workflowDefinitionId : UUID) : Except Raised (WorkflowExecution × List UUID) :=
  match WorkflowDefinitionRepository.load definitions workflowDefinitionId with
  | none =>
      .error
        { class_ := .workflowDefinitionNotFound
          message := "Workflow definition " ++ toString workflowDefinitionId ++ " does not exist." }
  | some workflowDefinition =>
      if workflowDefinition.enabled then
        match createWorkflowExecution draws now workflowDefinition with
        | .ok created => .ok created
        | .error _ => .error { class_ := .key }
      else
        .error
          { class_ := .workflowDefinitionDisabled
            message := "Workflow definition " ++ toString workflowDefinitionId ++ " is disabled." }

/-- Start a workflow execution and commit it with what the unit of work has done so far; its
root tasks are still to be enqueued. -/
def startAndCommit (db : Database) (draws : Draws) (now : Datetime)
    (workflowDefinitionId : UUID) : Except Raised (Database × WorkflowExecution × List UUID) := do
  let (workflowExecution, rootTaskIds) ←
    prepare db.definitions draws now workflowDefinitionId
  match WorkflowExecutionRepository.create db.executions workflowExecution with
  | some executions => pure ({ db with executions := executions }, workflowExecution, rootTaskIds)
  | none => .error { class_ := .integrity }

/-- Start a workflow execution, commit it and enqueue its root tasks. -/
def start (db : Database) (queue : ExecutionQueue) (draws : Draws) (now enqueuedAt : Datetime)
    (workflowDefinitionId : UUID) : Except Raised (Database × ExecutionQueue × UUID) := do
  let (db', workflowExecution, rootTaskIds) ← startAndCommit db draws now workflowDefinitionId
  pure (db', PostgresExecutionQueue.enqueue queue rootTaskIds enqueuedAt, workflowExecution.id)

end WorkflowStartService

end AutomationPlatform
