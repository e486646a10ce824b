/-
Workflow executions in PostgreSQL: the rows, and the repository's operations.

Both tables are one store.  A key says which table it is of, and the type of the
row follows.  The primary key is the key itself, so the models here carry the
other columns only.

The repository's methods are transaction bodies, statement by statement as the
source issues them: each conditional `UPDATE` is a definition of its own, and the
methods put them in order.  Nothing is said here about how the bodies of several
sessions interleave.
-/
import AutomationPlatform.Domain
import AutomationPlatform.Sql.ReadCommitted

namespace AutomationPlatform

/-! ### Rows -/

structure WorkflowExecutionModel where
  workflowDefinitionId : UUID
  status : WorkflowStatus
  createdAt : Datetime
  startedAt : Option Datetime
  completedAt : Option Datetime

structure TaskExecutionModel where
  workflowExecutionId : UUID
  taskDefinitionId : UUID
  key : String
  pluginType : String
  configuration : JsonObject
  status : TaskStatus
  remainingDependencies : Int
  parentTaskIds : List UUID
  childTaskIds : List UUID
  remainingTries : Int
  output : Option JsonObject
  errorMessage : Option String
  startedAt : Option Datetime
  completedAt : Option Datetime

/-- A primary key of one of the two tables. -/
inductive RowId where
  | workflow (id : UUID)
  | task (id : UUID)
  deriving DecidableEq, Repr

/-- The row under a key. -/
abbrev Row : RowId → Type
  | .workflow _ => WorkflowExecutionModel
  | .task _ => TaskExecutionModel

/-- The committed workflow and task executions. -/
abbrev ExecutionStore := Sql.Store RowId Row

/-- A repository method, run in a session. -/
abbrev Session := Sql.Program RowId Row

/-- The task execution with an identifier. -/
def taskRow (s : ExecutionStore) (id : UUID) : Option TaskExecutionModel := s.row (.task id)

/-- The workflow execution with an identifier. -/
def workflowRow (s : ExecutionStore) (id : UUID) : Option WorkflowExecutionModel :=
  s.row (.workflow id)

/-- The rows of the table `task_executions`, in scan order. -/
def taskTable (s : ExecutionStore) : List (UUID × TaskExecutionModel) :=
  s.keys.filterMap fun
    | .task id => (taskRow s id).map fun t => (id, t)
    | .workflow _ => none

/-! ### Mapping -/

namespace WorkflowExecutionMapper

def taskToModel (task : TaskExecution) : TaskExecutionModel where
  workflowExecutionId := task.workflowExecutionId
  taskDefinitionId := task.taskDefinitionId
  key := task.key
  pluginType := task.pluginType
  configuration := task.configuration
  status := task.status
  remainingDependencies := task.remainingDependencies
  parentTaskIds := task.parentTaskIds
  childTaskIds := task.childTaskIds
  remainingTries := task.remainingTries
  output := task.output.map (·.values)
  errorMessage := task.errorMessage
  startedAt := task.startedAt
  completedAt := task.completedAt

def workflowToModel (workflow : WorkflowExecution) : WorkflowExecutionModel where
  workflowDefinitionId := workflow.workflowDefinitionId
  status := workflow.status
  createdAt := workflow.createdAt
  startedAt := workflow.startedAt
  completedAt := workflow.completedAt

def outputToDomain (output : JsonObject) : TaskOutput := { values := output }

/-- The rows of a workflow execution: its own and its tasks', in their order. -/
def workflowToRows (workflow : WorkflowExecution) : List (Sigma Row) :=
  ⟨.workflow workflow.id, workflowToModel workflow⟩ ::
    workflow.taskExecutions.map fun task => ⟨.task task.id, taskToModel task⟩

end WorkflowExecutionMapper

/-! ### Operation models -/

structure CompleteTaskExecutionRequest where
  taskExecutionId : UUID
  output : TaskOutput
  completedAt : Datetime

structure RetryTaskExecutionRequest where
  taskExecutionId : UUID
  errorMessage : Option String
  completedAt : Datetime

structure StartTaskExecutionResult where
  pluginType : String
  configuration : JsonObject
  parentOutputs : List (String × TaskOutput)

structure CompleteTaskExecutionResult where
  runnableTaskExecutionIds : List UUID
  workflowCompleted : Bool

structure RetryTaskExecutionResult where
  shouldRetry : Bool
  workflowFailed : Bool
  deriving DecidableEq

structure CompleteTaskExecutionHelperResult where
  succeeded : Bool
  childTaskIds : List UUID
  workflowExecutionId : Option UUID

structure RetryTaskExecutionHelperResult where
  succeeded : Bool
  shouldRetry : Bool
  workflowExecutionId : Option UUID

/-- Assignment to a key of a `dict`, which keeps the place of a key it already has. -/
def dictSet {β : Type} (d : List (String × β)) (key : String) (value : β) : List (String × β) :=
  if d.any (·.1 == key) then d.map fun e => if e.1 == key then (key, value) else e
  else d ++ [(key, value)]

/-- `repr` of a string without quotes, backslashes and control characters. -/
def pyRepr (s : String) : String := "'" ++ s ++ "'"

namespace WorkflowExecutionRepository

/-! ### The conditional updates -/

/-- `UPDATE task_executions SET .. WHERE id = .. AND ..` -/
def updateTask (id : UUID) (cond : TaskExecutionModel → Bool)
    (set : TaskExecutionModel → TaskExecutionModel) : Sql.RowUpdate RowId Row where
  key := .task id
  subquery := fun _ => true
  cond := cond
  set := set

/-- `UPDATE workflow_executions SET .. WHERE id = .. AND status = 'RUNNING' AND ..` -/
def updateRunningWorkflow (id : UUID) (subquery : ExecutionStore → Bool)
    (set : WorkflowExecutionModel → WorkflowExecutionModel) : Sql.RowUpdate RowId Row where
  key := .workflow id
  subquery := subquery
  cond := fun w => w.status == .running
  set := set

/-- The update of `start_task`. -/
def startUpdate (taskExecutionId : UUID) (startedAt : Datetime) : Sql.RowUpdate RowId Row :=
  updateTask taskExecutionId (fun t => t.status == .pending)
    fun t => { t with status := .running, startedAt := some startedAt }

/-- The update of `_complete_task`. -/
def completeUpdate (request : CompleteTaskExecutionRequest) : Sql.RowUpdate RowId Row :=
  updateTask request.taskExecutionId (fun t => t.status == .running)
    fun t => { t with
      status := .completed
      output := some request.output.values
      completedAt := some request.completedAt }

/-- The update of `_update_child_dependencies`, for one child. -/
def childUpdate (childId : UUID) : Sql.RowUpdate RowId Row :=
  updateTask childId (fun t => t.status == .pending && decide (0 < t.remainingDependencies))
    fun t => { t with remainingDependencies := t.remainingDependencies - 1 }

/-- `NOT EXISTS` a task execution of the workflow that is not completed. -/
def noneUnfinished (workflowExecutionId : UUID) (s : ExecutionStore) : Bool :=
  !(taskTable s).any fun e =>
    e.2.workflowExecutionId == workflowExecutionId && e.2.status != .completed

/-- The update of `_complete_workflow_if_finished`. -/
def finishUpdate (workflowExecutionId : UUID) (completedAt : Datetime) :
    Sql.RowUpdate RowId Row :=
  updateRunningWorkflow workflowExecutionId (noneUnfinished workflowExecutionId)
    fun w => { w with status := .completed, completedAt := some completedAt }

/-- The update of `_retry_task`; its expressions all read the old `remaining_tries`. -/
def retryUpdate (request : RetryTaskExecutionRequest) : Sql.RowUpdate RowId Row :=
  updateTask request.taskExecutionId
    (fun t => t.status == .running && decide (0 < t.remainingTries))
    fun t => { t with
      remainingTries := t.remainingTries - 1
      status := if 1 < t.remainingTries then .running else .failed
      errorMessage := request.errorMessage
      completedAt := if 1 < t.remainingTries then none else some request.completedAt }

/-- The first update of `_fail_workflow`. -/
def failUpdate (workflowExecutionId : UUID) (completedAt : Datetime) : Sql.RowUpdate RowId Row :=
  updateRunningWorkflow workflowExecutionId (fun _ => true)
    fun w => { w with status := .failed, completedAt := some completedAt }

/-- The second update of `_fail_workflow`, over every row of the workflow's tasks. -/
def cancelUpdate (workflowExecutionId : UUID) (completedAt : Datetime) :
    Sql.BulkUpdate RowId Row where
  cond := fun
    | .task _, t => t.workflowExecutionId == workflowExecutionId &&
        (t.status == .pending || t.status == .running)
    | .workflow _, _ => false
  set := fun
    | .task _, t => { t with status := .cancelled, completedAt := some completedAt }
    | .workflow _, w => w

/-! ### Creating -/

/-- `INSERT` a workflow execution with its tasks; `none` when a primary key is taken. -/
def create (s : ExecutionStore) (workflow : WorkflowExecution) : Option ExecutionStore :=
  s.insert? (WorkflowExecutionMapper.workflowToRows workflow)

/-! ### Reading -/

/-- Identifiers of the runnable task executions. -/
def findRunnableIds : Session (List UUID) :=
  .select fun s => ((taskTable s).filter fun e =>
    e.2.status == .pending && e.2.remainingDependencies == 0).map (·.1)

/-- The loop of `_load_parent_outputs`: the outputs by key, or the key of a parent without one. -/
def collectOutputs : List (String × TaskOutput) → List TaskExecutionModel →
    Except String (List (String × TaskOutput))
  | outputs, [] => .ok outputs
  | outputs, parent :: rest =>
      match parent.output with
      | none => .error parent.key
      | some output =>
          collectOutputs (dictSet outputs parent.key (WorkflowExecutionMapper.outputToDomain output))
            rest

/-- The parents' rows, as `SELECT .. WHERE id IN (..)` finds them. -/
def parentModels (s : ExecutionStore) (parentTaskIds : List UUID) : List TaskExecutionModel :=
  ((taskTable s).filter fun e => e.1 ∈ parentTaskIds).map (·.2)

/-- Outputs of the parent task executions, by their keys. -/
def loadParentOutputs (parentTaskIds : List UUID) : Session (List (String × TaskOutput)) :=
  if parentTaskIds = [] then pure []
  else .query fun s =>
    match collectOutputs [] (parentModels s parentTaskIds) with
    | .ok outputs => .done outputs
    | .error key => .raise ("Parent task " ++ pyRepr key ++ " does not have an output.")

/-! ### Transitions -/

/-- Start or resume processing a task execution. -/
def startTask (taskExecutionId : UUID) (startedAt : Datetime) :
    Session (Option StartTaskExecutionResult) := do
  let _ ← .update (startUpdate taskExecutionId startedAt)
  let taskModel ← .select fun s =>
    (taskRow s taskExecutionId).filter fun t => t.status == .running
  match taskModel with
  | none => pure none
  | some t =>
      let parentOutputs ← loadParentOutputs t.parentTaskIds
      pure (some
        { pluginType := t.pluginType
          configuration := t.configuration
          parentOutputs := parentOutputs })

/-- Mark a task execution as completed. -/
def completeTaskHelper (request : CompleteTaskExecutionRequest) :
    Session CompleteTaskExecutionHelperResult := do
  match ← .update (completeUpdate request) with
  | none => pure { succeeded := false, childTaskIds := [], workflowExecutionId := none }
  | some row =>
      pure
        { succeeded := true
          childTaskIds := row.childTaskIds
          workflowExecutionId := some row.workflowExecutionId }

/-- One round of the loop of `_update_child_dependencies`. -/
def releaseChild (runnable : List UUID) (childId : UUID) : Session (List UUID) := do
  match ← .update (childUpdate childId) with
  | none => pure runnable
  | some row =>
      if row.remainingDependencies = 0 then pure (runnable ++ [childId]) else pure runnable

/-- Decrement the children's counters and return the children that became runnable. -/
def updateChildDependencies (childTaskIds : List UUID) : Session (List UUID) :=
  childTaskIds.foldlM releaseChild []

/-- Complete the workflow execution if all its task executions are completed. -/
def completeWorkflowIfFinished (workflowExecutionId : Option UUID) (completedAt : Datetime) :
    Session Bool := do
  match workflowExecutionId with
  | none => pure false  -- `id = NULL` selects no row
  | some id =>
      let row ← .update (finishUpdate id completedAt)
      pure row.isSome

/-- Complete a task execution, release its children and complete its workflow. -/
def completeTask (request : CompleteTaskExecutionRequest) :
    Session CompleteTaskExecutionResult := do
  let result ← completeTaskHelper request
  if result.succeeded then
    let runnable ← updateChildDependencies result.childTaskIds
    let completed ← completeWorkflowIfFinished result.workflowExecutionId request.completedAt
    pure { runnableTaskExecutionIds := runnable, workflowCompleted := completed }
  else
    pure { runnableTaskExecutionIds := [], workflowCompleted := false }

/-- Consume one try of a running task execution. -/
def retryTaskHelper (request : RetryTaskExecutionRequest) :
    Session RetryTaskExecutionHelperResult := do
  match ← .update (retryUpdate request) with
  | none => pure { succeeded := false, shouldRetry := false, workflowExecutionId := none }
  | some row =>
      pure
        { succeeded := true
          shouldRetry := decide (0 < row.remainingTries)
          workflowExecutionId := some row.workflowExecutionId }

/-- Fail a running workflow execution and cancel what is left of it. -/
def failWorkflow (workflowExecutionId : Option UUID) (completedAt : Datetime) :
    Session Bool := do
  match workflowExecutionId with
  | none => pure false  -- `id = NULL` selects no row
  | some id =>
      match ← .update (failUpdate id completedAt) with
      | none => pure false
      | some _ =>
          .updateAll (cancelUpdate id completedAt)
          pure true

/-- Retry a running task execution, or fail it and its workflow. -/
def retryTask (request : RetryTaskExecutionRequest) : Session RetryTaskExecutionResult := do
  let result ← retryTaskHelper request
  if !result.succeeded then
    pure { shouldRetry := false, workflowFailed := false }
  else if result.shouldRetry then
    pure { shouldRetry := true, workflowFailed := false }
  else
    let workflowFailed ← failWorkflow result.workflowExecutionId request.completedAt
    pure { shouldRetry := false, workflowFailed := workflowFailed }

end WorkflowExecutionRepository

/-! ### Calls

The three transitions as one type, for systems in which any session may make any of
them, on any identifier and with any arguments.
-/

/-- A call of one of the transitions. -/
inductive Call where
  | startTask (taskExecutionId : UUID) (startedAt : Datetime)
  | completeTask (request : CompleteTaskExecutionRequest)
  | retryTask (request : RetryTaskExecutionRequest)

/-- What a call returns. -/
inductive CallResult where
  | started (result : Option StartTaskExecutionResult)
  | completed (result : CompleteTaskExecutionResult)
  | retried (result : RetryTaskExecutionResult)

/-- The task execution a call is about. -/
def Call.taskExecutionId : Call → UUID
  | .startTask id _ => id
  | .completeTask request => request.taskExecutionId
  | .retryTask request => request.taskExecutionId

/-- The transaction body of a call. -/
def Call.body : Call → Session CallResult
  | .startTask id startedAt => do
      pure (.started (← WorkflowExecutionRepository.startTask id startedAt))
  | .completeTask request => do
      pure (.completed (← WorkflowExecutionRepository.completeTask request))
  | .retryTask request => do
      pure (.retried (← WorkflowExecutionRepository.retryTask request))

/-- The database of executions with any number of sessions on it. -/
abbrev ExecutionDb := Sql.Db RowId Row Call CallResult

end AutomationPlatform
