/-
The HTTP API: three routes, each of them a call of an application service.

A handler puts what its service returns into a response.  An exception of the application is
answered by the handler that is registered for its class.  Any other leaves the application, and
the server answers it with 500 and a text of its own.

A body or a path the framework refuses never gets to a handler, and is not here.  What a request
leaves out has its default when it does.

A definition is stored through the driver and into an index.  A statement of `create` that binds
too many parameters, or a key that is too long, is refused like a value that does not fit.
-/
import AutomationPlatform.Application.WorkflowDefinitions
import AutomationPlatform.Application.WorkflowExecutionQuery
import AutomationPlatform.Runtime.Reconciler

namespace AutomationPlatform

/-! ### Schemas -/

structure CreateTaskDefinitionRequest where
  pluginType : String
  key : String
  configuration : JsonObject := []
  dependencies : List String := []
  maxTries : Int

structure CreateTriggerDefinitionRequest where
  pluginType : String
  configuration : JsonObject := []
  enabled : Bool

structure CreateWorkflowDefinitionRequest where
  name : String
  description : String
  tasks : List CreateTaskDefinitionRequest
  triggers : List CreateTriggerDefinitionRequest
  enabled : Bool

/-- Convert the HTTP model into an application request model. -/
def CreateWorkflowDefinitionRequest.toApplicationModel (request : CreateWorkflowDefinitionRequest) :
    CreateWorkflowDefinition where
  name := request.name
  description := request.description
  tasks := request.tasks.map fun task =>
    { pluginType := task.pluginType
      key := task.key
      configuration := task.configuration
      dependencies := task.dependencies
      maxTries := task.maxTries }
  triggers := request.triggers.map fun trigger =>
    { pluginType := trigger.pluginType
      configuration := trigger.configuration
      enabled := trigger.enabled }
  enabled := request.enabled

def TaskStatus.name : TaskStatus → String
  | .pending => "PENDING"
  | .running => "RUNNING"
  | .completed => "COMPLETED"
  | .failed => "FAILED"
  | .cancelled => "CANCELLED"

def WorkflowStatus.name : WorkflowStatus → String
  | .running => "RUNNING"
  | .completed => "COMPLETED"
  | .failed => "FAILED"
  | .cancelled => "CANCELLED"

/-- HTTP representation of a task execution. -/
structure TaskExecutionResponse where
  id : UUID
  taskDefinitionId : UUID
  key : String
  pluginType : String
  status : String
  output : Option JsonObject
  errorMessage : Option String
  startedAt : Option Datetime
  completedAt : Option Datetime

def TaskExecutionResponse.fromDomain (taskExecution : TaskExecution) : TaskExecutionResponse where
  id := taskExecution.id
  taskDefinitionId := taskExecution.taskDefinitionId
  key := taskExecution.key
  pluginType := taskExecution.pluginType
  status := taskExecution.status.name
  output := taskExecution.output.map (·.values)
  errorMessage := taskExecution.errorMessage
  startedAt := taskExecution.startedAt
  completedAt := taskExecution.completedAt

/-- HTTP representation of a workflow execution. -/
structure GetWorkflowExecutionResponse where
  id : UUID
  workflowDefinitionId : UUID
  status : String
  taskExecutions : List TaskExecutionResponse
  createdAt : Datetime
  startedAt : Option Datetime
  completedAt : Option Datetime

def GetWorkflowExecutionResponse.fromDomain (workflowExecution : WorkflowExecution) :
    GetWorkflowExecutionResponse where
  id := workflowExecution.id
  workflowDefinitionId := workflowExecution.workflowDefinitionId
  status := workflowExecution.status.name
  taskExecutions := workflowExecution.taskExecutions.map TaskExecutionResponse.fromDomain
  createdAt := workflowExecution.createdAt
  startedAt := workflowExecution.startedAt
  completedAt := workflowExecution.completedAt

/-! ### Responses -/

inductive Content where
  | createWorkflowDefinition (workflowDefinitionId : UUID)
  | startWorkflow (workflowExecutionId : UUID)
  | getWorkflowExecution (response : GetWorkflowExecutionResponse)
  | error (error detail : String)
  /-- What the server says of an exception that left the application. -/
  | internalServerError

structure Response where
  statusCode : Nat
  content : Content

/-- The handler registered for a class of exceptions: its status code and its error. -/
def exceptionHandler : ExceptionClass → Option (Nat × String)
  | .invalidWorkflowDefinition => some (400, "invalid_workflow_definition")
  | .workflowDefinitionNotFound => some (404, "workflow_definition_not_found")
  | .workflowDefinitionDisabled => some (409, "workflow_definition_disabled")
  | _ => none

/-- The answer to a request whose handler has raised. -/
def handleException (exc : Raised) : Response :=
  match exceptionHandler exc.class_ with
  | some (statusCode, error) => { statusCode, content := .error error exc.message }
  | none => { statusCode := 500, content := .internalServerError }

/-- The one exception of a query. -/
def handleWorkflowExecutionNotFound (message : String) : Response where
  statusCode := 404
  content := .error "workflow_execution_not_found" message

/-! ### Creating through the driver -/

/-- The keys that the index of their unique constraint takes.  An entry of it has 2704 bytes, 2676 of
them for the key, and a key that is longer is taken if it can be compressed so far. -/
structure KeyIndex where
  takes : String → Bool
  short : ∀ key : String, key.utf8ByteSize ≤ 2676 → takes key = true

/-- An index that compresses nothing. -/
def KeyIndex.uncompressed : KeyIndex where
  takes := fun key => key.utf8ByteSize ≤ 2676
  short := fun _ h => decide_eq_true h

namespace WorkflowDefinitionService

/-- The statements of `create` can be carried out: `NOT IN` binds a parameter for every task, or
every trigger, beside the one for the definition. -/
def carriedOut (index : KeyIndex) (request : CreateWorkflowDefinition) : Bool :=
  request.tasks.length + 1 ≤ PostgresExecutionQueue.maxParameters &&
    request.triggers.length + 1 ≤ PostgresExecutionQueue.maxParameters &&
    request.tasks.all fun task => index.takes task.key

/-- `create` through the driver.  What is refused for another reason is refused as it would be. -/
def createThroughDriver (index : KeyIndex) (draws : DefinitionDraws) (now : UUID → Datetime)
    (db : Database) (request : CreateWorkflowDefinition) : Except Raised (UUID × Database) := do
  let created ← create .discovered .discovered draws now db request
  if carriedOut index request then pure created else .error { class_ := .operational }

end WorkflowDefinitionService

/-! ### Routes -/

/-- `POST /workflow-definitions` -/
def createWorkflowDefinition (index : KeyIndex) (draws : DefinitionDraws) (now : UUID → Datetime)
    (db : Database) (request : CreateWorkflowDefinitionRequest) : Response × Database :=
  match WorkflowDefinitionService.createThroughDriver index draws now db
      request.toApplicationModel with
  | .ok (workflowDefinitionId, db') =>
      ({ statusCode := 201, content := .createWorkflowDefinition workflowDefinitionId }, db')
  | .error exc => (handleException exc, db)

/-- `POST /workflow-definitions/{workflow_definition_id}/start`.  When the queue raises, the
execution is committed. -/
def startWorkflow (draws : Draws) (now enqueuedAt : Datetime) (db : Database)
    (queue : ExecutionQueue) (workflowDefinitionId : UUID) : Response × Database × ExecutionQueue :=
  match WorkflowStartService.startAndCommit db draws now workflowDefinitionId with
  | .error exc => (handleException exc, db, queue)
  | .ok (db', workflowExecution, rootTaskIds) =>
      match PostgresExecutionQueue.enqueueThroughDriver queue rootTaskIds enqueuedAt with
      | some queue' =>
          ({ statusCode := 201, content := .startWorkflow workflowExecution.id }, db', queue')
      | none => ({ statusCode := 500, content := .internalServerError }, db', queue)

/-- `GET /workflow-executions/{workflow_execution_id}`, when its two statements see these
executions and the second lists the tasks in this order. -/
def getWorkflowExecution (order : Sql.RowOrder (UUID × TaskExecutionModel)) (s₁ s₂ : ExecutionStore)
    (workflowExecutionId : UUID) : Response :=
  match (WorkflowExecutionQueryService.get order workflowExecutionId).reads [s₁, s₂] with
  | some (.ok workflowExecution) =>
      { statusCode := 200
        content := .getWorkflowExecution (.fromDomain workflowExecution) }
  | some (.error message) => handleWorkflowExecutionNotFound message
  | none => { statusCode := 500, content := .internalServerError }  -- there is no third statement

end AutomationPlatform
