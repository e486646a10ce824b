/-
Creating and deleting workflow definitions.

A request names its tasks by key.  Before anything is stored the tasks are validated, one
after the other in the order of the request, and then their dependencies as a graph: tasks
without dependencies are taken off one by one, and what each of them leaves free is taken
off after it.  If tasks are left over, they depend on each other in a circle.

What `uuid4` returned is a parameter: an identifier for the definition, one for every task
key, and one for every trigger by its place in the request.
-/
import AutomationPlatform.Application.ChronologicalTriggers
import AutomationPlatform.Plugins.Tasks

namespace AutomationPlatform

structure CreateTaskDefinition where
  pluginType : String
  key : String
  configuration : JsonObject
  dependencies : List String
  maxTries : Int

structure CreateTriggerDefinition where
  pluginType : String
  configuration : JsonObject
  enabled : Bool

structure CreateWorkflowDefinition where
  name : String
  description : String
  tasks : List CreateTaskDefinition
  triggers : List CreateTriggerDefinition
  enabled : Bool

/-- The identifiers `uuid4` returned while one definition was created. -/
structure DefinitionDraws where
  workflowDefinitionId : UUID
  taskDefinitionId : String → UUID
  triggerDefinitionId : Nat → UUID

namespace TriggerInitializationService

/-- Initialize mechanism-specific state for a trigger definition. -/
def initializeState (triggerPlugin : TriggerPlugin) (triggerDefinition : TriggerDefinition)
    (now : Datetime) (x : DefinitionSession) : Except Raised DefinitionSession :=
  match triggerPlugin.nextOccurrence with
  | some nextOccurrence =>
      ChronologicalTriggerService.initializeState nextOccurrence triggerDefinition now x
  | none => pure x

end TriggerInitializationService

namespace WorkflowDefinitionService

def invalid (message : String) : Raised where
  class_ := .invalidWorkflowDefinition
  message := message

/-! ### The dependency graph -/

/-- The state of the loop of `_has_dependency_cycle`. -/
structure Elimination where
  remainingDependencies : Dict String Int
  /-- The end of the source's list, where it is changed, is the head here. -/
  ready : List String
  processed : Nat

/-- `children[dependency].append(task.key)`. -/
def appendChild (taskKey : String) (children : Dict String (List String)) (dependency : String) :
    Except Raised (Dict String (List String)) := do
  let keys ← children.get dependency
  pure (children.put dependency (keys ++ [taskKey]))

def appendToParents (children : Dict String (List String)) (task : CreateTaskDefinition) :
    Except Raised (Dict String (List String)) :=
  task.dependencies.foldlM (appendChild task.key) children

/-- One dependency of a child is met. -/
def decrement (x : Elimination) (child : String) : Except Raised Elimination := do
  let count ← x.remainingDependencies.get child
  pure
    { x with
      remainingDependencies := x.remainingDependencies.put child (count - 1)
      ready := if count - 1 = 0 then child :: x.ready else x.ready }

/-- `while ready`, for at most so many rounds. -/
def eliminate (children : Dict String (List String)) : Nat → Elimination → Except Raised Elimination
  | 0, x => pure x
  | rounds + 1, x =>
      match x.ready with
      | [] => pure x
      | key :: ready => do
          let keys ← children.get key
          let x ← keys.foldlM decrement { x with ready := ready, processed := x.processed + 1 }
          eliminate children rounds x

/-- The counts and the tasks without dependencies, before the loop. -/
def startElimination (tasks : List CreateTaskDefinition) : Elimination :=
  let remainingDependencies : Dict String Int :=
    .ofList (tasks.map fun task => (task.key, (task.dependencies.length : Int)))
  { remainingDependencies
    ready := (remainingDependencies.keys.filter fun key =>
      remainingDependencies.row key = some 0).reverse
    processed := 0 }

/-- The child keys of every task. -/
def childKeys (tasks : List CreateTaskDefinition) : Except Raised (Dict String (List String)) :=
  tasks.foldlM appendToParents (.ofList (tasks.map fun task => (task.key, [])))

/-- Determine whether the task dependency graph contains a cycle.  No key gets ready twice, so
there are not more rounds than tasks. -/
def hasDependencyCycle (tasks : List CreateTaskDefinition) : Except Raised Bool := do
  let children ← childKeys tasks
  let x ← eliminate children tasks.length (startElimination tasks)
  pure (x.processed != tasks.length)

/-! ### Validation -/

/-- A plugin's verdict on a configuration, or the error the service makes of it. -/
def validateConfiguration (verdict : Except Raised Unit) (what key : String) : Except Raised Unit :=
  match verdict with
  | .ok () => .ok ()
  | .error exc =>
      if exc.class_ = .invalidPluginConfiguration then
        .error (invalid ("Invalid configuration for " ++ what ++ " " ++ reprText key ++ ": " ++
          exc.message))
      else .error exc

/-- A dependency is the key of a task. -/
def validateDependency (seenKeys : List String) (key dependency : String) : Except Raised Unit :=
  if dependency ∈ seenKeys then .ok ()
  else .error (invalid ("Task " ++ reprText key ++ " references unknown dependency " ++
    reprText dependency ++ "."))

/-- The checks of one task, in their order. -/
def validateTask (registry : TaskRegistry) (seenKeys : List String) (task : CreateTaskDefinition) :
    Except Raised Unit :=
  if task.maxTries < 1 then
    .error (invalid ("Task " ++ reprText task.key ++ " has no available max tries: " ++
      toString task.maxTries ++ "."))
  else if registry.contains task.pluginType = false then
    .error (invalid ("Unknown task plugin type: " ++ reprText task.pluginType ++ "."))
  else do
    validateConfiguration
      (do (← registry.get task.pluginType).validateConfiguration task.configuration) "task" task.key
    if task.key ∈ task.dependencies then
      .error (invalid ("Task " ++ reprText task.key ++ " depends on self."))
    else if task.dependencies.length ≠ task.dependencies.dedup.length then
      .error (invalid ("Task " ++ reprText task.key ++ " has duplicate dependencies."))
    else task.dependencies.forM (validateDependency seenKeys task.key)

/-- Validate task definitions and their dependency graph. -/
def validateTasks (registry : TaskRegistry) (tasks : List CreateTaskDefinition) :
    Except Raised Unit :=
  let seenKeys := (tasks.map (·.key)).dedup
  if tasks = [] then
    .error (invalid "Workflow definition must contain at least one task.")
  else if seenKeys.length ≠ tasks.length then
    .error (invalid "Task keys are not all unique in workflow.")
  else do
    tasks.forM (validateTask registry seenKeys)
    let cyclic ← hasDependencyCycle tasks
    if cyclic then .error (invalid "Task dependency graph contains a cycle.") else .ok ()

/-! ### Creation and deletion -/

/-- Domain task definitions with resolved dependency identifiers. -/
def createTaskDefinitions (draws : DefinitionDraws) (tasks : List CreateTaskDefinition) :
    Except Raised (List TaskDefinition) :=
  let taskIds : Dict String UUID :=
    .ofList (tasks.map fun task => (task.key, draws.taskDefinitionId task.key))
  tasks.mapM fun task => do
    let id ← taskIds.get task.key
    let dependencies ← task.dependencies.mapM taskIds.get
    pure
      { id := id
        pluginType := task.pluginType
        key := task.key
        configuration := task.configuration
        dependencies := dependencies
        maxTries := task.maxTries }

/-- Validate one trigger input and create its domain definition. -/
def createTriggerDefinition (registry : TriggerRegistry) (draws : DefinitionDraws)
    (trigger : CreateTriggerDefinition × Nat) : Except Raised (TriggerDefinition × TriggerPlugin) :=
  if registry.contains trigger.1.pluginType = false then
    .error (invalid ("Unknown trigger plugin type: " ++ reprText trigger.1.pluginType ++ "."))
  else do
    validateConfiguration
      (do (← registry.get trigger.1.pluginType).validateConfiguration trigger.1.configuration)
      "trigger" trigger.1.pluginType
    let plugin ← registry.get trigger.1.pluginType
    pure
      ({ id := draws.triggerDefinitionId trigger.2
         pluginType := trigger.1.pluginType
         configuration := trigger.1.configuration
         enabled := trigger.1.enabled }, plugin)

/-- Validate trigger inputs and create their domain definitions. -/
def createTriggerDefinitions (registry : TriggerRegistry) (draws : DefinitionDraws)
    (triggers : List CreateTriggerDefinition) :
    Except Raised (List (TriggerDefinition × TriggerPlugin)) :=
  triggers.zipIdx.mapM (createTriggerDefinition registry draws)

/-- Create and persist a workflow definition.  `now` is what the clock says when the state of a
trigger is initialized. -/
def create (taskRegistry : TaskRegistry) (triggerRegistry : TriggerRegistry)
    (draws : DefinitionDraws) (now : UUID → Datetime) (db : Database)
    (request : CreateWorkflowDefinition) : Except Raised (UUID × Database) := do
  validateTasks taskRegistry request.tasks
  let taskDefinitions ← createTaskDefinitions draws request.tasks
  let resolvedTriggers ← createTriggerDefinitions triggerRegistry draws request.triggers
  let workflowDefinition : WorkflowDefinition :=
    { id := draws.workflowDefinitionId
      name := request.name
      description := request.description
      taskDefinitions := taskDefinitions
      triggerDefinitions := resolvedTriggers.map (·.1)
      enabled := request.enabled }
  let x ← databaseError
    (WorkflowDefinitionRepository.save db.executions { store := db.definitions } workflowDefinition)
  let x ← databaseError (x.flush (definitionSchema db.executions))
  let x ← resolvedTriggers.foldlM (fun x trigger =>
    TriggerInitializationService.initializeState trigger.2 trigger.1 (now trigger.1.id) x) x
  let definitions ← databaseError (x.commit (definitionSchema db.executions))
  pure (workflowDefinition.id, { db with definitions := definitions })

/-- Delete a workflow definition. -/
def delete (db : Database) (workflowDefinitionId : UUID) : Except Raised Database := do
  let x ← databaseError
    (WorkflowDefinitionRepository.delete db.executions { store := db.definitions }
      workflowDefinitionId)
  let definitions ← databaseError (x.commit (definitionSchema db.executions))
  pure { db with definitions := definitions }

end WorkflowDefinitionService

end AutomationPlatform
