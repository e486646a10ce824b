/-
Persisted workflow definitions.

Five tables, all reached through one type of primary keys.  The state of a
chronological trigger has its own repository and is in the schema here because its
foreign key is.  The tables of the executions refer to definitions too, so what may be
deleted here depends on what is stored there.

A value that does not fit its column is refused.  One that fits is read as it was written; of a
float `JSONB` keeps the number, and may write it in another way.  Of the lengths of texts and of
values nothing is said here, nor of how many parameters a statement may have: the `NOT IN` of a
deletion binds one for every task or trigger of the definition, and the driver takes 65535.

`load` reads the rows of one definition.  No statement of it is ordered, so tasks,
dependencies and triggers come in the order of the scan.  `save` writes a definition
over whatever is stored under its identifier, task by task and trigger by trigger.
`delete` marks a definition, its tasks and its triggers; the mapper deletes what has a
foreign key before what the key refers to.
-/
import AutomationPlatform.Exceptions
import AutomationPlatform.Persistence.WorkflowExecutions
import AutomationPlatform.Sql.Schema

namespace AutomationPlatform

/-! ### Rows -/

structure WorkflowDefinitionModel where
  name : String
  description : String
  enabled : Bool

structure TaskDefinitionModel where
  workflowDefinitionId : UUID
  key : String
  pluginType : String
  configuration : JsonObject
  maxTries : Int

structure TriggerDefinitionModel where
  workflowDefinitionId : UUID
  pluginType : String
  configuration : JsonObject
  enabled : Bool

structure ChronologicalTriggerStateModel where
  nextRunAt : Datetime
  deriving DecidableEq

/-- A primary key of one of the tables. -/
inductive DefinitionRowId where
  | workflow (id : UUID)
  | task (id : UUID)
  | dependency (taskDefinitionId dependsOnTaskDefinitionId : UUID)
  | trigger (id : UUID)
  | chronologicalTriggerState (triggerDefinitionId : UUID)
  deriving DecidableEq, Repr

/-- The row under a key; all columns of a dependency are in its key. -/
abbrev DefinitionRow : DefinitionRowId → Type
  | .workflow _ => WorkflowDefinitionModel
  | .task _ => TaskDefinitionModel
  | .dependency _ _ => Unit
  | .trigger _ => TriggerDefinitionModel
  | .chronologicalTriggerState _ => ChronologicalTriggerStateModel

abbrev DefinitionStore := Sql.Store DefinitionRowId DefinitionRow

abbrev DefinitionSession := Sql.OrmSession DefinitionRowId DefinitionRow

def workflowDefinitionRow (s : DefinitionStore) (id : UUID) : Option WorkflowDefinitionModel :=
  s.row (.workflow id)

def taskDefinitionRow (s : DefinitionStore) (id : UUID) : Option TaskDefinitionModel :=
  s.row (.task id)

def triggerDefinitionRow (s : DefinitionStore) (id : UUID) : Option TriggerDefinitionModel :=
  s.row (.trigger id)

def triggerStateRow (s : DefinitionStore) (id : UUID) : Option ChronologicalTriggerStateModel :=
  s.row (.chronologicalTriggerState id)

/-- The column `workflow_definition_id` of the workflow executions. -/
def executedWorkflows (executions : ExecutionStore) : List UUID :=
  executions.scan fun
    | .workflow _, w => some w.workflowDefinitionId
    | .task _, _ => none

/-- The column `task_definition_id` of the task executions. -/
def executedTasks (executions : ExecutionStore) : List UUID :=
  executions.scan fun
    | .workflow _, _ => none
    | .task _, t => some t.taskDefinitionId

/-! ### What a column takes -/

/-- The range of the type `Integer`. -/
def fitsInteger (n : Int) : Bool := -2147483648 ≤ n && n ≤ 2147483647

/-- A text of PostgreSQL has no NUL. -/
def fitsText (text : String) : Bool := text.toList.all (·.toNat != 0)

mutual

/-- A `JSONB` column takes the values of JSON.  Its strings are texts, and what `json.dumps`
writes for a float that is no number is not JSON. -/
def Json.fits : Json → Bool
  | .null | .bool _ | .int _ => true
  | .float text => text != "NaN" && text != "Infinity" && text != "-Infinity"
  | .str s => fitsText s
  | .list items => fitsItems items
  | .dict fields => fitsJsonb fields

def fitsItems : List Json → Bool
  | [] => true
  | item :: rest => item.fits && fitsItems rest

def fitsJsonb : JsonObject → Bool
  | [] => true
  | (key, value) :: rest => fitsText key && value.fits && fitsJsonb rest

end

example : fitsJsonb [("value", .list [.int 7, .float "NaN"])] = false := by decide

def WorkflowDefinitionModel.fits (model : WorkflowDefinitionModel) : Bool :=
  fitsText model.name && fitsText model.description

def TaskDefinitionModel.fits (model : TaskDefinitionModel) : Bool :=
  fitsText model.key && fitsText model.pluginType && fitsJsonb model.configuration &&
    fitsInteger model.maxTries

def TriggerDefinitionModel.fits (model : TriggerDefinitionModel) : Bool :=
  fitsText model.pluginType && fitsJsonb model.configuration

/-- Foreign keys, also those of the executions; the unique constraint on the task keys of a
workflow; the cascade; what the columns take. -/
def definitionSchema (executions : ExecutionStore) :
    Sql.Schema DefinitionRowId DefinitionRow (UUID × String) where
  references := fun
    | .workflow _, _ => []
    | .task _, t => [.workflow t.workflowDefinitionId]
    | .dependency task dependsOn, _ => [.task task, .task dependsOn]
    | .trigger _, t => [.workflow t.workflowDefinitionId]
    | .chronologicalTriggerState id, _ => [.trigger id]
  unique := fun
    | .task _, t => some (t.workflowDefinitionId, t.key)
    | _, _ => none
  cascades := fun
    | .chronologicalTriggerState _ => true
    | _ => false
  pinned := fun
    | .workflow id => (executedWorkflows executions).contains id
    | .task id => (executedTasks executions).contains id
    | _ => false
  fits := fun
    | .workflow _, w => w.fits
    | .task _, t => t.fits
    | .dependency _ _, _ => true
    | .trigger _, t => t.fits
    | .chronologicalTriggerState _, _ => true

namespace definitionSchema

variable (executions : ExecutionStore)

@[simp] theorem references_workflow (i : UUID) (w : WorkflowDefinitionModel) :
    (definitionSchema executions).references (.workflow i) w = [] := rfl

@[simp] theorem references_task (i : UUID) (t : TaskDefinitionModel) :
    (definitionSchema executions).references (.task i) t = [.workflow t.workflowDefinitionId] := rfl

@[simp] theorem references_dependency (a b : UUID) (v : Unit) :
    (definitionSchema executions).references (.dependency a b) v = [.task a, .task b] := rfl

@[simp] theorem references_trigger (i : UUID) (t : TriggerDefinitionModel) :
    (definitionSchema executions).references (.trigger i) t = [.workflow t.workflowDefinitionId] := rfl

@[simp] theorem references_state (i : UUID) (v : ChronologicalTriggerStateModel) :
    (definitionSchema executions).references (.chronologicalTriggerState i) v = [.trigger i] := rfl

/-- Only task rows have a value under a unique constraint. -/
theorem unique_eq_some {k : DefinitionRowId} {v : DefinitionRow k} {value : UUID × String}
    (h : (definitionSchema executions).unique k v = some value) :
    ∃ (i : UUID) (t : TaskDefinitionModel), (⟨k, v⟩ : Sigma DefinitionRow) = ⟨.task i, t⟩ ∧
      value = (t.workflowDefinitionId, t.key) := by
  cases k with
  | task i => exact ⟨i, v, rfl, (Option.some.inj h).symm⟩
  | workflow => simp [definitionSchema] at h
  | dependency => simp [definitionSchema] at h
  | trigger => simp [definitionSchema] at h
  | chronologicalTriggerState => simp [definitionSchema] at h

/-- Nothing that cascades is referred to. -/
theorem shallow {k j : DefinitionRowId} {v : DefinitionRow k}
    (h : j ∈ (definitionSchema executions).references k v) :
    (definitionSchema executions).cascades j = false := by
  cases j with
  | chronologicalTriggerState => cases k <;> simp at h
  | workflow => rfl
  | task => rfl
  | dependency => rfl
  | trigger => rfl

end definitionSchema

/-- A refused statement, as the driver reports it. -/
def databaseError {α : Type} : Except Sql.Violation α → Except Raised α
  | .ok a => .ok a
  | .error .data => .error { class_ := .data }
  | .error .stale => .error { class_ := .staleData }
  | .error _ => .error { class_ := .integrity }

theorem databaseError_ok_iff {α : Type} {x : Except Sql.Violation α} {a : α} :
    databaseError x = .ok a ↔ x = .ok a := by
  cases x with
  | ok b => simp [databaseError]
  | error e => cases e <;> simp [databaseError]

/-! ### Mapping -/

namespace WorkflowDefinitionMapper

def workflowToModel (workflow : WorkflowDefinition) : WorkflowDefinitionModel where
  name := workflow.name
  description := workflow.description
  enabled := workflow.enabled

def workflowToDomain (id : UUID) (model : WorkflowDefinitionModel)
    (taskDefinitions : List TaskDefinition) (triggerDefinitions : List TriggerDefinition) :
    WorkflowDefinition where
  id := id
  name := model.name
  description := model.description
  enabled := model.enabled
  taskDefinitions := taskDefinitions
  triggerDefinitions := triggerDefinitions

def taskToModel (workflowDefinitionId : UUID) (task : TaskDefinition) : TaskDefinitionModel where
  workflowDefinitionId := workflowDefinitionId
  key := task.key
  pluginType := task.pluginType
  configuration := task.configuration
  maxTries := task.maxTries

def taskToDomain (id : UUID) (model : TaskDefinitionModel) (dependencyIds : List UUID) :
    TaskDefinition where
  id := id
  key := model.key
  pluginType := model.pluginType
  configuration := model.configuration
  dependencies := dependencyIds
  maxTries := model.maxTries

def triggerToModel (workflowDefinitionId : UUID) (trigger : TriggerDefinition) :
    TriggerDefinitionModel where
  workflowDefinitionId := workflowDefinitionId
  pluginType := trigger.pluginType
  configuration := trigger.configuration
  enabled := trigger.enabled

def triggerToDomain (id : UUID) (model : TriggerDefinitionModel) : TriggerDefinition where
  id := id
  pluginType := model.pluginType
  configuration := model.configuration
  enabled := model.enabled

def dependencyToModel (taskDefinitionId dependsOnTaskDefinitionId : UUID) :
    Sigma DefinitionRow :=
  ⟨.dependency taskDefinitionId dependsOnTaskDefinitionId, ()⟩

def dependenciesToModels (task : TaskDefinition) : List (Sigma DefinitionRow) :=
  task.dependencies.map (dependencyToModel task.id)

end WorkflowDefinitionMapper

namespace WorkflowDefinitionRepository

/-! ### Loading -/

/-- The dependency rows of a definition: each task with one it depends on. -/
def dependencyRows (s : DefinitionStore) (workflowDefinitionId : UUID) : List (UUID × UUID) :=
  s.scan fun
    | .dependency task dependsOn, _ =>
        if (taskDefinitionRow s task).any (·.workflowDefinitionId = workflowDefinitionId) then
          some (task, dependsOn)
        else none
    | _, _ => none

/-- What `_load_dependency_lookup` has for a task, or no dependencies if it has nothing. -/
def loadDependencies (s : DefinitionStore) (workflowDefinitionId taskId : UUID) : List UUID :=
  ((dependencyRows s workflowDefinitionId).filter (·.1 = taskId)).map (·.2)

def loadTasks (s : DefinitionStore) (workflowDefinitionId : UUID) : List TaskDefinition :=
  s.scan fun
    | .task id, t =>
        if t.workflowDefinitionId = workflowDefinitionId then
          some (WorkflowDefinitionMapper.taskToDomain id t
            (loadDependencies s workflowDefinitionId id))
        else none
    | _, _ => none

def loadTriggers (s : DefinitionStore) (workflowDefinitionId : UUID) : List TriggerDefinition :=
  s.scan fun
    | .trigger id, t =>
        if t.workflowDefinitionId = workflowDefinitionId then
          some (WorkflowDefinitionMapper.triggerToDomain id t)
        else none
    | _, _ => none

/-- Load a workflow definition. -/
def load (s : DefinitionStore) (workflowDefinitionId : UUID) : Option WorkflowDefinition :=
  match workflowDefinitionRow s workflowDefinitionId with
  | none => none
  | some model =>
      some (WorkflowDefinitionMapper.workflowToDomain workflowDefinitionId model
        (loadTasks s workflowDefinitionId) (loadTriggers s workflowDefinitionId))

/-! ### Saving and deleting -/

variable (executions : ExecutionStore)

/-- One round of the loop of `_synchronize_tasks`. -/
def synchronizeTask (workflowDefinitionId : UUID) (x : DefinitionSession) (task : TaskDefinition) :
    Except Sql.Violation DefinitionSession := do
  let x ← x.merge (definitionSchema executions)
    ⟨.task task.id, WorkflowDefinitionMapper.taskToModel workflowDefinitionId task⟩
  let x ← x.executeDelete (definitionSchema executions) fun
    | .dependency taskDefinitionId _, _ => taskDefinitionId = task.id
    | _, _ => false
  (WorkflowDefinitionMapper.dependenciesToModels task).foldlM
    (·.merge (definitionSchema executions) ·) x

/-- Synchronize task definitions and dependencies. -/
def synchronizeTasks (x : DefinitionSession) (workflowDefinition : WorkflowDefinition) :
    Except Sql.Violation DefinitionSession := do
  let x ← x.executeDelete (definitionSchema executions) fun
    | .task id, t =>
        t.workflowDefinitionId = workflowDefinition.id ∧
          id ∉ workflowDefinition.taskDefinitions.map (·.id)
    | _, _ => false
  workflowDefinition.taskDefinitions.foldlM (synchronizeTask executions workflowDefinition.id) x

/-- Synchronize trigger definitions. -/
def synchronizeTriggers (x : DefinitionSession) (workflowDefinition : WorkflowDefinition) :
    Except Sql.Violation DefinitionSession := do
  let x ← x.executeDelete (definitionSchema executions) fun
    | .trigger id, t =>
        t.workflowDefinitionId = workflowDefinition.id ∧
          id ∉ workflowDefinition.triggerDefinitions.map (·.id)
    | _, _ => false
  workflowDefinition.triggerDefinitions.foldlM (fun x trigger =>
    x.merge (definitionSchema executions)
      ⟨.trigger trigger.id,
        WorkflowDefinitionMapper.triggerToModel workflowDefinition.id trigger⟩) x

/-- Persist a workflow definition. -/
def save (x : DefinitionSession) (workflowDefinition : WorkflowDefinition) :
    Except Sql.Violation DefinitionSession := do
  let x ← x.merge (definitionSchema executions)
    ⟨.workflow workflowDefinition.id, WorkflowDefinitionMapper.workflowToModel workflowDefinition⟩
  let x ← synchronizeTasks executions x workflowDefinition
  synchronizeTriggers executions x workflowDefinition

/-- Delete a workflow definition, if there is one. -/
def delete (x : DefinitionSession) (workflowDefinitionId : UUID) :
    Except Sql.Violation DefinitionSession := do
  let x ← x.flush (definitionSchema executions)
  match load x.store workflowDefinitionId with
  | none => pure x
  | some workflowDefinition =>
      pure (x.delete
        (workflowDefinition.taskDefinitions.map (.task ·.id) ++
          workflowDefinition.triggerDefinitions.map (.trigger ·.id) ++
          [.workflow workflowDefinitionId]))

end WorkflowDefinitionRepository

end AutomationPlatform
