/-
The whole system: the definitions, and the platform that executes them.

The API creates definitions and starts workflows, the scheduler starts those that are due,
and workers and the reconciler do the rest.  A definition is written once, by the
transaction that creates it, and is deleted as a whole; so a transaction that has read it
finds it unchanged or, by a foreign key, fails.  That is why a unit of work on the
definitions is one step here, up to its commit.  One that raises leaves everything as it
was.

What `start_and_commit` has to enqueue after its commit waits with its publisher.  The
plugins are those the package holds, and what a worker reports is what its plugin returned.
-/
import AutomationPlatform.Application.WorkflowDefinitions
import AutomationPlatform.Runtime.Reconciler
import AutomationPlatform.Runtime.Scheduler

namespace AutomationPlatform

/-- `process` between its transactions: the plugin is looked up and executed. -/
def TaskProcessingService.executeTask (registry : TaskRegistry) (task : StartTaskExecutionResult) :
    Except Raised TaskResult := do
  let plugin ← registry.get task.pluginType
  pure (plugin.execute { configuration := task.configuration, inputs := task.parentOutputs })

/-- `get_next_due` while others hold the locks of some rows. -/
def ChronologicalTriggerRepository.getNextDueUnlocked (s : DefinitionStore) (now : Datetime)
    (locked : List UUID) : Option DueChronologicalTrigger :=
  (due s now).find? fun d => !locked.contains d.triggerDefinitionId

/-- `process_next_due` up to its commit: the definitions with the trigger rescheduled, and the
execution with its root tasks, if a trigger is due. -/
def ChronologicalTriggerService.prepareNextDue (registry : TriggerRegistry) (draws : Draws)
    (now createdAt : Datetime) (locked : List UUID) (s : DefinitionStore) :
    Except Raised (Option (DefinitionStore × WorkflowExecution × List UUID)) :=
  match ChronologicalTriggerRepository.getNextDueUnlocked s now locked with
  | none => .ok none
  | some due => do
      let next ← nextRunAt registry due.pluginType due.configuration due.nextRunAt
      let definitions ← reschedule s due.triggerDefinitionId next
      let prepared ← WorkflowStartService.prepare definitions draws createdAt
        due.workflowDefinitionId
      pure (some (definitions, prepared))

structure System where
  definitions : DefinitionStore
  platform : Platform

inductive SystemAction where
  | create (draws : DefinitionDraws) (now : UUID → Datetime) (request : CreateWorkflowDefinition)
  | delete (workflowDefinitionId : UUID)
  | start (publisher : Nat) (draws : Draws) (now : Datetime) (workflowDefinitionId : UUID)
  | processNextDue (publisher : Nat) (draws : Draws) (now createdAt : Datetime)
      (locked : List UUID)
  /-- The plugin of the task worker `w` has started returns or raises. -/
  | report (w : Nat) (completedAt : Datetime)
  /-- Any other step of the platform. -/
  | run (action : PlatformAction)

namespace System

def init (clock : Datetime) : System where
  definitions := .empty
  platform := .init clock

/-- What a unit of work finds. -/
def database (x : System) : Database where
  definitions := x.definitions
  executions := x.platform.db.store

/-- A unit of work on the definitions has ended. -/
def settle (x : System) : Except Raised Database → System
  | .ok db => { x with definitions := db.definitions }
  | .error _ => x

/-- The commit of `start_and_commit`.  It raises when an identifier is taken. -/
def commitStart (x : System) (publisher : Nat) (definitions : DefinitionStore)
    (workflowExecution : WorkflowExecution) (rootTaskIds : List UUID) : Option System :=
  match x.platform.publishing publisher with
  | some _ => none
  | none =>
      match x.platform.db.step Call.body
          (.insert (WorkflowExecutionMapper.workflowToRows workflowExecution)) with
      | none => some x
      | some db => some
          { definitions := definitions
            platform := { x.platform.setPublishing publisher (some rootTaskIds) with db := db } }

/-- One step of the system; `none` when the step is not possible. -/
def step (leaseTimeout : Timedelta) (x : System) : SystemAction → Option System
  | .create draws now request =>
      some (x.settle ((WorkflowDefinitionService.create .discovered .discovered draws now
        x.database request).map (·.2)))
  | .delete workflowDefinitionId =>
      some (x.settle (WorkflowDefinitionService.delete x.database workflowDefinitionId))
  | .start publisher draws now workflowDefinitionId =>
      match WorkflowStartService.prepare x.definitions draws now workflowDefinitionId with
      | .error _ => some x
      | .ok (workflowExecution, rootTaskIds) =>
          x.commitStart publisher x.definitions workflowExecution rootTaskIds
  | .processNextDue publisher draws now createdAt locked =>
      match ChronologicalTriggerService.prepareNextDue .discovered draws now createdAt locked
          x.definitions with
      | .error _ => some x
      | .ok none => some x
      | .ok (some (definitions, workflowExecution, rootTaskIds)) =>
          x.commitStart publisher definitions workflowExecution rootTaskIds
  | .report w completedAt =>
      match x.platform.workers w with
      | .processing _ _ (.executing task) => do
          let platform ← x.platform.step leaseTimeout
            (match TaskProcessingService.executeTask .discovered task with
            | .ok result => .report w result completedAt
            | .error _ => .crash w)
          some { x with platform := platform }
      | _ => none
  | .run action =>
      match action with
      | .start _ _ _ _ => none
      | .report _ _ _ => none
      | action => do
          let platform ← x.platform.step leaseTimeout action
          some { x with platform := platform }

/-- One step of the system with its queue behind the driver. -/
def driverStep (leaseTimeout : Timedelta) (x : System) : SystemAction → Option System
  | .run action =>
      match action with
      | .start _ _ _ _ => none
      | .report _ _ _ => none
      | action => do
          let platform ← x.platform.driverStep leaseTimeout action
          some { x with platform := platform }
  | action => x.step leaseTimeout action

/-- Several steps in a row. -/
def steps (leaseTimeout : Timedelta) (x : System) (actions : List SystemAction) : Option System :=
  actions.foldlM (step leaseTimeout) x

def driverSteps (leaseTimeout : Timedelta) (x : System) (actions : List SystemAction) :
    Option System :=
  actions.foldlM (driverStep leaseTimeout) x

end System

end AutomationPlatform
