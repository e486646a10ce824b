/-
Scheduling of chronological triggers.

`process_next_due` is one unit of work.  It takes the earliest due trigger, moves its
state to the next occurrence and starts its workflow, and the commit of the start
publishes both.  An exception on the way leaves the database as it was.

After the commit the root tasks are enqueued.  That reads and writes neither of the two stores,
and raises for more tasks than the driver takes parameters for; so it is left out here, and what is
said about `processNextDue` and its loop is said of workflows with at most 10922 root tasks.  In a
step of the platform the queue takes the tasks or the driver refuses them (`Platform.driverStep`).
-/
import AutomationPlatform.Application.WorkflowStart
import AutomationPlatform.Persistence.ChronologicalTriggers
import AutomationPlatform.Plugins.Triggers

namespace AutomationPlatform

namespace ChronologicalTriggerService

/-- Initialize durable scheduling state for a chronological trigger. -/
def initializeState (nextOccurrence : NextOccurrence) (triggerDefinition : TriggerDefinition)
    (now : Datetime) (x : DefinitionSession) : Except Raised DefinitionSession := do
  match ← nextOccurrence triggerDefinition.configuration now with
  | none => pure x
  | some nextRunAt =>
      pure (ChronologicalTriggerRepository.create x triggerDefinition.id nextRunAt)

/-- The occurrence after one of a trigger, as the trigger's plugin has it. -/
def nextRunAt (registry : TriggerRegistry) (pluginType : String) (configuration : JsonObject)
    (after : Datetime) : Except Raised (Option Datetime) := do
  let triggerPlugin ← registry.get pluginType
  match triggerPlugin.nextOccurrence with
  | some nextOccurrence => nextOccurrence configuration after
  | none => .error { class_ := .attribute }

/-- Persist the next occurrence, or that there is none. -/
def reschedule (s : DefinitionStore) (triggerDefinitionId : UUID) :
    Option Datetime → Except Raised DefinitionStore
  | none => .ok (ChronologicalTriggerRepository.delete s triggerDefinitionId)
  | some next => ChronologicalTriggerRepository.updateNextRun s triggerDefinitionId next

/-- Process the earliest currently due chronological trigger, up to the commit; whether there
was one.  The draws and `createdAt` are for the workflow execution that is started. -/
def processNextDue (registry : TriggerRegistry) (draws : Draws) (now createdAt : Datetime)
    (db : Database) : Except Raised (Bool × Database) :=
  match ChronologicalTriggerRepository.getNextDue db.definitions now with
  | none => .ok (false, db)
  | some due => do
      let next ← nextRunAt registry due.pluginType due.configuration due.nextRunAt
      let definitions ← reschedule db.definitions due.triggerDefinitionId next
      let (db', _) ← WorkflowStartService.startAndCommit { db with definitions := definitions }
        draws createdAt due.workflowDefinitionId
      pure (true, db')

theorem nextRunAt_discovered {pluginType : String} {plugin : TriggerPlugin}
    (h : TriggerRegistry.discovered pluginType = some plugin) (configuration : JsonObject)
    (after : Datetime) : nextRunAt .discovered pluginType configuration after =
      IntervalTrigger.nextOccurrence configuration after := by
  obtain rfl := TriggerRegistry.eq_interval_of_discovered h
  simp [nextRunAt, TriggerRegistry.get, h, IntervalTrigger.plugin, bind, Except.bind]

end ChronologicalTriggerService

end AutomationPlatform
