/-
The scheduling state of chronological triggers.

`get_next_due` is one statement: a join with the trigger definitions, ordered by the
time of the next run and then by identifier, limited to one row.  It locks the row it
finds and passes over rows that others have locked.  What it does while others write
is in the runtime's scheduler; on its own it gives the first of the due triggers.
-/
import Mathlib.Data.List.Sort
import AutomationPlatform.Persistence.WorkflowDefinitions

namespace AutomationPlatform

structure DueChronologicalTrigger where
  triggerDefinitionId : UUID
  workflowDefinitionId : UUID
  pluginType : String
  configuration : JsonObject
  nextRunAt : Datetime

/-- `ORDER BY next_run_at, trigger_definition_id`. -/
abbrev DueChronologicalTrigger.Before (a b : DueChronologicalTrigger) : Prop :=
  a.nextRunAt < b.nextRunAt ∨
    (a.nextRunAt = b.nextRunAt ∧ a.triggerDefinitionId ≤ b.triggerDefinitionId)

namespace ChronologicalTriggerRepository

/-- Create scheduling state for a chronological trigger. -/
def create (x : DefinitionSession) (triggerDefinitionId : UUID) (nextRunAt : Datetime) :
    DefinitionSession :=
  x.add ⟨.chronologicalTriggerState triggerDefinitionId, { nextRunAt }⟩

/-- Delete scheduling state; without any there is nothing to do. -/
def delete (s : DefinitionStore) (triggerDefinitionId : UUID) : DefinitionStore :=
  s.deleteWhere fun
    | .chronologicalTriggerState id, _ => id = triggerDefinitionId
    | _, _ => false

/-- The joined row of a trigger, if it has state and the condition of the query holds. -/
def dueRow (s : DefinitionStore) (now : Datetime) (triggerDefinitionId : UUID) :
    Option DueChronologicalTrigger :=
  match triggerStateRow s triggerDefinitionId, triggerDefinitionRow s triggerDefinitionId with
  | some state, some trigger =>
      if state.nextRunAt ≤ now ∧ trigger.enabled = true then
        some
          { triggerDefinitionId
            workflowDefinitionId := trigger.workflowDefinitionId
            pluginType := trigger.pluginType
            configuration := trigger.configuration
            nextRunAt := state.nextRunAt }
      else none
  | _, _ => none

/-- The due triggers in the order of the query. -/
def due (s : DefinitionStore) (now : Datetime) : List DueChronologicalTrigger :=
  (s.scan fun
    | .chronologicalTriggerState id, _ => dueRow s now id
    | _, _ => none).insertionSort DueChronologicalTrigger.Before

/-- The earliest due chronological trigger, when nobody has locked a row. -/
def getNextDue (s : DefinitionStore) (now : Datetime) : Option DueChronologicalTrigger :=
  (due s now).head?

/-- Update the next scheduled occurrence for a trigger. -/
def updateNextRun (s : DefinitionStore) (triggerDefinitionId : UUID) (nextRunAt : Datetime) :
    Except Raised DefinitionStore :=
  match triggerStateRow s triggerDefinitionId with
  | some _ => .ok (s.set (.chronologicalTriggerState triggerDefinitionId) { nextRunAt })
  | none =>
      .error
        { class_ := .value
          message := "Chronological trigger state does not exist for trigger definition " ++
            toString triggerDefinitionId ++ "." }

end ChronologicalTriggerRepository

end AutomationPlatform
