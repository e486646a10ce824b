/-
The domain model: workflow definitions, and the executions compiled from them.

Definitions and executions are plain data here, as they are in the source; what
makes a definition valid is stated where it is used, and what keeps an execution
coherent is proved of the operations that change it.

Two conventions.  A `uuid` is an identifier and nothing else is ever done with it
than comparing it, so any type with enough values will do.  A point in time is a
number of microseconds, the resolution of the source's `datetime`.
-/
import Mathlib.Data.Int.Notation

namespace AutomationPlatform

abbrev UUID := Nat

/-- Microseconds on the UTC time line. -/
abbrev Datetime := Int

/-- A length of time, in microseconds. -/
abbrev Timedelta := Int

/-- A JSON value, as configurations and outputs hold it. -/
inductive Json where
  | null
  | bool (b : Bool)
  | int (n : Int)
  /-- A number that is not an integer, as `json.dumps` writes it. -/
  | float (text : String)
  | str (s : String)
  | list (items : List Json)
  | dict (fields : List (String × Json))

/-- The source's `dict[str, Any]`. -/
abbrev JsonObject := List (String × Json)

/-! ### Enumerations -/

inductive WorkflowStatus where
  | running
  | completed
  | failed
  | cancelled
  deriving DecidableEq, Repr

inductive TaskStatus where
  | pending
  | running
  | completed
  | failed
  | cancelled
  deriving DecidableEq, Repr

/-! ### Execution runtime -/

structure TaskOutput where
  values : JsonObject := []

structure TaskContext where
  configuration : JsonObject := []
  inputs : List (String × TaskOutput) := []

structure TaskResult where
  succeeded : Bool
  output : TaskOutput
  message : Option String := none

/-! ### Workflow definitions -/

structure TaskDefinition where
  id : UUID
  pluginType : String
  key : String
  configuration : JsonObject := []
  dependencies : List UUID := []
  maxTries : Int := 1

structure TriggerDefinition where
  id : UUID
  pluginType : String
  configuration : JsonObject := []
  enabled : Bool := true

structure WorkflowDefinition where
  id : UUID
  name : String
  description : String := ""
  taskDefinitions : List TaskDefinition := []
  triggerDefinitions : List TriggerDefinition := []
  enabled : Bool := true

/-! ### Workflow executions -/

structure TaskExecution where
  id : UUID
  workflowExecutionId : UUID
  taskDefinitionId : UUID
  key : String
  pluginType : String
  configuration : JsonObject := []
  status : TaskStatus := .pending
  remainingDependencies : Int := 0
  remainingTries : Int := 0
  parentTaskIds : List UUID := []
  childTaskIds : List UUID := []
  output : Option TaskOutput := none
  errorMessage : Option String := none
  startedAt : Option Datetime := none
  completedAt : Option Datetime := none

structure WorkflowExecution where
  id : UUID
  workflowDefinitionId : UUID
  status : WorkflowStatus := .running
  taskExecutions : List TaskExecution := []
  /-- The source's default is the time of construction. -/
  createdAt : Datetime
  startedAt : Option Datetime := none
  completedAt : Option Datetime := none

end AutomationPlatform
