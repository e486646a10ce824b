/-
Task plugins and their registry.

As with trigger plugins, the registry fills itself from the implementations the package
holds.  There are three: one that produces a configured value, one that collects the outputs
of the task's dependencies, and one that fails.
-/
import AutomationPlatform.Domain
import AutomationPlatform.Python

namespace AutomationPlatform

structure TaskPlugin where
  validateConfiguration : JsonObject → Except Raised Unit
  execute : TaskContext → TaskResult

/-- The implementations by plugin type. -/
abbrev TaskRegistry := String → Option TaskPlugin

namespace TaskRegistry

def get (registry : TaskRegistry) (pluginType : String) : Except Raised TaskPlugin :=
  match registry pluginType with
  | some plugin => .ok plugin
  | none => .error { class_ := .key, message := "Unknown plugin type '" ++ pluginType ++ "'." }

def contains (registry : TaskRegistry) (pluginType : String) : Bool :=
  (registry pluginType).isSome

end TaskRegistry

/-- The fields of a configuration beside one that is expected, sorted. -/
def unexpectedKeys (configuration : JsonObject) (expected : String) : List String :=
  sortedTexts ((configuration.map (·.1)).filter (· != expected))

def invalidConfiguration (message : String) : Raised where
  class_ := .invalidPluginConfiguration
  message := message

namespace ProduceValueTask

def pluginType : String := "produce_value"

def validateConfiguration (configuration : JsonObject) : Except Raised Unit :=
  if (configuration.lookup "value").isNone then
    .error (invalidConfiguration "ProduceValueTask configuration requires 'value'.")
  else if unexpectedKeys configuration "value" ≠ [] then
    .error (invalidConfiguration ("ProduceValueTask configuration contains unexpected fields: " ++
      reprTexts (unexpectedKeys configuration "value") ++ "."))
  else .ok ()

def execute (context : TaskContext) : TaskResult where
  succeeded := true
  output := { values := [("value", (context.configuration.lookup "value").getD .null)] }

def plugin : TaskPlugin := { validateConfiguration, execute }

end ProduceValueTask

namespace CollectInputsTask

def pluginType : String := "collect_inputs"

def validateConfiguration (configuration : JsonObject) : Except Raised Unit :=
  if configuration ≠ [] then
    .error (invalidConfiguration ("CollectInputsTask does not accept configuration fields: " ++
      reprTexts (sortedTexts (configuration.map (·.1))) ++ "."))
  else .ok ()

def execute (context : TaskContext) : TaskResult where
  succeeded := true
  output := { values := context.inputs.map fun input => (input.1, .dict input.2.values) }

def plugin : TaskPlugin := { validateConfiguration, execute }

end CollectInputsTask

namespace FailTask

def pluginType : String := "fail"

def validateConfiguration (configuration : JsonObject) : Except Raised Unit :=
  if unexpectedKeys configuration "message" ≠ [] then
    .error (invalidConfiguration ("FailTask configuration contains unexpected fields: " ++
      reprTexts (unexpectedKeys configuration "message") ++ "."))
  else
    match configuration.lookup "message" with
    | none => .ok ()
    | some (.str _) => .ok ()
    | some _ =>
        .error (invalidConfiguration "FailTask configuration field 'message' must be a string.")

def execute (context : TaskContext) : TaskResult where
  succeeded := false
  output := {}
  message :=
    match context.configuration.lookup "message" with
    | none => some "Task configured to fail."
    | some (.str message) => some message
    | some _ => none  -- validation leaves no value that is not a text

def plugin : TaskPlugin := { validateConfiguration, execute }

end FailTask

/-- The registry as it fills itself. -/
def TaskRegistry.discovered : TaskRegistry := fun pluginType =>
  if pluginType = ProduceValueTask.pluginType then some ProduceValueTask.plugin
  else if pluginType = CollectInputsTask.pluginType then some CollectInputsTask.plugin
  else if pluginType = FailTask.pluginType then some FailTask.plugin
  else none

end AutomationPlatform
