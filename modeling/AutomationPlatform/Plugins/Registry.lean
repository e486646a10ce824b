/-
How a registry fills itself.

Discovery goes through the modules of a package, and takes from each the classes that it
defines itself and that implement the interface.  What a module imports is somebody else's, so
a class is not found again wherever it is used.  The registry then takes the classes one after
the other under their plugin types, and accepts neither a blank type nor one that is taken.

Of a module nothing is here but the classes bound in it, in the order in which `getmembers`
yields them, and the modules are in the order of `iter_modules`.
-/
import AutomationPlatform.Plugins.Tasks
import AutomationPlatform.Plugins.Triggers
import Mathlib.Data.Finset.Dedup

namespace AutomationPlatform

/-! ### Discovery -/

/-- A class by its module and its name. -/
abbrev ClassName := String × String

/-- A class, as far as discovery and a registry look at it. -/
structure PluginClass (α : Type) where
  className : ClassName
  /-- What it is a subclass of, itself included; asked only of a class where it is defined. -/
  superclasses : List ClassName
  /-- The class attribute, which a class may do without. -/
  pluginType : Option String := none
  /-- What its methods do, unless they are abstract. -/
  plugin : Option α := none

structure PluginModule (α : Type) where
  name : String
  classes : List (PluginClass α)

section Discovery

variable {α : Type}

/-- Yield plugin implementations defined in the module. -/
def findPluginImplementations (pluginInterface : ClassName) (module : PluginModule α) :
    List (PluginClass α) :=
  module.classes.filter fun candidate =>
    candidate.className.1 == module.name && candidate.className != pluginInterface &&
      candidate.superclasses.contains pluginInterface

/-- Yield every implementation of the given plugin interface. -/
def discoverPlugins (pluginInterface : ClassName) (modules : List (PluginModule α)) :
    List (PluginClass α) :=
  modules.flatMap (findPluginImplementations pluginInterface)

theorem mem_discoverPlugins {pluginInterface : ClassName} {modules : List (PluginModule α)}
    {c : PluginClass α} : c ∈ discoverPlugins pluginInterface modules ↔
      ∃ module ∈ modules, c ∈ module.classes ∧ c.className.1 = module.name ∧
        c.className ≠ pluginInterface ∧ pluginInterface ∈ c.superclasses := by
  simp [discoverPlugins, findPluginImplementations, and_assoc]

end Discovery

/-! ### Registration -/

/-- `c.isspace()`. -/
def isSpace (c : Char) : Bool :=
  let n := c.toNat
  (9 ≤ n && n ≤ 13) || (28 ≤ n && n ≤ 32) || n == 0x85 || n == 0xa0 || n == 0x1680 ||
    (0x2000 ≤ n && n ≤ 0x200a) || n == 0x2028 || n == 0x2029 || n == 0x202f || n == 0x205f ||
    n == 0x3000

/-- `not text.strip()`. -/
def blank (text : String) : Bool := text.toList.all isSpace

/-- The implementations by plugin type. -/
abbrev PluginRegistry (α : Type) := Dict String (PluginClass α)

namespace PluginRegistry

variable {α : Type}

def emptyPluginType (implementation : PluginClass α) : Raised where
  class_ := .value
  message := implementation.className.2 ++ " has an empty plugin_type."

def duplicatePluginType (pluginType : String) (existing implementation : PluginClass α) :
    Raised where
  class_ := .value
  message := "Duplicate plugin type '" ++ pluginType ++ "' defined by " ++
    existing.className.2 ++ " and " ++ implementation.className.2 ++ "."

/-- Validate and register a plugin implementation. -/
def register (registry : PluginRegistry α) (implementation : PluginClass α) :
    Except Raised (PluginRegistry α) :=
  match implementation.pluginType with
  | none => .error { class_ := .attribute }
  | some pluginType =>
      if blank pluginType then .error (emptyPluginType implementation)
      else
        match registry.row pluginType with
        | some existing => .error (duplicatePluginType pluginType existing implementation)
        | none => .ok (registry.put pluginType implementation)

/-- The constructor. -/
def init (pluginInterface : ClassName) (modules : List (PluginModule α)) :
    Except Raised (PluginRegistry α) :=
  (discoverPlugins pluginInterface modules).foldlM register .empty

/-- Return the registered implementation class. -/
def get (registry : PluginRegistry α) (pluginType : String) : Except Raised (PluginClass α) :=
  match registry.row pluginType with
  | some implementation => .ok implementation
  | none => .error { class_ := .key, message := "Unknown plugin type '" ++ pluginType ++ "'." }

def contains (registry : PluginRegistry α) (pluginType : String) : Bool :=
  (registry.row pluginType).isSome

def supportedTypes (registry : PluginRegistry α) : Finset String := registry.keys.toFinset

end PluginRegistry

/-! ### The registries of the package -/

namespace PluginClass

/-- A class of another module; discovery never asks what it derives from. -/
def imported {α : Type} (moduleName name : String) : PluginClass α where
  className := (moduleName, name)
  superclasses := [(moduleName, name)]

def any {α : Type} : PluginClass α := imported "typing" "Any"

def invalidPluginConfigurationError {α : Type} : PluginClass α :=
  imported "automation_platform.plugins.exceptions" "InvalidPluginConfigurationError"

def basePlugin : ClassName := ("automation_platform.plugins._plugin", "Plugin")

end PluginClass

namespace TaskRegistry

def pluginInterface : ClassName := ("automation_platform.plugins.tasks.interface", "Task")

/-- A class that derives from `Task`. -/
def implementation (moduleName name pluginType : String) (plugin : TaskPlugin) :
    PluginClass TaskPlugin where
  className := (moduleName, name)
  superclasses := [(moduleName, name), pluginInterface, PluginClass.basePlugin]
  pluginType := some pluginType
  plugin := some plugin

def collectInputs : PluginClass TaskPlugin :=
  implementation "automation_platform.plugins.tasks.implementations.collect_inputs"
    "CollectInputsTask" CollectInputsTask.pluginType CollectInputsTask.plugin

def fail : PluginClass TaskPlugin :=
  implementation "automation_platform.plugins.tasks.implementations.fail" "FailTask"
    FailTask.pluginType FailTask.plugin

def produceValue : PluginClass TaskPlugin :=
  implementation "automation_platform.plugins.tasks.implementations.produce_value"
    "ProduceValueTask" ProduceValueTask.pluginType ProduceValueTask.plugin

/-- What every one of the modules imports of the interface and of the domain. -/
def imports : List (PluginClass TaskPlugin) :=
  [.imported "automation_platform.plugins.tasks.interface" "Task",
    .imported "automation_platform.domain.execution_runtime.task_context" "TaskContext",
    .imported "automation_platform.domain.execution_runtime.task_output" "TaskOutput",
    .imported "automation_platform.domain.execution_runtime.task_result" "TaskResult"]

/-- The modules of `tasks.implementations`. -/
def modules : List (PluginModule TaskPlugin) :=
  [{ name := "automation_platform.plugins.tasks.implementations.collect_inputs"
     classes := .any :: collectInputs :: .invalidPluginConfigurationError :: imports },
    { name := "automation_platform.plugins.tasks.implementations.fail"
      classes := .any :: fail :: .invalidPluginConfigurationError :: imports },
    { name := "automation_platform.plugins.tasks.implementations.produce_value"
      classes := .any :: .invalidPluginConfigurationError :: produceValue :: imports }]

end TaskRegistry

namespace TriggerRegistry

def pluginInterface : ClassName := ("automation_platform.plugins.triggers.interface", "Trigger")

def chronologicalTrigger : ClassName :=
  ("automation_platform.plugins.triggers.mechanisms.Chronological_trigger", "ChronologicalTrigger")

def interval : PluginClass TriggerPlugin where
  className := ("automation_platform.plugins.triggers.implementations.interval", "IntervalTrigger")
  superclasses :=
    [("automation_platform.plugins.triggers.implementations.interval", "IntervalTrigger"),
      chronologicalTrigger, pluginInterface, PluginClass.basePlugin]
  pluginType := some IntervalTrigger.pluginType
  plugin := some IntervalTrigger.plugin

/-- The modules of `triggers.implementations`. -/
def modules : List (PluginModule TriggerPlugin) :=
  [{ name := "automation_platform.plugins.triggers.implementations.interval"
     classes :=
      [.any, .imported chronologicalTrigger.1 chronologicalTrigger.2, interval,
        .invalidPluginConfigurationError, .imported "datetime" "datetime",
        .imported "datetime" "timedelta"] }]

end TriggerRegistry

end AutomationPlatform
