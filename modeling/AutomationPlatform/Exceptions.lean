/-
The exceptions that leave a service, a repository or a plugin.

An exception is its class and its text.  Code that catches one looks at the class
alone, and the text is what a caller gets to read.  Where Python or a library raises
and not the source, the text is theirs and is left empty.
-/

namespace AutomationPlatform

inductive ExceptionClass where
  | invalidWorkflowDefinition
  | workflowDefinitionNotFound
  | workflowDefinitionDisabled
  | invalidPluginConfiguration
  /-- A constraint of the database is violated. -/
  | integrity
  /-- A value does not fit its column. -/
  | data
  /-- The database or its driver does not carry a statement out. -/
  | operational
  /-- The row to be changed is gone. -/
  | staleData
  | key
  | value
  | type
  | overflow
  | attribute
  deriving DecidableEq, Repr

structure Raised where
  class_ : ExceptionClass
  message : String := ""
  deriving DecidableEq, Repr

end AutomationPlatform
