/-
The scheduler, alone and next to others.

Alone, it is a loop around `process_next_due` that survives every exception.

Next to others, a `process_next_due` is a transaction whose steps mix with those of
the others.  Its `SELECT .. FOR UPDATE SKIP LOCKED` picks and orders rows by what was
committed when the statement began, and then goes through them one by one until it
has one: it passes over a row another transaction has locked, and looks at the
version of any other row that is committed by now.  A row it has looked at so and
found not to be due any more stays locked, as PostgreSQL has it.  All the transaction
writes is its own until the commit publishes it.

A transaction ends early when one of its calls raises, and it may be cut off at any
point; either way it is rolled back.  Clock readings are arbitrary.

The log is a ghost: which occurrence each committed execution was started for.
-/
import AutomationPlatform.Application.ChronologicalTriggers

namespace AutomationPlatform

/-- One round of the loop of `Scheduler.run`; waiting is left out. -/
def Scheduler.iterate (registry : TriggerRegistry) (draws : Draws) (now createdAt : Datetime)
    (db : Database) : Database :=
  match ChronologicalTriggerService.processNextDue registry draws now createdAt db with
  | .ok (_, db') => db'
  | .error _ => db

/-- The database after some rounds of the loop at one fixed time.  Round `n` draws its
identifiers from `draws n` and reads `createdAt n`. -/
def Scheduler.run (registry : TriggerRegistry) (draws : Nat → Draws) (now : Datetime)
    (createdAt : Nat → Datetime) (db : Database) : Nat → Database
  | 0 => db
  | n + 1 =>
      Scheduler.iterate registry (draws n) now (createdAt n)
        (Scheduler.run registry draws now createdAt db n)

/-! ### Concurrent schedulers -/

/-- How far a `process_next_due` has come. -/
inductive SchedulerPhase where
  | begun
  /-- The query of `get_next_due` has these rows still to look at. -/
  | selecting (rest : List UUID)
  | selected (due : DueChronologicalTrigger)
  /-- The next occurrence is computed and written. -/
  | advanced (due : DueChronologicalTrigger) (next : Option Datetime)
  /-- The workflow execution is created and written. -/
  | created (due : DueChronologicalTrigger) (next : Option Datetime)
      (workflowExecution : WorkflowExecution)

structure SchedulerTxn where
  now : Datetime
  phase : SchedulerPhase

/-- A committed execution and the occurrence it was started for. -/
structure Scheduled where
  triggerDefinitionId : UUID
  scheduledAt : Datetime
  workflowExecution : WorkflowExecution

/-- The committed rows, the transactions in flight, and the locked rows of trigger state. -/
structure SchedulerDb extends Database where
  txns : Nat → Option SchedulerTxn := fun _ => none
  locks : UUID → Option Nat := fun _ => none
  log : List Scheduled := []

/-- Which transaction takes which step. -/
inductive SchedulerAction where
  | begin (t : Nat) (now : Datetime)
  | select (t : Nat)
  | row (t : Nat)
  | advance (t : Nat)
  | create (t : Nat) (draws : Draws) (createdAt : Datetime)
  | commit (t : Nat)
  | abort (t : Nat)

namespace SchedulerDb

def setTxn (db : SchedulerDb) (t : Nat) (now : Datetime) (phase : SchedulerPhase) : SchedulerDb :=
  { db with txns := Function.update db.txns t (some { now, phase }) }

def lock (db : SchedulerDb) (t : Nat) (id : UUID) : SchedulerDb :=
  { db with locks := Function.update db.locks id (some t) }

/-- The transaction is over, and its locks are gone. -/
def close (db : SchedulerDb) (t : Nat) : SchedulerDb :=
  { db with
    txns := Function.update db.txns t none
    locks := fun id => if db.locks id = some t then none else db.locks id }

/-- Look at the next row of the query. -/
def row (db : SchedulerDb) (t : Nat) (now : Datetime) : List UUID → SchedulerDb
  | [] => db.close t
  | id :: rest =>
      if (db.locks id).any (· != t) then db.setTxn t now (.selecting rest)
      else if (triggerStateRow db.definitions id).isNone then db.setTxn t now (.selecting rest)
      else
        match ChronologicalTriggerRepository.dueRow db.definitions now id with
        | none => (db.lock t id).setTxn t now (.selecting rest)
        | some due => (db.lock t id).setTxn t now (.selected due)

/-- Publish what the transaction has written. -/
def publish (db : SchedulerDb) (t : Nat) (due : DueChronologicalTrigger) (next : Option Datetime)
    (workflowExecution : WorkflowExecution) : SchedulerDb :=
  match ChronologicalTriggerService.reschedule db.definitions due.triggerDefinitionId next,
      WorkflowExecutionRepository.create db.executions workflowExecution with
  | .ok definitions, some executions =>
      { db.close t with
        definitions := definitions
        executions := executions
        log := db.log ++
          [{ triggerDefinitionId := due.triggerDefinitionId
             scheduledAt := due.nextRunAt
             workflowExecution := workflowExecution }] }
  | _, _ => db.close t

/-- One step of the system; `none` when the step is not possible. -/
def step (registry : TriggerRegistry) (db : SchedulerDb) : SchedulerAction → Option SchedulerDb
  | .begin t now =>
      match db.txns t with
      | none => some (db.setTxn t now .begun)
      | some _ => none
  | .select t =>
      match db.txns t with
      | some ⟨now, .begun⟩ =>
          some (db.setTxn t now (.selecting
            ((ChronologicalTriggerRepository.due db.definitions now).map (·.triggerDefinitionId))))
      | _ => none
  | .row t =>
      match db.txns t with
      | some ⟨now, .selecting rest⟩ => some (db.row t now rest)
      | _ => none
  | .advance t =>
      match db.txns t with
      | some ⟨now, .selected due⟩ =>
          match ChronologicalTriggerService.nextRunAt registry due.pluginType due.configuration
              due.nextRunAt with
          | .ok next => some (db.setTxn t now (.advanced due next))
          | .error _ => some (db.close t)
      | _ => none
  | .create t draws createdAt =>
      match db.txns t with
      | some ⟨now, .advanced due next⟩ =>
          match WorkflowStartService.prepare db.definitions draws createdAt
              due.workflowDefinitionId with
          | .ok (workflowExecution, _) =>
              some (db.setTxn t now (.created due next workflowExecution))
          | .error _ => some (db.close t)
      | _ => none
  | .commit t =>
      match db.txns t with
      | some ⟨_, .created due next workflowExecution⟩ =>
          some (db.publish t due next workflowExecution)
      | _ => none
  | .abort t =>
      match db.txns t with
      | some _ => some (db.close t)
      | none => none

/-- Several steps in a row. -/
def steps (registry : TriggerRegistry) (db : SchedulerDb) (actions : List SchedulerAction) :
    Option SchedulerDb :=
  actions.foldlM (step registry) db

/-- The states that schedulers bring about, starting with none at work on a database. -/
inductive Reachable (registry : TriggerRegistry) (initial : Database) : SchedulerDb → Prop
  | init : Reachable registry initial { initial with }
  | step {db db' : SchedulerDb} (h : Reachable registry initial db) (action : SchedulerAction)
      (hs : db.step registry action = some db') : Reachable registry initial db'

end SchedulerDb

end AutomationPlatform
