/-
The reconciler, and publication through the driver.

A multi-row `INSERT` binds a parameter for every column of every row, and the driver
refuses a statement that binds more than 65535.  The transaction of such a publication
is rolled back, and what comes next depends on who wanted to publish: a start has
committed its execution and fails, a worker that was to finish its claim goes down with
it, and the reconciler logs the exception and waits for its next cycle.
-/
import AutomationPlatform.Runtime.Platform

namespace AutomationPlatform

namespace PostgresExecutionQueue

/-- What `_insert_queue_entries` gives a value for in each row. -/
def columns : List String :=
  ["task_execution_id", "claim_token", "claimed_by", "queued_at", "claimed_at", "last_heartbeat"]

/-- The most parameters the driver binds in one statement. -/
def maxParameters : Nat := 65535

/-- The parameters of the statement that inserts a row for each of the task executions. -/
def boundParameters (taskExecutionIds : List UUID) : Nat :=
  columns.length * taskExecutionIds.length

/-- The driver accepts the statement. -/
def accepted (taskExecutionIds : List UUID) : Bool :=
  boundParameters taskExecutionIds ≤ maxParameters

/-- `_insert_queue_entries` through the driver; `none` when it raises. -/
def insertThroughDriver (queue : ExecutionQueue) (taskExecutionIds : List UUID)
    (queuedAt : Datetime) : Option ExecutionQueue :=
  if taskExecutionIds.isEmpty then some queue
  else if accepted taskExecutionIds then
    some (insertQueueEntries queue taskExecutionIds queuedAt)
  else none

def enqueueThroughDriver (queue : ExecutionQueue) (taskExecutionIds : List UUID)
    (now : Datetime) : Option ExecutionQueue :=
  insertThroughDriver queue taskExecutionIds now

/-- Without a row to remove there is nothing to insert either. -/
def finishThroughDriver (queue : ExecutionQueue) (claim : Claim) (runnableTaskIds : List UUID)
    (now : Datetime) : Option ExecutionQueue :=
  if queue.countP claim.holds = 1 then
    insertThroughDriver (queue.filter fun entry => !claim.holds entry) runnableTaskIds now
  else some (queue.filter fun entry => !claim.holds entry)

end PostgresExecutionQueue

open PostgresExecutionQueue

/-- `_reconcile`: what its first transaction finds in the executions is enqueued by its second
one; `none` when that raises. -/
def Reconciler.reconcile (s : ExecutionStore) (queue : ExecutionQueue) (now : Datetime) :
    Option ExecutionQueue :=
  let runnableTaskIds := Reconciler.find s
  if runnableTaskIds.isEmpty then some queue
  else enqueueThroughDriver queue runnableTaskIds now

/-- A cycle of `run`, which goes on after an exception. -/
def Reconciler.cycle (s : ExecutionStore) (queue : ExecutionQueue) (now : Datetime) :
    ExecutionQueue :=
  (Reconciler.reconcile s queue now).getD queue

namespace Platform

/-- One step of the platform with its queue behind the driver. -/
def driverStep (leaseTimeout : Timedelta) (p : Platform) : PlatformAction → Option Platform
  | .publish publisher now =>
      match p.publishing publisher with
      | none => none
      | some ids =>
          match enqueueThroughDriver p.queue.queue ids now with
          | some _ => p.step leaseTimeout (.publish publisher now)
          | none => some (p.setPublishing publisher none)
  | .dispose w now =>
      match p.workers w with
      | .processing claim false (.processed result) =>
          if result.shouldRetry then p.step leaseTimeout (.dispose w now)
          else
            match finishThroughDriver p.queue.queue claim result.enqueueTaskIds now with
            | some _ => p.step leaseTimeout (.dispose w now)
            | none => some (p.setWorker w .idle)
      | _ => p.step leaseTimeout (.dispose w now)
  | action => p.step leaseTimeout action

/-- Several steps in a row. -/
def driverSteps (leaseTimeout : Timedelta) (p : Platform) (actions : List PlatformAction) :
    Option Platform :=
  actions.foldlM (driverStep leaseTimeout) p

end Platform

end AutomationPlatform
