/-
The runtime: workers, the reconciler and the starting of workflows, around the
database of executions and the queue.

Each component is a loop of short transactions on one of the two stores, and
between any two of them every other component may move.  A worker goes from claim
to disposition in the stages below; its heartbeat runs beside it and can only tell
it that the claim is not to be trusted any more.  An exception inside the
processing of a claim and a crash of the worker come to the same: its transaction
is rolled back, its claim is left to expire, and it (or its successor) claims anew.

Whoever has task executions to enqueue does it in a second transaction, after the
one that made them runnable: `publishing` are the identifiers in between.  That
second transaction may never happen.
-/
import AutomationPlatform.ExecutionQueue.Postgres
import AutomationPlatform.Application.WorkflowStart
import AutomationPlatform.Persistence.WorkflowExecutions

namespace AutomationPlatform

/-- What `process` returns. -/
structure ProcessTaskResult where
  enqueueTaskIds : List UUID := []
  shouldRetry : Bool := false

/-- How far `TaskProcessingService.process` has come. -/
inductive Processing where
  /-- The claim has just been granted. -/
  | claimed
  /-- In the transaction of `_start_task`. -/
  | starting
  /-- In the plugin, and in no transaction. -/
  | executing (task : StartTaskExecutionResult)
  /-- In the transaction of `_complete_task`. -/
  | completing
  /-- In the transaction of `_retry_task`. -/
  | retrying
  | processed (result : ProcessTaskResult)

/-- A worker between two of its steps. -/
inductive Worker where
  | idle
  /-- In the transaction of `claim`, with a row locked. -/
  | claiming
  /-- In `_process_claim`; whether its heartbeat has raised `claim_untrusted_event`. -/
  | processing (claim : Claim) (claimUntrusted : Bool) (processing : Processing)

/-- The two stores and everyone at work on them.  Worker `w` is session `w` of both. -/
structure Platform where
  db : ExecutionDb
  queue : QueueDb
  workers : Nat → Worker
  /-- Committed by a workflow start, or found by the reconciler, and not enqueued yet. -/
  publishing : Nat → Option (List UUID)

inductive PlatformAction where
  /-- `start_and_commit` up to its commit. -/
  | start (publisher : Nat) (draws : Draws) (now : Datetime) (workflowDefinition : WorkflowDefinition)
  /-- `_reconcile` looks for runnable task executions. -/
  | find (publisher : Nat)
  /-- What was committed or found is enqueued. -/
  | publish (publisher : Nat) (now : Datetime)
  /-- What was committed or found is not enqueued: the call failed or its process died. -/
  | lose (publisher : Nat)
  /-- `claim` reads the clock and looks for a row. -/
  | lock (w : Nat) (workerId : UUID) (skipped : List UUID) (now : Datetime)
  /-- `claim` commits the lease and returns. -/
  | grant (w : Nat) (claimToken : UUID)
  | startTask (w : Nat) (startedAt : Datetime)
  /-- The plugin returns, and `_complete_task` or `_retry_task` begins. -/
  | report (w : Nat) (result : TaskResult) (completedAt : Datetime)
  /-- The worker's transaction issues its next statement. -/
  | statement (w : Nat)
  /-- The worker's transaction processes a row its statement has picked. -/
  | row (w : Nat) (k : RowId)
  /-- The worker's transaction has run its body and ends. -/
  | endTransaction (w : Nat)
  | heartbeat (w : Nat) (now : Datetime)
  /-- `heartbeat` raises. -/
  | heartbeatFailed (w : Nat)
  /-- The end of `_process_claim`: `release`, `finish` or neither. -/
  | dispose (w : Nat) (now : Datetime)
  /-- The worker crashes, or an exception ends the processing of its claim. -/
  | crash (w : Nat)

/-- `_reconcile` reads one committed store. -/
def Reconciler.find (s : ExecutionStore) : List UUID :=
  match WorkflowExecutionRepository.findRunnableIds.exec s with
  | (_, .ok ids) => ids
  | (_, .error _) => []

/-- The transaction `process` runs when the plugin has returned. -/
def TaskProcessingService.reportCall (taskExecutionId : UUID) (result : TaskResult)
    (completedAt : Datetime) : Call :=
  if result.succeeded then .completeTask { taskExecutionId, output := result.output, completedAt }
  else .retryTask { taskExecutionId, errorMessage := result.message, completedAt }

/--
How `process` goes on when a transaction of it has run its body, and whether the
transaction is committed; `none` for a result that the transaction does not return.
A task that cannot be processed is left without a commit.
-/
def TaskProcessingService.proceed : Processing → CallResult → Option (Bool × Processing)
  | .starting, .started none => some (false, .processed {})
  | .starting, .started (some task) => some (true, .executing task)
  | .completing, .completed result =>
      some (true, .processed { enqueueTaskIds := result.runnableTaskExecutionIds })
  | .retrying, .retried result => some (true, .processed { shouldRetry := result.shouldRetry })
  | _, _ => none

namespace Platform

def init (clock : Datetime) : Platform where
  db := Sql.Db.init
  queue := QueueDb.init clock
  workers := fun _ => .idle
  publishing := fun _ => none

def setWorker (p : Platform) (w : Nat) (worker : Worker) : Platform :=
  { p with workers := Function.update p.workers w worker }

def setPublishing (p : Platform) (publisher : Nat) (ids : Option (List UUID)) : Platform :=
  { p with publishing := Function.update p.publishing publisher ids }

/-- One step of the platform; `none` when the step is not possible. -/
def step (leaseTimeout : Timedelta) (p : Platform) : PlatformAction → Option Platform
  | .start publisher draws now workflowDefinition =>
      match p.publishing publisher,
          WorkflowStartService.createWorkflowExecution draws now workflowDefinition with
      | none, .ok (workflowExecution, rootTaskIds) => do
          let db ← p.db.step Call.body
            (.insert (WorkflowExecutionMapper.workflowToRows workflowExecution))
          some { p.setPublishing publisher (some rootTaskIds) with db := db }
      | _, _ => none
  | .find publisher =>
      match p.publishing publisher with
      | none => some (p.setPublishing publisher (some (Reconciler.find p.db.store)))
      | some _ => none
  | .publish publisher now =>
      match p.publishing publisher with
      | none => none
      | some ids => do
          let queue ← p.queue.step leaseTimeout (.enqueue ids now)
          some { p.setPublishing publisher none with queue := queue }
  | .lose publisher => some (p.setPublishing publisher none)
  | .lock w workerId skipped now =>
      match p.workers w with
      | .idle => do
          let queue ← p.queue.step leaseTimeout (.lock w workerId skipped now)
          let worker := if (queue.claiming w).isSome then .claiming else .idle
          some { p.setWorker w worker with queue := queue }
      | _ => none
  | .grant w claimToken =>
      match p.workers w, p.queue.claiming w with
      | .claiming, some x => do
          let queue ← p.queue.step leaseTimeout (.grant w claimToken)
          let claim := { taskExecutionId := x.queueEntry.taskExecutionId, claimToken }
          some { p.setWorker w (.processing claim false .claimed) with queue := queue }
      | _, _ => none
  | .startTask w startedAt =>
      match p.workers w with
      | .processing claim untrusted .claimed => do
          let db ← p.db.step Call.body (.begin w (.startTask claim.taskExecutionId startedAt))
          some { p.setWorker w (.processing claim untrusted .starting) with db := db }
      | _ => none
  | .report w result completedAt =>
      match p.workers w with
      | .processing claim untrusted (.executing _) => do
          let call := TaskProcessingService.reportCall claim.taskExecutionId result completedAt
          let db ← p.db.step Call.body (.begin w call)
          let next := if result.succeeded then .completing else .retrying
          some { p.setWorker w (.processing claim untrusted next) with db := db }
      | _ => none
  | .statement w => do
      let db ← p.db.step Call.body (.statement w)
      some { p with db := db }
  | .row w k => do
      let db ← p.db.step Call.body (.row w k)
      some { p with db := db }
  | .endTransaction w =>
      match p.workers w with
      | .processing claim untrusted processing => do
          let x ← p.db.txns w
          let result ← x.result
          let (commits, next) ← TaskProcessingService.proceed processing result
          let db ← p.db.step Call.body (if commits then .commit w else .abort w)
          some { p.setWorker w (.processing claim untrusted next) with db := db }
      | _ => none
  | .heartbeat w now =>
      match p.workers w with
      | .processing claim false processing => do
          let queue ← p.queue.step leaseTimeout (.heartbeat claim now)
          let leaseOwned := (PostgresExecutionQueue.heartbeat p.queue.queue claim now).2
          some { p.setWorker w (.processing claim (!leaseOwned) processing) with queue := queue }
      | _ => none
  | .heartbeatFailed w =>
      match p.workers w with
      | .processing claim _ processing => some (p.setWorker w (.processing claim true processing))
      | _ => none
  | .dispose w now =>
      match p.workers w with
      | .processing _ true (.processed _) => some (p.setWorker w .idle)
      | .processing claim false (.processed result) => do
          let queue ← p.queue.step leaseTimeout
            (if result.shouldRetry then .release claim else .finish claim result.enqueueTaskIds now)
          some { p.setWorker w .idle with queue := queue }
      | _ => none
  | .crash w =>
      some { p.setWorker w .idle with
        db := (p.db.step Call.body (.abort w)).getD p.db
        queue := (p.queue.step leaseTimeout (.abort w)).getD p.queue }

/-- Several steps in a row. -/
def steps (leaseTimeout : Timedelta) (p : Platform) (actions : List PlatformAction) :
    Option Platform :=
  actions.foldlM (step leaseTimeout) p

end Platform

end AutomationPlatform
