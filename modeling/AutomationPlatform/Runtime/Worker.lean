/-
One worker by itself: its loop, with `process` as one function.

Between two statements of this worker nothing happens to the stores but its own heartbeats.
Each transaction is run whole, and what is left of a round of the loop is what it did to the
two stores.  Many workers at once are in `Runtime/Platform.lean`.

Everything the program does not decide is an input of the round: the clock readings, the token
drawn, the heartbeats, and the order in which the scan of a claim meets the rows.

The driver is assumed to take the INSERT of every `finish`: a task has at most 10922 children.
-/
import AutomationPlatform.Runtime.Platform

namespace AutomationPlatform

/-- `claim` on rows that no other session has locked: the claim, and the rows with its lease. -/
def PostgresExecutionQueue.claim (leaseTimeout : Timedelta) (rows : ExecutionQueue)
    (workerId claimToken : UUID) (now : Datetime) : Option (Claim × ExecutionQueue) :=
  (select rows (fun _ => false) (now - leaseTimeout)).map fun entry =>
    let claim := { taskExecutionId := entry.taskExecutionId, claimToken }
    (claim, grant rows claim workerId now)

/-! ### Processing a task -/

/-- What one `process` leaves: the store, what the plugin returned if it was executed and did
not raise, and the result or the exception. -/
structure ProcessedTask where
  executions : ExecutionStore
  executed : Option TaskResult := none
  result : Except String ProcessTaskResult

namespace TaskProcessingService

/-- `_start_task`.  A task that cannot be processed is left without a commit. -/
def startTask (s : ExecutionStore) (taskExecutionId : UUID) (startedAt : Datetime) :
    ExecutionStore × Except String (Option StartTaskExecutionResult) :=
  match (Call.startTask taskExecutionId startedAt).body.exec s with
  | (s', .ok (.started (some task))) => (s', .ok (some task))
  | (_, .ok _) => (s, .ok none)
  | (_, .error e) => (s, .error e)

/-- What `_complete_task` and `_retry_task` make of what their transactions return. -/
def processResult : CallResult → ProcessTaskResult
  | .started _ => {}
  | .completed result => { enqueueTaskIds := result.runnableTaskExecutionIds }
  | .retried result => { shouldRetry := result.shouldRetry }

/-- `process`.  Looking the plugin up and executing it is `execute`. -/
def process (execute : StartTaskExecutionResult → Except String TaskResult) (s : ExecutionStore)
    (taskExecutionId : UUID) (startedAt completedAt : Datetime) : ProcessedTask :=
  match startTask s taskExecutionId startedAt with
  | (s', .error e) => { executions := s', result := .error e }
  | (s', .ok none) => { executions := s', result := .ok {} }
  | (s', .ok (some task)) =>
      match execute task with
      | .error e => { executions := s', result := .error e }
      | .ok result =>
          let (s'', returned) := (reportCall taskExecutionId result completedAt).body.exec s'
          { executions := s'', executed := some result, result := returned.map processResult }

end TaskProcessingService

/-! ### The loop -/

/-- What one round of the loop meets. -/
structure Round where
  /-- The rows of the queue, in the order of a scan. -/
  scan : ExecutionQueue → ExecutionQueue
  scan_perm : ∀ queue, (scan queue).Perm queue
  claimedAt : Datetime
  claimToken : UUID
  startedAt : Datetime
  heartbeats : List Datetime
  completedAt : Datetime
  finishedAt : Datetime

/-- The two stores with one worker on them, between two rounds of its loop, and the executions
of plugins so far: of which task, and what they returned. -/
structure SoleWorker where
  executions : ExecutionStore
  queue : ExecutionQueue
  executed : List (UUID × TaskResult) := []

namespace SoleWorker

/-- How often the plugin of a task has been executed. -/
def attempts (σ : SoleWorker) (taskExecutionId : UUID) : Nat :=
  (σ.executed.map (·.1)).count taskExecutionId

/-- `_heartbeat`: whether it raises `claim_untrusted_event`. -/
def heartbeat (queue : ExecutionQueue) (claim : Claim) : List Datetime → ExecutionQueue × Bool
  | [] => (queue, false)
  | now :: rest =>
      match PostgresExecutionQueue.heartbeat queue claim now with
      | (queue', true) => heartbeat queue' claim rest
      | (queue', false) => (queue', true)

/-- The end of `_process_claim`: `release`, `finish` or neither. -/
def dispose (queue : ExecutionQueue) (claim : Claim) (claimUntrusted : Bool) (now : Datetime) :
    Except String ProcessTaskResult → ExecutionQueue
  | .error _ => queue
  | .ok result =>
      if claimUntrusted then queue
      else if result.shouldRetry then PostgresExecutionQueue.release queue claim
      else PostgresExecutionQueue.finish queue claim result.enqueueTaskIds now

/-- `_process_claim`. -/
def processClaim (execute : StartTaskExecutionResult → Except String TaskResult) (round : Round)
    (claim : Claim) (σ : SoleWorker) : SoleWorker :=
  let processed := TaskProcessingService.process execute σ.executions claim.taskExecutionId
    round.startedAt round.completedAt
  let (queue, claimUntrusted) := heartbeat σ.queue claim round.heartbeats
  { executions := processed.executions
    queue := dispose queue claim claimUntrusted round.finishedAt processed.result
    executed := σ.executed ++
      (processed.executed.map fun result => (claim.taskExecutionId, result)).toList }

/-- One round of `run`.  What an execution of a plugin comes to depends on the task, on how
often it was executed before, and on what it is given. -/
def step (leaseTimeout : Timedelta) (workerId : UUID)
    (plugins : UUID → Nat → StartTaskExecutionResult → Except String TaskResult) (round : Round)
    (σ : SoleWorker) : SoleWorker :=
  match PostgresExecutionQueue.claim leaseTimeout (round.scan σ.queue) workerId round.claimToken
      round.claimedAt with
  | none => σ
  | some (claim, queue) =>
      processClaim (plugins claim.taskExecutionId (σ.attempts claim.taskExecutionId)) round claim
        { σ with queue := queue }

/-- `run`, after so many rounds. -/
def run (leaseTimeout : Timedelta) (workerId : UUID)
    (plugins : UUID → Nat → StartTaskExecutionResult → Except String TaskResult)
    (rounds : Nat → Round) (σ : SoleWorker) : Nat → SoleWorker
  | 0 => σ
  | n + 1 => step leaseTimeout workerId plugins (rounds n)
      (run leaseTimeout workerId plugins rounds σ n)

end SoleWorker

end AutomationPlatform
