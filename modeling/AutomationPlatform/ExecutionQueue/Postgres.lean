/-
The execution queue in PostgreSQL, and the system of its concurrent sessions.

The table holds one row for each task execution to be worked on.  A row is leased
while its four lease columns are set: the worker that holds it, the token of the
claim, and when the lease was taken and last renewed.  `claim` looks at who holds
the row and when it was renewed; `heartbeat`, `release` and `finish` look at the
token alone.

Each of the last three is one statement on one row, and is taken as atomic.  The
claim is not: it locks a row first and commits the new lease later, and in between
other sessions go on.  A statement that matches a locked row has to wait for it, so
here it is not possible until the claim is over.
-/
import Mathlib.Data.List.Sort
import AutomationPlatform.Domain

namespace AutomationPlatform

/-- A worker's lease on a task execution. -/
structure Claim where
  taskExecutionId : UUID
  claimToken : UUID
  deriving DecidableEq

structure QueueEntryModel where
  taskExecutionId : UUID
  claimToken : Option UUID := none
  claimedBy : Option UUID := none
  queuedAt : Datetime
  claimedAt : Option Datetime := none
  lastHeartbeat : Option Datetime := none

/-- The rows of the table, in no particular order. -/
abbrev ExecutionQueue := List QueueEntryModel

/-- The row the claim speaks of, as long as it is the current one. -/
def Claim.holds (claim : Claim) (entry : QueueEntryModel) : Bool :=
  entry.taskExecutionId = claim.taskExecutionId ∧ entry.claimToken = some claim.claimToken

namespace QueueEntryModel

/-- What `claim` writes into the row. -/
def lease (entry : QueueEntryModel) (workerId claimToken : UUID) (now : Datetime) :
    QueueEntryModel :=
  { entry with
    claimedBy := some workerId
    claimToken := some claimToken
    claimedAt := some now
    lastHeartbeat := some now }

def renew (entry : QueueEntryModel) (now : Datetime) : QueueEntryModel :=
  { entry with lastHeartbeat := some now }

/-- What `release` writes into the row. -/
def free (entry : QueueEntryModel) : QueueEntryModel :=
  { entry with claimToken := none, claimedBy := none, claimedAt := none, lastHeartbeat := none }

/-- Nobody holds the row, or its lease was last renewed by the expiration time. -/
def claimable (entry : QueueEntryModel) (expiration : Datetime) : Bool :=
  entry.claimedBy.isNone || entry.lastHeartbeat.any (· ≤ expiration)

end QueueEntryModel

namespace PostgresExecutionQueue

/-! ### The statements -/

/-- Insert a row for each task execution that has none, and leave the other rows alone. -/
def insertQueueEntries (queue : ExecutionQueue) (taskExecutionIds : List UUID)
    (queuedAt : Datetime) : ExecutionQueue :=
  taskExecutionIds.foldl (fun queue taskExecutionId =>
    if queue.any (·.taskExecutionId = taskExecutionId) then queue
    else queue ++ [{ taskExecutionId := taskExecutionId, queuedAt := queuedAt }]) queue

def enqueue (queue : ExecutionQueue) (taskExecutionIds : List UUID) (now : Datetime) :
    ExecutionQueue :=
  insertQueueEntries queue taskExecutionIds now

/-- The row `claim` locks: the first queued of the claimable ones that are not locked. -/
def select (queue : ExecutionQueue) (locked : UUID → Bool) (expiration : Datetime) :
    Option QueueEntryModel :=
  ((queue.filter fun entry => entry.claimable expiration && !locked entry.taskExecutionId)
    |>.insertionSort fun e f => e.queuedAt ≤ f.queuedAt).head?

/-- Writing the lease into the locked row, found by its primary key. -/
def grant (queue : ExecutionQueue) (claim : Claim) (workerId : UUID) (now : Datetime) :
    ExecutionQueue :=
  queue.map fun entry =>
    if entry.taskExecutionId = claim.taskExecutionId then
      entry.lease workerId claim.claimToken now
    else entry

/-- Renew the lease; whether that was still possible. -/
def heartbeat (queue : ExecutionQueue) (claim : Claim) (now : Datetime) : ExecutionQueue × Bool :=
  (queue.map fun entry => if claim.holds entry then entry.renew now else entry,
    queue.countP claim.holds = 1)

def release (queue : ExecutionQueue) (claim : Claim) : ExecutionQueue :=
  queue.map fun entry => if claim.holds entry then entry.free else entry

/-- Remove the row, and enqueue what became runnable if there was a row to remove. -/
def finish (queue : ExecutionQueue) (claim : Claim) (runnableTaskIds : List UUID)
    (now : Datetime) : ExecutionQueue :=
  if queue.countP claim.holds = 1 then
    insertQueueEntries (queue.filter fun entry => !claim.holds entry) runnableTaskIds now
  else queue.filter fun entry => !claim.holds entry

end PostgresExecutionQueue

/-! ### The sessions -/

/-- A `claim` that has locked its row and not committed the lease yet. -/
structure Claiming where
  workerId : UUID
  now : Datetime
  queueEntry : QueueEntryModel

/--
The committed table, the claims in flight, and which session has locked which row.

Two things are kept that the database does not hold: the latest clock reading, and the
claims handed out so far, against which a new token is fresh.
-/
structure QueueDb where
  queue : ExecutionQueue
  claiming : Nat → Option Claiming
  locks : UUID → Option Nat
  clock : Datetime
  granted : List Claim

inductive QueueAction where
  | enqueue (taskExecutionIds : List UUID) (now : Datetime)
  /-- `claim` reads the clock and locks a row, if it finds one.  It passes over the rows
  that claims in flight have locked, and over `skipped`: those that the statements of other
  sessions hold just then. -/
  | lock (session : Nat) (workerId : UUID) (skipped : List UUID) (now : Datetime)
  /-- `claim` draws a token and commits the lease. -/
  | grant (session : Nat) (claimToken : UUID)
  /-- The session of a `claim` breaks off and its lock is gone. -/
  | abort (session : Nat)
  | heartbeat (claim : Claim) (now : Datetime)
  | release (claim : Claim)
  | finish (claim : Claim) (runnableTaskIds : List UUID) (now : Datetime)
  deriving DecidableEq

namespace QueueDb

def init (clock : Datetime) : QueueDb :=
  { queue := [], claiming := fun _ => none, locks := fun _ => none, clock, granted := [] }

/-- Some row is leased under the claim. -/
def current (db : QueueDb) (claim : Claim) : Bool :=
  db.queue.any claim.holds

/-- A statement on the claim's row need not wait: it matches none, or no session has locked it. -/
def free (db : QueueDb) (claim : Claim) : Bool :=
  !db.current claim || (db.locks claim.taskExecutionId).isNone

/-- A token that no claim handed out so far has. -/
def fresh (db : QueueDb) (claimToken : UUID) : Bool :=
  !db.granted.any (·.claimToken = claimToken)

def unlock (db : QueueDb) (session : Nat) : UUID → Option Nat :=
  fun i => if db.locks i = some session then none else db.locks i

/--
One step of the system; `none` when the step is not possible.

Clock readings do not decrease from one step to the next, and the tokens drawn are fresh.
-/
def step (leaseTimeout : Timedelta) (db : QueueDb) : QueueAction → Option QueueDb
  | .enqueue taskExecutionIds now =>
      if db.clock ≤ now then
        some { db with
          queue := PostgresExecutionQueue.enqueue db.queue taskExecutionIds now
          clock := now }
      else none
  | .lock session workerId skipped now =>
      if db.clock ≤ now ∧ (db.claiming session).isNone then
        match PostgresExecutionQueue.select db.queue
            (fun i => (db.locks i).isSome || skipped.contains i) (now - leaseTimeout) with
        | none => some { db with clock := now }
        | some queueEntry =>
            some { db with
              claiming := Function.update db.claiming session
                (some { workerId, now, queueEntry })
              locks := Function.update db.locks queueEntry.taskExecutionId (some session)
              clock := now }
      else none
  | .grant session claimToken =>
      match db.claiming session with
      | none => none
      | some claiming =>
          if db.fresh claimToken then
            let claim := { taskExecutionId := claiming.queueEntry.taskExecutionId, claimToken }
            some { db with
              queue := PostgresExecutionQueue.grant db.queue claim claiming.workerId claiming.now
              claiming := Function.update db.claiming session none
              locks := db.unlock session
              granted := db.granted ++ [claim] }
          else none
  | .abort session =>
      match db.claiming session with
      | none => none
      | some _ =>
          some { db with
            claiming := Function.update db.claiming session none
            locks := db.unlock session }
  | .heartbeat claim now =>
      if db.clock ≤ now ∧ db.free claim then
        some { db with
          queue := (PostgresExecutionQueue.heartbeat db.queue claim now).1
          clock := now }
      else none
  | .release claim =>
      if db.free claim then
        some { db with queue := PostgresExecutionQueue.release db.queue claim }
      else none
  | .finish claim runnableTaskIds now =>
      if db.clock ≤ now ∧ db.free claim then
        some { db with
          queue := PostgresExecutionQueue.finish db.queue claim runnableTaskIds now
          clock := now }
      else none

/-- Several steps in a row. -/
def steps (leaseTimeout : Timedelta) (db : QueueDb) (actions : List QueueAction) :
    Option QueueDb :=
  actions.foldlM (step leaseTimeout) db

/-- The states reached from an empty queue. -/
inductive Reachable (leaseTimeout : Timedelta) : QueueDb → Prop
  | init (clock : Datetime) : Reachable leaseTimeout (init clock)
  | step {db db' : QueueDb} (h : Reachable leaseTimeout db) (action : QueueAction)
      (hs : db.step leaseTimeout action = some db') : Reachable leaseTimeout db'

end QueueDb

end AutomationPlatform
