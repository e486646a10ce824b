/-
The abstract machine: every call is one step.

A call of the repository is a sequence of statements, and the statements of many
calls interleave.  The machine here knows nothing of that.  Its state is the
committed store, and a call takes it from one store to the next in one step,
`Effect`, by changing some rows and no others.  `Run` is the history of such steps
and of the creation of executions.

What is left of concurrency in an `Effect` is what a call cannot avoid: it began
on an earlier store, `base`, and what it only read may be of any store in between.

That the interleaved system does nothing the machine does not is
`Proofs/Executions/Linearize.lean`.
-/
import AutomationPlatform.Proofs.Executions.Compile

namespace AutomationPlatform

/-! ### Row changes -/

namespace TaskExecutionModel

/-- A task is taken up. -/
def start (t : TaskExecutionModel) (startedAt : Datetime) : TaskExecutionModel :=
  { t with status := .running, startedAt := some startedAt }

/-- A task is completed. -/
def complete (t : TaskExecutionModel) (request : CompleteTaskExecutionRequest) :
    TaskExecutionModel :=
  { t with
    status := .completed
    output := some request.output.values
    completedAt := some request.completedAt }

/-- One parent of a task is done. -/
def release (t : TaskExecutionModel) : TaskExecutionModel :=
  { t with remainingDependencies := t.remainingDependencies - 1 }

/-- A try is used up, and another one is left. -/
def again (t : TaskExecutionModel) (request : RetryTaskExecutionRequest) : TaskExecutionModel :=
  { t with
    remainingTries := t.remainingTries - 1
    status := .running
    errorMessage := request.errorMessage
    completedAt := none }

/-- The last try is used up. -/
def fail (t : TaskExecutionModel) (request : RetryTaskExecutionRequest) : TaskExecutionModel :=
  { t with
    remainingTries := t.remainingTries - 1
    status := .failed
    errorMessage := request.errorMessage
    completedAt := some request.completedAt }

/-- The workflow of a task has failed. -/
def cancel (t : TaskExecutionModel) (completedAt : Datetime) : TaskExecutionModel :=
  { t with status := .cancelled, completedAt := some completedAt }

/-- A pending task with a parent still to come. -/
def blocked (t : TaskExecutionModel) : Prop := t.status = .pending ∧ 0 < t.remainingDependencies

instance (t : TaskExecutionModel) : Decidable t.blocked :=
  inferInstanceAs (Decidable (_ ∧ _))

end TaskExecutionModel

/-- A workflow execution ends. -/
def WorkflowExecutionModel.finish (w : WorkflowExecutionModel) (status : WorkflowStatus)
    (completedAt : Datetime) : WorkflowExecutionModel :=
  { w with status := status, completedAt := some completedAt }

/-! ### The changes a call makes -/

/-- A change to every row of a store. -/
abbrev Change := (k : RowId) → Row k → Row k

/-- `start_task` takes the task up. -/
def startChange (id : UUID) (startedAt : Datetime) : Change
  | .task j, t => if j = id then t.start startedAt else t
  | .workflow _, w => w

/-- `complete_task` completes the task, lets its children know, and may end the workflow. -/
def completeChange (request : CompleteTaskExecutionRequest) (task : TaskExecutionModel)
    (finished : Bool) : Change
  | .task j, t =>
      if j = request.taskExecutionId then t.complete request
      else if j ∈ task.childTaskIds ∧ t.blocked then t.release
      else t
  | .workflow j, w =>
      if finished = true ∧ j = task.workflowExecutionId then w.finish .completed request.completedAt
      else w

/-- `retry_task` keeps the task running. -/
def retryChange (request : RetryTaskExecutionRequest) : Change
  | .task j, t => if j = request.taskExecutionId then t.again request else t
  | .workflow _, w => w

/-- `retry_task` fails the task, its workflow, and cancels what is left. -/
def failChange (request : RetryTaskExecutionRequest) (workflowId : UUID) : Change
  | .task j, t =>
      if j = request.taskExecutionId then t.fail request
      else if t.workflowExecutionId = workflowId ∧ t.status.isTerminal = false then
        t.cancel request.completedAt
      else t
  | .workflow j, w => if j = workflowId then w.finish .failed request.completedAt else w

theorem completeChange_finish (request : CompleteTaskExecutionRequest) (task : TaskExecutionModel)
    (w : WorkflowExecutionModel) :
    completeChange request task true (.workflow task.workflowExecutionId) w =
      w.finish .completed request.completedAt := by
  simp [completeChange]

theorem completeChange_workflow {request : CompleteTaskExecutionRequest}
    {task : TaskExecutionModel} {finished : Bool} {i : UUID}
    (h : ¬ (finished = true ∧ i = task.workflowExecutionId)) (w : WorkflowExecutionModel) :
    completeChange request task finished (.workflow i) w = w := by
  simp only [completeChange, if_neg h]

theorem failChange_finish (request : RetryTaskExecutionRequest) (workflowId : UUID)
    (w : WorkflowExecutionModel) :
    failChange request workflowId (.workflow workflowId) w =
      w.finish .failed request.completedAt := by
  simp [failChange]

theorem failChange_workflow {request : RetryTaskExecutionRequest} {workflowId i : UUID}
    (h : i ≠ workflowId) (w : WorkflowExecutionModel) :
    failChange request workflowId (.workflow i) w = w := by
  simp [failChange, h]

/-! ### Effects -/

/-- The child waits for one more parent only. -/
def released (s : ExecutionStore) (id : UUID) : Bool :=
  (taskRow s id).any fun t => t.status == .pending && t.remainingDependencies == 1

/-- What `start_task` returns for a row, with the outputs it finds in `V`. -/
structure StartData (V : ExecutionStore) (t : TaskExecutionModel) (r : StartTaskExecutionResult) :
    Prop where
  pluginType : r.pluginType = t.pluginType
  configuration : r.configuration = t.configuration
  parentOutputs : WorkflowExecutionRepository.collectOutputs []
    (WorkflowExecutionRepository.parentModels V t.parentTaskIds) = .ok r.parentOutputs

/-- The task has been over for good when `s` was committed. -/
def Over (s : ExecutionStore) (id : UUID) : Prop :=
  ∃ t, taskRow s id = some t ∧ t.status.isTerminal = true

/-- What a call that began on `base` does to the store `s` it commits to. -/
inductive Effect (base s : ExecutionStore) : Call → CallResult → ExecutionStore → Prop
  | startRefused {id : UUID} {startedAt : Datetime}
      (hover : (taskRow base id).isSome = true → Over s id) :
      Effect base s (.startTask id startedAt) (.started none) s
  | startResumed {id : UUID} {startedAt : Datetime} {V V' : ExecutionStore}
      {t : TaskExecutionModel} {r : StartTaskExecutionResult}
      (hbase : executionTimeline.before base V) (hV : executionTimeline.before V V')
      (hs : executionTimeline.before V' s) (hrow : taskRow V id = some t)
      (hrunning : t.status = .running) (hdata : StartData V' t r) :
      Effect base s (.startTask id startedAt) (.started (some r)) s
  | startTaken {id : UUID} {startedAt : Datetime} {V : ExecutionStore}
      {t : TaskExecutionModel} {r : StartTaskExecutionResult}
      (hbase : executionTimeline.before base V) (hs : executionTimeline.before V s)
      (hrow : taskRow s id = some t) (hpending : t.status = .pending) (hdata : StartData V t r) :
      Effect base s (.startTask id startedAt) (.started (some r))
        (s.mapRows (startChange id startedAt))
  | completeMissed {request : CompleteTaskExecutionRequest}
      (hover : ∀ t₀, taskRow base request.taskExecutionId = some t₀ → t₀.status ≠ .pending →
        Over s request.taskExecutionId) :
      Effect base s (.completeTask request)
        (.completed { runnableTaskExecutionIds := [], workflowCompleted := false }) s
  | completeDone {request : CompleteTaskExecutionRequest} {t : TaskExecutionModel}
      {finished : Bool} (hrow : taskRow s request.taskExecutionId = some t)
      (hrunning : t.status = .running)
      (hfinished : finished = true → ∀ j u, taskRow s j = some u →
        u.workflowExecutionId = t.workflowExecutionId → j ≠ request.taskExecutionId →
        u.status = .completed) :
      Effect base s (.completeTask request)
        (.completed
          { runnableTaskExecutionIds := t.childTaskIds.filter (released s)
            workflowCompleted := finished })
        (s.mapRows (completeChange request t finished))
  | retryMissed {request : RetryTaskExecutionRequest}
      (hover : ∀ t₀, taskRow base request.taskExecutionId = some t₀ → t₀.status ≠ .pending →
        Over s request.taskExecutionId) :
      Effect base s (.retryTask request)
        (.retried { shouldRetry := false, workflowFailed := false }) s
  | retryAgain {request : RetryTaskExecutionRequest} {t : TaskExecutionModel}
      (hrow : taskRow s request.taskExecutionId = some t) (hrunning : t.status = .running)
      (htries : 1 < t.remainingTries) :
      Effect base s (.retryTask request)
        (.retried { shouldRetry := true, workflowFailed := false })
        (s.mapRows (retryChange request))
  | retryFailed {request : RetryTaskExecutionRequest} {t : TaskExecutionModel}
      (hrow : taskRow s request.taskExecutionId = some t) (hrunning : t.status = .running)
      (htries : t.remainingTries = 1) :
      Effect base s (.retryTask request)
        (.retried { shouldRetry := false, workflowFailed := true })
        (s.mapRows (failChange request t.workflowExecutionId))

/-- What has been committed, in order. -/
abbrev History := List (Sql.Event RowId Row Call CallResult)

/-- The histories of the machine, each with the store it leads to. -/
inductive Run : History → ExecutionStore → Prop
  | empty : Run [] .empty
  | insert {log : History} {s s' : ExecutionStore} {rows : List (Sigma Row)} (h : Run log s)
      (hrows : CompiledRows rows) (hins : s.insert? rows = some s') :
      Run (log ++ [.inserted s s']) s'
  | commit {log log₀ : History} {s s' base : ExecutionStore} {call : Call} {result : CallResult}
      (h : Run log s) (hbase : Run log₀ base) (hbefore : executionTimeline.before base s)
      (heffect : Effect base s call result s') :
      Run (log ++ [.committed call result base s s']) s'

/-! ### Rows after a change -/

section Rows

variable {s : ExecutionStore} {change : Change}

theorem taskRow_mapRows {i : UUID} :
    taskRow (s.mapRows change) i = (taskRow s i).map (change (.task i)) := rfl

theorem workflowRow_mapRows {i : UUID} :
    workflowRow (s.mapRows change) i = (workflowRow s i).map (change (.workflow i)) := rfl

/-- A changed row comes from a row that was there. -/
theorem taskRow_of_mapRows {i : UUID} {t' : TaskExecutionModel}
    (h : taskRow (s.mapRows change) i = some t') :
    ∃ t, taskRow s i = some t ∧ change (.task i) t = t' := by
  rw [taskRow_mapRows, Option.map_eq_some_iff] at h
  exact h

theorem workflowRow_of_mapRows {i : UUID} {w' : WorkflowExecutionModel}
    (h : workflowRow (s.mapRows change) i = some w') :
    ∃ w, workflowRow s i = some w ∧ change (.workflow i) w = w' := by
  rw [workflowRow_mapRows, Option.map_eq_some_iff] at h
  exact h

end Rows

end AutomationPlatform
