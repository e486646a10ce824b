/-
What one call does to one row.

An effect is a change of the whole store.  Most of what is said of a task over time is
said of its row alone, and then the store does not matter: the row stays as it is, or one
of six things happens to it.  A workflow row stays as it is, or ends.
-/
import AutomationPlatform.Proofs.Executions.Coherence

namespace AutomationPlatform

/-- What a call may do to the row of task `i`. -/
inductive TaskStep (i : UUID) (t : TaskExecutionModel) : Call → TaskExecutionModel → Prop
  | same {call : Call} : TaskStep i t call t
  | start {startedAt : Datetime} (hpending : t.status = .pending) :
      TaskStep i t (.startTask i startedAt) (t.start startedAt)
  | complete {request : CompleteTaskExecutionRequest} (hid : request.taskExecutionId = i)
      (hrunning : t.status = .running) : TaskStep i t (.completeTask request) (t.complete request)
  | release {request : CompleteTaskExecutionRequest} (hblocked : t.blocked) :
      TaskStep i t (.completeTask request) t.release
  | again {request : RetryTaskExecutionRequest} (hid : request.taskExecutionId = i)
      (hrunning : t.status = .running) (htries : 1 < t.remainingTries) :
      TaskStep i t (.retryTask request) (t.again request)
  | fail {request : RetryTaskExecutionRequest} (hid : request.taskExecutionId = i)
      (hrunning : t.status = .running) (htries : t.remainingTries = 1) :
      TaskStep i t (.retryTask request) (t.fail request)
  | cancel {request : RetryTaskExecutionRequest} (hid : request.taskExecutionId ≠ i)
      (hopen : t.status.isTerminal = false) :
      TaskStep i t (.retryTask request) (t.cancel request.completedAt)

/-- What a call may do to the row of a workflow. -/
inductive WorkflowStep (w : WorkflowExecutionModel) : Call → WorkflowExecutionModel → Prop
  | same {call : Call} : WorkflowStep w call w
  | complete {request : CompleteTaskExecutionRequest} :
      WorkflowStep w (.completeTask request) (w.finish .completed request.completedAt)
  | fail {request : RetryTaskExecutionRequest} :
      WorkflowStep w (.retryTask request) (w.finish .failed request.completedAt)

section Steps

variable {base s s' : ExecutionStore} {call : Call} {result : CallResult} {i : UUID}

theorem taskStep_unchanged {t t' : TaskExecutionModel} (hi : taskRow s i = some t)
    (hi' : taskRow s i = some t') : TaskStep i t call t' := by
  obtain rfl : t = t' := Option.some.inj (hi.symm.trans hi')
  exact .same

/-- **A call takes a task row one step.** -/
theorem Effect.taskStep (h : Effect base s call result s') {t t' : TaskExecutionModel}
    (hi : taskRow s i = some t) (hi' : taskRow s' i = some t') : TaskStep i t call t' := by
  cases h with
  | startRefused => exact taskStep_unchanged hi hi'
  | startResumed => exact taskStep_unchanged hi hi'
  | completeMissed => exact taskStep_unchanged hi hi'
  | retryMissed => exact taskStep_unchanged hi hi'
  | @startTaken id startedAt _ task _ _ _ hrow hpending _ =>
      rw [taskRow_mapRows, hi, Option.map_some, Option.some.injEq] at hi'
      subst hi'
      by_cases hid : i = id
      · subst hid
        obtain rfl : t = task := Option.some.inj (hi.symm.trans hrow)
        rw [startChange, if_pos rfl]
        exact .start hpending
      · rw [startChange, if_neg hid]
        exact .same
  | @completeDone request task finished hrow hrunning _ =>
      rw [taskRow_mapRows, hi, Option.map_some, Option.some.injEq] at hi'
      subst hi'
      rcases completeChange_cases finished hrow hi with
        ⟨hid, rfl, hc⟩ | ⟨-, -, hblocked, hc⟩ | ⟨-, -, hc⟩ <;> rw [hc]
      · exact .complete hid.symm hrunning
      · exact .release hblocked
      · exact .same
  | @retryAgain request task hrow hrunning htries =>
      rw [taskRow_mapRows, hi, Option.map_some, Option.some.injEq] at hi'
      subst hi'
      by_cases hid : i = request.taskExecutionId
      · subst hid
        obtain rfl : t = task := Option.some.inj (hi.symm.trans hrow)
        rw [retryChange, if_pos rfl]
        exact .again rfl hrunning htries
      · rw [retryChange, if_neg hid]
        exact .same
  | @retryFailed request task hrow hrunning htries =>
      rw [taskRow_mapRows, hi, Option.map_some, Option.some.injEq] at hi'
      subst hi'
      rcases failChange_cases hrow hi with ⟨hid, rfl, hc⟩ | ⟨hid, -, hopen, hc⟩ | ⟨-, -, hc⟩ <;>
        rw [hc]
      · exact .fail hid.symm hrunning htries
      · exact .cancel (fun h => hid h.symm) hopen
      · exact .same

/-- A call adds no task row and loses none. -/
theorem Effect.isSome_taskRow (h : Effect base s call result s') (i : UUID) :
    (taskRow s' i).isSome = (taskRow s i).isSome := by
  cases h <;> simp [taskRow_mapRows]

theorem Effect.isSome_workflowRow (h : Effect base s call result s') (i : UUID) :
    (workflowRow s' i).isSome = (workflowRow s i).isSome := by
  cases h <;> simp [workflowRow_mapRows]

theorem workflowStep_unchanged {w w' : WorkflowExecutionModel} (hi : workflowRow s i = some w)
    (hi' : workflowRow s i = some w') : WorkflowStep w call w' := by
  obtain rfl : w = w' := Option.some.inj (hi.symm.trans hi')
  exact .same

/-- **A call takes a workflow row one step.** -/
theorem Effect.workflowStep (h : Effect base s call result s') {w w' : WorkflowExecutionModel}
    (hi : workflowRow s i = some w) (hi' : workflowRow s' i = some w') :
    WorkflowStep w call w' := by
  cases h with
  | startRefused => exact workflowStep_unchanged hi hi'
  | startResumed => exact workflowStep_unchanged hi hi'
  | completeMissed => exact workflowStep_unchanged hi hi'
  | retryMissed => exact workflowStep_unchanged hi hi'
  | startTaken =>
      rw [workflowRow_mapRows, hi, Option.map_some, Option.some.injEq] at hi'
      exact hi' ▸ .same
  | retryAgain =>
      rw [workflowRow_mapRows, hi, Option.map_some, Option.some.injEq] at hi'
      exact hi' ▸ .same
  | @completeDone request task finished hrow hrunning _ =>
      rw [workflowRow_mapRows, hi, Option.map_some, Option.some.injEq] at hi'
      subst hi'
      by_cases hfin : finished = true ∧ i = task.workflowExecutionId
      · obtain ⟨rfl, rfl⟩ := hfin
        rw [completeChange_finish]
        exact .complete
      · rw [completeChange_workflow hfin]
        exact .same
  | @retryFailed request task hrow hrunning htries =>
      rw [workflowRow_mapRows, hi, Option.map_some, Option.some.injEq] at hi'
      subst hi'
      by_cases hid : i = task.workflowExecutionId
      · subst hid
        rw [failChange_finish]
        exact .fail
      · rw [failChange_workflow hid]
        exact .same

/-! ### The row on the other side -/

theorem Effect.taskRow_after (h : Effect base s call result s') {t : TaskExecutionModel}
    (hi : taskRow s i = some t) : ∃ t', taskRow s' i = some t' ∧ TaskStep i t call t' := by
  obtain ⟨t', hi'⟩ := Option.isSome_iff_exists.mp
    ((h.isSome_taskRow i).trans (by rw [hi]; rfl))
  exact ⟨t', hi', h.taskStep hi hi'⟩

theorem Effect.taskRow_before (h : Effect base s call result s') {t' : TaskExecutionModel}
    (hi' : taskRow s' i = some t') : ∃ t, taskRow s i = some t ∧ TaskStep i t call t' := by
  obtain ⟨t, hi⟩ := Option.isSome_iff_exists.mp
    ((h.isSome_taskRow i).symm.trans (by rw [hi']; rfl))
  exact ⟨t, hi, h.taskStep hi hi'⟩

theorem Effect.workflowRow_after (h : Effect base s call result s') {w : WorkflowExecutionModel}
    (hi : workflowRow s i = some w) : ∃ w', workflowRow s' i = some w' ∧ WorkflowStep w call w' := by
  obtain ⟨w', hi'⟩ := Option.isSome_iff_exists.mp
    ((h.isSome_workflowRow i).trans (by rw [hi]; rfl))
  exact ⟨w', hi', h.workflowStep hi hi'⟩

theorem Effect.workflowRow_before (h : Effect base s call result s') {w' : WorkflowExecutionModel}
    (hi' : workflowRow s' i = some w') :
    ∃ w, workflowRow s i = some w ∧ WorkflowStep w call w' := by
  obtain ⟨w, hi⟩ := Option.isSome_iff_exists.mp
    ((h.isSome_workflowRow i).symm.trans (by rw [hi']; rfl))
  exact ⟨w, hi, h.workflowStep hi hi'⟩

end Steps

end AutomationPlatform
