/-
Terminal states are absorbing, and results are written once.

A call may touch its task, the task's children, the workflow and all of the
workflow's tasks.  What it may do to each of them is a move from a short list, and
a row that is over is not touched at all.  This is read off the effects, for every
row at once.

It is stated twice: of a call that runs alone on a reachable store, and of every
call ever committed by any number of sessions at a time.
-/
import AutomationPlatform.Proofs.Executions.Linearize
import AutomationPlatform.Proofs.Executions.RowSteps

namespace AutomationPlatform

/-! ### The moves of a row -/

/-- Along these the status of a task moves, when it moves. -/
inductive StatusMove : TaskStatus → TaskStatus → Prop
  | start : StatusMove .pending .running
  | resume : StatusMove .running .running
  | complete : StatusMove .running .completed
  | fail : StatusMove .running .failed
  | cancelPending : StatusMove .pending .cancelled
  | cancelRunning : StatusMove .running .cancelled

/-- What one call may do to a task row. -/
structure TaskMove (t t' : TaskExecutionModel) : Prop where
  /-- What was compiled into the row stays. -/
  same : SameTask t t'
  /-- A terminal row keeps every column. -/
  terminal : t.status.isTerminal = true → t' = t
  status : t'.status = t.status ∨ StatusMove t.status t'.status
  startedAt : t.startedAt.isSome = true → t'.startedAt = t.startedAt

theorem TaskMove.refl (t : TaskExecutionModel) : TaskMove t t :=
  ⟨.refl t, fun _ => rfl, Or.inl rfl, fun _ => rfl⟩

/-- What one call may do to a store: it adds and removes no row, and moves these. -/
structure StoreMove (s s' : ExecutionStore) : Prop where
  keys : s'.keys = s.keys
  task : ∀ i t, taskRow s i = some t → ∃ t', taskRow s' i = some t' ∧ TaskMove t t'
  workflow : ∀ i w, workflowRow s i = some w → ∃ w', workflowRow s' i = some w' ∧
    (w.status = .completed ∨ w.status = .failed → w' = w)

theorem StoreMove.refl (s : ExecutionStore) : StoreMove s s :=
  ⟨rfl, fun _ t h => ⟨t, h, TaskMove.refl t⟩, fun _ w h => ⟨w, h, fun _ => rfl⟩⟩

/-- A status that moves is not terminal. -/
theorem StatusMove.open {a b : TaskStatus} (h : StatusMove a b) : a.isTerminal = false := by
  cases h <;> rfl

theorem TaskMove.of_status {t t' : TaskExecutionModel} (hsame : SameTask t t')
    (hstatus : StatusMove t.status t'.status)
    (hstarted : t.startedAt.isSome = true → t'.startedAt = t.startedAt) : TaskMove t t' where
  same := hsame
  terminal := by
    intro ht
    rw [hstatus.open] at ht
    simp at ht
  status := Or.inr hstatus
  startedAt := hstarted

/-! ### Every effect moves along them -/

/-- A step of a task is a move; a task that is taken up must not have been started before. -/
theorem TaskStep.move {i : UUID} {call : Call} {t t' : TaskExecutionModel}
    (h : TaskStep i t call t') (hunstarted : t.status = .pending → t.startedAt = none) :
    TaskMove t t' := by
  cases h with
  | same => exact .refl t
  | start hpending =>
      refine .of_status ⟨rfl, rfl, rfl, rfl, rfl, rfl, rfl⟩ (by rw [hpending]; exact .start) ?_
      intro hs
      rw [hunstarted hpending] at hs
      simp at hs
  | complete _ hrunning =>
      exact .of_status ⟨rfl, rfl, rfl, rfl, rfl, rfl, rfl⟩ (by rw [hrunning]; exact .complete)
        fun _ => rfl
  | release hblocked =>
      refine ⟨⟨rfl, rfl, rfl, rfl, rfl, rfl, rfl⟩, fun ht => ?_, Or.inl rfl, fun _ => rfl⟩
      rw [hblocked.1] at ht
      simp [TaskStatus.isTerminal] at ht
  | again _ hrunning =>
      exact .of_status ⟨rfl, rfl, rfl, rfl, rfl, rfl, rfl⟩ (by rw [hrunning]; exact .resume)
        fun _ => rfl
  | fail _ hrunning =>
      exact .of_status ⟨rfl, rfl, rfl, rfl, rfl, rfl, rfl⟩ (by rw [hrunning]; exact .fail)
        fun _ => rfl
  | cancel _ hopen =>
      refine .of_status ⟨rfl, rfl, rfl, rfl, rfl, rfl, rfl⟩ ?_ fun _ => rfl
      rcases TaskStatus.not_terminal_iff.mp hopen with ho | ho <;> rw [ho]
      · exact .cancelPending
      · exact .cancelRunning

section Effects

variable {s s' base : ExecutionStore}

/-- A workflow that is over stays as it is. -/
theorem Effect.workflow_kept (h : Coherent s) {call : Call} {result : CallResult}
    (heffect : Effect base s call result s') {i : UUID} {w : WorkflowExecutionModel}
    (hi : workflowRow s i = some w) (hover : w.status = .completed ∨ w.status = .failed) :
    workflowRow s' i = some w := by
  -- The workflow of a task that is running is running too.
  have hlive : ∀ {id : UUID} {t : TaskExecutionModel}, taskRow s id = some t →
      t.status = .running → i ≠ t.workflowExecutionId := by
    rintro id t hrow hrunning rfl
    obtain ⟨w', hw', hr⟩ := h.live hrow (by rw [hrunning]; rfl)
    obtain rfl : w = w' := Option.some.inj (hi.symm.trans hw')
    rcases hover with ho | ho <;> rw [hr] at ho <;> simp at ho
  cases heffect with
  | startRefused => exact hi
  | startResumed => exact hi
  | completeMissed => exact hi
  | retryMissed => exact hi
  | startTaken => rw [workflowRow_mapRows, hi]; rfl
  | retryAgain => rw [workflowRow_mapRows, hi]; rfl
  | completeDone hrow hrunning _ =>
      rw [workflowRow_mapRows, hi, Option.map_some,
        completeChange_workflow fun hfin => hlive hrow hrunning hfin.2]
  | retryFailed hrow hrunning _ =>
      rw [workflowRow_mapRows, hi, Option.map_some, failChange_workflow (hlive hrow hrunning)]

/-- Whatever a call does, it moves rows along the list only. -/
theorem Effect.storeMove (h : Coherent s) {call : Call} {result : CallResult}
    (heffect : Effect base s call result s') : StoreMove s s' where
  keys := by cases heffect <;> rfl
  task := by
    intro i t hi
    obtain ⟨t', hi', hstep⟩ := heffect.taskRow_after hi
    exact ⟨t', hi', hstep.move (h.ok i t hi).startedAt⟩
  workflow := by
    intro i w hi
    obtain ⟨w', hi', -⟩ := heffect.workflowRow_after hi
    refine ⟨w', hi', fun hover => ?_⟩
    exact Option.some.inj (hi'.symm.trans (heffect.workflow_kept h hi hover))

/-- What a call reports that has found nothing to do. -/
def Call.idleResult : Call → CallResult
  | .startTask _ _ => .started none
  | .completeTask _ => .completed { runnableTaskExecutionIds := [], workflowCompleted := false }
  | .retryTask _ => .retried { shouldRetry := false, workflowFailed := false }

/-- The task of the call is running. -/
def Running (s : ExecutionStore) (id : UUID) : Prop :=
  ∃ t, taskRow s id = some t ∧ t.status = .running

/-- Completing or retrying a task that is not running does nothing, and says so. -/
theorem Effect.idle {call : Call} {result : CallResult}
    (heffect : Effect base s call result s') (hcall : ∀ id startedAt, call ≠ .startTask id startedAt)
    (hidle : ¬ Running s call.taskExecutionId) : s' = s ∧ result = call.idleResult := by
  cases heffect with
  | startRefused => exact absurd rfl (hcall _ _)
  | startResumed => exact absurd rfl (hcall _ _)
  | startTaken => exact absurd rfl (hcall _ _)
  | completeMissed => exact ⟨rfl, rfl⟩
  | completeDone hrow hrunning _ => exact absurd ⟨_, hrow, hrunning⟩ hidle
  | retryMissed => exact ⟨rfl, rfl⟩
  | retryAgain hrow hrunning _ => exact absurd ⟨_, hrow, hrunning⟩ hidle
  | retryFailed hrow hrunning _ => exact absurd ⟨_, hrow, hrunning⟩ hidle

end Effects

/-! ### Calls on reachable stores -/

/-- An update by primary key on a row that fails its condition selects nothing. -/
theorem matched_updateTask_none {s : ExecutionStore} {id : UUID}
    {cond : TaskExecutionModel → Bool} {set : TaskExecutionModel → TaskExecutionModel}
    (h : ∀ t, taskRow s id = some t → cond t = false) :
    (WorkflowExecutionRepository.updateTask id cond set).matched s = none := by
  cases hm : (WorkflowExecutionRepository.updateTask id cond set).matched s with
  | none => rfl
  | some t =>
      obtain ⟨-, hrow, hcond⟩ := Sql.RowUpdate.matched_some.mp hm
      exact absurd ((h t hrow).symm.trans hcond) (by simp)

/-- Alone, too, completing or retrying a task that is not running does nothing. -/
theorem exec_idle {s : ExecutionStore} {call : Call}
    (hcall : ∀ id startedAt, call ≠ .startTask id startedAt)
    (hidle : ¬ Running s call.taskExecutionId) :
    call.body.exec s = (s, .ok call.idleResult) := by
  have hstatus : ∀ t, taskRow s call.taskExecutionId = some t → (t.status == .running) = false := by
    intro t ht
    rw [beq_eq_false_iff_ne]
    exact fun hr => hidle ⟨t, ht, hr⟩
  cases call with
  | startTask id startedAt => exact absurd rfl (hcall id startedAt)
  | completeTask request =>
      have hm : (WorkflowExecutionRepository.completeUpdate request).matched s = none :=
        matched_updateTask_none hstatus
      rw [completeTask_body]
      simp only [Sql.Program.exec, Sql.Program.run, Sql.Store.overlay_empty, hm]
      rfl
  | retryTask request =>
      have hm : (WorkflowExecutionRepository.retryUpdate request).matched s = none :=
        matched_updateTask_none fun t ht => by rw [hstatus t ht]; rfl
      rw [retryTask_body]
      simp only [Sql.Program.exec, Sql.Program.run, Sql.Store.overlay_empty, hm]
      rfl

/-- A call on a store keeps what is over, and leaves alone what is not running. -/
structure Respectful (call : Call) (result : Except String CallResult) (s s' : ExecutionStore) :
    Prop where
  move : StoreMove s s'
  idle : (∀ id startedAt, call ≠ .startTask id startedAt) → ¬ Running s call.taskExecutionId →
    s' = s ∧ result = .ok call.idleResult

/--
**Terminal states are absorbing and results are write-once**: for every call alone on
a reachable store, and for every call that was committed among others.
-/
theorem terminal_absorbing {db : ExecutionDb} (h : ReachableDb db) :
    (∀ call, Respectful call (call.body.exec db.store).2 db.store (call.body.exec db.store).1) ∧
      ∀ call result base before after, .committed call result base before after ∈ db.log →
        Respectful call (.ok result) before after := by
  refine ⟨fun call => ⟨?_, fun hcall hidle => ?_⟩, fun call result base before after hmem => ?_⟩
  · rcases exec_effect (reachable_coherent h) call with ⟨e, he⟩ | ⟨s', result, he, heffect⟩
    · rw [he]; exact .refl _
    · rw [he]; exact heffect.storeMove (reachable_coherent h)
  · rw [exec_idle hcall hidle]
    exact ⟨rfl, rfl⟩
  · obtain ⟨⟨_, -, hrun⟩, -, -, heffect⟩ := (reachable_run h).committed hmem
    refine ⟨heffect.storeMove hrun.coherent, fun hcall hidle => ?_⟩
    obtain ⟨hs, hr⟩ := heffect.idle hcall hidle
    exact ⟨hs, congrArg Except.ok hr⟩

theorem terminal_absorbing_sample :
    completed (dbAfter sampleSteps).store 1 = true ∧
      ∀ call, Respectful call (call.body.exec (dbAfter sampleSteps).store).2
        (dbAfter sampleSteps).store (call.body.exec (dbAfter sampleSteps).store).1 :=
  ⟨by rfl, (terminal_absorbing sample_reachable).1⟩

end AutomationPlatform
