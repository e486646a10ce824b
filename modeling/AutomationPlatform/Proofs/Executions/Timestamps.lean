/-
What the timestamps of an execution say.

A task keeps its own timestamps in step with its status: the statement that changes the
one sets the other.  A workflow does the same for its end.  Its beginning is another
matter.  `started_at` of a workflow execution is the time its execution began, but no
statement writes the column, so it is right only while no task has been started.

Whether a task has been started is a matter of what was committed, not of its row.
-/
import AutomationPlatform.Proofs.Executions.Linearize
import AutomationPlatform.Proofs.Executions.RowSteps

namespace AutomationPlatform

/-- A committed `start_task` that took the task from pending to running. -/
def Takes (i : UUID) : Sql.Event RowId Row Call CallResult → Prop
  | .committed (.startTask j _) _ _ before after => j = i ∧
      (∃ t, taskRow before i = some t ∧ t.status = .pending) ∧
      ∃ t, taskRow after i = some t ∧ t.status = .running
  | _ => False

/-- The task has been started. -/
def Started (log : History) (i : UUID) : Prop := ∃ e ∈ log, Takes i e

/-- The timestamps of a task row agree with its status. -/
structure TaskExecutionModel.Timed (t : TaskExecutionModel) : Prop where
  completedAt : t.completedAt.isSome = true ↔
    t.status = .completed ∨ t.status = .failed ∨ t.status = .cancelled
  pending : t.status = .pending → t.startedAt = none
  started : t.status = .running ∨ t.status = .completed ∨ t.status = .failed →
    t.startedAt.isSome = true

/-- The end of a workflow row agrees with its status. -/
def WorkflowExecutionModel.Timed (w : WorkflowExecutionModel) : Prop :=
  w.completedAt.isSome = true ↔ w.status = .completed ∨ w.status = .failed

/-! ### One step -/

theorem TaskStep.timed {i : UUID} {call : Call} {t t' : TaskExecutionModel}
    (h : TaskStep i t call t') (ht : t.Timed) : t'.Timed := by
  cases h with
  | same => exact ht
  | start => exact ⟨by simp [TaskExecutionModel.start, ht.completedAt, *], by
      simp [TaskExecutionModel.start], fun _ => rfl⟩
  | complete _ hrunning =>
      exact ⟨by simp [TaskExecutionModel.complete], by simp [TaskExecutionModel.complete],
        fun _ => ht.started (Or.inl hrunning)⟩
  | release => exact ⟨ht.completedAt, ht.pending, ht.started⟩
  | again _ hrunning =>
      exact ⟨by simp [TaskExecutionModel.again], by simp [TaskExecutionModel.again],
        fun _ => ht.started (Or.inl hrunning)⟩
  | fail _ hrunning =>
      exact ⟨by simp [TaskExecutionModel.fail], by simp [TaskExecutionModel.fail],
        fun _ => ht.started (Or.inl hrunning)⟩
  | cancel =>
      exact ⟨by simp [TaskExecutionModel.cancel], by simp [TaskExecutionModel.cancel],
        by simp [TaskExecutionModel.cancel]⟩

/-- Only taking a task up gives it a start. -/
theorem TaskStep.startedAt {i : UUID} {call : Call} {t t' : TaskExecutionModel}
    (h : TaskStep i t call t') : t'.startedAt.isSome = true ↔ t.startedAt.isSome = true ∨
      (∃ startedAt, call = .startTask i startedAt) ∧ t.status = .pending ∧
        t'.status = .running := by
  cases h with
  | same => simp +contextual
  | start hpending => simp [TaskExecutionModel.start, hpending]
  | complete _ hrunning => simp [TaskExecutionModel.complete]
  | release => simp [TaskExecutionModel.release]
  | again _ hrunning => simp [TaskExecutionModel.again]
  | fail _ hrunning => simp [TaskExecutionModel.fail]
  | cancel => simp [TaskExecutionModel.cancel]

/-- No call begins a workflow, and the end it gives one is timed. -/
theorem WorkflowStep.timed {call : Call} {w w' : WorkflowExecutionModel}
    (h : WorkflowStep w call w') (hw : w.Timed ∧ w.startedAt = none) :
    w'.Timed ∧ w'.startedAt = none := by
  cases h with
  | same => exact hw
  | complete => exact ⟨by simp [WorkflowExecutionModel.Timed, WorkflowExecutionModel.finish], hw.2⟩
  | fail => exact ⟨by simp [WorkflowExecutionModel.Timed, WorkflowExecutionModel.finish], hw.2⟩

/-! ### Whole runs -/

theorem NewTask.timed {s : ExecutionStore} {workflowId i : UUID} {t : TaskExecutionModel}
    (h : NewTask s workflowId i t) : t.Timed := by
  refine ⟨?_, fun _ => h.startedAt, ?_⟩
  · simp [h.completedAt, h.status]
  · simp [h.status]

/-- A workflow execution is created without timestamps of its own. -/
theorem CompiledRows.workflow_timed {rows : List (Sigma Row)} (h : CompiledRows rows) {i : UUID}
    {w : WorkflowExecutionModel} (hmem : (⟨.workflow i, w⟩ : Sigma Row) ∈ rows) :
    w.Timed ∧ w.startedAt = none := by
  obtain ⟨draws, now, wd, -, rfl⟩ := h.closed
  obtain ⟨-, rfl⟩ := mem_compiled_workflow.mp hmem
  exact ⟨by simp [WorkflowExecutionModel.Timed, WorkflowExecutionMapper.workflowToModel,
    WorkflowStartService.compiled], rfl⟩

/-- The rows of a store are timed, but for the beginning of workflows. -/
structure Timed (s : ExecutionStore) : Prop where
  task : ∀ i t, taskRow s i = some t → t.Timed
  workflow : ∀ i w, workflowRow s i = some w → w.Timed ∧ w.startedAt = none

theorem Effect.timed {base s s' : ExecutionStore} {call : Call} {result : CallResult}
    (h : Effect base s call result s') (hs : Timed s) : Timed s' where
  task := by
    intro i t' hi'
    obtain ⟨t, hi, hstep⟩ := h.taskRow_before hi'
    exact hstep.timed (hs.task i t hi)
  workflow := by
    intro i w' hi'
    obtain ⟨w, hi, hstep⟩ := h.workflowRow_before hi'
    exact hstep.timed (hs.workflow i w hi)

theorem Run.timed {log : History} {s : ExecutionStore} (h : Run log s) : Timed s := by
  induction h with
  | empty => exact ⟨by simp [taskRow], by simp [workflowRow]⟩
  | @insert log s s' rows hrun hrows hins ih =>
      obtain ⟨_, hc⟩ := hrows.created hins
      refine ⟨fun i t hi => ?_, fun i w hi => ?_⟩
      · rcases hc.cases hrun.coherent.toLinked hi with ⟨hold, -⟩ | ⟨-, hnew⟩
        · exact ih.task i t hold
        · exact hnew.timed
      · rcases Sql.Store.row_insert?_cases hins hi with ⟨hmem, -⟩ | hold
        · exact hrows.workflow_timed hmem
        · exact ih.workflow i w hold
  | commit _ _ _ heffect ih _ => exact heffect.timed ih

theorem started_append {log : History} {e : Sql.Event RowId Row Call CallResult} {i : UUID} :
    Started (log ++ [e]) i ↔ Started log i ∨ Takes i e := by
  simp [Started, or_and_right, exists_or]

/-- **A task has been started exactly when its row says so.** -/
theorem Run.started {log : History} {s : ExecutionStore} (h : Run log s) (i : UUID) :
    Started log i ↔ ∃ t, taskRow s i = some t ∧ t.startedAt.isSome = true := by
  induction h with
  | empty => simp [Started, taskRow]
  | @insert log s s' rows hrun hrows hins ih =>
      obtain ⟨_, hc⟩ := hrows.created hins
      rw [started_append, ih]
      constructor
      · rintro (⟨t, ht, hs⟩ | hfalse)
        · exact ⟨t, hc.old i t ht, hs⟩
        · exact hfalse.elim
      · rintro ⟨t, ht, hs⟩
        rcases hc.cases hrun.coherent.toLinked ht with ⟨hold, -⟩ | ⟨-, hnew⟩
        · exact Or.inl ⟨t, hold, hs⟩
        · rw [hnew.startedAt] at hs
          simp at hs
  | @commit log log₀ s s' base call result hrun _ _ heffect ih _ =>
      rw [started_append, ih]
      cases hrow : taskRow s i with
      | none =>
          have hnone : taskRow s' i = none := by simpa [hrow] using heffect.isSome_taskRow i
          simp only [hnone, reduceCtorEq, false_and, exists_false, false_or, iff_false]
          intro htakes
          cases call with
          | startTask id startedAt =>
              obtain ⟨-, ⟨t, ht, -⟩, -⟩ := htakes
              rw [hrow] at ht
              simp at ht
          | completeTask request => exact htakes
          | retryTask request => exact htakes
      | some t =>
          obtain ⟨t', hrow', hstep⟩ := heffect.taskRow_after hrow
          simp only [hrow', Option.some.injEq, exists_eq_left']
          rw [hstep.startedAt]
          refine or_congr Iff.rfl ?_
          cases call with
          | startTask id startedAt => simp [Takes, hrow, hrow']
          | completeTask request => simp [Takes]
          | retryTask request => simp [Takes]

/-! ### A workflow execution and its tasks -/

/-- The timestamps of a workflow and of its tasks agree with the statuses. -/
structure EndsAgree (db : ExecutionDb) (i : UUID) (w : WorkflowExecutionModel) : Prop where
  tasks : ∀ j t, taskRow db.store j = some t → t.workflowExecutionId = i → t.Timed
  completedAt : w.completedAt.isSome = true ↔ w.status = .completed ∨ w.status = .failed

/-- They do, and the workflow's `started_at` says whether a task of it has been started. -/
structure TimestampsAgree (db : ExecutionDb) (i : UUID) (w : WorkflowExecutionModel) : Prop
    extends EndsAgree db i w where
  startedAt : w.startedAt.isSome = true ↔
    ∃ j t, taskRow db.store j = some t ∧ t.workflowExecutionId = i ∧ Started db.log j

/--
**Timestamps agree with statuses as long as no task is started.**  From then on the
`started_at` of the workflow is missing, and everything else still agrees.
-/
theorem timestamps_agree_iff {db : ExecutionDb} (h : ReachableDb db) {i : UUID}
    {w : WorkflowExecutionModel} (hi : workflowRow db.store i = some w) :
    EndsAgree db i w ∧ (TimestampsAgree db i w ↔
      ∀ j t, taskRow db.store j = some t → t.workflowExecutionId = i → ¬ Started db.log j) := by
  have htimed := (reachable_run h).timed
  obtain ⟨hw, hunstarted⟩ := htimed.workflow i w hi
  have hends : EndsAgree db i w := ⟨fun j t hj _ => htimed.task j t hj, hw⟩
  refine ⟨hends, ?_⟩
  constructor
  · intro hagree j t hj hown hstarted
    have hsome := hagree.startedAt.mpr ⟨j, t, hj, hown, hstarted⟩
    rw [hunstarted] at hsome
    simp at hsome
  · intro hnone
    refine { toEndsAgree := hends, startedAt := ?_ }
    rw [hunstarted]
    simp only [Option.isSome_none, Bool.false_eq_true, false_iff]
    rintro ⟨j, t, hj, hown, hstarted⟩
    exact hnone j t hj hown hstarted

theorem timestamps_agree_iff_sample : ∃ w,
    workflowRow (dbAfter [.insert sampleRows]).store 0 = some w ∧
      TimestampsAgree (dbAfter [.insert sampleRows]) 0 w := by
  have hreachable : ReachableDb (dbAfter [.insert sampleRows]) :=
    reachable_dbAfter (fun rows hrows => by simp at hrows; exact hrows ▸ sampleRows_compiled) rfl
  refine ⟨_, rfl, (timestamps_agree_iff hreachable rfl).2.mpr fun j t _ _ hstarted => ?_⟩
  obtain ⟨e, he, htakes⟩ := hstarted
  obtain rfl := List.mem_singleton.mp he
  exact htakes

/-- The root task of the sample has been started and completed, and its workflow was never begun. -/
theorem begun_unrecorded : ReachableDb (dbAfter sampleSteps) ∧
    ∃ w, workflowRow (dbAfter sampleSteps).store 0 = some w ∧ w.startedAt = none ∧
      (∃ t, taskRow (dbAfter sampleSteps).store 1 = some t ∧ t.workflowExecutionId = 0 ∧
        t.status = .completed ∧ t.startedAt = some 10) ∧
      ¬ TimestampsAgree (dbAfter sampleSteps) 0 w := by
  refine ⟨sample_reachable, _, rfl, rfl, ⟨_, rfl, rfl, rfl, rfl⟩, fun hagree => ?_⟩
  have hstarted : Started (dbAfter sampleSteps).log 1 :=
    ((reachable_run sample_reachable).started 1).mpr ⟨_, rfl, rfl⟩
  exact absurd (hagree.startedAt.mpr ⟨1, _, rfl, rfl, hstarted⟩) (by decide)

end AutomationPlatform
