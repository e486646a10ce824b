/-
What callers get to see of an execution.

The writers keep a workflow and its tasks in step within one transaction.  The reader
does not read in one go: it takes the workflow's row first and the tasks' rows later, and
what has been committed in between is in the tasks and not in the workflow.

A workflow that is over does not change any more, so what a reader finds over is over in
both reads.  What it finds running may end before it gets to the tasks, and that is all
that can go wrong.

The commits are taken as atomic here, one after the other.
-/
import AutomationPlatform.Application.WorkflowExecutionQuery
import AutomationPlatform.Proofs.Executions.Completion
import AutomationPlatform.Proofs.Executions.Failure
import AutomationPlatform.Proofs.Executions.Progress

namespace AutomationPlatform

open WorkflowExecutionRepository

/-! ### Commits one after the other -/

/-- The second store is the first one after some commits: executions that are created, and calls. -/
inductive Commits : ExecutionStore → ExecutionStore → Prop
  | refl (s : ExecutionStore) : Commits s s
  | create {s s' s'' : ExecutionStore} {rows : List (Sigma Row)} (h : Commits s s')
      (hrows : CompiledRows rows) (hins : s'.insert? rows = some s'') : Commits s s''
  | call {s s' : ExecutionStore} (h : Commits s s') (call : Call) :
      Commits s (call.body.exec s').1

/-- The rows are coherent, and a workflow is completed as soon as its tasks are. -/
structure CoherentAtRest (s : ExecutionStore) : Prop where
  coherent : Coherent s
  completed_iff : ∀ i w, workflowRow s i = some w → (w.status = .completed ↔ AllCompleted s i)

theorem coherentAtRest_empty : CoherentAtRest Sql.Store.empty :=
  ⟨coherent_empty, by simp [workflowRow]⟩

/-- The tasks of a completed workflow are. -/
theorem Coherent.allCompleted {s : ExecutionStore} (h : Coherent s) {i : UUID}
    {w : WorkflowExecutionModel} (hw : workflowRow s i = some w) (hc : w.status = .completed) :
    AllCompleted s i := by
  rintro j t hj rfl
  have hadm := h.admits j t w hj hw
  rw [hc] at hadm
  exact hadm

theorem CoherentAtRest.create {workflowId : UUID} {s s' : ExecutionStore} (h : CoherentAtRest s)
    (hc : Created workflowId s s') : CoherentAtRest s' where
  coherent := h.coherent.created hc
  completed_iff := by
    intro i w hw
    refine ⟨(h.coherent.created hc).allCompleted hw, fun hall => ?_⟩
    by_cases hi : i = workflowId
    · -- The new workflow has a task, which is pending.
      subst hi
      obtain ⟨j, t, hj, hnone⟩ := hc.inhabited
      have hnew := hc.new j t hj hnone
      have hstatus := hall j t hj hnew.workflowExecutionId
      rw [hnew.status] at hstatus
      simp at hstatus
    · rw [hc.workflows i hi] at hw
      exact (h.completed_iff i w hw).mpr fun j t hj hwf => hall j t (hc.old j t hj) hwf

theorem CoherentAtRest.call {s s' : ExecutionStore} {call : Call} {r : Except String CallResult}
    (h : CoherentAtRest s) (halone : Alone s call r s') : CoherentAtRest s' where
  coherent := halone.coherent h.coherent
  completed_iff := by
    intro i w' hw'
    refine ⟨(halone.coherent h.coherent).allCompleted hw', fun hall => ?_⟩
    have hmove := halone.move h.coherent
    have hkey := Sql.Store.mem_keys_of_row hw'
    rw [hmove.keys, s.mem_keys] at hkey
    obtain ⟨w, hw⟩ := Option.isSome_iff_exists.mp hkey
    have hw : workflowRow s i = some w := hw
    obtain ⟨w'', hw'', hc⟩ := halone.ends h.coherent hw (h.completed_iff i w hw).mpr hall
    obtain rfl : w' = w'' := Option.some.inj (hw'.symm.trans hw'')
    exact hc

/-- What commits leave of a workflow: once over, it stays as it is. -/
def WorkflowKept (s s' : ExecutionStore) : Prop :=
  ∀ i w, workflowRow s i = some w → ∃ w', workflowRow s' i = some w' ∧
    (w.status = .completed ∨ w.status = .failed → w' = w)

/-- **Commits keep the rows coherent**, and what is over as it is. -/
theorem Commits.kept {s s' : ExecutionStore} (h : Commits s s') (hs : CoherentAtRest s) :
    CoherentAtRest s' ∧ WorkflowKept s s' := by
  induction h with
  | refl => exact ⟨hs, fun i w hw => ⟨w, hw, fun _ => rfl⟩⟩
  | @create s' s'' rows _ hrows hins ih =>
      obtain ⟨hs', hkept⟩ := ih
      obtain ⟨_, hc⟩ := hrows.created hins
      refine ⟨hs'.create hc, fun i w hw => ?_⟩
      obtain ⟨w', hw', hsame⟩ := hkept i w hw
      exact ⟨w', Sql.Store.row_insert?_old hins hw', hsame⟩
  | @call s' _ call ih =>
      obtain ⟨hs', hkept⟩ := ih
      obtain ⟨s'', r, hexec, halone⟩ := alone_exec hs'.coherent call
      rw [hexec]
      refine ⟨hs'.call halone, fun i w hw => ?_⟩
      obtain ⟨w', hw', hsame⟩ := hkept i w hw
      obtain ⟨w'', hw'', hsame'⟩ := (halone.move hs'.coherent).workflow i w' hw'
      refine ⟨w'', hw'', fun hover => ?_⟩
      obtain rfl := hsame hover
      exact hsame' hover

/-! ### Two reads -/

/-- What `load` returns when its two statements see these stores. -/
theorem reads_load (order : Sql.RowOrder (UUID × TaskExecutionModel)) (s₁ s₂ : ExecutionStore)
    (id : UUID) :
    (load order id).reads [s₁, s₂] = some (.ok ((workflowRow s₁ id).map fun model =>
      WorkflowExecutionMapper.workflowToDomain id model ((order.list (taskModels s₂ id)).map fun e =>
        WorkflowExecutionMapper.taskToDomain e.1 e.2))) := by
  unfold load
  cases h : workflowRow s₁ id with
  | none => simp [Sql.Program.select, Sql.Program.reads, h]
  | some model => simp [Sql.Program.select, Sql.Program.reads, h]

/-- `get` returns the execution `load` has found, and raises when there is none. -/
theorem reads_get (order : Sql.RowOrder (UUID × TaskExecutionModel)) (s₁ s₂ : ExecutionStore)
    (id : UUID) :
    (WorkflowExecutionQueryService.get order id).reads [s₁, s₂] =
      some (match workflowRow s₁ id with
        | none => .error ("Workflow execution " ++ toString id ++ " does not exist.")
        | some model => .ok (WorkflowExecutionMapper.workflowToDomain id model
            ((order.list (taskModels s₂ id)).map fun e =>
              WorkflowExecutionMapper.taskToDomain e.1 e.2))) := by
  unfold WorkflowExecutionQueryService.get load
  cases h : workflowRow s₁ id with
  | none => simp [Sql.Program.select, Sql.Program.reads, h]
  | some model => simp [Sql.Program.select, Sql.Program.reads, h]

/-! ### What is returned -/

/-- The execution that is returned is coherent, as the committed ones are. -/
structure WorkflowExecution.Coherent (execution : WorkflowExecution) : Prop where
  failed_iff : execution.status = .failed ↔ ∃ t ∈ execution.taskExecutions, t.status = .failed
  settled : execution.status = .failed →
    ∀ t ∈ execution.taskExecutions, t.status ≠ .pending ∧ t.status ≠ .running
  completed_iff :
    execution.status = .completed ↔ ∀ t ∈ execution.taskExecutions, t.status = .completed

/-- What it says of the workflow is true of the tasks. -/
structure WorkflowExecution.Truthful (execution : WorkflowExecution) : Prop where
  failed : execution.status = .failed → ∃ t ∈ execution.taskExecutions, t.status = .failed
  settled : execution.status = .failed →
    ∀ t ∈ execution.taskExecutions, t.status ≠ .pending ∧ t.status ≠ .running
  completed :
    execution.status = .completed → ∀ t ∈ execution.taskExecutions, t.status = .completed

/-- The workflow has come to its end between the two stores. -/
def EndedBetween (s₁ s₂ : ExecutionStore) (id : UUID) : Prop :=
  ∃ w₁ w₂, workflowRow s₁ id = some w₁ ∧ workflowRow s₂ id = some w₂ ∧
    w₁.status = .running ∧ w₂.status ≠ .running

section Load

variable {order : Sql.RowOrder (UUID × TaskExecutionModel)} {s₁ s₂ : ExecutionStore} {id : UUID}
  {execution : WorkflowExecution} {w₁ w₂ : WorkflowExecutionModel}

/-- The execution that `load` puts together from the two reads. -/
structure Assembled (s₁ s₂ : ExecutionStore) (id : UUID) (execution : WorkflowExecution) : Prop where
  status : ∀ w₁, workflowRow s₁ id = some w₁ → execution.status = w₁.status
  tasks : ∀ task, task ∈ execution.taskExecutions ↔ ∃ j t, taskRow s₂ j = some t ∧
    t.workflowExecutionId = id ∧ WorkflowExecutionMapper.taskToDomain j t = task

theorem assembled_of_load
    (hload : (load order id).reads [s₁, s₂] = some (.ok (some execution))) :
    ∃ w₁, workflowRow s₁ id = some w₁ ∧ Assembled s₁ s₂ id execution := by
  rw [reads_load, Option.some.injEq, Except.ok.injEq, Option.map_eq_some_iff] at hload
  obtain ⟨w₁, hw₁, rfl⟩ := hload
  refine ⟨w₁, hw₁, fun w hw => ?_, fun task => ?_⟩
  · rw [Option.some.inj (hw.symm.trans hw₁)]
    rfl
  · refine List.mem_map.trans ⟨?_, ?_⟩
    · rintro ⟨⟨j, t⟩, he, htask⟩
      obtain ⟨hj, hwf⟩ := List.mem_filter.mp (order.mem_list.mp he)
      exact ⟨j, t, mem_taskTable.mp hj, beq_iff_eq.mp hwf, htask⟩
    · rintro ⟨j, t, hj, hwf, htask⟩
      refine ⟨(j, t), order.mem_list.mpr (List.mem_filter.mpr ⟨mem_taskTable.mpr hj, ?_⟩), htask⟩
      exact beq_iff_eq.mpr hwf

/-- What all tasks returned have in common is what all task rows of the second read have. -/
theorem Assembled.forall_iff (h : Assembled s₁ s₂ id execution) (P : TaskStatus → Prop) :
    (∀ t ∈ execution.taskExecutions, P t.status) ↔
      ∀ j t, taskRow s₂ j = some t → t.workflowExecutionId = id → P t.status := by
  constructor
  · intro hall j t hj hwf
    exact hall _ ((h.tasks _).mpr ⟨j, t, hj, hwf, rfl⟩)
  · intro hall task htask
    obtain ⟨j, t, hj, hwf, rfl⟩ := (h.tasks task).mp htask
    exact hall j t hj hwf

theorem Assembled.failed_iff (h : Assembled s₁ s₂ id execution) :
    (∃ t ∈ execution.taskExecutions, t.status = .failed) ↔ ∃ j, FailedTask s₂ id j := by
  constructor
  · rintro ⟨task, htask, hfailed⟩
    obtain ⟨j, t, hj, hwf, rfl⟩ := (h.tasks task).mp htask
    exact ⟨j, t, hj, hwf, hfailed⟩
  · rintro ⟨j, t, hj, hwf, hfailed⟩
    exact ⟨_, (h.tasks _).mpr ⟨j, t, hj, hwf, rfl⟩, hfailed⟩

/-- Tasks read with their workflow's present status are coherent with it. -/
theorem Assembled.coherent (h : Assembled s₁ s₂ id execution) (hs₂ : CoherentAtRest s₂)
    (hw₂ : workflowRow s₂ id = some w₂) (hstatus : execution.status = w₂.status) :
    execution.Coherent where
  failed_iff := by
    rw [hstatus, h.failed_iff]
    exact hs₂.coherent.failureCoherent.failed_iff id w₂ hw₂
  settled := by
    rw [hstatus, h.forall_iff fun status => status ≠ .pending ∧ status ≠ .running]
    exact hs₂.coherent.failureCoherent.settled id w₂ hw₂
  completed_iff := by
    rw [hstatus, h.forall_iff fun status => status = .completed]
    exact hs₂.completed_iff id w₂ hw₂

/-- A workflow that is over, read with the status it had before, is not. -/
theorem Assembled.not_coherent (h : Assembled s₁ s₂ id execution) (hs₂ : CoherentAtRest s₂)
    (hw₂ : workflowRow s₂ id = some w₂) (hrunning : execution.status = .running)
    (hended : w₂.status ≠ .running) : ¬ execution.Coherent := by
  intro hcoherent
  cases hw : w₂.status with
  | running => exact hended hw
  | failed =>
      have hfailed := (hs₂.coherent.failureCoherent.failed_iff id w₂ hw₂).mp hw
      have hstatus := hcoherent.failed_iff.mpr (h.failed_iff.mpr hfailed)
      rw [hrunning] at hstatus
      simp at hstatus
  | completed =>
      have hall := (hs₂.completed_iff id w₂ hw₂).mp hw
      have hstatus := hcoherent.completed_iff.mpr
        ((h.forall_iff fun status => status = .completed).mpr hall)
      rw [hrunning] at hstatus
      simp at hstatus
  | cancelled => exact hs₂.coherent.not_cancelled hw₂ hw

/-- The workflow has one of its two ends, or runs. -/
theorem Coherent.status_cases {s : ExecutionStore} (h : Coherent s) {w : WorkflowExecutionModel}
    (hw : workflowRow s id = some w) :
    w.status = .running ∨ w.status = .completed ∨ w.status = .failed := by
  cases hs : w.status with
  | running => exact Or.inl rfl
  | completed => exact Or.inr (Or.inl rfl)
  | failed => exact Or.inr (Or.inr rfl)
  | cancelled => exact absurd hs (h.not_cancelled hw)

end Load

/--
**What is returned is coherent unless the workflow ends while it is read.**  Any commits may
come before the first statement and between the two, and the tasks may be listed in any order.
In any case an end that is returned is
the workflow's, with the tasks that go with it.
-/
theorem load_coherent_iff {s₁ s₂ : ExecutionStore} (hs₁ : Commits .empty s₁)
    (hbetween : Commits s₁ s₂) {order : Sql.RowOrder (UUID × TaskExecutionModel)} {id : UUID}
    {execution : WorkflowExecution} (hload : (load order id).reads [s₁, s₂] = some (.ok (some execution))) :
    (execution.Coherent ↔ ¬ EndedBetween s₁ s₂ id) ∧ execution.Truthful := by
  have hcoherent₁ := (hs₁.kept coherentAtRest_empty).1
  obtain ⟨hcoherent₂, hkept⟩ := hbetween.kept hcoherent₁
  obtain ⟨w₁, hw₁, hassembled⟩ := assembled_of_load hload
  obtain ⟨w₂, hw₂, hsame⟩ := hkept id w₁ hw₁
  have hstatus := hassembled.status w₁ hw₁
  have hended : EndedBetween s₁ s₂ id ↔ w₁.status = .running ∧ w₂.status ≠ .running := by
    refine ⟨?_, fun h => ⟨w₁, w₂, hw₁, hw₂, h.1, h.2⟩⟩
    rintro ⟨v₁, v₂, hv₁, hv₂, h⟩
    obtain rfl : w₁ = v₁ := Option.some.inj (hw₁.symm.trans hv₁)
    obtain rfl : w₂ = v₂ := Option.some.inj (hw₂.symm.trans hv₂)
    exact h
  rw [hended]
  rcases hcoherent₁.coherent.status_cases hw₁ with hrunning | hover
  · constructor
    · refine ⟨fun hcoherent h => ?_, fun h => ?_⟩
      · exact hassembled.not_coherent hcoherent₂ hw₂ (hstatus.trans h.1) h.2 hcoherent
      · have hrunning₂ : w₂.status = .running := by
          by_contra hne
          exact h ⟨hrunning, hne⟩
        exact hassembled.coherent hcoherent₂ hw₂ (by rw [hstatus, hrunning, hrunning₂])
    · have hnot : execution.status = .running := hstatus.trans hrunning
      constructor <;> intro h <;> rw [hnot] at h <;> simp at h
  · -- A workflow that is over is the same in both reads.
    obtain rfl := hsame hover
    have hcoherent := hassembled.coherent hcoherent₂ hw₂ hstatus
    refine ⟨⟨fun _ h => h.2 h.1, fun _ => hcoherent⟩, ?_⟩
    exact ⟨hcoherent.failed_iff.mp, hcoherent.settled, hcoherent.completed_iff.mp⟩

/-! ### Samples -/

/-- The sample, until one task is left and is being worked on. -/
def lastRunningStore : ExecutionStore :=
  runCalls (Sql.Store.ofRows sampleRows)
    [.startTask 1 10, .completeTask { taskExecutionId := 1, output := {}, completedAt := 20 },
     .startTask 2 30, .completeTask { taskExecutionId := 2, output := {}, completedAt := 40 },
     .startTask 3 50]

/-- The same store after the completion of that task. -/
def allCompletedStore : ExecutionStore :=
  ((Call.completeTask { taskExecutionId := 3, output := {}, completedAt := 60 }).body.exec
    lastRunningStore).1

theorem Commits.runCalls {s s' : ExecutionStore} (h : Commits s s') (calls : List Call) :
    Commits s (runCalls s' calls) := by
  induction calls generalizing s' with
  | nil => exact h
  | cons call rest ih => exact ih (h.call call)

theorem lastRunningStore_commits : Commits .empty lastRunningStore :=
  Commits.runCalls (.create (.refl .empty) sampleRows_compiled rfl) _

theorem load_coherent_iff_sample :
    ∃ execution, (load .stored 0).reads [lastRunningStore, lastRunningStore] =
        some (.ok (some execution)) ∧
      (execution.Coherent ↔ ¬ EndedBetween lastRunningStore lastRunningStore 0) ∧
      execution.Truthful :=
  ⟨_, rfl, load_coherent_iff lastRunningStore_commits (.refl _) rfl⟩

/-- The last completion commits between the two reads: a workflow that runs, with no task left. -/
theorem load_torn :
    Commits .empty lastRunningStore ∧ Commits lastRunningStore allCompletedStore ∧
      ∃ execution, (load .stored 0).reads [lastRunningStore, allCompletedStore] =
          some (.ok (some execution)) ∧
        execution.status = .running ∧
        execution.taskExecutions.map (·.status) = [.completed, .completed, .completed] ∧
        ¬ execution.Coherent := by
  refine ⟨lastRunningStore_commits, (Commits.refl _).call _, _, rfl, rfl, rfl, fun h => ?_⟩
  have hstatus := h.completed_iff.mpr (by decide)
  exact absurd hstatus (by decide)

end AutomationPlatform
