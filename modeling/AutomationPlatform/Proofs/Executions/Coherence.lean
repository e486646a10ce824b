/-
What holds between the rows of a committed store.

An execution is spread over a workflow row and many task rows, and each row caches
something about the others: the counter of a task counts its unfinished parents,
the status of a workflow sums up those of its tasks.  `Coherent` says that all of
it is in step.

Each of the four changes a call can make keeps a store coherent, and so does the
creation of an execution.  The changes are taken one by one; `Coherent.mapRows`
leaves for each of them only what is special about it.
-/
import AutomationPlatform.Proofs.Executions.Atomic

namespace AutomationPlatform

/-! ### The graph -/

/-- The rows of an execution are linked as the definition was, and stay so. -/
structure Linked (s : ExecutionStore) : Prop where
  workflow : ∀ i t, taskRow s i = some t → (workflowRow s t.workflowExecutionId).isSome = true
  inhabited : ∀ i, (workflowRow s i).isSome = true →
    ∃ j t, taskRow s j = some t ∧ t.workflowExecutionId = i
  parents_nodup : ∀ i t, taskRow s i = some t → t.parentTaskIds.Nodup
  children_nodup : ∀ i t, taskRow s i = some t → t.childTaskIds.Nodup
  not_self : ∀ i t, taskRow s i = some t → i ∉ t.parentTaskIds
  parents : ∀ i t, taskRow s i = some t → ∀ p ∈ t.parentTaskIds, ∃ tp, taskRow s p = some tp ∧
    tp.workflowExecutionId = t.workflowExecutionId ∧ i ∈ tp.childTaskIds
  children : ∀ i t, taskRow s i = some t → ∀ c ∈ t.childTaskIds, ∃ tc, taskRow s c = some tc ∧
    tc.workflowExecutionId = t.workflowExecutionId ∧ i ∈ tc.parentTaskIds
  keys : ∀ i j t u, taskRow s i = some t → taskRow s j = some u →
    t.workflowExecutionId = u.workflowExecutionId → t.key = u.key → i = j

/-- A task is never its own child. -/
theorem Linked.not_self_child {s : ExecutionStore} (h : Linked s) {i : UUID}
    {t : TaskExecutionModel} (hi : taskRow s i = some t) : i ∉ t.childTaskIds := by
  intro hc
  obtain ⟨tc, htc, -, hp⟩ := h.children i t hi i hc
  exact h.not_self i tc htc hp

/-- A change that keeps the compiled columns keeps the graph. -/
theorem Linked.mapRows {s : ExecutionStore} (h : Linked s) {change : Change}
    (hsame : ∀ i t, taskRow s i = some t → SameTask t (change (.task i) t)) :
    Linked (s.mapRows change) where
  workflow := by
    intro i t' hi
    obtain ⟨t, ht, rfl⟩ := taskRow_of_mapRows hi
    rw [(hsame i t ht).workflowExecutionId, workflowRow_mapRows, Option.isSome_map]
    exact h.workflow i t ht
  inhabited := by
    intro i hi
    rw [workflowRow_mapRows, Option.isSome_map] at hi
    obtain ⟨j, t, ht, hw⟩ := h.inhabited i hi
    exact ⟨j, _, by rw [taskRow_mapRows, ht]; rfl, by rw [(hsame j t ht).workflowExecutionId, hw]⟩
  parents_nodup := by
    intro i t' hi
    obtain ⟨t, ht, rfl⟩ := taskRow_of_mapRows hi
    rw [(hsame i t ht).parentTaskIds]
    exact h.parents_nodup i t ht
  children_nodup := by
    intro i t' hi
    obtain ⟨t, ht, rfl⟩ := taskRow_of_mapRows hi
    rw [(hsame i t ht).childTaskIds]
    exact h.children_nodup i t ht
  not_self := by
    intro i t' hi
    obtain ⟨t, ht, rfl⟩ := taskRow_of_mapRows hi
    rw [(hsame i t ht).parentTaskIds]
    exact h.not_self i t ht
  parents := by
    intro i t' hi p hp
    obtain ⟨t, ht, rfl⟩ := taskRow_of_mapRows hi
    rw [(hsame i t ht).parentTaskIds] at hp
    obtain ⟨tp, htp, hw, hc⟩ := h.parents i t ht p hp
    refine ⟨_, by rw [taskRow_mapRows, htp]; rfl, ?_, ?_⟩
    · rw [(hsame i t ht).workflowExecutionId, (hsame p tp htp).workflowExecutionId, hw]
    · rw [(hsame p tp htp).childTaskIds]; exact hc
  children := by
    intro i t' hi c hc
    obtain ⟨t, ht, rfl⟩ := taskRow_of_mapRows hi
    rw [(hsame i t ht).childTaskIds] at hc
    obtain ⟨tc, htc, hw, hp⟩ := h.children i t ht c hc
    refine ⟨_, by rw [taskRow_mapRows, htc]; rfl, ?_, ?_⟩
    · rw [(hsame i t ht).workflowExecutionId, (hsame c tc htc).workflowExecutionId, hw]
    · rw [(hsame c tc htc).parentTaskIds]; exact hp
  keys := by
    intro i j t' u' hi hj hw hk
    obtain ⟨t, ht, rfl⟩ := taskRow_of_mapRows hi
    obtain ⟨u, hu, rfl⟩ := taskRow_of_mapRows hj
    rw [(hsame i t ht).workflowExecutionId, (hsame j u hu).workflowExecutionId] at hw
    rw [(hsame i t ht).key, (hsame j u hu).key] at hk
    exact h.keys i j t u ht hu hw hk

/-! ### Coherence -/

/-- What a task row says about itself. -/
structure TaskExecutionModel.Ok (t : TaskExecutionModel) : Prop where
  tries : t.status.isTerminal = false → 1 ≤ t.remainingTries
  startedAt : t.status = .pending → t.startedAt = none
  output : t.status = .completed ↔ t.output.isSome = true

/-- The statuses of tasks a workflow with this status may have. -/
def WorkflowStatus.Admits : WorkflowStatus → TaskStatus → Prop
  | .running, s => s = .pending ∨ s = .running ∨ s = .completed
  | .completed, s => s = .completed
  | .failed, s => s.isTerminal = true
  | .cancelled, _ => False

/-- The task is committed as completed. -/
def completed (s : ExecutionStore) (id : UUID) : Bool :=
  (taskRow s id).any fun t => t.status == .completed

theorem completed_iff {s : ExecutionStore} {id : UUID} :
    completed s id = true ↔ ∃ t, taskRow s id = some t ∧ t.status = .completed := by
  simp [completed, Option.any_eq_true]

theorem completed_of_row {s : ExecutionStore} {id : UUID} {t : TaskExecutionModel}
    (h : taskRow s id = some t) : completed s id = (t.status == .completed) := by
  simp [completed, h]

/-- The parents of a task that are not completed. -/
def unfinishedParents (s : ExecutionStore) (t : TaskExecutionModel) : List UUID :=
  t.parentTaskIds.filter fun p => !completed s p

/-- A failed task of a workflow. -/
def FailedTask (s : ExecutionStore) (workflowId id : UUID) : Prop :=
  ∃ t, taskRow s id = some t ∧ t.workflowExecutionId = workflowId ∧ t.status = .failed

/-- The rows of a committed store are in step with each other. -/
structure Coherent (s : ExecutionStore) : Prop extends Linked s where
  ok : ∀ i t, taskRow s i = some t → t.Ok
  counter : ∀ i t, taskRow s i = some t → t.status = .pending →
    t.remainingDependencies = (unfinishedParents s t).length
  admits : ∀ i t w, taskRow s i = some t → workflowRow s t.workflowExecutionId = some w →
    w.status.Admits t.status
  culprit : ∀ i w, workflowRow s i = some w → w.status = .failed →
    ∃ j, ∀ k, FailedTask s i k ↔ k = j

theorem coherent_empty : Coherent Sql.Store.empty := by
  refine ⟨⟨?_, ?_, ?_, ?_, ?_, ?_, ?_, ?_⟩, ?_, ?_, ?_, ?_⟩ <;> simp [taskRow, workflowRow]

namespace Coherent

variable {s : ExecutionStore}

/-- The workflow of a task, with a status that admits the task's. -/
theorem workflow_of_task (h : Coherent s) {i : UUID} {t : TaskExecutionModel}
    (hi : taskRow s i = some t) :
    ∃ w, workflowRow s t.workflowExecutionId = some w ∧ w.status.Admits t.status := by
  obtain ⟨w, hw⟩ := Option.isSome_iff_exists.mp (h.workflow i t hi)
  exact ⟨w, hw, h.admits i t w hi hw⟩

/-- The workflow of a task that is not over is running. -/
theorem live (h : Coherent s) {i : UUID} {t : TaskExecutionModel} (hi : taskRow s i = some t)
    (ht : t.status.isTerminal = false) :
    ∃ w, workflowRow s t.workflowExecutionId = some w ∧ w.status = .running := by
  obtain ⟨w, hw, hadm⟩ := h.workflow_of_task hi
  refine ⟨w, hw, ?_⟩
  cases hs : w.status with
  | running => rfl
  | completed => rw [hs] at hadm; rw [show t.status = _ from hadm] at ht; simp [TaskStatus.isTerminal] at ht
  | failed => rw [hs] at hadm; rw [show t.status.isTerminal = _ from hadm] at ht; simp at ht
  | cancelled => rw [hs] at hadm; exact hadm.elim

/-- No workflow is cancelled: it has a task, and no status of the task would do. -/
theorem not_cancelled (h : Coherent s) {i : UUID} {w : WorkflowExecutionModel}
    (hi : workflowRow s i = some w) : w.status ≠ .cancelled := by
  intro hc
  obtain ⟨j, t, ht, rfl⟩ := h.inhabited i (by rw [hi]; rfl)
  have hadm := h.admits j t w ht hi
  rw [hc] at hadm
  exact hadm

/-- A parent that is completed has an output. -/
theorem output_of_completed (h : Coherent s) {i : UUID} {t : TaskExecutionModel}
    (hi : taskRow s i = some t) (hc : t.status = .completed) : t.output.isSome = true :=
  (h.ok i t hi).output.mp hc

end Coherent

/-! ### Keeping it -/

/-- A change keeps a store coherent if it does so row by row and keeps the sums in step. -/
theorem Coherent.mapRows {s : ExecutionStore} (h : Coherent s) {change : Change}
    (hsame : ∀ i t, taskRow s i = some t → SameTask t (change (.task i) t))
    (hok : ∀ i t, taskRow s i = some t → (change (.task i) t).Ok)
    (hcounter : ∀ i t, taskRow s i = some t → (change (.task i) t).status = .pending →
      (change (.task i) t).remainingDependencies =
        (unfinishedParents (s.mapRows change) t).length)
    (hadmits : ∀ i t w, taskRow s i = some t → workflowRow s t.workflowExecutionId = some w →
      w.status.Admits t.status →
      (change (.workflow t.workflowExecutionId) w).status.Admits (change (.task i) t).status)
    (hculprit : ∀ i w, workflowRow s i = some w → (change (.workflow i) w).status = .failed →
      ∃ j, ∀ k, FailedTask (s.mapRows change) i k ↔ k = j) :
    Coherent (s.mapRows change) where
  toLinked := h.toLinked.mapRows hsame
  ok := by
    intro i t' hi
    obtain ⟨t, ht, rfl⟩ := taskRow_of_mapRows hi
    exact hok i t ht
  counter := by
    intro i t' hi hp
    obtain ⟨t, ht, rfl⟩ := taskRow_of_mapRows hi
    rw [hcounter i t ht hp, unfinishedParents, unfinishedParents, (hsame i t ht).parentTaskIds]
  admits := by
    intro i t' w' hi hw
    obtain ⟨t, ht, rfl⟩ := taskRow_of_mapRows hi
    rw [(hsame i t ht).workflowExecutionId] at hw
    obtain ⟨w, hw₀, rfl⟩ := workflowRow_of_mapRows hw
    exact hadmits i t w ht hw₀ (h.admits i t w ht hw₀)
  culprit := by
    intro i w' hi hf
    obtain ⟨w, hw, rfl⟩ := workflowRow_of_mapRows hi
    exact hculprit i w hw hf

/-- A change that fails no workflow and moves no task into or out of failure keeps the culprits. -/
theorem Coherent.culprit_mapRows {s : ExecutionStore} (h : Coherent s) {change : Change}
    (hsame : ∀ i t, taskRow s i = some t → SameTask t (change (.task i) t)) {i : UUID}
    (htask : ∀ j t, taskRow s j = some t → t.workflowExecutionId = i →
      ((change (.task j) t).status = .failed ↔ t.status = .failed))
    {w : WorkflowExecutionModel} (hi : workflowRow s i = some w) (hw : w.status = .failed) :
    ∃ j, ∀ k, FailedTask (s.mapRows change) i k ↔ k = j := by
  obtain ⟨j, hj⟩ := h.culprit i w hi hw
  refine ⟨j, fun k => Iff.trans ⟨?_, ?_⟩ (hj k)⟩
  · rintro ⟨t', ht', hwf, hf⟩
    obtain ⟨t, ht, rfl⟩ := taskRow_of_mapRows ht'
    rw [(hsame k t ht).workflowExecutionId] at hwf
    exact ⟨t, ht, hwf, (htask k t ht hwf).mp hf⟩
  · rintro ⟨t, ht, hwf, hf⟩
    exact ⟨_, by rw [taskRow_mapRows, ht]; rfl, by rw [(hsame k t ht).workflowExecutionId, hwf],
      (htask k t ht hwf).mpr hf⟩

/-- A change that completes no task leaves the completed ones. -/
theorem completed_mapRows {s : ExecutionStore} {change : Change}
    (hcompleted : ∀ i t, taskRow s i = some t →
      ((change (.task i) t).status == .completed) = (t.status == .completed)) (i : UUID) :
    completed (s.mapRows change) i = completed s i := by
  rw [completed, completed, taskRow_mapRows]
  cases hi : taskRow s i with
  | none => rfl
  | some t => simp [hcompleted i t hi]

/-- Nor does it leave a task without one of its unfinished parents. -/
theorem unfinishedParents_mapRows {s : ExecutionStore} {change : Change}
    (hcompleted : ∀ i t, taskRow s i = some t →
      ((change (.task i) t).status == .completed) = (t.status == .completed))
    (t : TaskExecutionModel) : unfinishedParents (s.mapRows change) t = unfinishedParents s t := by
  refine List.filter_congr fun p _ => ?_
  rw [completed_mapRows hcompleted]

/-! ### The changes of the calls -/

section Changes

variable {s : ExecutionStore}

theorem sameTask_start (id : UUID) (startedAt : Datetime) (i : UUID) (t : TaskExecutionModel) :
    SameTask t (startChange id startedAt (.task i) t) := by
  by_cases hi : i = id <;> simp only [startChange, hi, if_true, if_false] <;>
    exact ⟨rfl, rfl, rfl, rfl, rfl, rfl, rfl⟩

theorem sameTask_complete (request : CompleteTaskExecutionRequest) (task : TaskExecutionModel)
    (finished : Bool) (i : UUID) (t : TaskExecutionModel) :
    SameTask t (completeChange request task finished (.task i) t) := by
  simp only [completeChange]
  split
  · exact ⟨rfl, rfl, rfl, rfl, rfl, rfl, rfl⟩
  · split <;> exact ⟨rfl, rfl, rfl, rfl, rfl, rfl, rfl⟩

theorem sameTask_retry (request : RetryTaskExecutionRequest) (i : UUID) (t : TaskExecutionModel) :
    SameTask t (retryChange request (.task i) t) := by
  simp only [retryChange]
  split <;> exact ⟨rfl, rfl, rfl, rfl, rfl, rfl, rfl⟩

theorem sameTask_fail (request : RetryTaskExecutionRequest) (workflowId i : UUID)
    (t : TaskExecutionModel) : SameTask t (failChange request workflowId (.task i) t) := by
  simp only [failChange]
  split
  · exact ⟨rfl, rfl, rfl, rfl, rfl, rfl, rfl⟩
  · split <;> exact ⟨rfl, rfl, rfl, rfl, rfl, rfl, rfl⟩

/-- Starting a pending task keeps the store coherent. -/
theorem Coherent.start (h : Coherent s) {id : UUID} {startedAt : Datetime}
    {task : TaskExecutionModel} (hrow : taskRow s id = some task)
    (hpending : task.status = .pending) : Coherent (s.mapRows (startChange id startedAt)) := by
  have hsame := fun i t (_ : taskRow s i = some t) => sameTask_start id startedAt i t
  -- The one row that changes is pending, and changes to running.
  have hcases : ∀ i t, taskRow s i = some t →
      startChange id startedAt (.task i) t = t ∨
        (i = id ∧ t.status = .pending ∧ startChange id startedAt (.task i) t = t.start startedAt) := by
    intro i t hi
    by_cases hid : i = id
    · subst hid
      rw [hrow, Option.some.injEq] at hi
      subst hi
      exact Or.inr ⟨rfl, hpending, by simp [startChange]⟩
    · exact Or.inl (by simp [startChange, hid])
  refine h.mapRows hsame ?_ ?_ ?_ ?_
  · intro i t hi
    rcases hcases i t hi with hc | ⟨-, hp, hc⟩
    · rw [hc]; exact h.ok i t hi
    · have hok := h.ok i t hi
      rw [hc]
      refine ⟨fun _ => hok.tries (by rw [hp]; rfl), fun hc => by simp [TaskExecutionModel.start] at hc, ?_⟩
      simpa [TaskExecutionModel.start, hp] using hok.output
  · intro i t hi hp
    rw [unfinishedParents_mapRows]
    · rcases hcases i t hi with hc | ⟨-, -, hc⟩
      · rw [hc] at hp ⊢; exact h.counter i t hi hp
      · rw [hc] at hp; simp [TaskExecutionModel.start] at hp
    · intro j u hj
      rcases hcases j u hj with hc | ⟨-, hu, hc⟩
      · rw [hc]
      · rw [hc, hu]; rfl
  · intro i t w hi _ hadm
    rcases hcases i t hi with hc | ⟨-, hp, hc⟩
    · rw [hc]; exact hadm
    · rw [hc]
      rw [hp] at hadm
      cases hw : w.status <;> rw [hw] at hadm <;>
        simp [WorkflowStatus.Admits, TaskStatus.isTerminal] at hadm
      simp [startChange, hw, WorkflowStatus.Admits, TaskExecutionModel.start]
  · intro i w hi hw
    refine h.culprit_mapRows hsame (fun j u hj _ => ?_) hi hw
    rcases hcases j u hj with hc | ⟨-, hu, hc⟩
    · rw [hc]
    · rw [hc, hu]; simp [TaskExecutionModel.start]

/-- Using up a try, with more left, keeps the store coherent. -/
theorem Coherent.again (h : Coherent s) {request : RetryTaskExecutionRequest}
    {task : TaskExecutionModel} (hrow : taskRow s request.taskExecutionId = some task)
    (hrunning : task.status = .running) (htries : 1 < task.remainingTries) :
    Coherent (s.mapRows (retryChange request)) := by
  have hsame := fun i t (_ : taskRow s i = some t) => sameTask_retry request i t
  have hcases : ∀ i t, taskRow s i = some t →
      retryChange request (.task i) t = t ∨
        (t.status = .running ∧ 1 < t.remainingTries ∧
          retryChange request (.task i) t = t.again request) := by
    intro i t hi
    by_cases hid : i = request.taskExecutionId
    · subst hid
      rw [hrow, Option.some.injEq] at hi
      subst hi
      exact Or.inr ⟨hrunning, htries, by simp [retryChange]⟩
    · exact Or.inl (by simp [retryChange, hid])
  refine h.mapRows hsame ?_ ?_ ?_ ?_
  · intro i t hi
    rcases hcases i t hi with hc | ⟨hr, ht, hc⟩
    · rw [hc]; exact h.ok i t hi
    · have hok := h.ok i t hi
      rw [hc]
      refine ⟨fun _ => ?_, fun hc => by simp [TaskExecutionModel.again] at hc, ?_⟩
      · show 1 ≤ t.remainingTries - 1
        omega
      · simpa [TaskExecutionModel.again, hr] using hok.output
  · intro i t hi hp
    rw [unfinishedParents_mapRows]
    · rcases hcases i t hi with hc | ⟨-, -, hc⟩
      · rw [hc] at hp ⊢; exact h.counter i t hi hp
      · rw [hc] at hp; simp [TaskExecutionModel.again] at hp
    · intro j u hj
      rcases hcases j u hj with hc | ⟨hu, -, hc⟩
      · rw [hc]
      · rw [hc, hu]; rfl
  · intro i t w hi _ hadm
    rcases hcases i t hi with hc | ⟨hr, -, hc⟩
    · rw [hc]; exact hadm
    · rw [hc]
      rw [hr] at hadm
      exact hadm
  · intro i w hi hw
    refine h.culprit_mapRows hsame (fun j u hj _ => ?_) hi hw
    rcases hcases j u hj with hc | ⟨hu, -, hc⟩
    · rw [hc]
    · rw [hc, hu]; simp [TaskExecutionModel.again]

/-- What completing a task does to a row. -/
theorem completeChange_cases {request : CompleteTaskExecutionRequest} {task : TaskExecutionModel}
    (finished : Bool) (hrow : taskRow s request.taskExecutionId = some task) {i : UUID}
    {t : TaskExecutionModel} (hi : taskRow s i = some t) :
    (i = request.taskExecutionId ∧ t = task ∧
        completeChange request task finished (.task i) t = task.complete request) ∨
    (i ≠ request.taskExecutionId ∧ i ∈ task.childTaskIds ∧ t.blocked ∧
        completeChange request task finished (.task i) t = t.release) ∨
    (i ≠ request.taskExecutionId ∧ ¬ (i ∈ task.childTaskIds ∧ t.blocked) ∧
        completeChange request task finished (.task i) t = t) := by
  by_cases hid : i = request.taskExecutionId
  · subst hid
    rw [hrow, Option.some.injEq] at hi
    subst hi
    exact Or.inl ⟨rfl, rfl, by simp [completeChange]⟩
  · by_cases hc : i ∈ task.childTaskIds ∧ t.blocked
    · exact Or.inr (Or.inl ⟨hid, hc.1, hc.2, by simp [completeChange, hid, hc]⟩)
    · exact Or.inr (Or.inr ⟨hid, hc, by simp only [completeChange, if_neg hid, if_neg hc]⟩)

/-- Completing a task completes that one. -/
theorem completed_complete {request : CompleteTaskExecutionRequest} {task : TaskExecutionModel}
    {finished : Bool} (hrow : taskRow s request.taskExecutionId = some task) (i : UUID) :
    completed (s.mapRows (completeChange request task finished)) i =
      (i == request.taskExecutionId || completed s i) := by
  cases hi : taskRow s i with
  | none =>
      have hne : i ≠ request.taskExecutionId := by
        rintro rfl
        rw [hrow] at hi
        simp at hi
      simp [completed, taskRow_mapRows, hi, hne]
  | some t =>
      rw [completed, taskRow_mapRows, hi, completed_of_row hi]
      rcases completeChange_cases finished hrow hi with
        ⟨hid, -, hc⟩ | ⟨hid, -, hb, hc⟩ | ⟨hid, -, hc⟩
      · simp [hc, hid, TaskExecutionModel.complete]
      · simp [hc, hid, TaskExecutionModel.release]
      · simp [hc, hid]

/-- Completing one of the parents takes it off the list of the unfinished ones. -/
theorem unfinishedParents_complete (h : Coherent s) {request : CompleteTaskExecutionRequest}
    {task : TaskExecutionModel} {finished : Bool}
    (hrow : taskRow s request.taskExecutionId = some task) {i : UUID} {t : TaskExecutionModel}
    (hi : taskRow s i = some t) :
    unfinishedParents (s.mapRows (completeChange request task finished)) t =
      (unfinishedParents s t).erase request.taskExecutionId := by
  rw [unfinishedParents, unfinishedParents,
    List.Nodup.erase_eq_filter ((h.parents_nodup i t hi).filter _), List.filter_filter]
  refine List.filter_congr fun p _ => ?_
  rw [completed_complete hrow, Bool.not_or]
  rfl

/-- The counter of a pending task is counted down exactly when a parent of it is completed. -/
theorem Coherent.counter_complete (h : Coherent s) {request : CompleteTaskExecutionRequest}
    {task : TaskExecutionModel} {finished : Bool}
    (hrow : taskRow s request.taskExecutionId = some task) (hrunning : task.status = .running)
    {i : UUID} {t : TaskExecutionModel} (hi : taskRow s i = some t)
    (hp : (completeChange request task finished (.task i) t).status = .pending) :
    (completeChange request task finished (.task i) t).remainingDependencies =
      (unfinishedParents (s.mapRows (completeChange request task finished)) t).length := by
  have hunfinished : completed s request.taskExecutionId = false := by
    rw [completed_of_row hrow, hrunning]; rfl
  rw [unfinishedParents_complete h hrow hi]
  rcases completeChange_cases finished hrow hi with
    ⟨-, -, hc⟩ | ⟨hid, hchild, hb, hc⟩ | ⟨hid, hn, hc⟩
  · rw [hc] at hp; simp [TaskExecutionModel.complete] at hp
  · -- A child: the completed task is one of its unfinished parents.
    obtain ⟨tc, htc, -, hparent⟩ := h.children _ _ hrow i hchild
    rw [hi, Option.some.injEq] at htc
    subst htc
    have hmem : request.taskExecutionId ∈ unfinishedParents s t :=
      List.mem_filter.mpr ⟨hparent, by rw [hunfinished]; rfl⟩
    have hlen := List.length_erase_of_mem hmem
    have hpos := List.length_pos_of_mem hmem
    have hcount := h.counter i t hi hb.1
    rw [hc]
    show t.remainingDependencies - 1 = _
    omega
  · rw [hc] at hp ⊢
    have hcount := h.counter i t hi hp
    rw [List.erase_of_not_mem, hcount]
    -- Not a child, or with no parent to come: either way not waiting for this task.
    intro hmem
    have hparent := (List.mem_filter.mp hmem).1
    obtain ⟨tp, htp, -, hchild⟩ := h.parents i t hi _ hparent
    rw [hrow, Option.some.injEq] at htp
    subst htp
    have hpos := List.length_pos_of_mem hmem
    exact hn ⟨hchild, hp, by omega⟩

/-- Completing a running task keeps the store coherent. -/
theorem Coherent.complete (h : Coherent s) {request : CompleteTaskExecutionRequest}
    {task : TaskExecutionModel} {finished : Bool}
    (hrow : taskRow s request.taskExecutionId = some task) (hrunning : task.status = .running)
    (hfinished : finished = true → ∀ j u, taskRow s j = some u →
      u.workflowExecutionId = task.workflowExecutionId → j ≠ request.taskExecutionId →
      u.status = .completed) :
    Coherent (s.mapRows (completeChange request task finished)) := by
  have hsame := fun i t (_ : taskRow s i = some t) => sameTask_complete request task finished i t
  obtain ⟨w₀, hw₀, hw₀r⟩ := h.live hrow (by rw [hrunning]; rfl)
  refine h.mapRows hsame ?_ (fun i t hi => h.counter_complete hrow hrunning hi) ?_ ?_
  · intro i t hi
    have hok := h.ok i t hi
    rcases completeChange_cases finished hrow hi with
      ⟨-, -, hc⟩ | ⟨-, -, hb, hc⟩ | ⟨-, -, hc⟩
    · rw [hc]
      exact ⟨fun ht => by simp [TaskExecutionModel.complete, TaskStatus.isTerminal] at ht,
        fun hp => by simp [TaskExecutionModel.complete] at hp,
        by simp [TaskExecutionModel.complete]⟩
    · rw [hc]; exact ⟨hok.tries, hok.startedAt, hok.output⟩
    · rw [hc]; exact hok
  · intro i t w hi hw hadm
    by_cases hfin : finished = true ∧ t.workflowExecutionId = task.workflowExecutionId
    · have hstatus : (completeChange request task finished (.task i) t).status = .completed := by
        rcases completeChange_cases finished hrow hi with
          ⟨-, -, hc⟩ | ⟨hid, -, hb, -⟩ | ⟨hid, -, hc⟩
        · rw [hc]; rfl
        · exact absurd (hfinished hfin.1 i t hi hfin.2 hid) (by rw [hb.1]; simp)
        · rw [hc]; exact hfinished hfin.1 i t hi hfin.2 hid
      obtain ⟨rfl, hwf⟩ := hfin
      rw [hstatus, hwf, completeChange_finish]
      rfl
    · rw [completeChange_workflow hfin]
      rcases completeChange_cases finished hrow hi with
        ⟨-, rfl, hc⟩ | ⟨-, -, hb, hc⟩ | ⟨-, -, hc⟩
      · rw [hw₀, Option.some.injEq] at hw
        subst hw
        rw [hw₀r, hc]
        exact Or.inr (Or.inr rfl)
      · rw [hc]; exact hadm
      · rw [hc]; exact hadm
  · intro i w hi hw
    have hw' : w.status = .failed := by
      by_cases hfin : finished = true ∧ i = task.workflowExecutionId
      · obtain ⟨rfl, rfl⟩ := hfin
        rw [completeChange_finish] at hw
        simp [WorkflowExecutionModel.finish] at hw
      · rwa [completeChange_workflow hfin] at hw
    refine h.culprit_mapRows hsame (fun j u hj _ => ?_) hi hw'
    rcases completeChange_cases finished hrow hj with
      ⟨-, rfl, hc⟩ | ⟨-, -, -, hc⟩ | ⟨-, -, hc⟩
    · rw [hc, hrunning]; simp [TaskExecutionModel.complete]
    · rw [hc]; exact Iff.rfl
    · rw [hc]

/-- What failing a task, and its workflow with it, does to a task row. -/
theorem failChange_cases {request : RetryTaskExecutionRequest} {task : TaskExecutionModel}
    (hrow : taskRow s request.taskExecutionId = some task) {i : UUID}
    {t : TaskExecutionModel} (hi : taskRow s i = some t) :
    (i = request.taskExecutionId ∧ t = task ∧
        failChange request task.workflowExecutionId (.task i) t = task.fail request) ∨
    (i ≠ request.taskExecutionId ∧ t.workflowExecutionId = task.workflowExecutionId ∧
        t.status.isTerminal = false ∧
        failChange request task.workflowExecutionId (.task i) t = t.cancel request.completedAt) ∨
    (i ≠ request.taskExecutionId ∧
        (t.workflowExecutionId = task.workflowExecutionId → t.status.isTerminal = true) ∧
        failChange request task.workflowExecutionId (.task i) t = t) := by
  by_cases hid : i = request.taskExecutionId
  · subst hid
    rw [hrow, Option.some.injEq] at hi
    subst hi
    exact Or.inl ⟨rfl, rfl, by simp [failChange]⟩
  · by_cases hc : t.workflowExecutionId = task.workflowExecutionId ∧ t.status.isTerminal = false
    · exact Or.inr (Or.inl ⟨hid, hc.1, hc.2, by simp only [failChange, if_neg hid, if_pos hc]⟩)
    · refine Or.inr (Or.inr ⟨hid, fun hw => ?_, by simp only [failChange, if_neg hid, if_neg hc]⟩)
      cases ht : t.status.isTerminal with
      | true => rfl
      | false => exact absurd ⟨hw, ht⟩ hc

/-- A workflow that ran until a task of it failed has that failed task and no other. -/
theorem Coherent.failedTask_fail (h : Coherent s) {request : RetryTaskExecutionRequest}
    {task : TaskExecutionModel} (hrow : taskRow s request.taskExecutionId = some task)
    (hrunning : task.status = .running) (k : UUID) :
    FailedTask (s.mapRows (failChange request task.workflowExecutionId)) task.workflowExecutionId k ↔
      k = request.taskExecutionId := by
  have hsame := fun i t (_ : taskRow s i = some t) =>
    sameTask_fail request task.workflowExecutionId i t
  obtain ⟨w₀, hw₀, hw₀r⟩ := h.live hrow (by rw [hrunning]; rfl)
  constructor
  · rintro ⟨t', ht', hwt, hf⟩
    obtain ⟨t, ht, rfl⟩ := taskRow_of_mapRows ht'
    rw [(hsame k t ht).workflowExecutionId] at hwt
    rcases failChange_cases hrow ht with ⟨hid, -, -⟩ | ⟨-, -, -, hc⟩ | ⟨-, -, hc⟩
    · exact hid
    · rw [hc] at hf; simp [TaskExecutionModel.cancel] at hf
    · rw [hc] at hf
      have hadm := h.admits k t w₀ ht (by rw [hwt, hw₀])
      rw [hw₀r, hf] at hadm
      simp [WorkflowStatus.Admits] at hadm
  · rintro rfl
    refine ⟨_, by rw [taskRow_mapRows, hrow]; rfl, (hsame _ _ hrow).workflowExecutionId, ?_⟩
    simp [failChange, TaskExecutionModel.fail]

/-- Failing a task on its last try keeps the store coherent. -/
theorem Coherent.fail (h : Coherent s) {request : RetryTaskExecutionRequest}
    {task : TaskExecutionModel} (hrow : taskRow s request.taskExecutionId = some task)
    (hrunning : task.status = .running) :
    Coherent (s.mapRows (failChange request task.workflowExecutionId)) := by
  have hsame := fun i t (_ : taskRow s i = some t) =>
    sameTask_fail request task.workflowExecutionId i t
  refine h.mapRows hsame ?_ ?_ ?_ ?_
  · intro i t hi
    have hok := h.ok i t hi
    rcases failChange_cases hrow hi with ⟨-, rfl, hc⟩ | ⟨-, -, hn, hc⟩ | ⟨-, -, hc⟩
    · rw [hc]
      refine ⟨fun ht => by simp [TaskExecutionModel.fail, TaskStatus.isTerminal] at ht,
        fun hp => by simp [TaskExecutionModel.fail] at hp, ?_⟩
      simpa [TaskExecutionModel.fail, hrunning] using hok.output
    · rw [hc]
      refine ⟨fun ht => by simp [TaskExecutionModel.cancel, TaskStatus.isTerminal] at ht,
        fun hp => by simp [TaskExecutionModel.cancel] at hp, ?_⟩
      have hne : t.status ≠ .completed := fun he => by rw [he] at hn; simp [TaskStatus.isTerminal] at hn
      simpa [TaskExecutionModel.cancel, hne] using hok.output
    · rw [hc]; exact hok
  · intro i t hi hp
    rw [unfinishedParents_mapRows]
    · rcases failChange_cases hrow hi with ⟨-, -, hc⟩ | ⟨-, -, -, hc⟩ | ⟨-, -, hc⟩
      · rw [hc] at hp; simp [TaskExecutionModel.fail] at hp
      · rw [hc] at hp; simp [TaskExecutionModel.cancel] at hp
      · rw [hc] at hp ⊢; exact h.counter i t hi hp
    · intro j u hj
      rcases failChange_cases hrow hj with ⟨-, rfl, hc⟩ | ⟨-, -, hn, hc⟩ | ⟨-, -, hc⟩
      · rw [hc, hrunning]; rfl
      · rw [hc]
        cases hu : u.status <;> rw [hu] at hn <;> simp [TaskStatus.isTerminal] at hn <;> rfl
      · rw [hc]
  · intro i t w hi _ hadm
    by_cases hwf : t.workflowExecutionId = task.workflowExecutionId
    · rw [hwf, failChange_finish]
      show (failChange request task.workflowExecutionId (.task i) t).status.isTerminal = true
      rcases failChange_cases hrow hi with ⟨-, rfl, hc⟩ | ⟨-, -, hn, hc⟩ | ⟨-, ht, hc⟩
      · rw [hc]; rfl
      · rw [hc]; rfl
      · rw [hc]; exact ht hwf
    · rw [failChange_workflow hwf]
      rcases failChange_cases hrow hi with ⟨-, rfl, -⟩ | ⟨-, hw, -, -⟩ | ⟨-, -, hc⟩
      · exact absurd rfl hwf
      · exact absurd hw hwf
      · rw [hc]; exact hadm
  · intro i w hi hw
    by_cases hwf : i = task.workflowExecutionId
    · -- The workflow ran until now, so none of its tasks had failed before.
      subst hwf
      exact ⟨request.taskExecutionId, h.failedTask_fail hrow hrunning⟩
    · -- Another workflow: none of its tasks moves.
      rw [failChange_workflow hwf] at hw
      refine h.culprit_mapRows hsame (fun j u hj hwu => ?_) hi hw
      rcases failChange_cases hrow hj with ⟨-, rfl, -⟩ | ⟨-, hw', -, -⟩ | ⟨-, -, hc⟩
      · exact absurd hwu.symm hwf
      · exact absurd (hwu.symm.trans hw') hwf
      · rw [hc]

/-- Whatever a call does, it keeps the store coherent. -/
theorem Coherent.effect (h : Coherent s) {base s' : ExecutionStore} {call : Call}
    {result : CallResult} (heffect : Effect base s call result s') : Coherent s' := by
  cases heffect with
  | startRefused => exact h
  | startResumed => exact h
  | startTaken _ _ hrow hpending _ => exact h.start hrow hpending
  | completeMissed => exact h
  | completeDone hrow hrunning hfinished => exact h.complete hrow hrunning hfinished
  | retryMissed => exact h
  | retryAgain hrow hrunning htries => exact h.again hrow hrunning htries
  | retryFailed hrow hrunning _ => exact h.fail hrow hrunning

end Changes

/-! ### Creating an execution -/

section Creation

variable {s s' : ExecutionStore} {workflowId : UUID}

/-- A row of the new store is an old one of another workflow, or a new one of the new workflow. -/
theorem Created.cases (hc : Created workflowId s s') (h : Linked s) {i : UUID}
    {t : TaskExecutionModel} (hi : taskRow s' i = some t) :
    (taskRow s i = some t ∧ t.workflowExecutionId ≠ workflowId) ∨
      (taskRow s i = none ∧ NewTask s' workflowId i t) := by
  cases hs : taskRow s i with
  | none => exact Or.inr ⟨rfl, hc.new i t hi hs⟩
  | some t₀ =>
      have ht := hc.old i t₀ hs
      rw [hi, Option.some.injEq] at ht
      subst ht
      refine Or.inl ⟨rfl, fun hw => ?_⟩
      have hsome := h.workflow i t hs
      rw [hw, hc.fresh] at hsome
      simp at hsome

theorem Created.linked (hc : Created workflowId s s') (h : Linked s) : Linked s' where
  workflow := by
    intro i t hi
    rcases hc.cases h hi with ⟨hs, hne⟩ | ⟨-, hnew⟩
    · rw [hc.workflows _ hne]; exact h.workflow i t hs
    · obtain ⟨w, hw, -⟩ := hc.running
      rw [hnew.workflowExecutionId, hw]; rfl
  inhabited := by
    intro i hi
    by_cases hne : i = workflowId
    · obtain ⟨j, t, hj, hnone⟩ := hc.inhabited
      exact ⟨j, t, hj, by rw [(hc.new j t hj hnone).workflowExecutionId, hne]⟩
    · rw [hc.workflows i hne] at hi
      obtain ⟨j, t, hj, hw⟩ := h.inhabited i hi
      exact ⟨j, t, hc.old j t hj, hw⟩
  parents_nodup := by
    intro i t hi
    rcases hc.cases h hi with ⟨hs, -⟩ | ⟨-, hnew⟩
    · exact h.parents_nodup i t hs
    · exact hnew.parents_nodup
  children_nodup := by
    intro i t hi
    rcases hc.cases h hi with ⟨hs, -⟩ | ⟨-, hnew⟩
    · exact h.children_nodup i t hs
    · exact hnew.children_nodup
  not_self := by
    intro i t hi
    rcases hc.cases h hi with ⟨hs, -⟩ | ⟨-, hnew⟩
    · exact h.not_self i t hs
    · exact hnew.not_self
  parents := by
    intro i t hi p hp
    rcases hc.cases h hi with ⟨hs, -⟩ | ⟨-, hnew⟩
    · obtain ⟨tp, htp, hw⟩ := h.parents i t hs p hp
      exact ⟨tp, hc.old p tp htp, hw⟩
    · rw [hnew.workflowExecutionId]; exact hnew.parents p hp
  children := by
    intro i t hi c hch
    rcases hc.cases h hi with ⟨hs, -⟩ | ⟨-, hnew⟩
    · obtain ⟨tc, htc, hw⟩ := h.children i t hs c hch
      exact ⟨tc, hc.old c tc htc, hw⟩
    · rw [hnew.workflowExecutionId]; exact hnew.children c hch
  keys := by
    intro i j t u hi hj hw hk
    rcases hc.cases h hi with ⟨hsi, hnei⟩ | ⟨hi₀, hnewi⟩
    · rcases hc.cases h hj with ⟨hsj, -⟩ | ⟨-, hnewj⟩
      · exact h.keys i j t u hsi hsj hw hk
      · exact absurd (hw.trans hnewj.workflowExecutionId) hnei
    · rcases hc.cases h hj with ⟨-, hnej⟩ | ⟨hj₀, -⟩
      · exact absurd (hw.symm.trans hnewi.workflowExecutionId) hnej
      · exact hc.keys i j t u hi hj hi₀ hj₀ hk

/-- Creating an execution keeps the store coherent. -/
theorem Coherent.created (h : Coherent s) (hc : Created workflowId s s') : Coherent s' where
  toLinked := hc.linked h.toLinked
  ok := by
    intro i t hi
    rcases hc.cases h.toLinked hi with ⟨hs, -⟩ | ⟨-, hnew⟩
    · exact h.ok i t hs
    · exact ⟨fun _ => hnew.remainingTries, fun _ => hnew.startedAt,
        by rw [hnew.status, hnew.output]; simp⟩
  counter := by
    intro i t hi hp
    rcases hc.cases h.toLinked hi with ⟨hs, -⟩ | ⟨-, hnew⟩
    · rw [h.counter i t hs hp]
      refine congrArg (fun l => (List.length l : Int)) (List.filter_congr fun p hpar => ?_)
      obtain ⟨tp, htp, -⟩ := h.parents i t hs p hpar
      rw [completed_of_row htp, completed_of_row (hc.old p tp htp)]
    · -- No task of a new execution is completed, so every parent is counted.
      rw [hnew.remainingDependencies]
      refine congrArg (fun l => (List.length l : Int)) (List.filter_eq_self.mpr fun p hpar => ?_).symm
      obtain ⟨tp, htp, hw, -⟩ := hnew.parents p hpar
      rcases hc.cases h.toLinked htp with ⟨-, hne⟩ | ⟨-, hnewp⟩
      · exact absurd hw hne
      · rw [completed_of_row htp, hnewp.status]; rfl
  admits := by
    intro i t w hi hw
    rcases hc.cases h.toLinked hi with ⟨hs, hne⟩ | ⟨-, hnew⟩
    · rw [hc.workflows _ hne] at hw
      exact h.admits i t w hs hw
    · obtain ⟨w', hw', hr, -⟩ := hc.running
      rw [hnew.workflowExecutionId, hw', Option.some.injEq] at hw
      subst hw
      rw [hr, hnew.status]
      exact Or.inl rfl
  culprit := by
    intro i w hi hf
    have hne : i ≠ workflowId := by
      rintro rfl
      obtain ⟨w', hw', hr, -⟩ := hc.running
      rw [hi, Option.some.injEq] at hw'
      subst hw'
      rw [hr] at hf
      simp at hf
    rw [hc.workflows i hne] at hi
    obtain ⟨j, hj⟩ := h.culprit i w hi hf
    refine ⟨j, fun k => Iff.trans ⟨?_, ?_⟩ (hj k)⟩
    · rintro ⟨t, ht, hw, hft⟩
      rcases hc.cases h.toLinked ht with ⟨hs, -⟩ | ⟨-, hnew⟩
      · exact ⟨t, hs, hw, hft⟩
      · exact absurd (hw.symm.trans hnew.workflowExecutionId) hne
    · rintro ⟨t, ht, hw⟩
      exact ⟨t, hc.old k t ht, hw⟩

end Creation

/-- **Every store of a run is coherent.** -/
theorem Run.coherent {log : History} {s : ExecutionStore} (h : Run log s) : Coherent s := by
  induction h with
  | empty => exact coherent_empty
  | insert _ hrows hins ih =>
      obtain ⟨_, hc⟩ := hrows.created hins
      exact ih.created hc
  | commit _ _ _ heffect ih _ => exact ih.effect heffect

/-- Every commit in a history was made on the store of an earlier history. -/
theorem Run.committed {log : History} {s : ExecutionStore} (h : Run log s) {call : Call}
    {result : CallResult} {base before after : ExecutionStore}
    (hmem : .committed call result base before after ∈ log) :
    (∃ log₁, log₁ <+: log ∧ Run log₁ before) ∧ (∃ log₀, Run log₀ base) ∧
      executionTimeline.before base before ∧ Effect base before call result after := by
  induction h with
  | empty => simp at hmem
  | insert _ _ _ ih =>
      rcases List.mem_append.mp hmem with hold | hnew
      · obtain ⟨⟨log₁, hprefix, hrun⟩, hrest⟩ := ih hold
        exact ⟨⟨log₁, hprefix.trans (List.prefix_append _ _), hrun⟩, hrest⟩
      · simp at hnew
  | @commit log log₀ s s' base' call' result' hrun hbase hbefore heffect ih _ =>
      rcases List.mem_append.mp hmem with hold | hnew
      · obtain ⟨⟨log₁, hprefix, hrun₁⟩, hrest⟩ := ih hold
        exact ⟨⟨log₁, hprefix.trans (List.prefix_append _ _), hrun₁⟩, hrest⟩
      · rw [List.mem_singleton] at hnew
        cases hnew
        exact ⟨⟨log, List.prefix_append _ _, hrun⟩, ⟨log₀, hbase⟩, hbefore, heffect⟩

end AutomationPlatform
