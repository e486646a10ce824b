/-
How the rows of executions change over time.

A task row keeps what was compiled into it, a terminal row keeps everything, no
task becomes pending again, and counters only go down.  Every conditional update of
the repository is a step of this kind, which is checked here once, statement by
statement; what is built on it never has to look at the statements again.

Which statements are stable, so that an older view of the row cannot mislead them,
is read off the same relation.
-/
import AutomationPlatform.Persistence.WorkflowExecutions
import AutomationPlatform.Sql.Lax

namespace AutomationPlatform

open WorkflowExecutionRepository

/-- A status no transition leaves. -/
def TaskStatus.isTerminal : TaskStatus → Bool
  | .pending => false
  | .running => false
  | .completed => true
  | .failed => true
  | .cancelled => true

/-- The workflow execution whose row this is, if it is the row of one. -/
def RowId.workflowExecutionId : RowId → Option UUID
  | .workflow id => some id
  | .task _ => none

/-- The columns of a task row that are written once, by the compilation. -/
structure SameTask (t t' : TaskExecutionModel) : Prop where
  workflowExecutionId : t'.workflowExecutionId = t.workflowExecutionId
  taskDefinitionId : t'.taskDefinitionId = t.taskDefinitionId
  key : t'.key = t.key
  pluginType : t'.pluginType = t.pluginType
  configuration : t'.configuration = t.configuration
  parentTaskIds : t'.parentTaskIds = t.parentTaskIds
  childTaskIds : t'.childTaskIds = t.childTaskIds

theorem SameTask.refl (t : TaskExecutionModel) : SameTask t t :=
  ⟨rfl, rfl, rfl, rfl, rfl, rfl, rfl⟩

theorem SameTask.trans {a b c : TaskExecutionModel} (h : SameTask a b) (h' : SameTask b c) :
    SameTask a c where
  workflowExecutionId := h'.workflowExecutionId.trans h.workflowExecutionId
  taskDefinitionId := h'.taskDefinitionId.trans h.taskDefinitionId
  key := h'.key.trans h.key
  pluginType := h'.pluginType.trans h.pluginType
  configuration := h'.configuration.trans h.configuration
  parentTaskIds := h'.parentTaskIds.trans h.parentTaskIds
  childTaskIds := h'.childTaskIds.trans h.childTaskIds

/-- What a task row may become. -/
structure TaskEvolves (t t' : TaskExecutionModel) : Prop where
  same : SameTask t t'
  terminal : t.status.isTerminal = true → t' = t
  pending : t'.status = .pending →
    t.status = .pending ∧ t'.remainingDependencies ≤ t.remainingDependencies
  tries : t'.remainingTries ≤ t.remainingTries
  untried : t'.status = .pending → t'.remainingTries = t.remainingTries

/-- What a workflow row may become. -/
structure WorkflowEvolves (w w' : WorkflowExecutionModel) : Prop where
  workflowDefinitionId : w'.workflowDefinitionId = w.workflowDefinitionId
  terminal : w.status ≠ .running → w' = w

theorem TaskEvolves.refl (t : TaskExecutionModel) : TaskEvolves t t :=
  ⟨.refl t, fun _ => rfl, fun h => ⟨h, Int.le_refl _⟩, Int.le_refl _, fun _ => rfl⟩

theorem TaskEvolves.trans {a b c : TaskExecutionModel} (h : TaskEvolves a b)
    (h' : TaskEvolves b c) : TaskEvolves a c where
  same := h.same.trans h'.same
  terminal := by
    intro ha
    have hb := h.terminal ha
    subst hb
    exact h'.terminal ha
  pending := by
    intro hc
    obtain ⟨hb, hle⟩ := h'.pending hc
    obtain ⟨ha, hle'⟩ := h.pending hb
    exact ⟨ha, Int.le_trans hle hle'⟩
  tries := Int.le_trans h'.tries h.tries
  untried := fun hc => (h'.untried hc).trans (h.untried (h'.pending hc).1)

theorem WorkflowEvolves.trans {a b c : WorkflowExecutionModel} (h : WorkflowEvolves a b)
    (h' : WorkflowEvolves b c) : WorkflowEvolves a c where
  workflowDefinitionId := h'.workflowDefinitionId.trans h.workflowDefinitionId
  terminal := by
    intro ha
    have hb := h.terminal ha
    subst hb
    exact h'.terminal ha

/-- A row that was not pending is never pending later. -/
theorem TaskEvolves.not_pending {t t' : TaskExecutionModel} (h : TaskEvolves t t')
    (ht : t.status ≠ .pending) : t'.status ≠ .pending :=
  fun hc => ht (h.pending hc).1

/-- A row that is terminal stays the row it is. -/
theorem TaskEvolves.status_terminal {t t' : TaskExecutionModel} (h : TaskEvolves t t')
    (ht : t.status.isTerminal = true) : t'.status.isTerminal = true := by
  rw [h.terminal ht]
  exact ht

/-- A status is pending, running or terminal. -/
theorem TaskStatus.cases (s : TaskStatus) :
    s = .pending ∨ s = .running ∨ s.isTerminal = true := by
  cases s <;> simp [isTerminal]

theorem TaskStatus.not_terminal_iff {s : TaskStatus} :
    s.isTerminal = false ↔ s = .pending ∨ s = .running := by
  cases s <;> simp [isTerminal]

/-- A scan of the table meets every row. -/
theorem mem_taskTable {s : ExecutionStore} {i : UUID} {t : TaskExecutionModel} :
    (i, t) ∈ taskTable s ↔ taskRow s i = some t := by
  rw [taskTable, List.mem_filterMap]
  constructor
  · intro h
    obtain ⟨k, -, hk⟩ := h
    cases k with
    | workflow j => simp at hk
    | task j =>
        simp only [Option.map_eq_some_iff, Prod.mk.injEq] at hk
        obtain ⟨_, ht, rfl, rfl⟩ := hk
        exact ht
  · intro h
    exact ⟨.task i, Sql.Store.mem_keys_of_row h, by simp [h]⟩

/-- How the rows of executions evolve. -/
def executionEvolution : Sql.Evolution RowId Row where
  rel := fun
    | .task _ => TaskEvolves
    | .workflow _ => WorkflowEvolves
  refl := by
    intro k v
    cases k with
    | task i => exact TaskEvolves.refl v
    | workflow i => exact ⟨rfl, fun _ => rfl⟩
  trans := by
    intro k a b c h h'
    cases k with
    | task i => exact TaskEvolves.trans h h'
    | workflow i => exact WorkflowEvolves.trans h h'

/-- No task execution is added to a workflow execution that is already there. -/
def Owned (s t : ExecutionStore) : Prop :=
  ∀ i task, taskRow t i = some task →
    (workflowRow s task.workflowExecutionId).isSome = true → (taskRow s i).isSome = true

theorem taskRow_le {s t : ExecutionStore} (h : s.Le executionEvolution t) {i : UUID}
    {task : TaskExecutionModel} (hi : taskRow s i = some task) :
    ∃ task', taskRow t i = some task' ∧ TaskEvolves task task' :=
  h (.task i) task hi

theorem workflowRow_le {s t : ExecutionStore} (h : s.Le executionEvolution t) {i : UUID}
    {w : WorkflowExecutionModel} (hi : workflowRow s i = some w) :
    ∃ w', workflowRow t i = some w' ∧ WorkflowEvolves w w' :=
  h (.workflow i) w hi

/-- The order of the committed stores of executions. -/
def executionTimeline : Sql.Timeline RowId Row where
  toEvolution := executionEvolution
  before s t := s.Le executionEvolution t ∧ Owned s t
  before_refl s := ⟨Sql.Store.Le.refl _ s, fun i task hi _ => by rw [hi]; rfl⟩
  before_trans := by
    intro s t u h h'
    refine ⟨h.1.trans h'.1, fun i task hi hw => ?_⟩
    obtain ⟨w, hw⟩ := Option.isSome_iff_exists.mp hw
    obtain ⟨w', hw', -⟩ := workflowRow_le h.1 hw
    have ht := h'.2 i task hi (by rw [hw']; rfl)
    obtain ⟨task', ht'⟩ := Option.isSome_iff_exists.mp ht
    obtain ⟨task'', hu, hev⟩ := taskRow_le h'.1 ht'
    rw [hi, Option.some.injEq] at hu
    subst hu
    refine h.2 i task' ht' ?_
    rw [← hev.same.workflowExecutionId, hw]
    rfl
  le h := h.1
  before_overlay := by
    intro s w h
    refine ⟨Sql.Store.le_overlay h, fun i task hi _ => ?_⟩
    simp only [taskRow, Sql.Store.overlay_row, Option.map_eq_some_iff] at hi
    obtain ⟨v, hv, -⟩ := hi
    rw [taskRow, hv]
    rfl

/-! ### The repository's statements -/

theorem startUpdate_evolves (id : UUID) (startedAt : Datetime) {t : TaskExecutionModel}
    (h : (startUpdate id startedAt).cond t = true) :
    TaskEvolves t ((startUpdate id startedAt).set t) := by
  have hp : t.status = .pending := by simpa [startUpdate, updateTask] using h
  refine ⟨⟨rfl, rfl, rfl, rfl, rfl, rfl, rfl⟩, ?_, ?_, Int.le_refl _, fun _ => rfl⟩
  · intro hterm; rw [hp] at hterm; simp [TaskStatus.isTerminal] at hterm
  · intro hc; simp [startUpdate, updateTask] at hc

theorem completeUpdate_evolves (request : CompleteTaskExecutionRequest) {t : TaskExecutionModel}
    (h : (completeUpdate request).cond t = true) :
    TaskEvolves t ((completeUpdate request).set t) := by
  have hp : t.status = .running := by simpa [completeUpdate, updateTask] using h
  refine ⟨⟨rfl, rfl, rfl, rfl, rfl, rfl, rfl⟩, ?_, ?_, Int.le_refl _, fun _ => rfl⟩
  · intro hterm; rw [hp] at hterm; simp [TaskStatus.isTerminal] at hterm
  · intro hc; simp [completeUpdate, updateTask] at hc

theorem childUpdate_evolves (id : UUID) {t : TaskExecutionModel}
    (h : (childUpdate id).cond t = true) : TaskEvolves t ((childUpdate id).set t) := by
  have hp : t.status = .pending ∧ 0 < t.remainingDependencies := by
    simpa [childUpdate, updateTask] using h
  refine ⟨⟨rfl, rfl, rfl, rfl, rfl, rfl, rfl⟩, ?_, ?_, Int.le_refl _, fun _ => rfl⟩
  · intro hterm; rw [hp.1] at hterm; simp [TaskStatus.isTerminal] at hterm
  · intro _
    refine ⟨hp.1, ?_⟩
    show t.remainingDependencies - 1 ≤ t.remainingDependencies
    omega

theorem retryUpdate_evolves (request : RetryTaskExecutionRequest) {t : TaskExecutionModel}
    (h : (retryUpdate request).cond t = true) : TaskEvolves t ((retryUpdate request).set t) := by
  have hp : t.status = .running ∧ 0 < t.remainingTries := by
    simpa [retryUpdate, updateTask] using h
  have hpending : ((retryUpdate request).set t).status ≠ .pending := by
    intro hc
    simp only [retryUpdate, updateTask] at hc
    split at hc <;> simp at hc
  refine ⟨⟨rfl, rfl, rfl, rfl, rfl, rfl, rfl⟩, ?_, ?_, ?_, fun hc => absurd hc hpending⟩
  · intro hterm; rw [hp.1] at hterm; simp [TaskStatus.isTerminal] at hterm
  · exact fun hc => absurd hc hpending
  · show t.remainingTries - 1 ≤ t.remainingTries
    omega

theorem finishUpdate_evolves (id : UUID) (completedAt : Datetime) {w : WorkflowExecutionModel}
    (h : (finishUpdate id completedAt).cond w = true) :
    WorkflowEvolves w ((finishUpdate id completedAt).set w) := by
  have hr : w.status = .running := by simpa [finishUpdate, updateRunningWorkflow] using h
  exact ⟨rfl, fun hne => absurd hr hne⟩

theorem failUpdate_evolves (id : UUID) (completedAt : Datetime) {w : WorkflowExecutionModel}
    (h : (failUpdate id completedAt).cond w = true) :
    WorkflowEvolves w ((failUpdate id completedAt).set w) := by
  have hr : w.status = .running := by simpa [failUpdate, updateRunningWorkflow] using h
  exact ⟨rfl, fun hne => absurd hr hne⟩

theorem cancelUpdate_evolves (id : UUID) (completedAt : Datetime) (k : RowId) (v : Row k)
    (h : (cancelUpdate id completedAt).cond k v = true) :
    executionEvolution.rel k v ((cancelUpdate id completedAt).set k v) := by
  cases k with
  | workflow i => simp [cancelUpdate] at h
  | task i =>
      have hp : v.workflowExecutionId = id ∧ (v.status = .pending ∨ v.status = .running) := by
        simpa [cancelUpdate] using h
      refine ⟨⟨rfl, rfl, rfl, rfl, rfl, rfl, rfl⟩, ?_, ?_, Int.le_refl _, fun _ => rfl⟩
      · intro hterm
        rcases hp.2 with hs | hs <;> rw [hs] at hterm <;> simp [TaskStatus.isTerminal] at hterm
      · intro hc; simp [cancelUpdate] at hc

/-! ### Stable conditions -/

theorem childUpdate_stable (id : UUID) :
    Sql.Stable executionEvolution (.task id) (childUpdate id).cond := by
  intro t t' hev hfalse
  obtain ⟨hpending, -⟩ : (t'.status = .pending →
      t.status = .pending ∧ t'.remainingDependencies ≤ t.remainingDependencies) ∧ True :=
    ⟨TaskEvolves.pending hev, trivial⟩
  simp only [childUpdate, updateTask, Bool.and_eq_false_iff, beq_eq_false_iff_ne,
    decide_eq_false_iff_not, Int.not_lt] at hfalse ⊢
  by_cases hp : t'.status = .pending
  · obtain ⟨hp', hle⟩ := hpending hp
    rcases hfalse with hne | hzero
    · exact absurd hp' hne
    · exact Or.inr (Int.le_trans hle hzero)
  · exact Or.inl hp

theorem updateRunningWorkflow_stable (id : UUID) (subquery : ExecutionStore → Bool)
    (set : WorkflowExecutionModel → WorkflowExecutionModel) :
    Sql.Stable executionEvolution (.workflow id)
      (updateRunningWorkflow id subquery set).cond := by
  intro w w' hev hfalse
  have hne : w.status ≠ .running := by simpa [updateRunningWorkflow] using hfalse
  have hw : w' = w := WorkflowEvolves.terminal hev hne
  subst hw
  simpa [updateRunningWorkflow] using hne

theorem cancelUpdate_stable (id : UUID) (completedAt : Datetime) (k : RowId) :
    Sql.Stable executionEvolution k ((cancelUpdate id completedAt).cond k) := by
  intro v v' hev hfalse
  cases k with
  | workflow i => rfl
  | task i =>
      have hev : TaskEvolves v v' := hev
      simp only [cancelUpdate, Bool.and_eq_false_iff, beq_eq_false_iff_ne, Bool.or_eq_false_iff]
        at hfalse ⊢
      rcases hfalse with hne | ⟨hp, hr⟩
      · exact Or.inl (by rw [hev.same.workflowExecutionId]; exact hne)
      · have hterm : v.status.isTerminal = true := by
          rcases v.status.cases with h | h | h
          · exact absurd h hp
          · exact absurd h hr
          · exact h
        rw [hev.terminal hterm]
        exact Or.inr ⟨hp, hr⟩

end AutomationPlatform
