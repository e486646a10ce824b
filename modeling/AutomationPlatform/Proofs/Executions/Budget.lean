/-
The tries of a task.

A task starts with the tries its definition gives it, and every `retry_task` that takes effect
uses up one.  The counter says how many are left, so together with the calls that took effect
it always comes to the same number; and it comes to zero when the task fails.
-/
import AutomationPlatform.Proofs.Executions.Absorbing
import AutomationPlatform.Proofs.Executions.Failure

namespace AutomationPlatform

/-- A committed `retry_task` that changed the row of its task. -/
def RetryTookEffect (i : UUID) : Sql.Event RowId Row Call CallResult → Prop
  | .committed (.retryTask request) _ _ before after =>
      request.taskExecutionId = i ∧ taskRow after i ≠ taskRow before i
  | _ => False

open Classical in
/-- How many calls of `retry_task` took effect on a task. -/
noncomputable def retriesOn (log : History) (i : UUID) : Nat :=
  log.countP fun e => decide (RetryTookEffect i e)

/-- The task execution was made from this task definition when its execution was created. -/
def MadeFrom (log : History) (i : UUID) (d : TaskDefinition) : Prop :=
  ∃ s s' draws now wd workflow roots, .inserted s s' ∈ log ∧
    WorkflowStartService.createWorkflowExecution draws now wd = .ok (workflow, roots) ∧
    WorkflowExecutionRepository.create s workflow = some s' ∧
    wd.Valid ∧ d ∈ wd.taskDefinitions ∧ draws.taskExecutionId d.id = i

theorem MadeFrom.mono {log log' : History} (hlog : ∀ e ∈ log, e ∈ log') {i : UUID}
    {d : TaskDefinition} (h : MadeFrom log i d) : MadeFrom log' i d := by
  obtain ⟨s, s', draws, now, wd, workflow, roots, hmem, hrest⟩ := h
  exact ⟨s, s', draws, now, wd, workflow, roots, hlog _ hmem, hrest⟩

/-! ### One commit -/

/-- What a `retry_task` that takes effect makes of the row, and says. -/
structure Spent (r : RetryTaskExecutionResult) (t t' : TaskExecutionModel) : Prop where
  running : t.status = .running
  tries : t'.remainingTries = t.remainingTries - 1
  exhausted : t'.remainingTries = 0 ↔ t'.status = .failed
  shouldRetry : r.shouldRetry = true ↔ t'.status = .running

/-- The tries of a row and its failure stay as they are. -/
def TriesKept (t t' : TaskExecutionModel) : Prop :=
  t'.remainingTries = t.remainingTries ∧ (t'.status = .failed ↔ t.status = .failed)

theorem TriesKept.refl (t : TaskExecutionModel) : TriesKept t t := ⟨rfl, Iff.rfl⟩

variable {s s' base : ExecutionStore} {i : UUID}

/-- A `retry_task` that changes the row of its task says whether the task is to run again. -/
theorem Effect.retried {request : RetryTaskExecutionRequest} {result : CallResult}
    (heffect : Effect base s (.retryTask request) result s') {t t' : TaskExecutionModel}
    (hi : taskRow s request.taskExecutionId = some t)
    (hi' : taskRow s' request.taskExecutionId = some t') (hne : t' ≠ t) :
    ∃ r, result = .retried r ∧ (r.shouldRetry = true ↔ t'.status = .running) := by
  cases heffect with
  | retryMissed => exact absurd (Option.some.inj (hi'.symm.trans hi)) hne
  | retryAgain =>
      rw [taskRow_mapRows, hi, Option.map_some, Option.some.injEq, retryChange, if_pos rfl] at hi'
      subst hi'
      exact ⟨_, rfl, by simp [TaskExecutionModel.again]⟩
  | retryFailed hrow =>
      rw [taskRow_mapRows, hi, Option.map_some, Option.some.injEq] at hi'
      subst hi'
      rcases failChange_cases hrow hi with ⟨-, -, hc⟩ | ⟨hid, -⟩ | ⟨-, -, hc⟩
      · rw [hc]
        exact ⟨_, rfl, by simp [TaskExecutionModel.fail]⟩
      · exact absurd rfl hid
      · exact absurd hc hne

/-- A call spends a try of a task, or leaves its tries alone. -/
theorem Effect.tries {call : Call} {result : CallResult} (heffect : Effect base s call result s')
    {t t' : TaskExecutionModel} (hi : taskRow s i = some t) (hi' : taskRow s' i = some t') :
    (∃ request r, call = .retryTask request ∧ request.taskExecutionId = i ∧
        result = .retried r ∧ Spent r t t') ∨
      (TriesKept t t' ∧ ∀ request, call = .retryTask request →
        request.taskExecutionId = i → t' = t) := by
  cases heffect.taskStep hi hi' with
  | same => exact Or.inr ⟨.refl t, fun _ _ _ => rfl⟩
  | start hpending =>
      exact Or.inr ⟨⟨rfl, by simp [TaskExecutionModel.start, hpending]⟩, by simp⟩
  | complete _ hrunning =>
      exact Or.inr ⟨⟨rfl, by simp [TaskExecutionModel.complete, hrunning]⟩, by simp⟩
  | release => exact Or.inr ⟨⟨rfl, Iff.rfl⟩, by simp⟩
  | @again request hid hrunning htries =>
      subst hid
      have hne : t.again request ≠ t := by
        intro heq
        have : t.remainingTries - 1 = t.remainingTries := congrArg (·.remainingTries) heq
        omega
      obtain ⟨r, rfl, hretry⟩ := heffect.retried hi hi' hne
      refine Or.inl ⟨request, r, rfl, rfl, rfl, hrunning, rfl, ?_, hretry⟩
      have hleft : t.remainingTries - 1 ≠ 0 := by omega
      simp [TaskExecutionModel.again, hleft]
  | @fail request hid hrunning htries =>
      subst hid
      have hne : t.fail request ≠ t := by
        intro heq
        have : TaskStatus.failed = t.status := congrArg (·.status) heq
        rw [hrunning] at this
        simp at this
      obtain ⟨r, rfl, hretry⟩ := heffect.retried hi hi' hne
      refine Or.inl ⟨request, r, rfl, rfl, rfl, hrunning, rfl, ?_, hretry⟩
      simp [TaskExecutionModel.fail, htries]
  | cancel hid hopen =>
      have hne : t.status ≠ .failed := by
        intro hf
        rw [hf] at hopen
        simp [TaskStatus.isTerminal] at hopen
      refine Or.inr ⟨⟨rfl, by simp [TaskExecutionModel.cancel, hne]⟩, ?_⟩
      rintro _ hcall rfl
      cases hcall
      exact absurd rfl hid

/-! ### Whole runs -/

/-- The counters of tries agree with the history. -/
structure Budgeted (log : History) (s : ExecutionStore) : Prop where
  exhausted : ∀ i t, taskRow s i = some t → (t.remainingTries = 0 ↔ t.status = .failed)
  origin : ∀ i t, taskRow s i = some t → ∃ d, MadeFrom log i d
  spent : ∀ i t d, taskRow s i = some t → MadeFrom log i d →
    t.remainingTries + retriesOn log i = d.maxTries
  made : ∀ i d, MadeFrom log i d → (taskRow s i).isSome = true
  unused : ∀ i, taskRow s i = none → retriesOn log i = 0

theorem budgeted_empty : Budgeted [] .empty where
  exhausted := by simp [taskRow]
  origin := by simp [taskRow]
  spent := by simp [taskRow]
  made := by simp [MadeFrom]
  unused := by simp [retriesOn]

/-- What is left of the tries and what has been spent of them come to the same later. -/
theorem Budgeted.total {log log' : History} (h : Budgeted log s) (h' : Budgeted log' s')
    (hlog : ∀ e ∈ log, e ∈ log') {t t' : TaskExecutionModel} (hi : taskRow s i = some t)
    (hi' : taskRow s' i = some t') :
    t'.remainingTries + retriesOn log' i = t.remainingTries + retriesOn log i := by
  obtain ⟨d, hd⟩ := h.origin i t hi
  rw [h.spent i t d hi hd, h'.spent i t' d hi' (hd.mono hlog)]

theorem retriesOn_inserted {log : History} (i : UUID) :
    retriesOn (log ++ [.inserted s s']) i = retriesOn log i := by
  have hnot : ¬ RetryTookEffect i (.inserted s s') := id
  unfold retriesOn
  rw [List.countP_append, List.countP_singleton, if_neg (by simpa using hnot), Nat.add_zero]

open Classical in
theorem retriesOn_committed {log : History} {call : Call} {result : CallResult} (i : UUID) :
    retriesOn (log ++ [.committed call result base s s']) i = retriesOn log i +
      if RetryTookEffect i (.committed call result base s s') then 1 else 0 := by
  simp [retriesOn, List.countP_append, List.countP_cons]

theorem madeFrom_committed {log : History} {call : Call} {result : CallResult} {d : TaskDefinition} :
    MadeFrom (log ++ [.committed call result base s s']) i d ↔ MadeFrom log i d := by
  simp [MadeFrom]

/-- What an insert says of the tasks it was for. -/
theorem madeFrom_inserted {log : History} {d : TaskDefinition}
    (h : MadeFrom (log ++ [.inserted s s']) i d) :
    MadeFrom log i d ∨ (taskRow s i = none ∧
      ∃ t, taskRow s' i = some t ∧ t.remainingTries = d.maxTries) := by
  obtain ⟨s₁, s₁', draws, now, wd, workflow, roots, hmem, hcompiled, hcreate, hvalid, hd, hid⟩ := h
  rcases List.mem_append.mp hmem with hold | hnew
  · exact Or.inl ⟨s₁, s₁', draws, now, wd, workflow, roots, hold, hcompiled, hcreate, hvalid, hd, hid⟩
  · rw [List.mem_singleton] at hnew
    cases hnew
    obtain ⟨rfl, rfl⟩ := WorkflowStartService.compiled_of_create hvalid.linked hcompiled
    subst hid
    obtain ⟨hrow, hnone⟩ := taskRow_created hcreate hd
    exact Or.inr ⟨hnone, _, hrow, rfl⟩

theorem Budgeted.inserted {log : History} {rows : List (Sigma Row)} (h : Budgeted log s)
    (hrows : CompiledRows rows) (hins : s.insert? rows = some s') :
    Budgeted (log ++ [.inserted s s']) s' := by
  obtain ⟨draws, now, wd, workflow, roots, hvalid, hcompiled, rfl⟩ := hrows
  have hold : ∀ i t, taskRow s i = some t → taskRow s' i = some t :=
    fun i t hi => Sql.Store.row_insert?_old hins hi
  -- A row of the new store was there before, or is one of those that were just made.
  have hcases : ∀ i t, taskRow s' i = some t → taskRow s i = some t ∨
      (taskRow s i = none ∧ t.status = .pending ∧ 1 ≤ t.remainingTries ∧
        ∃ d, MadeFrom (log ++ [.inserted s s']) i d) := by
    intro i t hi
    obtain ⟨rfl, rfl⟩ := WorkflowStartService.compiled_of_create hvalid.linked hcompiled
    rcases Sql.Store.row_insert?_cases hins hi with ⟨hmem, -⟩ | hs
    · obtain ⟨d, hd, rfl, rfl⟩ := mem_compiled_task.mp hmem
      refine Or.inr ⟨(taskRow_created hins hd).2, rfl, hvalid.maxTries d hd, d, ?_⟩
      exact ⟨s, s', draws, now, wd, _, _, by simp, hcompiled, hins, hvalid, hd, rfl⟩
    · exact Or.inl hs
  refine ⟨?_, ?_, ?_, ?_, ?_⟩
  · intro i t hi
    rcases hcases i t hi with hs | ⟨-, hpending, htries, -⟩
    · exact h.exhausted i t hs
    · have : t.remainingTries ≠ 0 := by omega
      simp [hpending, this]
  · intro i t hi
    rcases hcases i t hi with hs | ⟨-, -, -, hmade⟩
    · obtain ⟨d, s₁, s₁', draws, now, wd, workflow, roots, hmem, hrest⟩ := h.origin i t hs
      exact ⟨d, s₁, s₁', draws, now, wd, workflow, roots, List.mem_append_left _ hmem, hrest⟩
    · exact hmade
  · intro i t d hi hmade
    rw [retriesOn_inserted]
    rcases madeFrom_inserted hmade with hmade | ⟨hnone, t', ht', htries⟩
    · obtain ⟨t₀, ht₀⟩ := Option.isSome_iff_exists.mp (h.made i d hmade)
      obtain rfl : t = t₀ := Option.some.inj (hi.symm.trans (hold i t₀ ht₀))
      exact h.spent i t d ht₀ hmade
    · obtain rfl : t = t' := Option.some.inj (hi.symm.trans ht')
      rw [h.unused i hnone, htries]
      simp
  · intro i d hmade
    rcases madeFrom_inserted hmade with hmade | ⟨-, t', ht', -⟩
    · obtain ⟨t₀, ht₀⟩ := Option.isSome_iff_exists.mp (h.made i d hmade)
      exact Option.isSome_of_eq_some (hold i t₀ ht₀)
    · exact Option.isSome_of_eq_some ht'
  · intro i hnone
    rw [retriesOn_inserted]
    refine h.unused i ?_
    cases hs : taskRow s i with
    | none => rfl
    | some t =>
        rw [hold i t hs] at hnone
        simp at hnone

/-- A commit spends exactly what it counts. -/
theorem Effect.took_iff {call : Call} {result : CallResult} (heffect : Effect base s call result s')
    {t t' : TaskExecutionModel} (hi : taskRow s i = some t) (hi' : taskRow s' i = some t') :
    (RetryTookEffect i (.committed call result base s s') ∧
        ∃ r, result = .retried r ∧ Spent r t t') ∨
      (¬ RetryTookEffect i (.committed call result base s s') ∧ TriesKept t t') := by
  rcases heffect.tries hi hi' with ⟨request, r, rfl, rfl, rfl, hspent⟩ | ⟨hkept, hsame⟩
  · refine Or.inl ⟨⟨rfl, fun heq => ?_⟩, r, rfl, hspent⟩
    have htries := hspent.tries
    obtain rfl : t' = t := Option.some.inj (hi'.symm.trans (heq.trans hi))
    omega
  · refine Or.inr ⟨fun htook => ?_, hkept⟩
    cases call with
    | retryTask request =>
        obtain ⟨hid, hne⟩ := htook
        rw [hi, hi', hsame request rfl hid] at hne
        exact hne rfl
    | startTask => exact htook
    | completeTask => exact htook

theorem Budgeted.committed {log : History} {call : Call} {result : CallResult}
    (h : Budgeted log s) (heffect : Effect base s call result s') :
    Budgeted (log ++ [.committed call result base s s']) s' := by
  refine ⟨?_, ?_, ?_, ?_, ?_⟩
  · intro i t' hi'
    obtain ⟨t, hi, -⟩ := heffect.taskRow_before hi'
    rcases heffect.took_iff hi hi' with ⟨-, r, -, hspent⟩ | ⟨-, hkept⟩
    · exact hspent.exhausted
    · rw [hkept.1, hkept.2]
      exact h.exhausted i t hi
  · intro i t' hi'
    obtain ⟨t, hi, -⟩ := heffect.taskRow_before hi'
    obtain ⟨d, hd⟩ := h.origin i t hi
    exact ⟨d, madeFrom_committed.mpr hd⟩
  · intro i t' d hi' hmade
    obtain ⟨t, hi, -⟩ := heffect.taskRow_before hi'
    have hspent := h.spent i t d hi (madeFrom_committed.mp hmade)
    rw [retriesOn_committed]
    rcases heffect.took_iff hi hi' with ⟨htook, r, -, hs⟩ | ⟨htook, hkept⟩
    · rw [if_pos htook, hs.tries]
      push_cast
      omega
    · rw [if_neg htook, hkept.1]
      simpa using hspent
  · intro i d hmade
    rw [heffect.isSome_taskRow]
    exact h.made i d (madeFrom_committed.mp hmade)
  · intro i hnone
    have hs₀ : taskRow s i = none := by
      rw [← Option.not_isSome_iff_eq_none, ← heffect.isSome_taskRow, hnone]
      simp
    rw [retriesOn_committed, if_neg, h.unused i hs₀]
    intro htook
    cases call with
    | retryTask request => exact htook.2 (hnone.trans hs₀.symm)
    | startTask => exact htook
    | completeTask => exact htook

theorem Run.budgeted {log : History} (h : Run log s) : Budgeted log s := by
  induction h with
  | empty => exact budgeted_empty
  | insert _ hrows hins ih => exact ih.inserted hrows hins
  | commit _ _ _ heffect ih _ => exact ih.committed heffect

/-- The tries of every task of the database are accounted for. -/
structure RetryBudget (db : ExecutionDb) : Prop where
  /-- Every task was made from a task definition, and what it has left of the tries of that
  is what has not been spent. -/
  origin : ∀ i t, taskRow db.store i = some t → ∃ d, MadeFrom db.log i d
  spent : ∀ i t d, taskRow db.store i = some t → MadeFrom db.log i d →
    t.remainingTries + retriesOn db.log i = d.maxTries
  exhausted : ∀ i t, taskRow db.store i = some t → (t.remainingTries = 0 ↔ t.status = .failed)
  stranded : ∀ i t, taskRow db.store i = some t → ¬ (t.status = .running ∧ t.remainingTries = 0)
  /-- A try that is spent is followed by another exactly when the task is still running. -/
  answer : ∀ request r base before after,
    .committed (.retryTask request) (.retried r) base before after ∈ db.log →
    RetryTookEffect request.taskExecutionId
      (.committed (.retryTask request) (.retried r) base before after) →
    ∃ t', taskRow after request.taskExecutionId = some t' ∧
      (r.shouldRetry = true ↔ t'.status = .running)

/-- **No try is lost and none is given twice.** -/
theorem retry_budget {db : ExecutionDb} (h : ReachableDb db) : RetryBudget db := by
  have hrun := reachable_run h
  have hbudgeted := hrun.budgeted
  refine ⟨hbudgeted.origin, hbudgeted.spent, hbudgeted.exhausted, ?_, ?_⟩
  · intro i t hi ⟨hrunning, hzero⟩
    rw [hbudgeted.exhausted i t hi, hrunning] at hzero
    simp at hzero
  · intro request r base before after hmem htook
    obtain ⟨-, -, -, heffect⟩ := hrun.committed hmem
    cases hi : taskRow before request.taskExecutionId with
    | none =>
        have hnone : taskRow after request.taskExecutionId = none := by
          simpa [hi] using heffect.isSome_taskRow request.taskExecutionId
        exact absurd (hnone.trans hi.symm) htook.2
    | some t =>
        obtain ⟨t', hi', -⟩ := heffect.taskRow_after hi
        have hne : t' ≠ t := by
          rintro rfl
          exact htook.2 (hi'.trans hi.symm)
        obtain ⟨r', hr', hretry⟩ := heffect.retried hi hi' hne
        cases hr'
        exact ⟨t', hi', hretry⟩

/-- The sample in which a task fails on its only try. -/
theorem retry_budget_sample :
    (∃ t, taskRow (dbAfter failingSteps).store 2 = some t ∧ t.remainingTries = 0) ∧
      RetryBudget (dbAfter failingSteps) :=
  ⟨⟨_, rfl, rfl⟩, retry_budget (reachable_dbAfter
    (fun rows h => by simp [failingSteps, sampleSteps] at h; exact h ▸ sampleRows_compiled) rfl)⟩

end AutomationPlatform
