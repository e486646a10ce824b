/-
A workflow and its tasks fail together.

A terminal failure is three updates of one transaction: the task, the workflow, and
everything left of the workflow.  Other transactions on the same tasks may stand
between any two of them, waiting for a lock or about to be made to wait.  In the
committed stores there is nothing between: by `reachable_coherent` every reachable
store is one the abstract machine reaches, where a failure is a single change.
-/
import AutomationPlatform.Proofs.Executions.Absorbing

namespace AutomationPlatform

/-- What a committed store says about failure. -/
structure FailureCoherent (s : ExecutionStore) : Prop where
  failed_iff : ∀ i w, workflowRow s i = some w → (w.status = .failed ↔ ∃ j, FailedTask s i j)
  unique : ∀ i w, workflowRow s i = some w → w.status = .failed → ∃ j, ∀ k, FailedTask s i k ↔ k = j
  settled : ∀ i w, workflowRow s i = some w → w.status = .failed → ∀ j t, taskRow s j = some t →
    t.workflowExecutionId = i → t.status ≠ .pending ∧ t.status ≠ .running
  cancelled : ∀ j t, taskRow s j = some t → t.status = .cancelled →
    ∃ w, workflowRow s t.workflowExecutionId = some w ∧ w.status = .failed

theorem Coherent.failureCoherent {s : ExecutionStore} (h : Coherent s) : FailureCoherent s where
  failed_iff := by
    intro i w hi
    refine ⟨fun hf => ?_, ?_⟩
    · obtain ⟨j, hj⟩ := h.culprit i w hi hf
      exact ⟨j, (hj j).mpr rfl⟩
    · rintro ⟨j, t, ht, rfl, hf⟩
      have hadm := h.admits j t w ht hi
      rw [hf] at hadm
      cases hw : w.status <;> rw [hw] at hadm <;> simp [WorkflowStatus.Admits] at hadm ⊢
  unique := h.culprit
  settled := by
    rintro i w hi hf j t ht rfl
    have hadm := h.admits j t w ht hi
    rw [hf] at hadm
    have hterm : t.status.isTerminal = true := hadm
    refine ⟨fun hp => ?_, fun hr => ?_⟩
    · rw [hp] at hterm; simp [TaskStatus.isTerminal] at hterm
    · rw [hr] at hterm; simp [TaskStatus.isTerminal] at hterm
  cancelled := by
    intro j t ht hc
    obtain ⟨w, hw, hadm⟩ := h.workflow_of_task ht
    rw [hc] at hadm
    refine ⟨w, hw, ?_⟩
    cases hs : w.status <;> rw [hs] at hadm <;> simp [WorkflowStatus.Admits] at hadm ⊢

/-- A commit that leaves a task of the workflow as it was, and does not make it runnable. -/
structure Untouched (result : CallResult) (before after : ExecutionStore) (i : UUID) : Prop where
  row : taskRow after i = taskRow before i
  not_released : ∀ r, result = .completed r → i ∉ r.runnableTaskExecutionIds

/-- No call touches a task that is over. -/
theorem Effect.untouched {s s' base : ExecutionStore} {call : Call} {result : CallResult}
    (heffect : Effect base s call result s') {i : UUID} {t : TaskExecutionModel}
    (hi : taskRow s i = some t) (hover : t.status.isTerminal = true) :
    Untouched result s s' i where
  row := by
    obtain ⟨t', hi', hstep⟩ := heffect.taskRow_after hi
    have hmove := hstep.move fun hpending => by
      rw [hpending] at hover
      simp [TaskStatus.isTerminal] at hover
    rw [hi, hi', hmove.terminal hover]
  not_released := by
    intro r hr hmem
    cases heffect with
    | startRefused => cases hr
    | startResumed => cases hr
    | startTaken => cases hr
    | retryMissed => cases hr
    | retryAgain => cases hr
    | retryFailed => cases hr
    | completeMissed =>
        cases hr
        simp at hmem
    | completeDone =>
        cases hr
        have hrel := (List.mem_filter.mp hmem).2
        simp only [released, hi, Option.any_some, Bool.and_eq_true, beq_iff_eq] at hrel
        rw [hrel.1] at hover
        simp [TaskStatus.isTerminal] at hover

/--
**Failure is coherent under concurrency.**  In every reachable state a workflow has
failed exactly when one of its tasks has, it is one task only, and nothing else of it
is left to run; and from the commit of the failure on, no commit touches its tasks.
-/
theorem failure_coherent {db : ExecutionDb} (h : ReachableDb db) :
    FailureCoherent db.store ∧
      ∀ call result base before after, .committed call result base before after ∈ db.log →
        ∀ i w, workflowRow before i = some w → w.status = .failed →
          ∀ j t, taskRow before j = some t → t.workflowExecutionId = i →
            Untouched result before after j := by
  refine ⟨(reachable_coherent h).failureCoherent, ?_⟩
  intro call result base before after hmem i w hi hf j t hj hw
  obtain ⟨⟨log₁, -, hrun⟩, -, -, heffect⟩ := (reachable_run h).committed hmem
  obtain ⟨hp, hr⟩ := hrun.coherent.failureCoherent.settled i w hi hf j t hj hw
  refine heffect.untouched hj ?_
  rcases t.status.cases with hs | hs | hs
  · exact absurd hs hp
  · exact absurd hs hr
  · exact hs

/-- The sample, until both children run and one of them fails on its only try. -/
def failingSteps : List (Sql.Action RowId Row Call) :=
  sampleSteps ++
  [.begin 1 (.startTask 2 30), .statement 1, .row 1 (.task 2), .statement 1, .statement 1,
   .commit 1, .begin 1 (.retryTask ⟨2, some "boom", 40⟩), .statement 1, .row 1 (.task 2), .statement 1, .row 1 (.workflow 0),
   .statement 1, .row 1 (.task 3), .statement 1, .commit 1]

theorem failure_coherent_sample :
    FailedTask (dbAfter failingSteps).store 0 2 ∧ FailureCoherent (dbAfter failingSteps).store :=
  ⟨⟨_, rfl, rfl, rfl⟩, (failure_coherent (reachable_dbAfter
    (fun rows h => by simp [failingSteps, sampleSteps] at h; exact h ▸ sampleRows_compiled)
    rfl)).1⟩

end AutomationPlatform
