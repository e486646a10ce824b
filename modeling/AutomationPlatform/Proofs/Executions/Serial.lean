/-
Calls that run alone.

One call after another, each on the store the last one left, is what tests do and what a
single worker does.  The abstract machine leaves some freedom even then: it does not say that
the check for the end of a workflow finds what there is to find.  A body that runs alone has
no such freedom, and its outcome is determined here, call by call.
-/
import AutomationPlatform.Proofs.Executions.Absorbing

namespace AutomationPlatform

open WorkflowExecutionRepository

/-- The task is the only one of its workflow that is not completed. -/
def lastOfWorkflow (s : ExecutionStore) (id : UUID) (t : TaskExecutionModel) : Bool :=
  (taskTable s).all fun e =>
    e.2.workflowExecutionId != t.workflowExecutionId || e.1 == id || e.2.status == .completed

theorem lastOfWorkflow_iff {s : ExecutionStore} {id : UUID} {t : TaskExecutionModel} :
    lastOfWorkflow s id t = true ↔ ∀ j u, taskRow s j = some u →
      u.workflowExecutionId = t.workflowExecutionId → j ≠ id → u.status = .completed := by
  unfold lastOfWorkflow
  rw [List.all_eq_true]
  constructor
  · intro h j u hj hw hne
    have := h (j, u) (mem_taskTable.mpr hj)
    simpa [hw, hne] using this
  · intro h e he
    have := h e.1 e.2 (mem_taskTable.mp he)
    by_cases hw : e.2.workflowExecutionId = t.workflowExecutionId
    · by_cases hne : e.1 = id
      · simp [hne]
      · simp [this hw hne]
    · simp [hw]

/-- What `start_task` returns for a task with these inputs. -/
def TaskExecutionModel.startResult (t : TaskExecutionModel)
    (parentOutputs : List (String × TaskOutput)) : StartTaskExecutionResult where
  pluginType := t.pluginType
  configuration := t.configuration
  parentOutputs := parentOutputs

/-- What `complete_task` returns for a running task. -/
def TaskExecutionModel.completeResult (t : TaskExecutionModel) (s : ExecutionStore) (id : UUID) :
    CompleteTaskExecutionResult where
  runnableTaskExecutionIds := t.childTaskIds.filter (released s)
  workflowCompleted := lastOfWorkflow s id t

/-- What a call that runs alone does to the store, and how it ends. -/
inductive Alone (s : ExecutionStore) : Call → Except String CallResult → ExecutionStore → Prop
  | startRefused {id : UUID} {startedAt : Datetime}
      (hover : ∀ t, taskRow s id = some t → t.status.isTerminal = true) :
      Alone s (.startTask id startedAt) (.ok (.started none)) s
  | startRaised {id : UUID} {startedAt : Datetime} {t : TaskExecutionModel} {key : String}
      (hrow : taskRow s id = some t) (hopen : t.status.isTerminal = false)
      (hparents : collectOutputs [] (parentModels s t.parentTaskIds) = .error key) :
      Alone s (.startTask id startedAt)
        (.error ("Parent task " ++ pyRepr key ++ " does not have an output.")) s
  | startResumed {id : UUID} {startedAt : Datetime} {t : TaskExecutionModel}
      {parentOutputs : List (String × TaskOutput)} (hrow : taskRow s id = some t)
      (hrunning : t.status = .running)
      (hparents : collectOutputs [] (parentModels s t.parentTaskIds) = .ok parentOutputs) :
      Alone s (.startTask id startedAt) (.ok (.started (some (t.startResult parentOutputs)))) s
  | startTaken {id : UUID} {startedAt : Datetime} {t : TaskExecutionModel}
      {parentOutputs : List (String × TaskOutput)} (hrow : taskRow s id = some t)
      (hpending : t.status = .pending)
      (hparents : collectOutputs [] (parentModels s t.parentTaskIds) = .ok parentOutputs) :
      Alone s (.startTask id startedAt) (.ok (.started (some (t.startResult parentOutputs))))
        (s.mapRows (startChange id startedAt))
  | completeMissed {request : CompleteTaskExecutionRequest}
      (hmissed : ∀ t, taskRow s request.taskExecutionId = some t → t.status ≠ .running) :
      Alone s (.completeTask request)
        (.ok (.completed { runnableTaskExecutionIds := [], workflowCompleted := false })) s
  | completeDone {request : CompleteTaskExecutionRequest} {t : TaskExecutionModel}
      (hrow : taskRow s request.taskExecutionId = some t) (hrunning : t.status = .running) :
      Alone s (.completeTask request)
        (.ok (.completed (t.completeResult s request.taskExecutionId)))
        (s.mapRows (completeChange request t (lastOfWorkflow s request.taskExecutionId t)))
  | retryMissed {request : RetryTaskExecutionRequest}
      (hmissed : ∀ t, taskRow s request.taskExecutionId = some t → t.status ≠ .running) :
      Alone s (.retryTask request)
        (.ok (.retried { shouldRetry := false, workflowFailed := false })) s
  | retryAgain {request : RetryTaskExecutionRequest} {t : TaskExecutionModel}
      (hrow : taskRow s request.taskExecutionId = some t) (hrunning : t.status = .running)
      (htries : 1 < t.remainingTries) :
      Alone s (.retryTask request) (.ok (.retried { shouldRetry := true, workflowFailed := false }))
        (s.mapRows (retryChange request))
  | retryFailed {request : RetryTaskExecutionRequest} {t : TaskExecutionModel}
      (hrow : taskRow s request.taskExecutionId = some t) (hrunning : t.status = .running)
      (htries : t.remainingTries = 1) :
      Alone s (.retryTask request) (.ok (.retried { shouldRetry := false, workflowFailed := true }))
        (s.mapRows (failChange request t.workflowExecutionId))

section Alone

variable {s : ExecutionStore}

/-! ### Starting -/

/-- The end of `start_task` on a row it has found running. -/
theorem run_startRest {w : Sql.Writes RowId Row} {id : UUID} {t : TaskExecutionModel}
    (hrow : taskRow (s.overlay w) id = some t) (hrunning : t.status = .running)
    (hfree : ∀ q ∈ t.parentTaskIds, w (.task q) = none) :
    (startRest id (s.overlay w)).run s w =
      match collectOutputs [] (parentModels s t.parentTaskIds) with
      | .ok parentOutputs => .ok (.started (some (t.startResult parentOutputs)), w)
      | .error key => .error ("Parent task " ++ pyRepr key ++ " does not have an output.") := by
  have hfilter : (taskRow (s.overlay w) id).filter (fun t => t.status == .running) = some t := by
    rw [hrow]
    simp [hrunning]
  unfold startRest
  rw [hfilter]
  show Sql.Program.run s ((loadParentOutputs t.parentTaskIds).bind _) w = _
  unfold loadParentOutputs
  by_cases hp : t.parentTaskIds = []
  · simp [hp, parentModels, collectOutputs, Sql.Program.run, TaskExecutionModel.startResult]
  · rw [if_neg hp, Sql.Program.query_bind, Sql.Program.run, parentModels_overlay hfree]
    cases collectOutputs [] (parentModels s t.parentTaskIds) <;> rfl

/-- The end of `start_task` on a row that is not running. -/
theorem run_startRest_none {w : Sql.Writes RowId Row} {id : UUID}
    (hrow : ∀ t, taskRow (s.overlay w) id = some t → t.status ≠ .running) :
    (startRest id (s.overlay w)).run s w = .ok (.started none, w) := by
  have hfilter : (taskRow (s.overlay w) id).filter (fun t => t.status == .running) = none := by
    rw [Option.filter_eq_none_iff]
    intro t ht
    simpa using hrow t ht
  unfold startRest
  rw [hfilter]
  rfl

/-- Taking a task up writes its row. -/
theorem run_start_pending {id : UUID} {startedAt : Datetime} {t : TaskExecutionModel}
    (hs : Coherent s) (hrow : taskRow s id = some t) (hpending : t.status = .pending) :
    (Call.startTask id startedAt).body.run s .empty =
      match collectOutputs [] (parentModels s t.parentTaskIds) with
      | .ok parentOutputs => .ok (.started (some (t.startResult parentOutputs)),
          Sql.Writes.empty.set (.task id) (t.start startedAt))
      | .error key => .error ("Parent task " ++ pyRepr key ++ " does not have an output.") := by
  have hmatched : (startUpdate id startedAt).matched s = some t :=
    Sql.RowUpdate.matched_some.mpr ⟨rfl, hrow, by simp [startUpdate, updateTask, hpending]⟩
  rw [startTask_body, Sql.Program.run, Sql.Store.overlay_empty, hmatched]
  show (startRest id (s.overlay (Sql.Writes.empty.set (.task id) (t.start startedAt)))).run s
    (Sql.Writes.empty.set (.task id) (t.start startedAt)) = _
  have hview : taskRow (s.overlay (Sql.Writes.empty.set (.task id) (t.start startedAt))) id =
      some (t.start startedAt) := Sql.Store.overlay_row_some hrow (by simp)
  rw [run_startRest hview rfl]
  · rfl
  · intro q hq
    rw [Sql.Writes.set_ne _ _ (by rintro hc; cases hc; exact hs.not_self id t hrow hq)]
    rfl

/-- Without a task to take up, `start_task` reads only. -/
theorem run_start_other {id : UUID} {startedAt : Datetime}
    (hrow : ∀ t, taskRow s id = some t → t.status ≠ .pending) :
    (Call.startTask id startedAt).body.run s .empty = (startRest id s).run s .empty := by
  have hmatched : (startUpdate id startedAt).matched s = none := by
    rw [Option.eq_none_iff_forall_not_mem]
    intro t ht
    obtain ⟨-, ht, hcond⟩ := Sql.RowUpdate.matched_some.mp ht
    exact hrow t ht (by simpa [startUpdate, updateTask] using hcond)
  rw [startTask_body, Sql.Program.run, Sql.Store.overlay_empty, hmatched]
  show (startRest id (s.overlay .empty)).run s .empty = _
  rw [Sql.Store.overlay_empty]

theorem alone_startTask (hs : Coherent s) (id : UUID) (startedAt : Datetime) :
    ∃ s' r, (Call.startTask id startedAt).body.exec s = (s', r) ∧
      Alone s (.startTask id startedAt) r s' := by
  have hnone : (∀ t, taskRow s id = some t → t.status.isTerminal = true) →
      ∃ s' r, (Call.startTask id startedAt).body.exec s = (s', r) ∧
        Alone s (.startTask id startedAt) r s' := by
    intro hover
    refine ⟨s, _, ?_, .startRefused hover⟩
    have hne : ∀ status : TaskStatus, status.isTerminal = false → ∀ t, taskRow s id = some t →
        t.status ≠ status := by
      rintro _ hstatus t ht rfl
      rw [hover t ht] at hstatus
      simp at hstatus
    have hrest := run_startRest_none (w := .empty)
      (by rw [Sql.Store.overlay_empty]; exact hne .running rfl)
    rw [Sql.Store.overlay_empty] at hrest
    unfold Sql.Program.exec
    rw [run_start_other (hne .pending rfl), hrest]
    simp
  cases hrow : taskRow s id with
  | none => exact hnone (by simp [hrow])
  | some t =>
      rcases t.status.cases with hstatus | hstatus | hstatus
      · have hrun : (Call.startTask id startedAt).body.run s .empty = _ :=
          run_start_pending hs hrow hstatus
        have hoverlay : s.overlay (Sql.Writes.empty.set (.task id) (t.start startedAt)) =
            s.mapRows (startChange id startedAt) :=
          overlay_set_task hrow (by simp [startChange])
            (fun i u hi => by simp [startChange, hi]) fun _ _ => rfl
        unfold Sql.Program.exec
        rw [hrun]
        cases hparents : collectOutputs [] (parentModels s t.parentTaskIds) with
        | error key => exact ⟨s, _, rfl, .startRaised hrow (by rw [hstatus]; rfl) hparents⟩
        | ok parentOutputs =>
            refine ⟨_, _, rfl, ?_⟩
            rw [hoverlay]
            exact .startTaken hrow hstatus hparents
      · have hother : ∀ u, taskRow s id = some u → u.status ≠ .pending := by
          intro u hu
          rw [hrow, Option.some.injEq] at hu
          rw [← hu, hstatus]
          simp
        have hrest := run_startRest (w := .empty)
          ((congrArg (taskRow · id) (Sql.Store.overlay_empty s)).trans hrow) hstatus fun _ _ => rfl
        rw [Sql.Store.overlay_empty] at hrest
        unfold Sql.Program.exec
        rw [run_start_other hother, hrest]
        cases hparents : collectOutputs [] (parentModels s t.parentTaskIds) with
        | error key => exact ⟨s, _, rfl, .startRaised hrow (by rw [hstatus]; rfl) hparents⟩
        | ok parentOutputs =>
            refine ⟨_, _, rfl, ?_⟩
            rw [Sql.Store.overlay_empty]
            exact .startResumed hrow hstatus hparents
      · refine hnone fun u hu => ?_
        rw [hrow, Option.some.injEq] at hu
        rw [← hu, hstatus]

/-! ### Completing and retrying -/

theorem completeTask_neverRaises (request : CompleteTaskExecutionRequest) :
    (Call.completeTask request).body.NeverRaises := by
  have hchildren : ∀ children acc : List UUID,
      (children.foldlM releaseChild acc : Session (List UUID)).NeverRaises := by
    intro children
    induction children with
    | nil => intro acc; trivial
    | cons c rest ih =>
        intro acc
        rw [List.foldlM_cons]
        refine Sql.Program.NeverRaises.bind ih ?_
        rw [releaseChild_eq]
        intro r
        cases r with
        | none => trivial
        | some t =>
            dsimp only
            split <;> trivial
  rw [completeTask_body]
  intro r
  cases r with
  | none => trivial
  | some t =>
      have hlast : ∀ runnable, (completeLast request t runnable).NeverRaises := fun _ _ => trivial
      exact Sql.Program.NeverRaises.bind hlast (hchildren _ _)

theorem retryTask_neverRaises (request : RetryTaskExecutionRequest) :
    (Call.retryTask request).body.NeverRaises := by
  rw [retryTask_body]
  intro r
  cases r with
  | none => trivial
  | some t =>
      dsimp only
      unfold retryRest
      split
      · trivial
      · intro r
        cases r <;> trivial

/-- A body that never raises leaves its writes, as a run in which everything it saw is `s`. -/
theorem exec_of_neverRaises {call : Call} (h : call.body.NeverRaises) :
    ∃ result w lb', call.body.exec s = (s.overlay w, .ok result) ∧
      Sql.Lax executionTimeline (Eq s) s s call.body .empty lb' (.done result) w := by
  obtain ⟨result, w, hrun⟩ := h.run_ok s .empty
  have hlax : ∃ lb', Sql.Lax executionTimeline (Eq s) s s call.body .empty lb' (.done result) w :=
    Sql.Lax.of_run rfl (executionTimeline.before_refl s) hrun
  obtain ⟨lb', hlax⟩ := hlax
  refine ⟨result, w, lb', ?_, hlax⟩
  unfold Sql.Program.exec
  rw [hrun]

/-- Behind the writes of a completion no unfinished task is left when there was no other. -/
theorem noneUnfinished_iff {request : CompleteTaskExecutionRequest} {t : TaskExecutionModel}
    {w : Sql.Writes RowId Row} (hw : CompleteWrites s request t w)
    (hrow : taskRow s request.taskExecutionId = some t) :
    noneUnfinished t.workflowExecutionId (s.overlay w) =
      lastOfWorkflow s request.taskExecutionId t := by
  rw [Bool.eq_iff_iff, lastOfWorkflow_iff, hw.overlay hrow]
  constructor
  · intro h j u hj hwf hne
    have hstatus := status_of_noneUnfinished h
      (by rw [taskRow_mapRows, hj]; rfl) ((sameTask_complete request t false j u).workflowExecutionId.trans hwf)
    rcases completeChange_cases false hrow hj with ⟨hid, -, -⟩ | ⟨-, -, hb, hc⟩ | ⟨-, -, hc⟩
    · exact absurd hid hne
    · rw [hc, show u.release.status = u.status from rfl, hb.1] at hstatus
      simp at hstatus
    · rw [hc] at hstatus
      exact hstatus
  · intro h
    simp only [noneUnfinished, Bool.not_eq_true', List.any_eq_false]
    intro e he
    obtain ⟨u, hu, hc⟩ := taskRow_of_mapRows (mem_taskTable.mp he)
    rw [← hc, (sameTask_complete request t false e.1 u).workflowExecutionId]
    by_cases hwf : u.workflowExecutionId = t.workflowExecutionId
    · rcases completeChange_cases false hrow hu with ⟨-, -, hc⟩ | ⟨hne, -, hb, -⟩ | ⟨hne, -, hc⟩
      · rw [hc]
        simp [TaskExecutionModel.complete]
      · exact absurd (hb.1.symm.trans (h e.1 u hu hwf hne)) (by simp)
      · rw [hc, h e.1 u hu hwf hne]
        simp
    · simp [hwf]

theorem alone_completeTask (hs : Coherent s) (request : CompleteTaskExecutionRequest) :
    ∃ s' r, (Call.completeTask request).body.exec s = (s', r) ∧
      Alone s (.completeTask request) r s' := by
  obtain ⟨result, w, lb', hexec, hlax⟩ := exec_of_neverRaises (s := s)
    (completeTask_neverRaises request)
  refine ⟨_, _, hexec, ?_⟩
  rcases completeTask_writes (fun V (hV : s = V) => hV ▸ hs) hs hlax with
    ⟨-, V₁, -, t, w₁, -, -, hrow, -, hrunning, -, hwrites, hlax⟩ | ⟨V₀, hV₀, hmiss, rfl, rfl⟩
  · have hnone := noneUnfinished_iff hwrites hrow
    have hdone := Alone.completeDone hrow hrunning
    unfold TaskExecutionModel.completeResult at hdone
    obtain ⟨V₂, hV₂, ⟨r, hpick, hr, -, hlax⟩ | ⟨hmiss, hlax⟩⟩ :=
      Sql.Lax.updateRow_inv (Sql.Program.finished_done _) hlax
    · obtain rfl : s = V₂ := hV₂.good
      obtain ⟨-, rfl, rfl⟩ := hlax.done_inv
      obtain ⟨_, hmatched⟩ := Option.isSome_iff_exists.mp hpick
      have hlast : lastOfWorkflow s request.taskExecutionId t = true :=
        hnone.symm.trans (Sql.RowUpdate.matched_some.mp hmatched).1
      rw [hlast] at hdone
      have hr : workflowRow s t.workflowExecutionId = some r :=
        (Sql.Store.overlay_row_none (hwrites.workflows _)).symm.trans hr
      show Alone s _ _ (s.overlay (w₁.set (.workflow t.workflowExecutionId)
        (r.finish .completed request.completedAt)))
      rw [hwrites.overlay_finish hrow hr]
      exact hdone
    · obtain rfl : s = V₂ := hV₂.good
      obtain ⟨-, rfl, rfl⟩ := hlax.done_inv
      -- The workflow runs, so it is the subquery that does not hold.
      have hlast : lastOfWorkflow s request.taskExecutionId t = false := by
        by_contra hlast
        rw [Bool.not_eq_false, ← hnone] at hlast
        obtain ⟨r, hr, hrrun⟩ := hs.live hrow (by rw [hrunning]; rfl)
        have hmatched : (finishUpdate t.workflowExecutionId request.completedAt).matched
            (s.overlay w₁) = some r := by
          refine Sql.RowUpdate.matched_some.mpr ⟨hlast, ?_, ?_⟩
          · exact (Sql.Store.overlay_row_none (hwrites.workflows _)).trans hr
          · simpa [finishUpdate, updateRunningWorkflow] using hrrun
        rw [hmiss] at hmatched
        simp at hmatched
      rw [hlast] at hdone
      rw [hwrites.overlay hrow]
      exact hdone
  · obtain rfl : s = V₀ := hV₀.good
    rw [Sql.Store.overlay_empty]
    exact .completeMissed hmiss

theorem alone_retryTask (hs : Coherent s) (request : RetryTaskExecutionRequest) :
    ∃ s' r, (Call.retryTask request).body.exec s = (s', r) ∧
      Alone s (.retryTask request) r s' := by
  obtain ⟨result, w, lb', hexec, hlax⟩ := exec_of_neverRaises (s := s)
    (retryTask_neverRaises request)
  refine ⟨_, _, hexec, ?_⟩
  have heffect := retryTask_run (fun V (hV : s = V) => hV ▸ hs) hs hlax
  generalize s.overlay w = s' at heffect
  cases heffect with
  | retryMissed hover =>
      refine .retryMissed fun t ht hrunning => ?_
      obtain ⟨u, hu, hterminal⟩ := hover t ht (by rw [hrunning]; simp)
      obtain rfl : t = u := Option.some.inj (ht.symm.trans hu)
      rw [hrunning] at hterminal
      simp [TaskStatus.isTerminal] at hterminal
  | retryAgain hrow hrunning htries => exact .retryAgain hrow hrunning htries
  | retryFailed hrow hrunning htries => exact .retryFailed hrow hrunning htries

/-- **What a call does alone.** -/
theorem alone_exec (hs : Coherent s) (call : Call) :
    ∃ s' r, call.body.exec s = (s', r) ∧ Alone s call r s' := by
  cases call with
  | startTask id startedAt => exact alone_startTask hs id startedAt
  | completeTask request => exact alone_completeTask hs request
  | retryTask request => exact alone_retryTask hs request

/-- One of the outcomes applies to a store, and no other. -/
theorem Alone.unique {call : Call} {r₁ r₂ : Except String CallResult} {s₁ s₂ : ExecutionStore}
    (h₁ : Alone s call r₁ s₁) (h₂ : Alone s call r₂ s₂) : r₁ = r₂ ∧ s₁ = s₂ := by
  have hsame : ∀ {id : UUID} {t u : TaskExecutionModel}, taskRow s id = some t →
      taskRow s id = some u → t = u := fun ht hu => Option.some.inj (ht.symm.trans hu)
  cases h₁ with
  | startRefused hover =>
      cases h₂ with
      | startRefused => exact ⟨rfl, rfl⟩
      | startRaised hrow hopen _ => simp [hover _ hrow] at hopen
      | startResumed hrow hrunning _ =>
          have := hover _ hrow
          simp [hrunning, TaskStatus.isTerminal] at this
      | startTaken hrow hpending _ =>
          have := hover _ hrow
          simp [hpending, TaskStatus.isTerminal] at this
  | startRaised hrow hopen hparents =>
      cases h₂ with
      | startRefused hover => simp [hover _ hrow] at hopen
      | startRaised hrow' _ hparents' =>
          obtain rfl := hsame hrow hrow'
          rw [hparents, Except.error.injEq] at hparents'
          exact ⟨by rw [hparents'], rfl⟩
      | startResumed hrow' _ hparents' =>
          obtain rfl := hsame hrow hrow'
          simp [hparents] at hparents'
      | startTaken hrow' _ hparents' =>
          obtain rfl := hsame hrow hrow'
          simp [hparents] at hparents'
  | startResumed hrow hrunning hparents =>
      cases h₂ with
      | startRefused hover =>
          have := hover _ hrow
          simp [hrunning, TaskStatus.isTerminal] at this
      | startRaised hrow' _ hparents' =>
          obtain rfl := hsame hrow hrow'
          simp [hparents] at hparents'
      | startResumed hrow' _ hparents' =>
          obtain rfl := hsame hrow hrow'
          rw [hparents, Except.ok.injEq] at hparents'
          exact ⟨by rw [hparents'], rfl⟩
      | startTaken hrow' hpending _ =>
          obtain rfl := hsame hrow hrow'
          simp [hrunning] at hpending
  | startTaken hrow hpending hparents =>
      cases h₂ with
      | startRefused hover =>
          have := hover _ hrow
          simp [hpending, TaskStatus.isTerminal] at this
      | startRaised hrow' _ hparents' =>
          obtain rfl := hsame hrow hrow'
          simp [hparents] at hparents'
      | startResumed hrow' hrunning _ =>
          obtain rfl := hsame hrow hrow'
          simp [hrunning] at hpending
      | startTaken hrow' _ hparents' =>
          obtain rfl := hsame hrow hrow'
          rw [hparents, Except.ok.injEq] at hparents'
          exact ⟨by rw [hparents'], rfl⟩
  | completeMissed hmissed =>
      cases h₂ with
      | completeMissed => exact ⟨rfl, rfl⟩
      | completeDone hrow hrunning => exact absurd hrunning (hmissed _ hrow)
  | completeDone hrow hrunning =>
      cases h₂ with
      | completeMissed hmissed => exact absurd hrunning (hmissed _ hrow)
      | completeDone hrow' _ =>
          obtain rfl := hsame hrow hrow'
          exact ⟨rfl, rfl⟩
  | retryMissed hmissed =>
      cases h₂ with
      | retryMissed => exact ⟨rfl, rfl⟩
      | retryAgain hrow hrunning _ => exact absurd hrunning (hmissed _ hrow)
      | retryFailed hrow hrunning _ => exact absurd hrunning (hmissed _ hrow)
  | retryAgain hrow hrunning htries =>
      cases h₂ with
      | retryMissed hmissed => exact absurd hrunning (hmissed _ hrow)
      | retryAgain => exact ⟨rfl, rfl⟩
      | retryFailed hrow' _ htries' =>
          obtain rfl := hsame hrow hrow'
          omega
  | retryFailed hrow hrunning htries =>
      cases h₂ with
      | retryMissed hmissed => exact absurd hrunning (hmissed _ hrow)
      | retryAgain hrow' _ htries' =>
          obtain rfl := hsame hrow hrow'
          omega
      | retryFailed hrow' _ _ =>
          obtain rfl := hsame hrow hrow'
          exact ⟨rfl, rfl⟩

theorem Alone.exec (hs : Coherent s) {call : Call} {r : Except String CallResult}
    {s' : ExecutionStore} (h : Alone s call r s') : call.body.exec s = (s', r) := by
  obtain ⟨s₁, r₁, hexec, halone⟩ := alone_exec hs call
  obtain ⟨rfl, rfl⟩ := h.unique halone
  exact hexec

/-! ### A call that ran alone is a step of the machine -/

theorem Alone.effect {call : Call} {result : CallResult} {s' : ExecutionStore}
    (h : Alone s call (.ok result) s') : Effect s s call result s' := by
  have hrefl := executionTimeline.before_refl s
  cases h with
  | startRefused hover =>
      refine .startRefused fun hsome => ?_
      obtain ⟨t, ht⟩ := Option.isSome_iff_exists.mp hsome
      exact ⟨t, ht, hover t ht⟩
  | startResumed hrow hrunning hparents =>
      exact .startResumed hrefl hrefl hrefl hrow hrunning ⟨rfl, rfl, hparents⟩
  | startTaken hrow hpending hparents =>
      exact .startTaken hrefl hrefl hrow hpending ⟨rfl, rfl, hparents⟩
  | completeMissed hmissed =>
      refine .completeMissed fun t ht hp => ?_
      exact over_of_not_running ⟨hrefl, hrefl, rfl⟩ ht hp hmissed
  | completeDone hrow hrunning =>
      exact .completeDone hrow hrunning fun hlast => lastOfWorkflow_iff.mp hlast
  | retryMissed hmissed =>
      refine .retryMissed fun t ht hp => ?_
      exact over_of_not_running ⟨hrefl, hrefl, rfl⟩ ht hp hmissed
  | retryAgain hrow hrunning htries => exact .retryAgain hrow hrunning htries
  | retryFailed hrow hrunning htries => exact .retryFailed hrow hrunning htries

/-- An exception leaves nothing behind. -/
theorem Alone.raised {call : Call} {e : String} {s' : ExecutionStore}
    (h : Alone s call (.error e) s') : s' = s := by
  cases h with
  | startRaised => rfl

theorem Alone.coherent (hs : Coherent s) {call : Call} {r : Except String CallResult}
    {s' : ExecutionStore} (h : Alone s call r s') : Coherent s' := by
  cases r with
  | error e => exact h.raised ▸ hs
  | ok result => exact hs.effect h.effect

/-- A call that runs alone adds and removes no row, and moves these. -/
theorem Alone.move (hs : Coherent s) {call : Call} {r : Except String CallResult}
    {s' : ExecutionStore} (h : Alone s call r s') : StoreMove s s' := by
  cases r with
  | error e => exact h.raised ▸ .refl s
  | ok result => exact h.effect.storeMove hs

end Alone

/-! ### One call after another -/

/-- The store after some calls, each alone on what the last one left. -/
def runCalls (s : ExecutionStore) (calls : List Call) : ExecutionStore :=
  calls.foldl (fun s call => (call.body.exec s).1) s

end AutomationPlatform
