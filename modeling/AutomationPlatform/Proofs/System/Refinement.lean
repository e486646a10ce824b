/-
The system executes dependency graphs.

Between a definition and its end are two databases, transactions that interleave statement by
statement, a queue with leases, workers that crash and a reconciler.  Seen from the definition
it is all one small machine: `Graph.Advance` on its own tasks and dependencies.  Every step of
the system, whoever takes it, leaves an execution where it is or takes it one step of that
machine, and what holds of the machine holds of every execution.

The counters of the rows, their tries and the status of the workflow do not appear in it.
-/
import AutomationPlatform.Graph.Machine
import AutomationPlatform.Proofs.System.Outcomes

namespace AutomationPlatform

open WorkflowDefinitionRepository

/-- The stage of a task with this status. -/
def TaskStatus.stage : TaskStatus → Graph.Stage
  | .pending => .waiting
  | .running => .running
  | .completed => .done
  | .failed => .failed
  | .cancelled => .cancelled

theorem TaskStatus.over_stage (s : TaskStatus) : s.stage.over = s.isTerminal := by
  cases s <;> rfl

/-- The execution of one task of a definition in one of its executions. -/
def taskExecutionOf (e : ExecutionStore) (workflowId taskDefinitionId : UUID) :
    Option (UUID × TaskExecutionModel) :=
  (taskTable e).find? fun x =>
    x.2.workflowExecutionId == workflowId && x.2.taskDefinitionId == taskDefinitionId

/-- How far the tasks of an execution have come.  What is not one of its tasks is over. -/
def stages (e : ExecutionStore) (workflowId : UUID) : UUID → Graph.Stage :=
  fun taskDefinitionId =>
    (taskExecutionOf e workflowId taskDefinitionId).elim .cancelled (·.2.status.stage)

/-- The tasks of a definition. -/
def WorkflowDefinition.taskIds (wd : WorkflowDefinition) : Finset UUID :=
  (wd.taskDefinitions.map (·.id)).toFinset

theorem WorkflowDefinition.mem_taskIds {wd : WorkflowDefinition} {k : UUID} :
    k ∈ wd.taskIds ↔ ∃ d ∈ wd.taskDefinitions, d.id = k := by
  simp [taskIds]

section Stages

variable {wd : WorkflowDefinition} {e : ExecutionStore} {workflowId : UUID}

/-- The stage of a task is read off its row. -/
theorem ExecutionOf.stages_row (h : ExecutionOf wd e workflowId) {i : UUID}
    {t : TaskExecutionModel} (hi : taskRow e i = some t) (ht : t.workflowExecutionId = workflowId) :
    stages e workflowId t.taskDefinitionId = t.status.stage := by
  have hsome : (taskExecutionOf e workflowId t.taskDefinitionId).isSome = true := by
    rw [taskExecutionOf, List.find?_isSome]
    exact ⟨(i, t), mem_taskTable.mpr hi, by simp [ht]⟩
  obtain ⟨⟨j, u⟩, hfound⟩ := Option.isSome_iff_exists.mp hsome
  have hj := mem_taskTable.mp (List.mem_of_find?_eq_some hfound)
  have hmatch := List.find?_some hfound
  simp only [Bool.and_eq_true, beq_iff_eq] at hmatch
  obtain rfl := h.once j i u t hj hi hmatch.1 ht hmatch.2
  obtain rfl := Option.some.inj (hi.symm.trans hj)
  rw [stages, hfound]
  rfl

theorem ExecutionOf.stages_outside (h : ExecutionOf wd e workflowId) {k : UUID}
    (hk : k ∉ wd.taskIds) : stages e workflowId k = .cancelled := by
  rw [stages, taskExecutionOf, List.find?_eq_none.mpr]
  · rfl
  · rintro ⟨i, t⟩ hmem hmatch
    simp only [Bool.and_eq_true, beq_iff_eq] at hmatch
    obtain ⟨d, hd, hid, -⟩ := h.tasks i t (mem_taskTable.mp hmem) hmatch.1
    exact hk (WorkflowDefinition.mem_taskIds.mpr ⟨d, hd, hid.trans hmatch.2⟩)

/-- The stages are known when they are known of every row. -/
theorem ExecutionOf.stages_eq (h : ExecutionOf wd e workflowId) {σ : UUID → Graph.Stage}
    (hrows : ∀ i t, taskRow e i = some t → t.workflowExecutionId = workflowId →
      t.status.stage = σ t.taskDefinitionId)
    (houtside : ∀ k, k ∉ wd.taskIds → σ k = .cancelled) : stages e workflowId = σ := by
  funext k
  by_cases hk : k ∈ wd.taskIds
  · obtain ⟨d, hd, rfl⟩ := WorkflowDefinition.mem_taskIds.mp hk
    obtain ⟨i, t, hi, ht, htd⟩ := h.complete d hd
    rw [← htd, h.stages_row hi ht, hrows i t hi ht]
  · rw [h.stages_outside hk, houtside k hk]

theorem ExecutionOf.mem_taskIds (h : ExecutionOf wd e workflowId) {i : UUID}
    {t : TaskExecutionModel} (hi : taskRow e i = some t) (ht : t.workflowExecutionId = workflowId) :
    t.taskDefinitionId ∈ wd.taskIds := by
  obtain ⟨d, hd, hid, -⟩ := h.tasks i t hi ht
  exact WorkflowDefinition.mem_taskIds.mpr ⟨d, hd, hid⟩

end Stages

theorem TaskStep.sameTask {i : UUID} {t t' : TaskExecutionModel} {call : Call}
    (h : TaskStep i t call t') : SameTask t t' := by
  cases h <;> exact ⟨rfl, rfl, rfl, rfl, rfl, rfl, rfl⟩

section Effects

variable {wd : WorkflowDefinition} {base s s' : ExecutionStore} {call : Call}
  {result : CallResult} {workflowId : UUID}

/-- The stages after a call are known when they are known of every row it leaves. -/
theorem Effect.stages_eq (heffect : Effect base s call result s')
    (hof' : ExecutionOf wd s' workflowId) {σ : UUID → Graph.Stage}
    (hrows : ∀ i t t', taskRow s i = some t → taskRow s' i = some t' →
      t.workflowExecutionId = workflowId → t'.status.stage = σ t.taskDefinitionId)
    (houtside : ∀ k, k ∉ wd.taskIds → σ k = .cancelled) : stages s' workflowId = σ := by
  refine hof'.stages_eq (fun i t' hi' ht' => ?_) houtside
  obtain ⟨t, hi, hstep⟩ := heffect.taskRow_before hi'
  have hsame := hstep.sameTask
  rw [hsame.workflowExecutionId] at ht'
  rw [hrows i t t' hi hi' ht', hsame.taskDefinitionId]

/-- One task goes on.  The other tasks stay where they are, and so do other executions. -/
theorem Effect.stages_update (heffect : Effect base s call result s')
    (hof : ExecutionOf wd s workflowId) (hof' : ExecutionOf wd s' workflowId) {i : UUID}
    {t : TaskExecutionModel} (hi : taskRow s i = some t) (status : TaskStatus)
    (hself : ∀ t', taskRow s' i = some t' → t'.status = status)
    (hothers : ∀ j u u', j ≠ i → taskRow s j = some u → taskRow s' j = some u' →
      u'.status = u.status) :
    stages s' workflowId = stages s workflowId ∨ t.workflowExecutionId = workflowId ∧
      stages s' workflowId =
        Function.update (stages s workflowId) t.taskDefinitionId status.stage := by
  by_cases ht : t.workflowExecutionId = workflowId
  · refine Or.inr ⟨ht, heffect.stages_eq hof' (fun j u u' hj hj' hu => ?_) fun k hk => ?_⟩
    · by_cases hji : j = i
      · subst hji
        obtain rfl := Option.some.inj (hi.symm.trans hj)
        rw [hself u' hj', Function.update_self]
      · rw [hothers j u u' hji hj hj', Function.update_of_ne, hof.stages_row hj hu]
        exact fun hd => hji (hof.once j i u t hj hi hu ht hd)
    · rw [Function.update_of_ne, hof.stages_outside hk]
      rintro rfl
      exact hk (hof.mem_taskIds hi ht)
  · refine Or.inl (heffect.stages_eq hof' (fun j u u' hj hj' hu => ?_) fun k hk =>
      hof.stages_outside hk)
    rw [hothers j u u' _ hj hj', hof.stages_row hj hu]
    rintro rfl
    obtain rfl := Option.some.inj (hi.symm.trans hj)
    exact ht hu

/-- A start of a ready task. -/
theorem Effect.advance_start {i : UUID} {startedAt : Datetime} {t : TaskExecutionModel}
    (heffect : Effect base s call result (s.mapRows (startChange i startedAt)))
    (hvalid : wd.Valid) (hof : ExecutionOf wd s workflowId)
    (hof' : ExecutionOf wd (s.mapRows (startChange i startedAt)) workflowId)
    (hrow : taskRow s i = some t) (hpending : t.status = .pending) (hready : Ready s i) :
    stages (s.mapRows (startChange i startedAt)) workflowId = stages s workflowId ∨
      Graph.Advance wd.DependsOn wd.taskIds (stages s workflowId)
        (stages (s.mapRows (startChange i startedAt)) workflowId) := by
  have hself : ∀ t', taskRow (s.mapRows (startChange i startedAt)) i = some t' →
      t'.status = .running := by
    intro t' ht'
    rw [taskRow_mapRows, hrow, Option.map_some, Option.some.injEq] at ht'
    rw [← ht', startChange, if_pos rfl]
    rfl
  have hothers : ∀ j u u', j ≠ i → taskRow s j = some u →
      taskRow (s.mapRows (startChange i startedAt)) j = some u' → u'.status = u.status := by
    intro j u u' hne hj hj'
    rw [taskRow_mapRows, hj, Option.map_some, Option.some.injEq] at hj'
    rw [← hj', startChange, if_neg hne]
  rcases heffect.stages_update hof hof' hrow .running hself hothers with hsame | ⟨ht, hstages⟩
  · exact Or.inl hsame
  · rw [hstages]
    refine Or.inr (.start _ (hof.mem_taskIds hrow ht) ?_ fun k hk => ?_)
    · rw [hof.stages_row hrow ht, hpending]
      rfl
    · obtain ⟨j, u, hj, hu, rfl, hmem⟩ := hof.parent hvalid hrow ht hk
      obtain ⟨t', ht', hparents⟩ := hready
      obtain rfl := Option.some.inj (hrow.symm.trans ht')
      obtain ⟨u', hu', hc⟩ := completed_iff.mp (hparents j hmem)
      obtain rfl := Option.some.inj (hj.symm.trans hu')
      rw [hof.stages_row hj hu, hc]
      rfl

/-- A completion that finds its task running. -/
theorem Effect.advance_complete {request : CompleteTaskExecutionRequest} {t : TaskExecutionModel}
    {finished : Bool}
    (heffect : Effect base s call result (s.mapRows (completeChange request t finished)))
    (hof : ExecutionOf wd s workflowId)
    (hof' : ExecutionOf wd (s.mapRows (completeChange request t finished)) workflowId)
    (hrow : taskRow s request.taskExecutionId = some t) (hrunning : t.status = .running) :
    stages (s.mapRows (completeChange request t finished)) workflowId = stages s workflowId ∨
      Graph.Advance wd.DependsOn wd.taskIds (stages s workflowId)
        (stages (s.mapRows (completeChange request t finished)) workflowId) := by
  have hself : ∀ t', taskRow (s.mapRows (completeChange request t finished))
      request.taskExecutionId = some t' → t'.status = .completed := by
    intro t' ht'
    rw [taskRow_mapRows, hrow, Option.map_some, Option.some.injEq] at ht'
    rw [← ht', completeChange, if_pos rfl]
    rfl
  have hothers : ∀ j u u', j ≠ request.taskExecutionId → taskRow s j = some u →
      taskRow (s.mapRows (completeChange request t finished)) j = some u' →
      u'.status = u.status := by
    intro j u u' hne hj hj'
    rw [taskRow_mapRows, hj, Option.map_some, Option.some.injEq] at hj'
    rcases completeChange_cases finished hrow hj with ⟨hid, -⟩ | ⟨-, -, -, hc⟩ | ⟨-, -, hc⟩
    · exact absurd hid hne
    · rw [← hj', hc]
      rfl
    · rw [← hj', hc]
  rcases heffect.stages_update hof hof' hrow .completed hself hothers with
    hsame | ⟨ht, hstages⟩
  · exact Or.inl hsame
  · rw [hstages]
    refine Or.inr (.finish _ (hof.mem_taskIds hrow ht) ?_)
    rw [hof.stages_row hrow ht, hrunning]
    rfl

/-- The last try of a task. -/
theorem Effect.advance_fail {request : RetryTaskExecutionRequest} {t : TaskExecutionModel}
    (heffect : Effect base s call result (s.mapRows (failChange request t.workflowExecutionId)))
    (hof : ExecutionOf wd s workflowId)
    (hof' : ExecutionOf wd (s.mapRows (failChange request t.workflowExecutionId)) workflowId)
    (hrow : taskRow s request.taskExecutionId = some t) (hrunning : t.status = .running) :
    stages (s.mapRows (failChange request t.workflowExecutionId)) workflowId =
        stages s workflowId ∨
      Graph.Advance wd.DependsOn wd.taskIds (stages s workflowId)
        (stages (s.mapRows (failChange request t.workflowExecutionId)) workflowId) := by
  have hchange : ∀ j u u', taskRow s j = some u →
      taskRow (s.mapRows (failChange request t.workflowExecutionId)) j = some u' →
      failChange request t.workflowExecutionId (.task j) u = u' := by
    intro j u u' hj hj'
    rw [taskRow_mapRows, hj, Option.map_some, Option.some.injEq] at hj'
    exact hj'
  by_cases ht : t.workflowExecutionId = workflowId
  · refine Or.inr ?_
    have hstages : stages (s.mapRows (failChange request t.workflowExecutionId)) workflowId =
        Graph.stop (stages s workflowId) t.taskDefinitionId := by
      refine heffect.stages_eq hof' (fun j u u' hj hj' hu => ?_) fun k hk => ?_
      · rw [← hchange j u u' hj hj', Graph.stop]
        rcases failChange_cases hrow hj with
          ⟨-, rfl, hc⟩ | ⟨hid, -, hopen, hc⟩ | ⟨hid, hclosed, hc⟩
        · rw [hc, if_pos rfl]
          rfl
        · rw [hc, if_neg fun hd => hid (hof.once _ _ u t hj hrow hu ht hd), hof.stages_row hj hu,
            TaskStatus.over_stage, if_neg (by rw [hopen]; simp)]
          rfl
        · rw [hc, if_neg fun hd => hid (hof.once _ _ u t hj hrow hu ht hd), hof.stages_row hj hu,
            TaskStatus.over_stage, if_pos (hclosed (hu.trans ht.symm))]
      · rw [Graph.stop, if_neg, hof.stages_outside hk]
        · rfl
        · rintro rfl
          exact hk (hof.mem_taskIds hrow ht)
    rw [hstages]
    refine .fail _ (hof.mem_taskIds hrow ht) ?_
    rw [hof.stages_row hrow ht, hrunning]
    rfl
  · refine Or.inl (heffect.stages_eq hof' (fun j u u' hj hj' hu => ?_) fun k hk =>
      hof.stages_outside hk)
    rw [← hchange j u u' hj hj', hof.stages_row hj hu]
    rcases failChange_cases hrow hj with ⟨-, rfl, -⟩ | ⟨-, hw, -⟩ | ⟨-, -, hc⟩
    · exact absurd hu ht
    · exact absurd (hw.symm.trans hu) ht
    · rw [hc]

/-- **A call takes an execution one step along its graph, or none.** -/
theorem Effect.advance (heffect : Effect base s call result s') (hvalid : wd.Valid)
    (hof : ExecutionOf wd s workflowId) (hof' : ExecutionOf wd s' workflowId)
    (hready : ∀ i startedAt, call = .startTask i startedAt → Ready base i) :
    stages s' workflowId = stages s workflowId ∨
      Graph.Advance wd.DependsOn wd.taskIds (stages s workflowId) (stages s' workflowId) := by
  have heffect' := heffect
  cases heffect with
  | startRefused => exact Or.inl rfl
  | startResumed => exact Or.inl rfl
  | completeMissed => exact Or.inl rfl
  | retryMissed => exact Or.inl rfl
  | startTaken hbase hs hrow hpending _ =>
      exact heffect'.advance_start hvalid hof hof' hrow hpending
        ((hready _ _ rfl).mono (hbase.1.trans hs.1))
  | completeDone hrow hrunning _ => exact heffect'.advance_complete hof hof' hrow hrunning
  | retryFailed hrow hrunning _ => exact heffect'.advance_fail hof hof' hrow hrunning
  | @retryAgain request t hrow hrunning _ =>
      -- A try is not seen: the task goes on running.
      refine Or.inl (heffect'.stages_eq hof' (fun j u u' hj hj' hu => ?_) fun k hk =>
        hof.stages_outside hk)
      rw [taskRow_mapRows, hj, Option.map_some, Option.some.injEq] at hj'
      rw [← hj', hof.stages_row hj hu, retryChange]
      split
      · rename_i hid
        subst hid
        obtain rfl := Option.some.inj (hrow.symm.trans hj)
        rw [hrunning]
        rfl
      · rfl

end Effects

/-! ### One definition -/

section Definition

variable {wd wd' : WorkflowDefinition} {e e' : ExecutionStore} {workflowId : UUID}

/-- An execution stays one of its definition. -/
theorem ExecutionOf.evolved (h : ExecutionOf wd e workflowId) (he : Evolved e e') :
    ExecutionOf wd e' workflowId where
  tasks := by
    intro i t' hi ht
    obtain ⟨t, hi, hev⟩ := he.task hi
    have hsame := hev.same
    obtain ⟨d, hd, hid, hkey, hplugin, hconfiguration, htries, huntried⟩ :=
      h.tasks i t hi (hsame.workflowExecutionId.symm.trans ht)
    exact ⟨d, hd, hid.trans hsame.taskDefinitionId.symm, hsame.key.trans hkey,
      hsame.pluginType.trans hplugin, hsame.configuration.trans hconfiguration,
      Int.le_trans hev.tries htries,
      fun hp => (hev.untried hp).trans (huntried (hev.pending hp).1)⟩
  complete := by
    intro d hd
    obtain ⟨i, t, hi, ht, htd⟩ := h.complete d hd
    obtain ⟨t', hi', hev⟩ := taskRow_le he.le hi
    exact ⟨i, t', hi', hev.same.workflowExecutionId.trans ht, hev.same.taskDefinitionId.trans htd⟩
  once := by
    intro i j t' u' hi hj ht hu hd
    obtain ⟨t, hi, hev⟩ := he.task hi
    obtain ⟨u, hj, hev'⟩ := he.task hj
    rw [hev.same.workflowExecutionId] at ht
    rw [hev'.same.workflowExecutionId] at hu
    rw [hev.same.taskDefinitionId, hev'.same.taskDefinitionId] at hd
    exact h.once i j t u hi hj ht hu hd
  parents := by
    intro i j t' u' hi hj ht hu
    obtain ⟨t, hi, hev⟩ := he.task hi
    obtain ⟨u, hj, hev'⟩ := he.task hj
    rw [hev.same.workflowExecutionId] at ht
    rw [hev'.same.workflowExecutionId] at hu
    rw [hev.same.parentTaskIds, hev.same.taskDefinitionId, hev'.same.taskDefinitionId]
    exact h.parents i j t u hi hj ht hu
  known := by
    intro i t' hi ht
    obtain ⟨t, hi, hev⟩ := he.task hi
    obtain ⟨hnodup, hknown⟩ := h.known i t hi (hev.same.workflowExecutionId.symm.trans ht)
    rw [hev.same.parentTaskIds]
    refine ⟨hnodup, fun j hj => ?_⟩
    obtain ⟨u, hu, huw⟩ := hknown j hj
    obtain ⟨u', hu', hev'⟩ := taskRow_le he.le hu
    exact ⟨u', hu', hev'.same.workflowExecutionId.trans huw⟩

/-- Rows of other executions have no part in it. -/
theorem ExecutionOf.congr (h : ExecutionOf wd e workflowId)
    (hrows : ∀ i t, t.workflowExecutionId = workflowId →
      (taskRow e' i = some t ↔ taskRow e i = some t)) : ExecutionOf wd e' workflowId where
  tasks := fun i t hi ht => h.tasks i t ((hrows i t ht).mp hi) ht
  complete := by
    intro d hd
    obtain ⟨i, t, hi, ht, htd⟩ := h.complete d hd
    exact ⟨i, t, (hrows i t ht).mpr hi, ht, htd⟩
  once := fun i j t u hi hj ht hu =>
    h.once i j t u ((hrows i t ht).mp hi) ((hrows j u hu).mp hj) ht hu
  parents := fun i j t u hi hj ht hu =>
    h.parents i j t u ((hrows i t ht).mp hi) ((hrows j u hu).mp hj) ht hu
  known := by
    intro i t hi ht
    obtain ⟨hnodup, hknown⟩ := h.known i t ((hrows i t ht).mp hi) ht
    refine ⟨hnodup, fun j hj => ?_⟩
    obtain ⟨u, hu, huw⟩ := hknown j hj
    exact ⟨u, (hrows j u huw).mpr hu, huw⟩

/-- Two definitions of one execution have the same graph. -/
theorem ExecutionOf.same_graph (h : ExecutionOf wd e workflowId)
    (h' : ExecutionOf wd' e workflowId) (hvalid : wd.Valid) (hvalid' : wd'.Valid) :
    wd.taskIds = wd'.taskIds ∧ wd.DependsOn = wd'.DependsOn := by
  have hids : ∀ {wd wd' : WorkflowDefinition}, ExecutionOf wd e workflowId →
      ExecutionOf wd' e workflowId → wd.taskIds ⊆ wd'.taskIds := by
    intro wd wd' h h' k hk
    obtain ⟨d, hd, rfl⟩ := WorkflowDefinition.mem_taskIds.mp hk
    obtain ⟨i, t, hi, ht, htd⟩ := h.complete d hd
    exact htd ▸ h'.mem_taskIds hi ht
  have hdepends : ∀ {wd wd' : WorkflowDefinition}, ExecutionOf wd e workflowId →
      ExecutionOf wd' e workflowId → wd.Valid → ∀ a b, wd.DependsOn a b → wd'.DependsOn a b := by
    intro wd wd' h h' hvalid a b hab
    obtain ⟨d, hd, rfl, -⟩ := id hab
    obtain ⟨i, t, hi, ht, htd⟩ := h.complete d hd
    rw [← htd] at hab ⊢
    obtain ⟨j, u, hj, hu, rfl, hmem⟩ := h.parent hvalid hi ht hab
    exact (h'.parents i j t u hi hj ht hu).mp hmem
  refine ⟨Finset.Subset.antisymm (hids h h') (hids h' h), ?_⟩
  funext a b
  exact propext ⟨hdepends h h' hvalid a b, hdepends h' h hvalid' a b⟩

/-- The tasks of a definition before anything has happened. -/
def WorkflowDefinition.waiting (wd : WorkflowDefinition) : UUID → Graph.Stage :=
  fun k => if k ∈ wd.taskIds then .waiting else .cancelled

end Definition

/-! ### Every run -/

/-- Between two starts, the store changes by the commit of a call, and what is started is
ready. -/
theorem Platform.Reachable.effect {leaseTimeout : Timedelta} {p p' : Platform}
    (h : p.Reachable leaseTimeout) {action : PlatformAction} (hother : action.starts = false)
    (hs : p.step leaseTimeout action = some p') :
    p'.db.store = p.db.store ∨ ∃ base call result,
      Effect base p.db.store call result p'.db.store ∧
        ∀ i startedAt, call = .startTask i startedAt → Ready base i := by
  rcases Platform.onDb_of_step hs with hsame | ⟨a, hdb, hon⟩
  · exact Or.inl (congrArg Sql.Db.store hsame)
  · cases a with
    | begin w call =>
        obtain ⟨-, hdb⟩ := Sql.step_begin hdb
        exact Or.inl (by rw [hdb]; rfl)
    | statement w =>
        obtain ⟨_, _, -, -, hdb⟩ := Sql.step_statement hdb
        exact Or.inl (by rw [hdb]; rfl)
    | row w k =>
        obtain ⟨_, _, -, -, -, hdb⟩ := Sql.step_row hdb
        exact Or.inl (by rw [hdb]; rfl)
    | abort w =>
        obtain ⟨_, -, hdb⟩ := Sql.step_abort hdb
        exact Or.inl (by rw [hdb]; rfl)
    | insert rows =>
        rw [hon.inserts rows rfl] at hother
        simp at hother
    | commit w =>
        obtain ⟨y, result, hy, hphase, hdb⟩ := Sql.step_commit hdb
        refine Or.inr ⟨y.base, y.call, result, ?_, fun i startedAt hcall =>
          (h.sound.starting hy hcall).1⟩
        rw [hdb]
        exact effect_of_finished h.sound.db hy hphase

namespace System

variable {leaseTimeout : Timedelta} {x x' : System}

/-- **A step of the system takes an execution one step along its graph, or none.** -/
theorem Moves.advance (h : x.Moves leaseTimeout x') (hx : x.Sound leaseTimeout)
    {wd : WorkflowDefinition} {workflowId : UUID} (hvalid : wd.Valid)
    (hworkflow : (workflowRow x.platform.db.store workflowId).isSome = true)
    (hof : ExecutionOf wd x.platform.db.store workflowId) :
    ExecutionOf wd x'.platform.db.store workflowId ∧
      (stages x'.platform.db.store workflowId = stages x.platform.db.store workflowId ∨
        Graph.Advance wd.DependsOn wd.taskIds (stages x.platform.db.store workflowId)
          (stages x'.platform.db.store workflowId)) := by
  cases h with
  | none => exact ⟨hof, Or.inl rfl⟩
  | created => exact ⟨hof, Or.inl rfl⟩
  | deleted => exact ⟨hof, Or.inl rfl⟩
  | started publisher draws now definitions id wd' platform hdefinitions hload _ hstart =>
      have hvalid' := (hx.definitions.started hdefinitions).valid hload
      have hins := (Platform.start_cases hvalid'.linked hstart).1
      have hne : workflowId ≠ draws.workflowExecutionId := by
        rintro rfl
        rw [(created_of_insert hvalid' hins).fresh] at hworkflow
        simp at hworkflow
      have hrows : ∀ i t, t.workflowExecutionId = workflowId →
          (taskRow platform.db.store i = some t ↔ taskRow x.platform.db.store i = some t) := by
        intro i t ht
        constructor
        · intro hi
          rcases Sql.Store.row_insert?_cases hins hi with ⟨hmem, -⟩ | hold
          · obtain ⟨d, -, -, rfl⟩ := mem_compiled_task.mp hmem
            exact absurd ht.symm hne
          · exact hold
        · exact Sql.Store.row_insert?_old hins
      have hof' := hof.congr hrows
      refine ⟨hof', Or.inl (hof'.stages_eq (fun i t hi ht => ?_) fun k hk =>
        hof.stages_outside hk)⟩
      exact (hof.stages_row ((hrows i t ht).mp hi) ht).symm
  | ran action platform hother _ hrun =>
      have hof' := hof.evolved (hx.platform.evolved hother hrun)
      refine ⟨hof', ?_⟩
      rcases hx.platform.effect hother hrun with hsame | ⟨base, call, result, heffect, hready⟩
      · exact Or.inl (congrArg (stages · workflowId) hsame)
      · exact heffect.advance hvalid hof hof' hready

/-- In an execution that is new nothing has happened. -/
theorem Moves.fresh (h : x.Moves leaseTimeout x') (hx : x.Sound leaseTimeout) {workflowId : UUID}
    (hnew : (workflowRow x.platform.db.store workflowId).isSome = false)
    (hsome : (workflowRow x'.platform.db.store workflowId).isSome = true) {i : UUID}
    {t : TaskExecutionModel} (hi : taskRow x'.platform.db.store i = some t)
    (ht : t.workflowExecutionId = workflowId) : t.status = .pending := by
  cases h with
  | none => simp [hnew] at hsome
  | created => simp [hnew] at hsome
  | deleted => simp [hnew] at hsome
  | started publisher draws now definitions id wd platform hdefinitions hload _ hstart =>
      have hvalid := (hx.definitions.started hdefinitions).valid hload
      have hins := (Platform.start_cases hvalid.linked hstart).1
      rcases Sql.Store.row_insert?_cases hins hi with ⟨hmem, -⟩ | hold
      · obtain ⟨d, -, -, rfl⟩ := mem_compiled_task.mp hmem
        rfl
      · have hlinked := (reachable_coherent hx.platform.sound.db).workflow i t hold
        simp [ht, hnew] at hlinked
  | ran action platform hother _ hrun =>
      have hold := (hx.platform.evolved hother hrun).rows (.workflow workflowId) hsome
      exact absurd (hnew.symm.trans hold) (by simp)

/-- **Every execution has come to where it is along its graph.** -/
theorem Reachable.advances (h : x.Reachable leaseTimeout) {workflowId : UUID}
    {wd : WorkflowDefinition} (hvalid : wd.Valid)
    (hworkflow : (workflowRow x.platform.db.store workflowId).isSome = true)
    (hof : ExecutionOf wd x.platform.db.store workflowId) :
    ∃ n, Graph.Advances wd.DependsOn wd.taskIds wd.waiting n
      (stages x.platform.db.store workflowId) := by
  induction h generalizing wd with
  | init clock => simp [System.init, Platform.init, Sql.Db.init, workflowRow] at hworkflow
  | @step x x' h action haction hs ih =>
      have hmoves := moves_of_step haction hs
      cases hold : workflowRow x.platform.db.store workflowId with
      | none =>
          -- The execution has just been started.
          have hstages : stages x'.platform.db.store workflowId = wd.waiting := by
            refine hof.stages_eq (fun i t hi ht => ?_) fun k hk => ?_
            · rw [hmoves.fresh h.sound (by rw [hold]; rfl) hworkflow hi ht,
                WorkflowDefinition.waiting, if_pos (hof.mem_taskIds hi ht)]
              rfl
            · rw [WorkflowDefinition.waiting, if_neg hk]
          exact ⟨0, hstages ▸ .refl⟩
      | some w =>
          have hworkflow₀ : (workflowRow x.platform.db.store workflowId).isSome = true :=
            Option.isSome_of_eq_some hold
          obtain ⟨wd₀, hload, hof₀⟩ := h.executionOf hold
          have hvalid₀ := h.sound.definitions.valid hload
          obtain ⟨n, hn⟩ := ih hvalid₀ hworkflow₀ hof₀
          obtain ⟨hof₁, hstages⟩ := hmoves.advance h.sound hvalid₀ hworkflow₀ hof₀
          obtain ⟨hids, hdepends⟩ := hof₁.same_graph hof hvalid₀ hvalid
          have hwaiting : wd₀.waiting = wd.waiting := by
            funext k
            simp only [WorkflowDefinition.waiting, hids]
          rw [hids, hdepends, hwaiting] at hn
          rw [hids, hdepends] at hstages
          rcases hstages with hsame | hadvance
          · exact ⟨n, hsame ▸ hn⟩
          · exact ⟨n + 1, hn.tail hadvance⟩

end System

/-- What the status of a workflow says of its tasks. -/
theorem ExecutionOf.workflow_stages {wd : WorkflowDefinition} {e : ExecutionStore} {id : UUID}
    (h : ExecutionOf wd e id) (he : Coherent e) {w : WorkflowExecutionModel}
    (hw : workflowRow e id = some w) :
    (w.status = .failed ↔ ∃ k ∈ wd.taskIds, stages e id k = .failed) ∧
      (w.status = .completed → ∀ k ∈ wd.taskIds, stages e id k = .done) := by
  -- The row of each task, and what the workflow lets it be.
  have hrows : ∀ k ∈ wd.taskIds, ∃ i t, taskRow e i = some t ∧ stages e id k = t.status.stage ∧
      w.status.Admits t.status := by
    intro k hk
    obtain ⟨d, hd, rfl⟩ := WorkflowDefinition.mem_taskIds.mp hk
    obtain ⟨i, t, hi, ht, htd⟩ := h.complete d hd
    exact ⟨i, t, hi, htd ▸ h.stages_row hi ht, he.admits i t w hi (ht ▸ hw)⟩
  refine ⟨⟨fun hfailed => ?_, fun hfailed => ?_⟩, fun hcompleted k hk => ?_⟩
  · obtain ⟨j, hj⟩ := he.culprit id w hw hfailed
    obtain ⟨t, ht, hid, hstatus⟩ := (hj j).mpr rfl
    exact ⟨t.taskDefinitionId, h.mem_taskIds ht hid, by rw [h.stages_row ht hid, hstatus]; rfl⟩
  · obtain ⟨k, hk, hstage⟩ := hfailed
    obtain ⟨i, t, -, hrow, hadmits⟩ := hrows k hk
    rw [hstage] at hrow
    cases hs : w.status with
    | failed => rfl
    | cancelled => exact absurd hs (he.not_cancelled hw)
    | completed =>
        rw [hs] at hadmits
        rw [show t.status = _ from hadmits] at hrow
        simp [TaskStatus.stage] at hrow
    | running =>
        rw [hs] at hadmits
        rcases hadmits with hp | hr | hc
        · simp [hp, TaskStatus.stage] at hrow
        · simp [hr, TaskStatus.stage] at hrow
        · simp [hc, TaskStatus.stage] at hrow
  · obtain ⟨i, t, -, hrow, hadmits⟩ := hrows k hk
    rw [hcompleted] at hadmits
    rw [hrow, show t.status = _ from hadmits]
    rfl

/--
**The system executes dependency graphs.**  An execution has come to where it is by steps along
the graph of its definition, no more than two for each task, and whatever the system does next
takes it one such step further or leaves it where it is.  Its workflow has failed if a task of it
has, and is completed only when all of them are.
-/
theorem executes_graph {leaseTimeout : Timedelta} {x : System} (h : x.Reachable leaseTimeout)
    {id : UUID} {w : WorkflowExecutionModel} {wd : WorkflowDefinition}
    (hw : workflowRow x.platform.db.store id = some w)
    (hload : load x.definitions w.workflowDefinitionId = some wd) :
    (∃ n ≤ 2 * wd.taskDefinitions.length,
      Graph.Advances wd.DependsOn wd.taskIds wd.waiting n (stages x.platform.db.store id)) ∧
    ((w.status = .failed ↔ ∃ k ∈ wd.taskIds, stages x.platform.db.store id k = .failed) ∧
      (w.status = .completed → ∀ k ∈ wd.taskIds, stages x.platform.db.store id k = .done)) ∧
    ∀ action x', action.Valid x → x.step leaseTimeout action = some x' →
      stages x'.platform.db.store id = stages x.platform.db.store id ∨
        Graph.Advance wd.DependsOn wd.taskIds (stages x.platform.db.store id)
          (stages x'.platform.db.store id) := by
  have hvalid := h.sound.definitions.valid hload
  obtain ⟨wd', hload', hof⟩ := h.executionOf hw
  obtain rfl := Option.some.inj (hload.symm.trans hload')
  have hworkflow : (workflowRow x.platform.db.store id).isSome = true := by rw [hw]; rfl
  refine ⟨?_, hof.workflow_stages (reachable_coherent h.sound.platform.sound.db) hw, ?_⟩
  · obtain ⟨n, hn⟩ := h.advances hvalid hworkflow hof
    refine ⟨n, ?_, hn⟩
    calc n ≤ Graph.remaining wd.taskIds wd.waiting := by
          have := hn.length_le
          omega
      _ ≤ 2 * wd.taskIds.card := Graph.remaining_le _ _
      _ ≤ 2 * wd.taskDefinitions.length := by
          have := List.toFinset_card_le (wd.taskDefinitions.map (·.id))
          rw [List.length_map] at this
          exact Nat.mul_le_mul_left 2 this
  · intro action x' haction hs
    exact ((System.moves_of_step haction hs).advance h.sound hvalid hworkflow hof).2

/-- In the sample the first task is done, and the second one is about to be started. -/
theorem executes_graph_sample : ∃ (w : WorkflowExecutionModel) (wd : WorkflowDefinition),
    workflowRow (sampleSystem 17).platform.db.store 1 = some w ∧
    (∃ n ≤ 2 * wd.taskDefinitions.length,
      Graph.Advances wd.DependsOn wd.taskIds wd.waiting n
        (stages (sampleSystem 17).platform.db.store 1)) ∧
    ((w.status = .failed ↔
        ∃ k ∈ wd.taskIds, stages (sampleSystem 17).platform.db.store 1 k = .failed) ∧
      (w.status = .completed →
        ∀ k ∈ wd.taskIds, stages (sampleSystem 17).platform.db.store 1 k = .done)) ∧
    ∀ action x', action.Valid (sampleSystem 17) → (sampleSystem 17).step 100 action = some x' →
      stages x'.platform.db.store 1 = stages (sampleSystem 17).platform.db.store 1 ∨
        Graph.Advance wd.DependsOn wd.taskIds (stages (sampleSystem 17).platform.db.store 1)
          (stages x'.platform.db.store 1) := by
  have hsome : ((workflowRow (sampleSystem 17).platform.db.store 1).bind fun w =>
      load (sampleSystem 17).definitions w.workflowDefinitionId).isSome = true := by
    decide +kernel
  obtain ⟨wd, hwd⟩ := Option.isSome_iff_exists.mp hsome
  obtain ⟨w, hw, hload⟩ := Option.bind_eq_some_iff.mp hwd
  exact ⟨w, wd, hw, executes_graph (sampleSystem_reachable 17) hw hload⟩

end AutomationPlatform
