/-
The interleaved system does nothing the abstract machine does not.

Each call's body is read back statement by statement, as a lax run on the store it
commits to.  Most of its statements are stable, so they do there exactly what they
would do alone; where a statement may be misled by an older view, the rows the call
has locked, or the graph, make up for it.  The one exception is the check that ends
a workflow: what it finds is right when it succeeds, and says nothing when it fails.

The result is `reachable_run`: in every reachable state of the system of statements,
the log is a history of the machine.
-/
import AutomationPlatform.Proofs.Executions.Coherence
import AutomationPlatform.Sql.Serialization

namespace AutomationPlatform

open WorkflowExecutionRepository

/-! ### The bodies -/

/-- What `start_task` does after its update. -/
def startRest (id : UUID) (view : ExecutionStore) : Session CallResult :=
  match (taskRow view id).filter fun t => t.status == .running with
  | none => .done (.started none)
  | some t => (loadParentOutputs t.parentTaskIds).bind fun parentOutputs =>
      .done (.started (some
        { pluginType := t.pluginType
          configuration := t.configuration
          parentOutputs := parentOutputs }))

theorem startTask_body (id : UUID) (startedAt : Datetime) :
    (Call.startTask id startedAt).body =
      .updateRow (startUpdate id startedAt) fun _ => .query (startRest id) := by
  refine congrArg (Sql.Program.updateRow _) (funext fun _ => congrArg Sql.Program.query
    (funext fun view => ?_))
  show Sql.Program.bind _ _ = startRest id view
  unfold startRest
  simp only [Sql.Program.done_bind]
  cases (taskRow view id).filter fun t => t.status == .running with
  | none => rfl
  | some t =>
      simp only [loadParentOutputs]
      by_cases hp : t.parentTaskIds = []
      · simp [hp]
      · simp only [if_neg hp, Sql.Program.bind_eq, Sql.Program.query_bind, Sql.Program.query.injEq]
        funext v
        split <;> rfl

/-- What `complete_task` does once its task is completed. -/
def completeRest (request : CompleteTaskExecutionRequest) (t : TaskExecutionModel) :
    Session CallResult :=
  (updateChildDependencies t.childTaskIds).bind fun runnable =>
    .updateRow (finishUpdate t.workflowExecutionId request.completedAt) fun r =>
      .done (.completed { runnableTaskExecutionIds := runnable, workflowCompleted := r.isSome })

theorem completeTask_body (request : CompleteTaskExecutionRequest) :
    (Call.completeTask request).body =
      .updateRow (completeUpdate request) fun
        | none => .done (.completed { runnableTaskExecutionIds := [], workflowCompleted := false })
        | some t => completeRest request t := by
  refine congrArg (Sql.Program.updateRow _) (funext fun r => ?_)
  cases r with
  | none => rfl
  | some t =>
      show ((updateChildDependencies t.childTaskIds).bind _).bind _ = completeRest request t
      rw [Sql.Program.bind_assoc]
      rfl

/-- What `retry_task` does once a try is used up. -/
def retryRest (request : RetryTaskExecutionRequest) (t : TaskExecutionModel) :
    Session CallResult :=
  if 0 < t.remainingTries then .done (.retried { shouldRetry := true, workflowFailed := false })
  else .updateRow (failUpdate t.workflowExecutionId request.completedAt) fun
    | none => .done (.retried { shouldRetry := false, workflowFailed := false })
    | some _ => .updateRows (cancelUpdate t.workflowExecutionId request.completedAt)
        (.done (.retried { shouldRetry := false, workflowFailed := true }))

theorem retryTask_body (request : RetryTaskExecutionRequest) :
    (Call.retryTask request).body =
      .updateRow (retryUpdate request) fun
        | none => .done (.retried { shouldRetry := false, workflowFailed := false })
        | some t => retryRest request t := by
  refine congrArg (Sql.Program.updateRow _) (funext fun r => ?_)
  cases r with
  | none => rfl
  | some t =>
      change TaskExecutionModel at t
      by_cases hpos : 0 < t.remainingTries
      · simp [retryRest, hpos]
      · simp only [retryRest, Sql.Program.done_bind, Sql.Program.pure_eq, hpos, decide_false,
          Bool.not_true, Bool.false_eq_true, if_false]
        refine congrArg (Sql.Program.updateRow _) (funext fun r => ?_)
        cases r <;> rfl

/-! ### Looking back -/

section Past

variable {Good : ExecutionStore → Prop} {s base lb lb' V : ExecutionStore}

theorem Past.task {i : UUID} {t : TaskExecutionModel}
    (hV : Sql.Past executionTimeline Good lb s V) (hi : taskRow lb i = some t) :
    ∃ tV ts, taskRow V i = some tV ∧ taskRow s i = some ts ∧ TaskEvolves t tV ∧
      TaskEvolves tV ts := by
  obtain ⟨tV, htV, hev⟩ := taskRow_le hV.after.1 hi
  obtain ⟨ts, hts, hev'⟩ := taskRow_le hV.before.1 htV
  exact ⟨tV, ts, htV, hts, hev, hev'⟩

/-- A task that had been started, and was not running at a later look, is over. -/
theorem over_of_not_running (hV : Sql.Past executionTimeline Good base s V) {id : UUID}
    {t : TaskExecutionModel} (ht : taskRow base id = some t) (hp : t.status ≠ .pending)
    (hn : ∀ tV, taskRow V id = some tV → tV.status ≠ .running) : Over s id := by
  obtain ⟨tV, ts, htV, hts, hev, hev'⟩ := Past.task hV ht
  rcases tV.status.cases with hs | hs | hs
  · exact absurd hs (hev.not_pending hp)
  · exact absurd hs (hn tV htV)
  · exact ⟨ts, hts, hev'.status_terminal hs⟩

/-- Writes laid over a store are a change of its rows, if they are so row by row. -/
theorem overlay_eq_mapRows {w : Sql.Writes RowId Row} {change : Change}
    (h : ∀ k v, s.row k = some v → (w k).getD v = change k v) :
    s.overlay w = s.mapRows change := by
  refine Sql.Store.ext rfl fun k => ?_
  rw [Sql.Store.overlay_row, Sql.Store.mapRows_row]
  cases hk : s.row k with
  | none => rfl
  | some v => rw [Option.map_some, Option.map_some, h k v hk]

end Past

/-! ### Single-row updates, table by table -/

section Updates

variable {Good : ExecutionStore → Prop} {s lb lb' : ExecutionStore}
  {w w' : Sql.Writes RowId Row} {α : Type} {p : Session α} {id : UUID}

theorem updateTask_inv {cond : TaskExecutionModel → Bool}
    {set : TaskExecutionModel → TaskExecutionModel}
    {next : Option TaskExecutionModel → Session α}
    (h : Sql.Lax executionTimeline Good s lb (.updateRow (updateTask id cond set) next) w lb' p w')
    (hfin : p.Finished) :
    ∃ V, Sql.Past executionTimeline Good lb s V ∧
      ((∃ tV t, taskRow (V.overlay w) id = some tV ∧ taskRow (s.overlay w) id = some t ∧
          cond t = true ∧
          Sql.Lax executionTimeline Good s V (next (some (set t)))
            (w.set (.task id) (set t)) lb' p w') ∨
        ((∀ t, taskRow (V.overlay w) id = some t → cond t = false) ∧
          Sql.Lax executionTimeline Good s V (next none) w lb' p w')) := by
  obtain ⟨V, hV, ⟨t, hpick, hrow, hcond, h⟩ | ⟨hmiss, h⟩⟩ := h.updateRow_inv hfin
  · obtain ⟨tV, htV⟩ := Option.isSome_iff_exists.mp hpick
    exact ⟨V, hV, Or.inl ⟨tV, t, (Sql.RowUpdate.matched_some.mp htV).2.1, hrow, hcond, h⟩⟩
  · refine ⟨V, hV, Or.inr ⟨fun t ht => ?_, h⟩⟩
    cases hc : cond t with
    | false => rfl
    | true =>
        have hm : (updateTask id cond set).matched (V.overlay w) = some t :=
          Sql.RowUpdate.matched_some.mpr ⟨rfl, ht, hc⟩
        rw [hmiss] at hm
        simp at hm

theorem updateTask_exact {cond : TaskExecutionModel → Bool}
    {set : TaskExecutionModel → TaskExecutionModel}
    {next : Option TaskExecutionModel → Session α}
    (h : Sql.Lax executionTimeline Good s lb (.updateRow (updateTask id cond set) next) w lb' p w')
    (hfin : p.Finished) (hstable : Sql.Stable executionEvolution (.task id) cond)
    (hfree : w (.task id) = none) (hrow : (taskRow lb id).isSome = true) :
    ∃ V t, Sql.Past executionTimeline Good lb s V ∧ taskRow s id = some t ∧
      ((cond t = true ∧ Sql.Lax executionTimeline Good s V (next (some (set t)))
          (w.set (.task id) (set t)) lb' p w') ∨
        (cond t = false ∧ Sql.Lax executionTimeline Good s V (next none) w lb' p w')) :=
  h.updateRow_exact hfin hstable (fun _ => rfl) hfree hrow

theorem updateRunningWorkflow_inv {subquery : ExecutionStore → Bool}
    {set : WorkflowExecutionModel → WorkflowExecutionModel}
    {next : Option WorkflowExecutionModel → Session α}
    (h : Sql.Lax executionTimeline Good s lb
      (.updateRow (updateRunningWorkflow id subquery set) next) w lb' p w')
    (hfin : p.Finished) :
    ∃ V, Sql.Past executionTimeline Good lb s V ∧
      ((∃ r, subquery (V.overlay w) = true ∧ workflowRow (s.overlay w) id = some r ∧
          r.status = .running ∧
          Sql.Lax executionTimeline Good s V (next (some (set r)))
            (w.set (.workflow id) (set r)) lb' p w') ∨
        Sql.Lax executionTimeline Good s V (next none) w lb' p w') := by
  obtain ⟨V, hV, ⟨r, hpick, hrow, hcond, h⟩ | ⟨-, h⟩⟩ := h.updateRow_inv hfin
  · obtain ⟨rV, hrV⟩ := Option.isSome_iff_exists.mp hpick
    exact ⟨V, hV, Or.inl ⟨r, (Sql.RowUpdate.matched_some.mp hrV).1, hrow,
      by simpa [updateRunningWorkflow] using hcond, h⟩⟩
  · exact ⟨V, hV, Or.inr h⟩

theorem updateRunningWorkflow_exact {set : WorkflowExecutionModel → WorkflowExecutionModel}
    {next : Option WorkflowExecutionModel → Session α}
    (h : Sql.Lax executionTimeline Good s lb
      (.updateRow (updateRunningWorkflow id (fun _ => true) set) next) w lb' p w')
    (hfin : p.Finished) (hfree : w (.workflow id) = none)
    (hrow : (workflowRow lb id).isSome = true) :
    ∃ V r, Sql.Past executionTimeline Good lb s V ∧ workflowRow s id = some r ∧
      ((r.status = .running ∧ Sql.Lax executionTimeline Good s V (next (some (set r)))
          (w.set (.workflow id) (set r)) lb' p w') ∨
        (r.status ≠ .running ∧ Sql.Lax executionTimeline Good s V (next none) w lb' p w')) := by
  obtain ⟨V, r, hV, hr, ⟨hc, h⟩ | ⟨hc, h⟩⟩ := h.updateRow_exact hfin
    (updateRunningWorkflow_stable id _ set) (fun _ => rfl) hfree hrow
  · exact ⟨V, r, hV, hr, Or.inl ⟨by simpa [updateRunningWorkflow] using hc, h⟩⟩
  · exact ⟨V, r, hV, hr, Or.inr ⟨by simpa [updateRunningWorkflow] using hc, h⟩⟩

end Updates

/-- The change of a single row, laid over a store. -/
theorem overlay_set_task {s : ExecutionStore} {change : Change} {id : UUID}
    {t t' : TaskExecutionModel} (hrow : taskRow s id = some t) (hself : change (.task id) t = t')
    (hother : ∀ i u, i ≠ id → change (.task i) u = u)
    (hworkflow : ∀ i w, change (.workflow i) w = w) :
    s.overlay (Sql.Writes.empty.set (.task id) t') = s.mapRows change := by
  refine overlay_eq_mapRows fun k v hk => ?_
  cases k with
  | workflow i => exact (hworkflow i v).symm
  | task i =>
      by_cases hi : i = id
      · subst hi
        have hv : t = v := Option.some.inj (hrow.symm.trans hk)
        rw [Sql.Writes.set_self, ← hv, hself]
        rfl
      · rw [Sql.Writes.set_ne _ _ (by simpa using hi), hother i v hi]
        rfl

/-! ### `start_task` -/

section Start

variable {Good : ExecutionStore → Prop} {s base lb' : ExecutionStore}
  {w : Sql.Writes RowId Row} {p : Session CallResult}

/-- The row a key contributes to the parents. -/
def parentModel (s : ExecutionStore) (parents : List UUID) : RowId → Option TaskExecutionModel
  | .task id => if id ∈ parents then taskRow s id else none
  | .workflow _ => none

theorem parentModels_eq (s : ExecutionStore) (parents : List UUID) :
    parentModels s parents = s.keys.filterMap (parentModel s parents) := by
  rw [parentModels, taskTable, List.filter_filterMap, List.map_filterMap]
  refine List.filterMap_congr fun k _ => ?_
  cases k with
  | workflow i => rfl
  | task i =>
      by_cases hi : i ∈ parents <;> cases ht : taskRow s i <;> simp [parentModel, hi, ht]

/-- Writes to other rows do not show among the parents. -/
theorem parentModels_overlay {V : ExecutionStore} {w : Sql.Writes RowId Row} {parents : List UUID}
    (h : ∀ p ∈ parents, w (.task p) = none) :
    parentModels (V.overlay w) parents = parentModels V parents := by
  rw [parentModels_eq, parentModels_eq, Sql.Store.overlay_keys]
  refine List.filterMap_congr fun k _ => ?_
  cases k with
  | workflow i => rfl
  | task i =>
      by_cases hi : i ∈ parents
      · simp only [parentModel, hi, if_true]
        exact Sql.Store.overlay_row_none (h i hi)
      · simp only [parentModel, hi, if_false]

/-- What `start_task` comes to after its update: nothing, a result, or an exception. -/
theorem startRest_run {V₁ : ExecutionStore} {id : UUID} {w₁ : Sql.Writes RowId Row}
    (hfin : p.Finished) (hV₁ : Sql.Past executionTimeline Good base s V₁)
    (hself : ∀ t, taskRow (V₁.overlay w₁) id = some t → ∀ q ∈ t.parentTaskIds,
      w₁ (.task q) = none)
    (h : Sql.Lax executionTimeline Good s V₁ (startRest id (V₁.overlay w₁)) w₁ lb' p w) :
    w = w₁ ∧
      ((p = .done (.started none) ∧
          ∀ t, taskRow (V₁.overlay w₁) id = some t → t.status ≠ .running) ∨
        ∃ t V, taskRow (V₁.overlay w₁) id = some t ∧ t.status = .running ∧
          executionTimeline.before V₁ V ∧ Sql.Past executionTimeline Good base s V ∧
          ((∃ r, p = .done (.started (some r)) ∧ StartData V t r) ∨
            ∃ e key, p = .raise e ∧
              collectOutputs [] (parentModels V t.parentTaskIds) = .error key)) := by
  unfold startRest at h
  cases hrow : (taskRow (V₁.overlay w₁) id).filter fun t => t.status == .running with
  | none =>
      rw [hrow] at h
      cases h with
      | refl =>
          refine ⟨rfl, Or.inl ⟨rfl, fun t ht hr => ?_⟩⟩
          rw [ht] at hrow
          simp [hr] at hrow
  | some t =>
      rw [hrow] at h
      obtain ⟨ht, hr⟩ := Option.filter_eq_some_iff.mp hrow
      have hr : t.status = .running := by simpa using hr
      simp only [loadParentOutputs] at h
      by_cases hp : t.parentTaskIds = []
      · simp only [hp, if_true, Sql.Program.pure_eq, Sql.Program.done_bind] at h
        cases h with
        | refl =>
            refine ⟨rfl, Or.inr ⟨t, lb', ht, hr, executionTimeline.before_refl _, hV₁, Or.inl
              ⟨_, rfl, rfl, rfl, ?_⟩⟩⟩
            simp [hp, parentModels, collectOutputs]
      · simp only [if_neg hp, Sql.Program.query_bind] at h
        obtain ⟨V, hV, h⟩ := h.query_inv hfin
        rw [parentModels_overlay (hself t ht)] at h
        refine ⟨?_, Or.inr ⟨t, V, ht, hr, hV.after, hV₁.trans hV, ?_⟩⟩
        · cases hc : collectOutputs [] (parentModels V t.parentTaskIds) <;>
            simp only [hc, Sql.Program.done_bind, Sql.Program.raise_bind] at h <;> cases h <;> rfl
        · cases hc : collectOutputs [] (parentModels V t.parentTaskIds) with
          | error key =>
              simp only [hc, Sql.Program.raise_bind] at h
              cases h with
              | refl => exact Or.inr ⟨_, key, rfl, rfl⟩
          | ok outputs =>
              simp only [hc, Sql.Program.done_bind] at h
              cases h with
              | refl => exact Or.inl ⟨_, rfl, rfl, rfl, hc⟩

/-- What it comes to when the update has taken the task up: its row is the transaction's own. -/
theorem startRest_taken (hs : Coherent s) {V₀ : ExecutionStore} {id : UUID} {startedAt : Datetime}
    {tV t : TaskExecutionModel} (hfin : p.Finished)
    (hV₀ : Sql.Past executionTimeline Good base s V₀) (hrowV : taskRow V₀ id = some tV)
    (hrow : taskRow s id = some t)
    (h : Sql.Lax executionTimeline Good s V₀ (.query (startRest id))
      (Sql.Writes.empty.set (.task id) (t.start startedAt)) lb' p w) :
    w = Sql.Writes.empty.set (.task id) (t.start startedAt) ∧
      ∃ V, Sql.Past executionTimeline Good base s V ∧ (∃ tV', taskRow V id = some tV') ∧
        ((∃ r, p = .done (.started (some r)) ∧ StartData V t r) ∨
          ∃ e key, p = .raise e ∧
            collectOutputs [] (parentModels V t.parentTaskIds) = .error key) := by
  obtain ⟨V₁, hV₁, h⟩ := h.query_inv hfin
  obtain ⟨tV₁, htV₁, -⟩ := taskRow_le hV₁.after.1 hrowV
  have hview : taskRow (V₁.overlay (Sql.Writes.empty.set (.task id) (t.start startedAt))) id =
      some (t.start startedAt) := Sql.Store.overlay_row_some htV₁ (by simp)
  have hself : ∀ u, taskRow (V₁.overlay (Sql.Writes.empty.set (.task id) (t.start startedAt))) id
      = some u → ∀ q ∈ u.parentTaskIds, (Sql.Writes.empty.set (.task id)
        (t.start startedAt) : Sql.Writes RowId Row) (.task q) = none := by
    intro u hu q hq
    rw [hview, Option.some.injEq] at hu
    subst hu
    rw [Sql.Writes.set_ne _ _ (by rintro hc; cases hc; exact hs.not_self id t hrow hq)]
    rfl
  have hV₁s := hV₀.trans hV₁
  obtain ⟨hw, ⟨-, hno⟩ | ⟨u, V, hu, -, hV₁V, hV, hend⟩⟩ := startRest_run hfin hV₁s hself h
  · exact absurd rfl (hno _ hview)
  · rw [hview, Option.some.injEq] at hu
    subst hu
    obtain ⟨tV', htV', -⟩ := taskRow_le hV₁V.1 htV₁
    refine ⟨hw, V, hV, ⟨tV', htV'⟩, ?_⟩
    rcases hend with ⟨r, hr, hdata⟩ | hraise
    · exact Or.inl ⟨r, hr, hdata.pluginType, hdata.configuration, hdata.parentOutputs⟩
    · exact Or.inr hraise

/--
What a finished `start_task` did.  The exception it may end in says that a parent
of the task had no output when the parents were read.
-/
theorem startTask_run (hs : Coherent s) {id : UUID} {startedAt : Datetime} (hfin : p.Finished)
    (h : Sql.Lax executionTimeline Good s base (Call.startTask id startedAt).body .empty lb' p w) :
    (∃ result, p = .done result ∧
        Effect base s (.startTask id startedAt) result (s.overlay w)) ∨
      ∃ t V e key, taskRow s id = some t ∧ executionTimeline.before base V ∧
        executionTimeline.before V s ∧ p = .raise e ∧
        collectOutputs [] (parentModels V t.parentTaskIds) = .error key := by
  rw [startTask_body] at h
  obtain ⟨V₀, hV₀, ⟨tV, t, hrowV, hrow, hcond, h⟩ | ⟨hmiss, h⟩⟩ := updateTask_inv h hfin
  · -- The row was pending, and is the transaction's own from here on.
    have hpending : t.status = .pending := by simpa using hcond
    rw [Sql.Store.overlay_empty] at hrow hrowV
    obtain ⟨rfl, V, hV, -, ⟨r, rfl, hdata⟩ | ⟨e, key, rfl, herror⟩⟩ :=
      startRest_taken hs hfin hV₀ hrowV hrow h
    · refine Or.inl ⟨_, rfl, ?_⟩
      have hoverlay : s.overlay (Sql.Writes.empty.set (.task id) (t.start startedAt)) =
          s.mapRows (startChange id startedAt) :=
        overlay_set_task hrow (by simp [startChange])
          (fun i u hi => by simp [startChange, hi]) fun _ _ => rfl
      rw [hoverlay]
      exact .startTaken hV.after hV.before hrow hpending hdata
    · exact Or.inr ⟨t, V, e, key, hrow, hV.after, hV.before, rfl, herror⟩
  · -- Nothing was changed, so the row looked at is a committed one.
    rw [Sql.Store.overlay_empty] at hmiss
    obtain ⟨V₁, hV₁, h⟩ := h.query_inv hfin
    have hself : ∀ u, taskRow (V₁.overlay Sql.Writes.empty) id = some u → ∀ q ∈ u.parentTaskIds,
        (Sql.Writes.empty : Sql.Writes RowId Row) (.task q) = none := fun _ _ _ _ => rfl
    have hV₁s := hV₀.trans hV₁
    obtain ⟨rfl, hrest⟩ := startRest_run hfin hV₁s hself h
    rw [Sql.Store.overlay_empty] at hrest ⊢
    rcases hrest with ⟨rfl, hno⟩ | ⟨t, V, ht, hr, hV₁V, hV, hend⟩
    · refine Or.inl ⟨_, rfl, .startRefused fun hbase => ?_⟩
      obtain ⟨t₀, ht₀⟩ := Option.isSome_iff_exists.mp hbase
      obtain ⟨tV, htV, hev⟩ := taskRow_le hV₀.after.1 ht₀
      have hp : tV.status ≠ .pending := by simpa using hmiss tV htV
      exact over_of_not_running ⟨hV₁.after, hV₁.before, hV₁.good⟩ htV hp hno
    · rcases hend with ⟨r, rfl, hdata⟩ | ⟨e, key, rfl, herror⟩
      · exact Or.inl ⟨_, rfl, .startResumed hV₁s.after hV₁V hV.before ht hr hdata⟩
      · obtain ⟨ts, hts, hev⟩ := taskRow_le hV₁.before.1 ht
        refine Or.inr ⟨ts, V, e, key, hts, hV.after, hV.before, rfl, ?_⟩
        rw [hev.same.parentTaskIds]
        exact herror

end Start

/-! ### `complete_task` -/

section Complete

variable {Good : ExecutionStore → Prop} {s base lb' : ExecutionStore} {w w' : Sql.Writes RowId Row}

/-- One round of the loop over the children, as a body of its own. -/
theorem releaseChild_eq (acc : List UUID) (c : UUID) :
    releaseChild acc c = .updateRow (childUpdate c) fun
      | none => .done acc
      | some (t : TaskExecutionModel) =>
          if t.remainingDependencies = 0 then .done (acc ++ [c]) else .done acc := rfl

/-- One round decrements the child exactly when it would on the present store. -/
theorem releaseChild_run {acc acc' : List UUID} {c : UUID} {lb lb₁ : ExecutionStore}
    {w₁ : Sql.Writes RowId Row} (hfree : w (.task c) = none)
    (hrow : (taskRow lb c).isSome = true)
    (h : Sql.Lax executionTimeline Good s lb (releaseChild acc c) w lb₁ (.done acc') w₁) :
    ∃ t, taskRow s c = some t ∧ acc' = acc ++ [c].filter (released s) ∧
      w₁ (.task c) = (if t.blocked then some t.release else none) ∧
      ∀ k, k ≠ .task c → w₁ k = w k := by
  rw [releaseChild_eq] at h
  obtain ⟨V, t, hV, ht, ⟨hcond, h⟩ | ⟨hcond, h⟩⟩ := updateTask_exact h
    (Sql.Program.finished_done _) (childUpdate_stable c) hfree hrow
  · have hb : t.blocked := by simpa [TaskExecutionModel.blocked] using hcond
    have hreleased : released s c = decide (t.remainingDependencies - 1 = 0) := by
      have hone : t.remainingDependencies - 1 = 0 ↔ t.remainingDependencies = 1 := by omega
      simp [released, ht, hb.1, hone, beq_eq_decide]
    have hwrite : ∀ k, k ≠ .task c → w.set (.task c) t.release k = w k :=
      fun k hk => Sql.Writes.set_ne w _ hk
    replace h : Sql.Lax executionTimeline Good s V
      (if t.remainingDependencies - 1 = 0 then .done (acc ++ [c]) else .done acc)
      (w.set (.task c) t.release) lb₁ (.done acc') w₁ := h
    by_cases hzero : t.remainingDependencies - 1 = 0
    · rw [if_pos hzero] at h
      obtain ⟨-, rfl, rfl⟩ := h.done_inv
      refine ⟨t, ht, by simp [hreleased, hzero], ?_, hwrite⟩
      rw [if_pos hb]
      exact Sql.Writes.set_self w _ _
    · rw [if_neg hzero] at h
      obtain ⟨-, rfl, rfl⟩ := h.done_inv
      refine ⟨t, ht, by simp [hreleased, hzero], ?_, hwrite⟩
      rw [if_pos hb]
      exact Sql.Writes.set_self w _ _
  · have hb : ¬ t.blocked := by simpa [TaskExecutionModel.blocked] using hcond
    have hreleased : released s c = false := by
      cases hr : released s c with
      | false => rfl
      | true =>
          simp only [released, ht, Option.any_some, Bool.and_eq_true, beq_iff_eq] at hr
          exact absurd ⟨hr.1, by omega⟩ hb
    obtain ⟨-, rfl, rfl⟩ := h.done_inv
    exact ⟨t, ht, by simp [hreleased], by rw [if_neg hb, hfree], fun _ _ => rfl⟩

/--
The loop over the children.  Each of them is decremented exactly when it would be on
the present store, and the ones that came to zero are the ones that stood at one.
-/
theorem releaseChildren_run : ∀ {children : List UUID} {acc runnable : List UUID}
    {lb : ExecutionStore} {w : Sql.Writes RowId Row}, children.Nodup →
      (∀ c ∈ children, w (.task c) = none) → (∀ c ∈ children, (taskRow lb c).isSome = true) →
      Sql.Lax executionTimeline Good s lb (children.foldlM releaseChild acc) w lb'
        (.done runnable) w' →
      runnable = acc ++ children.filter (released s) ∧
        (∀ c ∈ children, ∀ t, taskRow s c = some t →
          w' (.task c) = if t.blocked then some t.release else none) ∧
        ∀ k, (∀ c ∈ children, k ≠ .task c) → w' k = w k := by
  intro children
  induction children with
  | nil =>
      intro acc runnable lb w _ _ _ h
      obtain ⟨-, rfl, rfl⟩ := h.done_inv
      simp
  | cons c rest ih =>
      intro acc runnable lb w hnd hfree hrow h
      obtain ⟨hc, hrest⟩ := List.nodup_cons.mp hnd
      rw [List.foldlM_cons] at h
      obtain ⟨acc', lb₁, w₁, h₁, h₂⟩ := Sql.Lax.bind_inv h
      obtain ⟨t, ht, rfl, hself, hother⟩ := releaseChild_run (hfree c (by simp)) (hrow c (by simp)) h₁
      have hne : ∀ d ∈ rest, RowId.task d ≠ .task c := by
        rintro d hd hdc
        cases hdc
        exact hc hd
      obtain ⟨rfl, hin, hout⟩ := ih hrest
        (fun d hd => by rw [hother _ (hne d hd), hfree d (by simp [hd])])
        (fun d hd => by
          obtain ⟨td, htd⟩ := Option.isSome_iff_exists.mp (hrow d (by simp [hd]))
          obtain ⟨td', htd', -⟩ := taskRow_le h₁.le_bound.1 htd
          rw [htd']; rfl) h₂
      refine ⟨?_, fun d hd u hu => ?_, fun k hk => ?_⟩
      · rw [List.append_assoc, ← List.filter_append]; rfl
      · rcases List.mem_cons.mp hd with rfl | hd'
        · rw [ht, Option.some.injEq] at hu
          subst hu
          rw [hout _ (fun e he hde => hne e he hde.symm), hself]
        · exact hin d hd' u hu
      · rw [hout k fun d hd => hk d (by simp [hd]), hother k (hk c (by simp))]

/-- A positive `NOT EXISTS` speaks of every task of the workflow the view shows. -/
theorem status_of_noneUnfinished {V : ExecutionStore} {workflowId i : UUID}
    {t : TaskExecutionModel} (h : noneUnfinished workflowId V = true) (hi : taskRow V i = some t)
    (hw : t.workflowExecutionId = workflowId) : t.status = .completed := by
  have hmem : (i, t) ∈ taskTable V := mem_taskTable.mpr hi
  simp only [noneUnfinished, Bool.not_eq_true', List.any_eq_false, Bool.and_eq_true, beq_iff_eq,
    bne_iff_ne] at h
  have hn := h (i, t) hmem
  simpa [hw] using hn

/-- The writes of a completion before it looks at the workflow: the task itself, its blocked
children, and nothing else. -/
structure CompleteWrites (s : ExecutionStore) (request : CompleteTaskExecutionRequest)
    (t : TaskExecutionModel) (w : Sql.Writes RowId Row) : Prop where
  self : w (.task request.taskExecutionId) = some (t.complete request)
  tasks : ∀ i u, taskRow s i = some u → i ≠ request.taskExecutionId →
    w (.task i) = if i ∈ t.childTaskIds ∧ u.blocked then some u.release else none
  workflows : ∀ i, w (.workflow i) = none

section CompleteWrites

variable {request : CompleteTaskExecutionRequest} {t : TaskExecutionModel}

theorem CompleteWrites.task_change (hw : CompleteWrites s request t w)
    (hrow : taskRow s request.taskExecutionId = some t) (finished : Bool) {i : UUID}
    {u : TaskExecutionModel} (hi : taskRow s i = some u) :
    (w (.task i)).getD u = completeChange request t finished (.task i) u := by
  by_cases hne : i = request.taskExecutionId
  · subst hne
    obtain rfl : t = u := Option.some.inj (hrow.symm.trans hi)
    rw [hw.self]
    simp [completeChange]
  · rw [hw.tasks i u hi hne]
    by_cases hb : i ∈ t.childTaskIds ∧ u.blocked
    · simp only [completeChange, if_neg hne, if_pos hb, Option.getD_some]
    · simp only [completeChange, if_neg hne, if_neg hb, Option.getD_none]

/-- The completion of a task in a workflow that goes on. -/
theorem CompleteWrites.overlay (hw : CompleteWrites s request t w)
    (hrow : taskRow s request.taskExecutionId = some t) :
    s.overlay w = s.mapRows (completeChange request t false) := by
  refine overlay_eq_mapRows fun k v hk => ?_
  cases k with
  | task i => exact hw.task_change hrow false hk
  | workflow i =>
      rw [hw.workflows, completeChange_workflow fun hc => absurd hc.1 (by simp)]
      rfl

/-- The completion of the last task of a workflow. -/
theorem CompleteWrites.overlay_finish (hw : CompleteWrites s request t w)
    (hrow : taskRow s request.taskExecutionId = some t) {r : WorkflowExecutionModel}
    (hr : workflowRow s t.workflowExecutionId = some r) :
    s.overlay (w.set (.workflow t.workflowExecutionId) (r.finish .completed request.completedAt)) =
      s.mapRows (completeChange request t true) := by
  refine overlay_eq_mapRows fun k v hk => ?_
  cases k with
  | task i =>
      rw [Sql.Writes.set_ne _ _ (by simp)]
      exact hw.task_change hrow true hk
  | workflow i =>
      by_cases hi : i = t.workflowExecutionId
      · subst hi
        have hv : r = v := Option.some.inj (hr.symm.trans hk)
        subst hv
        rw [Sql.Writes.set_self, completeChange_finish]
        rfl
      · rw [Sql.Writes.set_ne _ _ (by simpa using hi), hw.workflows,
          completeChange_workflow (fun hc => hi hc.2)]
        rfl

end CompleteWrites

/-- What is left of a completion when the children have been told. -/
def completeLast (request : CompleteTaskExecutionRequest) (t : TaskExecutionModel)
    (runnable : List UUID) : Session CallResult :=
  .updateRow (finishUpdate t.workflowExecutionId request.completedAt) fun r =>
    .done (.completed { runnableTaskExecutionIds := runnable, workflowCompleted := r.isSome })

/-- How far `complete_task` comes: it misses its task, or is left with the last statement. -/
theorem completeTask_writes (hgood : ∀ V, Good V → Coherent V) (hs : Coherent s)
    {request : CompleteTaskExecutionRequest} {result : CallResult}
    (h : Sql.Lax executionTimeline Good s base (Call.completeTask request).body .empty lb'
      (.done result) w) :
    (∃ V₀ V₁ tV t w₁, Sql.Past executionTimeline Good base s V₀ ∧
        taskRow V₀ request.taskExecutionId = some tV ∧
        taskRow s request.taskExecutionId = some t ∧ TaskEvolves tV t ∧ t.status = .running ∧
        executionTimeline.before V₀ V₁ ∧ CompleteWrites s request t w₁ ∧
        Sql.Lax executionTimeline Good s V₁
          (completeLast request t (t.childTaskIds.filter (released s))) w₁ lb' (.done result) w) ∨
      ∃ V₀, Sql.Past executionTimeline Good base s V₀ ∧
        (∀ tV, taskRow V₀ request.taskExecutionId = some tV → tV.status ≠ .running) ∧
        result = .completed { runnableTaskExecutionIds := [], workflowCompleted := false } ∧
        w = .empty := by
  rw [completeTask_body] at h
  obtain ⟨V₀, hV₀, ⟨tV, t, hrowV, hrow, hcond, h⟩ | ⟨hmiss, h⟩⟩ :=
    updateTask_inv h (Sql.Program.finished_done _)
  · rw [Sql.Store.overlay_empty] at hrow hrowV
    have hrunning : t.status = .running := by simpa using hcond
    have hVs := hgood V₀ hV₀.good
    obtain ⟨t', ht', hev⟩ := taskRow_le hV₀.before.1 hrowV
    rw [hrow, Option.some.injEq] at ht'
    subst ht'
    have hid := hs.not_self_child hrow
    let w₁ : Sql.Writes RowId Row := Sql.Writes.empty.set (.task request.taskExecutionId)
      (t.complete request)
    replace h : Sql.Lax executionTimeline Good s V₀
      ((updateChildDependencies t.childTaskIds).bind (completeLast request t)) w₁ lb'
        (.done result) w := h
    have hw₁ : ∀ k, k ≠ .task request.taskExecutionId → w₁ k = none := fun k hk =>
      Sql.Writes.set_ne _ _ hk
    obtain ⟨runnable, V₁, w₂, h₁, h₂⟩ := Sql.Lax.bind_inv h
    obtain ⟨rfl, hin, hout⟩ := releaseChildren_run (hs.children_nodup _ _ hrow)
      (fun c hc => hw₁ _ (by rintro hck; cases hck; exact hid hc))
      (fun c hc => by
        rw [hev.same.childTaskIds] at hc
        obtain ⟨tc, htc, -⟩ := hVs.children _ _ hrowV c hc
        rw [htc]; rfl) h₁
    refine Or.inl ⟨V₀, V₁, tV, t, w₂, hV₀, hrowV, hrow, hev, hrunning, h₁.le_bound, ?_, h₂⟩
    refine ⟨?_, fun i u hi hne => ?_, fun i => ?_⟩
    · rw [hout _ fun c hc hck => by cases hck; exact hid hc]
      exact Sql.Writes.set_self _ _ _
    · by_cases hc : i ∈ t.childTaskIds
      · rw [hin i hc u hi]; simp [hc]
      · rw [hout _ (fun c hcm hck => by cases hck; exact hc hcm), hw₁ _ (by simpa using hne)]
        simp [hc]
    · rw [hout _ (by simp), hw₁ _ (by simp)]
  · obtain ⟨-, hresult, rfl⟩ := h.done_inv
    rw [Sql.Store.overlay_empty] at hmiss
    exact Or.inr ⟨V₀, hV₀, fun tV htV => by simpa using hmiss tV htV, hresult.symm, rfl⟩

/-- What a committed `complete_task` did. -/
theorem completeTask_run (hgood : ∀ V, Good V → Coherent V) (hs : Coherent s)
    {request : CompleteTaskExecutionRequest} {result : CallResult}
    (h : Sql.Lax executionTimeline Good s base (Call.completeTask request).body .empty lb'
      (.done result) w) :
    Effect base s (.completeTask request) result (s.overlay w) := by
  rcases completeTask_writes hgood hs h with
    ⟨V₀, V₁, tV, t, w₁, hV₀, hrowV, hrow, hev, hrunning, hV₀V₁, hwrites, h⟩ |
    ⟨V₀, hV₀, hmiss, rfl, rfl⟩
  · obtain ⟨V₂, hV₂, ⟨r, hsub, hr, -, h⟩ | h⟩ := updateRunningWorkflow_inv h
      (Sql.Program.finished_done _)
    · obtain ⟨-, rfl, rfl⟩ := h.done_inv
      have hr : workflowRow s t.workflowExecutionId = some r :=
        (Sql.Store.overlay_row_none (hwrites.workflows _)).symm.trans hr
      have hoverlay := hwrites.overlay_finish hrow hr
      show Effect base s _ _ (s.overlay (w₁.set (.workflow t.workflowExecutionId)
        (r.finish .completed request.completedAt)))
      rw [hoverlay]
      refine .completeDone hrow hrunning fun _ j u hj hwf hne => ?_
      -- The task was there when the workflow's tasks were looked at, since the workflow was.
      obtain ⟨rV, hrV⟩ := Option.isSome_iff_exists.mp
        ((hgood V₀ hV₀.good).workflow _ _ hrowV)
      obtain ⟨rV₂, hrV₂, -⟩ :=
        workflowRow_le (executionTimeline.before_trans hV₀V₁ hV₂.after).1 hrV
      obtain ⟨u₂, hu₂⟩ := Option.isSome_iff_exists.mp (hV₂.before.2 j u hj
        (by rw [hwf, hev.same.workflowExecutionId, hrV₂]; rfl))
      obtain ⟨u', hu', hev'⟩ := taskRow_le hV₂.before.1 hu₂
      rw [hj, Option.some.injEq] at hu'
      subst hu'
      have hwrite := hwrites.tasks j u hj hne
      by_cases hb : j ∈ t.childTaskIds ∧ u.blocked
      · rw [if_pos hb] at hwrite
        have hstatus := status_of_noneUnfinished hsub
          (Sql.Store.overlay_row_some hu₂ hwrite) hwf
        exact absurd (hb.2.1.symm.trans hstatus) (by simp)
      · rw [if_neg hb] at hwrite
        have hstatus := status_of_noneUnfinished hsub
          ((Sql.Store.overlay_row_none hwrite).trans hu₂)
          (hev'.same.workflowExecutionId ▸ hwf)
        rw [hev'.terminal (by rw [hstatus]; rfl)]
        exact hstatus
    · obtain ⟨-, rfl, rfl⟩ := h.done_inv
      rw [hwrites.overlay hrow]
      exact .completeDone hrow hrunning fun hf => absurd hf Bool.false_ne_true
  · rw [Sql.Store.overlay_empty]
    exact .completeMissed fun t₀ ht₀ hp => over_of_not_running hV₀ ht₀ hp hmiss

end Complete

/-! ### `retry_task` -/

section Retry

variable {Good : ExecutionStore → Prop} {s base lb' : ExecutionStore} {w : Sql.Writes RowId Row}

theorem cond_cancel {workflowId : UUID} {completedAt : Datetime} {i : UUID}
    {t : TaskExecutionModel} :
    (cancelUpdate workflowId completedAt).cond (.task i) t = true ↔
      t.workflowExecutionId = workflowId ∧ t.status.isTerminal = false := by
  simp [cancelUpdate, TaskStatus.not_terminal_iff]

/-- The sweep over the tasks of a workflow leaves every row as it would on the present store. -/
theorem sweep_run {lb : ExecutionStore} {w₁ : Sql.Writes RowId Row} {workflowId : UUID}
    {completedAt : Datetime} (hlb : executionTimeline.before lb s)
    (hworkflow : (workflowRow lb workflowId).isSome = true)
    {i : UUID} {t : TaskExecutionModel} (hi : taskRow s i = some t) (hfree : w (.task i) = none)
    (hsweep : Sql.Swept executionTimeline Good lb s (cancelUpdate workflowId completedAt) w
      (.task i) (w₁ (.task i))) :
    w₁ (.task i) = if t.workflowExecutionId = workflowId ∧ t.status.isTerminal = false
      then some (t.cancel completedAt) else none := by
  by_cases hrow : (taskRow lb i).isSome = true
  · obtain ⟨v, hv, hr⟩ := hsweep.exact (cancelUpdate_stable workflowId completedAt (.task i))
      hfree hrow
    have hvt : v = t := Option.some.inj (hv.symm.trans hi)
    subst hvt
    rw [hr]
    exact if_congr cond_cancel rfl rfl
  · -- A task that came later is not one of this workflow's.
    have hne : t.workflowExecutionId ≠ workflowId := fun hw =>
      hrow (hlb.2 i t hi (by rw [hw]; exact hworkflow))
    rw [if_neg (fun hc => hne hc.1)]
    rcases hsweep with ⟨v, hv, -⟩ | ⟨hr, -⟩
    · obtain ⟨hv, hcond⟩ := Sql.BulkUpdate.matched_some.mp hv
      rw [Sql.Store.overlay_row_none hfree] at hv
      have hvt : v = t := Option.some.inj (hv.symm.trans hi)
      subst hvt
      exact absurd (cond_cancel.mp hcond).1 hne
    · rw [hr, hfree]

/-- The writes of a terminal failure: the task, its workflow, and the sweep over the rest. -/
theorem fail_overlay {lb : ExecutionStore} {w₂ : Sql.Writes RowId Row}
    {request : RetryTaskExecutionRequest} {t : TaskExecutionModel} {r : WorkflowExecutionModel}
    (hrow : taskRow s request.taskExecutionId = some t)
    (hr : workflowRow s t.workflowExecutionId = some r) (hlb : executionTimeline.before lb s)
    (hworkflow : (workflowRow lb t.workflowExecutionId).isSome = true)
    (hsweep : ∀ k, Sql.Swept executionTimeline Good lb s
      (cancelUpdate t.workflowExecutionId request.completedAt)
      ((Sql.Writes.empty.set (.task request.taskExecutionId) (t.fail request)).set
        (.workflow t.workflowExecutionId) (r.finish .failed request.completedAt)) k (w₂ k)) :
    s.overlay w₂ = s.mapRows (failChange request t.workflowExecutionId) := by
  refine overlay_eq_mapRows fun k v hk => ?_
  cases k with
  | workflow i =>
      rcases hsweep (.workflow i) with ⟨v', hv', -⟩ | ⟨hw₂, -⟩
      · simp [Sql.BulkUpdate.matched_some, cancelUpdate] at hv'
      · rw [hw₂]
        by_cases hi : i = t.workflowExecutionId
        · subst hi
          obtain rfl : r = v := Option.some.inj (hr.symm.trans hk)
          rw [Sql.Writes.set_self, failChange_finish]
          rfl
        · rw [Sql.Writes.set_ne _ _ (by simpa using hi), Sql.Writes.set_ne _ _ (by simp),
            failChange_workflow hi]
          rfl
  | task i =>
      by_cases hi : i = request.taskExecutionId
      · -- The failed task is terminal in its own transaction's eyes: the sweep skips it.
        subst hi
        obtain rfl : t = v := Option.some.inj (hrow.symm.trans hk)
        have hown : ((Sql.Writes.empty : Sql.Writes RowId Row).set (.task request.taskExecutionId)
            (t.fail request)).set (.workflow t.workflowExecutionId)
            (r.finish .failed request.completedAt) (.task request.taskExecutionId) =
              some (t.fail request) := by
          rw [Sql.Writes.set_ne _ _ (by simp)]
          exact Sql.Writes.set_self _ _ _
        rcases hsweep (.task request.taskExecutionId) with ⟨v', hv', -⟩ | ⟨hw₂, -⟩
        · obtain ⟨hv', hcond'⟩ := Sql.BulkUpdate.matched_some.mp hv'
          obtain rfl : t.fail request = v' := Option.some.inj
            ((Sql.Store.overlay_row_some hrow hown).symm.trans hv')
          exact absurd (cond_cancel.mp hcond').2
            (by simp [TaskExecutionModel.fail, TaskStatus.isTerminal])
        · rw [hw₂, hown]
          simp [failChange]
      · rw [sweep_run hlb hworkflow hk
          (by rw [Sql.Writes.set_ne _ _ (by simp), Sql.Writes.set_ne _ _ (by simpa using hi)]; rfl)
          (hsweep (.task i))]
        by_cases hc : v.workflowExecutionId = t.workflowExecutionId ∧ v.status.isTerminal = false
        · simp only [failChange, if_neg hi, if_pos hc, Option.getD_some]
        · simp only [failChange, if_neg hi, if_neg hc, Option.getD_none]

/-- What a committed `retry_task` did. -/
theorem retryTask_run (hgood : ∀ V, Good V → Coherent V) (hs : Coherent s)
    {request : RetryTaskExecutionRequest} {result : CallResult}
    (h : Sql.Lax executionTimeline Good s base (Call.retryTask request).body .empty lb'
      (.done result) w) :
    Effect base s (.retryTask request) result (s.overlay w) := by
  rw [retryTask_body] at h
  obtain ⟨V₀, hV₀, ⟨tV, t, hrowV, hrow, hcond, h⟩ | ⟨hmiss, h⟩⟩ :=
    updateTask_inv h (Sql.Program.finished_done _)
  · rw [Sql.Store.overlay_empty] at hrow hrowV
    obtain ⟨hrunning, hpos⟩ : t.status = .running ∧ 0 < t.remainingTries := by simpa using hcond
    have hVs := hgood V₀ hV₀.good
    obtain ⟨t', ht', hev⟩ := taskRow_le hV₀.before.1 hrowV
    rw [hrow, Option.some.injEq] at ht'
    subst ht'
    by_cases hmore : 1 < t.remainingTries
    · have hset : (retryUpdate request).set t = t.again request := by
        simp [retryUpdate, updateTask, hmore, TaskExecutionModel.again]
      replace h : Sql.Lax executionTimeline Good s V₀
        (retryRest request ((retryUpdate request).set t)) (Sql.Writes.empty.set
          (.task request.taskExecutionId) ((retryUpdate request).set t)) lb' (.done result) w := h
      rw [hset] at h
      have hleft : 0 < (t.again request).remainingTries := by
        show 0 < t.remainingTries - 1
        omega
      rw [retryRest, if_pos hleft] at h
      obtain ⟨-, rfl, rfl⟩ := h.done_inv
      have hoverlay : s.overlay (Sql.Writes.empty.set (.task request.taskExecutionId)
          (t.again request)) = s.mapRows (retryChange request) :=
        overlay_set_task hrow (by simp [retryChange])
          (fun i u hi => by simp [retryChange, hi]) fun _ _ => rfl
      rw [hoverlay]
      exact .retryAgain hrow hrunning hmore
    · have hone : t.remainingTries = 1 := by omega
      have hset : (retryUpdate request).set t = t.fail request := by
        simp [retryUpdate, updateTask, hmore, TaskExecutionModel.fail]
      replace h : Sql.Lax executionTimeline Good s V₀
        (retryRest request ((retryUpdate request).set t)) (Sql.Writes.empty.set
          (.task request.taskExecutionId) ((retryUpdate request).set t)) lb' (.done result) w := h
      rw [hset] at h
      have hleft : ¬ 0 < (t.fail request).remainingTries := by
        show ¬ 0 < t.remainingTries - 1
        omega
      rw [retryRest, if_neg hleft] at h
      have hworkflowV : (workflowRow V₀ t.workflowExecutionId).isSome = true := by
        rw [hev.same.workflowExecutionId]
        exact hVs.workflow _ _ hrowV
      obtain ⟨V₁, r, hV₁, hr, ⟨-, h⟩ | ⟨hnot, -⟩⟩ := updateRunningWorkflow_exact h
        (Sql.Program.finished_done _) (Sql.Writes.set_ne _ _ (by simp)) hworkflowV
      · obtain ⟨w₂, hsweep, h⟩ := h.updateRows_inv (Sql.Program.finished_done _)
        obtain ⟨-, rfl, rfl⟩ := h.done_inv
        obtain ⟨rV, hrV⟩ := Option.isSome_iff_exists.mp hworkflowV
        obtain ⟨rV₁, hrV₁, -⟩ := workflowRow_le hV₁.after.1 hrV
        rw [fail_overlay hrow hr hV₁.before (by rw [hrV₁]; rfl) hsweep]
        exact .retryFailed hrow hrunning hone
      · -- A task that runs has a workflow that runs.
        obtain ⟨r', hr', hrrun⟩ := hs.live hrow (by rw [hrunning]; rfl)
        obtain rfl : r = r' := Option.some.inj (hr.symm.trans hr')
        exact absurd hrrun hnot
  · obtain ⟨-, rfl, rfl⟩ := h.done_inv
    rw [Sql.Store.overlay_empty] at hmiss ⊢
    refine .retryMissed fun t₀ ht₀ hp => over_of_not_running hV₀ ht₀ hp fun tV htV hr => ?_
    have htries := ((hgood V₀ hV₀.good).ok _ _ htV).tries (by rw [hr]; rfl)
    have hfalse := hmiss tV htV
    simp only [hr, beq_self_eq_true, Bool.true_and, decide_eq_false_iff_not] at hfalse
    omega

end Retry

/-! ### The system of statements refines the machine -/

/-- What a committed call did, whichever it was. -/
theorem effect_of_lax {Good : ExecutionStore → Prop} {s base lb' : ExecutionStore}
    {w : Sql.Writes RowId Row} (hgood : ∀ V, Good V → Coherent V) (hs : Coherent s) {call : Call}
    {result : CallResult}
    (h : Sql.Lax executionTimeline Good s base call.body .empty lb' (.done result) w) :
    Effect base s call result (s.overlay w) := by
  cases call with
  | startTask id startedAt =>
      rcases startTask_run hs (Sql.Program.finished_done _) h with
        ⟨r, hr, heffect⟩ | ⟨_, _, _, _, -, -, -, hr, -⟩
      · cases hr; exact heffect
      · cases hr
  | completeTask request => exact completeTask_run hgood hs h
  | retryTask request => exact retryTask_run hgood hs h

/-- The updates a call can issue, of whichever kind it is. -/
theorem call_forall {P : Sql.RowUpdate RowId Row → Prop} {Q : Sql.BulkUpdate RowId Row → Prop}
    (hstart : ∀ id startedAt, P (startUpdate id startedAt))
    (hcomplete : ∀ request, P (completeUpdate request)) (hchild : ∀ id, P (childUpdate id))
    (hfinish : ∀ id completedAt, P (finishUpdate id completedAt))
    (hretry : ∀ request, P (retryUpdate request))
    (hfail : ∀ id completedAt, P (failUpdate id completedAt))
    (hcancel : ∀ id completedAt, Q (cancelUpdate id completedAt)) (call : Call) :
    call.body.Forall P Q := by
  have hchildren : ∀ children acc : List UUID,
      (children.foldlM releaseChild acc : Session (List UUID)).Forall P Q := by
    intro children
    induction children with
    | nil => intro acc; trivial
    | cons c rest ih =>
        intro acc
        rw [List.foldlM_cons]
        refine Sql.Program.forall_bind ih ?_
        rw [releaseChild_eq]
        refine ⟨hchild c, fun r => ?_⟩
        cases r with
        | none => trivial
        | some t =>
            dsimp only
            split <;> trivial
  cases call with
  | startTask id startedAt =>
      rw [startTask_body]
      refine ⟨hstart id startedAt, fun _ view => ?_⟩
      unfold startRest
      split
      · trivial
      · refine Sql.Program.forall_bind (fun _ => ?_) ?_
        · trivial
        unfold loadParentOutputs
        split
        · trivial
        · intro v
          dsimp only
          split <;> trivial
  | completeTask request =>
      rw [completeTask_body]
      refine ⟨hcomplete request, fun r => ?_⟩
      cases r with
      | none => trivial
      | some t =>
          refine Sql.Program.forall_bind (fun runnable => ?_) (hchildren _ _)
          exact ⟨hfinish _ _, fun _ => trivial⟩
  | retryTask request =>
      rw [retryTask_body]
      refine ⟨hretry request, fun r => ?_⟩
      cases r with
      | none => trivial
      | some t =>
          dsimp only
          unfold retryRest
          split
          · trivial
          · refine ⟨hfail _ _, fun r => ?_⟩
            cases r with
            | none => trivial
            | some _ => exact ⟨hcancel _ _, trivial⟩

/-- Every statement of a call takes rows only to versions that continue them. -/
theorem call_respects : ∀ call : Call, call.body.Respects executionEvolution :=
  call_forall (fun id startedAt _ h => startUpdate_evolves id startedAt h)
    (fun request _ h => completeUpdate_evolves request h) (fun id _ h => childUpdate_evolves id h)
    (fun id completedAt _ h => finishUpdate_evolves id completedAt h)
    (fun request _ h => retryUpdate_evolves request h)
    (fun id completedAt _ h => failUpdate_evolves id completedAt h) cancelUpdate_evolves

/-- Creating an execution is a step forward in time. -/
theorem Created.before {s s' : ExecutionStore} {workflowId : UUID} (hc : Created workflowId s s')
    (h : Linked s) {rows : List (Sigma Row)} (hins : s.insert? rows = some s') :
    executionTimeline.before s s' := by
  refine ⟨Sql.Store.le_insert? hins, fun i t hi hw => ?_⟩
  rcases hc.cases h hi with ⟨hs, -⟩ | ⟨-, hnew⟩
  · rw [hs]; rfl
  · rw [hnew.workflowExecutionId, hc.fresh] at hw
    simp at hw

/-- **What statements publish, calls publish.** -/
theorem run_publishes : Sql.Publishes executionTimeline Call.body CompiledRows Run where
  respects := call_respects
  init := .empty
  insert := by
    intro log s s' rows h hrows hins
    obtain ⟨_, hc⟩ := hrows.created hins
    exact ⟨hc.before h.coherent.toLinked hins, .insert h hrows hins⟩
  commit := by
    intro log s base lb call result w h hbefore hbase hlax
    obtain ⟨log₀, hbase⟩ := hbase
    exact .commit h hbase hbefore
      (effect_of_lax (fun V ⟨_, hV⟩ => hV.coherent) h.coherent hlax)

/-- What the sessions may do: anything, except that executions come from valid definitions. -/
def Allowed (_ : ExecutionDb) : Sql.Action RowId Row Call → Prop
  | .insert rows => CompiledRows rows
  | _ => True

/-- The states the sessions can reach. -/
abbrev ReachableDb (db : ExecutionDb) : Prop := Sql.Reachable Call.body Allowed db

/-- Every reachable state satisfies the system invariant, over runs of the machine. -/
theorem reachable_sound {db : ExecutionDb} (h : ReachableDb db) :
    db.Sound executionTimeline Run Call.body :=
  Sql.published run_publishes (fun _ _ h => h) h

/-- **The log of every reachable state is a history of the abstract machine.** -/
theorem reachable_run {db : ExecutionDb} (h : ReachableDb db) : Run db.log db.store :=
  (reachable_sound h).good

theorem reachable_coherent {db : ExecutionDb} (h : ReachableDb db) : Coherent db.store :=
  (reachable_run h).coherent

/-- A call that runs alone has the effect of a call, or raised and changed nothing. -/
theorem exec_effect {s : ExecutionStore} (hs : Coherent s) (call : Call) :
    (∃ e, call.body.exec s = (s, .error e)) ∨
      ∃ s' result, call.body.exec s = (s', .ok result) ∧ Effect s s call result s' := by
  unfold Sql.Program.exec
  cases hrun : call.body.run s .empty with
  | error e => exact Or.inl ⟨e, rfl⟩
  | ok r =>
      obtain ⟨result, w⟩ := r
      obtain ⟨lb', hlax⟩ := Sql.Lax.of_run hs (executionTimeline.before_refl s) hrun
      exact Or.inr ⟨_, result, rfl, effect_of_lax (fun _ h => h) hs hlax⟩

/-! ### A sample

One root task with two children, started and completed.
-/

def sampleDefinition : WorkflowDefinition where
  id := 0
  name := "sample"
  taskDefinitions :=
    [{ id := 1, pluginType := "noop", key := "extract" },
     { id := 2, pluginType := "noop", key := "left", dependencies := [1] },
     { id := 3, pluginType := "noop", key := "right", dependencies := [1] }]

theorem sampleDefinition_valid : sampleDefinition.Valid where
  nonempty := by decide
  ids := by decide
  keys := by decide
  duplicates := by decide
  known := by decide
  acyclic := acyclic_of_rank id (by decide)
  maxTries := by decide

/-- The rows of an execution of the sample, under the identifiers of its definitions. -/
def sampleRows : List (Sigma Row) :=
  WorkflowExecutionMapper.workflowToRows (WorkflowStartService.compiled
    { workflowExecutionId := 0, taskExecutionId := id } 0 sampleDefinition)

theorem sampleRows_compiled : CompiledRows sampleRows :=
  ⟨{ workflowExecutionId := 0, taskExecutionId := id }, 0, sampleDefinition, _, _,
    sampleDefinition_valid,
    WorkflowStartService.createWorkflowExecution_eq _ _ sampleDefinition_valid.linked, rfl⟩

/-- Session 0 starts the root task, then completes it. -/
def sampleSteps : List (Sql.Action RowId Row Call) :=
  [.insert sampleRows,
   .begin 0 (.startTask 1 10), .statement 0, .row 0 (.task 1), .statement 0, .commit 0,
   .begin 0 (.completeTask { taskExecutionId := 1, output := {}, completedAt := 20 }),
   .statement 0, .row 0 (.task 1), .statement 0, .row 0 (.task 2), .statement 0,
   .row 0 (.task 3), .statement 0, .commit 0]

/-- Steps that are admitted, whatever the state. -/
theorem allowed_of_mem {acts : List (Sql.Action RowId Row Call)}
    (h : ∀ rows, .insert rows ∈ acts → CompiledRows rows) (db : ExecutionDb)
    (a : Sql.Action RowId Row Call) (ha : a ∈ acts) : Allowed db a := by
  cases a with
  | insert rows => exact h rows ha
  | _ => trivial

/-- The state a list of steps leads to from an empty database. -/
def dbAfter (acts : List (Sql.Action RowId Row Call)) : ExecutionDb :=
  (Sql.Db.init.steps Call.body acts).getD Sql.Db.init

theorem steps_dbAfter {acts : List (Sql.Action RowId Row Call)}
    (h : ((Sql.Db.init : ExecutionDb).steps Call.body acts).isSome = true) :
    Sql.Db.init.steps Call.body acts = some (dbAfter acts) := by
  obtain ⟨db, hdb⟩ := Option.isSome_iff_exists.mp h
  rw [dbAfter, hdb]
  rfl

theorem reachable_dbAfter {acts : List (Sql.Action RowId Row Call)}
    (hrows : ∀ rows, .insert rows ∈ acts → CompiledRows rows)
    (h : ((Sql.Db.init : ExecutionDb).steps Call.body acts).isSome = true) :
    ReachableDb (dbAfter acts) :=
  Sql.Reachable.steps .init (allowed_of_mem hrows) (steps_dbAfter h)

theorem sample_reachable : ReachableDb (dbAfter sampleSteps) :=
  reachable_dbAfter (fun rows h => by simp [sampleSteps] at h; exact h ▸ sampleRows_compiled) rfl

end AutomationPlatform
