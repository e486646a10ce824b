/-
When the completion of a workflow is not lost.

The last update of `complete_task` ends the workflow if no task of it is left that
is not completed.  Two transactions that complete the last two tasks of a workflow
may both look before either has committed.  Each sees the other's task as running,
neither ends the workflow, and nothing looks again: `completion_lost` is such a run.

What goes wrong is named by `Skewed`: a transaction looks while every task it finds
unfinished has already been completed by transactions that have looked before.  In
a run without a skewed look no completion is lost.  The argument is an invariant,
`Attended`: as long as a workflow runs and nobody is about to end it, there is a
task of it left that no transaction which has already looked has completed.
-/
import AutomationPlatform.Proofs.Executions.Linearize
import AutomationPlatform.Sql.Always

namespace AutomationPlatform

open WorkflowExecutionRepository

/-- All tasks of the workflow are completed. -/
def AllCompleted (s : ExecutionStore) (i : UUID) : Prop :=
  ∀ j t, taskRow s j = some t → t.workflowExecutionId = i → t.status = .completed

/-- No transaction is in flight. -/
def Quiet (db : ExecutionDb) : Prop := ∀ t, db.txns t = none

/-- With nothing in flight, a workflow is completed exactly when its tasks are. -/
def CompletionKept (db : ExecutionDb) : Prop :=
  Quiet db → ∀ i w, workflowRow db.store i = some w →
    (w.status = .completed ↔ AllCompleted db.store i)

/-- The transaction has completed the task, and has not committed yet. -/
def Completes (y : Sql.Txn RowId Row Call CallResult) (j : UUID) : Prop :=
  ∃ v, y.writes (.task j) = some v ∧ v.status = .completed

/--
The step is a transaction's update of a workflow row, and what keeps the update from
finding the workflow finished is work of others who have issued that update before:
every task the transaction sees unfinished has been completed by one of them.
-/
def Skewed (db : ExecutionDb) : Sql.Action RowId Row Call → Prop
  | .statement t => ∃ x u next i, db.txns t = some x ∧ x.phase = .ready (.updateRow u next) ∧
      u.key = .workflow i ∧ ¬ AllCompleted (db.store.overlay x.writes) i ∧
      ∀ j r, taskRow (db.store.overlay x.writes) j = some r → r.workflowExecutionId = i →
        r.status ≠ .completed →
        ∃ t' y, t' ≠ t ∧ db.txns t' = some y ∧ Completes y j ∧ .workflow i ∈ y.issued
  | _ => False

/-! ### The order of a call's statements -/

/-- What holds of a transaction's writes and issued updates all along. -/
structure Settled (issued : List RowId) (w : Sql.Writes RowId Row) : Prop where
  issued_of_write : ∀ i, (w (.workflow i)).isSome = true → .workflow i ∈ issued
  ended : ∀ i r, w (.workflow i) = some r → r.status ≠ .running
  owner : ∀ i, .workflow i ∈ issued → ∃ j t, w (.task j) = some t ∧ t.workflowExecutionId = i

/-- The version is a completed task. -/
def IsCompleted : (k : RowId) → Row k → Prop
  | .task _, t => t.status = .completed
  | .workflow _, _ => False

/-- A version that may be overwritten: its task or workflow is not over. -/
def IsOpen : (k : RowId) → Row k → Prop
  | .task _, t => t.status.isTerminal = false
  | .workflow _, w => w.status = .running

/-- An update in its place: tasks are completed before the workflow is looked at. -/
structure InOrder (issued : List RowId) (u : Sql.RowUpdate RowId Row) : Prop where
  early : ∀ v, u.cond v = true → IsCompleted u.key (u.set v) → ∀ i, .workflow i ∉ issued
  accepts : ∀ i, u.key = .workflow i → ∀ v, IsOpen u.key v → u.cond v = true
  finds : ∀ i, u.key = .workflow i → ∀ view r, workflowRow view i = some r →
    r.status = .running → AllCompleted view i → (u.matched view).isSome = true

/-- A sweep leaves workflows alone and completes nothing. -/
structure Sweeps (u : Sql.BulkUpdate RowId Row) : Prop where
  workflow : ∀ i v, u.cond (.workflow i) v = false
  task : ∀ j t, (u.set (.task j) t).workflowExecutionId = t.workflowExecutionId ∧
    (u.set (.task j) t).status ≠ .completed

/-- What the body of a call satisfies between any two statements. -/
def Orderly {α : Type} (issued : List RowId) (w : Sql.Writes RowId Row) (p : Session α) : Prop :=
  Settled issued w ∧
    match p with
    | .done _ => ∀ j t, w (.task j) = some t → t.status = .completed →
        .workflow t.workflowExecutionId ∈ issued
    | .updateRow u _ => InOrder issued u
    | .updateRows u _ => Sweeps u
    | _ => True

/-- No update of a workflow has been issued yet; completed tasks are of the given workflows. -/
structure Working (own : UUID → Prop) (issued : List RowId) (w : Sql.Writes RowId Row) : Prop where
  unissued : ∀ i, .workflow i ∉ issued
  unwritten : ∀ i, w (.workflow i) = none
  completed : ∀ j t, w (.task j) = some t → t.status = .completed → own t.workflowExecutionId

section Working

variable {own : UUID → Prop} {issued : List RowId} {w : Sql.Writes RowId Row}

theorem working_empty : Working own [] Sql.Writes.empty :=
  ⟨by simp, fun _ => rfl, by simp⟩

theorem Working.settled (h : Working own issued w) : Settled issued w where
  issued_of_write := by intro i hi; rw [h.unwritten i] at hi; simp at hi
  ended := by intro i r hi; rw [h.unwritten i] at hi; simp at hi
  owner := fun i hi => absurd hi (h.unissued i)

theorem Working.issue (h : Working own issued w) (id : UUID) :
    Working own (.task id :: issued) w :=
  ⟨fun i hi => by simp [h.unissued i] at hi, h.unwritten, h.completed⟩

/-- Writing a task row goes on as before, if a completed version is of the given workflows. -/
theorem Working.set (h : Working own issued w) (id : UUID) {t : TaskExecutionModel}
    (ht : t.status = .completed → own t.workflowExecutionId) :
    Working own (.task id :: issued) (w.set (.task id) t) where
  unissued := (h.issue id).unissued
  unwritten := fun i => by rw [Sql.Writes.set_ne _ _ (by simp)]; exact h.unwritten i
  completed := by
    intro j u hj hu
    by_cases hid : j = id
    · subst hid
      rw [Sql.Writes.set_self, Option.some.injEq] at hj
      subst hj
      exact ht hu
    · rw [Sql.Writes.set_ne _ _ (by simpa using hid)] at hj
      exact h.completed j u hj hu

/-- An update of a task row is in order as long as no workflow has been looked at. -/
theorem Working.inOrder (h : Working own issued w) {id : UUID} {cond : TaskExecutionModel → Bool}
    {set : TaskExecutionModel → TaskExecutionModel} : InOrder issued (updateTask id cond set) :=
  ⟨fun _ _ _ => h.unissued, by simp [updateTask], by simp [updateTask]⟩

/-- Looking at the workflow of a task that was written. -/
theorem Working.look (h : Working own issued w) {workflowId : UUID}
    (hown : ∃ j t, w (.task j) = some t ∧ t.workflowExecutionId = workflowId) :
    Settled (.workflow workflowId :: issued) w where
  issued_of_write := fun i hi => List.mem_cons_of_mem _ (h.settled.issued_of_write i hi)
  ended := h.settled.ended
  owner := by
    intro i hi
    rcases List.mem_cons.mp hi with hi | hi
    · cases hi; exact hown
    · exact absurd hi (h.unissued i)

/-- Ending the workflow of a task that was written. -/
theorem Working.finish (h : Working own issued w) {workflowId : UUID}
    (hown : ∃ j t, w (.task j) = some t ∧ t.workflowExecutionId = workflowId)
    {r : WorkflowExecutionModel} (hr : r.status ≠ .running) :
    Settled (.workflow workflowId :: issued) (w.set (.workflow workflowId) r) where
  issued_of_write := by
    intro i hi
    by_cases hiw : i = workflowId
    · subst hiw; simp
    · rw [Sql.Writes.set_ne _ _ (by simpa using hiw), h.unwritten i] at hi
      simp at hi
  ended := by
    intro i r' hi
    by_cases hiw : i = workflowId
    · subst hiw
      rw [Sql.Writes.set_self, Option.some.injEq] at hi
      exact hi ▸ hr
    · rw [Sql.Writes.set_ne _ _ (by simpa using hiw), h.unwritten i] at hi
      simp at hi
  owner := by
    intro i hi
    obtain ⟨j, t, hj, ht⟩ := (h.look hown).owner i hi
    exact ⟨j, t, by rw [Sql.Writes.set_ne _ _ (by simp), hj], ht⟩

/-- Nothing completed is nothing to look after. -/
theorem Working.done {α : Type} (h : Working (fun _ => False) issued w) (a : α) :
    Orderly issued w (.done a) :=
  ⟨h.settled, fun j t hj hc => (h.completed j t hj hc).elim⟩

end Working

/-- The `NOT EXISTS` succeeds on a view in which the workflow is finished. -/
theorem noneUnfinished_of_allCompleted {view : ExecutionStore} {i : UUID}
    (h : AllCompleted view i) : noneUnfinished i view = true := by
  simp only [noneUnfinished, Bool.not_eq_true', List.any_eq_false]
  intro e he
  simpa using h e.1 e.2 (mem_taskTable.mp he)

/-- The update of a workflow finds a finished one, if its subquery does. -/
theorem updateRunningWorkflow_inOrder {issued : List RowId} {id : UUID}
    {subquery : ExecutionStore → Bool} {set : WorkflowExecutionModel → WorkflowExecutionModel}
    (hsub : ∀ view, AllCompleted view id → subquery view = true) :
    InOrder issued (updateRunningWorkflow id subquery set) where
  early := fun _ _ hc => hc.elim
  accepts := by
    intro i hi v hv
    have hr : v.status = .running := hv
    simp [updateRunningWorkflow, hr]
  finds := by
    intro i hi view r hr hrun hall
    cases hi
    have hm : (updateRunningWorkflow id subquery set).matched view = some r :=
      Sql.RowUpdate.matched_some.mpr ⟨hsub view hall, hr, by simp [updateRunningWorkflow, hrun]⟩
    rw [hm]
    rfl

theorem startTask_orderly (id : UUID) (startedAt : Datetime) :
    (Call.startTask id startedAt).body.Always Orderly [] Sql.Writes.empty := by
  have hrest : ∀ {issued : List RowId} {w : Sql.Writes RowId Row},
      Working (fun _ => False) issued w →
      (Sql.Program.query (startRest id)).Always Orderly issued w := by
    intro issued w h
    refine ⟨⟨h.settled, trivial⟩, fun view => ?_⟩
    unfold startRest
    split
    · exact h.done _
    · unfold loadParentOutputs
      split
      · exact h.done _
      · refine ⟨⟨h.settled, trivial⟩, fun v => ?_⟩
        dsimp only
        split
        · exact h.done _
        · exact ⟨h.settled, trivial⟩
  have hempty : Working (fun _ => False) [] Sql.Writes.empty := working_empty
  rw [startTask_body]
  refine ⟨⟨hempty.settled, hempty.inOrder⟩, hrest (hempty.issue id), fun t _ _ => ?_⟩
  exact hrest (hempty.set id (by simp [startUpdate, updateTask]))

/-- The point between the completion of a task of the workflow and the look at the workflow. -/
def Releasing {α : Type} (workflowId : UUID) (issued : List RowId) (w : Sql.Writes RowId Row)
    (p : Session α) : Prop :=
  Working (· = workflowId) issued w ∧
    (∃ j t, w (.task j) = some t ∧ t.workflowExecutionId = workflowId) ∧
    match p with
    | .updateRow u _ => InOrder issued u
    | .updateRows _ _ => False
    | _ => True

/-- One round of the loop over the children. -/
theorem releaseChild_always {workflowId : UUID} {issued : List RowId}
    {w : Sql.Writes RowId Row} (acc : List UUID) (c : UUID) (h : Working (· = workflowId) issued w)
    (hown : ∃ j t, w (.task j) = some t ∧ t.workflowExecutionId = workflowId) :
    (releaseChild acc c).Always (Releasing workflowId) issued w := by
  rw [releaseChild_eq]
  refine ⟨⟨h, hown, h.inOrder⟩, ⟨h.issue c, hown, trivial⟩, fun t ht hshow => ?_⟩
  change TaskExecutionModel at t
  have hp : t.status = .pending := by
    have hcond : t.status = .pending ∧ 0 < t.remainingDependencies := by
      simpa [childUpdate, updateTask] using ht
    exact hcond.1
  have hset : Working (· = workflowId) (.task c :: issued) (w.set (.task c) t.release) :=
    h.set c (by simp [TaskExecutionModel.release, hp])
  have hown' : ∃ j u, w.set (.task c) t.release (.task j) = some u ∧
      u.workflowExecutionId = workflowId := by
    obtain ⟨j, u, hj, hu⟩ := hown
    by_cases hc : j = c
    · subst hc
      have htu : u = t := hshow u hj
      exact ⟨j, t.release, Sql.Writes.set_self _ _ _, by rw [← hu, htu]; rfl⟩
    · exact ⟨j, u, by rw [Sql.Writes.set_ne _ _ (by simpa using hc), hj], hu⟩
  dsimp only
  split <;> exact ⟨hset, hown', trivial⟩

/-- The loop over the children. -/
theorem releaseChildren_always {workflowId : UUID} : ∀ {children acc : List UUID}
    {issued : List RowId} {w : Sql.Writes RowId Row}, Working (· = workflowId) issued w →
      (∃ j t, w (.task j) = some t ∧ t.workflowExecutionId = workflowId) →
      (children.foldlM releaseChild acc).Always (Releasing workflowId) issued w := by
  intro children
  induction children with
  | nil => intro acc issued w h hown; exact ⟨h, hown, trivial⟩
  | cons c rest ih =>
      intro acc issued w h hown
      rw [List.foldlM_cons]
      refine Sql.Program.always_bind (fun issued w p hΨ hp => ?_) (fun issued w a hΨ => ?_)
        (releaseChild_always acc c h hown)
      · cases p with
        | done a => exact absurd rfl (hp a)
        | raise e => exact hΨ
        | query next => exact hΨ
        | updateRow u next => exact hΨ
        | updateRows u next => exact hΨ
      · exact ih hΨ.1 hΨ.2.1

theorem completeTask_orderly (request : CompleteTaskExecutionRequest) :
    (Call.completeTask request).body.Always Orderly [] Sql.Writes.empty := by
  have hempty : Working (fun _ => False) [] Sql.Writes.empty := working_empty
  rw [completeTask_body]
  refine ⟨⟨hempty.settled, hempty.inOrder⟩, (hempty.issue _).done _, fun t _ _ => ?_⟩
  change TaskExecutionModel at t
  have hset : Working (· = t.workflowExecutionId) [.task request.taskExecutionId]
      (Sql.Writes.empty.set (.task request.taskExecutionId) (t.complete request)) :=
    working_empty.set _ fun _ => rfl
  refine Sql.Program.always_bind (fun issued w p hΨ hp => ?_) (fun issued w runnable hΨ => ?_)
    (releaseChildren_always hset ⟨_, _, Sql.Writes.set_self _ _ _, rfl⟩)
  · cases p with
    | done a => exact absurd rfl (hp a)
    | raise e => exact ⟨hΨ.1.settled, trivial⟩
    | query next => exact ⟨hΨ.1.settled, trivial⟩
    | updateRow u next => exact ⟨hΨ.1.settled, hΨ.2.2⟩
    | updateRows u next => exact hΨ.2.2.elim
  · obtain ⟨hwork, hown, -⟩ := hΨ
    have hissued : ∀ j u, w (.task j) = some u → u.status = .completed →
        RowId.workflow u.workflowExecutionId ∈ .workflow t.workflowExecutionId :: issued := by
      intro j u hj hc
      rw [hwork.completed j u hj hc]
      simp
    refine ⟨⟨hwork.settled,
      updateRunningWorkflow_inOrder fun _ h => noneUnfinished_of_allCompleted h⟩,
      ⟨hwork.look hown, hissued⟩, fun r _ _ => ?_⟩
    change WorkflowExecutionModel at r
    show Orderly (.workflow t.workflowExecutionId :: issued) (w.set
      (.workflow t.workflowExecutionId) (r.finish .completed request.completedAt)) _
    refine ⟨hwork.finish hown (by simp [WorkflowExecutionModel.finish]), fun j u hj hc => ?_⟩
    rw [Sql.Writes.set_ne _ _ (by simp)] at hj
    exact hissued j u hj hc

theorem cancelUpdate_sweeps (workflowId : UUID) (completedAt : Datetime) :
    Sweeps (cancelUpdate workflowId completedAt) :=
  ⟨fun _ _ => rfl, fun _ _ => ⟨rfl, by simp [cancelUpdate]⟩⟩

/-- A sweep keeps what holds all along. -/
theorem Settled.sweep {issued : List RowId} {w w' : Sql.Writes RowId Row}
    {u : Sql.BulkUpdate RowId Row} (h : Settled issued w) (hu : Sweeps u)
    (hw : ∀ k, u.MayLeave w k (w' k)) : Settled issued w' := by
  have hworkflow : ∀ i, w' (.workflow i) = w (.workflow i) := by
    intro i
    rcases hw (.workflow i) with hr | ⟨v, hv, -⟩
    · exact hr
    · rw [hu.workflow i v] at hv; simp at hv
  refine ⟨fun i hi => h.issued_of_write i (by rw [← hworkflow i]; exact hi),
    fun i r hi => h.ended i r (by rw [← hworkflow i]; exact hi), fun i hi => ?_⟩
  obtain ⟨j, t, hj, ht⟩ := h.owner i hi
  rcases hw (.task j) with hr | ⟨v, -, hshow, hr⟩
  · exact ⟨j, t, by rw [hr, hj], ht⟩
  · obtain rfl : t = v := hshow t hj
    exact ⟨j, _, hr, by rw [(hu.task j t).1, ht]⟩

theorem retryTask_orderly (request : RetryTaskExecutionRequest) :
    (Call.retryTask request).body.Always Orderly [] Sql.Writes.empty := by
  have hempty : Working (fun _ => False) [] Sql.Writes.empty := working_empty
  rw [retryTask_body]
  refine ⟨⟨hempty.settled, hempty.inOrder⟩, (hempty.issue _).done _, fun t _ _ => ?_⟩
  change TaskExecutionModel at t
  have hset : Working (fun _ => False) [.task request.taskExecutionId]
      (Sql.Writes.empty.set (.task request.taskExecutionId) ((retryUpdate request).set t)) := by
    refine hempty.set _ ?_
    simp only [retryUpdate, updateTask]
    split <;> simp
  dsimp only
  unfold retryRest
  split
  · exact hset.done _
  · -- The failed task is the one written, so its workflow is the one looked at.
    have hown : ∃ j u, (Sql.Writes.empty : Sql.Writes RowId Row).set
        (.task request.taskExecutionId) ((retryUpdate request).set t) (.task j) = some u ∧
          u.workflowExecutionId = t.workflowExecutionId :=
      ⟨_, _, Sql.Writes.set_self _ _ _, rfl⟩
    refine ⟨⟨hset.settled, updateRunningWorkflow_inOrder fun _ _ => rfl⟩,
      ⟨hset.look hown, fun j u hj hc => (hset.completed j u hj hc).elim⟩, fun r _ _ => ?_⟩
    change WorkflowExecutionModel at r
    have hfinish : Settled [.workflow t.workflowExecutionId, .task request.taskExecutionId]
        ((Sql.Writes.empty.set (.task request.taskExecutionId) ((retryUpdate request).set t)).set
          (.workflow t.workflowExecutionId) (r.finish .failed request.completedAt)) :=
      hset.finish hown (by simp [WorkflowExecutionModel.finish])
    refine ⟨⟨hfinish, cancelUpdate_sweeps _ _⟩, fun w' hw' => ⟨hfinish.sweep
      (cancelUpdate_sweeps _ _) hw', fun j u hj hc => ?_⟩⟩
    rcases hw' (.task j) with hr | ⟨v, -, -, hr⟩
    · rw [hr] at hj
      have hj' : (Sql.Writes.empty : Sql.Writes RowId Row).set (.task request.taskExecutionId)
          ((retryUpdate request).set t) (.task j) = some u :=
        (Sql.Writes.set_ne _ _ (by simp [failUpdate, updateRunningWorkflow])).symm.trans hj
      exact (hset.completed j u hj' hc).elim
    · rw [hr, Option.some.injEq] at hj
      rw [← hj] at hc
      exact absurd hc ((cancelUpdate_sweeps _ _).task j v).2

/-- Every transaction in flight issues its statements in order. -/
theorem orderly_reachable {ok : ExecutionDb → Sql.Action RowId Row Call → Prop}
    {db : ExecutionDb} (h : Sql.Reachable Call.body ok db) :
    ∀ t x, db.txns t = some x → x.Always Orderly := by
  refine Sql.always_reachable (fun call => ?_) h
  cases call with
  | startTask id startedAt => exact startTask_orderly id startedAt
  | completeTask request => exact completeTask_orderly request
  | retryTask request => exact retryTask_orderly request

/-- In particular its writes and issued updates are settled, wherever it stands. -/
theorem settled_of_always {x : Sql.Txn RowId Row Call CallResult} (h : x.Always Orderly) :
    Settled x.issued x.writes := by
  unfold Sql.Txn.Always at h
  split at h
  · exact h.here.1
  · obtain ⟨issued, hissued, h⟩ := h
    rw [hissued]
    exact h.2.1.here.1
  · obtain ⟨w, hw, hleft⟩ := h
    exact hw.here.1.sweep hw.here.2 fun k => (hleft k).2

/-! ### The invariant -/

/-- The transaction is after the row of the workflow, or has written it. -/
def Ends (y : Sql.Txn RowId Row Call CallResult) (i : UUID) : Prop :=
  (y.writes (.workflow i)).isSome = true ∨
    ∃ u next, y.phase = .waiting u next ∧ u.key = .workflow i

/-- The task is completed, or will be by a transaction that has looked at the workflow. -/
def Accounted (db : ExecutionDb) (i j : UUID) : Prop :=
  completed db.store j = true ∨
    ∃ t y, db.txns t = some y ∧ Completes y j ∧ .workflow i ∈ y.issued

/-- If it runs and nobody is about to end it, the workflow has a task not accounted for. -/
def Attended (db : ExecutionDb) (i : UUID) : Prop :=
  ∀ w, workflowRow db.store i = some w → w.status = .running →
    (∀ t y, db.txns t = some y → ¬ Ends y i) →
    ∃ j t, taskRow db.store j = some t ∧ t.workflowExecutionId = i ∧ ¬ Accounted db i j

/-- With nothing in flight, an attended workflow is completed when its tasks are. -/
theorem completionKept_of_attended {db : ExecutionDb} (h : ∀ i, Attended db i)
    (hc : Coherent db.store) : CompletionKept db := by
  intro hquiet i w hi
  constructor
  · intro hw j t hj hwf
    have hadm := hc.admits j t w hj (by rw [hwf, hi])
    rw [hw] at hadm
    exact hadm
  · intro hall
    cases hs : w.status with
    | completed => rfl
    | running =>
        obtain ⟨j, t, hj, hwf, hnot⟩ := h i w hi hs fun t y hy => by rw [hquiet t] at hy; simp at hy
        exact absurd (Or.inl (completed_iff.mpr ⟨t, hj, hall j t hj hwf⟩)) hnot
    | failed =>
        obtain ⟨j, hj⟩ := hc.culprit i w hi hs
        obtain ⟨t, ht, hwf, hf⟩ := (hj j).mpr rfl
        have hcompleted := hall j t ht hwf
        rw [hf] at hcompleted
        simp at hcompleted
    | cancelled => exact absurd hs (hc.not_cancelled hi)

theorem call_opens : ∀ call : Call, call.body.Opens IsOpen := by
  have htask : ∀ (id : UUID) (cond : TaskExecutionModel → Bool)
      (set : TaskExecutionModel → TaskExecutionModel),
      (∀ t, cond t = true → t.status.isTerminal = false) →
      ∀ v, (updateTask id cond set).cond v = true → IsOpen (updateTask id cond set).key v :=
    fun _ _ _ h v hv => h v hv
  refine call_forall (fun id startedAt => htask _ _ _ fun t h => ?_)
    (fun request => htask _ _ _ fun t h => ?_) (fun id => htask _ _ _ fun t h => ?_)
    (fun id completedAt w h => ?_) (fun request => htask _ _ _ fun t h => ?_)
    (fun id completedAt w h => ?_) (fun id completedAt k v h => ?_)
  · exact TaskStatus.not_terminal_iff.mpr (Or.inl (by simpa using h))
  · exact TaskStatus.not_terminal_iff.mpr (Or.inr (by simpa using h))
  · simp only [Bool.and_eq_true, beq_iff_eq] at h
    exact TaskStatus.not_terminal_iff.mpr (Or.inl h.1)
  · have hr : w.status = .running := by simpa [finishUpdate, updateRunningWorkflow] using h
    exact hr
  · simp only [Bool.and_eq_true, beq_iff_eq] at h
    exact TaskStatus.not_terminal_iff.mpr (Or.inr h.1)
  · have hr : w.status = .running := by simpa [failUpdate, updateRunningWorkflow] using h
    exact hr
  · cases k with
    | workflow i => simp [cancelUpdate] at h
    | task i => exact (cond_cancel.mp h).2

/-! ### What each step does to it -/

section Steps

variable {db db' : ExecutionDb} {t : Nat} {x x' : Sql.Txn RowId Row Call CallResult}

/--
One transaction moves on.  It stays after the workflow if it was, as long as that runs,
and completes nothing for it after it has looked.
-/
theorem Attended.set {i : UUID} (h : Attended db i) (hx : db.txns t = some x)
    (hstore : db'.store = db.store) (htxns : db'.txns = (db.setTxn t (some x')).txns)
    (hends : ∀ w, workflowRow db.store i = some w → w.status = .running → Ends x i → Ends x' i)
    (hnew : ∀ j, ¬ Ends x' i → Completes x' j → .workflow i ∈ x'.issued →
      Completes x j ∧ .workflow i ∈ x.issued) : Attended db' i := by
  intro w hi hw hfree
  rw [hstore] at hi
  have hx' : db'.txns t = some x' := by rw [htxns, Sql.Db.setTxn_self]
  have hother : ∀ u, u ≠ t → db'.txns u = db.txns u := fun u hu => by
    rw [htxns, Sql.Db.setTxn_ne db _ hu]
  obtain ⟨j, r, hj, hr, hnot⟩ := h w hi hw fun u y hy hend => by
    by_cases hu : u = t
    · subst hu
      obtain rfl : x = y := Option.some.inj (hx.symm.trans hy)
      exact hfree u x' hx' (hends w hi hw hend)
    · exact hfree u y (by rw [hother u hu, hy]) hend
  refine ⟨j, r, by rw [hstore, hj], hr, fun hacc => hnot ?_⟩
  rcases hacc with hc | ⟨u, y, hy, hcomp, hissued⟩
  · exact Or.inl (by rw [← hstore, hc])
  · by_cases hu : u = t
    · subst hu
      obtain rfl : x' = y := Option.some.inj (hx'.symm.trans hy)
      obtain ⟨hcomp, hissued⟩ := hnew j (hfree u x' hx') hcomp hissued
      exact Or.inr ⟨u, x, hx, hcomp, hissued⟩
    · exact Or.inr ⟨u, y, by rw [← hother u hu, hy], hcomp, hissued⟩

/-- Processing a row. -/
theorem Attended.process {i : UUID} (h : Attended db i) (hx : db.txns t = some x) (hord : x.Always Orderly)
    {k : RowId} (hx' : x.process db.store k = some x') (hstore : db'.store = db.store)
    (htxns : db'.txns = (db.setTxn t (some x')).txns) : Attended db' i := by
  unfold Sql.Txn.Always at hord
  rcases Sql.process_cases hx' with ⟨u, next, v, hp, rfl, hrow, hcond, rfl⟩ |
    ⟨u, next, hp, rfl, hfalse, rfl⟩ | ⟨u, todo, next, v, hp, hk, hv, rfl⟩ |
    ⟨u, todo, next, hp, hk, hv, rfl⟩ <;> rw [hp] at hord
  · obtain ⟨issued, hissued, hord⟩ := hord
    obtain ⟨key, subquery, cond, set⟩ := u
    have horder := hord.here.2
    refine h.set hx hstore htxns ?_ ?_
    · rintro w - - (hw | ⟨u', next', hp', hu'⟩)
      · exact Or.inl (Sql.writes_process_mono hx' hw)
      · rw [hp] at hp'
        cases hp'
        cases hu'
        exact Or.inl (by simp)
    · rintro j hfree ⟨v', hv', hc⟩ hi
      by_cases hj : RowId.task j = key
      · -- A task completed now is completed before any workflow is looked at.
        subst hj
        have hi' : RowId.workflow i ∈ issued := by
          rw [show x.issued = .task j :: issued from hissued] at hi
          simpa using hi
        refine absurd hi' (horder.early v hcond ?_ i)
        simp only [Sql.Writes.set_self, Option.some.injEq] at hv'
        show IsCompleted (.task j) (set v)
        rw [hv']
        exact hc
      · exact ⟨⟨v', by simpa only [Sql.Writes.set_ne _ _ hj] using hv', hc⟩, hi⟩
  · obtain ⟨issued, hissued, hord⟩ := hord
    obtain ⟨key, subquery, cond, set⟩ := u
    have horder := hord.here.2
    refine h.set hx hstore htxns ?_ fun j _ hcomp hi => ⟨hcomp, hi⟩
    rintro w hi hw (hend | ⟨u', next', hp', hu'⟩)
    · exact Or.inl hend
    · rw [hp] at hp'
      cases hp'
      cases hu'
      refine Or.inl ?_
      -- A row that still runs and is not its own would have been accepted.
      cases hown : x.writes (.workflow i) with
      | some r => rfl
      | none =>
          have hfalse' := hfalse w ((Sql.Store.overlay_row_none hown).trans hi)
          rw [horder.accepts i rfl w hw] at hfalse'
          simp at hfalse'
  · obtain ⟨w₀, hord, hleft⟩ := hord
    have hsweeps : Sweeps u := hord.here.2
    obtain ⟨-, hcond⟩ := Sql.BulkUpdate.matched_some.mp hv
    cases k with
    | workflow id => rw [hsweeps.workflow id v] at hcond; simp at hcond
    | task id =>
        refine h.set hx hstore htxns ?_ ?_
        · rintro w - - (hend | ⟨u', next', hp', -⟩)
          · exact Or.inl (by simpa only [Sql.Writes.set_ne _ _ (by simp : RowId.workflow i ≠ .task id)]
              using hend)
          · rw [hp] at hp'; cases hp'
        · rintro j - ⟨v', hv', hc⟩ hi
          by_cases hj : j = id
          · subst hj
            simp only [Sql.Writes.set_self, Option.some.injEq] at hv'
            exact absurd (hv' ▸ hc) (hsweeps.task j v).2
          · exact ⟨⟨v', by simpa only [Sql.Writes.set_ne _ _ (by simpa using hj :
              RowId.task j ≠ .task id)] using hv', hc⟩, hi⟩
  · refine h.set hx hstore htxns ?_ fun j _ hcomp hi => ⟨hcomp, hi⟩
    rintro w - - (hend | ⟨u', next', hp', -⟩)
    · exact Or.inl hend
    · rw [hp] at hp'; cases hp'

/-- Looking at a workflow without finding it finished, when the look is not skewed. -/
theorem Attended.look {i : UUID} (hsound : db.Sound executionTimeline Run Call.body)
    (hskew : ¬ Skewed db (.statement t)) (hx : db.txns t = some x)
    {u : Sql.RowUpdate RowId Row} {next : Option (Row u.key) → Session CallResult}
    (hp : x.phase = .ready (.updateRow u next)) (hkey : u.key = .workflow i)
    (horder : InOrder x.issued u) (hmiss : u.matched (db.store.overlay x.writes) = none)
    (hstore : db'.store = db.store) (htxns : db'.txns = (db.setTxn t (some x')).txns)
    (hwrites : x'.writes = x.writes) : Attended db' i := by
  intro w hi hw hfree
  rw [hstore] at hi
  have hx' : db'.txns t = some x' := by rw [htxns, Sql.Db.setTxn_self]
  have hown : x.writes (.workflow i) = none := by
    cases hwi : x.writes (.workflow i) with
    | none => rfl
    | some r => exact absurd (Or.inl (by rw [hwrites, hwi]; rfl)) (hfree t x' hx')
  have hview : workflowRow (db.store.overlay x.writes) i = some w :=
    (Sql.Store.overlay_row_none hown).trans hi
  -- It did not find the workflow finished, so it saw a task that is not.
  have hnotall : ¬ AllCompleted (db.store.overlay x.writes) i := by
    intro hall
    have hsome := horder.finds i hkey _ w hview hw hall
    rw [hmiss] at hsome
    simp at hsome
  have hleft : ∃ j r, taskRow (db.store.overlay x.writes) j = some r ∧
      r.workflowExecutionId = i ∧ r.status ≠ .completed ∧
      ∀ t' y, t' ≠ t → db.txns t' = some y → Completes y j → .workflow i ∉ y.issued := by
    by_contra hnone
    refine hskew ⟨x, u, next, i, hx, hp, hkey, hnotall, fun j r hj hr hc => ?_⟩
    by_contra hno
    exact hnone ⟨j, r, hj, hr, hc, fun t' y ht hy hcomp hissued =>
      hno ⟨t', y, ht, hy, hcomp, hissued⟩⟩
  obtain ⟨j, r, hj, hr, hc, hothers⟩ := hleft
  have hcommitted : ∃ r₀, taskRow db.store j = some r₀ ∧ r₀.workflowExecutionId = i ∧
      r₀.status ≠ .completed := by
    rcases Sql.Store.row_of_overlay hj with hwj | ⟨-, hs⟩
    · obtain ⟨r₀, hr₀, hopen⟩ := (hsound.txn t x hx).over call_opens _ _ hwj
      obtain ⟨r₁, hr₁, hev⟩ := (hsound.txn t x hx).evolves _ _ hwj
      obtain rfl : r₀ = r₁ := Option.some.inj (hr₀.symm.trans hr₁)
      have hev : TaskEvolves r₀ r := hev
      refine ⟨r₀, hr₀, by rw [← hev.same.workflowExecutionId, hr], fun hcr => ?_⟩
      have hopen : r₀.status.isTerminal = false := hopen
      rw [hcr] at hopen
      simp [TaskStatus.isTerminal] at hopen
    · exact ⟨r, hs, hr, hc⟩
  obtain ⟨r₀, hr₀, hwf, hc₀⟩ := hcommitted
  refine ⟨j, r₀, by rw [hstore, hr₀], hwf, ?_⟩
  rintro (hcomp | ⟨u', y, hy, ⟨v, hv, hvc⟩, hissued⟩)
  · rw [hstore, completed_of_row hr₀, beq_iff_eq] at hcomp
    exact hc₀ hcomp
  · rw [htxns] at hy
    rcases db.setTxn_cases hy with ⟨-, hself⟩ | ⟨hu, hother⟩
    · obtain rfl : x' = y := Option.some.inj hself
      rw [hwrites] at hv
      have hrv : v = r := Option.some.inj ((Sql.Store.overlay_row_some hr₀ hv).symm.trans hj)
      exact hc (hrv ▸ hvc)
    · exact hothers u' y hu hother ⟨v, hv, hvc⟩ hissued

/-- Issuing a statement. -/
theorem Attended.issue {i : UUID} (h : Attended db i)
    (hsound : db.Sound executionTimeline Run Call.body) (hskew : ¬ Skewed db (.statement t))
    (hx : db.txns t = some x) (hord : x.Always Orderly)
    (hx' : x.issue (db.store.overlay x.writes) = some x') (hstore : db'.store = db.store)
    (htxns : db'.txns = (db.setTxn t (some x')).txns) : Attended db' i := by
  -- A transaction that is between statements is after a workflow only by what it has written.
  have hends : ∀ p, x.phase = .ready p → x'.writes = x.writes → Ends x i → Ends x' i := by
    rintro p hp hwrites (hend | ⟨u, next, hp', -⟩)
    · exact Or.inl (by rw [hwrites]; exact hend)
    · rw [hp] at hp'; cases hp'
  unfold Sql.Txn.Always at hord
  rcases Sql.issue_cases hx' with ⟨next, hp, rfl⟩ | ⟨u, next, v, hp, hv, rfl⟩ |
    ⟨u, next, hp, hv, rfl⟩ | ⟨u, next, hp, rfl⟩ | ⟨u, next, hp, rfl⟩
  · exact h.set hx hstore htxns (fun _ _ _ => hends _ hp rfl) fun j _ hcomp hi => ⟨hcomp, hi⟩
  · refine h.set hx hstore htxns (fun _ _ _ => hends _ hp rfl) fun j hfree hcomp hi => ⟨hcomp, ?_⟩
    rcases List.mem_cons.mp hi with hi | hi
    · exact absurd (Or.inr ⟨u, next, rfl, hi.symm⟩) hfree
    · exact hi
  · rw [hp] at hord
    by_cases hkey : u.key = .workflow i
    · exact Attended.look hsound hskew hx hp hkey hord.here.2 hv hstore htxns rfl
    · refine h.set hx hstore htxns (fun _ _ _ => hends _ hp rfl) fun j _ hcomp hi => ⟨hcomp, ?_⟩
      rcases List.mem_cons.mp hi with hi | hi
      · exact absurd hi.symm hkey
      · exact hi
  · exact h.set hx hstore htxns (fun _ _ _ => hends _ hp rfl) fun j _ hcomp hi => ⟨hcomp, hi⟩
  · refine h.set hx hstore htxns (fun _ _ _ hend => ?_) fun j _ hcomp hi => ⟨hcomp, hi⟩
    rcases hend with hend | ⟨u', next', hp', -⟩
    · exact Or.inl hend
    · rw [hp] at hp'; cases hp'

/-- A transaction that has just begun has done nothing. -/
theorem Attended.begin {i : UUID} (h : Attended db i) (hnone : db.txns t = none) (call : Call) :
    Attended (db.setTxn t (some (db.started Call.body call))) i := by
  intro w hi hw hfree
  have hold : ∀ u y, db.txns u = some y → (db.setTxn t (some (db.started Call.body call))).txns u =
      some y := by
    intro u y hy
    have hu : u ≠ t := fun hu => by rw [hu, hnone] at hy; simp at hy
    rw [Sql.Db.setTxn_ne db _ hu, hy]
  obtain ⟨j, r, hj, hr, hnot⟩ := h w hi hw fun u y hy => hfree u y (hold u y hy)
  refine ⟨j, r, hj, hr, fun hacc => hnot ?_⟩
  rcases hacc with hc | ⟨u, y, hy, hcomp, hissued⟩
  · exact Or.inl hc
  · rcases db.setTxn_cases hy with ⟨-, hself⟩ | ⟨-, hother⟩
    · obtain rfl := Option.some.inj hself
      obtain ⟨v, hv, -⟩ := hcomp
      simp [Sql.Db.started] at hv
    · exact Or.inr ⟨u, y, hother, hcomp, hissued⟩

/-- A commit completes for good what was accounted for, and ends a workflow it has written. -/
theorem Attended.commit {i : UUID} (h : Attended db i)
    (hsound : db.Sound executionTimeline Run Call.body) (hx : db.txns t = some x)
    (hord : x.Always Orderly) {a : CallResult} (hp : x.phase = .ready (.done a))
    (hstore : db'.store = db.store.overlay x.writes)
    (htxns : db'.txns = Function.update db.txns t none) : Attended db' i := by
  have hsettled := settled_of_always hord
  unfold Sql.Txn.Always at hord
  rw [hp] at hord
  intro w hi hw hfree
  rw [hstore] at hi
  rcases Sql.Store.row_of_overlay hi with hwi | ⟨hwi, hi₀⟩
  · exact absurd hw (hsettled.ended i w hwi)
  obtain ⟨j, r, hj, hr, hnot⟩ := h w hi₀ hw fun u y hy hend => by
    by_cases hu : u = t
    · subst hu
      obtain rfl : x = y := Option.some.inj (hx.symm.trans hy)
      rcases hend with hend | ⟨u', next, hp', -⟩
      · rw [hwi] at hend; simp at hend
      · rw [hp] at hp'; cases hp'
    · exact hfree u y (by rw [htxns, Function.update_of_ne hu, hy]) hend
  obtain ⟨r', hr', hev⟩ := taskRow_le (hsound.le_commit hx).1 hj
  refine ⟨j, r', by rw [hstore, hr'], by rw [hev.same.workflowExecutionId, hr], fun hacc => hnot ?_⟩
  rcases hacc with hc | ⟨u, y, hy, hcomp, hissued⟩
  · rw [hstore, completed_of_row hr', beq_iff_eq] at hc
    rcases Sql.Store.row_of_overlay hr' with hwj | ⟨-, hs⟩
    · -- Completed by the transaction itself, which therefore has looked at the workflow.
      refine Or.inr ⟨t, x, hx, ⟨r', hwj, hc⟩, ?_⟩
      have hlook := hord.2 j r' hwj hc
      rw [hev.same.workflowExecutionId, hr] at hlook
      exact hlook
    · exact Or.inl (completed_iff.mpr ⟨r', hs, hc⟩)
  · rw [htxns] at hy
    obtain ⟨-, hother⟩ := db.setTxn_none_cases hy
    exact Or.inr ⟨u, y, hother, hcomp, hissued⟩

/-- An abort gives back the task the transaction had written. -/
theorem Attended.abort {i : UUID} (h : Attended db i)
    (hsound : db.Sound executionTimeline Run Call.body) (hx : db.txns t = some x)
    (hord : x.Always Orderly) (hstore : db'.store = db.store)
    (htxns : db'.txns = Function.update db.txns t none) : Attended db' i := by
  have hsettled := settled_of_always hord
  intro w hi hw hfree
  rw [hstore] at hi
  have hacc : ∀ j, Accounted db' i j → completed db.store j = true ∨
      ∃ u y, u ≠ t ∧ db.txns u = some y ∧ Completes y j ∧ .workflow i ∈ y.issued := by
    rintro j (hc | ⟨u, y, hy, hcomp, hissued⟩)
    · exact Or.inl (by rw [← hstore, hc])
    · rw [htxns] at hy
      obtain ⟨hu, hother⟩ := db.setTxn_none_cases hy
      exact Or.inr ⟨u, y, hu, hother, hcomp, hissued⟩
  by_cases hend : Ends x i
  · -- It had looked at the workflow, so it had written a task of it, which nobody else has.
    have hissued : .workflow i ∈ x.issued := by
      rcases hend with hend | ⟨u, next, hp, hu⟩
      · exact hsettled.issued_of_write i hend
      · unfold Sql.Txn.Always at hord
        rw [hp] at hord
        obtain ⟨issued, hissued, -⟩ := hord
        rw [hissued, hu]; simp
    obtain ⟨j, v, hv, hwf⟩ := hsettled.owner i hissued
    obtain ⟨r, hr, hopen⟩ := (hsound.txn t x hx).over call_opens _ _ hv
    obtain ⟨r', hr', hev⟩ := (hsound.txn t x hx).evolves _ _ hv
    obtain rfl : r = r' := Option.some.inj (hr.symm.trans hr')
    have hev : TaskEvolves r v := hev
    have hopen : r.status.isTerminal = false := hopen
    refine ⟨j, r, by rw [hstore]; exact hr, by rw [← hev.same.workflowExecutionId, hwf],
      fun hc => ?_⟩
    rcases hacc j hc with hc | ⟨u, y, hu, hy, ⟨v', hv', -⟩, -⟩
    · rw [completed_of_row hr, beq_iff_eq] at hc
      rw [hc] at hopen
      simp [TaskStatus.isTerminal] at hopen
    · exact hu (hsound.exclusive hy hx (by rw [hv']; rfl) (by rw [hv]; rfl))
  · obtain ⟨j, r, hj, hr, hnot⟩ := h w hi hw fun u y hy hend' => by
      by_cases hu : u = t
      · subst hu
        obtain rfl : x = y := Option.some.inj (hx.symm.trans hy)
        exact hend hend'
      · exact hfree u y (by rw [htxns, Function.update_of_ne hu, hy]) hend'
    refine ⟨j, r, by rw [hstore, hj], hr, fun hc => hnot ?_⟩
    rcases hacc j hc with hc | ⟨u, y, -, hy, hcomp, hissued⟩
    · exact Or.inl hc
    · exact Or.inr ⟨u, y, hy, hcomp, hissued⟩

/-- A new workflow has a task, and nobody has completed it. -/
theorem Attended.insert {i : UUID} (h : Attended db i)
    (hsound : db.Sound executionTimeline Run Call.body) {workflowId : UUID}
    (hc : Created workflowId db.store db'.store) (htxns : db'.txns = db.txns) :
    Attended db' i := by
  intro w hi hw hfree
  have hlinked := hsound.good.coherent.toLinked
  by_cases hnew : i = workflowId
  · subst hnew
    obtain ⟨j, r, hj, hnone⟩ := hc.inhabited
    have hr := hc.new j r hj hnone
    refine ⟨j, r, hj, hr.workflowExecutionId, ?_⟩
    rintro (hcomp | ⟨u, y, hy, ⟨v, hv, -⟩, -⟩)
    · rw [completed_of_row hj, hr.status] at hcomp
      simp at hcomp
    · rw [htxns] at hy
      obtain ⟨v₀, hv₀, -⟩ := (hsound.txn u y hy).evolves _ _ hv
      rw [← taskRow, hnone] at hv₀
      simp at hv₀
  · rw [hc.workflows i hnew] at hi
    rw [htxns] at hfree
    obtain ⟨j, r, hj, hr, hnot⟩ := h w hi hw hfree
    refine ⟨j, r, hc.old j r hj, hr, ?_⟩
    rintro (hcomp | hcomp)
    · rw [completed_of_row (hc.old j r hj), ← completed_of_row hj] at hcomp
      exact hnot (Or.inl hcomp)
    · rw [htxns] at hcomp
      exact hnot (Or.inr hcomp)

/-- A step that is no skewed look keeps every workflow attended. -/
theorem attended_step (hsound : db.Sound executionTimeline Run Call.body)
    (hord : ∀ t x, db.txns t = some x → x.Always Orderly)
    {a : Sql.Action RowId Row Call} (hallowed : Allowed db a) (hskew : ¬ Skewed db a)
    (hs : db.step Call.body a = some db') {i : UUID} (h : Attended db i) : Attended db' i := by
  cases a with
  | begin t call =>
      obtain ⟨hnone, rfl⟩ := Sql.step_begin hs
      exact h.begin hnone call
  | statement t =>
      obtain ⟨x, x', hx, hx', rfl⟩ := Sql.step_statement hs
      exact h.issue hsound hskew hx (hord t x hx) hx' rfl rfl
  | row t k =>
      obtain ⟨x, x', hx, -, hx', rfl⟩ := Sql.step_row hs
      exact h.process hx (hord t x hx) hx' rfl rfl
  | commit t =>
      obtain ⟨x, a, hx, hp, rfl⟩ := Sql.step_commit hs
      exact h.commit hsound hx (hord t x hx) hp rfl rfl
  | abort t =>
      obtain ⟨x, hx, rfl⟩ := Sql.step_abort hs
      exact h.abort hsound hx (hord t x hx) rfl rfl
  | insert rows =>
      obtain ⟨s, hins, rfl⟩ := Sql.step_insert hs
      have hrows : CompiledRows rows := hallowed
      obtain ⟨_, hc⟩ := hrows.created hins
      exact h.insert hsound hc rfl

end Steps

/-! ### Runs -/

/-- What the sessions may do in a run without a skewed look. -/
def Straight (db : ExecutionDb) (a : Sql.Action RowId Row Call) : Prop :=
  Allowed db a ∧ ¬ Skewed db a

theorem attended_reachable {db : ExecutionDb} (h : Sql.Reachable Call.body Straight db) :
    ∀ i, Attended db i := by
  induction h with
  | init => intro i w hi; simp [Sql.Db.init, workflowRow] at hi
  | @step db db' hdb a ha hs ih =>
      have hsound := reachable_sound (hdb.mono fun _ _ h => h.1)
      exact fun i => attended_step hsound (orderly_reachable hdb) ha.1 ha.2 hs (ih i)

/--
**In a run without a skewed look no completion is lost**: in every state it reaches
with nothing in flight, a workflow is completed exactly when all its tasks are.
-/
theorem completion_kept {db : ExecutionDb} (h : Sql.Reachable Call.body Straight db) :
    CompletionKept db :=
  completionKept_of_attended (attended_reachable h)
    (reachable_coherent (h.mono fun _ _ h => h.1))

/-- None of these sessions but the one that looks has looked before. -/
def looksApart (sessions : List Nat) (db : ExecutionDb) : Sql.Action RowId Row Call → Bool
  | .statement t => sessions.all fun u => u == t ||
      (db.txns u).all fun y => y.issued.all fun k => k.workflowExecutionId.isNone
  | _ => true

/-- In a run of these steps no session looks while another one that has looked is in flight. -/
def apart (sessions : List Nat) : ExecutionDb → List (Sql.Action RowId Row Call) → Bool
  | _, [] => true
  | db, a :: rest => looksApart sessions db a &&
      (db.step Call.body a).all fun db' => apart sessions db' rest

/-- Then the look is not skewed, if nobody else is in flight. -/
theorem not_skewed_apart {sessions : List Nat} {db : ExecutionDb}
    {a : Sql.Action RowId Row Call} (hnone : ∀ u, u ∉ sessions → db.txns u = none)
    (h : looksApart sessions db a = true) : ¬ Skewed db a := by
  cases a with
  | statement t =>
      rintro ⟨x, u, next, i, -, -, -, hnot, hothers⟩
      refine hnot fun j r hj hr => ?_
      by_contra hc
      obtain ⟨t', y, ht, hy, -, hissued⟩ := hothers j r hj hr hc
      have hmem : t' ∈ sessions := by
        by_contra hnotin
        rw [hnone t' hnotin] at hy
        simp at hy
      have hlook := List.all_eq_true.mp h t' hmem
      rw [hy, Option.all_some, Bool.or_eq_true, beq_iff_eq] at hlook
      have hall := List.all_eq_true.mp (hlook.resolve_left ht) (.workflow i) hissued
      simp [RowId.workflowExecutionId] at hall
  | _ => exact id

/-- Sessions that look apart from each other lose no completion. -/
theorem straight_of_apart (sessions : List Nat) : ∀ {acts : List (Sql.Action RowId Row Call)}
    {db db' : ExecutionDb}, Sql.Reachable Call.body Straight db →
      (∀ u, u ∉ sessions → db.txns u = none) →
      (∀ rows, .insert rows ∈ acts → CompiledRows rows) →
      (∀ u call, .begin u call ∈ acts → u ∈ sessions) → apart sessions db acts = true →
      db.steps Call.body acts = some db' → Sql.Reachable Call.body Straight db' := by
  intro acts
  induction acts with
  | nil =>
      intro db db' h _ _ _ _ hs
      simp only [Sql.Db.steps, List.foldlM_nil, Option.pure_def, Option.some.injEq] at hs
      exact hs ▸ h
  | cons a rest ih =>
      intro db db' h hnone hrows hbegin happart hs
      simp only [Sql.Db.steps, List.foldlM_cons, Option.bind_eq_bind, Option.bind_eq_some_iff] at hs
      obtain ⟨db₁, h₁, hrest⟩ := hs
      rw [apart, h₁, Option.all_some, Bool.and_eq_true] at happart
      have hallowed : Allowed db a :=
        allowed_of_mem (fun rows hm => hrows rows hm) db a (by simp)
      refine ih (.step h a ⟨hallowed, not_skewed_apart hnone happart.1⟩ h₁) (fun u hu => ?_)
        (fun rows hm => hrows rows (by simp [hm])) (fun u call hm => hbegin u call (by simp [hm]))
        happart.2 hrest
      exact Sql.txns_step_none (fun call hc => hu (hbegin u call (by simp [hc]))) (hnone u hu) h₁

/-! ### Two runs of the sample -/

/-- Session 0 takes both children up. -/
def startChildren : List (Sql.Action RowId Row Call) :=
  [.begin 0 (.startTask 2 30), .statement 0, .row 0 (.task 2), .statement 0, .statement 0,
   .commit 0,
   .begin 0 (.startTask 3 30), .statement 0, .row 0 (.task 3), .statement 0, .statement 0,
   .commit 0]

/-- Then sessions 1 and 2 complete one of them each, and both are in flight. -/
def bothUnderway : List (Sql.Action RowId Row Call) :=
  sampleSteps ++ startChildren ++
  [.begin 1 (.completeTask ⟨2, {}, 40⟩), .statement 1, .row 1 (.task 2),
   .begin 2 (.completeTask ⟨3, {}, 40⟩), .statement 2, .row 2 (.task 3)]

/-- The first one looks and commits, and then the second one looks. -/
def overlappingSteps : List (Sql.Action RowId Row Call) :=
  bothUnderway ++ [.statement 1, .commit 1, .statement 2, .row 2 (.workflow 0), .commit 2]

/-- Or both look before either commits. -/
def lostSteps : List (Sql.Action RowId Row Call) :=
  bothUnderway ++ [.statement 1, .statement 2, .commit 1, .commit 2]

theorem overlappingSteps_begin : ∀ u call, .begin u call ∈ overlappingSteps → u ∈ [0, 1, 2] := by
  intro u call h
  simp only [overlappingSteps, bothUnderway, startChildren, sampleSteps, List.cons_append,
    List.nil_append, List.mem_cons, List.not_mem_nil, or_false, Sql.Action.begin.injEq,
    reduceCtorEq, false_or] at h
  simp only [List.mem_cons, List.not_mem_nil, or_false]
  omega

/-- Two completions that overlap, and whose looks do not. -/
theorem completion_kept_overlapping :
    (∀ t ∈ [1, 2], ((dbAfter bothUnderway).txns t).isSome = true) ∧
      (workflowRow (dbAfter overlappingSteps).store 0).map (·.status) = some .completed ∧
      CompletionKept (dbAfter overlappingSteps) := by
  have hrows : ∀ rows, .insert rows ∈ overlappingSteps → CompiledRows rows := by
    intro rows h
    simp [overlappingSteps, bothUnderway, startChildren, sampleSteps] at h
    exact h ▸ sampleRows_compiled
  refine ⟨by decide +kernel, by rfl, completion_kept (straight_of_apart [0, 1, 2] .init
    (fun _ _ => rfl) hrows overlappingSteps_begin ?_ (steps_dbAfter rfl))⟩
  decide +kernel

/-- **Two workers that finish the last two tasks together leave the workflow running for good.** -/
theorem completion_lost :
    ReachableDb (dbAfter lostSteps) ∧ ¬ CompletionKept (dbAfter lostSteps) := by
  have hrows : ∀ rows, .insert rows ∈ lostSteps → CompiledRows rows := by
    intro rows h
    simp [lostSteps, bothUnderway, startChildren, sampleSteps] at h
    exact h ▸ sampleRows_compiled
  have hsteps : Sql.Db.init.steps Call.body lostSteps = some (dbAfter lostSteps) :=
    steps_dbAfter rfl
  have hquiet : Quiet (dbAfter lostSteps) := by
    rintro (_ | _ | _ | t)
    · rfl
    · rfl
    · rfl
    · refine Sql.txns_steps_none (fun call h => ?_) rfl hsteps
      simp [lostSteps, bothUnderway, startChildren, sampleSteps] at h
  have hall : AllCompleted (dbAfter lostSteps).store 0 := by
    intro j t hj _
    have hkeys : RowId.task j ∈ (dbAfter lostSteps).store.keys := Sql.Store.mem_keys_of_row hj
    have hkeys' : (dbAfter lostSteps).store.keys =
        [.workflow 0, .task 1, .task 2, .task 3] := by rfl
    rw [hkeys'] at hkeys
    simp only [List.mem_cons, reduceCtorEq, RowId.task.injEq, List.not_mem_nil, or_false,
      false_or] at hkeys
    rcases hkeys with rfl | rfl | rfl <;> · cases hj; rfl
  refine ⟨reachable_dbAfter hrows rfl, fun hkept => ?_⟩
  have hrunning : (workflowRow (dbAfter lostSteps).store 0).map (·.status) = some .running := by rfl
  obtain ⟨w, hw, hr⟩ := Option.map_eq_some_iff.mp hrunning
  have hc := (hkept hquiet 0 w hw).mpr hall
  rw [hr] at hc
  simp at hc

end AutomationPlatform
