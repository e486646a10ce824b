/-
Workflow executions do not disturb each other.

The statements of a call pick the children of a task by their identifiers alone, and a
workflow by its own.  That they never reach into another workflow rests on the links between
the rows: the parents and children of a task are tasks of its workflow.

The rows of one workflow are a store of their own.  A call on one of its tasks does the same
there as in the whole store, and to the rows of all others it does nothing.  Everything else
follows from these two.
-/
import AutomationPlatform.Proofs.Executions.Serial

namespace AutomationPlatform

open WorkflowExecutionRepository

/-! ### The rows of one workflow -/

/-- The workflow execution of a row. -/
def owner : (k : RowId) → Row k → UUID
  | .workflow i, _ => i
  | .task _, t => t.workflowExecutionId

/-- The row is the workflow execution's, or one of its tasks'. -/
def belongsTo (workflowId : UUID) (k : RowId) (v : Row k) : Bool := owner k v == workflowId

/-- The rows of one workflow execution. -/
def ofWorkflow (s : ExecutionStore) (workflowId : UUID) : ExecutionStore :=
  s.deleteWhere fun k v => !belongsTo workflowId k v

/-- The task is committed as one of the workflow. -/
def TaskOf (s : ExecutionStore) (workflowId i : UUID) : Prop :=
  ∃ t, taskRow s i = some t ∧ t.workflowExecutionId = workflowId

section OfWorkflow

variable {s : ExecutionStore} {workflowId : UUID}

theorem TaskOf.workflow {i : UUID} (h : TaskOf s workflowId i) {t : TaskExecutionModel}
    (hi : taskRow s i = some t) : t.workflowExecutionId = workflowId := by
  obtain ⟨u, hu, hw⟩ := h
  obtain rfl : t = u := Option.some.inj (hi.symm.trans hu)
  exact hw

theorem row_ofWorkflow (k : RowId) :
    (ofWorkflow s workflowId).row k = (s.row k).filter (belongsTo workflowId k) := by
  unfold ofWorkflow
  rw [Sql.Store.deleteWhere_row]
  simp

theorem taskRow_ofWorkflow {i : UUID} {t : TaskExecutionModel} :
    taskRow (ofWorkflow s workflowId) i = some t ↔
      taskRow s i = some t ∧ t.workflowExecutionId = workflowId := by
  unfold taskRow
  rw [row_ofWorkflow, Option.filter_eq_some_iff]
  simp [belongsTo, owner]

theorem workflowRow_ofWorkflow {i : UUID} {w : WorkflowExecutionModel} :
    workflowRow (ofWorkflow s workflowId) i = some w ↔ workflowRow s i = some w ∧ i = workflowId := by
  unfold workflowRow
  rw [row_ofWorkflow, Option.filter_eq_some_iff]
  simp [belongsTo, owner]

/-- A task of the workflow has the row it has in the whole store. -/
theorem taskRow_ofWorkflow_self {i : UUID} {t : TaskExecutionModel} (hi : taskRow s i = some t)
    (hw : t.workflowExecutionId = workflowId) :
    taskRow (ofWorkflow s workflowId) i = taskRow s i := by
  rw [hi, taskRow_ofWorkflow]
  exact ⟨hi, hw⟩

theorem completed_ofWorkflow {i : UUID} (hi : TaskOf s workflowId i) :
    completed (ofWorkflow s workflowId) i = completed s i := by
  obtain ⟨t, ht, hw⟩ := hi
  unfold completed
  rw [taskRow_ofWorkflow_self ht hw]

theorem taskTable_ofWorkflow : taskTable (ofWorkflow s workflowId) =
    (taskTable s).filter fun e => e.2.workflowExecutionId == workflowId := by
  unfold taskTable ofWorkflow Sql.Store.deleteWhere
  rw [List.filterMap_filter, List.filter_filterMap]
  refine List.filterMap_congr fun k _ => ?_
  cases k with
  | workflow i => simp
  | task i =>
      show (if (!(taskRow s i).any _) = true then (taskRow (ofWorkflow s workflowId) i).map _ else
        none) = ((taskRow s i).map _).filter _
      cases hi : taskRow s i with
      | none =>
          have hnone : taskRow (ofWorkflow s workflowId) i = none := by
            rw [Option.eq_none_iff_forall_not_mem]
            intro t ht
            rw [Option.mem_def, taskRow_ofWorkflow, hi] at ht
            simp at ht
          simp [hnone]
      | some t =>
          by_cases hw : t.workflowExecutionId = workflowId
          · rw [taskRow_ofWorkflow_self hi hw, hi]
            simp [belongsTo, owner, hw, Option.filter]
          · simp [belongsTo, owner, hw, Option.filter]

/-- The links stay within the workflow, and so do the sums. -/
theorem Coherent.ofWorkflow (h : Coherent s) (workflowId : UUID) :
    Coherent (ofWorkflow s workflowId) where
  workflow := by
    intro i t hi
    obtain ⟨ht, hw⟩ := taskRow_ofWorkflow.mp hi
    obtain ⟨w, hrow⟩ := Option.isSome_iff_exists.mp (h.workflow i t ht)
    rw [workflowRow_ofWorkflow.mpr ⟨hrow, hw⟩]
    rfl
  inhabited := by
    intro i hi
    obtain ⟨w, hw⟩ := Option.isSome_iff_exists.mp hi
    obtain ⟨hrow, rfl⟩ := workflowRow_ofWorkflow.mp hw
    obtain ⟨j, t, hj, hwf⟩ := h.inhabited i (by rw [hrow]; rfl)
    exact ⟨j, t, taskRow_ofWorkflow.mpr ⟨hj, hwf⟩, hwf⟩
  parents_nodup := fun i t hi => h.parents_nodup i t (taskRow_ofWorkflow.mp hi).1
  children_nodup := fun i t hi => h.children_nodup i t (taskRow_ofWorkflow.mp hi).1
  not_self := fun i t hi => h.not_self i t (taskRow_ofWorkflow.mp hi).1
  parents := by
    intro i t hi p hp
    obtain ⟨ht, hw⟩ := taskRow_ofWorkflow.mp hi
    obtain ⟨tp, htp, hwp, hc⟩ := h.parents i t ht p hp
    exact ⟨tp, taskRow_ofWorkflow.mpr ⟨htp, hwp.trans hw⟩, hwp, hc⟩
  children := by
    intro i t hi c hc
    obtain ⟨ht, hw⟩ := taskRow_ofWorkflow.mp hi
    obtain ⟨tc, htc, hwc, hp⟩ := h.children i t ht c hc
    exact ⟨tc, taskRow_ofWorkflow.mpr ⟨htc, hwc.trans hw⟩, hwc, hp⟩
  keys := fun i j t u hi hj =>
    h.keys i j t u (taskRow_ofWorkflow.mp hi).1 (taskRow_ofWorkflow.mp hj).1
  ok := fun i t hi => h.ok i t (taskRow_ofWorkflow.mp hi).1
  counter := by
    intro i t hi hp
    obtain ⟨ht, hw⟩ := taskRow_ofWorkflow.mp hi
    rw [h.counter i t ht hp]
    refine congrArg (fun l => (List.length l : Int)) (List.filter_congr fun p hpar => ?_)
    obtain ⟨tp, htp, hwp, -⟩ := h.parents i t ht p hpar
    rw [completed_ofWorkflow ⟨tp, htp, hwp.trans hw⟩]
  admits := fun i t w hi hw =>
    h.admits i t w (taskRow_ofWorkflow.mp hi).1 (workflowRow_ofWorkflow.mp hw).1
  culprit := by
    intro i w hi hf
    obtain ⟨hrow, rfl⟩ := workflowRow_ofWorkflow.mp hi
    obtain ⟨j, hj⟩ := h.culprit i w hrow hf
    refine ⟨j, fun k => Iff.trans ⟨?_, ?_⟩ (hj k)⟩
    · intro ⟨t, ht, hw, hft⟩
      exact ⟨t, (taskRow_ofWorkflow.mp ht).1, hw, hft⟩
    · intro ⟨t, ht, hw, hft⟩
      exact ⟨t, taskRow_ofWorkflow.mpr ⟨ht, hw⟩, hw, hft⟩

end OfWorkflow

/-! ### A call stays within its workflow -/

/-- A change of the rows of one workflow only, which leaves every row where it belongs. -/
structure Within (s : ExecutionStore) (workflowId : UUID) (change : Change) : Prop where
  same : ∀ i t, SameTask t (change (.task i) t)
  frame : ∀ k v, s.row k = some v → belongsTo workflowId k v = false → change k v = v

section Calls

variable {s s' : ExecutionStore} {workflowId : UUID} {call : Call} {r : Except String CallResult}

theorem belongsTo_change {change : Change} (hsame : ∀ i t, SameTask t (change (.task i) t))
    (workflowId : UUID) (k : RowId) (v : Row k) :
    belongsTo workflowId k (change k v) = belongsTo workflowId k v := by
  cases k with
  | workflow i => rfl
  | task i =>
      show ((change (.task i) v).workflowExecutionId == workflowId) = _
      rw [(hsame i v).workflowExecutionId]
      rfl

/-- The rows of a workflow may be selected before a change or after it. -/
theorem ofWorkflow_mapRows {change : Change} (hsame : ∀ i t, SameTask t (change (.task i) t)) :
    ofWorkflow (s.mapRows change) workflowId = (ofWorkflow s workflowId).mapRows change :=
  Sql.Store.deleteWhere_mapRows fun k v _ => by rw [belongsTo_change hsame]

/-- A change of one row is a change within the workflow of that row. -/
theorem within_one {id : UUID} {change : Change} (hsame : ∀ i t, SameTask t (change (.task i) t))
    (hone : ∀ k v, k ≠ .task id → change k v = v) (hw : TaskOf s workflowId id) :
    Within s workflowId change where
  same := hsame
  frame := by
    intro k v hk hnot
    refine hone k v ?_
    rintro rfl
    obtain ⟨t, ht, hwf⟩ := hw
    obtain rfl : t = v := Option.some.inj (ht.symm.trans hk)
    simp [belongsTo, owner, hwf] at hnot

theorem within_start {id : UUID} {startedAt : Datetime} (hw : TaskOf s workflowId id) :
    Within s workflowId (startChange id startedAt) := by
  refine within_one (sameTask_start id startedAt) (fun k v hk => ?_) hw
  cases k with
  | workflow i => rfl
  | task i => exact if_neg fun hi => hk (congrArg RowId.task hi)

theorem within_retry {request : RetryTaskExecutionRequest}
    (hw : TaskOf s workflowId request.taskExecutionId) :
    Within s workflowId (retryChange request) := by
  refine within_one (sameTask_retry request) (fun k v hk => ?_) hw
  cases k with
  | workflow i => rfl
  | task i => exact if_neg fun hi => hk (congrArg RowId.task hi)

theorem within_complete (hs : Coherent s) {request : CompleteTaskExecutionRequest}
    {t : TaskExecutionModel} (finished : Bool)
    (hrow : taskRow s request.taskExecutionId = some t) (hw : t.workflowExecutionId = workflowId) :
    Within s workflowId (completeChange request t finished) where
  same := sameTask_complete request t finished
  frame := by
    intro k v hk hnot
    cases k with
    | workflow i =>
        refine completeChange_workflow (fun ⟨_, hi⟩ => ?_) v
        simp [belongsTo, owner, hi, hw] at hnot
    | task i =>
        rcases completeChange_cases finished hrow hk with ⟨-, rfl, -⟩ | ⟨-, hc, -, -⟩ | ⟨-, -, hc⟩
        · simp [belongsTo, owner, hw] at hnot
        · -- A child is a task of the same workflow.
          obtain ⟨tc, htc, hwc, -⟩ := hs.children _ t hrow i hc
          obtain rfl : tc = v := Option.some.inj (htc.symm.trans hk)
          simp [belongsTo, owner, hwc, hw] at hnot
        · exact hc

theorem within_fail {request : RetryTaskExecutionRequest} {t : TaskExecutionModel}
    (hrow : taskRow s request.taskExecutionId = some t) (hw : t.workflowExecutionId = workflowId) :
    Within s workflowId (failChange request t.workflowExecutionId) where
  same := sameTask_fail request t.workflowExecutionId
  frame := by
    intro k v hk hnot
    cases k with
    | workflow i =>
        refine failChange_workflow (fun hi => ?_) v
        simp [belongsTo, owner, hi, hw] at hnot
    | task i =>
        rcases failChange_cases hrow hk with ⟨-, rfl, -⟩ | ⟨-, hwf, -, -⟩ | ⟨-, -, hc⟩
        · simp [belongsTo, owner, hw] at hnot
        · simp [belongsTo, owner, hwf, hw] at hnot
        · exact hc

/-- What a call changes is of the workflow of its task. -/
theorem Alone.within (hs : Coherent s) (h : Alone s call r s')
    (hw : TaskOf s workflowId call.taskExecutionId) :
    s' = s ∨ ∃ change, s' = s.mapRows change ∧ Within s workflowId change := by
  have hwf := fun t (ht : taskRow s call.taskExecutionId = some t) => hw.workflow ht
  cases h with
  | startRefused => exact Or.inl rfl
  | startRaised => exact Or.inl rfl
  | startResumed => exact Or.inl rfl
  | startTaken => exact Or.inr ⟨_, rfl, within_start hw⟩
  | completeMissed => exact Or.inl rfl
  | completeDone hrow _ => exact Or.inr ⟨_, rfl, within_complete hs _ hrow (hwf _ hrow)⟩
  | retryMissed => exact Or.inl rfl
  | retryAgain => exact Or.inr ⟨_, rfl, within_retry hw⟩
  | retryFailed hrow _ _ => exact Or.inr ⟨_, rfl, within_fail hrow (hwf _ hrow)⟩

/-- No row of anything else changes. -/
theorem Alone.row_frame (hs : Coherent s) (h : Alone s call r s')
    (hw : TaskOf s workflowId call.taskExecutionId) {k : RowId}
    (hk : ∀ v, s.row k = some v → belongsTo workflowId k v = false) : s'.row k = s.row k := by
  rcases h.within hs hw with rfl | ⟨change, rfl, hwithin⟩
  · rfl
  · rw [Sql.Store.mapRows_row]
    cases hrow : s.row k with
    | none => rfl
    | some v => rw [Option.map_some, hwithin.frame k v hrow (hk v hrow)]

/-- Every other workflow is the store it was. -/
theorem Alone.frame (hs : Coherent s) (h : Alone s call r s')
    (hw : TaskOf s workflowId call.taskExecutionId) {other : UUID} (hother : other ≠ workflowId) :
    ofWorkflow s' other = ofWorkflow s other := by
  rcases h.within hs hw with rfl | ⟨change, rfl, hwithin⟩
  · rfl
  · refine Sql.Store.deleteWhere_mapRows_frame ?_ ?_
    · intro k v _
      rw [belongsTo_change hwithin.same]
    · intro k v hk hkept
      refine hwithin.frame k v hk ?_
      rw [Bool.not_eq_false'] at hkept
      cases k with
      | workflow i =>
          obtain rfl : i = other := by simpa [belongsTo, owner] using hkept
          simpa [belongsTo, owner] using hother
      | task i =>
          have hwf : v.workflowExecutionId = other := by simpa [belongsTo, owner] using hkept
          simpa [belongsTo, owner, hwf] using hother

/-! ### A call sees its workflow only -/

theorem parentModels_ofWorkflow (hs : Coherent s) {i : UUID} {t : TaskExecutionModel}
    (hi : taskRow s i = some t) (hw : t.workflowExecutionId = workflowId) :
    parentModels (ofWorkflow s workflowId) t.parentTaskIds = parentModels s t.parentTaskIds := by
  unfold parentModels
  rw [taskTable_ofWorkflow, List.filter_filter]
  refine congrArg _ (List.filter_congr fun e he => ?_)
  by_cases hp : e.1 ∈ t.parentTaskIds
  · obtain ⟨tp, htp, hwp, -⟩ := hs.parents i t hi e.1 hp
    obtain rfl : tp = e.2 := Option.some.inj (htp.symm.trans (mem_taskTable.mp he))
    simp [hp, hwp, hw]
  · simp [hp]

theorem lastOfWorkflow_ofWorkflow {i : UUID} {t : TaskExecutionModel}
    (hw : t.workflowExecutionId = workflowId) :
    lastOfWorkflow (ofWorkflow s workflowId) i t = lastOfWorkflow s i t := by
  rw [Bool.eq_iff_iff, lastOfWorkflow_iff, lastOfWorkflow_iff]
  constructor
  · intro h j u hj hwu
    exact h j u (taskRow_ofWorkflow.mpr ⟨hj, hwu.trans hw⟩) hwu
  · intro h j u hj
    exact h j u (taskRow_ofWorkflow.mp hj).1

theorem completeResult_ofWorkflow (hs : Coherent s) {i : UUID} {t : TaskExecutionModel}
    (hi : taskRow s i = some t) (hw : t.workflowExecutionId = workflowId) :
    t.completeResult (ofWorkflow s workflowId) i = t.completeResult s i := by
  unfold TaskExecutionModel.completeResult
  rw [lastOfWorkflow_ofWorkflow hw]
  refine congrArg (CompleteTaskExecutionResult.mk · _) (List.filter_congr fun c hc => ?_)
  obtain ⟨tc, htc, hwc, -⟩ := hs.children i t hi c hc
  unfold released
  rw [taskRow_ofWorkflow_self htc (hwc.trans hw)]

/-- **A call does to the rows of its workflow what it would do without all others.** -/
theorem Alone.ofWorkflow (hs : Coherent s) (h : Alone s call r s')
    (hw : TaskOf s workflowId call.taskExecutionId) :
    Alone (ofWorkflow s workflowId) call r (AutomationPlatform.ofWorkflow s' workflowId) := by
  have hwf := fun t (ht : taskRow s call.taskExecutionId = some t) => hw.workflow ht
  have hrow' : ∀ t, taskRow s call.taskExecutionId = some t →
      taskRow (AutomationPlatform.ofWorkflow s workflowId) call.taskExecutionId = some t :=
    fun t ht => taskRow_ofWorkflow.mpr ⟨ht, hwf t ht⟩
  have hparents' : ∀ {t r}, taskRow s call.taskExecutionId = some t →
      collectOutputs [] (parentModels s t.parentTaskIds) = r →
      collectOutputs [] (parentModels (AutomationPlatform.ofWorkflow s workflowId) t.parentTaskIds) =
        r := by
    intro t r ht hr
    rw [parentModels_ofWorkflow hs ht (hwf t ht), hr]
  cases h with
  | startRefused hover => exact .startRefused fun t ht => hover t (taskRow_ofWorkflow.mp ht).1
  | startRaised hrow hopen hparents =>
      exact .startRaised (hrow' _ hrow) hopen (hparents' hrow hparents)
  | startResumed hrow hrunning hparents =>
      exact .startResumed (hrow' _ hrow) hrunning (hparents' hrow hparents)
  | startTaken hrow hpending hparents =>
      rw [ofWorkflow_mapRows (sameTask_start _ _)]
      exact .startTaken (hrow' _ hrow) hpending (hparents' hrow hparents)
  | completeMissed hmissed =>
      exact .completeMissed fun t ht => hmissed t (taskRow_ofWorkflow.mp ht).1
  | @completeDone request t hrow hrunning =>
      have hdone := Alone.completeDone (hrow' t hrow) hrunning
      rw [completeResult_ofWorkflow hs hrow (hwf t hrow),
        lastOfWorkflow_ofWorkflow (hwf t hrow)] at hdone
      rw [ofWorkflow_mapRows (sameTask_complete _ _ _)]
      exact hdone
  | retryMissed hmissed => exact .retryMissed fun t ht => hmissed t (taskRow_ofWorkflow.mp ht).1
  | retryAgain hrow hrunning htries =>
      rw [ofWorkflow_mapRows (sameTask_retry _)]
      exact .retryAgain (hrow' _ hrow) hrunning htries
  | retryFailed hrow hrunning htries =>
      rw [ofWorkflow_mapRows (sameTask_fail _ _)]
      exact .retryFailed (hrow' _ hrow) hrunning htries

/-- A call on a task that is not there does nothing anywhere. -/
theorem Alone.absent (h : Alone s call r s') (hnone : taskRow s call.taskExecutionId = none) :
    s' = s ∧ ∀ u : ExecutionStore, taskRow u call.taskExecutionId = none → Alone u call r u := by
  cases h with
  | startRefused hover => exact ⟨rfl, fun u hu => .startRefused fun t ht => by simp_all [Call.taskExecutionId]⟩
  | completeMissed hmissed =>
      exact ⟨rfl, fun u hu => .completeMissed fun t ht => by simp_all [Call.taskExecutionId]⟩
  | retryMissed hmissed =>
      exact ⟨rfl, fun u hu => .retryMissed fun t ht => by simp_all [Call.taskExecutionId]⟩
  | startRaised hrow _ _ => exact absurd (hnone.symm.trans hrow) (by simp)
  | startResumed hrow _ _ => exact absurd (hnone.symm.trans hrow) (by simp)
  | startTaken hrow _ _ => exact absurd (hnone.symm.trans hrow) (by simp)
  | completeDone hrow _ => exact absurd (hnone.symm.trans hrow) (by simp)
  | retryAgain hrow _ _ => exact absurd (hnone.symm.trans hrow) (by simp)
  | retryFailed hrow _ _ => exact absurd (hnone.symm.trans hrow) (by simp)

/-- What a call does and returns is decided by its workflow. -/
theorem exec_ofWorkflow (hs : Coherent s)
    (hw : ∀ t, taskRow s call.taskExecutionId = some t → t.workflowExecutionId = workflowId) :
    call.body.exec (ofWorkflow s workflowId) =
      (ofWorkflow (call.body.exec s).1 workflowId, (call.body.exec s).2) := by
  obtain ⟨s', r, hexec, halone⟩ := alone_exec hs call
  rw [hexec]
  refine Alone.exec (hs.ofWorkflow workflowId) ?_
  cases hrow : taskRow s call.taskExecutionId with
  | none =>
      obtain ⟨hsame, habsent⟩ := halone.absent hrow
      rw [hsame]
      refine habsent _ ?_
      rw [Option.eq_none_iff_forall_not_mem]
      intro t ht
      rw [Option.mem_def, taskRow_ofWorkflow, hrow] at ht
      simp at ht
  | some t => exact halone.ofWorkflow hs ⟨t, hrow, hw t hrow⟩

/-- It leaves all others as they are. -/
theorem exec_frame (hs : Coherent s) {other : UUID}
    (hother : ∀ t, taskRow s call.taskExecutionId = some t → t.workflowExecutionId ≠ other) :
    ofWorkflow (call.body.exec s).1 other = ofWorkflow s other := by
  obtain ⟨s', r, hexec, halone⟩ := alone_exec hs call
  rw [hexec]
  cases hrow : taskRow s call.taskExecutionId with
  | none => rw [(halone.absent hrow).1]
  | some t => exact halone.frame hs ⟨t, hrow, rfl⟩ (hother t hrow).symm

theorem exec_coherent (hs : Coherent s) (call : Call) : Coherent (call.body.exec s).1 := by
  obtain ⟨s', r, hexec, halone⟩ := alone_exec hs call
  rw [hexec]
  exact halone.coherent hs

end Calls

/-! ### Calls on different workflows commute -/

section Commute

variable {s t : ExecutionStore} {w₁ w₂ : UUID} {c₁ c₂ : Call}

theorem taskOf_iff {i : UUID} :
    TaskOf s w₁ i ↔ (taskRow (ofWorkflow s w₁) i).isSome = true := by
  rw [Option.isSome_iff_exists]
  constructor
  · intro ⟨t, ht, hw⟩
    exact ⟨t, taskRow_ofWorkflow.mpr ⟨ht, hw⟩⟩
  · intro ⟨t, ht⟩
    exact ⟨t, taskRow_ofWorkflow.mp ht⟩

/-- A store is what it is for each of its workflows, in the order of its keys. -/
theorem eq_of_ofWorkflow (hkeys : s.keys = t.keys)
    (h : ∀ workflowId, ofWorkflow s workflowId = ofWorkflow t workflowId) : s = t := by
  have hrow : ∀ {a b : ExecutionStore}, (∀ workflowId, ofWorkflow a workflowId =
      ofWorkflow b workflowId) → ∀ k v, a.row k = some v → b.row k = some v := by
    intro a b hab k v hk
    have hmem : (ofWorkflow a (owner k v)).row k = some v := by
      rw [row_ofWorkflow, hk]
      simp [belongsTo, Option.filter]
    rw [hab, row_ofWorkflow, Option.filter_eq_some_iff] at hmem
    exact hmem.1
  refine Sql.Store.ext hkeys fun k => ?_
  rw [Option.ext_iff]
  exact fun v => ⟨hrow h k v, hrow (fun w => (h w).symm) k v⟩

theorem TaskOf.frame {i : UUID} (h₂ : TaskOf s w₂ i) (hs : Coherent s) (hne : w₁ ≠ w₂)
    (h₁ : TaskOf s w₁ c₁.taskExecutionId) : TaskOf (c₁.body.exec s).1 w₂ i := by
  rw [taskOf_iff, exec_frame hs fun t ht => (h₁.workflow ht).symm ▸ hne, ← taskOf_iff]
  exact h₂

/-- A call finds its workflow as it was before a call on another one. -/
theorem exec_after (hs : Coherent s) (hne : w₁ ≠ w₂) (h₁ : TaskOf s w₁ c₁.taskExecutionId)
    (h₂ : TaskOf s w₂ c₂.taskExecutionId) :
    (c₂.body.exec (c₁.body.exec s).1).2 = (c₂.body.exec s).2 ∧
      ofWorkflow (c₂.body.exec (c₁.body.exec s).1).1 w₂ = ofWorkflow (c₂.body.exec s).1 w₂ := by
  have hboth := exec_ofWorkflow (exec_coherent hs c₁)
    fun t ht => (h₂.frame hs hne h₁).workflow ht
  rw [exec_frame hs fun t ht => (h₁.workflow ht).symm ▸ hne,
    exec_ofWorkflow hs fun t ht => h₂.workflow ht, Prod.mk.injEq] at hboth
  exact ⟨hboth.2.symm, hboth.1.symm⟩

theorem exec_keys (hs : Coherent s) (call : Call) : (call.body.exec s).1.keys = s.keys := by
  obtain ⟨s', r, hexec, halone⟩ := alone_exec hs call
  rw [hexec]
  exact (halone.move hs).keys

/-- Calls on tasks of two workflows may change places. -/
theorem exec_commute (hs : Coherent s) (hne : w₁ ≠ w₂) (h₁ : TaskOf s w₁ c₁.taskExecutionId)
    (h₂ : TaskOf s w₂ c₂.taskExecutionId) :
    (c₂.body.exec (c₁.body.exec s).1).1 = (c₁.body.exec (c₂.body.exec s).1).1 := by
  have hs₁ := exec_coherent hs c₁
  have hs₂ := exec_coherent hs c₂
  have h₂' := h₂.frame hs hne h₁
  have h₁' := h₁.frame hs hne.symm h₂
  refine eq_of_ofWorkflow ?_ fun w => ?_
  · rw [exec_keys hs₁, exec_keys hs, exec_keys hs₂, exec_keys hs]
  · have hframe₁ : w ≠ w₁ → ofWorkflow (c₁.body.exec s).1 w = ofWorkflow s w :=
      fun hw => exec_frame hs fun t ht => (h₁.workflow ht).symm ▸ hw.symm
    have hframe₂ : w ≠ w₂ → ofWorkflow (c₂.body.exec s).1 w = ofWorkflow s w :=
      fun hw => exec_frame hs fun t ht => (h₂.workflow ht).symm ▸ hw.symm
    have hframe₁' : w ≠ w₁ → ofWorkflow (c₁.body.exec (c₂.body.exec s).1).1 w =
        ofWorkflow (c₂.body.exec s).1 w :=
      fun hw => exec_frame hs₂ fun t ht => (h₁'.workflow ht).symm ▸ hw.symm
    have hframe₂' : w ≠ w₂ → ofWorkflow (c₂.body.exec (c₁.body.exec s).1).1 w =
        ofWorkflow (c₁.body.exec s).1 w :=
      fun hw => exec_frame hs₁ fun t ht => (h₂'.workflow ht).symm ▸ hw.symm
    by_cases hw₁ : w = w₁
    · subst hw₁
      rw [hframe₂' hne, (exec_after hs hne.symm h₂ h₁).2]
    · by_cases hw₂ : w = w₂
      · subst hw₂
        rw [hframe₁' hw₁, (exec_after hs hne h₁ h₂).2]
      · rw [hframe₂' hw₂, hframe₁ hw₁, hframe₁' hw₁, hframe₂ hw₂]

end Commute

/-! ### Many workflows -/

/-- Something that happened to the store, and what came of it. -/
inductive Performed where
  | created (workflow : WorkflowExecution)
  | called (call : Call) (result : Except String CallResult)

/-- Executions are created from valid definitions and calls are made, one after the other. -/
inductive Performs : ExecutionStore → List Performed → ExecutionStore → Prop
  | nil (s : ExecutionStore) : Performs s [] s
  | create {s s₁ s' : ExecutionStore} {draws : Draws} {now : Datetime} {wd : WorkflowDefinition}
      {workflow : WorkflowExecution} {roots : List UUID} {log : List Performed} (hvalid : wd.Valid)
      (hcompile : WorkflowStartService.createWorkflowExecution draws now wd = .ok (workflow, roots))
      (hcreate : create s workflow = some s₁) (h : Performs s₁ log s') :
      Performs s (.created workflow :: log) s'
  | call {s s' : ExecutionStore} {log : List Performed} (call : Call)
      (h : Performs (call.body.exec s).1 log s') :
      Performs s (.called call (call.body.exec s).2 :: log) s'

/-- It happened to the workflow or to one of its tasks. -/
def concerns (s : ExecutionStore) (workflowId : UUID) : Performed → Bool
  | .created workflow => workflow.id == workflowId
  | .called call _ =>
      (taskRow s call.taskExecutionId).any fun t => t.workflowExecutionId == workflowId

section Performs

variable {s s' : ExecutionStore} {log : List Performed} {workflowId : UUID}

open WorkflowStartService

/-- A task stays a task of its workflow. -/
theorem Performs.taskOf (h : Performs s log s') (hs : Coherent s) {i : UUID}
    (hi : TaskOf s workflowId i) : TaskOf s' workflowId i := by
  induction h with
  | nil => exact hi
  | @create s s₁ _ draws now wd _ _ _ hvalid hcompile hcreate _ ih =>
      obtain ⟨rfl, rfl⟩ := compiled_of_create hvalid.linked hcompile
      have hcreated := created_of_insert hvalid hcreate
      obtain ⟨t, ht, hw⟩ := hi
      exact ih (hs.created hcreated) ⟨t, hcreated.old i t ht, hw⟩
  | call call _ ih =>
      obtain ⟨s₁, r, hexec, halone⟩ := alone_exec hs call
      rw [hexec] at ih
      obtain ⟨t, ht, hw⟩ := hi
      obtain ⟨t', ht', hmove⟩ := (halone.move hs).task i t ht
      exact ih (halone.coherent hs) ⟨t', ht', hmove.same.workflowExecutionId.trans hw⟩

/-- All rows of a new execution are its own. -/
theorem owner_compiled {draws : Draws} {now : Datetime} {wd : WorkflowDefinition} {r : Sigma Row}
    (hr : r ∈ WorkflowExecutionMapper.workflowToRows (compiled draws now wd)) :
    owner r.1 r.2 = (compiled draws now wd).id := by
  obtain ⟨k, v⟩ := r
  cases k with
  | workflow i => exact (mem_compiled_workflow.mp hr).1
  | task i =>
      obtain ⟨d, -, -, rfl⟩ := mem_compiled_task.mp hr
      rfl

/-- **A run of many workflows is, for each of them, a run of that one alone.** -/
theorem Performs.ofWorkflow (h : Performs s log s') (hs : Coherent s) (workflowId : UUID) :
    Performs (ofWorkflow s workflowId) (log.filter (concerns s' workflowId))
      (AutomationPlatform.ofWorkflow s' workflowId) := by
  induction h with
  | nil => exact .nil _
  | @create s s₁ s' draws now wd workflow _ log hvalid hcompile hcreate _ ih =>
      obtain ⟨rfl, rfl⟩ := compiled_of_create hvalid.linked hcompile
      have hrest := ih (hs.created (created_of_insert hvalid hcreate))
      by_cases hw : (compiled draws now wd).id = workflowId
      · have hconcerns : concerns s' workflowId (.created (compiled draws now wd)) = true := by
          simp [concerns, hw]
        rw [List.filter_cons_of_pos hconcerns]
        refine .create hvalid hcompile ?_ hrest
        refine Sql.Store.insert?_deleteWhere_keep hcreate fun r hr => ?_
        simp [belongsTo, owner_compiled hr, hw]
      · have hconcerns : ¬ concerns s' workflowId (.created (compiled draws now wd)) = true := by
          simp [concerns, hw]
        rw [List.filter_cons_of_neg hconcerns]
        have hsame : AutomationPlatform.ofWorkflow s₁ workflowId =
            AutomationPlatform.ofWorkflow s workflowId := by
          refine Sql.Store.deleteWhere_insert?_drop hcreate fun r hr => ?_
          simp [belongsTo, owner_compiled hr, hw]
        rw [← hsame]
        exact hrest
  | @call s s' log call hrun ih =>
      have hrest := ih (exec_coherent hs call)
      have hconcerns : ∀ t, taskRow s call.taskExecutionId = some t →
          concerns s' workflowId (.called call (call.body.exec s).2) =
            (t.workflowExecutionId == workflowId) := by
        intro t ht
        obtain ⟨t', ht', hw⟩ := Performs.taskOf (.call call hrun) hs ⟨t, ht, rfl⟩
        simp [concerns, ht', hw]
      cases hc : concerns s' workflowId (.called call (call.body.exec s).2) with
      | true =>
          rw [List.filter_cons_of_pos hc]
          have hexec := exec_ofWorkflow hs fun t ht => by
            rw [hconcerns t ht, beq_iff_eq] at hc
            exact hc
          have hcall := Performs.call (s := AutomationPlatform.ofWorkflow s workflowId) call
            (by rw [hexec]; exact hrest)
          rw [hexec] at hcall
          exact hcall
      | false =>
          rw [List.filter_cons_of_neg (by rw [hc]; simp), ← exec_frame hs fun t ht => by
            rw [hconcerns t ht, beq_eq_false_iff_ne] at hc
            exact hc]
          exact hrest

end Performs

/-! ### Isolation -/

/-- The workflow executions of a store are isolated from each other. -/
structure Isolated (s : ExecutionStore) : Prop where
  /-- A call on a task changes and adds no row of anything but its workflow. -/
  frame : ∀ (call : Call) workflowId, TaskOf s workflowId call.taskExecutionId →
    ∀ k, (∀ v, s.row k = some v → belongsTo workflowId k v = false) →
      (call.body.exec s).1.row k = s.row k
  /-- What it returns as runnable are tasks of the workflow. -/
  runnable : ∀ (call : Call) workflowId result, TaskOf s workflowId call.taskExecutionId →
    (call.body.exec s).2 = .ok (.completed result) →
      ∀ i ∈ result.runnableTaskExecutionIds, TaskOf s workflowId i
  /-- Calls on two workflows may be made in either order: the store they lead to is the same,
  and each of them returns the same. -/
  commute : ∀ (c₁ c₂ : Call) w₁ w₂, w₁ ≠ w₂ → TaskOf s w₁ c₁.taskExecutionId →
    TaskOf s w₂ c₂.taskExecutionId →
      (c₂.body.exec (c₁.body.exec s).1).1 = (c₁.body.exec (c₂.body.exec s).1).1 ∧
      (c₁.body.exec (c₂.body.exec s).1).2 = (c₁.body.exec s).2 ∧
      (c₂.body.exec (c₁.body.exec s).1).2 = (c₂.body.exec s).2
  /-- What is done to many workflows is done to each of them alone, with the same results. -/
  alone : ∀ log s' workflowId, Performs s log s' →
    Performs (ofWorkflow s workflowId) (log.filter (concerns s' workflowId))
      (ofWorkflow s' workflowId)

/-- **Workflow executions are isolated.**  A call touches and returns tasks of one workflow only,
calls on different workflows commute, and a run of many workflows restricts to runs of each. -/
theorem isolated {db : ExecutionDb} (h : ReachableDb db) : Isolated db.store := by
  have hs := reachable_coherent h
  refine ⟨?_, ?_, ?_, ?_⟩
  · intro call workflowId hw k hk
    obtain ⟨s', r, hexec, halone⟩ := alone_exec hs call
    rw [hexec]
    exact halone.row_frame hs hw hk
  · intro call workflowId result hw hresult i hi
    obtain ⟨s', r, hexec, halone⟩ := alone_exec hs call
    rw [hexec] at hresult
    simp only at hresult
    subst hresult
    cases halone with
    | completeMissed => simp at hi
    | completeDone hrow _ =>
        obtain ⟨u, hu, hwu, -⟩ := hs.children _ _ hrow i (List.mem_of_mem_filter hi)
        exact ⟨u, hu, hwu.trans (hw.workflow hrow)⟩
  · intro c₁ c₂ w₁ w₂ hne h₁ h₂
    exact ⟨exec_commute hs hne h₁ h₂, (exec_after hs hne.symm h₂ h₁).1, (exec_after hs hne h₁ h₂).1⟩
  · intro log s' workflowId hperforms
    exact hperforms.ofWorkflow hs workflowId

/-- The rows of a second execution of the sample. -/
def secondRows : List (Sigma Row) :=
  WorkflowExecutionMapper.workflowToRows (WorkflowStartService.compiled
    { workflowExecutionId := 1, taskExecutionId := (· + 10) } 0 sampleDefinition)

/-- Two executions of one definition, the first with its root task completed. -/
theorem isolated_sample :
    (TaskOf (dbAfter (sampleSteps ++ [.insert secondRows])).store 0 2 ∧
      TaskOf (dbAfter (sampleSteps ++ [.insert secondRows])).store 1 12) ∧
      Isolated (dbAfter (sampleSteps ++ [.insert secondRows])).store := by
  refine ⟨⟨⟨_, rfl, rfl⟩, ⟨_, rfl, rfl⟩⟩, isolated (reachable_dbAfter (fun rows h => ?_) rfl)⟩
  simp only [sampleSteps, List.mem_append, List.mem_cons, List.not_mem_nil, or_false,
    reduceCtorEq, Sql.Action.insert.injEq] at h
  rcases h with h | h
  · exact h ▸ sampleRows_compiled
  · exact h ▸ ⟨{ workflowExecutionId := 1, taskExecutionId := (· + 10) }, 0, sampleDefinition, _, _,
      sampleDefinition_valid,
      WorkflowStartService.createWorkflowExecution_eq _ _ sampleDefinition_valid.linked, rfl⟩

end AutomationPlatform
