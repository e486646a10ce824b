/-
What a client sees who asks for an execution again and again.

An answer is put together from two statements that see different moments, and so is the next
one.  What is between them is any run of the system.  Rows of executions are never deleted, and no
task is added to a workflow that is there already; so all answers list the same tasks, in whatever
order, and each of them has moved on or stayed.

`Later` is what a run leaves of the executions.
-/
import AutomationPlatform.Proofs.Executions.Inputs
import AutomationPlatform.Proofs.Executions.Queries
import AutomationPlatform.Proofs.System.Fidelity
import AutomationPlatform.Proofs.System.Statements
import AutomationPlatform.Runtime.Api

namespace AutomationPlatform

open WorkflowExecutionRepository

/-! ### What a run leaves of the executions -/

/-- The second store is the first one at a later time. -/
structure Later (s s' : ExecutionStore) : Prop where
  le : s.Le executionEvolution s'
  tasks : ∀ i t', taskRow s' i = some t' →
    (taskRow s i).isSome = true ∨ workflowRow s t'.workflowExecutionId = none

section Later

variable {s s' s'' : ExecutionStore}

theorem Later.refl (s : ExecutionStore) : Later s s :=
  ⟨Sql.Store.Le.refl _ s, fun _ _ h => Or.inl (Option.isSome_of_eq_some h)⟩

theorem Later.workflow_none (h : Later s s') {id : UUID} (hid : workflowRow s' id = none) :
    workflowRow s id = none :=
  Sql.Store.Le.none h.le (k := .workflow id) hid

theorem Later.trans (h : Later s s') (h' : Later s' s'') : Later s s'' where
  le := Sql.Store.Le.trans h.le h'.le
  tasks := by
    intro i t'' hi
    rcases h'.tasks i t'' hi with hsome | hnone
    · obtain ⟨t', ht'⟩ := Option.isSome_iff_exists.mp hsome
      obtain ⟨u, hu, hev⟩ := taskRow_le h'.le ht'
      obtain rfl := Option.some.inj (hi.symm.trans hu)
      rw [hev.same.workflowExecutionId]
      exact h.tasks i t' ht'
    · exact Or.inr (h.workflow_none hnone)

theorem Later.of_insert {draws : Draws} {now : Datetime} {wd : WorkflowDefinition}
    (hvalid : wd.Valid) (h : s.insert? (WorkflowExecutionMapper.workflowToRows
      (WorkflowStartService.compiled draws now wd)) = some s') : Later s s' where
  le := Sql.Store.le_insert? h
  tasks := by
    intro i t' hi
    have hcreated := created_of_insert hvalid h
    by_cases hold : (taskRow s i).isSome = true
    · exact Or.inl hold
    · right
      rw [(hcreated.new i t' hi (Option.not_isSome_iff_eq_none.mp hold)).workflowExecutionId]
      exact hcreated.fresh

end Later

/-- The stored executions. -/
abbrev System.executions (x : System) : ExecutionStore := x.platform.db.store

namespace System

variable {leaseTimeout : Timedelta} {x x' y : System} {allowed : SystemAction → Prop}

theorem Sound.later_of_moves (hx : x.Sound leaseTimeout) (h : x.Moves leaseTimeout x') :
    Later x.executions x'.executions := by
  cases h with
  | none => exact .refl _
  | created draws now request r hnew hcreate => exact .refl _
  | deleted id db hdelete => exact .refl _
  | started publisher draws now definitions id wd platform hdefinitions hload _ hstart =>
      have hvalid := (hx.definitions.started hdefinitions).valid hload
      exact .of_insert hvalid (Platform.start_cases hvalid.linked hstart).1
  | ran action platform hother _ hrun =>
      have hevolved := hx.platform.evolved hother hrun
      exact ⟨hevolved.le, fun i _ hi =>
        Or.inl (hevolved.rows (.task i) (Option.isSome_of_eq_some hi))⟩

theorem Meanwhile.later (h : x.Meanwhile leaseTimeout allowed y) (hx : x.Reachable leaseTimeout) :
    Later x.executions y.executions := by
  induction h with
  | refl => exact .refl _
  | step h action hvalid _ hs ih =>
      exact ih.trans ((h.reachable hx).sound.later_of_moves (moves_of_step hvalid hs))

end System

/-! ### The tasks of an execution -/

theorem mem_taskModels {s : ExecutionStore} {id i : UUID} {t : TaskExecutionModel} :
    (i, t) ∈ taskModels s id ↔ taskRow s i = some t ∧ t.workflowExecutionId = id := by
  unfold taskModels
  rw [List.mem_filter, mem_taskTable, beq_iff_eq]

theorem taskModels_nodup (s : ExecutionStore) (id : UUID) :
    ((taskModels s id).map (·.1)).Nodup :=
  (List.filter_sublist.map _).nodup (taskTable_nodup s)

section Tasks

variable {s s' : ExecutionStore} {id i : UUID}

/-- A task of a workflow is a task of it later. -/
theorem Later.task (h : Later s s') {t : TaskExecutionModel} (ht : (i, t) ∈ taskModels s id) :
    ∃ t', (i, t') ∈ taskModels s' id ∧ TaskEvolves t t' := by
  obtain ⟨hi, hwf⟩ := mem_taskModels.mp ht
  obtain ⟨t', hi', hev⟩ := taskRow_le h.le hi
  exact ⟨t', mem_taskModels.mpr ⟨hi', hev.same.workflowExecutionId.trans hwf⟩, hev⟩

/-- And it has been one before, if the workflow was there. -/
theorem Later.task_before (h : Later s s') (hid : (workflowRow s id).isSome = true)
    {t' : TaskExecutionModel} (ht' : (i, t') ∈ taskModels s' id) :
    ∃ t, (i, t) ∈ taskModels s id ∧ TaskEvolves t t' := by
  obtain ⟨hi', hwf⟩ := mem_taskModels.mp ht'
  rcases h.tasks i t' hi' with hold | hnone
  · obtain ⟨t, hi⟩ := Option.isSome_iff_exists.mp hold
    obtain ⟨u, hu, hev⟩ := taskRow_le h.le hi
    obtain rfl := Option.some.inj (hi'.symm.trans hu)
    exact ⟨t, mem_taskModels.mpr ⟨hi, hev.same.workflowExecutionId.symm.trans hwf⟩, hev⟩
  · rw [hwf] at hnone
    rw [hnone] at hid
    simp at hid

theorem Later.ids_perm (h : Later s s') (hid : (workflowRow s id).isSome = true) :
    ((taskModels s' id).map (·.1)).Perm ((taskModels s id).map (·.1)) := by
  refine (List.perm_ext_iff_of_nodup (taskModels_nodup s' id) (taskModels_nodup s id)).mpr fun i => ?_
  simp only [List.mem_map, Prod.exists, exists_and_right, exists_eq_right]
  constructor
  · rintro ⟨t', ht'⟩
    obtain ⟨t, ht, -⟩ := h.task_before hid ht'
    exact ⟨t, ht⟩
  · rintro ⟨t, ht⟩
    obtain ⟨t', ht', -⟩ := h.task ht
    exact ⟨t', ht'⟩

end Tasks

/-! ### Answers -/

theorem TaskStatus.name_inj {a b : TaskStatus} (h : a.name = b.name) : a = b := by
  cases a <;> cases b <;> first | rfl | simp [name] at h

theorem WorkflowStatus.name_inj {a b : WorkflowStatus} (h : a.name = b.name) : a = b := by
  cases a <;> cases b <;> first | rfl | simp [name] at h

/-- What is answered of a task. -/
def taskAnswer (e : UUID × TaskExecutionModel) : TaskExecutionResponse :=
  .fromDomain (WorkflowExecutionMapper.taskToDomain e.1 e.2)

/-- What is answered of a workflow with these tasks. -/
def answerOf (id : UUID) (w : WorkflowExecutionModel) (tasks : List (UUID × TaskExecutionModel)) :
    GetWorkflowExecutionResponse :=
  .fromDomain (WorkflowExecutionMapper.workflowToDomain id w
    (tasks.map fun e => WorkflowExecutionMapper.taskToDomain e.1 e.2))

theorem taskExecutions_answerOf (id : UUID) (w : WorkflowExecutionModel)
    (tasks : List (UUID × TaskExecutionModel)) :
    (answerOf id w tasks).taskExecutions = tasks.map taskAnswer := by
  simp [answerOf, GetWorkflowExecutionResponse.fromDomain,
    WorkflowExecutionMapper.workflowToDomain, taskAnswer]

theorem getWorkflowExecution_eq (order : Sql.RowOrder (UUID × TaskExecutionModel))
    (s₁ s₂ : ExecutionStore) (id : UUID) :
    getWorkflowExecution order s₁ s₂ id =
      match workflowRow s₁ id with
      | none => handleWorkflowExecutionNotFound
          ("Workflow execution " ++ toString id ++ " does not exist.")
      | some w =>
          { statusCode := 200
            content := .getWorkflowExecution (answerOf id w (order.list (taskModels s₂ id))) } := by
  unfold getWorkflowExecution
  rw [reads_get]
  cases workflowRow s₁ id <;> rfl

/-- A workflow that is found has a row, and the answer is put together from it. -/
theorem getWorkflowExecution_ok {order : Sql.RowOrder (UUID × TaskExecutionModel)}
    {s₁ s₂ : ExecutionStore} {id : UUID} {r : GetWorkflowExecutionResponse}
    (h : getWorkflowExecution order s₁ s₂ id =
      { statusCode := 200, content := .getWorkflowExecution r }) :
    ∃ w, workflowRow s₁ id = some w ∧ r = answerOf id w (order.list (taskModels s₂ id)) := by
  rw [getWorkflowExecution_eq] at h
  split at h
  · simp [handleWorkflowExecutionNotFound] at h
  · rename_i w hw
    simp only [Response.mk.injEq, Content.getWorkflowExecution.injEq, true_and] at h
    exact ⟨w, hw, h.symm⟩

/-- A later answer about a task. -/
structure TaskExecutionResponse.Follows (r r' : TaskExecutionResponse) : Prop where
  id : r'.id = r.id
  taskDefinitionId : r'.taskDefinitionId = r.taskDefinitionId
  key : r'.key = r.key
  pluginType : r'.pluginType = r.pluginType
  pending : r'.status = "PENDING" → r.status = "PENDING"
  final : r.status ≠ "PENDING" → r.status ≠ "RUNNING" → r' = r

/-- A later answer about a workflow.  The tasks are told apart by their identifiers. -/
structure GetWorkflowExecutionResponse.Follows (r r' : GetWorkflowExecutionResponse) : Prop where
  id : r'.id = r.id
  workflowDefinitionId : r'.workflowDefinitionId = r.workflowDefinitionId
  nodup : (r.taskExecutions.map (·.id)).Nodup
  ids : (r'.taskExecutions.map (·.id)).Perm (r.taskExecutions.map (·.id))
  tasks : ∀ t ∈ r.taskExecutions, ∀ t' ∈ r'.taskExecutions, t'.id = t.id → t.Follows t'
  final : r.status ≠ "RUNNING" → r'.taskExecutions.Perm r.taskExecutions ∧
    r' = { r with taskExecutions := r'.taskExecutions }

/-- Every end an answer tells of is the workflow's. -/
structure GetWorkflowExecutionResponse.Truthful (r : GetWorkflowExecutionResponse) : Prop where
  completed : r.status = "COMPLETED" → ∀ t ∈ r.taskExecutions, t.status = "COMPLETED"
  failed : r.status = "FAILED" → ∃ t ∈ r.taskExecutions, t.status = "FAILED"
  settled : r.status ≠ "RUNNING" →
    ∀ t ∈ r.taskExecutions, t.status ≠ "PENDING" ∧ t.status ≠ "RUNNING"

theorem TaskEvolves.follows {i : UUID} {t t' : TaskExecutionModel} (hev : TaskEvolves t t') :
    (taskAnswer (i, t)).Follows (taskAnswer (i, t')) := by
  refine ⟨rfl, hev.same.taskDefinitionId, hev.same.key, hev.same.pluginType, fun hp => ?_, ?_⟩
  · have hpending : t'.status = .pending := TaskStatus.name_inj hp
    exact congrArg TaskStatus.name (hev.pending hpending).1
  · intro hpending hrunning
    have hterminal : t.status.isTerminal = true := by
      rcases t.status.cases with hs | hs | hs
      · exact absurd (congrArg TaskStatus.name hs) hpending
      · exact absurd (congrArg TaskStatus.name hs) hrunning
      · exact hs
    rw [hev.terminal hterminal]

section Answer

variable {s₁ s₂ : ExecutionStore} {id : UUID} {w : WorkflowExecutionModel}
  {tasks : List (UUID × TaskExecutionModel)}

/-- A workflow that was over at the first read has only tasks that are over at the second. -/
theorem Later.settled (h : Later s₁ s₂) (hs₂ : Coherent s₂) (hw : workflowRow s₁ id = some w)
    (hover : w.status ≠ .running) : workflowRow s₂ id = some w ∧
      ∀ e ∈ taskModels s₂ id, w.status.Admits e.2.status ∧ e.2.status.isTerminal = true := by
  obtain ⟨w', hw', hev⟩ := workflowRow_le h.le hw
  obtain rfl := hev.terminal hover
  refine ⟨hw', fun e he => ?_⟩
  obtain ⟨i, t⟩ := e
  obtain ⟨hi, rfl⟩ := mem_taskModels.mp he
  have hadmits := hs₂.admits i t w' hi hw'
  refine ⟨hadmits, ?_⟩
  cases hstatus : w'.status with
  | running => exact absurd hstatus hover
  | completed =>
      rw [hstatus] at hadmits
      rw [show t.status = .completed from hadmits]
      rfl
  | failed =>
      rw [hstatus] at hadmits
      exact hadmits
  | cancelled =>
      rw [hstatus] at hadmits
      exact absurd hadmits id

/-- What an answer tells of the end of a workflow is so. -/
theorem Later.truthful (h : Later s₁ s₂) (hs₂ : Coherent s₂) (hw : workflowRow s₁ id = some w)
    (htasks : tasks.Perm (taskModels s₂ id)) : (answerOf id w tasks).Truthful := by
  constructor
  · intro hcompleted t ht
    have hstatus : w.status = .completed := WorkflowStatus.name_inj hcompleted
    rw [taskExecutions_answerOf] at ht
    obtain ⟨e, he, rfl⟩ := List.mem_map.mp ht
    obtain ⟨-, hall⟩ := h.settled hs₂ hw (by rw [hstatus]; simp)
    have hadmits := (hall e (htasks.mem_iff.mp he)).1
    rw [hstatus] at hadmits
    exact congrArg TaskStatus.name hadmits
  · intro hfailed
    have hstatus : w.status = .failed := WorkflowStatus.name_inj hfailed
    obtain ⟨hw₂, -⟩ := h.settled hs₂ hw (by rw [hstatus]; simp)
    obtain ⟨j, t, hj, hwf, ht⟩ := (hs₂.failureCoherent.failed_iff id w hw₂).mp hstatus
    rw [taskExecutions_answerOf]
    have hmem : (j, t) ∈ tasks := htasks.mem_iff.mpr (mem_taskModels.mpr ⟨hj, hwf⟩)
    exact ⟨_, List.mem_map_of_mem hmem, congrArg TaskStatus.name ht⟩
  · intro hover t ht
    have hstatus : w.status ≠ .running := fun hs => hover (congrArg WorkflowStatus.name hs)
    rw [taskExecutions_answerOf] at ht
    obtain ⟨e, he, rfl⟩ := List.mem_map.mp ht
    obtain ⟨-, hall⟩ := h.settled hs₂ hw hstatus
    have hterminal := (hall e (htasks.mem_iff.mp he)).2
    constructor
    · intro hs
      rw [show e.2.status = .pending from TaskStatus.name_inj hs] at hterminal
      simp [TaskStatus.isTerminal] at hterminal
    · intro hs
      rw [show e.2.status = .running from TaskStatus.name_inj hs] at hterminal
      simp [TaskStatus.isTerminal] at hterminal

/-- Nothing of a workflow that is over changes. -/
theorem Later.taskModels_perm {t₂ : ExecutionStore} (h : Later s₁ s₂) (h' : Later s₂ t₂)
    (hs₂ : Coherent s₂) (hw : workflowRow s₁ id = some w) (hover : w.status ≠ .running) :
    (taskModels t₂ id).Perm (taskModels s₂ id) := by
  obtain ⟨hw₂, hall⟩ := h.settled hs₂ hw hover
  have hnodup := fun s => (taskModels_nodup s id).of_map
  refine (List.perm_ext_iff_of_nodup (hnodup t₂) (hnodup s₂)).mpr fun ⟨i, t⟩ => ⟨fun ht => ?_, ?_⟩
  · obtain ⟨u, hu, hev⟩ := h'.task_before (Option.isSome_of_eq_some hw₂) ht
    rw [hev.terminal (hall _ hu).2]
    exact hu
  · intro ht
    obtain ⟨u, hu, hev⟩ := h'.task ht
    rw [← hev.terminal (hall _ ht).2]
    exact hu

/-- The next answer follows the one before. -/
theorem Later.follows {t₁ t₂ : ExecutionStore} {w' : WorkflowExecutionModel}
    {tasks' : List (UUID × TaskExecutionModel)} (h : Later s₁ s₂) (h' : Later s₂ t₁)
    (h'' : Later t₁ t₂) (hs₂ : Coherent s₂) (hw : workflowRow s₁ id = some w)
    (hw' : workflowRow t₁ id = some w') (htasks : tasks.Perm (taskModels s₂ id))
    (htasks' : tasks'.Perm (taskModels t₂ id)) :
    (answerOf id w tasks).Follows (answerOf id w' tasks') := by
  obtain ⟨v, hv, hev⟩ := workflowRow_le (h.trans h').le hw
  obtain rfl : v = w' := Option.some.inj (hv.symm.trans hw')
  obtain ⟨w₂, hw₂, -⟩ := workflowRow_le h.le hw
  have hlater := h'.trans h''
  have hids : ∀ l : List (UUID × TaskExecutionModel),
      (l.map taskAnswer).map (·.id) = l.map (·.1) := fun l => by
    rw [List.map_map]
    rfl
  refine ⟨rfl, hev.workflowDefinitionId, ?_, ?_, ?_, fun hover => ?_⟩
  · rw [taskExecutions_answerOf, hids]
    exact (htasks.map _).nodup_iff.mpr (taskModels_nodup s₂ id)
  · rw [taskExecutions_answerOf, taskExecutions_answerOf, hids, hids]
    exact ((htasks'.map _).trans (hlater.ids_perm (Option.isSome_of_eq_some hw₂))).trans
      (htasks.map _).symm
  · rw [taskExecutions_answerOf, taskExecutions_answerOf]
    intro r hr r' hr' hid
    obtain ⟨⟨i, t⟩, ht, rfl⟩ := List.mem_map.mp hr
    obtain ⟨⟨j, t'⟩, ht', rfl⟩ := List.mem_map.mp hr'
    obtain rfl : j = i := hid
    obtain ⟨u, hu, hevolves⟩ := hlater.task (htasks.mem_iff.mp ht)
    obtain rfl : t' = u := Option.some.inj
      ((mem_taskModels.mp (htasks'.mem_iff.mp ht')).1.symm.trans (mem_taskModels.mp hu).1)
    exact hevolves.follows
  · have hstatus : w.status ≠ .running := fun hs => hover (congrArg WorkflowStatus.name hs)
    obtain rfl := hev.terminal hstatus
    refine ⟨?_, rfl⟩
    rw [taskExecutions_answerOf, taskExecutions_answerOf]
    exact ((htasks'.trans (h.taskModels_perm hlater hs₂ hw hstatus)).trans htasks.symm).map _

end Answer

/-- The tasks that are listed are those of the definition. -/
theorem ExecutionOf.listed {wd : WorkflowDefinition} {s : ExecutionStore} {id : UUID}
    (h : ExecutionOf wd s id) (hvalid : wd.Valid) (w : WorkflowExecutionModel)
    {tasks : List (UUID × TaskExecutionModel)} (htasks : tasks.Perm (taskModels s id)) :
    ((answerOf id w tasks).taskExecutions.map fun t =>
        (t.taskDefinitionId, t.key, t.pluginType)).Perm
      (wd.taskDefinitions.map fun d => (d.id, d.key, d.pluginType)) := by
  rw [taskExecutions_answerOf, List.map_map]
  refine (htasks.map _).trans ?_
  have hleft : ((taskModels s id).map ((fun t : TaskExecutionResponse =>
      (t.taskDefinitionId, t.key, t.pluginType)) ∘ taskAnswer)).Nodup := by
    refine (List.nodup_map_iff_inj_on (taskModels_nodup s id).of_map).mpr ?_
    rintro ⟨i, t⟩ hi ⟨j, u⟩ hj heq
    obtain ⟨hi, hti⟩ := mem_taskModels.mp hi
    obtain ⟨hj, huj⟩ := mem_taskModels.mp hj
    obtain rfl := h.once i j t u hi hj hti huj (congrArg Prod.fst heq)
    rw [Option.some.inj (hi.symm.trans hj)]
  have hright : (wd.taskDefinitions.map fun d => (d.id, d.key, d.pluginType)).Nodup := by
    refine List.Nodup.of_map Prod.fst ?_
    rw [List.map_map]
    exact hvalid.ids
  refine (List.perm_ext_iff_of_nodup hleft hright).mpr fun p => ?_
  rw [List.mem_map, List.mem_map]
  constructor
  · rintro ⟨⟨i, t⟩, he, rfl⟩
    obtain ⟨hi, hti⟩ := mem_taskModels.mp he
    obtain ⟨d, hd, hid, hkey, htype, -⟩ := h.tasks i t hi hti
    exact ⟨d, hd, Prod.ext hid (Prod.ext hkey.symm htype.symm)⟩
  · rintro ⟨d, hd, rfl⟩
    obtain ⟨i, t, hi, hti, htd⟩ := h.complete d hd
    obtain ⟨d', hd', hid, hkey, htype, -⟩ := h.tasks i t hi hti
    obtain rfl := List.inj_on_of_nodup_map hvalid.ids hd' hd (hid.trans htd)
    exact ⟨(i, t), mem_taskModels.mpr ⟨hi, hti⟩, Prod.ext htd (Prod.ext hkey htype)⟩

/--
**Answers never go back.**  Whoever has been told of an execution is told of it ever after, with
the same tasks, which are those of its definition, in whatever order.  A task that has started is
never pending again, what is over is final, and so is an answer that tells of an end; and an end
that is told of is not contradicted by the tasks beside it, although they have been read at another
time.
-/
theorem answers_never_go_back {leaseTimeout : Timedelta} {x₁ x₂ y₁ y₂ : System}
    (h : x₁.Reachable leaseTimeout) (h₂ : x₁.Meanwhile leaseTimeout (fun _ => True) x₂)
    (h₃ : x₂.Meanwhile leaseTimeout (fun _ => True) y₁)
    (h₄ : y₁.Meanwhile leaseTimeout (fun _ => True) y₂)
    {order : Sql.RowOrder (UUID × TaskExecutionModel)} {id : UUID}
    {r : GetWorkflowExecutionResponse}
    (hr : getWorkflowExecution order x₁.executions x₂.executions id =
      { statusCode := 200, content := .getWorkflowExecution r }) :
    (∀ order', ∃ r', getWorkflowExecution order' y₁.executions y₂.executions id =
        { statusCode := 200, content := .getWorkflowExecution r' } ∧ r.Follows r') ∧
      r.Truthful ∧
      ∃ wd, WorkflowDefinitionRepository.load x₂.definitions r.workflowDefinitionId = some wd ∧
        (r.taskExecutions.map fun t => (t.taskDefinitionId, t.key, t.pluginType)).Perm
          (wd.taskDefinitions.map fun d => (d.id, d.key, d.pluginType)) := by
  obtain ⟨w, hw, rfl⟩ := getWorkflowExecution_ok hr
  have hx₂ := h₂.reachable h
  have hy₁ := h₃.reachable hx₂
  have hlater₂ := h₂.later h
  have hlater₃ := h₃.later hx₂
  have hcoherent := reachable_coherent hx₂.sound.platform.sound.db
  obtain ⟨w₂, hw₂, hev₂⟩ := workflowRow_le hlater₂.le hw
  obtain ⟨w', hw', -⟩ := workflowRow_le hlater₃.le hw₂
  refine ⟨fun order' => ⟨_, ?_, hlater₂.follows hlater₃ (h₄.later hy₁) hcoherent hw hw'
    (order.perm _) (order'.perm _)⟩, hlater₂.truthful hcoherent hw (order.perm _), ?_⟩
  · rw [getWorkflowExecution_eq, hw']
  · obtain ⟨wd, hload, hof⟩ := hx₂.executionOf hw₂
    rw [hev₂.workflowDefinitionId] at hload
    exact ⟨wd, hload, hof.listed (hx₂.sound.definitions.valid hload) w (order.perm _)⟩

theorem SystemAction.valid_of_creates {action : SystemAction} (h : action.creates = false)
    (x : System) : action.Valid x := by
  cases action with
  | create draws now request => simp [creates] at h
  | _ => trivial

/-- The sample is asked for while its first task is in its plugin, and again at its end. -/
theorem answers_never_go_back_sample :
    ∃ y r, (sampleSystem 9).steps 100 (sampleSystemSteps.drop 9) = some y ∧
      getWorkflowExecution .stored (sampleSystem 9).executions (sampleSystem 9).executions 1 =
        { statusCode := 200, content := .getWorkflowExecution r } ∧
      r.taskExecutions.map (·.status) = ["RUNNING", "PENDING"] ∧
      (∀ order, ∃ r', getWorkflowExecution order y.executions y.executions 1 =
        { statusCode := 200, content := .getWorkflowExecution r' } ∧ r.Follows r') ∧
      r.Truthful ∧
      ∃ wd, WorkflowDefinitionRepository.load (sampleSystem 9).definitions
          r.workflowDefinitionId = some wd ∧
        (r.taskExecutions.map fun t => (t.taskDefinitionId, t.key, t.pluginType)).Perm
          (wd.taskDefinitions.map fun d => (d.id, d.key, d.pluginType)) := by
  have hsteps : ((sampleSystem 9).steps 100 (sampleSystemSteps.drop 9)).isSome = true := by
    decide +kernel
  have hrow : (workflowRow (sampleSystem 9).executions 1).isSome = true := by decide +kernel
  have hstatus : ((taskModels (sampleSystem 9).executions 1).map taskAnswer).map (·.status) =
      ["RUNNING", "PENDING"] := by
    decide +kernel
  have hcreates : ∀ a ∈ sampleSystemSteps.drop 9, True ∧ ∀ z, a.Valid z := by
    intro a ha
    have hnot := List.all_eq_true.mp (by decide : ((sampleSystemSteps.drop 9).all
      fun a => !a.creates) = true) a ha
    exact ⟨trivial, SystemAction.valid_of_creates (by simpa using hnot)⟩
  obtain ⟨y, hy⟩ := Option.isSome_iff_exists.mp hsteps
  obtain ⟨w, hw⟩ := Option.isSome_iff_exists.mp hrow
  have hr : getWorkflowExecution .stored (sampleSystem 9).executions (sampleSystem 9).executions 1 =
      { statusCode := 200
        content := .getWorkflowExecution
          (answerOf 1 w (taskModels (sampleSystem 9).executions 1)) } := by
    rw [getWorkflowExecution_eq, hw]
    rfl
  refine ⟨y, _, hy, hr, ?_, ?_⟩
  · rw [taskExecutions_answerOf]
    exact hstatus
  · exact answers_never_go_back (sampleSystem_reachable 9) .refl (.of_steps hcreates hy) .refl hr

end AutomationPlatform
