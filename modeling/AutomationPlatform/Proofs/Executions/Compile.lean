/-
What a valid definition compiles to.

The compilation is written as loops over two lookup tables, each of which may raise
a `KeyError`.  On a definition whose dependencies are its own tasks none does, and the
result has a closed form: one task execution for each task definition, whose children are
the definitions that list it as a dependency.

What the rest of the development uses of an execution that has just been created
is collected in `Created`: it says nothing about definitions any more, only about
the rows.
-/
import AutomationPlatform.Application.WorkflowStart
import AutomationPlatform.Graph.Order
import AutomationPlatform.Proofs.Executions.Evolution
import Mathlib.Logic.Relation

namespace AutomationPlatform

/-! ### Valid definitions -/

/-- One task definition lists another as a dependency. -/
def WorkflowDefinition.DependsOn (wd : WorkflowDefinition) (child parent : UUID) : Prop :=
  ∃ d ∈ wd.taskDefinitions, d.id = child ∧ parent ∈ d.dependencies

/-- What the application's validation establishes of a definition it stores. -/
structure WorkflowDefinition.Valid (wd : WorkflowDefinition) : Prop where
  nonempty : wd.taskDefinitions ≠ []
  ids : (wd.taskDefinitions.map (·.id)).Nodup
  keys : (wd.taskDefinitions.map (·.key)).Nodup
  duplicates : ∀ d ∈ wd.taskDefinitions, d.dependencies.Nodup
  known : ∀ d ∈ wd.taskDefinitions, ∀ p ∈ d.dependencies, p ∈ wd.taskDefinitions.map (·.id)
  acyclic : ∀ i, ¬ Relation.TransGen wd.DependsOn i i
  maxTries : ∀ d ∈ wd.taskDefinitions, 1 ≤ d.maxTries

/-- What the compilation needs: its lookups find something. -/
structure WorkflowDefinition.Linked (wd : WorkflowDefinition) : Prop where
  ids : (wd.taskDefinitions.map (·.id)).Nodup
  duplicates : ∀ d ∈ wd.taskDefinitions, d.dependencies.Nodup
  known : ∀ d ∈ wd.taskDefinitions, ∀ p ∈ d.dependencies, p ∈ wd.taskDefinitions.map (·.id)

theorem WorkflowDefinition.Valid.linked {wd : WorkflowDefinition} (h : wd.Valid) : wd.Linked :=
  ⟨h.ids, h.duplicates, h.known⟩

/-- No task of a valid definition depends on itself. -/
theorem WorkflowDefinition.Valid.not_self {wd : WorkflowDefinition} (h : wd.Valid)
    {d : TaskDefinition} (hd : d ∈ wd.taskDefinitions) : d.id ∉ d.dependencies :=
  fun hself => h.acyclic d.id (.single ⟨d, hd, rfl, hself⟩)

/-- A rank that falls along every dependency rules cycles out. -/
theorem acyclic_of_rank {wd : WorkflowDefinition} (rank : UUID → Nat)
    (h : ∀ d ∈ wd.taskDefinitions, ∀ p ∈ d.dependencies, rank p < rank d.id) (i : UUID) :
    ¬ Relation.TransGen wd.DependsOn i i := by
  refine Graph.acyclic_of_rank rank (fun a b hab => ?_) i
  obtain ⟨d, hd, rfl, hp⟩ := hab
  exact h d hd b hp

/-! ### The lookup tables -/

/-- The table with a value for each of the identifiers. -/
def lookupOf {β : Type} (ids : List UUID) (f : UUID → β) : Lookup β :=
  fun id => if id ∈ ids then some (f id) else none

theorem get_lookupOf {β : Type} {ids : List UUID} (f : UUID → β) {id : UUID} (h : id ∈ ids) :
    (lookupOf ids f).get id = .ok (f id) := by
  simp [Lookup.get, lookupOf, h]

/-- Assigning to a key the table has keeps its keys. -/
theorem update_lookupOf {β : Type} {ids : List UUID} (f : UUID → β) {id : UUID} (h : id ∈ ids)
    (b : β) :
    Function.update (lookupOf ids f) id (some b) = lookupOf ids (Function.update f id b) := by
  funext j
  by_cases hj : j = id
  · subst hj; simp [lookupOf, h]
  · simp [lookupOf, Function.update_of_ne hj]

theorem mapM_lookupOf {β : Type} {ids : List UUID} (f : UUID → β) {keys : List UUID}
    (h : ∀ k ∈ keys, k ∈ ids) : keys.mapM (lookupOf ids f).get = .ok (keys.map f) := by
  induction keys with
  | nil => rfl
  | cons k rest ih =>
      rw [List.mapM_cons, get_lookupOf f (h k (by simp)), ih fun j hj => h j (by simp [hj])]
      rfl

/-- A `mapM` none of whose elements raises. -/
theorem mapM_ok {ε α β : Type} {f : α → Except ε β} {g : α → β} {l : List α}
    (h : ∀ a ∈ l, f a = .ok (g a)) : l.mapM f = .ok (l.map g) := by
  induction l with
  | nil => rfl
  | cons a rest ih =>
      rw [List.mapM_cons, h a (by simp), ih fun b hb => h b (by simp [hb])]
      rfl

namespace WorkflowStartService

/-- The children that the task definitions of a list contribute to one parent. -/
def childrenOf (draws : Draws) (taskDefinitions : List TaskDefinition) (parent : UUID) :
    List UUID :=
  (taskDefinitions.filter fun d => parent ∈ d.dependencies).map (draws.taskExecutionId ·.id)

/-- Appending one child to each of its parents, which are all in the table. -/
theorem appendChild_foldlM {ids : List UUID} (child : UUID) :
    ∀ {parents : List UUID} (f : UUID → List UUID), parents.Nodup → (∀ p ∈ parents, p ∈ ids) →
      parents.foldlM (appendChild child) (lookupOf ids f) =
        .ok (lookupOf ids fun p => f p ++ if p ∈ parents then [child] else []) := by
  intro parents
  induction parents with
  | nil => intro f _ _; simp [pure, Except.pure]
  | cons p rest ih =>
      intro f hnd hids
      obtain ⟨hp, hrest⟩ := List.nodup_cons.mp hnd
      have hstep : appendChild child (lookupOf ids f) p =
          .ok (lookupOf ids (Function.update f p (f p ++ [child]))) := by
        rw [← update_lookupOf f (hids p (by simp)), appendChild,
          get_lookupOf f (hids p (by simp))]
        rfl
      rw [List.foldlM_cons, hstep]
      refine (ih _ hrest fun q hq => hids q (by simp [hq])).trans ?_
      congr 2
      funext q
      by_cases hq : q = p
      · subst hq; simp [hp]
      · simp [hq]

variable {draws : Draws} {now : Datetime} {wd : WorkflowDefinition}

/-- The loop over the task definitions, from any table it may have reached. -/
theorem appendToParents_foldlM (hlinked : wd.Linked) :
    ∀ {tds : List TaskDefinition} (f : UUID → List UUID), (∀ d ∈ tds, d ∈ wd.taskDefinitions) →
      tds.foldlM (appendToParents (createTaskExecutionIds draws wd.taskDefinitions))
          (lookupOf (wd.taskDefinitions.map (·.id)) f) =
        .ok (lookupOf (wd.taskDefinitions.map (·.id)) fun p => f p ++ childrenOf draws tds p) := by
  intro tds
  induction tds with
  | nil => intro f _; simp [childrenOf, pure, Except.pure]
  | cons d rest ih =>
      intro f hmem
      have hd := hmem d (by simp)
      have hid : d.id ∈ wd.taskDefinitions.map (·.id) := List.mem_map_of_mem hd
      have hstep : appendToParents (createTaskExecutionIds draws wd.taskDefinitions)
          (lookupOf (wd.taskDefinitions.map (·.id)) f) d =
          .ok (lookupOf (wd.taskDefinitions.map (·.id)) fun p =>
            f p ++ if p ∈ d.dependencies then [draws.taskExecutionId d.id] else []) := by
        rw [← appendChild_foldlM _ f (hlinked.duplicates d hd) (hlinked.known d hd),
          appendToParents, show createTaskExecutionIds draws wd.taskDefinitions
            = lookupOf (wd.taskDefinitions.map (·.id)) draws.taskExecutionId from rfl,
          get_lookupOf _ hid]
        rfl
      rw [List.foldlM_cons, hstep]
      refine (ih _ fun e he => hmem e (by simp [he])).trans ?_
      congr 2
      funext p
      by_cases hp : p ∈ d.dependencies <;> simp [childrenOf, hp]

/-- The child table of a definition. -/
theorem createChildTaskLookup_eq (hlinked : wd.Linked) :
    createChildTaskLookup wd.taskDefinitions (createTaskExecutionIds draws wd.taskDefinitions) =
      .ok (lookupOf (wd.taskDefinitions.map (·.id)) (childrenOf draws wd.taskDefinitions)) := by
  have h := @appendToParents_foldlM draws wd hlinked wd.taskDefinitions (fun _ => []) fun d hd => hd
  exact h.trans (by simp)

/-- The task execution of one task definition, in closed form. -/
def compiledTask (draws : Draws) (wd : WorkflowDefinition) (d : TaskDefinition) :
    TaskExecution where
  id := draws.taskExecutionId d.id
  workflowExecutionId := draws.workflowExecutionId
  key := d.key
  pluginType := d.pluginType
  configuration := d.configuration
  taskDefinitionId := d.id
  status := .pending
  remainingDependencies := d.dependencies.length
  remainingTries := d.maxTries
  parentTaskIds := d.dependencies.map draws.taskExecutionId
  childTaskIds := childrenOf draws wd.taskDefinitions d.id

/-- The execution of a definition, in closed form. -/
def compiled (draws : Draws) (now : Datetime) (wd : WorkflowDefinition) : WorkflowExecution where
  id := draws.workflowExecutionId
  workflowDefinitionId := wd.id
  status := .running
  taskExecutions := wd.taskDefinitions.map (compiledTask draws wd)
  createdAt := now

/-- The root tasks of a definition, in closed form. -/
def rootsOf (draws : Draws) (wd : WorkflowDefinition) : List UUID :=
  (wd.taskDefinitions.filter fun d => d.dependencies.length == 0).map (draws.taskExecutionId ·.id)

/-- **A linked definition compiles**, and to this. -/
theorem createWorkflowExecution_eq (draws : Draws) (now : Datetime) (hlinked : wd.Linked) :
    createWorkflowExecution draws now wd = .ok (compiled draws now wd, rootsOf draws wd) := by
  have htasks : wd.taskDefinitions.mapM (createTaskExecution draws.workflowExecutionId
      (createTaskExecutionIds draws wd.taskDefinitions)
      (lookupOf (wd.taskDefinitions.map (·.id)) (childrenOf draws wd.taskDefinitions))) =
      .ok (wd.taskDefinitions.map (compiledTask draws wd)) := by
    refine mapM_ok fun d hd => ?_
    have hid : d.id ∈ wd.taskDefinitions.map (·.id) := List.mem_map_of_mem hd
    rw [createTaskExecution, show createTaskExecutionIds draws wd.taskDefinitions
      = lookupOf (wd.taskDefinitions.map (·.id)) draws.taskExecutionId from rfl,
      get_lookupOf _ hid, mapM_lookupOf _ (hlinked.known d hd), get_lookupOf _ hid]
    rfl
  rw [createWorkflowExecution, createChildTaskLookup_eq hlinked]
  have hroots : ((wd.taskDefinitions.map (compiledTask draws wd)).filter
      fun task => task.remainingDependencies == 0).map (·.id) = rootsOf draws wd := by
    rw [List.filter_map, List.map_map, rootsOf]
    refine congrArg₂ List.map rfl (List.filter_congr fun d _ => ?_)
    simp [compiledTask]
  simp only [bind, Except.bind, htasks, pure, Except.pure, compiled, hroots]

/-- And to nothing else. -/
theorem compiled_of_create {draws : Draws} {now : Datetime} {workflow : WorkflowExecution}
    {roots : List UUID} (hlinked : wd.Linked)
    (h : createWorkflowExecution draws now wd = .ok (workflow, roots)) :
    workflow = compiled draws now wd ∧ roots = rootsOf draws wd := by
  rw [createWorkflowExecution_eq draws now hlinked] at h
  obtain ⟨rfl, rfl⟩ := Prod.mk.inj (Except.ok.inj h)
  exact ⟨rfl, rfl⟩

end WorkflowStartService

/-! ### The rows of a new execution -/

open WorkflowStartService

/-- The rows that creating an execution of some valid definition inserts. -/
def CompiledRows (rows : List (Sigma Row)) : Prop :=
  ∃ (draws : Draws) (now : Datetime) (wd : WorkflowDefinition) (workflow : WorkflowExecution)
    (roots : List UUID), wd.Valid ∧
      createWorkflowExecution draws now wd = .ok (workflow, roots) ∧
      rows = WorkflowExecutionMapper.workflowToRows workflow

/-- A task row of an execution that has just been created, in the store it was added to. -/
structure NewTask (s : ExecutionStore) (workflowId id : UUID) (t : TaskExecutionModel) : Prop where
  workflowExecutionId : t.workflowExecutionId = workflowId
  status : t.status = .pending
  remainingDependencies : t.remainingDependencies = t.parentTaskIds.length
  remainingTries : 1 ≤ t.remainingTries
  output : t.output = none
  errorMessage : t.errorMessage = none
  startedAt : t.startedAt = none
  completedAt : t.completedAt = none
  parents_nodup : t.parentTaskIds.Nodup
  children_nodup : t.childTaskIds.Nodup
  not_self : id ∉ t.parentTaskIds
  parents : ∀ p ∈ t.parentTaskIds, ∃ tp, taskRow s p = some tp ∧
    tp.workflowExecutionId = workflowId ∧ id ∈ tp.childTaskIds
  children : ∀ c ∈ t.childTaskIds, ∃ tc, taskRow s c = some tc ∧
    tc.workflowExecutionId = workflowId ∧ id ∈ tc.parentTaskIds

/-- The second store is the first one and one new workflow execution. -/
structure Created (workflowId : UUID) (s s' : ExecutionStore) : Prop where
  fresh : workflowRow s workflowId = none
  running : ∃ w, workflowRow s' workflowId = some w ∧ w.status = .running ∧ w.completedAt = none
  workflows : ∀ j, j ≠ workflowId → workflowRow s' j = workflowRow s j
  old : ∀ i t, taskRow s i = some t → taskRow s' i = some t
  new : ∀ i t, taskRow s' i = some t → taskRow s i = none → NewTask s' workflowId i t
  keys : ∀ i j t u, taskRow s' i = some t → taskRow s' j = some u → taskRow s i = none →
    taskRow s j = none → t.key = u.key → i = j
  inhabited : ∃ i t, taskRow s' i = some t ∧ taskRow s i = none

section Insert

variable {draws : Draws} {now : Datetime} {wd : WorkflowDefinition} {s s' : ExecutionStore}

/-- The row of a compiled task. -/
abbrev compiledRow (draws : Draws) (wd : WorkflowDefinition) (d : TaskDefinition) :
    TaskExecutionModel :=
  WorkflowExecutionMapper.taskToModel (compiledTask draws wd d)

theorem mem_compiled_task {i : UUID} {t : TaskExecutionModel} :
    (⟨.task i, t⟩ : Sigma Row) ∈ WorkflowExecutionMapper.workflowToRows (compiled draws now wd) ↔
      ∃ d ∈ wd.taskDefinitions, draws.taskExecutionId d.id = i ∧ compiledRow draws wd d = t := by
  simp only [WorkflowExecutionMapper.workflowToRows, compiled, List.mem_cons, List.map_map,
    List.mem_map, Function.comp]
  constructor
  · rintro (h | ⟨d, hd, h⟩)
    · simp at h
    · obtain ⟨hi, ht⟩ := Sigma.mk.inj h
      exact ⟨d, hd, RowId.task.inj hi, eq_of_heq ht⟩
  · rintro ⟨d, hd, rfl, rfl⟩
    exact Or.inr ⟨d, hd, rfl⟩

theorem mem_compiled_workflow {i : UUID} {w : WorkflowExecutionModel} :
    (⟨.workflow i, w⟩ : Sigma Row) ∈
        WorkflowExecutionMapper.workflowToRows (compiled draws now wd) ↔
      i = draws.workflowExecutionId ∧
        w = WorkflowExecutionMapper.workflowToModel (compiled draws now wd) := by
  simp only [WorkflowExecutionMapper.workflowToRows, List.mem_cons, List.mem_map]
  constructor
  · rintro (h | ⟨d, -, h⟩)
    · obtain ⟨hi, hw⟩ := Sigma.mk.inj h
      exact ⟨RowId.workflow.inj hi, eq_of_heq hw⟩
    · simp at h
  · rintro ⟨rfl, rfl⟩
    exact Or.inl rfl

theorem keys_compiled (draws : Draws) (now : Datetime) (wd : WorkflowDefinition) :
    (WorkflowExecutionMapper.workflowToRows (compiled draws now wd)).keys =
      .workflow draws.workflowExecutionId ::
        wd.taskDefinitions.map fun d => .task (draws.taskExecutionId d.id) := by
  simp [WorkflowExecutionMapper.workflowToRows, List.keys, compiled, compiledTask]

/-- Fresh identifiers are no obstacle to storing an execution. -/
theorem create_fresh (now : Datetime) (hlinked : wd.Linked)
    (hworkflow : (.workflow draws.workflowExecutionId : RowId) ∉ s.keys)
    (htask : ∀ i, (.task (draws.taskExecutionId i) : RowId) ∉ s.keys)
    (hinjective : ∀ i j, draws.taskExecutionId i = draws.taskExecutionId j → i = j) :
    ∃ s', WorkflowExecutionRepository.create s (compiled draws now wd) = some s' := by
  unfold WorkflowExecutionRepository.create Sql.Store.insert?
  rw [dif_pos]
  · exact ⟨_, rfl⟩
  · rw [keys_compiled]
    refine ⟨List.nodup_cons.mpr ⟨by simp, ?_⟩, ?_⟩
    · have hnodup := List.Nodup.of_map _ hlinked.ids
      refine hnodup.map_on fun d hd e he hde => ?_
      exact List.inj_on_of_nodup_map hlinked.ids hd he (hinjective _ _ (RowId.task.inj hde))
    · intro k hk
      rcases List.mem_cons.mp hk with rfl | hk
      · exact hworkflow
      · obtain ⟨d, -, rfl⟩ := List.mem_map.mp hk
        exact htask d.id

/-- Different task definitions were given different identifiers, or the insert had failed. -/
theorem draws_injective
    (hins : s.insert? (WorkflowExecutionMapper.workflowToRows (compiled draws now wd)) = some s')
    {d e : TaskDefinition} (hd : d ∈ wd.taskDefinitions) (he : e ∈ wd.taskDefinitions)
    (h : draws.taskExecutionId d.id = draws.taskExecutionId e.id) : d = e := by
  obtain ⟨hnd, -⟩ := Sql.Store.insert?_cases hins
  simp only [WorkflowExecutionMapper.workflowToRows, compiled, List.map_map,
    List.NodupKeys, List.keys_cons, List.nodup_cons] at hnd
  have hids : (wd.taskDefinitions.map fun d => RowId.task (draws.taskExecutionId d.id)).Nodup := by
    have hkeys := hnd.2
    rw [List.keys, List.map_map] at hkeys
    exact hkeys
  exact List.inj_on_of_nodup_map hids hd he (by rw [h])

/-- The rows a new execution is found under, and no others. -/
theorem taskRow_created
    (hins : s.insert? (WorkflowExecutionMapper.workflowToRows (compiled draws now wd)) = some s')
    {d : TaskDefinition} (hd : d ∈ wd.taskDefinitions) :
    taskRow s' (draws.taskExecutionId d.id) = some (compiledRow draws wd d) ∧
      taskRow s (draws.taskExecutionId d.id) = none := by
  have hmem : (⟨.task (draws.taskExecutionId d.id), compiledRow draws wd d⟩ : Sigma Row) ∈
      WorkflowExecutionMapper.workflowToRows (compiled draws now wd) :=
    mem_compiled_task.mpr ⟨d, hd, rfl, rfl⟩
  refine ⟨Sql.Store.row_insert?_new hins hmem, ?_⟩
  obtain ⟨-, hfree, -, -⟩ := Sql.Store.insert?_cases hins
  have hnot := hfree _ (List.mem_keys_of_mem hmem)
  rw [s.mem_keys] at hnot
  simpa [taskRow] using hnot

theorem mem_childrenOf {p i : UUID} :
    i ∈ childrenOf draws wd.taskDefinitions p ↔
      ∃ d ∈ wd.taskDefinitions, p ∈ d.dependencies ∧ draws.taskExecutionId d.id = i := by
  simp [childrenOf, and_assoc]

/-- **What creating an execution of a valid definition adds.** -/
theorem created_of_insert (hvalid : wd.Valid)
    (hins : s.insert? (WorkflowExecutionMapper.workflowToRows (compiled draws now wd)) = some s') :
    Created draws.workflowExecutionId s s' := by
  have hwf : (⟨.workflow draws.workflowExecutionId,
      WorkflowExecutionMapper.workflowToModel (compiled draws now wd)⟩ : Sigma Row) ∈
        WorkflowExecutionMapper.workflowToRows (compiled draws now wd) :=
    mem_compiled_workflow.mpr ⟨rfl, rfl⟩
  have hinj := fun {d e} hd he h => draws_injective hins (d := d) (e := e) hd he h
  have hnew : ∀ i t, taskRow s' i = some t → taskRow s i = none →
      ∃ d ∈ wd.taskDefinitions, draws.taskExecutionId d.id = i ∧ compiledRow draws wd d = t := by
    intro i t hi hnone
    rcases Sql.Store.row_insert?_cases hins hi with ⟨hmem, -⟩ | hold
    · exact mem_compiled_task.mp hmem
    · rw [← taskRow, hnone] at hold
      simp at hold
  obtain ⟨-, hfree, -, -⟩ := Sql.Store.insert?_cases hins
  refine ⟨?_, ⟨_, Sql.Store.row_insert?_new hins hwf, rfl, rfl⟩, ?_, ?_, ?_, ?_, ?_⟩
  · have hnot := hfree _ (List.mem_keys_of_mem hwf)
    rw [s.mem_keys] at hnot
    simpa [workflowRow] using hnot
  · intro j hj
    cases hs : workflowRow s' j with
    | some w =>
        rcases Sql.Store.row_insert?_cases hins hs with ⟨hmem, -⟩ | hold
        · exact absurd (mem_compiled_workflow.mp hmem).1 hj
        · exact hold.symm
    | none => exact ((Sql.Store.le_insert? (E := executionEvolution) hins).none hs).symm
  · exact fun i t hi => Sql.Store.row_insert?_old hins hi
  · intro i t hi hnone
    obtain ⟨d, hd, rfl, rfl⟩ := hnew i t hi hnone
    refine ⟨rfl, rfl, ?_, hvalid.maxTries d hd, rfl, rfl, rfl, rfl, ?_, ?_, ?_, ?_, ?_⟩
    · simp [WorkflowExecutionMapper.taskToModel, compiledTask]
    · refine (List.nodup_map_iff_inj_on (hvalid.duplicates d hd)).mpr fun p hp q hq hpq => ?_
      obtain ⟨dp, hdp, rfl⟩ := List.mem_map.mp (hvalid.known d hd p hp)
      obtain ⟨dq, hdq, rfl⟩ := List.mem_map.mp (hvalid.known d hd q hq)
      rw [hinj hdp hdq hpq]
    · refine (List.nodup_map_iff_inj_on ((List.Nodup.of_map _ hvalid.ids).filter _)).mpr ?_
      intro a ha b hb hab
      exact hinj (List.mem_of_mem_filter ha) (List.mem_of_mem_filter hb) hab
    · intro hself
      obtain ⟨p, hp, hpd⟩ := List.mem_map.mp hself
      obtain ⟨dp, hdp, rfl⟩ := List.mem_map.mp (hvalid.known d hd p hp)
      exact hvalid.not_self hd (hinj hdp hd hpd ▸ hp)
    · intro p hp
      obtain ⟨p, hpd, rfl⟩ := List.mem_map.mp hp
      obtain ⟨dp, hdp, rfl⟩ := List.mem_map.mp (hvalid.known d hd p hpd)
      exact ⟨_, (taskRow_created hins hdp).1, rfl, mem_childrenOf.mpr ⟨d, hd, hpd, rfl⟩⟩
    · intro c hc
      obtain ⟨dc, hdc, hdep, rfl⟩ := mem_childrenOf.mp hc
      exact ⟨_, (taskRow_created hins hdc).1, rfl, List.mem_map_of_mem hdep⟩
  · intro i j t u hi hj hi₀ hj₀ hkey
    obtain ⟨d, hd, rfl, rfl⟩ := hnew i t hi hi₀
    obtain ⟨e, he, rfl, rfl⟩ := hnew j u hj hj₀
    rw [List.inj_on_of_nodup_map hvalid.keys hd he hkey]
  · obtain ⟨d, hd⟩ := List.exists_mem_of_ne_nil _ hvalid.nonempty
    obtain ⟨h, h₀⟩ := taskRow_created hins hd
    exact ⟨_, _, h, h₀⟩

/-- The root tasks are committed with the execution, and have no parents. -/
theorem mem_rootsOf
    (hins : s.insert? (WorkflowExecutionMapper.workflowToRows (compiled draws now wd)) = some s')
    {i : UUID} (hi : i ∈ rootsOf draws wd) :
    ∃ t, taskRow s' i = some t ∧ t.parentTaskIds = [] := by
  simp only [rootsOf, List.mem_map, List.mem_filter, beq_iff_eq, List.length_eq_zero_iff] at hi
  obtain ⟨d, ⟨hd, hdeps⟩, rfl⟩ := hi
  refine ⟨_, (taskRow_created hins hd).1, ?_⟩
  simp [WorkflowExecutionMapper.taskToModel, compiledTask, hdeps]

end Insert

/-- Compiled rows, in closed form. -/
theorem CompiledRows.closed {rows : List (Sigma Row)} (h : CompiledRows rows) :
    ∃ draws now wd, wd.Valid ∧
      rows = WorkflowExecutionMapper.workflowToRows (compiled draws now wd) := by
  obtain ⟨draws, now, wd, workflow, roots, hvalid, hcreate, rfl⟩ := h
  obtain ⟨rfl, rfl⟩ := compiled_of_create hvalid.linked hcreate
  exact ⟨draws, now, wd, hvalid, rfl⟩

theorem CompiledRows.created {rows : List (Sigma Row)} {s s' : ExecutionStore}
    (h : CompiledRows rows) (hins : s.insert? rows = some s') : ∃ id, Created id s s' := by
  obtain ⟨draws, now, wd, hvalid, rfl⟩ := h.closed
  exact ⟨_, created_of_insert hvalid hins⟩

end AutomationPlatform
