/-
Executions are executions of the stored definitions.

An execution refers to its definition and copies from it what its tasks need.  Nothing
writes both again, so the copies could only go stale if a definition changed under its
executions.  It does not: a definition that is executed cannot be deleted, a definition that is
created brings new identifiers, and nothing else writes the rows of definitions.

`Faithful` relates the two stores row by row.  It is kept by what a step does to either of
them, and read off it is that an execution has one task for each task of its definition, with
the same dependencies.

The number of tries is copied as well, and goes down.  `WithinBudget` says that it is still known
then: what is left and what the calls have used up come to what the definition gives.
-/
import AutomationPlatform.Proofs.Executions.Budget
import AutomationPlatform.Proofs.System.Reachable

namespace AutomationPlatform

open WorkflowDefinitionRepository WorkflowDefinitionService WorkflowStartService

/-- What the rows of executions say about the rows of definitions is true. -/
structure Faithful (s : DefinitionStore) (e : ExecutionStore) : Prop where
  workflow : ∀ i w, workflowRow e i = some w →
    (workflowDefinitionRow s w.workflowDefinitionId).isSome = true
  task : ∀ i t, taskRow e i = some t → ∃ w m, workflowRow e t.workflowExecutionId = some w ∧
    taskDefinitionRow s t.taskDefinitionId = some m ∧
    m.workflowDefinitionId = w.workflowDefinitionId ∧ t.key = m.key ∧
    t.pluginType = m.pluginType ∧ t.configuration = m.configuration ∧
    t.remainingTries ≤ m.maxTries ∧ (t.status = .pending → t.remainingTries = m.maxTries)
  complete : ∀ i w, workflowRow e i = some w → ∀ d m, taskDefinitionRow s d = some m →
    m.workflowDefinitionId = w.workflowDefinitionId →
    ∃ j t, taskRow e j = some t ∧ t.workflowExecutionId = i ∧ t.taskDefinitionId = d
  once : ∀ j k t u, taskRow e j = some t → taskRow e k = some u →
    t.workflowExecutionId = u.workflowExecutionId → t.taskDefinitionId = u.taskDefinitionId → j = k
  parents : ∀ j k t u, taskRow e j = some t → taskRow e k = some u →
    t.workflowExecutionId = u.workflowExecutionId →
    (k ∈ t.parentTaskIds ↔ Depends s t.taskDefinitionId u.taskDefinitionId)

theorem faithful_empty : Faithful .empty .empty := by
  refine ⟨?_, ?_, ?_, ?_, ?_⟩ <;> simp [workflowRow, taskRow]

/-! ### The definitions change -/

section Definitions

variable {s s' : DefinitionStore} {e : ExecutionStore}

/-- It is enough to keep the rows that are executed, and to add none to what is. -/
theorem Faithful.of_rows (h : Faithful s e)
    (hworkflow : ∀ i w, workflowRow e i = some w →
      (workflowDefinitionRow s' w.workflowDefinitionId).isSome = true)
    (htask : ∀ i t m, taskRow e i = some t → taskDefinitionRow s t.taskDefinitionId = some m →
      taskDefinitionRow s' t.taskDefinitionId = some m)
    (hnew : ∀ i w d m, workflowRow e i = some w → taskDefinitionRow s' d = some m →
      m.workflowDefinitionId = w.workflowDefinitionId → taskDefinitionRow s d = some m)
    (hdepends : ∀ i t b, taskRow e i = some t →
      (Depends s' t.taskDefinitionId b ↔ Depends s t.taskDefinitionId b)) : Faithful s' e where
  workflow := hworkflow
  task := by
    intro i t hi
    obtain ⟨w, m, hw, hm, hrest⟩ := h.task i t hi
    exact ⟨w, m, hw, htask i t m hi hm, hrest⟩
  complete := by
    intro i w hi d m hd hm
    exact h.complete i w hi d m (hnew i w d m hi hd hm) hm
  once := h.once
  parents := by
    intro j k t u hj hk hw
    rw [h.parents j k t u hj hk hw, hdepends j t _ hj]

/-- A new definition is the definition of no execution. -/
theorem Faithful.added (h : Faithful s e) {wd : WorkflowDefinition} (ha : Added s s' wd) :
    Faithful s' e := by
  refine h.of_rows ?_ ?_ ?_ ?_
  · intro i w hi
    obtain ⟨m, hm⟩ := Option.isSome_iff_exists.mp (h.workflow i w hi)
    rw [ha.workflow_old hm]
    rfl
  · exact fun _ _ _ _ hm => ha.task_old hm
  · intro i w d m hi hd hm
    rcases ha.task_cases hd with ⟨t, -, -, rfl⟩ | ⟨-, hold⟩
    · have hstored := h.workflow i w hi
      have hid : wd.id = w.workflowDefinitionId := hm
      rw [← hid, ha.workflow] at hstored
      simp at hstored
    · exact hold
  · intro i t b hi
    obtain ⟨w, m, -, hm, -⟩ := h.task i t hi
    have hnot : t.taskDefinitionId ∉ wd.taskDefinitions.map (·.id) := by
      intro hmem
      obtain ⟨d, hd, hid⟩ := List.mem_map.mp hmem
      have hnone := ha.tasks d hd
      rw [hid, hm] at hnone
      simp at hnone
    rw [ha.depends_iff]
    constructor
    · rintro (⟨d, hd, hid, -⟩ | ⟨-, hdepends⟩)
      · exact absurd (List.mem_map.mpr ⟨d, hd, hid⟩) hnot
      · exact hdepends
    · exact fun hdepends => Or.inr ⟨hnot, hdepends⟩

theorem mem_executedWorkflows {id : UUID} :
    id ∈ executedWorkflows e ↔ ∃ i w, workflowRow e i = some w ∧ w.workflowDefinitionId = id := by
  unfold executedWorkflows
  rw [Sql.Store.mem_scan]
  constructor
  · rintro ⟨k, v, hk, hv⟩
    cases k with
    | workflow i => exact ⟨i, v, hk, Option.some.inj hv⟩
    | task i => simp at hv
  · rintro ⟨i, w, hi, rfl⟩
    exact ⟨.workflow i, w, hi, rfl⟩

/-- What is deleted was not executed. -/
theorem Faithful.deleted {db db' : Database} {id : UUID}
    (h : Faithful db.definitions db.executions) (hd : Deleted db db' id)
    (hunexecuted : Unexecuted db.executions db.definitions id) :
    Faithful db'.definitions db.executions := by
  have hother : ∀ i w, workflowRow db.executions i = some w → w.workflowDefinitionId ≠ id :=
    fun i w hi heq => hunexecuted.1 (mem_executedWorkflows.mpr ⟨i, w, hi, heq⟩)
  have howner : ∀ i t m, taskRow db.executions i = some t →
      taskDefinitionRow db.definitions t.taskDefinitionId = some m →
      m.workflowDefinitionId ≠ id := by
    intro i t m hi hm
    obtain ⟨w, m', hw, hm', hid, -⟩ := h.task i t hi
    obtain rfl := Option.some.inj (hm.symm.trans hm')
    exact hid ▸ hother _ w hw
  refine h.of_rows ?_ ?_ ?_ ?_
  · intro i w hi
    rw [workflowDefinitionRow, hd.others (.workflow w.workflowDefinitionId) (hother i w hi)]
    exact h.workflow i w hi
  · exact fun i t m hi hm => hd.task_kept hm (howner i t m hi hm)
  · exact fun _ _ _ _ _ hm _ => (hd.before hm).1
  · intro i t b hi
    obtain ⟨w, m, hw, hm, hid, -⟩ := h.task i t hi
    refine ⟨hd.depends, fun hdepends => ?_⟩
    unfold Depends
    rw [hd.others (.dependency t.taskDefinitionId b)]
    · exact hdepends
    · rintro ⟨m', hm', howned⟩
      obtain rfl := Option.some.inj (hm.symm.trans hm')
      exact howner i t m hi hm howned

/-- A scheduler writes nothing that is executed. -/
theorem Faithful.reschedule (h : Faithful s e) {id : UUID} {next : Option Datetime}
    (hr : ChronologicalTriggerService.reschedule s id next = .ok s') : Faithful s' e := by
  have hrows := reschedule_rows hr
  have hworkflow : ∀ i, workflowDefinitionRow s' i = workflowDefinitionRow s i :=
    fun i => hrows (.workflow i) (by simp)
  have htask : ∀ i, taskDefinitionRow s' i = taskDefinitionRow s i :=
    fun i => hrows (.task i) (by simp)
  refine h.of_rows ?_ ?_ ?_ ?_
  · intro i w hi
    rw [hworkflow]
    exact h.workflow i w hi
  · exact fun i t m _ hm => (htask _).trans hm
  · exact fun i w d m _ hd _ => (htask d).symm.trans hd
  · intro i t b _
    unfold Depends
    rw [hrows (.dependency t.taskDefinitionId b) (by simp)]

end Definitions

/-! ### The executions change -/

section Executions

variable {s : DefinitionStore} {e e' : ExecutionStore}

/-- What was compiled into the rows stays as it is. -/
theorem Faithful.evolved (h : Faithful s e) (ha : Evolved e e') : Faithful s e' where
  workflow := by
    intro i w' hi
    obtain ⟨w, hw, hev⟩ := ha.workflow hi
    rw [hev.workflowDefinitionId]
    exact h.workflow i w hw
  task := by
    intro i t' hi
    obtain ⟨t, ht, hev⟩ := ha.task hi
    obtain ⟨w, m, hw, hm, hid, hkey, hplugin, hconfiguration, htries, huntried⟩ := h.task i t ht
    obtain ⟨w', hw', hwev⟩ := workflowRow_le ha.le hw
    have hsame := hev.same
    refine ⟨w', m, hsame.workflowExecutionId ▸ hw', hsame.taskDefinitionId ▸ hm, ?_,
      hsame.key.trans hkey, hsame.pluginType.trans hplugin,
      hsame.configuration.trans hconfiguration, Int.le_trans hev.tries htries, fun hp => ?_⟩
    · rw [hid, hwev.workflowDefinitionId]
    · exact (hev.untried hp).trans (huntried (hev.pending hp).1)
  complete := by
    intro i w' hi d m hd hm
    obtain ⟨w, hw, hwev⟩ := ha.workflow hi
    obtain ⟨j, t, ht, hti, htd⟩ :=
      h.complete i w hw d m hd (hm.trans hwev.workflowDefinitionId)
    obtain ⟨t', ht', hev⟩ := taskRow_le ha.le ht
    exact ⟨j, t', ht', hev.same.workflowExecutionId.trans hti,
      hev.same.taskDefinitionId.trans htd⟩
  once := by
    intro j k t' u' hj hk hw hd
    obtain ⟨t, ht, hev⟩ := ha.task hj
    obtain ⟨u, hu, hev'⟩ := ha.task hk
    rw [hev.same.workflowExecutionId, hev'.same.workflowExecutionId] at hw
    rw [hev.same.taskDefinitionId, hev'.same.taskDefinitionId] at hd
    exact h.once j k t u ht hu hw hd
  parents := by
    intro j k t' u' hj hk hw
    obtain ⟨t, ht, hev⟩ := ha.task hj
    obtain ⟨u, hu, hev'⟩ := ha.task hk
    rw [hev.same.workflowExecutionId, hev'.same.workflowExecutionId] at hw
    rw [hev.same.parentTaskIds, hev.same.taskDefinitionId, hev'.same.taskDefinitionId]
    exact h.parents j k t u ht hu hw

/-- Two tasks of one execution are both new or were both there. -/
theorem Faithful.inserted_cases (h : Faithful s e) {wd : WorkflowDefinition} {draws : Draws}
    {now : Datetime} (hvalid : wd.Valid)
    (hins : e.insert? (WorkflowExecutionMapper.workflowToRows (compiled draws now wd)) = some e')
    {j k : UUID} {t u : TaskExecutionModel} (hj : taskRow e' j = some t)
    (hk : taskRow e' k = some u) (hw : t.workflowExecutionId = u.workflowExecutionId) :
    (∃ d ∈ wd.taskDefinitions, ∃ f ∈ wd.taskDefinitions, draws.taskExecutionId d.id = j ∧
      compiledRow draws wd d = t ∧ draws.taskExecutionId f.id = k ∧ compiledRow draws wd f = u) ∨
    (taskRow e j = some t ∧ taskRow e k = some u) := by
  have hfresh := (created_of_insert hvalid hins).fresh
  have hold : ∀ {i t}, taskRow e i = some t → t.workflowExecutionId ≠ draws.workflowExecutionId := by
    intro i t hi heq
    obtain ⟨w, -, hw, -⟩ := h.task i t hi
    rw [heq, hfresh] at hw
    simp at hw
  rcases Sql.Store.row_insert?_cases hins hj with ⟨hmem, -⟩ | ht
  · obtain ⟨d, hd, rfl, rfl⟩ := mem_compiled_task.mp hmem
    rcases Sql.Store.row_insert?_cases hins hk with ⟨hmem', -⟩ | hu
    · obtain ⟨f, hf, rfl, rfl⟩ := mem_compiled_task.mp hmem'
      exact Or.inl ⟨d, hd, f, hf, rfl, rfl, rfl, rfl⟩
    · exact absurd hw.symm (hold hu)
  · rcases Sql.Store.row_insert?_cases hins hk with ⟨hmem', -⟩ | hu
    · obtain ⟨f, hf, rfl, rfl⟩ := mem_compiled_task.mp hmem'
      exact absurd hw (hold ht)
    · exact Or.inr ⟨ht, hu⟩

/-- The dependencies of a loaded task are the rows of its dependencies. -/
theorem mem_dependencies_iff {id : UUID} {d : TaskDefinition} (hd : d ∈ loadTasks s id)
    (b : UUID) : b ∈ d.dependencies ↔ Depends s d.id b := by
  obtain ⟨i, m, hi, hmd, rfl⟩ := mem_loadTasks.mp hd
  constructor
  · exact fun hmem => (mem_loadDependencies.mp hmem).1
  · exact fun hrow => mem_loadDependencies.mpr ⟨hrow, m, hi, hmd⟩

/-- What is inserted is compiled from the rows of the definition. -/
theorem Faithful.inserted (h : Faithful s e) {id : UUID} {wd : WorkflowDefinition}
    {draws : Draws} {now : Datetime} (hvalid : wd.Valid) (hload : load s id = some wd)
    (hins : e.insert? (WorkflowExecutionMapper.workflowToRows (compiled draws now wd)) = some e') :
    Faithful s e' := by
  obtain ⟨mw, hmw, hwd⟩ := load_cases hload
  have hid : wd.id = id := by rw [hwd]; rfl
  have htasks : wd.taskDefinitions = loadTasks s id := by rw [hwd]; rfl
  have hworkflow : workflowRow e' draws.workflowExecutionId =
      some (WorkflowExecutionMapper.workflowToModel (compiled draws now wd)) :=
    Sql.Store.row_insert?_new hins (mem_compiled_workflow.mpr ⟨rfl, rfl⟩)
  refine ⟨?_, ?_, ?_, ?_, ?_⟩
  · intro i w hi
    rcases Sql.Store.row_insert?_cases hins hi with ⟨hmem, -⟩ | hw
    · obtain ⟨rfl, rfl⟩ := mem_compiled_workflow.mp hmem
      show (workflowDefinitionRow s wd.id).isSome = true
      rw [hid, hmw]
      rfl
    · exact h.workflow i w hw
  · intro i t hi
    rcases Sql.Store.row_insert?_cases hins hi with ⟨hmem, -⟩ | ht
    · obtain ⟨d, hd, rfl, rfl⟩ := mem_compiled_task.mp hmem
      rw [htasks] at hd
      obtain ⟨j, m, hj, hmd, rfl⟩ := mem_loadTasks.mp hd
      exact ⟨_, m, hworkflow, hj, hmd.trans hid.symm, rfl, rfl, rfl, le_refl _, fun _ => rfl⟩
    · obtain ⟨w, m, hw, hrest⟩ := h.task i t ht
      exact ⟨w, m, Sql.Store.row_insert?_old hins hw, hrest⟩
  · intro i w hi d m hd hm
    rcases Sql.Store.row_insert?_cases hins hi with ⟨hmem, -⟩ | hw
    · obtain ⟨rfl, rfl⟩ := mem_compiled_workflow.mp hmem
      have hmem' : WorkflowDefinitionMapper.taskToDomain d m (loadDependencies s id d) ∈
          wd.taskDefinitions := by
        rw [htasks]
        exact mem_loadTasks.mpr ⟨d, m, hd, hm.trans hid, rfl⟩
      exact ⟨_, _, (taskRow_created hins hmem').1, rfl, rfl⟩
    · obtain ⟨j, t, ht, hti, htd⟩ := h.complete i w hw d m hd hm
      exact ⟨j, t, Sql.Store.row_insert?_old hins ht, hti, htd⟩
  · intro j k t u hj hk hw hd
    rcases h.inserted_cases hvalid hins hj hk hw with ⟨d, -, f, -, rfl, rfl, rfl, rfl⟩ | ⟨ht, hu⟩
    · exact congrArg draws.taskExecutionId hd
    · exact h.once j k t u ht hu hw hd
  · intro j k t u hj hk hw
    rcases h.inserted_cases hvalid hins hj hk hw with
      ⟨d, hd, f, hf, rfl, rfl, rfl, rfl⟩ | ⟨ht, hu⟩
    · have hdepends := mem_dependencies_iff (htasks ▸ hd) f.id
      show draws.taskExecutionId f.id ∈ d.dependencies.map draws.taskExecutionId ↔ _
      rw [show Depends s (compiledRow draws wd d).taskDefinitionId
        (compiledRow draws wd f).taskDefinitionId = Depends s d.id f.id from rfl, ← hdepends]
      constructor
      · intro hmem
        obtain ⟨p, hp, hpf⟩ := List.mem_map.mp hmem
        obtain ⟨dp, hdp, rfl⟩ := List.mem_map.mp (hvalid.known d hd p hp)
        exact draws_injective hins hdp hf hpf ▸ hp
      · exact fun hmem => List.mem_map_of_mem hmem
    · exact h.parents j k t u ht hu hw

end Executions

/-! ### Every run -/

namespace System

variable {leaseTimeout : Timedelta} {x x' : System}

theorem Moves.faithful (h : x.Moves leaseTimeout x') (hx : x.Sound leaseTimeout)
    (hf : Faithful x.definitions x.platform.db.store) :
    Faithful x'.definitions x'.platform.db.store := by
  cases h with
  | none => exact hf
  | created draws now request r hnew hcreate =>
      obtain ⟨-, _, hcreated⟩ :=
        create_cases (consistent_executions hx.definitions.consistent _) hnew hcreate
      exact hf.added hcreated.added
  | deleted id db hdelete =>
      rcases delete_cases (consistent_executions hx.definitions.consistent _) hdelete with
        rfl | ⟨hunexecuted, hdeleted, -⟩
      · exact hf
      · exact Faithful.deleted hf hdeleted hunexecuted
  | started publisher draws now definitions id wd platform hdefinitions hload _ hstart =>
      have hf' : Faithful definitions x.platform.db.store := by
        rcases hdefinitions with rfl | ⟨trigger, next, hreschedule⟩
        · exact hf
        · exact hf.reschedule hreschedule
      have hvalid := (hx.definitions.started hdefinitions).valid hload
      exact hf'.inserted hvalid hload (Platform.start_cases hvalid.linked hstart).1
  | ran action platform hother _ hrun =>
      exact hf.evolved (hx.platform.evolved hother hrun)

theorem Reachable.faithful (h : x.Reachable leaseTimeout) :
    Faithful x.definitions x.platform.db.store := by
  induction h with
  | init clock => exact faithful_empty
  | step h action hvalid hs ih => exact (moves_of_step hvalid hs).faithful h.sound ih

end System

/-- The tasks of an execution are those of a definition, one each, with its dependencies. -/
structure ExecutionOf (wd : WorkflowDefinition) (e : ExecutionStore) (workflowId : UUID) :
    Prop where
  tasks : ∀ i t, taskRow e i = some t → t.workflowExecutionId = workflowId →
    ∃ d ∈ wd.taskDefinitions, d.id = t.taskDefinitionId ∧ t.key = d.key ∧
      t.pluginType = d.pluginType ∧ t.configuration = d.configuration ∧
      t.remainingTries ≤ d.maxTries ∧ (t.status = .pending → t.remainingTries = d.maxTries)
  complete : ∀ d ∈ wd.taskDefinitions, ∃ i t, taskRow e i = some t ∧
    t.workflowExecutionId = workflowId ∧ t.taskDefinitionId = d.id
  once : ∀ i j t u, taskRow e i = some t → taskRow e j = some u →
    t.workflowExecutionId = workflowId → u.workflowExecutionId = workflowId →
    t.taskDefinitionId = u.taskDefinitionId → i = j
  parents : ∀ i j t u, taskRow e i = some t → taskRow e j = some u →
    t.workflowExecutionId = workflowId → u.workflowExecutionId = workflowId →
    (j ∈ t.parentTaskIds ↔ wd.DependsOn t.taskDefinitionId u.taskDefinitionId)
  known : ∀ i t, taskRow e i = some t → t.workflowExecutionId = workflowId →
    t.parentTaskIds.Nodup ∧ ∀ j ∈ t.parentTaskIds, ∃ u, taskRow e j = some u ∧
      u.workflowExecutionId = workflowId

/-- The definition of an execution is found, and the execution is its. -/
theorem Faithful.executionOf {s : DefinitionStore} {e : ExecutionStore} (h : Faithful s e)
    (hlinked : Linked e) {id : UUID} {w : WorkflowExecutionModel} (hw : workflowRow e id = some w) :
    ∃ wd, load s w.workflowDefinitionId = some wd ∧ ExecutionOf wd e id := by
  obtain ⟨m, hm⟩ := Option.isSome_iff_exists.mp (h.workflow id w hw)
  have hload : load s w.workflowDefinitionId =
      some (WorkflowDefinitionMapper.workflowToDomain w.workflowDefinitionId m
        (loadTasks s w.workflowDefinitionId) (loadTriggers s w.workflowDefinitionId)) := by
    unfold load
    rw [hm]
  -- The row of the definition of a task.
  have hrow : ∀ i t, taskRow e i = some t → t.workflowExecutionId = id → ∃ m,
      taskDefinitionRow s t.taskDefinitionId = some m ∧
        m.workflowDefinitionId = w.workflowDefinitionId ∧ t.key = m.key ∧
        t.pluginType = m.pluginType ∧ t.configuration = m.configuration ∧
        t.remainingTries ≤ m.maxTries ∧
        (t.status = .pending → t.remainingTries = m.maxTries) := by
    rintro i t hi rfl
    obtain ⟨w', m, hw', hm, hid, hrest⟩ := h.task i t hi
    obtain rfl := Option.some.inj (hw.symm.trans hw')
    exact ⟨m, hm, hid, hrest⟩
  refine ⟨_, hload, ?_, ?_, ?_, ?_, ?_⟩
  · intro i t hi hti
    obtain ⟨m, hm, hid, hrest⟩ := hrow i t hi hti
    exact ⟨_, mem_loadTasks.mpr ⟨_, m, hm, hid, rfl⟩, rfl, hrest⟩
  · intro d hd
    obtain ⟨j, m, hj, hid, rfl⟩ := mem_loadTasks.mp hd
    exact h.complete id w hw j m hj hid
  · intro i j t u hi hj hti huj hd
    exact h.once i j t u hi hj (hti.trans huj.symm) hd
  · intro i j t u hi hj hti huj
    rw [h.parents i j t u hi hj (hti.trans huj.symm)]
    constructor
    · intro hdepends
      obtain ⟨m, hm, hid, -⟩ := hrow i t hi hti
      exact ⟨_, mem_loadTasks.mpr ⟨_, m, hm, hid, rfl⟩, rfl,
        mem_loadDependencies.mpr ⟨hdepends, m, hm, hid⟩⟩
    · exact fun hdepends => depends_of_load hload hdepends
  · rintro i t hi rfl
    refine ⟨hlinked.parents_nodup i t hi, fun j hj => ?_⟩
    obtain ⟨u, hu, huw, -⟩ := hlinked.parents i t hi j hj
    exact ⟨u, hu, huw⟩

theorem System.Reachable.executionOf {leaseTimeout : Timedelta} {x : System}
    (h : x.Reachable leaseTimeout) {id : UUID} {w : WorkflowExecutionModel}
    (hw : workflowRow x.platform.db.store id = some w) :
    ∃ wd, load x.definitions w.workflowDefinitionId = some wd ∧
      ExecutionOf wd x.platform.db.store id :=
  h.faithful.executionOf (reachable_coherent h.sound.platform.sound.db).toLinked hw

/-! ### The tries -/

/-- What a task has left of its tries, and what calls have used up, is what its definition gives. -/
def WithinBudget (s : DefinitionStore) (db : ExecutionDb) : Prop :=
  ∀ i t m, taskRow db.store i = some t → taskDefinitionRow s t.taskDefinitionId = some m →
    t.remainingTries + retriesOn db.log i = m.maxTries

namespace System

variable {leaseTimeout : Timedelta} {x x' : System}

/-- Nothing is taken from the log. -/
theorem Moves.log (h : x.Moves leaseTimeout x') : ∀ e ∈ x.platform.db.log,
    e ∈ x'.platform.db.log := by
  have hstep : ∀ {action platform}, x.platform.step leaseTimeout action = some platform →
      ∀ e ∈ x.platform.db.log, e ∈ platform.db.log := by
    intro action platform hs e he
    rcases Platform.onDb_of_step hs with hsame | ⟨a, hdb, -⟩
    · rw [hsame]
      exact he
    · exact log_of_step hdb he
  cases h with
  | none => exact fun _ he => he
  | created => exact fun _ he => he
  | deleted => exact fun _ he => he
  | started _ _ _ _ _ _ _ _ _ _ hstart => exact hstep hstart
  | ran _ _ _ _ hrun => exact hstep hrun

/-- The row of a task definition is what it is for as long as it is there. -/
theorem Moves.taskDefinitionRow_eq (h : x.Moves leaseTimeout x') (hx : x.Sound leaseTimeout)
    {d : UUID} {m m' : TaskDefinitionModel} (hm : taskDefinitionRow x.definitions d = some m)
    (hm' : taskDefinitionRow x'.definitions d = some m') : m' = m := by
  have hconsistent := consistent_executions hx.definitions.consistent x.database.executions
  cases h with
  | none => exact Option.some.inj (hm'.symm.trans hm)
  | created draws now request r hnew hcreate =>
      obtain ⟨-, _, hcreated⟩ := create_cases hconsistent hnew hcreate
      exact Option.some.inj (hm'.symm.trans (hcreated.added.task_old hm))
  | deleted id db hdelete =>
      rcases delete_cases hconsistent hdelete with rfl | ⟨-, hdeleted, -⟩
      · exact Option.some.inj (hm'.symm.trans hm)
      · exact Option.some.inj ((hdeleted.before hm').1.symm.trans hm)
  | started _ _ _ definitions _ _ _ hdefinitions =>
      rcases hdefinitions with rfl | ⟨trigger, next, hreschedule⟩
      · exact Option.some.inj (hm'.symm.trans hm)
      · have hrow := reschedule_rows hreschedule (.task d) (by simp)
        exact Option.some.inj (hm'.symm.trans (hrow.trans hm))
  | ran => exact Option.some.inj (hm'.symm.trans hm)

theorem Moves.withinBudget (h : x.Moves leaseTimeout x') (hx : x.Reachable leaseTimeout)
    (hx' : ReachableDb x'.platform.db) (ha : WithinBudget x.definitions x.platform.db) :
    WithinBudget x'.definitions x'.platform.db := by
  intro i t' m' hi' hm'
  have hbudgeted := (reachable_run hx.sound.platform.sound.db).budgeted
  -- The tries of a task that was there come to what they came to.
  have hold : ∀ t, taskRow x.platform.db.store i = some t →
      t'.taskDefinitionId = t.taskDefinitionId →
      t'.remainingTries + retriesOn x'.platform.db.log i = m'.maxTries := by
    intro t hi hid
    obtain ⟨_, m, -, hm, -⟩ := hx.faithful.task i t hi
    obtain rfl := h.taskDefinitionRow_eq hx.sound hm (hid ▸ hm')
    rw [← ha i t m' hi hm]
    exact hbudgeted.total (reachable_run hx').budgeted h.log hi hi'
  cases h with
  | none => exact hold t' hi' rfl
  | created => exact hold t' hi' rfl
  | deleted => exact hold t' hi' rfl
  | started publisher draws now definitions id wd platform hdefinitions hload _ hstart =>
      have hvalid := (hx.sound.definitions.started hdefinitions).valid hload
      obtain ⟨hins, hplatform⟩ := Platform.start_cases hvalid.linked hstart
      rcases Sql.Store.row_insert?_cases hins hi' with ⟨hmem, -⟩ | ht
      · obtain ⟨d, hd, rfl, rfl⟩ := mem_compiled_task.mp hmem
        obtain ⟨mw, -, rfl⟩ := load_cases hload
        obtain ⟨j, m, hj, -, rfl⟩ := mem_loadTasks.mp hd
        obtain rfl : m = m' := Option.some.inj (hj.symm.trans hm')
        have hunused := hbudgeted.unused _ (taskRow_created hins hd).2
        have hlog : platform.db.log = x.platform.db.log ++
            [.inserted x.platform.db.store platform.db.store] := by
          rw [hplatform]
        show m.maxTries + ((retriesOn platform.db.log _ : Nat) : Int) = m.maxTries
        rw [hlog, retriesOn_inserted, hunused]
        simp
      · exact hold t' ht rfl
  | ran action platform hother _ hrun =>
      obtain ⟨t, hi, hev⟩ := (hx.sound.platform.evolved hother hrun).task hi'
      exact hold t hi hev.same.taskDefinitionId

theorem Reachable.withinBudget (h : x.Reachable leaseTimeout) :
    WithinBudget x.definitions x.platform.db := by
  induction h with
  | init clock =>
      intro i t m hi
      have hempty : taskRow .empty i = some t := hi
      simp [taskRow] at hempty
  | step h action hvalid hs ih =>
      exact (moves_of_step hvalid hs).withinBudget h
        (h.step action hvalid hs).sound.platform.sound.db ih

end System

/--
**Every execution is one of a definition that is stored.**  Whatever has been created, deleted,
started and executed since, its definition can still be loaded, and each task of the definition
has one task execution, configured as it is and with the executions of its dependencies, and
nothing else, for parents.  The tries it has left and those it has used up are those it was given.
-/
theorem executions_of_definitions {leaseTimeout : Timedelta} {x : System}
    (h : x.Reachable leaseTimeout) {id : UUID} {w : WorkflowExecutionModel}
    (hw : workflowRow x.platform.db.store id = some w) :
    ∃ wd, load x.definitions w.workflowDefinitionId = some wd ∧ wd.Valid ∧
      ExecutionOf wd x.platform.db.store id ∧
      ∀ i t, taskRow x.platform.db.store i = some t → t.workflowExecutionId = id →
        ∃ d ∈ wd.taskDefinitions, d.id = t.taskDefinitionId ∧
          t.remainingTries + retriesOn x.platform.db.log i = d.maxTries := by
  obtain ⟨wd, hload, hof⟩ := h.executionOf hw
  refine ⟨wd, hload, h.sound.definitions.valid hload, hof, fun i t hi ht => ?_⟩
  obtain ⟨d, hd, hid, -⟩ := hof.tasks i t hi ht
  refine ⟨d, hd, hid, ?_⟩
  obtain ⟨mw, -, rfl⟩ := load_cases hload
  obtain ⟨j, m, hj, -, rfl⟩ := mem_loadTasks.mp hd
  exact h.withinBudget i t m hi (hid ▸ hj)

/-- In the sample the first task is being executed. -/
theorem executions_of_definitions_sample :
    ∃ w, workflowRow (sampleSystem 9).platform.db.store 1 = some w ∧
      ∃ wd, load (sampleSystem 9).definitions w.workflowDefinitionId = some wd ∧ wd.Valid ∧
        ExecutionOf wd (sampleSystem 9).platform.db.store 1 ∧
        ∀ i t, taskRow (sampleSystem 9).platform.db.store i = some t →
          t.workflowExecutionId = 1 → ∃ d ∈ wd.taskDefinitions, d.id = t.taskDefinitionId ∧
            t.remainingTries + retriesOn (sampleSystem 9).platform.db.log i = d.maxTries := by
  have hsome : (workflowRow (sampleSystem 9).platform.db.store 1).isSome = true := by
    decide +kernel
  obtain ⟨w, hw⟩ := Option.isSome_iff_exists.mp hsome
  exact ⟨w, hw, executions_of_definitions (sampleSystem_reachable 9) hw⟩

end AutomationPlatform
