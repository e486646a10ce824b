/-
Two stores that agree on a definition.

`Reads` is what a load looks at.  A definition is written once, so whatever else is created,
deleted or moved on, its rows stay what they are, and a load finds the same definition, in
whatever order.

In a store the rows that stay also keep their places.  Where two loads are to be compared to the
letter, as what a transaction reads in several statements and what it would read in one, they both
list the rows as they are in the store, and that is the same order (`Unmoved`).
-/
import AutomationPlatform.Proofs.System.Definitions
import AutomationPlatform.Runtime.Statements
import AutomationPlatform.Sql.Order

namespace AutomationPlatform

open Sql (bind_eq_ok)
open WorkflowDefinitionRepository WorkflowDefinitionService

/-! ### What a load reads -/

/-- The rows a load of the definition reads. -/
def Reads (s : DefinitionStore) (id : UUID) : DefinitionRowId → Prop
  | .chronologicalTriggerState _ => False
  | k => RowOf s id k

/-- The rows of the definition are the same in both stores. -/
structure SameDefinition (id : UUID) (s s' : DefinitionStore) : Prop where
  reads : ∀ k, Reads s' id k ↔ Reads s id k
  row : ∀ k, Reads s id k → s'.row k = s.row k

/-- And they have the same places in both. -/
structure Unmoved (id : UUID) (s s' : DefinitionStore) : Prop extends SameDefinition id s s' where
  order : ∀ p : DefinitionRowId → Bool, (∀ k, p k = true → Reads s id k) →
    s'.keys.filter p = s.keys.filter p

section Same

variable {id : UUID} {s s' s'' : DefinitionStore}

theorem Unmoved.refl (id : UUID) (s : DefinitionStore) : Unmoved id s s :=
  ⟨⟨fun _ => Iff.rfl, fun _ _ => rfl⟩, fun _ _ => rfl⟩

theorem Unmoved.trans (h : Unmoved id s s') (h' : Unmoved id s' s'') :
    Unmoved id s s'' where
  reads := fun k => (h'.reads k).trans (h.reads k)
  row := fun k hk => (h'.row k ((h.reads k).mpr hk)).trans (h.row k hk)
  order := fun p hp => (h'.order p fun k hk => (h.reads k).mpr (hp k hk)).trans (h.order p hp)

theorem SameDefinition.workflow (h : SameDefinition id s s') :
    workflowDefinitionRow s' id = workflowDefinitionRow s id :=
  h.row (.workflow id) rfl

/-- What is stored of a definition is stored of it in the other store. -/
theorem SameDefinition.stored {wd : WorkflowDefinition} (h : SameDefinition wd.id s s')
    (hs : Stored s wd) : Stored s' wd where
  workflow := h.workflow.trans hs.workflow
  tasks := by
    intro i m
    rw [← hs.tasks i m]
    constructor
    · rintro ⟨hm, hid⟩
      exact ⟨(h.row (.task i) ((h.reads (.task i)).mp ⟨m, hm, hid⟩)).symm.trans hm, hid⟩
    · rintro ⟨hm, hid⟩
      exact ⟨(h.row (.task i) ⟨m, hm, hid⟩).trans hm, hid⟩
  dependencies := by
    intro t ht b
    obtain ⟨hm, hid⟩ := (hs.tasks t.id _).mpr ⟨t, ht, rfl, rfl⟩
    rw [h.row (.dependency t.id b) ⟨_, hm, hid⟩]
    exact hs.dependencies t ht b
  triggers := by
    intro i m
    rw [← hs.triggers i m]
    constructor
    · rintro ⟨hm, hid⟩
      exact ⟨(h.row (.trigger i) ((h.reads (.trigger i)).mp ⟨m, hm, hid⟩)).symm.trans hm, hid⟩
    · rintro ⟨hm, hid⟩
      exact ⟨(h.row (.trigger i) ⟨m, hm, hid⟩).trans hm, hid⟩

theorem stored_of_load {wd : WorkflowDefinition} (hload : load s id = some wd) : Stored s wd := by
  obtain ⟨m, hm, rfl⟩ := load_cases hload
  refine ⟨hm, fun i mt => ?_, fun t ht b => ?_, fun i mt => ?_⟩
  · constructor
    · rintro ⟨hi, rfl⟩
      exact ⟨_, mem_loadTasks.mpr ⟨i, mt, hi, rfl, rfl⟩, rfl, rfl⟩
    · rintro ⟨t, ht, rfl, rfl⟩
      obtain ⟨j, mj, hj, rfl, rfl⟩ := mem_loadTasks.mp ht
      exact ⟨hj, rfl⟩
  · obtain ⟨j, mj, hj, hid, rfl⟩ := mem_loadTasks.mp ht
    exact (mem_loadDependencies.trans (and_iff_left ⟨mj, hj, hid⟩)).symm
  · constructor
    · rintro ⟨hi, rfl⟩
      exact ⟨_, mem_loadTriggers.mpr ⟨i, mt, hi, rfl, rfl⟩, rfl, rfl⟩
    · rintro ⟨t, ht, rfl, rfl⟩
      obtain ⟨j, mj, hj, rfl, rfl⟩ := mem_loadTriggers.mp ht
      exact ⟨hj, rfl⟩

/-- The parts of a loaded definition are told apart. -/
theorem Validated.distinct (hs : Validated s) {wd : WorkflowDefinition}
    (hload : load s id = some wd) : Distinct wd where
  ids := (hs.valid hload).ids
  keys := (hs.valid hload).keys
  dependencies := (hs.valid hload).duplicates
  triggerIds := by
    obtain ⟨m, -, rfl⟩ := load_cases hload
    exact loadTriggers_nodup

/-- **The same definition is loaded**, up to the order of what it lists. -/
theorem SameDefinition.load (h : SameDefinition id s s') (hs : Validated s)
    {wd : WorkflowDefinition} (hload : WorkflowDefinitionRepository.load s id = some wd) :
    ∃ wd', WorkflowDefinitionRepository.load s' id = some wd' ∧ wd'.SameUpToOrder wd := by
  have hid : wd.id = id := by
    obtain ⟨m, -, rfl⟩ := load_cases hload
    rfl
  subst hid
  exact load_of_stored (hs.distinct hload) (h.stored (stored_of_load hload))

/-- A query that takes rows of the definition only returns the same rows. -/
theorem Unmoved.scan {β : Type} {f g : (k : DefinitionRowId) → DefinitionRow k → Option β}
    (h : Unmoved id s s')
    (hrow : ∀ k, Reads s id k → (s.row k).bind (f k) = (s.row k).bind (g k))
    (hleft : ∀ k, ¬ Reads s' id k → (s'.row k).bind (f k) = none)
    (hright : ∀ k, ¬ Reads s id k → (s.row k).bind (g k) = none) : s'.scan f = s.scan g := by
  classical
  refine Sql.Store.scan_congr_filter (fun k => decide (Reads s id k)) ?_ ?_ ?_ ?_
  · exact h.order _ fun k hk => of_decide_eq_true hk
  · intro k hk
    rw [h.row k (of_decide_eq_true hk)]
    exact hrow k (of_decide_eq_true hk)
  · intro k hk
    exact hleft k fun hreads => of_decide_eq_false hk ((h.reads k).mp hreads)
  · exact fun k hk => hright k (of_decide_eq_false hk)

theorem Unmoved.tasks (h : Unmoved id s s') :
    taskDefinitionModels s' id = taskDefinitionModels s id := by
  refine h.scan (fun _ _ => rfl) ?_ ?_
  -- A row that is not read gives nothing, before and after.
  all_goals
    intro k hk
    cases k with
    | task i =>
        refine Option.bind_eq_none_iff.mpr fun t hi => ?_
        exact if_neg fun hid => hk ⟨t, hi, hid⟩
    | workflow i => simp
    | dependency a b => simp
    | trigger i => simp
    | chronologicalTriggerState i => simp

theorem Unmoved.triggers (h : Unmoved id s s') :
    loadTriggers s' id = loadTriggers s id := by
  refine h.scan (fun _ _ => rfl) ?_ ?_
  all_goals
    intro k hk
    cases k with
    | trigger i =>
        refine Option.bind_eq_none_iff.mpr fun t hi => ?_
        exact if_neg fun hid => hk ⟨t, hi, hid⟩
    | workflow i => simp
    | task i => simp
    | dependency a b => simp
    | chronologicalTriggerState i => simp

theorem Unmoved.dependencies (h : Unmoved id s s') :
    dependencyRows s' id = dependencyRows s id := by
  have hout : ∀ (s : DefinitionStore) a b, ¬ Reads s id (.dependency a b) →
      ¬ (taskDefinitionRow s a).any (·.workflowDefinitionId = id) = true := by
    intro s a b hk hany
    rw [Option.any_eq_true] at hany
    obtain ⟨m, hm, hid⟩ := hany
    exact hk ⟨m, hm, of_decide_eq_true hid⟩
  refine h.scan (fun k hk => ?_) (fun k hk => ?_) (fun k hk => ?_)
  · cases k with
    | dependency a b =>
        obtain ⟨m, hm, hid⟩ := hk
        have htask : taskDefinitionRow s' a = taskDefinitionRow s a :=
          h.row (.task a) ⟨m, hm, hid⟩
        simp only [htask]
    | workflow i => simp
    | task i => simp
    | trigger i => simp
    | chronologicalTriggerState i => simp
  · cases k with
    | dependency a b => exact Option.bind_eq_none_iff.mpr fun _ _ => if_neg (hout s' a b hk)
    | workflow i => simp
    | task i => simp
    | trigger i => simp
    | chronologicalTriggerState i => simp
  · cases k with
    | dependency a b => exact Option.bind_eq_none_iff.mpr fun _ _ => if_neg (hout s a b hk)
    | workflow i => simp
    | task i => simp
    | trigger i => simp
    | chronologicalTriggerState i => simp

/-- What is loaded is put together from the rows of the tasks and their dependencies. -/
theorem loadTasks_eq (s : DefinitionStore) (id : UUID) :
    loadTasks s id = (taskDefinitionModels s id).map fun e =>
      WorkflowDefinitionMapper.taskToDomain e.1 e.2
        (((dependencyRows s id).filter (·.1 = e.1)).map (·.2)) := by
  unfold loadTasks taskDefinitionModels Sql.Store.scan
  rw [List.map_filterMap]
  refine List.filterMap_congr fun k _ => ?_
  cases k with
  | task i =>
      cases hi : s.row (.task i) with
      | none => rfl
      | some t =>
          by_cases hid : t.workflowDefinitionId = id
          · simp only [Option.bind_some, hid, if_true, Option.map_some, loadDependencies]
          · simp only [Option.bind_some, hid, if_false, Option.map_none]
  | workflow i => simp
  | dependency a b => simp
  | trigger i => simp
  | chronologicalTriggerState i => simp

theorem Unmoved.load (h : Unmoved id s s') :
    WorkflowDefinitionRepository.load s' id = WorkflowDefinitionRepository.load s id := by
  unfold WorkflowDefinitionRepository.load
  rw [h.workflow, loadTasks_eq, loadTasks_eq, h.tasks, h.dependencies, h.triggers]

/-- The rows that were read are left where they are, and there are no others. -/
theorem Unmoved.of_rows {new : DefinitionRowId → Prop} (hgrows : Sql.Store.Grows new s s')
    (hnew : ∀ k, Reads s id k → ¬ new k) (hrow : ∀ k, Reads s id k → s'.row k = s.row k)
    (htask : ∀ i m, taskDefinitionRow s' i = some m → m.workflowDefinitionId = id →
      taskDefinitionRow s i = some m)
    (htrigger : ∀ i m, triggerDefinitionRow s' i = some m → m.workflowDefinitionId = id →
      triggerDefinitionRow s i = some m) : Unmoved id s s' := by
  have htasks : ∀ i, (∃ m, taskDefinitionRow s' i = some m ∧ m.workflowDefinitionId = id) ↔
      ∃ m, taskDefinitionRow s i = some m ∧ m.workflowDefinitionId = id := by
    intro i
    constructor
    · rintro ⟨m, hm, hid⟩
      exact ⟨m, htask i m hm hid, hid⟩
    · rintro ⟨m, hm, hid⟩
      exact ⟨m, (hrow (.task i) ⟨m, hm, hid⟩).trans hm, hid⟩
  refine ⟨⟨fun k => ?_, hrow⟩, fun p hp => ?_⟩
  · cases k with
    | workflow i => exact Iff.rfl
    | task i => exact htasks i
    | dependency a b => exact htasks a
    | trigger i =>
        constructor
        · rintro ⟨m, hm, hid⟩
          exact ⟨m, htrigger i m hm hid, hid⟩
        · rintro ⟨m, hm, hid⟩
          exact ⟨m, (hrow (.trigger i) ⟨m, hm, hid⟩).trans hm, hid⟩
    | chronologicalTriggerState i => exact Iff.rfl
  · refine hgrows.filter_keys (fun k hk => hnew k (hp k hk)) fun k hk hmem => ?_
    rw [Sql.Store.mem_keys, hrow k (hp k hk)]
    exact (Sql.Store.mem_keys _ k).mp hmem

end Same

/-! ### What is kept by a transaction on other definitions -/

section Create

variable {executions : ExecutionStore} {s s' : DefinitionStore} {wd : WorkflowDefinition}

theorem grows_writeTask {task : TaskDefinition} (htask : task ∈ wd.taskDefinitions)
    (h : writeTask executions wd.id s task = .ok s') : Sql.Store.Grows (Part wd) s s' := by
  unfold writeTask at h
  obtain ⟨s₁, hwrite, h⟩ := bind_eq_ok.mp h
  obtain ⟨s₂, hdelete, h⟩ := bind_eq_ok.mp h
  have hdependencies : Sql.Store.Grows (Part wd) s₂ s' := by
    refine Sql.Store.grows_foldlM (fun r hr t t' hstep => Sql.Schema.grows_write hstep ?_) h
    obtain ⟨b, hb, rfl⟩ := List.mem_map.mp hr
    exact ⟨task, htask, rfl, hb⟩
  exact (Sql.Schema.grows_write hwrite ⟨task, htask, rfl⟩).trans
    ((Sql.Schema.grows_delete hdelete).trans hdependencies)

theorem grows_writeDefinition (h : writeDefinition executions s wd = .ok s') :
    Sql.Store.Grows (Part wd) s s' := by
  unfold writeDefinition writeTasks writeTriggers at h
  obtain ⟨s₁, hworkflow, h⟩ := bind_eq_ok.mp h
  obtain ⟨s₂, htasks, h⟩ := bind_eq_ok.mp h
  obtain ⟨s₃, hremove, htasks⟩ := bind_eq_ok.mp htasks
  obtain ⟨s₄, hremove', h⟩ := bind_eq_ok.mp h
  have htask : Sql.Store.Grows (Part wd) s₃ s₂ :=
    Sql.Store.grows_foldlM (fun task hmem _ _ hstep => grows_writeTask hmem hstep) htasks
  have htrigger : Sql.Store.Grows (Part wd) s₄ s' := by
    refine Sql.Store.grows_foldlM (fun trigger hmem t t' hstep => ?_) h
    exact Sql.Schema.grows_write hstep (show Part wd (.trigger trigger.id) from
      ⟨trigger, hmem, rfl⟩)
  have hstart : Sql.Store.Grows (Part wd) s s₃ :=
    (Sql.Schema.grows_write hworkflow (show Part wd (.workflow wd.id) from rfl)).trans
      (Sql.Schema.grows_delete hremove)
  exact hstart.trans (htask.trans ((Sql.Schema.grows_delete hremove').trans htrigger))

variable {taskRegistry : TaskRegistry} {triggerRegistry : TriggerRegistry}
  {draws : DefinitionDraws} {now : UUID → Datetime} {db : Database}
  {request : CreateWorkflowDefinition}

/-- A creation puts the rows of its definition behind all others. -/
theorem grows_create {r : UUID × Database}
    (h : create taskRegistry triggerRegistry draws now db request = .ok r) :
    Sql.Store.Grows (Part (requested draws request)) db.definitions r.2.definitions := by
  obtain ⟨resolved, s₁, x, s₂, -, htriggers, hwrite, hinitialize, hcommit, rfl⟩ := create_stages h
  obtain ⟨next, -, rfl⟩ := initializeEach_pending hinitialize
  refine (grows_writeDefinition hwrite).trans ?_
  refine Sql.Store.grows_foldlM (fun change hchange t t' hstep => ?_) hcommit
  obtain ⟨row, hrow, rfl⟩ := List.mem_map.mp hchange
  obtain ⟨trigger, htrigger, nextRunAt, -, rfl⟩ := mem_stateRows.mp hrow
  exact Sql.Schema.grows_insert hstep
    ⟨trigger.1, mem_requested htriggers htrigger, rfl⟩

/-- A creation leaves the definitions alone that are there. -/
theorem Unmoved.created (hs : (definitionSchema db.executions).Consistent db.definitions)
    (hnew : NewIds draws db.definitions) {r : UUID × Database}
    (h : create taskRegistry triggerRegistry draws now db request = .ok r) {id : UUID}
    (hid : (workflowDefinitionRow db.definitions id).isSome = true) :
    Unmoved id db.definitions r.2.definitions := by
  obtain ⟨-, resolved, hcreated⟩ := create_cases hs hnew h
  have hadded := hcreated.added
  have hne : id ≠ (requested draws request).id := by
    rintro rfl
    rw [hadded.workflow] at hid
    simp at hid
  have htrigger : ∀ t ∈ (requested draws request).triggerDefinitions,
      triggerDefinitionRow db.definitions t.id = none := by
    intro t ht
    obtain ⟨trigger, -, rfl⟩ := List.mem_map.mp ht
    exact hnew.triggers trigger.2
  -- What is read of the definition is no part of the new one.
  have hpart : ∀ k, Reads db.definitions id k → ¬ Part (requested draws request) k := by
    intro k hk hp
    cases k with
    | workflow i => exact hne (hk.symm.trans hp)
    | task i =>
        obtain ⟨⟨m, hm, -⟩, ⟨t, ht, rfl⟩⟩ := And.intro hk hp
        simp [hadded.tasks t ht] at hm
    | dependency a b =>
        obtain ⟨⟨m, hm, -⟩, ⟨t, ht, rfl, -⟩⟩ := And.intro hk hp
        simp [hadded.tasks t ht] at hm
    | trigger i =>
        obtain ⟨⟨m, hm, -⟩, ⟨t, ht, rfl⟩⟩ := And.intro hk hp
        simp [htrigger t ht] at hm
    | chronologicalTriggerState i => exact hk
  refine .of_rows (grows_create h) hpart (fun k hk => hadded.others k (hpart k hk)) ?_ ?_
  · intro i m hm hmid
    rcases hadded.task_cases hm with ⟨t, -, -, rfl⟩ | ⟨-, hold⟩
    · exact absurd hmid.symm hne
    · exact hold
  · intro i m hm hmid
    by_cases hnewTrigger : Part (requested draws request) (.trigger i)
    · obtain ⟨t, ht, rfl⟩ := hnewTrigger
      obtain ⟨hstored, hother⟩ := (hadded.stored.triggers t.id _).mpr ⟨t, ht, rfl, rfl⟩
      obtain rfl := Option.some.inj (hstored.symm.trans hm)
      exact absurd (hmid.symm.trans hother) hne
    · exact (hadded.others (.trigger i) hnewTrigger).symm.trans hm

end Create

section Delete

variable {db db' : Database} {id other : UUID}

/-- A deletion puts nothing in. -/
theorem grows_delete (h : delete db other = .ok db') :
    Sql.Store.Grows (fun _ => False) db.definitions db'.definitions := by
  by_cases hstored : (workflowDefinitionRow db.definitions other).isSome = true
  · rw [delete_eq hstored] at h
    obtain ⟨s', hmarked, h⟩ := bind_eq_ok.mp h
    obtain rfl := Except.ok.inj h
    exact Sql.Store.grows_foldlM (fun _ _ _ _ hstep => Sql.Schema.grows_delete hstep)
      (databaseError_ok_iff.mp hmarked)
  · obtain rfl := delete_missing hstored h
    exact .refl _

/-- A deletion leaves the other definitions alone. -/
theorem Unmoved.deleted (hs : (definitionSchema db.executions).Consistent db.definitions)
    (h : delete db other = .ok db')
    (hid : (workflowDefinitionRow db'.definitions id).isSome = true) :
    Unmoved id db.definitions db'.definitions := by
  rcases delete_cases hs h with rfl | ⟨-, hdeleted, -⟩
  · exact .refl _ _
  have hne : id ≠ other := by
    rintro rfl
    rw [workflowDefinitionRow, hdeleted.owned (.workflow id) rfl] at hid
    simp at hid
  have hother : ∀ k, Reads db.definitions id k → ¬ RowOf db.definitions other k := by
    intro k hk hk'
    cases k with
    | workflow i => exact hne (hk.symm.trans hk')
    | task i =>
        obtain ⟨⟨m, hm, rfl⟩, ⟨m', hm', rfl⟩⟩ := And.intro hk hk'
        exact hne (by rw [Option.some.inj (hm.symm.trans hm')])
    | dependency a b =>
        obtain ⟨⟨m, hm, rfl⟩, ⟨m', hm', rfl⟩⟩ := And.intro hk hk'
        exact hne (by rw [Option.some.inj (hm.symm.trans hm')])
    | trigger i =>
        obtain ⟨⟨m, hm, rfl⟩, ⟨m', hm', rfl⟩⟩ := And.intro hk hk'
        exact hne (by rw [Option.some.inj (hm.symm.trans hm')])
    | chronologicalTriggerState i => exact hk
  exact .of_rows (grows_delete h) (by simp) (fun k hk => hdeleted.others k (hother k hk))
    (fun i m hm _ => (hdeleted.before hm).1) (fun i m hm _ => (hdeleted.before hm).1)

end Delete

section Reschedule

variable {s s' : DefinitionStore} {id trigger : UUID} {next : Option Datetime}

/-- Triggers that are moved on are no matter of any definition. -/
theorem Unmoved.rescheduled
    (h : ChronologicalTriggerService.reschedule s trigger next = .ok s') :
    Unmoved id s s' := by
  have hrows := reschedule_rows h
  have hgrows : Sql.Store.Grows (fun _ => False) s s' := by
    cases next with
    | none =>
        obtain rfl := Except.ok.inj h
        exact Sql.Store.grows_deleteWhere _ _
    | some o =>
        simp only [ChronologicalTriggerService.reschedule,
          ChronologicalTriggerRepository.updateNextRun] at h
        split at h
        · obtain rfl := Except.ok.inj h
          exact .of_sublist (List.Sublist.refl _)
        · simp at h
  refine .of_rows hgrows (by simp) (fun k hk => hrows k fun i hi => ?_)
    (fun i m hm _ => (hrows (.task i) (by simp)).symm.trans hm)
    (fun i m hm _ => (hrows (.trigger i) (by simp)).symm.trans hm)
  subst hi
  exact hk

end Reschedule

end AutomationPlatform
