/-
What is known of the definitions that are stored.

A definition is validated as a request, before any of it is a row, and it is loaded from its
rows when a workflow is started.  `Validated` is what the validation comes to in the rows,
and each of the three transactions on them keeps it: the one that creates a definition adds
rows under new identifiers, the one that deletes a definition takes all of its rows, and a
scheduler changes nothing but the states of triggers.

So whatever is loaded is a valid definition, and its plugins have accepted what they are
configured with.
-/
import AutomationPlatform.Proofs.Definitions.Create
import AutomationPlatform.Proofs.Definitions.Delete
import AutomationPlatform.Proofs.Definitions.Range
import AutomationPlatform.Proofs.Triggers.Loop

namespace AutomationPlatform

open Sql (bind_eq_ok)
open WorkflowDefinitionRepository WorkflowDefinitionService

/-- One stored task lists another as a dependency. -/
def Depends (s : DefinitionStore) (child parent : UUID) : Prop :=
  (s.row (.dependency child parent)).isSome = true

/-- A plugin of the package has accepted the configuration of a task. -/
def TaskAccepted (pluginType : String) (configuration : JsonObject) : Prop :=
  ∃ plugin, TaskRegistry.discovered pluginType = some plugin ∧
    plugin.validateConfiguration configuration = .ok ()

/-- And that of a trigger. -/
def TriggerAccepted (pluginType : String) (configuration : JsonObject) : Prop :=
  ∃ plugin, TriggerRegistry.discovered pluginType = some plugin ∧
    plugin.validateConfiguration configuration = .ok ()

/-- What the validation and the constraints keep of the rows of definitions. -/
structure Validated (s : DefinitionStore) : Prop where
  consistent : (definitionSchema .empty).Consistent s
  inhabited : ∀ id, (workflowDefinitionRow s id).isSome = true →
    ∃ i m, taskDefinitionRow s i = some m ∧ m.workflowDefinitionId = id
  inside : ∀ a b m, Depends s a b → taskDefinitionRow s a = some m →
    ∃ m', taskDefinitionRow s b = some m' ∧ m'.workflowDefinitionId = m.workflowDefinitionId
  acyclic : ∀ i, ¬ Relation.TransGen (Depends s) i i
  maxTries : ∀ i m, taskDefinitionRow s i = some m → 1 ≤ m.maxTries
  tasks : ∀ i m, taskDefinitionRow s i = some m → TaskAccepted m.pluginType m.configuration
  triggers : ∀ i m, triggerDefinitionRow s i = some m →
    TriggerAccepted m.pluginType m.configuration

/-- What the executions pin down has no part in the constraints between the rows. -/
theorem consistent_executions {s : DefinitionStore} {executions : ExecutionStore}
    (h : (definitionSchema executions).Consistent s) (executions' : ExecutionStore) :
    (definitionSchema executions').Consistent s :=
  ⟨h.resolved, h.unique⟩

theorem validated_empty : Validated .empty where
  consistent := consistent_empty
  inhabited := by simp [workflowDefinitionRow]
  inside := by simp [taskDefinitionRow]
  acyclic := by
    intro i hcycle
    obtain ⟨_, hdepends, -⟩ := Relation.TransGen.head'_iff.mp hcycle
    simp [Depends] at hdepends
  maxTries := by simp [taskDefinitionRow]
  tasks := by simp [taskDefinitionRow]
  triggers := by simp [triggerDefinitionRow]

/-! ### What is loaded -/

section Load

variable {s : DefinitionStore} {id : UUID} {wd : WorkflowDefinition}

theorem load_cases (h : load s id = some wd) : ∃ m, workflowDefinitionRow s id = some m ∧
    wd = WorkflowDefinitionMapper.workflowToDomain id m (loadTasks s id) (loadTriggers s id) := by
  unfold load at h
  split at h
  · simp at h
  · exact ⟨_, ‹_›, (Option.some.inj h).symm⟩

/-- The dependencies of a loaded definition are stored. -/
theorem depends_of_load {i j : UUID} (h : load s id = some wd) (hij : wd.DependsOn i j) :
    Depends s i j := by
  obtain ⟨m, -, rfl⟩ := load_cases h
  obtain ⟨t, ht, rfl, hj⟩ := hij
  obtain ⟨i, m', hi, hid, rfl⟩ := mem_loadTasks.mp ht
  exact (mem_loadDependencies.mp hj).1

/-- **Whatever is loaded is valid.** -/
theorem Validated.valid (hs : Validated s) (h : load s id = some wd) : wd.Valid where
  nonempty := by
    obtain ⟨m, hm, rfl⟩ := load_cases h
    obtain ⟨i, m', hi, hid⟩ := hs.inhabited id (Option.isSome_of_eq_some hm)
    exact List.ne_nil_of_mem (mem_loadTasks.mpr ⟨i, m', hi, hid, rfl⟩)
  ids := by
    obtain ⟨m, -, rfl⟩ := load_cases h
    exact loadTasks_nodup
  keys := by
    obtain ⟨m, -, rfl⟩ := load_cases h
    refine (List.nodup_map_iff_inj_on loadTasks_nodup.of_map).mpr ?_
    intro t ht u hu hkey
    obtain ⟨i, mi, hi, hid, rfl⟩ := mem_loadTasks.mp ht
    obtain ⟨j, mj, hj, hjd, rfl⟩ := mem_loadTasks.mp hu
    have hij := hs.consistent.unique (.task i) (.task j) mi mj (id, mi.key) hi hj
      (by simp [definitionSchema, hid]) (by
        have hkeys : mi.key = mj.key := hkey
        simp [definitionSchema, hjd, hkeys])
    obtain rfl := DefinitionRowId.task.inj hij
    obtain rfl : mi = mj := Option.some.inj (hi.symm.trans hj)
    rfl
  duplicates := by
    intro t ht
    obtain ⟨m, -, rfl⟩ := load_cases h
    obtain ⟨i, m', hi, hid, rfl⟩ := mem_loadTasks.mp ht
    exact loadDependencies_nodup i
  known := by
    intro t ht p hp
    obtain ⟨m, -, rfl⟩ := load_cases h
    obtain ⟨i, m', hi, hid, rfl⟩ := mem_loadTasks.mp ht
    obtain ⟨mp, hmp, hpd⟩ := hs.inside i p m' (mem_loadDependencies.mp hp).1 hi
    exact List.mem_map.mpr ⟨_, mem_loadTasks.mpr ⟨p, mp, hmp, hpd.trans hid, rfl⟩, rfl⟩
  acyclic := by
    intro i hcycle
    exact hs.acyclic i (Relation.TransGen.mono (fun _ _ => depends_of_load h) i i hcycle)
  maxTries := by
    intro t ht
    obtain ⟨m, -, rfl⟩ := load_cases h
    obtain ⟨i, m', hi, -, rfl⟩ := mem_loadTasks.mp ht
    exact hs.maxTries i m' hi

/-- The scheduler finds what it takes for granted. -/
theorem Validated.accepted (hs : Validated s) : Accepted s where
  plugin := hs.triggers
  workflow := by
    intro id m hm
    exact hs.consistent.resolved (.trigger id) m hm (.workflow m.workflowDefinitionId) (by simp)
  valid := fun _ _ h => hs.valid h

end Load

/-! ### Creating a definition -/

section Added

variable {s s' : DefinitionStore} {wd : WorkflowDefinition}

/-- The second store is the first one and the rows of one new definition. -/
structure Added (s s' : DefinitionStore) (wd : WorkflowDefinition) : Prop where
  workflow : workflowDefinitionRow s wd.id = none
  tasks : ∀ t ∈ wd.taskDefinitions, taskDefinitionRow s t.id = none
  stored : Stored s' wd
  others : ∀ k, ¬ Part wd k → s'.row k = s.row k

/-- A task row is one of the new definition, or was there before. -/
theorem Added.task_cases (h : Added s s' wd) {i : UUID} {m : TaskDefinitionModel}
    (hi : taskDefinitionRow s' i = some m) :
    (∃ t ∈ wd.taskDefinitions, t.id = i ∧ WorkflowDefinitionMapper.taskToModel wd.id t = m) ∨
      (i ∉ wd.taskDefinitions.map (·.id) ∧ taskDefinitionRow s i = some m) := by
  by_cases hpart : i ∈ wd.taskDefinitions.map (·.id)
  · obtain ⟨t, ht, rfl⟩ := List.mem_map.mp hpart
    obtain ⟨hrow, -⟩ := (h.stored.tasks t.id _).mpr ⟨t, ht, rfl, rfl⟩
    exact Or.inl ⟨t, ht, rfl, Option.some.inj (hrow.symm.trans hi)⟩
  · refine Or.inr ⟨hpart, ?_⟩
    rw [← hi]
    refine (h.others (.task i) fun hp => ?_).symm
    obtain ⟨t, ht, hid⟩ := hp
    exact hpart (List.mem_map.mpr ⟨t, ht, hid⟩)

theorem Added.task_new (h : Added s s' wd) {t : TaskDefinition} (ht : t ∈ wd.taskDefinitions) :
    taskDefinitionRow s' t.id = some (WorkflowDefinitionMapper.taskToModel wd.id t) :=
  ((h.stored.tasks t.id _).mpr ⟨t, ht, rfl, rfl⟩).1

theorem Added.task_old (h : Added s s' wd) {i : UUID} {m : TaskDefinitionModel}
    (hi : taskDefinitionRow s i = some m) : taskDefinitionRow s' i = some m := by
  rw [← hi]
  refine h.others (.task i) fun hp => ?_
  obtain ⟨t, ht, rfl⟩ := hp
  rw [h.tasks t ht] at hi
  simp at hi

theorem Added.workflow_old (h : Added s s' wd) {id : UUID} {m : WorkflowDefinitionModel}
    (hid : workflowDefinitionRow s id = some m) : workflowDefinitionRow s' id = some m := by
  rw [← hid]
  refine h.others (.workflow id) fun hp => ?_
  obtain rfl : id = wd.id := hp
  rw [h.workflow] at hid
  simp at hid

/-- The dependencies of a new task are those of the definition, and those of an old one are
what they were. -/
theorem Added.depends_iff (h : Added s s' wd) {a b : UUID} :
    Depends s' a b ↔ wd.DependsOn a b ∨ (a ∉ wd.taskDefinitions.map (·.id) ∧ Depends s a b) := by
  by_cases ha : a ∈ wd.taskDefinitions.map (·.id)
  · obtain ⟨t, ht, rfl⟩ := List.mem_map.mp ha
    have hstored := h.stored.dependencies t ht b
    constructor
    · intro hdepends
      exact Or.inl ⟨t, ht, rfl, hstored.mp hdepends⟩
    · rintro (⟨u, hu, hid, hb⟩ | ⟨hnot, -⟩)
      · exact hid ▸ (h.stored.dependencies u hu b).mpr hb
      · exact absurd ha hnot
  · have hrow : s'.row (.dependency a b) = s.row (.dependency a b) := by
      refine h.others _ fun hp => ?_
      obtain ⟨t, ht, hid, -⟩ := hp
      exact ha (List.mem_map.mpr ⟨t, ht, hid⟩)
    unfold Depends
    rw [hrow]
    constructor
    · exact fun hdepends => Or.inr ⟨ha, hdepends⟩
    · rintro (⟨t, ht, hid, -⟩ | ⟨-, hdepends⟩)
      · exact absurd (List.mem_map.mpr ⟨t, ht, hid⟩) ha
      · exact hdepends

/-- Old dependencies are between old tasks. -/
theorem Validated.old_depends (hs : Validated s) (h : Added s s' wd) {a b : UUID}
    (hab : Depends s a b) :
    a ∉ wd.taskDefinitions.map (·.id) ∧ b ∉ wd.taskDefinitions.map (·.id) := by
  obtain ⟨v, hv⟩ := Option.isSome_iff_exists.mp hab
  have hold : ∀ i, (taskDefinitionRow s i).isSome = true →
      i ∉ wd.taskDefinitions.map (·.id) := by
    intro i hi hmem
    obtain ⟨t, ht, rfl⟩ := List.mem_map.mp hmem
    rw [h.tasks t ht] at hi
    simp at hi
  exact ⟨hold a (hs.consistent.resolved (.dependency a b) v hv (.task a) (by simp)),
    hold b (hs.consistent.resolved (.dependency a b) v hv (.task b) (by simp))⟩

/-- A path stays among the new tasks, or among the old ones. -/
theorem Added.path (h : Added s s' wd) (hs : Validated s) (hwd : wd.Valid) {a b : UUID}
    (hab : Relation.TransGen (Depends s') a b) :
    Relation.TransGen wd.DependsOn a b ∧ b ∈ wd.taskDefinitions.map (·.id) ∨
      Relation.TransGen (Depends s) a b ∧ b ∉ wd.taskDefinitions.map (·.id) := by
  have hknown : ∀ {x y}, wd.DependsOn x y → y ∈ wd.taskDefinitions.map (·.id) := by
    rintro x y ⟨t, ht, -, hy⟩
    exact hwd.known t ht y hy
  induction hab with
  | single hstep =>
      rcases h.depends_iff.mp hstep with hnew | ⟨-, hold⟩
      · exact Or.inl ⟨.single hnew, hknown hnew⟩
      · exact Or.inr ⟨.single hold, (hs.old_depends h hold).2⟩
  | tail _ hstep ih =>
      rcases h.depends_iff.mp hstep with hnew | ⟨hnot, hold⟩
      · rcases ih with ⟨hpath, -⟩ | ⟨-, hnot⟩
        · exact Or.inl ⟨hpath.tail hnew, hknown hnew⟩
        · obtain ⟨t, ht, rfl, -⟩ := hnew
          exact absurd (List.mem_map_of_mem ht) hnot
      · rcases ih with ⟨-, hmem⟩ | ⟨hpath, -⟩
        · exact absurd hmem hnot
        · exact Or.inr ⟨hpath.tail hold, (hs.old_depends h hold).2⟩

/-- A valid definition, added, leaves validated definitions. -/
theorem Validated.added (hs : Validated s) (h : Added s s' wd) (hwd : wd.Valid)
    (hs' : (definitionSchema .empty).Consistent s')
    (htasks : ∀ t ∈ wd.taskDefinitions, TaskAccepted t.pluginType t.configuration)
    (htriggers : ∀ t ∈ wd.triggerDefinitions, TriggerAccepted t.pluginType t.configuration) :
    Validated s' where
  consistent := hs'
  inhabited := by
    intro id hid
    by_cases hnew : id = wd.id
    · obtain ⟨t, ht⟩ := List.exists_mem_of_ne_nil _ hwd.nonempty
      exact ⟨t.id, _, h.task_new ht, hnew.symm⟩
    · rw [workflowDefinitionRow, h.others (.workflow id) hnew] at hid
      obtain ⟨i, m, hi, hm⟩ := hs.inhabited id hid
      exact ⟨i, m, h.task_old hi, hm⟩
  inside := by
    intro a b m hab hm
    rcases h.task_cases hm with ⟨t, ht, rfl, rfl⟩ | ⟨hnot, hold⟩
    · have hb := (h.stored.dependencies t ht b).mp hab
      obtain ⟨u, hu, rfl⟩ := List.mem_map.mp (hwd.known t ht b hb)
      exact ⟨_, h.task_new hu, rfl⟩
    · rcases h.depends_iff.mp hab with ⟨t, ht, hid, -⟩ | ⟨-, hdepends⟩
      · exact absurd (List.mem_map.mpr ⟨t, ht, hid⟩) hnot
      · obtain ⟨m', hm', hid⟩ := hs.inside a b m hdepends hold
        exact ⟨m', h.task_old hm', hid⟩
  acyclic := by
    intro i hcycle
    rcases h.path hs hwd hcycle with ⟨hnew, -⟩ | ⟨hold, -⟩
    · exact hwd.acyclic i hnew
    · exact hs.acyclic i hold
  maxTries := by
    intro i m hi
    rcases h.task_cases hi with ⟨t, ht, -, rfl⟩ | ⟨-, hold⟩
    · exact hwd.maxTries t ht
    · exact hs.maxTries i m hold
  tasks := by
    intro i m hi
    rcases h.task_cases hi with ⟨t, ht, -, rfl⟩ | ⟨-, hold⟩
    · exact htasks t ht
    · exact hs.tasks i m hold
  triggers := by
    intro i m hi
    by_cases hpart : ∃ t ∈ wd.triggerDefinitions, t.id = i
    · obtain ⟨t, ht, rfl⟩ := hpart
      obtain ⟨hrow, -⟩ := (h.stored.triggers t.id _).mpr ⟨t, ht, rfl, rfl⟩
      obtain rfl := Option.some.inj (hrow.symm.trans hi)
      exact htriggers t ht
    · rw [triggerDefinitionRow, h.others (.trigger i) hpart] at hi
      exact hs.triggers i m hi

end Added

section Create

variable {taskRegistry : TaskRegistry} {triggerRegistry : TriggerRegistry}
  {draws : DefinitionDraws} {now : UUID → Datetime} {db : Database}
  {request : CreateWorkflowDefinition}

/-- When the states of all triggers are initialized, they wait to be inserted. -/
theorem initializeEach_pending {resolved : List (TriggerDefinition × TriggerPlugin)}
    {x x' : DefinitionSession} (h : initializeEach now resolved x = .ok x') :
    ∃ next, (∀ trigger ∈ resolved, firstOccurrence now trigger = .ok (next trigger)) ∧
      x' = { x with pending := x.pending ++ (stateRows next resolved).map .insert } := by
  have hnext : ∀ trigger ∈ resolved, firstOccurrence now trigger =
      .ok ((firstOccurrence now trigger).toOption.join) := by
    intro trigger htrigger
    obtain ⟨next, hnext⟩ := initializeEach_cases h trigger htrigger
    rw [hnext]
    rfl
  rw [initializeEach_ok hnext, Except.ok.injEq] at h
  exact ⟨_, hnext, h.symm⟩

/-- What a creation that succeeds has done. -/
structure CreatedDefinition (taskRegistry : TaskRegistry) (triggerRegistry : TriggerRegistry)
    (draws : DefinitionDraws) (now : UUID → Datetime) (request : CreateWorkflowDefinition)
    (resolved : List (TriggerDefinition × TriggerPlugin)) (db db' : Database) : Prop where
  tasks : validateTasks taskRegistry request.tasks = .ok ()
  triggers : createTriggerDefinitions triggerRegistry draws request.triggers = .ok resolved
  created : CreatedAs draws now request resolved db db'
  added : Added db.definitions db'.definitions (requested draws request)
  consistent : (definitionSchema db.executions).Consistent db'.definitions

theorem create_cases (hs : (definitionSchema db.executions).Consistent db.definitions)
    (hnew : NewIds draws db.definitions) {r : UUID × Database}
    (h : create taskRegistry triggerRegistry draws now db request = .ok r) :
    r.1 = draws.workflowDefinitionId ∧ ∃ resolved,
      CreatedDefinition taskRegistry triggerRegistry draws now request resolved db r.2 := by
  obtain ⟨resolved, s₁, x, s₂, htasks, htriggers, hwrite, hinitialize, hcommit, rfl⟩ :=
    create_stages h
  have hlinked := (validateTasks_ok.mp htasks).1.linked
  have hdistinct := distinct_requested hnew hlinked
  have hids := resolved_nodup hnew hlinked htriggers
  obtain ⟨-, hs₁, hrow₁⟩ := writeDefinition_cases hs hdistinct hwrite
  obtain ⟨next, hnext, rfl⟩ := initializeEach_pending hinitialize
  change ({ store := s₁, pending := (stateRows _ resolved).map .insert } :
    DefinitionSession).commit _ = _ at hcommit
  have hfree : ∀ trigger ∈ resolved,
      s₁.row (.chronologicalTriggerState trigger.1.id) = none := by
    intro trigger htrigger
    rw [hrow₁, saved_state_none hs hnew (mem_requested htriggers htrigger)]
  have hrow₂ := commit_states hs₁ hids hfree hcommit
  have hstates : ∀ k, (∀ i, k ≠ .chronologicalTriggerState i) → s₂.row k = s₁.row k := by
    intro k hk
    rw [hrow₂, List.dlookup_eq_none.mpr, Option.none_or]
    intro hkey
    obtain ⟨trigger, -, rfl⟩ := List.mem_map.mp ((keys_stateRows _ resolved).subset hkey)
    exact hk _ rfl
  have hcreated := createdAs_of_rows hs hnew hlinked htriggers hnext hrow₁ hrow₂
  refine ⟨rfl, resolved, htasks, htriggers, hcreated, ⟨hnew.workflow, ?_, ?_, hcreated.others⟩, ?_⟩
  · intro t ht
    obtain ⟨task, -, rfl⟩ := List.mem_map.mp ht
    exact hnew.tasks task.key
  · exact (stored_of_saved hdistinct hrow₁).of_rows hstates
  · unfold Sql.OrmSession.commit at hcommit
    rw [Sql.Schema.settle_inserts (nodupKeys_stateRows _ hids)] at hcommit
    · exact (Sql.Schema.writeEach_cases hs₁ (nodupKeys_stateRows _ hids) hcommit).1
    · intro j hj
      obtain ⟨trigger, htrigger, rfl⟩ :=
        List.mem_map.mp ((keys_stateRows _ resolved).subset hj)
      exact hfree trigger htrigger

/-- Creating a definition keeps what is known of the others and establishes it of the new one. -/
theorem Validated.create (hs : Validated db.definitions) (hnew : NewIds draws db.definitions)
    {r : UUID × Database} (h : create .discovered .discovered draws now db request = .ok r) :
    Validated r.2.definitions := by
  obtain ⟨-, resolved, hcreated⟩ :=
    create_cases (consistent_executions hs.consistent db.executions) hnew h
  refine hs.added hcreated.added (requested_valid hnew.taskIds hcreated.tasks)
    (consistent_executions hcreated.consistent _) ?_ ?_
  · intro t ht
    obtain ⟨task, htask, rfl⟩ := List.mem_map.mp ht
    exact (validateTasks_ok.mp hcreated.tasks).1.plugins task htask
  · intro t ht
    have hresolved : t ∈ resolved.map (·.1) := by
      rw [createTriggerDefinitions_ok hcreated.triggers]
      exact ht
    obtain ⟨trigger, htrigger, rfl⟩ := List.mem_map.mp hresolved
    obtain ⟨hplugin, hregistered, -⟩ := interval_of_resolved hcreated.triggers htrigger
    obtain ⟨_, -, hresult⟩ := exists_of_forall₂ (forall₂_of_mapM hcreated.triggers).flip htrigger
    exact ⟨trigger.2, hplugin ▸ hregistered, createTriggerDefinition_validated hresult⟩

end Create

/-! ### Deleting a definition -/

section Delete

variable {s s' : DefinitionStore} {db db' : Database} {id : UUID}

/-- Without a definition there is nothing to delete. -/
theorem delete_missing (hmissing : ¬ (workflowDefinitionRow db.definitions id).isSome = true)
    (h : delete db id = .ok db') : db' = db := by
  have hload : load db.definitions id = none := by
    unfold load
    rw [Option.not_isSome_iff_eq_none.mp hmissing]
  have hflush : ({ store := db.definitions } : DefinitionSession).flush
      (definitionSchema db.executions) = .ok { store := db.definitions } := rfl
  unfold WorkflowDefinitionService.delete WorkflowDefinitionRepository.delete at h
  rw [hflush] at h
  simp only [bind, Except.bind, hload] at h
  exact (Except.ok.inj h).symm

/-- What a deletion that commits has done. -/
theorem delete_cases (hs : (definitionSchema db.executions).Consistent db.definitions)
    (h : delete db id = .ok db') :
    db' = db ∨ (Unexecuted db.executions db.definitions id ∧ Deleted db db' id ∧
      (definitionSchema db.executions).Consistent db'.definitions) := by
  by_cases hstored : (workflowDefinitionRow db.definitions id).isSome = true
  · rw [delete_eq hstored] at h
    obtain ⟨s', hmarked, h⟩ := bind_eq_ok.mp h
    obtain rfl := Except.ok.inj h
    rw [databaseError_ok_iff] at hmarked
    obtain ⟨-, hunexecuted, howned, hothers⟩ := deleteMarked_cases hs hstored hmarked
    refine Or.inr ⟨hunexecuted, ⟨?_, howned, hothers, rfl⟩,
      hs.deleteEach (fun _ _ _ => definitionSchema.shallow _) hmarked⟩
    show load s' id = none
    unfold load
    rw [show workflowDefinitionRow s' id = none from howned (.workflow id) rfl]
  · exact Or.inl (delete_missing hstored h)

/-- A row that is left was there before. -/
theorem WorkflowDefinitionService.Deleted.before (h : Deleted db db' id) {k : DefinitionRowId}
    {v : DefinitionRow k} (hk : db'.definitions.row k = some v) :
    db.definitions.row k = some v ∧ ¬ RowOf db.definitions id k := by
  by_cases howned : RowOf db.definitions id k
  · rw [h.owned k howned] at hk
    simp at hk
  · exact ⟨(h.others k howned).symm.trans hk, howned⟩

theorem WorkflowDefinitionService.Deleted.depends (h : Deleted db db' id) {a b : UUID}
    (hab : Depends db'.definitions a b) : Depends db.definitions a b := by
  obtain ⟨v, hv⟩ := Option.isSome_iff_exists.mp hab
  exact Option.isSome_of_eq_some (h.before hv).1

/-- A task of another definition is still there. -/
theorem WorkflowDefinitionService.Deleted.task_kept (h : Deleted db db' id) {i : UUID}
    {m : TaskDefinitionModel} (hi : taskDefinitionRow db.definitions i = some m) (hne : m.workflowDefinitionId ≠ id) :
    taskDefinitionRow db'.definitions i = some m := by
  refine (h.others (.task i) ?_).trans hi
  rintro ⟨m', hm', hid⟩
  obtain rfl := Option.some.inj (hi.symm.trans hm')
  exact hne hid

/-- A deletion leaves validated definitions. -/
theorem Validated.deleted (hs : Validated db.definitions) (h : Deleted db db' id)
    (hs' : (definitionSchema .empty).Consistent db'.definitions) :
    Validated db'.definitions where
  consistent := hs'
  inhabited := by
    intro j hj
    obtain ⟨m, hm⟩ := Option.isSome_iff_exists.mp hj
    obtain ⟨hold, hne⟩ := h.before hm
    obtain ⟨i, mi, hi, hid⟩ := hs.inhabited j (Option.isSome_of_eq_some hold)
    exact ⟨i, mi, h.task_kept hi (hid ▸ hne), hid⟩
  inside := by
    intro a b m hab hm
    obtain ⟨hold, hne⟩ := h.before hm
    obtain ⟨m', hm', hid⟩ := hs.inside a b m (h.depends hab) hold
    refine ⟨m', h.task_kept hm' fun heq => hne ⟨m, hold, hid.symm.trans heq⟩, hid⟩
  acyclic := by
    intro i hcycle
    exact hs.acyclic i (Relation.TransGen.mono (fun _ _ => h.depends) i i hcycle)
  maxTries := fun i m hi => hs.maxTries i m (h.before hi).1
  tasks := fun i m hi => hs.tasks i m (h.before hi).1
  triggers := fun i m hi => hs.triggers i m (h.before hi).1

theorem Validated.delete (hs : Validated db.definitions) (h : delete db id = .ok db') :
    Validated db'.definitions := by
  rcases delete_cases (consistent_executions hs.consistent _) h with rfl | ⟨-, hdeleted, hs'⟩
  · exact hs
  · exact hs.deleted hdeleted (consistent_executions hs' _)

end Delete

/-! ### Rescheduling a trigger -/

section Reschedule

variable {s s' : DefinitionStore} {id : UUID} {next : Option Datetime}

/-- Only the state of the trigger is written. -/
theorem reschedule_rows (h : ChronologicalTriggerService.reschedule s id next = .ok s') :
    ∀ k, (∀ i, k ≠ .chronologicalTriggerState i) → s'.row k = s.row k :=
  fun k hk => (reschedule_spec h).2 k (hk id)

/-- No state appears for a trigger that has none. -/
theorem state_of_reschedule (h : ChronologicalTriggerService.reschedule s id next = .ok s')
    {i : UUID} (hi : (triggerStateRow s' i).isSome = true) :
    (triggerStateRow s i).isSome = true := by
  by_cases heq : i = id
  · subst heq
    cases next with
    | none =>
        rw [(reschedule_spec h).1] at hi
        simp at hi
    | some o =>
        simp only [ChronologicalTriggerService.reschedule,
          ChronologicalTriggerRepository.updateNextRun] at h
        split at h
        · rename_i state hstate
          rw [hstate]
          rfl
        · simp at h
  · rw [triggerStateRow, (reschedule_spec h).2 _ (by simpa using heq)] at hi
    exact hi

/-- A scheduler leaves validated definitions. -/
theorem Validated.reschedule (hs : Validated s)
    (h : ChronologicalTriggerService.reschedule s id next = .ok s') : Validated s' := by
  have hrows := reschedule_rows h
  have hworkflow : ∀ i, workflowDefinitionRow s' i = workflowDefinitionRow s i :=
    fun i => hrows (.workflow i) (by simp)
  have htask : ∀ i, taskDefinitionRow s' i = taskDefinitionRow s i :=
    fun i => hrows (.task i) (by simp)
  have htrigger : ∀ i, triggerDefinitionRow s' i = triggerDefinitionRow s i :=
    fun i => hrows (.trigger i) (by simp)
  have hdepends : Depends s' = Depends s := by
    funext a b
    unfold Depends
    rw [hrows (.dependency a b) (by simp)]
  refine ⟨⟨?_, ?_⟩, ?_, ?_, ?_, ?_, ?_, ?_⟩
  · intro k v hk j hj
    have hreferred : (s.row j).isSome = true := by
      cases k with
      | chronologicalTriggerState i =>
          obtain ⟨state, hstate⟩ := Option.isSome_iff_exists.mp
            (state_of_reschedule h (Option.isSome_of_eq_some hk))
          exact hs.consistent.resolved (.chronologicalTriggerState i) state hstate j hj
      | workflow i => simp at hj
      | task i => exact hs.consistent.resolved _ v ((hrows _ (by simp)).symm.trans hk) j hj
      | dependency a b => exact hs.consistent.resolved _ v ((hrows _ (by simp)).symm.trans hk) j hj
      | trigger i => exact hs.consistent.resolved _ v ((hrows _ (by simp)).symm.trans hk) j hj
    rw [hrows j fun i hji => ?_]
    · exact hreferred
    · -- Nothing refers to the state of a trigger.
      have hcascades := definitionSchema.shallow .empty hj
      rw [hji] at hcascades
      simp [definitionSchema] at hcascades
  · intro j k v w value hj hk hv hw
    obtain ⟨a, t, ha, -⟩ := definitionSchema.unique_eq_some .empty hv
    obtain ⟨b, u, hb, -⟩ := definitionSchema.unique_eq_some .empty hw
    obtain ⟨rfl, rfl⟩ := Sigma.mk.inj ha
    obtain ⟨rfl, rfl⟩ := Sigma.mk.inj hb
    exact hs.consistent.unique _ _ _ _ value ((htask a).symm.trans hj) ((htask b).symm.trans hk)
      hv hw
  · intro j hj
    rw [hworkflow] at hj
    obtain ⟨i, m, hi, hid⟩ := hs.inhabited j hj
    exact ⟨i, m, (htask i).trans hi, hid⟩
  · intro a b m hab hm
    rw [hdepends] at hab
    obtain ⟨m', hm', hid⟩ := hs.inside a b m hab ((htask a).symm.trans hm)
    exact ⟨m', (htask b).trans hm', hid⟩
  · rw [hdepends]
    exact hs.acyclic
  · exact fun i m hi => hs.maxTries i m ((htask i).symm.trans hi)
  · exact fun i m hi => hs.tasks i m ((htask i).symm.trans hi)
  · exact fun i m hi => hs.triggers i m ((htrigger i).symm.trans hi)

/-- A start finds validated definitions, whether its trigger has been rescheduled or not. -/
theorem Validated.started (hs : Validated s) (h : s' = s ∨ ∃ trigger next,
    ChronologicalTriggerService.reschedule s trigger next = .ok s') : Validated s' := by
  rcases h with rfl | ⟨trigger, next, hreschedule⟩
  · exact hs
  · exact hs.reschedule hreschedule

end Reschedule

end AutomationPlatform
