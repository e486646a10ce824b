/-
Loading a definition that is stored.

Nothing orders the statements of `load`, so a definition comes back with its tasks, its
triggers and the dependencies of each task in whatever order the scan has them.  Up to that
order it is the definition that was stored, when the rows with its identifier are its parts
and nothing else.
-/
import AutomationPlatform.Proofs.Definitions.Save
import Mathlib.Data.List.Perm.Basic

namespace AutomationPlatform

open WorkflowDefinitionMapper

/-- The same task, with its dependencies in any order. -/
structure TaskDefinition.Same (a b : TaskDefinition) : Prop where
  id : a.id = b.id
  pluginType : a.pluginType = b.pluginType
  key : a.key = b.key
  configuration : a.configuration = b.configuration
  dependencies : a.dependencies.Perm b.dependencies
  maxTries : a.maxTries = b.maxTries

/-- The same definition, with everything it lists in any order. -/
structure WorkflowDefinition.SameUpToOrder (a b : WorkflowDefinition) : Prop where
  id : a.id = b.id
  name : a.name = b.name
  description : a.description = b.description
  enabled : a.enabled = b.enabled
  tasks : ∃ l, l.Perm b.taskDefinitions ∧ List.Forall₂ TaskDefinition.Same a.taskDefinitions l
  triggers : a.triggerDefinitions.Perm b.triggerDefinitions

theorem WorkflowDefinition.SameUpToOrder.refl (wd : WorkflowDefinition) : wd.SameUpToOrder wd :=
  ⟨rfl, rfl, rfl, rfl,
    ⟨_, .refl _, List.forall₂_same.mpr fun _ _ => ⟨rfl, rfl, rfl, rfl, .refl _, rfl⟩⟩, .refl _⟩

theorem TaskDefinition.Same.trans {a b c : TaskDefinition} (h : a.Same b) (h' : b.Same c) :
    a.Same c :=
  ⟨h.id.trans h'.id, h.pluginType.trans h'.pluginType, h.key.trans h'.key,
    h.configuration.trans h'.configuration, h.dependencies.trans h'.dependencies,
    h.maxTries.trans h'.maxTries⟩

theorem TaskDefinition.Same.forall₂_trans {l l' l'' : List TaskDefinition}
    (h : List.Forall₂ TaskDefinition.Same l l') (h' : List.Forall₂ TaskDefinition.Same l' l'') :
    List.Forall₂ TaskDefinition.Same l l'' := by
  induction h generalizing l'' with
  | nil => exact h'
  | cons hab _ ih =>
      cases h' with
      | cons hbc hrest => exact .cons (hab.trans hbc) (ih hrest)

theorem WorkflowDefinition.SameUpToOrder.trans {a b c : WorkflowDefinition}
    (h : a.SameUpToOrder b) (h' : b.SameUpToOrder c) : a.SameUpToOrder c := by
  obtain ⟨l, hperm, hsame⟩ := h.tasks
  obtain ⟨l', hperm', hsame'⟩ := h'.tasks
  -- The tasks of `b` are matched in the order in which `a` lists them.
  obtain ⟨l'', hsame'', hperm''⟩ := List.perm_comp_forall₂ hperm hsame'
  refine ⟨h.id.trans h'.id, h.name.trans h'.name, h.description.trans h'.description,
    h.enabled.trans h'.enabled, ⟨l'', hperm''.trans hperm', ?_⟩, h.triggers.trans h'.triggers⟩
  exact TaskDefinition.Same.forall₂_trans hsame hsame''

namespace WorkflowDefinitionRepository

/-- The rows with the identifier of a definition are its parts. -/
structure Stored (s : DefinitionStore) (wd : WorkflowDefinition) : Prop where
  workflow : workflowDefinitionRow s wd.id = some (workflowToModel wd)
  tasks : ∀ i m, taskDefinitionRow s i = some m ∧ m.workflowDefinitionId = wd.id ↔
    ∃ t ∈ wd.taskDefinitions, t.id = i ∧ taskToModel wd.id t = m
  dependencies : ∀ t ∈ wd.taskDefinitions, ∀ b,
    (s.row (.dependency t.id b)).isSome = true ↔ b ∈ t.dependencies
  triggers : ∀ i m, triggerDefinitionRow s i = some m ∧ m.workflowDefinitionId = wd.id ↔
    ∃ t ∈ wd.triggerDefinitions, t.id = i ∧ triggerToModel wd.id t = m

variable {s : DefinitionStore} {wd : WorkflowDefinition} {id : UUID}

/-! ### What a load finds -/

theorem mem_loadTasks {t : TaskDefinition} : t ∈ loadTasks s id ↔
    ∃ i m, taskDefinitionRow s i = some m ∧ m.workflowDefinitionId = id ∧
      t = taskToDomain i m (loadDependencies s id i) := by
  unfold loadTasks
  rw [Sql.Store.mem_scan]
  constructor
  · intro ⟨k, v, hk, hf⟩
    cases k with
    | task i =>
        simp only [Option.ite_none_right_eq_some, Option.some.injEq] at hf
        exact ⟨i, v, hk, hf.1, hf.2.symm⟩
    | workflow => simp at hf
    | dependency => simp at hf
    | trigger => simp at hf
    | chronologicalTriggerState => simp at hf
  · intro ⟨i, m, hi, hid, ht⟩
    exact ⟨.task i, m, hi, by simp only [hid, if_true, ht]⟩

theorem mem_loadTriggers {t : TriggerDefinition} : t ∈ loadTriggers s id ↔
    ∃ i m, triggerDefinitionRow s i = some m ∧ m.workflowDefinitionId = id ∧
      t = triggerToDomain i m := by
  unfold loadTriggers
  rw [Sql.Store.mem_scan]
  constructor
  · intro ⟨k, v, hk, hf⟩
    cases k with
    | trigger i =>
        simp only [Option.ite_none_right_eq_some, Option.some.injEq] at hf
        exact ⟨i, v, hk, hf.1, hf.2.symm⟩
    | workflow => simp at hf
    | task => simp at hf
    | dependency => simp at hf
    | chronologicalTriggerState => simp at hf
  · intro ⟨i, m, hi, hid, ht⟩
    exact ⟨.trigger i, m, hi, by simp only [hid, if_true, ht]⟩

theorem mem_dependencyRows {a b : UUID} : (a, b) ∈ dependencyRows s id ↔
    (s.row (.dependency a b)).isSome = true ∧
      ∃ m, taskDefinitionRow s a = some m ∧ m.workflowDefinitionId = id := by
  unfold dependencyRows
  rw [Sql.Store.mem_scan]
  constructor
  · intro ⟨k, v, hk, hf⟩
    cases k with
    | dependency i j =>
        simp only [Option.ite_none_right_eq_some, Option.some.injEq, Prod.mk.injEq,
          Option.any_eq_true, decide_eq_true_eq] at hf
        obtain ⟨hm, rfl, rfl⟩ := hf
        exact ⟨by rw [hk]; rfl, hm⟩
    | workflow => simp at hf
    | task => simp at hf
    | trigger => simp at hf
    | chronologicalTriggerState => simp at hf
  · intro ⟨hrow, m, hm, hid⟩
    obtain ⟨v, hv⟩ := Option.isSome_iff_exists.mp hrow
    exact ⟨.dependency a b, v, hv, by simp [hm, hid]⟩

theorem mem_loadDependencies {a b : UUID} : b ∈ loadDependencies s id a ↔
    (s.row (.dependency a b)).isSome = true ∧
      ∃ m, taskDefinitionRow s a = some m ∧ m.workflowDefinitionId = id := by
  rw [← mem_dependencyRows]
  simp [loadDependencies]

/-! ### Nothing is found twice -/

theorem loadDependencies_nodup (a : UUID) : (loadDependencies s id a).Nodup := by
  have hrows : ((dependencyRows s id).map fun x => x).Nodup := by
    refine Sql.Store.scan_map_nodup _ (fun x => .dependency x.1 x.2) fun k v x hx => ?_
    cases k with
    | dependency i j =>
        simp only [Option.ite_none_right_eq_some, Option.some.injEq] at hx
        rw [← hx.2]
    | workflow => simp at hx
    | task => simp at hx
    | trigger => simp at hx
    | chronologicalTriggerState => simp at hx
  rw [List.map_id'] at hrows
  refine (List.nodup_map_iff_inj_on (hrows.filter _)).mpr ?_
  intro x hx y hy hxy
  have hx' : x.1 = a := by simpa using (List.mem_filter.mp hx).2
  have hy' : y.1 = a := by simpa using (List.mem_filter.mp hy).2
  exact Prod.ext (hx'.trans hy'.symm) hxy

theorem loadTasks_nodup : ((loadTasks s id).map (·.id)).Nodup := by
  refine Sql.Store.scan_map_nodup _ .task fun k v t ht => ?_
  cases k with
  | task i =>
      simp only [Option.ite_none_right_eq_some, Option.some.injEq] at ht
      rw [← ht.2]
      rfl
  | workflow => simp at ht
  | dependency => simp at ht
  | trigger => simp at ht
  | chronologicalTriggerState => simp at ht

theorem loadTriggers_nodup : ((loadTriggers s id).map (·.id)).Nodup := by
  refine Sql.Store.scan_map_nodup _ .trigger fun k v t ht => ?_
  cases k with
  | trigger i =>
      simp only [Option.ite_none_right_eq_some, Option.some.injEq] at ht
      rw [← ht.2]
      rfl
  | workflow => simp at ht
  | task => simp at ht
  | dependency => simp at ht
  | chronologicalTriggerState => simp at ht

/-! ### A stored definition is loaded -/

/-- What is loaded for a task of a stored definition is that task. -/
theorem loadedTask_same (h : Stored s wd) {t : TaskDefinition} (ht : t ∈ wd.taskDefinitions)
    (hnd : t.dependencies.Nodup) :
    (taskToDomain t.id (taskToModel wd.id t) (loadDependencies s wd.id t.id)).Same t where
  id := rfl
  pluginType := rfl
  key := rfl
  configuration := rfl
  dependencies := by
    refine (List.perm_ext_iff_of_nodup (loadDependencies_nodup t.id) hnd).mpr fun b => ?_
    rw [mem_loadDependencies, h.dependencies t ht b, and_iff_left]
    exact ⟨_, (h.tasks t.id (taskToModel wd.id t)).mpr ⟨t, ht, rfl, rfl⟩⟩
  maxTries := rfl

theorem loadTasks_same (hwd : Distinct wd) (h : Stored s wd) :
    ∃ l, l.Perm wd.taskDefinitions ∧
      List.Forall₂ TaskDefinition.Same (loadTasks s wd.id) l := by
  have hof : ∀ t ∈ loadTasks s wd.id, ∃ u ∈ wd.taskDefinitions, t.Same u := by
    intro t ht
    obtain ⟨i, m, hi, hid, rfl⟩ := mem_loadTasks.mp ht
    obtain ⟨u, hu, rfl, rfl⟩ := (h.tasks i m).mp ⟨hi, hid⟩
    exact ⟨u, hu, loadedTask_same h hu (hwd.dependencies u hu)⟩
  -- Every loaded task is replaced by the one of the definition with its identifier.
  let original := fun t : TaskDefinition => (taskNamed wd.taskDefinitions t.id).getD t
  have horiginal : ∀ t u, u ∈ wd.taskDefinitions → t.Same u → original t = u := by
    intro t u hu htu
    show (taskNamed wd.taskDefinitions t.id).getD t = u
    rw [htu.id, taskNamed_of_mem hwd.ids hu]
    rfl
  refine ⟨(loadTasks s wd.id).map original, ?_, ?_⟩
  · refine (List.perm_ext_iff_of_nodup ?_ hwd.ids.of_map).mpr fun u => ?_
    · refine List.Nodup.of_map (·.id) ?_
      rw [List.map_map]
      refine (List.map_congr_left fun t ht => ?_ : _ = (loadTasks s wd.id).map (·.id)) ▸
        loadTasks_nodup
      obtain ⟨u, hu, htu⟩ := hof t ht
      rw [Function.comp, horiginal t u hu htu, htu.id]
    · rw [List.mem_map]
      constructor
      · intro ⟨t, ht, htu⟩
        obtain ⟨v, hv, htv⟩ := hof t ht
        rw [← htu, horiginal t v hv htv]
        exact hv
      · intro hu
        obtain ⟨hrow, -⟩ := (h.tasks u.id (taskToModel wd.id u)).mpr ⟨u, hu, rfl, rfl⟩
        exact ⟨_, mem_loadTasks.mpr ⟨_, _, hrow, rfl, rfl⟩,
          horiginal _ u hu (loadedTask_same h hu (hwd.dependencies u hu))⟩
  · rw [List.forall₂_map_right_iff, List.forall₂_same]
    intro t ht
    obtain ⟨u, hu, htu⟩ := hof t ht
    rw [horiginal t u hu htu]
    exact htu

theorem loadTriggers_perm (hwd : Distinct wd) (h : Stored s wd) :
    (loadTriggers s wd.id).Perm wd.triggerDefinitions := by
  refine (List.perm_ext_iff_of_nodup loadTriggers_nodup.of_map hwd.triggerIds.of_map).mpr fun t => ?_
  rw [mem_loadTriggers]
  constructor
  · intro ⟨i, m, hi, hid, ht⟩
    obtain ⟨u, hu, rfl, rfl⟩ := (h.triggers i m).mp ⟨hi, hid⟩
    exact ht ▸ hu
  · intro ht
    obtain ⟨hrow, hid⟩ := (h.triggers t.id (triggerToModel wd.id t)).mpr ⟨t, ht, rfl, rfl⟩
    exact ⟨_, _, hrow, hid, rfl⟩

/-- The states of the triggers say nothing about what is stored of a definition. -/
theorem Stored.of_rows {s' : DefinitionStore} (h : Stored s wd)
    (hrow : ∀ k, (∀ i, k ≠ .chronologicalTriggerState i) → s'.row k = s.row k) :
    Stored s' wd where
  workflow := (hrow _ (by simp)).trans h.workflow
  tasks := fun i m => by
    rw [taskDefinitionRow, hrow _ (by simp)]
    exact h.tasks i m
  dependencies := fun t ht b => by
    rw [hrow _ (by simp)]
    exact h.dependencies t ht b
  triggers := fun i m => by
    rw [triggerDefinitionRow, hrow _ (by simp)]
    exact h.triggers i m

/-- **A stored definition is loaded**, up to the order of what it lists. -/
theorem load_of_stored (hwd : Distinct wd) (h : Stored s wd) :
    ∃ wd', load s wd.id = some wd' ∧ wd'.SameUpToOrder wd := by
  refine ⟨workflowToDomain wd.id (workflowToModel wd) (loadTasks s wd.id) (loadTriggers s wd.id),
    ?_, ?_⟩
  · unfold load
    rw [h.workflow]
  · exact ⟨rfl, rfl, rfl, rfl, loadTasks_same hwd h, loadTriggers_perm hwd h⟩

end WorkflowDefinitionRepository

end AutomationPlatform
