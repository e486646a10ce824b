/-
A compiled execution has the graph of its definition.

Parents are looked up for each task, children are collected in a table while the tasks are
walked.  Both come to the same graph as the dependencies, with identifiers of executions in
the place of identifiers of definitions.
-/
import AutomationPlatform.Graph.Order
import AutomationPlatform.Proofs.Executions.Compile

namespace AutomationPlatform

namespace WorkflowStartService

variable {draws : Draws} {now : Datetime} {wd : WorkflowDefinition}

/-- A task execution that was made of a task definition and has not been started. -/
structure MadeOf (workflow : WorkflowExecution) (d : TaskDefinition) (t : TaskExecution) :
    Prop where
  workflowExecutionId : t.workflowExecutionId = workflow.id
  taskDefinitionId : t.taskDefinitionId = d.id
  key : t.key = d.key
  pluginType : t.pluginType = d.pluginType
  configuration : t.configuration = d.configuration
  status : t.status = .pending
  remainingTries : t.remainingTries = d.maxTries
  remainingDependencies : t.remainingDependencies = t.parentTaskIds.length
  output : t.output = none
  errorMessage : t.errorMessage = none
  startedAt : t.startedAt = none
  completedAt : t.completedAt = none

/-- The task executions of a workflow are those of its definition, one for each and in their
order, and have the same graph. -/
structure Copies (workflow : WorkflowExecution) (wd : WorkflowDefinition) : Prop where
  tasks : List.Forall₂ (MadeOf workflow) wd.taskDefinitions workflow.taskExecutions
  ids : (workflow.taskExecutions.map (·.id)).Nodup
  parents : ∀ c ∈ workflow.taskExecutions, ∀ p ∈ workflow.taskExecutions,
    p.id ∈ c.parentTaskIds ↔ wd.DependsOn c.taskDefinitionId p.taskDefinitionId
  children : ∀ c ∈ workflow.taskExecutions, ∀ p ∈ workflow.taskExecutions,
    c.id ∈ p.childTaskIds ↔ wd.DependsOn c.taskDefinitionId p.taskDefinitionId
  parents_known : ∀ c ∈ workflow.taskExecutions, ∀ i ∈ c.parentTaskIds,
    i ∈ workflow.taskExecutions.map (·.id)
  parents_nodup : ∀ c ∈ workflow.taskExecutions, c.parentTaskIds.Nodup
  /-- The children come in the order of the tasks, each at most once. -/
  children_sublist : ∀ p ∈ workflow.taskExecutions,
    p.childTaskIds.Sublist (workflow.taskExecutions.map (·.id))

/-- The tasks of a definition were given different identifiers. -/
def DistinctDraws (draws : Draws) (wd : WorkflowDefinition) : Prop :=
  ∀ d ∈ wd.taskDefinitions, ∀ e ∈ wd.taskDefinitions,
    draws.taskExecutionId d.id = draws.taskExecutionId e.id → d.id = e.id

theorem dependsOn_iff (hlinked : wd.Linked) {d : TaskDefinition} (hd : d ∈ wd.taskDefinitions)
    {p : UUID} : wd.DependsOn d.id p ↔ p ∈ d.dependencies := by
  constructor
  · intro ⟨e, he, hid, hp⟩
    exact List.inj_on_of_nodup_map hlinked.ids he hd hid ▸ hp
  · intro hp
    exact ⟨d, hd, rfl, hp⟩

/-- The identifier of an execution is among those of a list when that of its definition is among
the corresponding ones. -/
theorem mem_map_draws (hdraws : DistinctDraws draws wd) {ids : List UUID}
    (hids : ∀ i ∈ ids, i ∈ wd.taskDefinitions.map (·.id)) {d : TaskDefinition}
    (hd : d ∈ wd.taskDefinitions) :
    draws.taskExecutionId d.id ∈ ids.map draws.taskExecutionId ↔ d.id ∈ ids := by
  constructor
  · intro h
    obtain ⟨i, hi, heq⟩ := List.mem_map.mp h
    obtain ⟨e, he, rfl⟩ := List.mem_map.mp (hids i hi)
    exact hdraws e he d hd heq ▸ hi
  · intro h
    exact List.mem_map_of_mem h

theorem copies_compiled (hlinked : wd.Linked) (hdraws : DistinctDraws draws wd) :
    Copies (compiled draws now wd) wd where
  tasks := by
    show List.Forall₂ _ wd.taskDefinitions (wd.taskDefinitions.map (compiledTask draws wd))
    rw [List.forall₂_map_right_iff, List.forall₂_same]
    intro d _
    exact ⟨rfl, rfl, rfl, rfl, rfl, rfl, rfl, by simp [compiledTask], rfl, rfl, rfl, rfl⟩
  ids := by
    show ((wd.taskDefinitions.map (compiledTask draws wd)).map (·.id)).Nodup
    rw [List.map_map]
    refine (List.nodup_map_iff_inj_on hlinked.ids.of_map).mpr fun d hd e he heq => ?_
    exact List.inj_on_of_nodup_map hlinked.ids hd he (hdraws d hd e he heq)
  parents := by
    intro c hc p hp
    obtain ⟨d, hd, rfl⟩ := List.mem_map.mp hc
    obtain ⟨e, he, rfl⟩ := List.mem_map.mp hp
    exact (mem_map_draws hdraws (hlinked.known d hd) he).trans
      (dependsOn_iff hlinked hd).symm
  children := by
    intro c hc p hp
    obtain ⟨d, hd, rfl⟩ := List.mem_map.mp hc
    obtain ⟨e, he, rfl⟩ := List.mem_map.mp hp
    show draws.taskExecutionId d.id ∈ childrenOf draws wd.taskDefinitions e.id ↔ wd.DependsOn d.id e.id
    rw [mem_childrenOf, dependsOn_iff hlinked hd]
    constructor
    · rintro ⟨d', hd', hdep, hid⟩
      exact List.inj_on_of_nodup_map hlinked.ids hd' hd (hdraws d' hd' d hd hid) ▸ hdep
    · intro hdep
      exact ⟨d, hd, hdep, rfl⟩
  parents_known := by
    intro c hc i hi
    obtain ⟨d, hd, rfl⟩ := List.mem_map.mp hc
    obtain ⟨j, hj, rfl⟩ := List.mem_map.mp hi
    obtain ⟨e, he, rfl⟩ := List.mem_map.mp (hlinked.known d hd j hj)
    exact List.mem_map_of_mem (List.mem_map_of_mem he)
  parents_nodup := by
    intro c hc
    obtain ⟨d, hd, rfl⟩ := List.mem_map.mp hc
    refine (List.nodup_map_iff_inj_on (hlinked.duplicates d hd)).mpr fun i hi j hj heq => ?_
    obtain ⟨a, ha, rfl⟩ := List.mem_map.mp (hlinked.known d hd i hi)
    obtain ⟨b, hb, rfl⟩ := List.mem_map.mp (hlinked.known d hd j hj)
    exact hdraws a ha b hb heq
  children_sublist := by
    intro p hp
    obtain ⟨e, he, rfl⟩ := List.mem_map.mp hp
    show (childrenOf draws wd.taskDefinitions e.id).Sublist
      ((wd.taskDefinitions.map (compiledTask draws wd)).map (·.id))
    rw [List.map_map]
    exact List.filter_sublist.map _

/-- The root tasks are the tasks without parents, in their order. -/
theorem rootsOf_eq : rootsOf draws wd =
    ((compiled draws now wd).taskExecutions.filter (·.parentTaskIds = [])).map (·.id) := by
  show _ = ((wd.taskDefinitions.map (compiledTask draws wd)).filter _).map _
  rw [List.filter_map, List.map_map, rootsOf]
  refine congrArg₂ List.map rfl (List.filter_congr fun d _ => ?_)
  cases hdeps : d.dependencies <;> simp [compiledTask, hdeps]

/-- Without a cycle there is a task to begin with. -/
theorem rootsOf_ne_nil (hne : wd.taskDefinitions ≠ [])
    (hknown : ∀ d ∈ wd.taskDefinitions, ∀ p ∈ d.dependencies, p ∈ wd.taskDefinitions.map (·.id))
    (hacyclic : ∀ i, ¬ Relation.TransGen wd.DependsOn i i) : rootsOf draws wd ≠ [] := by
  obtain ⟨d, hd⟩ := List.exists_mem_of_ne_nil _ hne
  obtain ⟨m, hm, hsource⟩ := Graph.exists_source hacyclic (wd.taskDefinitions.map (·.id)).toFinset
    ⟨d.id, List.mem_toFinset.mpr (List.mem_map_of_mem hd)⟩
  obtain ⟨e, he, rfl⟩ := List.mem_map.mp (List.mem_toFinset.mp hm)
  have hnone : e.dependencies = [] := by
    rw [List.eq_nil_iff_forall_not_mem]
    intro p hp
    exact hsource p (List.mem_toFinset.mpr (hknown e he p hp)) ⟨e, he, rfl, hp⟩
  have hmem : draws.taskExecutionId e.id ∈ rootsOf draws wd := by
    refine List.mem_map.mpr ⟨e, List.mem_filter.mpr ⟨he, ?_⟩, rfl⟩
    simp [hnone]
  exact List.ne_nil_of_mem hmem

/-- **The compilation keeps the graph.**  A definition whose dependencies are its own tasks
compiles, its execution has one waiting task for each of its tasks and the same graph, and the
root tasks are those without parents, of which there are some if there is no cycle. -/
theorem compilation_isomorphism (draws : Draws) (now : Datetime) (hlinked : wd.Linked)
    (hdraws : DistinctDraws draws wd) :
    ∃ workflow roots, createWorkflowExecution draws now wd = .ok (workflow, roots) ∧
      workflow.id = draws.workflowExecutionId ∧ workflow.workflowDefinitionId = wd.id ∧
      workflow.status = .running ∧ Copies workflow wd ∧
      roots = (workflow.taskExecutions.filter (·.parentTaskIds = [])).map (·.id) ∧
      (wd.taskDefinitions ≠ [] → (∀ i, ¬ Relation.TransGen wd.DependsOn i i) → roots ≠ []) :=
  ⟨compiled draws now wd, rootsOf draws wd, createWorkflowExecution_eq draws now hlinked, rfl,
    rfl, rfl, copies_compiled hlinked hdraws, rootsOf_eq,
    fun hne hacyclic => rootsOf_ne_nil hne hlinked.known hacyclic⟩

/-- A task listed before the two it depends on. -/
def joinFirst : WorkflowDefinition where
  id := 1
  name := "join first"
  taskDefinitions :=
    [{ id := 3, pluginType := "collect_inputs", key := "join", dependencies := [1, 2] },
     { id := 1, pluginType := "produce_value", key := "extract" },
     { id := 2, pluginType := "collect_inputs", key := "transform", dependencies := [1] }]

theorem compilation_isomorphism_joinFirst :
    ∃ workflow roots, createWorkflowExecution { workflowExecutionId := 0, taskExecutionId := (· + 10) }
        0 joinFirst = .ok (workflow, roots) ∧
      workflow.id = 0 ∧ workflow.workflowDefinitionId = 1 ∧ workflow.status = .running ∧
      Copies workflow joinFirst ∧
      roots = (workflow.taskExecutions.filter (·.parentTaskIds = [])).map (·.id) ∧
      roots ≠ [] := by
  have hlinked : joinFirst.Linked := ⟨by decide, by decide, by decide⟩
  have hacyclic : ∀ i, ¬ Relation.TransGen joinFirst.DependsOn i i :=
    acyclic_of_rank id (by decide)
  obtain ⟨workflow, roots, hcreate, hid, hdefinition, hstatus, hcopies, hroots, hne⟩ :=
    compilation_isomorphism { workflowExecutionId := 0, taskExecutionId := (· + 10) } 0 hlinked
      (fun _ _ _ _ h => Nat.add_right_cancel h)
  exact ⟨workflow, roots, hcreate, hid, hdefinition, hstatus, hcopies, hroots,
    hne (by decide) hacyclic⟩

end WorkflowStartService

end AutomationPlatform
