/-
An execution computes what its definition means.

A definition has a meaning of its own, with no rows, workers or attempts in it: each task
comes to what its plugin returns on what the tasks it depends on come to.  The outputs an
execution ends with are these.

A row says what came of executing its task on the outputs of its parents, and the parents are
the executions of its dependencies.  So the meaning is read off the rows from the roots on,
by induction along the dependencies.
-/
import AutomationPlatform.Graph.Order
import AutomationPlatform.Proofs.System.Outcomes

namespace AutomationPlatform

open WorkflowDefinitionRepository

/-- What a task of a definition comes to.  The inputs of a plugin are in no particular order. -/
inductive Evaluates (wd : WorkflowDefinition) : TaskDefinition → TaskResult → Prop
  | task {d : TaskDefinition} {plugin : TaskPlugin} {inputs : List (String × TaskOutput)}
      (results : TaskDefinition → TaskResult)
      (hplugin : TaskRegistry.discovered d.pluginType = some plugin)
      (hdependencies : ∀ p ∈ wd.taskDefinitions, p.id ∈ d.dependencies →
        Evaluates wd p (results p))
      (hsucceeded : ∀ p ∈ wd.taskDefinitions, p.id ∈ d.dependencies →
        (results p).succeeded = true)
      (hinputs : inputs.Perm ((wd.taskDefinitions.filter fun p => p.id ∈ d.dependencies).map
        fun p => (p.key, (results p).output))) :
      Evaluates wd d (plugin.execute { configuration := d.configuration, inputs := inputs })

section Meaning

variable {wd : WorkflowDefinition} {e : ExecutionStore} {workflowId i : UUID}
  {d : TaskDefinition} {t : TaskExecutionModel} {result : TaskResult}

/-- The parents of a task are the executions of its dependencies. -/
theorem ExecutionOf.parents_perm (h : ExecutionOf wd e workflowId) (hvalid : wd.Valid)
    (hlinked : Linked e) (hd : d ∈ wd.taskDefinitions) (hi : taskRow e i = some t)
    (ht : t.workflowExecutionId = workflowId) (htd : t.taskDefinitionId = d.id)
    (execution : TaskDefinition → UUID)
    (hexecution : ∀ p ∈ wd.taskDefinitions, p.id ∈ d.dependencies → ∃ u,
      taskRow e (execution p) = some u ∧ u.workflowExecutionId = workflowId ∧
        u.taskDefinitionId = p.id) :
    t.parentTaskIds.Perm
      ((wd.taskDefinitions.filter fun p => p.id ∈ d.dependencies).map execution) := by
  have hdepends : ∀ k, wd.DependsOn t.taskDefinitionId k ↔ k ∈ d.dependencies := by
    intro k
    constructor
    · rintro ⟨d', hd', hid, hk⟩
      obtain rfl := List.inj_on_of_nodup_map hvalid.ids hd' hd (hid.trans htd)
      exact hk
    · exact fun hk => ⟨d, hd, htd.symm, hk⟩
  refine (List.perm_ext_iff_of_nodup (hlinked.parents_nodup i t hi) ?_).mpr fun j => ?_
  · refine (List.nodup_map_iff_inj_on ((List.Nodup.of_map _ hvalid.ids).filter _)).mpr ?_
    intro p hp q hq hpq
    obtain ⟨hp, hpd⟩ := List.mem_filter.mp hp
    obtain ⟨hq, hqd⟩ := List.mem_filter.mp hq
    obtain ⟨u, hu, -, hup⟩ := hexecution p hp (by simpa using hpd)
    obtain ⟨v, hv, -, hvq⟩ := hexecution q hq (by simpa using hqd)
    rw [hpq] at hu
    obtain rfl := Option.some.inj (hu.symm.trans hv)
    exact List.inj_on_of_nodup_map hvalid.ids hp hq (hup.symm.trans hvq)
  · simp only [List.mem_map, List.mem_filter, decide_eq_true_eq]
    constructor
    · intro hj
      obtain ⟨u, hu, huw, -⟩ := hlinked.parents i t hi j hj
      have hk := (hdepends _).mp ((h.parents i j t u hi hu ht (huw.trans ht)).mp hj)
      obtain ⟨p, hp, hpu⟩ := List.mem_map.mp (hvalid.known d hd _ hk)
      obtain ⟨v, hv, hvw, hvp⟩ := hexecution p hp (hpu ▸ hk)
      exact ⟨p, ⟨hp, hpu ▸ hk⟩,
        h.once _ _ v u hv hu hvw (huw.trans ht) (hvp.trans hpu)⟩
    · rintro ⟨p, ⟨hp, hpd⟩, rfl⟩
      obtain ⟨u, hu, huw, hup⟩ := hexecution p hp hpd
      exact (h.parents i _ t u hi hu ht huw).mpr ((hdepends _).mpr (hup ▸ hpd))

/-- A completed task of an execution, with its key and output. -/
theorem ExecutionOf.contributes (h : ExecutionOf wd e workflowId) (hvalid : wd.Valid)
    (hd : d ∈ wd.taskDefinitions) (hi : taskRow e i = some t)
    (ht : t.workflowExecutionId = workflowId) (htd : t.taskDefinitionId = d.id)
    (houtput : t.output = some result.output.values) :
    dependencyOutput e i = some (d.key, result.output) := by
  obtain ⟨d', hd', hid, hkey, -⟩ := h.tasks i t hi ht
  obtain rfl := List.inj_on_of_nodup_map hvalid.ids hd' hd (hid.trans htd)
  rw [dependencyOutput, hi, Option.bind_some, contribution, houtput, hkey]
  rfl

/-- What came of executing a task is what its definition comes to. -/
theorem ExecutionOf.evaluates (h : ExecutionOf wd e workflowId) (hvalid : wd.Valid)
    (hlinked : Linked e) (hrows : ∀ i t, taskRow e i = some t → Attested e t) :
    ∀ d ∈ wd.taskDefinitions, ∀ i t result, taskRow e i = some t →
      t.workflowExecutionId = workflowId → t.taskDefinitionId = d.id → Executed e t result →
      Evaluates wd d result := by
  classical
  have hall := Graph.acyclic_induction hvalid.acyclic (wd.taskDefinitions.map (·.id)).toFinset
    (P := fun k => ∀ d ∈ wd.taskDefinitions, d.id = k → ∀ i t result, taskRow e i = some t →
      t.workflowExecutionId = workflowId → t.taskDefinitionId = d.id → Executed e t result →
      Evaluates wd d result) ?_
  · intro d hd
    exact hall d.id (by simpa using ⟨d, hd, rfl⟩) d hd rfl
  rintro k - ih d hd rfl i t result hi ht htd hexecuted
  -- The executions of the dependencies are completed, and come to what they should.
  have hdependencies : ∀ p ∈ wd.taskDefinitions, p.id ∈ d.dependencies → ∃ j result',
      (∃ u, taskRow e j = some u ∧ u.workflowExecutionId = workflowId ∧
        u.taskDefinitionId = p.id) ∧
      Evaluates wd p result' ∧ result'.succeeded = true ∧
      dependencyOutput e j = some (p.key, result'.output) := by
    intro p hp hpd
    obtain ⟨j, u, hj, hu, hup, hmem⟩ := h.parent hvalid hi ht (k := p.id) ⟨d, hd, htd.symm, hpd⟩
    obtain ⟨u', hu', hc⟩ := completed_iff.mp (hexecuted.parents j hmem)
    obtain rfl := Option.some.inj (hj.symm.trans hu')
    obtain ⟨result', hexecuted', hsucceeded, houtput⟩ := (hrows j u hj).completed hc
    refine ⟨j, result', ⟨u, hj, hu, hup⟩, ?_, hsucceeded,
      h.contributes hvalid hp hj hu hup houtput⟩
    exact ih p.id (by simpa using ⟨p, hp, rfl⟩) ⟨d, hd, rfl, hpd⟩ p hp rfl j u result' hj hu hup
      hexecuted'
  have : Nonempty TaskResult := ⟨result⟩
  choose! execution results hexecution using hdependencies
  have hperm := h.parents_perm hvalid hlinked hd hi ht htd execution
    fun p hp hpd => (hexecution p hp hpd).1
  obtain ⟨plugin, inputs, hplugin, hinputs, -, rfl⟩ := hexecuted.plugin
  obtain ⟨d', hd', hid, -, htype, hconfiguration, -⟩ := h.tasks i t hi ht
  obtain rfl := List.inj_on_of_nodup_map hvalid.ids hd' hd (hid.trans htd)
  rw [hconfiguration]
  refine .task results (htype ▸ hplugin) (fun p hp hpd => (hexecution p hp hpd).2.1)
    (fun p hp hpd => (hexecution p hp hpd).2.2.1) (hinputs.trans ?_)
  refine (hperm.filterMap _).trans (List.Perm.of_eq ?_)
  rw [List.filterMap_map, ← List.filterMap_eq_map]
  refine List.filterMap_congr fun p hp => ?_
  obtain ⟨hp, hpd⟩ := List.mem_filter.mp hp
  exact (hexecution p hp (by simpa using hpd)).2.2.2

end Meaning

/--
**An execution computes what its definition means.**  Every task that is completed has the
output its definition evaluates to, and every task that has failed the message, whatever the
run was.
-/
theorem computes_definition {leaseTimeout : Timedelta} {x : System}
    (h : x.Reachable leaseTimeout) {id : UUID} {w : WorkflowExecutionModel}
    {wd : WorkflowDefinition} (hw : workflowRow x.platform.db.store id = some w)
    (hload : load x.definitions w.workflowDefinitionId = some wd) :
    ∀ d ∈ wd.taskDefinitions, ∃ i t, taskRow x.platform.db.store i = some t ∧
      t.workflowExecutionId = id ∧ t.taskDefinitionId = d.id ∧
      (t.status = .completed → ∃ result, Evaluates wd d result ∧ result.succeeded = true ∧
        t.output = some result.output.values) ∧
      (t.status = .failed → ∃ result, Evaluates wd d result ∧ result.succeeded = false ∧
        t.errorMessage = result.message) := by
  intro d hd
  have hvalid := h.sound.definitions.valid hload
  have hlinked := (reachable_coherent h.sound.platform.sound.db).toLinked
  have hrows := h.genuine.rows
  obtain ⟨wd', hload', hof⟩ := h.executionOf hw
  obtain rfl := Option.some.inj (hload.symm.trans hload')
  obtain ⟨i, t, hi, ht, htd⟩ := hof.complete d hd
  have hevaluates := fun result => hof.evaluates hvalid hlinked hrows d hd i t result hi ht htd
  refine ⟨i, t, hi, ht, htd, fun hc => ?_, fun hf => ?_⟩
  · obtain ⟨result, hexecuted, hrest⟩ := (hrows i t hi).completed hc
    exact ⟨result, hevaluates result hexecuted, hrest⟩
  · obtain ⟨result, hexecuted, hrest⟩ := (hrows i t hi).failed hf
    exact ⟨result, hevaluates result hexecuted, hrest⟩

/-- In the failing sample the first task has failed, as its definition says. -/
theorem computes_definition_sample : ∃ (w : WorkflowExecutionModel) (wd : WorkflowDefinition),
    w.status = .failed ∧
    ∀ d ∈ wd.taskDefinitions, ∃ i t, taskRow failingSystem.platform.db.store i = some t ∧
      t.workflowExecutionId = 1 ∧ t.taskDefinitionId = d.id ∧
      (t.status = .completed → ∃ result, Evaluates wd d result ∧ result.succeeded = true ∧
        t.output = some result.output.values) ∧
      (t.status = .failed → ∃ result, Evaluates wd d result ∧ result.succeeded = false ∧
        t.errorMessage = result.message) := by
  obtain ⟨w, wd, hw, hload, hstatus, -⟩ := failingSystem_execution
  exact ⟨w, wd, hstatus, computes_definition failingSystem_reachable hw hload⟩

end AutomationPlatform
