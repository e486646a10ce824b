/-
What a task is given of its parents.

`start_task` collects the outputs of the parents in a mapping by their keys.  A row that is
completed never changes, so whichever stores the statements have seen, the parents looked the
same in all of them; and their keys differ, so none of them overwrites another's entry.
-/
import AutomationPlatform.Proofs.Executions.Coherence

namespace AutomationPlatform

open WorkflowExecutionRepository

/-! ### The mapping of outputs -/

/-- What a task contributes to the inputs of its children. -/
def contribution (t : TaskExecutionModel) : Option (String × TaskOutput) :=
  t.output.map fun output => (t.key, WorkflowExecutionMapper.outputToDomain output)

/-- What a dependency contributes: its key and its output. -/
def dependencyOutput (s : ExecutionStore) (id : UUID) : Option (String × TaskOutput) :=
  (taskRow s id).bind contribution

theorem dictSet_new {β : Type} {d : List (String × β)} {key : String}
    (h : key ∉ d.map (·.1)) (value : β) : dictSet d key value = d ++ [(key, value)] := by
  unfold dictSet
  rw [if_neg]
  simpa using h

/-- With different keys, every parent has its own entry. -/
theorem collectOutputs_ok :
    ∀ {parents : List TaskExecutionModel} {acc outputs : List (String × TaskOutput)},
      collectOutputs acc parents = .ok outputs →
      (acc.map (·.1) ++ parents.map (·.key)).Nodup →
      outputs.map some = acc.map some ++ parents.map contribution ∧
        outputs.map (·.1) = acc.map (·.1) ++ parents.map (·.key) := by
  intro parents
  induction parents with
  | nil =>
      intro acc outputs h _
      obtain rfl := Except.ok.inj h
      simp
  | cons t rest ih =>
      intro acc outputs h hnd
      unfold collectOutputs at h
      split at h
      · simp at h
      · rename_i output houtput
        have hnew : t.key ∉ acc.map (·.1) := by
          intro hmem
          rw [List.nodup_append] at hnd
          exact hnd.2.2 t.key hmem t.key (by simp) rfl
        rw [dictSet_new hnew] at h
        obtain ⟨hvalues, hkeys⟩ := ih h (by simpa using hnd)
        rw [hvalues, hkeys]
        simp [contribution, houtput]

/-- The loop fails on a parent without an output only. -/
theorem collectOutputs_error :
    ∀ {parents : List TaskExecutionModel} {acc : List (String × TaskOutput)} {key : String},
      collectOutputs acc parents = .error key → ∃ t ∈ parents, t.output = none := by
  intro parents
  induction parents with
  | nil => intro acc key h; simp [collectOutputs] at h
  | cons t rest ih =>
      intro acc key h
      unfold collectOutputs at h
      split at h
      · rename_i hnone
        exact ⟨t, by simp, hnone⟩
      · obtain ⟨u, hu, hnone⟩ := ih h
        exact ⟨u, by simp [hu], hnone⟩

theorem mem_parentModels {V : ExecutionStore} {ids : List UUID} {t : TaskExecutionModel}
    (h : t ∈ parentModels V ids) : ∃ i ∈ ids, taskRow V i = some t := by
  unfold parentModels at h
  obtain ⟨⟨i, u⟩, hmem, rfl⟩ := List.mem_map.mp h
  rw [List.mem_filter] at hmem
  exact ⟨i, by simpa using hmem.2, mem_taskTable.mp hmem.1⟩

/-- Completed parents have outputs to collect. -/
theorem collectOutputs_completed {s : ExecutionStore} (hs : Coherent s) {ids : List UUID}
    (hparents : ∀ q ∈ ids, completed s q = true) :
    ∃ outputs, collectOutputs [] (parentModels s ids) = .ok outputs := by
  cases h : collectOutputs [] (parentModels s ids) with
  | ok outputs => exact ⟨outputs, rfl⟩
  | error key =>
      obtain ⟨t, ht, hnone⟩ := collectOutputs_error h
      obtain ⟨q, hq, hrow⟩ := mem_parentModels ht
      obtain ⟨u, hu, hc⟩ := completed_iff.mp (hparents q hq)
      obtain rfl : t = u := Option.some.inj (hrow.symm.trans hu)
      have hsome := hs.output_of_completed hrow hc
      rw [hnone] at hsome
      simp at hsome

/-- A scan meets a task once. -/
theorem taskTable_nodup (s : ExecutionStore) : ((taskTable s).map (·.1)).Nodup := by
  have hpairs : (taskTable s).Nodup := by
    refine s.nodup.filterMap fun k k' e hk hk' => ?_
    cases k with
    | workflow i => simp at hk
    | task i =>
        cases k' with
        | workflow j => simp at hk'
        | task j =>
            simp only [Option.mem_def, Option.map_eq_some_iff] at hk hk'
            obtain ⟨t, -, rfl⟩ := hk
            obtain ⟨t', -, he⟩ := hk'
            rw [(Prod.mk.inj he).1]
  refine (List.nodup_map_iff_inj_on hpairs).mpr ?_
  intro e he e' he' hid
  have hrow := mem_taskTable.mp he
  have hrow' := mem_taskTable.mp he'
  rw [hid, hrow', Option.some.injEq] at hrow
  exact Prod.ext hid hrow.symm

/-- The parents found are the rows of the identifiers asked for, each once. -/
theorem parentModels_perm {V : ExecutionStore} {ids : List UUID} (hids : ids.Nodup)
    (hrows : ∀ i ∈ ids, (taskRow V i).isSome = true) :
    ((parentModels V ids).map some).Perm (ids.map (taskRow V)) := by
  have hfound : (((taskTable V).filter fun e => e.1 ∈ ids).map (·.1)).Perm ids := by
    rw [List.perm_ext_iff_of_nodup _ hids]
    · intro i
      simp only [List.mem_map, List.mem_filter, decide_eq_true_eq]
      constructor
      · intro h
        obtain ⟨e, ⟨-, he⟩, rfl⟩ := h
        exact he
      · intro hi
        obtain ⟨t, ht⟩ := Option.isSome_iff_exists.mp (hrows i hi)
        exact ⟨(i, t), ⟨mem_taskTable.mpr ht, hi⟩, rfl⟩
    · exact (taskTable_nodup V).sublist (List.Sublist.map _ List.filter_sublist)
  have hmap := hfound.map (taskRow V)
  rw [List.map_map] at hmap
  unfold parentModels
  rw [List.map_map]
  refine (List.Perm.of_eq (List.map_congr_left fun e he => ?_)).trans hmap
  exact (mem_taskTable.mp (List.mem_filter.mp he).1).symm

/-! ### What `start_task` returns -/

section Inputs

variable {s base V : ExecutionStore} {t : TaskExecutionModel}

/-- A completed task has the same row in every later store. -/
theorem row_of_completed {i : UUID} (h : s.Le executionEvolution V)
    (hi : completed s i = true) : taskRow V i = taskRow s i := by
  obtain ⟨u, hu, hc⟩ := completed_iff.mp hi
  obtain ⟨u', hu', hev⟩ := taskRow_le h hu
  rw [hu, hu', hev.terminal (by rw [hc]; rfl)]

/-- The outputs collected on any store since the parents were completed. -/
theorem parentOutputs_eq (hs : Coherent s) {i : UUID} (hi : taskRow s i = some t)
    (hparents : ∀ q ∈ t.parentTaskIds, completed V q = true)
    (hV : V.Le executionEvolution s) {outputs : List (String × TaskOutput)}
    (h : collectOutputs [] (parentModels V t.parentTaskIds) = .ok outputs) :
    (outputs.map some).Perm (t.parentTaskIds.map (dependencyOutput s)) ∧
      (outputs.map (·.1)).Nodup := by
  have hrow : ∀ q ∈ t.parentTaskIds, taskRow V q = taskRow s q :=
    fun q hq => (row_of_completed hV (hparents q hq)).symm
  have hperm : ((parentModels V t.parentTaskIds).map some).Perm
      (t.parentTaskIds.map (taskRow s)) := by
    rw [← List.map_congr_left hrow]
    refine parentModels_perm (hs.parents_nodup i t hi) fun q hq => ?_
    obtain ⟨u, hu, -⟩ := completed_iff.mp (hparents q hq)
    rw [hu]
    rfl
  -- The keys of two tasks of one workflow differ.
  have hkeys : ((parentModels V t.parentTaskIds).map (·.key)).Nodup := by
    have hsome : (t.parentTaskIds.map fun q => (taskRow s q).map (·.key)).Nodup := by
      refine (List.nodup_map_iff_inj_on (hs.parents_nodup i t hi)).mpr ?_
      intro q hq q' hq' hkey
      obtain ⟨u, hu, hw, -⟩ := hs.parents i t hi q hq
      obtain ⟨u', hu', hw', -⟩ := hs.parents i t hi q' hq'
      rw [hu, hu', Option.map_some, Option.map_some, Option.some.injEq] at hkey
      exact hs.keys q q' u u' hu hu' (hw.trans hw'.symm) hkey
    have hmap := hperm.map (Option.map fun u : TaskExecutionModel => u.key)
    rw [List.map_map, List.map_map] at hmap
    have hnodup := (hmap.nodup_iff).mpr hsome
    exact List.Nodup.of_map some (by rw [List.map_map]; exact hnodup)
  obtain ⟨hvalues, hfst⟩ := collectOutputs_ok h (by simpa using hkeys)
  have hmap := hperm.map fun u : Option TaskExecutionModel => u.bind contribution
  rw [List.map_map, List.map_map] at hmap
  refine ⟨?_, by rw [hfst]; simpa using hkeys⟩
  rw [hvalues]
  exact hmap

end Inputs

end AutomationPlatform
