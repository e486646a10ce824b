/-
Saving a definition over an earlier version of it.

When a save goes through, the rows of the definition are those of the new version, and so
a later load finds it.  It does not always go through.  Tasks are deleted before the
dependencies that touch them, and each task is written with its new key while those after it
still have their old ones.
-/
import AutomationPlatform.Graph.Order
import AutomationPlatform.Proofs.Definitions.Load

namespace AutomationPlatform

open WorkflowDefinitionMapper

namespace WorkflowDefinitionRepository

variable {executions : ExecutionStore} {s s' : DefinitionStore} {wd : WorkflowDefinition}

/-- `save` and the commit of its unit of work. -/
def saveAndCommit (executions : ExecutionStore) (s : DefinitionStore) (wd : WorkflowDefinition) :
    Except Sql.Violation DefinitionStore := do
  let x ← save executions { store := s } wd
  x.commit (definitionSchema executions)

theorem saveAndCommit_eq (s : DefinitionStore) (wd : WorkflowDefinition) :
    saveAndCommit executions s wd = writeDefinition executions s wd :=
  save_settles wd { store := s }

/-! ### What belongs to a definition -/

/-- A row is of a definition: its own row, or that of one of its parts. -/
def RowOf (s : DefinitionStore) (id : UUID) : DefinitionRowId → Prop
  | .workflow i => i = id
  | .task i => ∃ m, taskDefinitionRow s i = some m ∧ m.workflowDefinitionId = id
  | .dependency a _ => ∃ m, taskDefinitionRow s a = some m ∧ m.workflowDefinitionId = id
  | .trigger i => ∃ m, triggerDefinitionRow s i = some m ∧ m.workflowDefinitionId = id
  | .chronologicalTriggerState i =>
      ∃ m, triggerDefinitionRow s i = some m ∧ m.workflowDefinitionId = id

/-- A key is of something the definition has. -/
def Part (wd : WorkflowDefinition) : DefinitionRowId → Prop
  | .workflow i => i = wd.id
  | .task i => ∃ t ∈ wd.taskDefinitions, t.id = i
  | .dependency a b => ∃ t ∈ wd.taskDefinitions, t.id = a ∧ b ∈ t.dependencies
  | .trigger i => ∃ t ∈ wd.triggerDefinitions, t.id = i
  | .chronologicalTriggerState i => ∃ t ∈ wd.triggerDefinitions, t.id = i

theorem triggerNamed_eq_some {triggers : List TriggerDefinition} {i : UUID} {t : TriggerDefinition}
    (h : triggerNamed triggers i = some t) : t ∈ triggers ∧ t.id = i :=
  ⟨List.mem_of_find?_eq_some h, by simpa using List.find?_some h⟩

theorem triggerNamed_eq_none {triggers : List TriggerDefinition} {i : UUID} :
    triggerNamed triggers i = none ↔ i ∉ triggers.map (·.id) := by
  simp [triggerNamed]

theorem triggerNamed_of_mem {triggers : List TriggerDefinition}
    (hnd : (triggers.map (·.id)).Nodup) {t : TriggerDefinition} (ht : t ∈ triggers) :
    triggerNamed triggers t.id = some t := by
  cases h : triggerNamed triggers t.id with
  | none => exact absurd (List.mem_map_of_mem ht) (triggerNamed_eq_none.mp h)
  | some u =>
      obtain ⟨hu, hid⟩ := triggerNamed_eq_some h
      rw [List.inj_on_of_nodup_map hnd hu ht hid]

theorem isRemovedTrigger_trigger {i : UUID} {t : TriggerDefinitionModel} :
    isRemovedTrigger wd (.trigger i) t = true ↔
      t.workflowDefinitionId = wd.id ∧ i ∉ wd.triggerDefinitions.map (·.id) := by
  simp [isRemovedTrigger]

/-! ### The rows after a save -/

/-- A task row after a save is of the new version, or of another definition and as it was. -/
theorem task_of_saved (h : ∀ k, s'.row k = savedRow s wd k) {i : UUID} {m : TaskDefinitionModel}
    (hi : taskDefinitionRow s' i = some m) :
    (∃ t ∈ wd.taskDefinitions, t.id = i ∧ taskToModel wd.id t = m) ∨
      (taskNamed wd.taskDefinitions i = none ∧ taskDefinitionRow s i = some m ∧
        m.workflowDefinitionId ≠ wd.id) := by
  have hrow := (h (.task i)).symm.trans hi
  rw [savedRow] at hrow
  cases hn : taskNamed wd.taskDefinitions i with
  | some t =>
      obtain ⟨ht, hid⟩ := taskNamed_eq_some hn
      rw [hn, Option.map_some, Option.some_or, Option.some.injEq] at hrow
      exact Or.inl ⟨t, ht, hid, hrow⟩
  | none =>
      rw [hn, Option.map_none, Option.none_or] at hrow
      obtain ⟨hold, hkept⟩ := Option.filter_eq_some_iff.mp hrow
      refine Or.inr ⟨rfl, hold, fun hid => ?_⟩
      rw [isRemovedTask_task.mpr ⟨hid, taskNamed_eq_none.mp hn⟩] at hkept
      simp at hkept

theorem trigger_of_saved (h : ∀ k, s'.row k = savedRow s wd k) {i : UUID}
    {m : TriggerDefinitionModel} (hi : triggerDefinitionRow s' i = some m) :
    (∃ t ∈ wd.triggerDefinitions, t.id = i ∧ triggerToModel wd.id t = m) ∨
      (triggerNamed wd.triggerDefinitions i = none ∧ triggerDefinitionRow s i = some m ∧
        m.workflowDefinitionId ≠ wd.id) := by
  have hrow := (h (.trigger i)).symm.trans hi
  rw [savedRow] at hrow
  cases hn : triggerNamed wd.triggerDefinitions i with
  | some t =>
      obtain ⟨ht, hid⟩ := triggerNamed_eq_some hn
      rw [hn, Option.map_some, Option.some_or, Option.some.injEq] at hrow
      exact Or.inl ⟨t, ht, hid, hrow⟩
  | none =>
      rw [hn, Option.map_none, Option.none_or] at hrow
      obtain ⟨hold, hkept⟩ := Option.filter_eq_some_iff.mp hrow
      refine Or.inr ⟨rfl, hold, fun hid => ?_⟩
      rw [isRemovedTrigger_trigger.mpr ⟨hid, triggerNamed_eq_none.mp hn⟩] at hkept
      simp at hkept

theorem savedRow_task (hwd : Distinct wd) {t : TaskDefinition} (ht : t ∈ wd.taskDefinitions) :
    savedRow s wd (.task t.id) = some (taskToModel wd.id t) := by
  rw [savedRow, taskNamed_of_mem hwd.ids ht]
  rfl

theorem savedRow_trigger (hwd : Distinct wd) {t : TriggerDefinition}
    (ht : t ∈ wd.triggerDefinitions) :
    savedRow s wd (.trigger t.id) = some (triggerToModel wd.id t) := by
  rw [savedRow, triggerNamed_of_mem hwd.triggerIds ht]
  rfl

/-- After a save the definition is stored. -/
theorem stored_of_saved (hwd : Distinct wd) (h : ∀ k, s'.row k = savedRow s wd k) :
    Stored s' wd where
  workflow := by
    rw [workflowDefinitionRow, h, savedRow, if_pos rfl]
  tasks := by
    intro i m
    constructor
    · rintro ⟨hi, hid⟩
      rcases task_of_saved h hi with hnew | ⟨-, -, hother⟩
      · exact hnew
      · exact absurd hid hother
    · rintro ⟨t, ht, hid, hm⟩
      subst hid hm
      exact ⟨(h _).trans (savedRow_task hwd ht), rfl⟩
  dependencies := by
    intro t ht b
    rw [h, savedRow, taskNamed_of_mem hwd.ids ht]
    simp
  triggers := by
    intro i m
    constructor
    · rintro ⟨hi, hid⟩
      rcases trigger_of_saved h hi with hnew | ⟨-, -, hother⟩
      · exact hnew
      · exact absurd hid hother
    · rintro ⟨t, ht, hid, hm⟩
      subst hid hm
      exact ⟨(h _).trans (savedRow_trigger hwd ht), rfl⟩

/-- What belongs to a stored definition is a part of it. -/
theorem part_of_rowOf (h : Stored s wd) {k : DefinitionRowId} (hk : RowOf s wd.id k)
    (hrow : (s.row k).isSome = true) : Part wd k := by
  cases k with
  | workflow i => exact hk
  | task i =>
      obtain ⟨m, hm⟩ := hk
      obtain ⟨t, ht, hid, -⟩ := (h.tasks i m).mp hm
      exact ⟨t, ht, hid⟩
  | dependency a b =>
      obtain ⟨m, hm⟩ := hk
      obtain ⟨t, ht, rfl, -⟩ := (h.tasks a m).mp hm
      exact ⟨t, ht, rfl, (h.dependencies t ht b).mp hrow⟩
  | trigger i =>
      obtain ⟨m, hm⟩ := hk
      obtain ⟨t, ht, hid, -⟩ := (h.triggers i m).mp hm
      exact ⟨t, ht, hid⟩
  | chronologicalTriggerState i =>
      obtain ⟨m, hm⟩ := hk
      obtain ⟨t, ht, hid, -⟩ := (h.triggers i m).mp hm
      exact ⟨t, ht, hid⟩

/-! ### Saving again -/

/-- A second save finds every row as it would leave it. -/
theorem savedRow_again (hwd : Distinct wd) (h : ∀ k, s'.row k = savedRow s wd k)
    (k : DefinitionRowId) : savedRow s' wd k = s'.row k := by
  cases k with
  | workflow i =>
      by_cases hi : i = wd.id
      · rw [h, savedRow, savedRow, if_pos hi, if_pos hi]
      · rw [savedRow, if_neg hi]
  | task i =>
      rw [savedRow]
      cases hn : taskNamed wd.taskDefinitions i with
      | some t =>
          obtain ⟨ht, rfl⟩ := taskNamed_eq_some hn
          rw [h, savedRow_task hwd ht]
          rfl
      | none =>
          rw [Option.map_none, Option.none_or]
          cases hi : s'.row (.task i) with
          | none => rfl
          | some m =>
              rcases task_of_saved h hi with ⟨t, ht, hid, -⟩ | ⟨-, -, hother⟩
              · exact absurd (List.mem_map.mpr ⟨t, ht, hid⟩) (taskNamed_eq_none.mp hn)
              · simp [Option.filter_some, isRemovedTask, hother]
  | dependency a b =>
      rw [h]
      simp only [savedRow]
      cases hn : taskNamed wd.taskDefinitions a with
      | some t => rfl
      | none =>
          have hrow := h (.dependency a b)
          simp only [savedRow, hn] at hrow
          exact hrow
  | trigger i =>
      rw [savedRow]
      cases hn : triggerNamed wd.triggerDefinitions i with
      | some t =>
          obtain ⟨ht, rfl⟩ := triggerNamed_eq_some hn
          rw [h, savedRow_trigger hwd ht]
          rfl
      | none =>
          rw [Option.map_none, Option.none_or]
          cases hi : s'.row (.trigger i) with
          | none => rfl
          | some m =>
              rcases trigger_of_saved h hi with ⟨t, ht, hid, -⟩ | ⟨-, -, hother⟩
              · exact absurd (List.mem_map.mpr ⟨t, ht, hid⟩) (triggerNamed_eq_none.mp hn)
              · simp [Option.filter_some, isRemovedTrigger, hother]
  | chronologicalTriggerState i =>
      rw [savedRow]
      have hkept : (s'.row (.trigger i)).any (isRemovedTrigger wd (.trigger i)) = false := by
        cases hi : s'.row (.trigger i) with
        | none => rfl
        | some m =>
            rcases trigger_of_saved h hi with ⟨t, ht, rfl, -⟩ | ⟨-, -, hother⟩
            · simp only [Option.any_some, isRemovedTrigger, decide_eq_false_iff_not]
              exact fun hgone => hgone.2 (List.mem_map_of_mem ht)
            · simp [isRemovedTrigger, hother]
      rw [hkept]
      cases s'.row (.chronologicalTriggerState i) <;> rfl

theorem not_removed_of_stored (h : Stored s wd) (i : UUID) : ¬ Removed s wd i := by
  intro ⟨m, hm, hid, hgone⟩
  obtain ⟨t, ht, rfl, -⟩ := (h.tasks i m).mp ⟨hm, hid⟩
  exact hgone (List.mem_map_of_mem ht)

/-- A definition listed in order can be saved over itself. -/
theorem saveable_of_stored (hwd : Distinct wd)
    (horder : Graph.InOrder (·.id) (·.dependencies) wd.taskDefinitions)
    (hfits : Fits wd) (h : Stored s wd) :
    Saveable executions s wd where
  fits := hfits
  unexecuted := fun i hi => absurd hi (not_removed_of_stored h i)
  detached := fun a b _ => ⟨not_removed_of_stored h a, not_removed_of_stored h b⟩
  free := by
    intro a t b hsplit u hu m hm hid hkey
    obtain ⟨v, hv, hvu, rfl⟩ := (h.tasks u.id m).mp ⟨hm, hid⟩
    have hu' : u ∈ wd.taskDefinitions := by rw [hsplit]; simp [hu]
    obtain rfl : v = u := List.inj_on_of_nodup_map hwd.ids hv hu' hvu
    have hkeys := hwd.keys
    rw [hsplit, List.map_append, List.map_cons, List.nodup_append, List.nodup_cons] at hkeys
    exact hkeys.2.1.1 (List.mem_map.mpr ⟨v, hu, hkey⟩)
  stored := fun a t b hsplit d hd _ => Or.inl (horder a t b hsplit d hd)

/-! ### Replacing -/

variable (executions) in
/-- The new version is in place of the old one, and nothing else has changed. -/
structure Replaced (s s' : DefinitionStore) (wd : WorkflowDefinition) : Prop where
  loads : ∃ wd', load s' wd.id = some wd' ∧ wd'.SameUpToOrder wd
  /-- Of what the definition had or has, there is only what the new version lists. -/
  leftovers : ∀ k, RowOf s wd.id k ∨ RowOf s' wd.id k → (s'.row k).isSome = true → Part wd k
  again : ∃ s'', saveAndCommit executions s' wd = .ok s'' ∧ ∀ k, s''.row k = s'.row k
  others : ∀ id, id ≠ wd.id → ∀ k, RowOf s id k ∨ RowOf s' id k → s'.row k = s.row k

/-- What the rows of the old version must be like for the new one to take their place. -/
structure Replaceable (s : DefinitionStore) (wd : WorkflowDefinition) : Prop where
  /-- No dependency touches a task that is removed. -/
  detached : ∀ a b, s.row (.dependency a b) = some () → ¬ Removed s wd a ∧ ¬ Removed s wd b
  /-- No task takes a key that a task listed after it still has. -/
  free : ∀ a t b, wd.taskDefinitions = a ++ t :: b → ∀ u ∈ b, ∀ m,
    taskDefinitionRow s u.id = some m → m.workflowDefinitionId = wd.id → m.key ≠ t.key
  /-- No task or trigger has the identifier of another definition's. -/
  tasks : ∀ t ∈ wd.taskDefinitions, ∀ m, taskDefinitionRow s t.id = some m →
    m.workflowDefinitionId = wd.id
  triggers : ∀ t ∈ wd.triggerDefinitions, ∀ m, triggerDefinitionRow s t.id = some m →
    m.workflowDefinitionId = wd.id
  fits : Fits wd

/-- A task of another definition, before or after a save, is none of this one. -/
theorem task_of_other (hr : Replaceable s wd) (h : ∀ k, s'.row k = savedRow s wd k) {id i : UUID}
    (hne : id ≠ wd.id) (hi : RowOf s id (.task i) ∨ RowOf s' id (.task i)) :
    taskNamed wd.taskDefinitions i = none ∧ RowOf s id (.task i) := by
  rcases hi with ⟨m, hm, hid⟩ | ⟨m, hm, hid⟩
  · refine ⟨taskNamed_eq_none.mpr fun hmem => ?_, m, hm, hid⟩
    obtain ⟨t, ht, rfl⟩ := List.mem_map.mp hmem
    exact hne (hid.symm.trans (hr.tasks t ht m hm))
  · rcases task_of_saved h hm with ⟨t, -, -, rfl⟩ | ⟨hnone, hold, -⟩
    · exact absurd hid.symm hne
    · exact ⟨hnone, m, hold, hid⟩

theorem trigger_of_other (hr : Replaceable s wd) (h : ∀ k, s'.row k = savedRow s wd k)
    {id i : UUID} (hne : id ≠ wd.id) (hi : RowOf s id (.trigger i) ∨ RowOf s' id (.trigger i)) :
    triggerNamed wd.triggerDefinitions i = none ∧ RowOf s id (.trigger i) := by
  rcases hi with ⟨m, hm, hid⟩ | ⟨m, hm, hid⟩
  · refine ⟨triggerNamed_eq_none.mpr fun hmem => ?_, m, hm, hid⟩
    obtain ⟨t, ht, rfl⟩ := List.mem_map.mp hmem
    exact hne (hid.symm.trans (hr.triggers t ht m hm))
  · rcases trigger_of_saved h hm with ⟨t, -, -, rfl⟩ | ⟨hnone, hold, -⟩
    · exact absurd hid.symm hne
    · exact ⟨hnone, m, hold, hid⟩

/-- What another definition owns is not touched. -/
theorem saved_others (hr : Replaceable s wd) (h : ∀ k, s'.row k = savedRow s wd k) {id : UUID}
    (hne : id ≠ wd.id) {k : DefinitionRowId} (hk : RowOf s id k ∨ RowOf s' id k) :
    s'.row k = s.row k := by
  rw [h]
  cases k with
  | workflow i =>
      have hi : i ≠ wd.id := by
        rcases hk with hk | hk
        · exact fun heq => hne (hk.symm.trans heq)
        · exact fun heq => hne (hk.symm.trans heq)
      rw [savedRow, if_neg hi]
  | task i =>
      obtain ⟨hnone, m, hm, hid⟩ := task_of_other hr h hne hk
      rw [savedRow, hnone, Option.map_none, Option.none_or, show s.row (.task i) = some m from hm,
        Option.filter_some]
      simp [isRemovedTask, hid, hne]
  | dependency a b =>
      have hnone := (task_of_other hr h hne hk).1
      simp only [savedRow, hnone]
  | trigger i =>
      obtain ⟨hnone, m, hm, hid⟩ := trigger_of_other hr h hne hk
      rw [savedRow, hnone, Option.map_none, Option.none_or,
        show s.row (.trigger i) = some m from hm, Option.filter_some]
      simp [isRemovedTrigger, hid, hne]
  | chronologicalTriggerState i =>
      obtain ⟨-, m, hm, hid⟩ := trigger_of_other hr h hne hk
      rw [savedRow, show s.row (.trigger i) = some m from hm, Option.any_some]
      cases s.row (.chronologicalTriggerState i) with
      | none => rfl
      | some state => simp [isRemovedTrigger, hid, hne]

/-- No execution was started from a definition. -/
def Unexecuted (executions : ExecutionStore) (s : DefinitionStore) (id : UUID) : Prop :=
  id ∉ executedWorkflows executions ∧ ∀ i, RowOf s id (.task i) → i ∉ executedTasks executions

theorem saveable_of_replaceable (hunexecuted : Unexecuted executions s wd.id)
    (horder : Graph.InOrder (·.id) (·.dependencies) wd.taskDefinitions)
    (h : Replaceable s wd) : Saveable executions s wd where
  fits := h.fits
  unexecuted := fun i ⟨m, hm, hid, _⟩ => hunexecuted.2 i ⟨m, hm, hid⟩
  detached := h.detached
  free := h.free
  stored := fun a t b hsplit d hd _ => Or.inl (horder a t b hsplit d hd)

theorem replaced_of_saved (hwd : Distinct wd)
    (horder : Graph.InOrder (·.id) (·.dependencies) wd.taskDefinitions)
    (hs' : (definitionSchema executions).Consistent s') (hr : Replaceable s wd)
    (h : ∀ k, s'.row k = savedRow s wd k) : Replaced executions s s' wd where
  loads := load_of_stored hwd (stored_of_saved hwd h)
  leftovers := by
    intro k hk hrow
    have hstored := stored_of_saved hwd h
    rcases hk with hk | hk
    · cases k with
      | workflow i => exact hk
      | task i =>
          obtain ⟨m, hm⟩ := Option.isSome_iff_exists.mp hrow
          rcases task_of_saved h hm with ⟨t, ht, hid, -⟩ | ⟨-, hold, hother⟩
          · exact ⟨t, ht, hid⟩
          · obtain ⟨m', hm', hid⟩ := hk
            rw [hold, Option.some.injEq] at hm'
            exact absurd (hm' ▸ hid) hother
      | dependency a b =>
          obtain ⟨m, hm, hid⟩ := hk
          cases hn : taskNamed wd.taskDefinitions a with
          | some t =>
              obtain ⟨ht, rfl⟩ := taskNamed_eq_some hn
              exact ⟨t, ht, rfl, (hstored.dependencies t ht b).mp hrow⟩
          | none =>
              -- A dependency of a task that is gone would have kept the task.
              rw [h] at hrow
              simp only [savedRow, hn] at hrow
              obtain ⟨v, hv⟩ := Option.isSome_iff_exists.mp hrow
              exact absurd ⟨m, hm, hid, taskNamed_eq_none.mp hn⟩ (hr.detached a b hv).1
      | trigger i =>
          obtain ⟨m, hm⟩ := Option.isSome_iff_exists.mp hrow
          rcases trigger_of_saved h hm with ⟨t, ht, hid, -⟩ | ⟨-, hold, hother⟩
          · exact ⟨t, ht, hid⟩
          · obtain ⟨m', hm', hid⟩ := hk
            rw [hold, Option.some.injEq] at hm'
            exact absurd (hm' ▸ hid) hother
      | chronologicalTriggerState i =>
          obtain ⟨m, hm, hid⟩ := hk
          by_contra hpart
          have hgone : i ∉ wd.triggerDefinitions.map (·.id) := by
            intro hmem
            obtain ⟨t, ht, hti⟩ := List.mem_map.mp hmem
            exact hpart ⟨t, ht, hti⟩
          rw [h, savedRow, show s.row (.trigger i) = some m from hm, Option.any_some,
            isRemovedTrigger_trigger.mpr ⟨hid, hgone⟩] at hrow
          cases hst : s.row (.chronologicalTriggerState i) <;> simp [hst] at hrow
    · exact part_of_rowOf hstored hk hrow
  again := by
    have hstored := stored_of_saved hwd h
    obtain ⟨s'', hagain⟩ := writeDefinition_ok hs' hwd
      (saveable_of_stored hwd horder hr.fits hstored)
    refine ⟨s'', (saveAndCommit_eq s' wd).trans hagain, fun k => ?_⟩
    rw [(writeDefinition_cases hs' hwd hagain).2.2 k, savedRow_again hwd h]
  others := fun id hne k hk => saved_others hr h hne hk

/-- **When saving replaces.**  Over any version without executions, the save and its commit
put the new version in place of the old one if no dependency touches a task that is
removed, and no task takes a key that a task listed after it still has; and only then.  The
new version is listed in order, and its values fit and its identifiers are its own.  The driver
is taken to bind as many parameters as it has tasks or triggers. -/
theorem save_replaces_iff (hs : (definitionSchema executions).Consistent s)
    (hunexecuted : Unexecuted executions s wd.id) (hwd : Distinct wd)
    (horder : Graph.InOrder (·.id) (·.dependencies) wd.taskDefinitions) :
    (∃ s', saveAndCommit executions s wd = .ok s' ∧ Replaced executions s s' wd) ↔
      Replaceable s wd := by
  constructor
  · intro ⟨s', hsave, hreplaced⟩
    rw [saveAndCommit_eq] at hsave
    obtain ⟨hsaveable, -, hrow⟩ := writeDefinition_cases hs hwd hsave
    refine ⟨hsaveable.detached, hsaveable.free, ?_, ?_, hsaveable.fits⟩
    · intro t ht m hm
      by_contra hne
      have hkept := hreplaced.others _ hne (.task t.id) (Or.inl ⟨m, hm, rfl⟩)
      rw [hrow, savedRow_task hwd ht, show s.row (.task t.id) = some m from hm,
        Option.some.injEq] at hkept
      exact hne (hkept ▸ rfl)
    · intro t ht m hm
      by_contra hne
      have hkept := hreplaced.others _ hne (.trigger t.id) (Or.inl ⟨m, hm, rfl⟩)
      rw [hrow, savedRow_trigger hwd ht, show s.row (.trigger t.id) = some m from hm,
        Option.some.injEq] at hkept
      exact hne (hkept ▸ rfl)
  · intro h
    obtain ⟨s', hsave⟩ := writeDefinition_ok hs hwd (saveable_of_replaceable hunexecuted horder h)
    obtain ⟨-, hs', hrow⟩ := writeDefinition_cases hs hwd hsave
    exact ⟨s', (saveAndCommit_eq s wd).trans hsave, replaced_of_saved hwd horder hs' h hrow⟩

/-! ### Two samples -/

/-- The rows after a definition was saved where there was nothing. -/
def storedAlone (wd : WorkflowDefinition) : DefinitionStore :=
  match saveAndCommit .empty .empty wd with
  | .ok s => s
  | .error _ => .empty

theorem consistent_empty : (definitionSchema executions).Consistent .empty where
  resolved := by simp
  unique := by simp

theorem storedAlone_of_saveable (hwd : Distinct wd) (h : Saveable .empty .empty wd) :
    (definitionSchema .empty).Consistent (storedAlone wd) ∧
      ∀ k, (storedAlone wd).row k = savedRow .empty wd k := by
  obtain ⟨s', hsave⟩ := writeDefinition_ok consistent_empty hwd h
  obtain ⟨-, hs', hrow⟩ := writeDefinition_cases consistent_empty hwd hsave
  have hstored : storedAlone wd = s' := by
    unfold storedAlone
    rw [saveAndCommit_eq, hsave]
  rw [hstored]
  exact ⟨hs', hrow⟩

theorem saveable_empty (horder : Graph.InOrder (·.id) (·.dependencies) wd.taskDefinitions)
    (hfits : Fits wd) : Saveable executions .empty wd where
  fits := hfits
  unexecuted := by simp [Removed, taskDefinitionRow]
  detached := by simp
  free := by simp [taskDefinitionRow]
  stored := fun a t b hsplit d hd _ => Or.inl (horder a t b hsplit d hd)

/-- Task 12 depends on task 11. -/
def twoTasks : WorkflowDefinition where
  id := 1
  name := "two tasks"
  taskDefinitions :=
    [{ id := 11, pluginType := "produce_value", key := "extract" },
     { id := 12, pluginType := "collect_inputs", key := "load", dependencies := [11] }]

/-- Task 12 has another key, and a new task has its old one. -/
def threeTasks : WorkflowDefinition where
  id := 1
  name := "three tasks"
  taskDefinitions :=
    [{ id := 11, pluginType := "produce_value", key := "extract" },
     { id := 12, pluginType := "collect_inputs", key := "transform", dependencies := [11] },
     { id := 13, pluginType := "collect_inputs", key := "load", dependencies := [12, 11] }]

/-- Task 12 is gone. -/
def oneTask : WorkflowDefinition where
  id := 1
  name := "one task"
  taskDefinitions := [{ id := 11, pluginType := "produce_value", key := "extract" }]

theorem distinct_twoTasks : Distinct twoTasks := by
  refine ⟨by decide, by decide, by simp [twoTasks], by decide⟩

theorem fits_twoTasks : Fits twoTasks := ⟨by decide, by decide, by decide⟩

theorem inOrder_twoTasks : Graph.InOrder (·.id) (·.dependencies) twoTasks.taskDefinitions :=
  (Graph.inOrder_nil.snoc (by simp)).snoc (by simp)

theorem consistent_twoTasks : (definitionSchema .empty).Consistent (storedAlone twoTasks) :=
  (storedAlone_of_saveable distinct_twoTasks
    (saveable_empty inOrder_twoTasks fits_twoTasks)).1

theorem row_twoTasks (k : DefinitionRowId) :
    (storedAlone twoTasks).row k = savedRow .empty twoTasks k :=
  (storedAlone_of_saveable distinct_twoTasks
    (saveable_empty inOrder_twoTasks fits_twoTasks)).2 k

theorem stored_twoTasks : Stored (storedAlone twoTasks) twoTasks :=
  stored_of_saved distinct_twoTasks row_twoTasks

theorem task_of_twoTasks {i : UUID} {m : TaskDefinitionModel}
    (hm : taskDefinitionRow (storedAlone twoTasks) i = some m) :
    m.workflowDefinitionId = 1 ∧
      ((i = 11 ∧ m.key = "extract") ∨ (i = 12 ∧ m.key = "load")) := by
  rcases task_of_saved row_twoTasks hm with ⟨t, ht, rfl, rfl⟩ | ⟨-, hnone, -⟩
  · simp only [twoTasks, List.mem_cons, List.not_mem_nil, or_false] at ht
    rcases ht with rfl | rfl
    · exact ⟨rfl, Or.inl ⟨rfl, rfl⟩⟩
    · exact ⟨rfl, Or.inr ⟨rfl, rfl⟩⟩
  · simp [taskDefinitionRow] at hnone

theorem replaceable_threeTasks : Replaceable (storedAlone twoTasks) threeTasks := by
  have hkept : ∀ i, ¬ Removed (storedAlone twoTasks) threeTasks i := by
    intro i ⟨m, hm, hid, hgone⟩
    obtain ⟨-, ⟨rfl, -⟩ | ⟨rfl, -⟩⟩ := task_of_twoTasks hm
    · exact hgone (by decide)
    · exact hgone (by decide)
  refine ⟨fun a b _ => ⟨hkept a, hkept b⟩, ?_, fun t _ m hm => (task_of_twoTasks hm).1,
    by simp [threeTasks], ⟨by decide, by decide, by decide⟩⟩
  · intro a t b hsplit u hu m hm hid
    have hlater : threeTasks.taskDefinitions.Pairwise fun t u =>
        (u.id = 11 → t.key ≠ "extract") ∧ (u.id = 12 → t.key ≠ "load") := by
      simp [threeTasks]
    rw [hsplit, List.pairwise_append, List.pairwise_cons] at hlater
    obtain ⟨hextract, hload⟩ := hlater.2.1.1 u hu
    obtain ⟨-, ⟨hi, hkey⟩ | ⟨hi, hkey⟩⟩ := task_of_twoTasks hm
    · rw [hkey]
      exact fun heq => hextract hi heq.symm
    · rw [hkey]
      exact fun heq => hload hi heq.symm

/-- Two tasks become three. -/
theorem save_replaces_sample : ∃ s', saveAndCommit .empty (storedAlone twoTasks) threeTasks = .ok s' ∧
    Replaced .empty (storedAlone twoTasks) s' threeTasks :=
  (save_replaces_iff consistent_twoTasks ⟨by decide, by simp [executedTasks, Sql.Store.scan]⟩
    ⟨by decide, by decide, by simp [threeTasks], by decide⟩
    (((Graph.inOrder_nil.snoc (by simp)).snoc (by simp)).snoc (by simp))).mpr replaceable_threeTasks

/-- A task that another depends on cannot be removed together with it: the dependency is
still there when the task is deleted. -/
theorem removal_refused : Distinct oneTask ∧
    Graph.InOrder (·.id) (·.dependencies) oneTask.taskDefinitions ∧
    (∃ w, load (storedAlone twoTasks) 1 = some w) ∧
    (definitionSchema .empty).Consistent (storedAlone twoTasks) ∧
    Unexecuted .empty (storedAlone twoTasks) oneTask.id ∧
    ¬ ∃ s', saveAndCommit .empty (storedAlone twoTasks) oneTask = .ok s' := by
  have hdistinct : Distinct oneTask := ⟨by decide, by decide, by simp [oneTask], by decide⟩
  refine ⟨hdistinct, Graph.inOrder_nil.snoc (by simp), ?_, consistent_twoTasks,
    ⟨by decide, by simp [executedTasks, Sql.Store.scan]⟩, ?_⟩
  · obtain ⟨w, hw, -⟩ := load_of_stored distinct_twoTasks stored_twoTasks
    exact ⟨w, hw⟩
  · intro ⟨s', hsave⟩
    rw [saveAndCommit_eq] at hsave
    obtain ⟨hsaveable, -⟩ := writeDefinition_cases consistent_twoTasks hdistinct hsave
    refine (hsaveable.detached 12 11 ?_).1 ⟨_, row_twoTasks (.task 12), rfl, by decide⟩
    exact row_twoTasks (.dependency 12 11)

end WorkflowDefinitionRepository

end AutomationPlatform
