/-
Deleting a definition.

The mapper deletes the tasks, then the triggers, then the definition, one row after the
other.  The scheduling state of a trigger goes with the trigger.  Nothing goes with a task:
a dependency that touches it is in the way, and so is the execution of it.
-/
import AutomationPlatform.Application.WorkflowDefinitions
import AutomationPlatform.Proofs.Definitions.Replace

namespace AutomationPlatform

open Sql (bind_eq_ok)
open WorkflowDefinitionRepository

namespace WorkflowDefinitionService

variable {db db' : Database} {id : UUID}

/-- The definition and what it owns are gone, and nothing else is. -/
structure Deleted (db db' : Database) (id : UUID) : Prop where
  gone : load db'.definitions id = none
  owned : ∀ k, RowOf db.definitions id k → db'.definitions.row k = none
  others : ∀ k, ¬ RowOf db.definitions id k → db'.definitions.row k = db.definitions.row k
  executions : db'.executions = db.executions

/-- No dependency touches a task of a definition. -/
def Unlinked (s : DefinitionStore) (id : UUID) : Prop :=
  ∀ a b, (s.row (.dependency a b)).isSome = true → ¬ RowOf s id (.task a) ∧ ¬ RowOf s id (.task b)

/-- The rows a deletion marks, in the order of the flush. -/
def markedKeys (s : DefinitionStore) (id : UUID) : List DefinitionRowId :=
  (loadTasks s id).map (.task ·.id) ++ (loadTriggers s id).map (.trigger ·.id) ++ [.workflow id]

/-- The session when they are marked. -/
def markedSession (s : DefinitionStore) (id : UUID) : DefinitionSession where
  store := s
  pending := (markedKeys s id).map .delete

/-- What a deletion does to the rows once everything it left pending is flushed. -/
theorem delete_eq (hstored : (workflowDefinitionRow db.definitions id).isSome = true) :
    delete db id = (do
      let definitions ← databaseError ((markedKeys db.definitions id).foldlM
        (definitionSchema db.executions).deleteKey db.definitions)
      pure { db with definitions := definitions }) := by
  obtain ⟨m, hm⟩ := Option.isSome_iff_exists.mp hstored
  have hload : load db.definitions id = some (WorkflowDefinitionMapper.workflowToDomain id m
      (loadTasks db.definitions id) (loadTriggers db.definitions id)) := by
    unfold load
    rw [hm]
  have hmarked : WorkflowDefinitionRepository.delete db.executions { store := db.definitions } id =
      .ok (markedSession db.definitions id) := by
    have hflush : ({ store := db.definitions } : DefinitionSession).flush
        (definitionSchema db.executions) = .ok { store := db.definitions } := rfl
    unfold WorkflowDefinitionRepository.delete
    rw [hflush]
    simp only [bind, Except.bind, hload]
    rfl
  have hsettle : (markedSession db.definitions id).commit (definitionSchema db.executions) =
      (markedKeys db.definitions id).foldlM (definitionSchema db.executions).deleteKey
        db.definitions := by
    unfold Sql.OrmSession.commit Sql.OrmSession.settle markedSession
    rw [List.foldlM_map]
    rfl
  unfold delete
  rw [hmarked]
  show (do let definitions ← databaseError (Sql.OrmSession.commit _ _); _) = _
  rw [hsettle]

/-! ### The marked rows -/

variable {s : DefinitionStore}

theorem mem_markedKeys {k : DefinitionRowId} : k ∈ markedKeys s id ↔
    (∃ i, k = .task i ∧ RowOf s id (.task i)) ∨ (∃ i, k = .trigger i ∧ RowOf s id (.trigger i)) ∨
      k = .workflow id := by
  unfold markedKeys
  simp only [List.mem_append, List.mem_map, List.mem_singleton, or_assoc]
  refine or_congr ?_ (or_congr ?_ Iff.rfl)
  · constructor
    · intro ⟨t, ht, hk⟩
      obtain ⟨i, m, hi, hid, rfl⟩ := mem_loadTasks.mp ht
      exact ⟨i, hk.symm, m, hi, hid⟩
    · intro ⟨i, hk, m, hi, hid⟩
      exact ⟨_, mem_loadTasks.mpr ⟨i, m, hi, hid, rfl⟩, hk.symm⟩
  · constructor
    · intro ⟨t, ht, hk⟩
      obtain ⟨i, m, hi, hid, rfl⟩ := mem_loadTriggers.mp ht
      exact ⟨i, hk.symm, m, hi, hid⟩
    · intro ⟨i, hk, m, hi, hid⟩
      exact ⟨_, mem_loadTriggers.mpr ⟨i, m, hi, hid, rfl⟩, hk.symm⟩

theorem task_mem_markedKeys {i : UUID} :
    (.task i : DefinitionRowId) ∈ markedKeys s id ↔ RowOf s id (.task i) := by
  rw [mem_markedKeys]
  simp

theorem trigger_mem_markedKeys {i : UUID} :
    (.trigger i : DefinitionRowId) ∈ markedKeys s id ↔ RowOf s id (.trigger i) := by
  rw [mem_markedKeys]
  simp

theorem workflow_mem_markedKeys {i : UUID} :
    (.workflow i : DefinitionRowId) ∈ markedKeys s id ↔ i = id := by
  rw [mem_markedKeys]
  simp

/-- A marked row other than the definition's own comes before that. -/
theorem mem_before_workflow {a b : List DefinitionRowId}
    (hsplit : markedKeys s id = a ++ .workflow id :: b) {k : DefinitionRowId}
    (hk : k ∈ markedKeys s id) (hne : k ≠ .workflow id) : k ∈ a := by
  unfold markedKeys at hsplit
  rcases List.eq_nil_or_concat b with rfl | ⟨b', x, rfl⟩
  · obtain ⟨hpre, -⟩ := List.append_inj' hsplit rfl
    rw [← hpre]
    unfold markedKeys at hk
    rw [List.mem_append, List.mem_singleton] at hk
    exact hk.resolve_right hne
  · rw [List.concat_eq_append, ← List.cons_append, ← List.append_assoc] at hsplit
    have hpre := (List.append_inj' hsplit rfl).1
    have hmem : (.workflow id : DefinitionRowId) ∈
        (loadTasks s id).map (.task ·.id) ++ (loadTriggers s id).map (.trigger ·.id) := by
      rw [hpre]
      simp
    simp at hmem

variable {executions : ExecutionStore} {s' : DefinitionStore}

theorem cascades_marked {k : DefinitionRowId} (hk : k ∈ markedKeys s id) :
    (definitionSchema executions).cascades k = false := by
  rcases mem_markedKeys.mp hk with ⟨i, rfl, -⟩ | ⟨i, rfl, -⟩ | rfl <;> rfl

/-- Only dependencies and the definition's own rows refer to a marked row, and state that goes
with its trigger. -/
theorem refers_to_marked {k j : DefinitionRowId} {v : DefinitionRow j} (hk : k ∈ markedKeys s id)
    (hj : s.row j = some v) (hcas : (definitionSchema executions).cascades j = false)
    (href : k ∈ (definitionSchema executions).references j v) :
    (∃ a b i, j = .dependency a b ∧ (i = a ∨ i = b) ∧ RowOf s id (.task i)) ∨
      (k = .workflow id ∧ j ∈ markedKeys s id ∧ j ≠ .workflow id) := by
  cases j with
  | workflow i => simp at href
  | task i =>
      obtain rfl : k = .workflow v.workflowDefinitionId := by simpa using href
      have hid := workflow_mem_markedKeys.mp hk
      exact Or.inr ⟨by rw [hid], task_mem_markedKeys.mpr ⟨v, hj, hid⟩, by simp⟩
  | dependency a b =>
      have hab : k = .task a ∨ k = .task b := by simpa using href
      rcases hab with rfl | rfl
      · exact Or.inl ⟨a, b, a, rfl, Or.inl rfl, task_mem_markedKeys.mp hk⟩
      · exact Or.inl ⟨a, b, b, rfl, Or.inr rfl, task_mem_markedKeys.mp hk⟩
  | trigger i =>
      obtain rfl : k = .workflow v.workflowDefinitionId := by simpa using href
      have hid := workflow_mem_markedKeys.mp hk
      exact Or.inr ⟨by rw [hid], trigger_mem_markedKeys.mpr ⟨v, hj, hid⟩, by simp⟩
  | chronologicalTriggerState i => simp [definitionSchema] at hcas

theorem deleteMarked_ok (hs : (definitionSchema executions).Consistent s)
    (hunlinked : Unlinked s id) (hunexecuted : Unexecuted executions s id) :
    ∃ s', (markedKeys s id).foldlM (definitionSchema executions).deleteKey s = .ok s' := by
  refine Sql.Schema.deleteEach_ok (fun _ _ _ => definitionSchema.shallow executions) hs ?_ ?_
  · intro k hk
    rcases mem_markedKeys.mp hk with ⟨i, rfl, hi⟩ | ⟨i, rfl, -⟩ | rfl
    · simpa [definitionSchema] using hunexecuted.2 i hi
    · rfl
    · simpa [definitionSchema] using hunexecuted.1
  · intro a k b hsplit j v hj _ hcas href
    have hk : k ∈ markedKeys s id := by rw [hsplit]; simp
    rcases refers_to_marked hk hj hcas href with ⟨c, d, i, rfl, hi, howned⟩ | ⟨rfl, hmem, hne⟩
    · obtain ⟨hc, hd⟩ := hunlinked c d (by rw [hj]; rfl)
      rcases hi with rfl | rfl
      · exact absurd howned hc
      · exact absurd howned hd
    · exact mem_before_workflow hsplit hmem hne

theorem deleteMarked_cases (hs : (definitionSchema executions).Consistent s)
    (hstored : (workflowDefinitionRow s id).isSome = true)
    (h : (markedKeys s id).foldlM (definitionSchema executions).deleteKey s = .ok s') :
    Unlinked s id ∧ Unexecuted executions s id ∧
      (∀ k, RowOf s id k → s'.row k = none) ∧ ∀ k, ¬ RowOf s id k → s'.row k = s.row k := by
  obtain ⟨hpinned, hneeded, hrow⟩ := Sql.Schema.deleteEach_cases
    (fun _ _ _ => definitionSchema.shallow executions) (fun k hk => cascades_marked hk) hs h
  have hunlinked : Unlinked s id := by
    intro a b hab
    obtain ⟨v, hv⟩ := Option.isSome_iff_exists.mp hab
    have hnot : ∀ i, i = a ∨ i = b → ¬ RowOf s id (.task i) := by
      intro i hi howned
      have hmem := hneeded (.task i) (task_mem_markedKeys.mpr howned) (.dependency a b) v hv rfl
        (by simpa using hi)
      simp [mem_markedKeys] at hmem
    exact ⟨hnot a (Or.inl rfl), hnot b (Or.inr rfl)⟩
  refine ⟨hunlinked, ⟨?_, ?_⟩, ?_, ?_⟩
  · have := hpinned (.workflow id) (workflow_mem_markedKeys.mpr rfl) hstored
    simpa [definitionSchema] using this
  · intro i hi
    obtain ⟨m, hm, hid⟩ := hi
    have := hpinned (.task i) (task_mem_markedKeys.mpr ⟨m, hm, hid⟩)
      (Option.isSome_of_eq_some hm)
    simpa [definitionSchema] using this
  · intro k hk
    rw [hrow]
    cases hv : s.row k with
    | none => rfl
    | some v =>
        rw [Option.filter_some, if_neg]
        rw [decide_eq_true_eq]
        rintro ⟨hmarked, hkept⟩
        cases k with
        | workflow i => exact hmarked (workflow_mem_markedKeys.mpr hk)
        | task i => exact hmarked (task_mem_markedKeys.mpr hk)
        | dependency a b => exact (hunlinked a b (by rw [hv]; rfl)).1 hk
        | trigger i => exact hmarked (trigger_mem_markedKeys.mpr hk)
        | chronologicalTriggerState i =>
            exact hkept ⟨rfl, .trigger i, trigger_mem_markedKeys.mpr hk, by simp⟩
  · intro k hk
    rw [hrow]
    cases hv : s.row k with
    | none => rfl
    | some v =>
        rw [Option.filter_some, if_pos]
        rw [decide_eq_true_eq]
        constructor
        · intro hmarked
          rcases mem_markedKeys.mp hmarked with ⟨i, rfl, hi⟩ | ⟨i, rfl, hi⟩ | rfl
          · exact hk hi
          · exact hk hi
          · exact hk rfl
        · rintro ⟨hcas, j, hj, href⟩
          cases k with
          | chronologicalTriggerState i =>
              obtain rfl : j = .trigger i := by simpa using href
              exact hk (trigger_mem_markedKeys.mp hj)
          | workflow => simp [definitionSchema] at hcas
          | task => simp [definitionSchema] at hcas
          | dependency => simp [definitionSchema] at hcas
          | trigger => simp [definitionSchema] at hcas

/-- **When a definition can be deleted.**  The deletion of a stored definition commits, with
everything the definition owns gone and nothing else, if no dependency touches its tasks and
no execution was started from it; and only then. -/
theorem delete_exact (hs : (definitionSchema db.executions).Consistent db.definitions)
    (hstored : (workflowDefinitionRow db.definitions id).isSome = true) :
    (∃ db', delete db id = .ok db' ∧ Deleted db db' id) ↔
      Unlinked db.definitions id ∧ Unexecuted db.executions db.definitions id := by
  rw [delete_eq hstored]
  constructor
  · intro ⟨db', hdelete, _⟩
    obtain ⟨definitions, hmarked, _⟩ := bind_eq_ok.mp hdelete
    obtain ⟨hunlinked, hunexecuted, -⟩ :=
      deleteMarked_cases hs hstored (databaseError_ok_iff.mp hmarked)
    exact ⟨hunlinked, hunexecuted⟩
  · intro ⟨hunlinked, hunexecuted⟩
    obtain ⟨s', hmarked⟩ := deleteMarked_ok hs hunlinked hunexecuted
    obtain ⟨-, -, howned, hothers⟩ := deleteMarked_cases hs hstored hmarked
    refine ⟨{ db with definitions := s' },
      bind_eq_ok.mpr ⟨s', databaseError_ok_iff.mpr hmarked, rfl⟩, ?_, howned, hothers, rfl⟩
    show load s' id = none
    unfold load
    rw [show workflowDefinitionRow s' id = none from howned (.workflow id) rfl]

/-- A single task with a trigger. -/
def withTrigger : WorkflowDefinition where
  id := 1
  name := "with a trigger"
  taskDefinitions := [{ id := 11, pluginType := "produce_value", key := "extract" }]
  triggerDefinitions := [{ id := 21, pluginType := "interval" }]

theorem stored_withTrigger : (definitionSchema .empty).Consistent (storedAlone withTrigger) ∧
    ∀ k, (storedAlone withTrigger).row k = savedRow .empty withTrigger k :=
  storedAlone_of_saveable ⟨by decide, by decide, by simp [withTrigger], by decide⟩
    (saveable_empty (Graph.inOrder_nil.snoc (by simp)) ⟨by decide, by decide, by decide⟩)

/-- A single task with a trigger can be deleted. -/
theorem delete_exact_sample :
    ∃ db', delete { definitions := storedAlone withTrigger, executions := .empty } 1 = .ok db' ∧
      Deleted { definitions := storedAlone withTrigger, executions := .empty } db' 1 := by
  refine (delete_exact stored_withTrigger.1 ?_).mpr ⟨?_, by decide, ?_⟩
  · rw [workflowDefinitionRow, stored_withTrigger.2]
    rfl
  · intro a b hab
    rw [stored_withTrigger.2] at hab
    simp only [savedRow, withTrigger, taskNamed] at hab
    split at hab
    · rename_i t ht
      have := List.mem_of_find?_eq_some ht
      simp only [List.mem_singleton] at this
      subst this
      simp at hab
    · simp at hab
  · simp [executedTasks, Sql.Store.scan]

/-- A definition with a dependency between its tasks cannot be deleted. -/
theorem deletion_refused :
    (definitionSchema .empty).Consistent (storedAlone twoTasks) ∧
    (∃ w, load (storedAlone twoTasks) 1 = some w) ∧
    ¬ ∃ db', delete { definitions := storedAlone twoTasks, executions := .empty } 1 = .ok db' := by
  have hworkflow : (workflowDefinitionRow (storedAlone twoTasks) 1).isSome = true := by
    rw [workflowDefinitionRow, row_twoTasks]
    rfl
  refine ⟨consistent_twoTasks, ?_, ?_⟩
  · obtain ⟨w, hw, -⟩ := load_of_stored distinct_twoTasks stored_twoTasks
    exact ⟨w, hw⟩
  · rintro ⟨db', hdelete⟩
    rw [delete_eq hworkflow] at hdelete
    obtain ⟨definitions, hmarked, _⟩ := bind_eq_ok.mp hdelete
    obtain ⟨hunlinked, -⟩ :=
      deleteMarked_cases consistent_twoTasks hworkflow (databaseError_ok_iff.mp hmarked)
    refine (hunlinked 12 11 ?_).1 ⟨_, row_twoTasks (.task 12), rfl⟩
    show ((storedAlone twoTasks).row (.dependency 12 11)).isSome = true
    rw [row_twoTasks]
    rfl

end WorkflowDefinitionService

end AutomationPlatform
