/-
Saving a definition, row by row.

A save is a sequence of writes and deletions, each checked on its own, and between them
the rows are neither the old definition nor the new one.  What they are is said here: after
some of the tasks have been synchronized, those tasks and their dependencies are as the
definition has them, and every other row is as it was.

So it can be said what the next task needs.  Its key must be free, and a task that comes
later in the list still has its old one.  The tasks it depends on must be there, and one
that comes later is there only if it was before.
-/
import AutomationPlatform.Persistence.WorkflowDefinitions

namespace AutomationPlatform

open Sql (bind_eq_ok)

namespace WorkflowDefinitionRepository

open WorkflowDefinitionMapper

variable {executions : ExecutionStore}

/-! ### The statements of a save -/

/-- The condition of the `DELETE` that clears a task's dependencies. -/
def isDependencyOf (id : UUID) : (k : DefinitionRowId) → DefinitionRow k → Bool
  | .dependency taskDefinitionId _, _ => taskDefinitionId = id
  | _, _ => false

/-- The condition of the `DELETE` of tasks. -/
def isRemovedTask (wd : WorkflowDefinition) : (k : DefinitionRowId) → DefinitionRow k → Bool
  | .task id, t => t.workflowDefinitionId = wd.id ∧ id ∉ wd.taskDefinitions.map (·.id)
  | _, _ => false

/-- The condition of the `DELETE` of triggers. -/
def isRemovedTrigger (wd : WorkflowDefinition) : (k : DefinitionRowId) → DefinitionRow k → Bool
  | .trigger id, t => t.workflowDefinitionId = wd.id ∧ id ∉ wd.triggerDefinitions.map (·.id)
  | _, _ => false

def taskModelRow (workflowDefinitionId : UUID) (task : TaskDefinition) : Sigma DefinitionRow :=
  ⟨.task task.id, taskToModel workflowDefinitionId task⟩

def triggerModelRow (workflowDefinitionId : UUID) (trigger : TriggerDefinition) :
    Sigma DefinitionRow :=
  ⟨.trigger trigger.id, triggerToModel workflowDefinitionId trigger⟩

variable (executions) in
def writeTask (workflowDefinitionId : UUID) (s : DefinitionStore) (task : TaskDefinition) :
    Except Sql.Violation DefinitionStore := do
  let s ← (definitionSchema executions).write s (taskModelRow workflowDefinitionId task)
  let s ← (definitionSchema executions).delete s (isDependencyOf task.id)
  (dependenciesToModels task).foldlM (definitionSchema executions).write s

variable (executions) in
def writeTasks (s : DefinitionStore) (wd : WorkflowDefinition) :
    Except Sql.Violation DefinitionStore := do
  let s ← (definitionSchema executions).delete s (isRemovedTask wd)
  wd.taskDefinitions.foldlM (writeTask executions wd.id) s

variable (executions) in
def writeTriggers (s : DefinitionStore) (wd : WorkflowDefinition) :
    Except Sql.Violation DefinitionStore := do
  let s ← (definitionSchema executions).delete s (isRemovedTrigger wd)
  wd.triggerDefinitions.foldlM (fun s trigger =>
    (definitionSchema executions).write s (triggerModelRow wd.id trigger)) s

variable (executions) in
/-- What a save does to the rows once everything it left pending is flushed. -/
def writeDefinition (s : DefinitionStore) (wd : WorkflowDefinition) :
    Except Sql.Violation DefinitionStore := do
  let s ← (definitionSchema executions).write s ⟨.workflow wd.id, workflowToModel wd⟩
  let s ← writeTasks executions s wd
  writeTriggers executions s wd

/-- A save, settled. -/
theorem save_settles (wd : WorkflowDefinition) :
    Sql.OrmSession.Settles (definitionSchema executions) (save executions · wd)
      (writeDefinition executions · wd) := by
  have htask : ∀ t, Sql.OrmSession.Settles (definitionSchema executions)
      (synchronizeTask executions wd.id · t) (writeTask executions wd.id · t) := by
    intro t
    refine (Sql.OrmSession.Settles.merge _).bind ?_
    refine (Sql.OrmSession.Settles.executeDelete (isDependencyOf t.id)).bind ?_
    exact Sql.OrmSession.Settles.foldlM fun r => Sql.OrmSession.Settles.merge r
  have htasks : Sql.OrmSession.Settles (definitionSchema executions)
      (synchronizeTasks executions · wd) (writeTasks executions · wd) :=
    (Sql.OrmSession.Settles.executeDelete (isRemovedTask wd)).bind
      (Sql.OrmSession.Settles.foldlM htask)
  have htriggers : Sql.OrmSession.Settles (definitionSchema executions)
      (synchronizeTriggers executions · wd) (writeTriggers executions · wd) :=
    (Sql.OrmSession.Settles.executeDelete (isRemovedTrigger wd)).bind
      (Sql.OrmSession.Settles.foldlM fun trigger =>
        Sql.OrmSession.Settles.merge (triggerModelRow wd.id trigger))
  exact (Sql.OrmSession.Settles.merge _).bind (htasks.bind htriggers)

/-! ### Single statements -/

theorem writable_task_iff {s : DefinitionStore} {i : UUID} {m : TaskDefinitionModel} :
    (definitionSchema executions).Writable s (.task i) m ↔
      m.fits = true ∧
        (∀ j w, j ≠ i → taskDefinitionRow s j = some w →
          w.workflowDefinitionId = m.workflowDefinitionId → w.key ≠ m.key) ∧
        (workflowDefinitionRow s m.workflowDefinitionId).isSome = true := by
  constructor
  · intro h
    refine ⟨h.fits, ?_, ?_⟩
    · intro j w hj hw hid hkey
      refine h.free (m.workflowDefinitionId, m.key) rfl (.task j) w (by simpa using hj) hw ?_
      show some (w.workflowDefinitionId, w.key) = _
      rw [hid, hkey]
    · rcases h.resolved (.workflow m.workflowDefinitionId) (by simp) with hk | hrow
      · simp at hk
      · exact hrow
  · intro ⟨hfits, hfree, hworkflow⟩
    refine ⟨hfits, ?_, ?_⟩
    · intro value hvalue k w hk hw hu
      obtain rfl : (m.workflowDefinitionId, m.key) = value := Option.some.inj hvalue
      obtain ⟨j, t, heq, hval⟩ := definitionSchema.unique_eq_some executions hu
      cases heq
      obtain ⟨hid, hkey⟩ := Prod.mk.inj hval
      exact hfree j _ (by simpa using hk) hw hid.symm hkey.symm
    · intro k hk
      obtain rfl : k = .workflow m.workflowDefinitionId := by simpa using hk
      exact Or.inr hworkflow

variable (executions) in
/-- Nothing but its texts is in the way of writing a workflow. -/
theorem writable_workflow (s : DefinitionStore) (i : UUID) {m : WorkflowDefinitionModel}
    (hfits : m.fits = true) : (definitionSchema executions).Writable s (.workflow i) m where
  fits := hfits
  free := by simp [definitionSchema]
  resolved := by simp

/-- The dependencies of a task can always be cleared. -/
theorem delete_dependencies {s : DefinitionStore} (hs : (definitionSchema executions).Consistent s)
    (id : UUID) : ∃ s', (definitionSchema executions).delete s (isDependencyOf id) = .ok s' ∧
      (definitionSchema executions).Consistent s' ∧
      ∀ k, s'.row k = (s.row k).filter fun v => !isDependencyOf id k v := by
  have hkept : ∀ k v, ∀ j ∈ (definitionSchema executions).references k v,
      ∀ w, isDependencyOf id j w = false := by
    intro k v j hj w
    cases j with
    | dependency => cases k <;> simp at hj
    | workflow => rfl
    | task => rfl
    | trigger => rfl
    | chronologicalTriggerState => rfl
  have hunpinned : ∀ k v, s.row k = some v → isDependencyOf id k v = true →
      (definitionSchema executions).pinned k = false := by
    intro k v _ hcond
    cases k with
    | dependency => rfl
    | workflow => simp [isDependencyOf] at hcond
    | task => simp [isDependencyOf] at hcond
    | trigger => rfl
    | chronologicalTriggerState => rfl
  obtain ⟨hok, hc⟩ := Sql.Schema.delete_ok (fun _ _ _ => definitionSchema.shallow executions) hs
    ⟨hunpinned, fun k v _ _ _ j hj w _ => hkept k v j hj w⟩
  exact ⟨_, hok, hc, Sql.Schema.cascade_row_of_kept hs fun k v _ _ j hj w _ => hkept k v j hj w⟩

/-! ### Tasks by identifier -/

/-- The task with an identifier. -/
def taskNamed (tasks : List TaskDefinition) (id : UUID) : Option TaskDefinition :=
  tasks.find? (·.id = id)

theorem taskNamed_eq_some {tasks : List TaskDefinition} {id : UUID} {t : TaskDefinition}
    (h : taskNamed tasks id = some t) : t ∈ tasks ∧ t.id = id :=
  ⟨List.mem_of_find?_eq_some h, by simpa using List.find?_some h⟩

theorem taskNamed_eq_none {tasks : List TaskDefinition} {id : UUID} :
    taskNamed tasks id = none ↔ id ∉ tasks.map (·.id) := by
  simp [taskNamed]

theorem taskNamed_of_mem {tasks : List TaskDefinition} (hnd : (tasks.map (·.id)).Nodup)
    {t : TaskDefinition} (ht : t ∈ tasks) : taskNamed tasks t.id = some t := by
  cases h : taskNamed tasks t.id with
  | none => exact absurd (List.mem_map_of_mem ht) (taskNamed_eq_none.mp h)
  | some u =>
      obtain ⟨hu, hid⟩ := taskNamed_eq_some h
      rw [List.inj_on_of_nodup_map hnd hu ht hid]

theorem taskNamed_snoc {tasks : List TaskDefinition} {t : TaskDefinition} {id : UUID} :
    taskNamed (tasks ++ [t]) id = (taskNamed tasks id).or (if t.id = id then some t else none) := by
  simp only [taskNamed, List.find?_append, List.find?_cons, List.find?_nil]
  congr 1
  by_cases h : t.id = id <;> simp [h]

/-! ### The loop over the tasks -/

/-- The rows once the tasks of a list have been synchronized. -/
def synchronizedRow (s : DefinitionStore) (workflowDefinitionId : UUID)
    (tasks : List TaskDefinition) : (k : DefinitionRowId) → Option (DefinitionRow k)
  | .task id => ((taskNamed tasks id).map (taskToModel workflowDefinitionId)).or (s.row (.task id))
  | .dependency task dependsOn =>
      match taskNamed tasks task with
      | some t => if dependsOn ∈ t.dependencies then some () else none
      | none => s.row (.dependency task dependsOn)
  | k => s.row k

/-- What the next task needs: values that fit, a key no other task has by now, and the tasks
it depends on. -/
structure Accepts (s : DefinitionStore) (workflowDefinitionId : UUID) (done : List TaskDefinition)
    (task : TaskDefinition) : Prop where
  fits : (taskToModel workflowDefinitionId task).fits = true
  free : ∀ j w, j ≠ task.id → synchronizedRow s workflowDefinitionId done (.task j) = some w →
    w.workflowDefinitionId = workflowDefinitionId → w.key ≠ task.key
  stored : ∀ d ∈ task.dependencies, d ≠ task.id →
    (synchronizedRow s workflowDefinitionId done (.task d)).isSome = true

variable {s₀ s : DefinitionStore} {workflowDefinitionId : UUID} {done : List TaskDefinition}
  {task : TaskDefinition}

theorem nodupKeys_dependencies (hnd : task.dependencies.Nodup) :
    (dependenciesToModels task).NodupKeys := by
  unfold dependenciesToModels List.NodupKeys List.keys
  rw [List.map_map]
  refine (List.nodup_map_iff ?_).mpr hnd
  intro a b hab
  simpa [dependencyToModel] using hab

theorem dlookup_dependencies (hnd : task.dependencies.Nodup) (a b : UUID) :
    (dependenciesToModels task).dlookup (.dependency a b) =
      if a = task.id ∧ b ∈ task.dependencies then some () else none := by
  by_cases h : a = task.id ∧ b ∈ task.dependencies
  · rw [if_pos h]
    refine (List.mem_dlookup_iff (nodupKeys_dependencies hnd)).mpr ?_
    exact List.mem_map.mpr ⟨b, h.2, by rw [dependencyToModel, h.1]⟩
  · rw [if_neg h, List.dlookup_eq_none]
    intro hmem
    simp only [List.keys, dependenciesToModels, List.map_map, List.mem_map, Function.comp,
      dependencyToModel, DefinitionRowId.dependency.injEq] at hmem
    obtain ⟨c, hc, ha, hb⟩ := hmem
    exact h ⟨ha.symm, hb ▸ hc⟩

theorem dlookup_dependencies_ne {k : DefinitionRowId} (hk : ∀ a b, k ≠ .dependency a b) :
    (dependenciesToModels task).dlookup k = none := by
  rw [List.dlookup_eq_none]
  intro hmem
  simp only [List.keys, dependenciesToModels, List.map_map, List.mem_map, Function.comp,
    dependencyToModel] at hmem
  obtain ⟨b, -, h⟩ := hmem
  exact hk _ _ h.symm

/-- Clearing the dependencies of a task leaves every other kind of row. -/
theorem filter_dependencies_ne {id : UUID} {k : DefinitionRowId} (hk : ∀ a b, k ≠ .dependency a b)
    (row : Option (DefinitionRow k)) : (row.filter fun v => !isDependencyOf id k v) = row := by
  cases row with
  | none => rfl
  | some v =>
      cases k with
      | dependency a b => exact absurd rfl (hk a b)
      | workflow => rfl
      | task => rfl
      | trigger => rfl
      | chronologicalTriggerState => rfl

/-- A task that is accepted is written. -/
theorem writeTask_ok (hs : (definitionSchema executions).Consistent s)
    (hrow : ∀ k, s.row k = synchronizedRow s₀ workflowDefinitionId done k)
    (hworkflow : (workflowDefinitionRow s₀ workflowDefinitionId).isSome = true)
    (h : Accepts s₀ workflowDefinitionId done task) :
    ∃ s', writeTask executions workflowDefinitionId s task = .ok s' := by
  have hw : (definitionSchema executions).Writable s (.task task.id)
      (taskToModel workflowDefinitionId task) := by
    refine writable_task_iff.mpr ⟨h.fits, ?_, ?_⟩
    · intro j w hj hw hid
      exact h.free j w hj ((hrow (.task j)).symm.trans hw) hid
    · rw [workflowDefinitionRow, hrow]
      exact hworkflow
  obtain ⟨s₂, hdelete, hc, hrow₂⟩ := delete_dependencies (hs.put hw) task.id
  have htask : ∀ i, s₂.row (.task i) =
      (s.put (.task task.id) (taskToModel workflowDefinitionId task)).row (.task i) := by
    intro i
    rw [hrow₂, filter_dependencies_ne (by simp)]
  have hresolved : ∀ r ∈ dependenciesToModels task,
      ∀ j ∈ (definitionSchema executions).references r.1 r.2, (s₂.row j).isSome = true := by
    intro r hr j hj
    obtain ⟨d, hd, rfl⟩ := List.mem_map.mp hr
    have hj' : j = .task task.id ∨ j = .task d := by simpa [dependencyToModel] using hj
    rcases hj' with rfl | rfl
    · rw [htask, Sql.Store.put_row_self]
      rfl
    · rw [htask, Sql.Store.put_isSome]
      by_cases hself : d = task.id
      · exact Or.inl (by rw [hself])
      · exact Or.inr (by rw [hrow]; exact h.stored d hd hself)
  obtain ⟨s', hs'⟩ := Sql.Schema.writeEach_ok hc
    (fun r hr => by obtain ⟨d, _, rfl⟩ := List.mem_map.mp hr; rfl)
    (fun r hr => by obtain ⟨d, _, rfl⟩ := List.mem_map.mp hr; rfl) hresolved
  exact ⟨s', bind_eq_ok.mpr ⟨_, Sql.Schema.write_ok hw, bind_eq_ok.mpr ⟨s₂, hdelete, hs'⟩⟩⟩

/-- A task that is written was accepted, and is written as it should be. -/
theorem writeTask_cases (hs : (definitionSchema executions).Consistent s)
    (hrow : ∀ k, s.row k = synchronizedRow s₀ workflowDefinitionId done k)
    (hnd : task.dependencies.Nodup) (hnew : task.id ∉ done.map (·.id)) {s' : DefinitionStore}
    (h : writeTask executions workflowDefinitionId s task = .ok s') :
    Accepts s₀ workflowDefinitionId done task ∧ (definitionSchema executions).Consistent s' ∧
      ∀ k, s'.row k = synchronizedRow s₀ workflowDefinitionId (done ++ [task]) k := by
  obtain ⟨s₁, hwrite, h⟩ := bind_eq_ok.mp h
  obtain ⟨hw, rfl⟩ := Sql.Schema.writable_of_ok hwrite
  obtain ⟨hfits, hfree, -⟩ := writable_task_iff.mp hw
  obtain ⟨s₂, hdelete, h⟩ := bind_eq_ok.mp h
  obtain ⟨s₂', hdelete', hc, hrow₂⟩ := delete_dependencies (hs.put hw) task.id
  obtain rfl : s₂ = s₂' := by simpa [hdelete] using hdelete'
  obtain ⟨hc', hrow', hneeded⟩ := Sql.Schema.writeEach_cases hc (nodupKeys_dependencies hnd) h
  have hnone : taskNamed done task.id = none := taskNamed_eq_none.mpr hnew
  refine ⟨⟨hfits, ?_, ?_⟩, hc', ?_⟩
  · intro j w hj hjw hid
    exact hfree j w hj ((hrow (.task j)).trans hjw) hid
  · intro d hd hself
    have hmem : dependencyToModel task.id d ∈ dependenciesToModels task := List.mem_map_of_mem hd
    rcases hneeded _ hmem (.task d) (by simp [dependencyToModel]) with hkey | hsome
    · rw [← List.dlookup_isSome, dlookup_dependencies_ne (by simp)] at hkey
      simp at hkey
    · rw [hrow₂, filter_dependencies_ne (by simp),
        Sql.Store.put_row_ne s _ (by simpa using hself), hrow] at hsome
      exact hsome
  · intro k
    rw [hrow', hrow₂]
    cases k with
    | task i =>
        rw [dlookup_dependencies_ne (by simp), filter_dependencies_ne (by simp), Option.none_or]
        by_cases hi : i = task.id
        · subst hi
          rw [Sql.Store.put_row_self]
          simp [synchronizedRow, taskNamed_snoc, hnone]
        · rw [Sql.Store.put_row_ne s _ (by simpa using hi), hrow]
          simp [synchronizedRow, taskNamed_snoc, Ne.symm hi]
    | dependency a b =>
        rw [dlookup_dependencies hnd, Sql.Store.put_row_ne s _ (by simp), hrow]
        by_cases ha : a = task.id
        · subst ha
          by_cases hb : b ∈ task.dependencies
          · simp [synchronizedRow, taskNamed_snoc, hnone, hb]
          · simp [synchronizedRow, taskNamed_snoc, hnone, hb, isDependencyOf]
        · rw [if_neg fun h => ha h.1, Option.none_or]
          have hkeep : ∀ row : Option Unit,
              (row.filter fun v => !isDependencyOf task.id (.dependency a b) v) = row := by
            intro row
            cases row <;> simp [isDependencyOf, ha]
          refine (hkeep _).trans ?_
          simp [synchronizedRow, taskNamed_snoc, Ne.symm ha]
    | workflow i =>
        rw [dlookup_dependencies_ne (by simp), filter_dependencies_ne (by simp), Option.none_or,
          Sql.Store.put_row_ne s _ (by simp), hrow]
        rfl
    | trigger i =>
        rw [dlookup_dependencies_ne (by simp), filter_dependencies_ne (by simp), Option.none_or,
          Sql.Store.put_row_ne s _ (by simp), hrow]
        rfl
    | chronologicalTriggerState i =>
        rw [dlookup_dependencies_ne (by simp), filter_dependencies_ne (by simp), Option.none_or,
          Sql.Store.put_row_ne s _ (by simp), hrow]
        rfl

/-- The loop goes through when every task is accepted after those before it. -/
theorem writeEachTask_ok {rest : List TaskDefinition}
    (hs : (definitionSchema executions).Consistent s)
    (hrow : ∀ k, s.row k = synchronizedRow s₀ workflowDefinitionId done k)
    (hworkflow : (workflowDefinitionRow s₀ workflowDefinitionId).isSome = true)
    (hnd : ∀ t ∈ rest, t.dependencies.Nodup) (hids : ((done ++ rest).map (·.id)).Nodup)
    (h : ∀ a t b, rest = a ++ t :: b → Accepts s₀ workflowDefinitionId (done ++ a) t) :
    ∃ s', rest.foldlM (writeTask executions workflowDefinitionId) s = .ok s' := by
  induction rest generalizing done s with
  | nil => exact ⟨s, rfl⟩
  | cons t rest ih =>
      have ht : Accepts s₀ workflowDefinitionId done t := by
        simpa using h [] t rest rfl
      obtain ⟨s₁, hwrite⟩ := writeTask_ok hs hrow hworkflow ht
      have hnew : t.id ∉ done.map (·.id) := by
        rw [List.map_append, List.map_cons] at hids
        exact fun hmem => (List.nodup_append.mp hids).2.2 _ hmem _ (by simp) rfl
      obtain ⟨-, hs₁, hrow₁⟩ := writeTask_cases hs hrow (hnd t (by simp)) hnew hwrite
      obtain ⟨s', hs'⟩ := ih hs₁ hrow₁ (fun u hu => hnd u (by simp [hu])) (by simpa using hids)
        fun a u b hab => by simpa using h (t :: a) u b (by rw [hab]; rfl)
      exact ⟨s', by rw [List.foldlM_cons]; exact bind_eq_ok.mpr ⟨s₁, hwrite, hs'⟩⟩

/-- What the loop needed, and what it leaves. -/
theorem writeEachTask_cases {rest : List TaskDefinition} {s' : DefinitionStore}
    (hs : (definitionSchema executions).Consistent s)
    (hrow : ∀ k, s.row k = synchronizedRow s₀ workflowDefinitionId done k)
    (hnd : ∀ t ∈ rest, t.dependencies.Nodup) (hids : ((done ++ rest).map (·.id)).Nodup)
    (h : rest.foldlM (writeTask executions workflowDefinitionId) s = .ok s') :
    (∀ a t b, rest = a ++ t :: b → Accepts s₀ workflowDefinitionId (done ++ a) t) ∧
      (definitionSchema executions).Consistent s' ∧
      ∀ k, s'.row k = synchronizedRow s₀ workflowDefinitionId (done ++ rest) k := by
  induction rest generalizing done s with
  | nil =>
      obtain rfl : s = s' := by simpa [pure, Except.pure] using h
      exact ⟨by simp, hs, by simpa using hrow⟩
  | cons t rest ih =>
      rw [List.foldlM_cons] at h
      obtain ⟨s₁, hwrite, h⟩ := bind_eq_ok.mp h
      have hnew : t.id ∉ done.map (·.id) := by
        rw [List.map_append, List.map_cons] at hids
        exact fun hmem => (List.nodup_append.mp hids).2.2 _ hmem _ (by simp) rfl
      obtain ⟨haccepts, hs₁, hrow₁⟩ := writeTask_cases hs hrow (hnd t (by simp)) hnew hwrite
      obtain ⟨hrest, hc, hrow'⟩ := ih hs₁ hrow₁ (fun u hu => hnd u (by simp [hu]))
        (by simpa using hids) h
      refine ⟨?_, hc, by simpa using hrow'⟩
      intro a u b hab
      rcases List.cons_eq_append_iff.mp hab with ⟨rfl, hb⟩ | ⟨a', rfl, hb⟩
      · obtain ⟨rfl, rfl⟩ := List.cons.inj hb
        simpa using haccepts
      · simpa using hrest a' u b hb

/-! ### The deletions -/

/-- A stored task of a definition that the new version does not have. -/
def Removed (s : DefinitionStore) (wd : WorkflowDefinition) (i : UUID) : Prop :=
  ∃ t, taskDefinitionRow s i = some t ∧ t.workflowDefinitionId = wd.id ∧
    i ∉ wd.taskDefinitions.map (·.id)

variable {wd : WorkflowDefinition} {s' : DefinitionStore}

theorem isRemovedTask_task {i : UUID} {t : TaskDefinitionModel} :
    isRemovedTask wd (.task i) t = true ↔
      t.workflowDefinitionId = wd.id ∧ i ∉ wd.taskDefinitions.map (·.id) := by
  simp [isRemovedTask]

theorem isRemovedTask_ne {k : DefinitionRowId} {v : DefinitionRow k} (hk : ∀ i, k ≠ .task i) :
    isRemovedTask wd k v = false := by
  cases k with
  | task i => exact absurd rfl (hk i)
  | workflow => rfl
  | dependency => rfl
  | trigger => rfl
  | chronologicalTriggerState => rfl

theorem deletable_tasks_iff :
    (definitionSchema executions).Deletable s (isRemovedTask wd) ↔
      (∀ i, Removed s wd i → i ∉ executedTasks executions) ∧
        ∀ a b, s.row (.dependency a b) = some () → ¬ Removed s wd a ∧ ¬ Removed s wd b := by
  constructor
  · intro h
    refine ⟨?_, ?_⟩
    · rintro i ⟨t, ht, hremoved⟩ hmem
      have := h.unpinned (.task i) t ht (isRemovedTask_task.mpr hremoved)
      simp [definitionSchema, hmem] at this
    · intro a b hab
      have hkeep : ∀ i, i = a ∨ i = b → ¬ Removed s wd i := by
        rintro i hi ⟨t, ht, hremoved⟩
        have := h.unreferred (.dependency a b) () hab rfl rfl (.task i) (by simpa using hi) t ht
        rw [isRemovedTask_task.mpr hremoved] at this
        simp at this
      exact ⟨hkeep a (Or.inl rfl), hkeep b (Or.inr rfl)⟩
  · rintro ⟨hexecuted, hdetached⟩
    refine ⟨?_, ?_⟩
    · intro k v hk hcond
      cases k with
      | task i =>
          have := hexecuted i ⟨v, hk, isRemovedTask_task.mp hcond⟩
          simpa [definitionSchema] using this
      | workflow => simp [isRemovedTask] at hcond
      | dependency => rfl
      | trigger => rfl
      | chronologicalTriggerState => rfl
    · intro k v hk _ _ j hj w hw
      by_contra hc
      rw [Bool.not_eq_false] at hc
      cases j with
      | task i =>
          have hremoved : Removed s wd i := ⟨w, hw, isRemovedTask_task.mp hc⟩
          cases k with
          | dependency a b =>
              have hab : i = a ∨ i = b := by simpa using hj
              rcases hab with rfl | rfl
              · exact (hdetached _ _ hk).1 hremoved
              · exact (hdetached _ _ hk).2 hremoved
          | workflow => simp at hj
          | task => simp at hj
          | trigger => simp at hj
          | chronologicalTriggerState => simp at hj
      | workflow => simp [isRemovedTask] at hc
      | dependency => simp [isRemovedTask] at hc
      | trigger => simp [isRemovedTask] at hc
      | chronologicalTriggerState => simp [isRemovedTask] at hc

theorem delete_tasks_row (hs : (definitionSchema executions).Consistent s)
    (h : (definitionSchema executions).delete s (isRemovedTask wd) = .ok s') (k : DefinitionRowId) :
    s'.row k = (s.row k).filter fun v => !isRemovedTask wd k v := by
  obtain ⟨-, rfl⟩ := Sql.Schema.delete_cases h
  refine Sql.Schema.cascade_row_of_kept hs ?_ k
  intro k v _ hcas j hj w _
  refine isRemovedTask_ne fun i hi => ?_
  subst hi
  cases k with
  | chronologicalTriggerState => simp at hj
  | workflow => simp [definitionSchema] at hcas
  | task => simp [definitionSchema] at hcas
  | dependency => simp [definitionSchema] at hcas
  | trigger => simp [definitionSchema] at hcas

theorem isRemovedTrigger_ne {k : DefinitionRowId} {v : DefinitionRow k}
    (hk : ∀ i, k ≠ .trigger i) : isRemovedTrigger wd k v = false := by
  cases k with
  | trigger i => exact absurd rfl (hk i)
  | workflow => rfl
  | task => rfl
  | dependency => rfl
  | chronologicalTriggerState => rfl

/-- Triggers can always be deleted, and their state goes with them. -/
theorem delete_triggers (wd : WorkflowDefinition)
    (hs : (definitionSchema executions).Consistent s) :
    ∃ s', (definitionSchema executions).delete s (isRemovedTrigger wd) = .ok s' ∧
      (definitionSchema executions).Consistent s' ∧
      (∀ k, (∀ i, k ≠ .chronologicalTriggerState i) →
        s'.row k = (s.row k).filter fun v => !isRemovedTrigger wd k v) ∧
      ∀ i, s'.row (.chronologicalTriggerState i) =
        (s.row (.chronologicalTriggerState i)).filter fun _ =>
          !(s.row (.trigger i)).any (isRemovedTrigger wd (.trigger i)) := by
  have hunpinned : ∀ k v, s.row k = some v → isRemovedTrigger wd k v = true →
      (definitionSchema executions).pinned k = false := by
    intro k v _ hcond
    cases k with
    | trigger => rfl
    | workflow => simp [isRemovedTrigger] at hcond
    | task => simp [isRemovedTrigger] at hcond
    | dependency => rfl
    | chronologicalTriggerState => rfl
  have hunreferred : ∀ k v, s.row k = some v → isRemovedTrigger wd k v = false →
      (definitionSchema executions).cascades k = false →
      ∀ j ∈ (definitionSchema executions).references k v, ∀ w, s.row j = some w →
        isRemovedTrigger wd j w = false := by
    intro k v _ _ hcas j hj w _
    refine isRemovedTrigger_ne fun i hi => ?_
    subst hi
    cases k with
    | chronologicalTriggerState => simp [definitionSchema] at hcas
    | workflow => simp at hj
    | task => simp at hj
    | dependency => simp at hj
    | trigger => simp at hj
  obtain ⟨hok, hc⟩ := Sql.Schema.delete_ok (fun _ _ _ => definitionSchema.shallow executions) hs
    ⟨hunpinned, hunreferred⟩
  refine ⟨_, hok, hc, ?_, ?_⟩
  · intro k hk
    rw [Sql.Schema.cascade_row]
    have hcas : (definitionSchema executions).cascades k = false := by
      cases k with
      | chronologicalTriggerState i => exact absurd rfl (hk i)
      | workflow => rfl
      | task => rfl
      | dependency => rfl
      | trigger => rfl
    simp [hcas]
  · intro i
    rw [Sql.Schema.cascade_row]
    cases hstate : s.row (.chronologicalTriggerState i) with
    | none => rfl
    | some state =>
        obtain ⟨w, hw⟩ := Option.isSome_iff_exists.mp
          (hs.resolved _ state hstate (.trigger i) (by simp))
        have hresolved : (definitionSchema executions).resolved (s.deleteWhere (isRemovedTrigger wd))
            (.chronologicalTriggerState i) state = !isRemovedTrigger wd (.trigger i) w := by
          simp [Sql.Schema.resolved, Sql.Store.deleteWhere_row, hw]
        rw [hw, Option.filter_some, Option.filter_some, hresolved]
        simp [isRemovedTrigger_ne, definitionSchema]

/-! ### The whole save -/

/-- The parts of a definition are told apart by what they are stored under. -/
structure Distinct (wd : WorkflowDefinition) : Prop where
  ids : (wd.taskDefinitions.map (·.id)).Nodup
  keys : (wd.taskDefinitions.map (·.key)).Nodup
  dependencies : ∀ t ∈ wd.taskDefinitions, t.dependencies.Nodup
  triggerIds : (wd.triggerDefinitions.map (·.id)).Nodup

/-- All columns take what is in the definition. -/
structure Fits (wd : WorkflowDefinition) : Prop where
  workflow : (workflowToModel wd).fits = true
  tasks : ∀ t ∈ wd.taskDefinitions, (taskToModel wd.id t).fits = true
  triggers : ∀ t ∈ wd.triggerDefinitions, (triggerToModel wd.id t).fits = true

variable (executions) in
/-- What a save needs of the definition, and of the rows it finds. -/
structure Saveable (s : DefinitionStore) (wd : WorkflowDefinition) : Prop where
  fits : Fits wd
  unexecuted : ∀ i, Removed s wd i → i ∉ executedTasks executions
  /-- No dependency touches a task that is removed. -/
  detached : ∀ a b, s.row (.dependency a b) = some () → ¬ Removed s wd a ∧ ¬ Removed s wd b
  /-- No task takes a key that a task after it still has. -/
  free : ∀ a t b, wd.taskDefinitions = a ++ t :: b → ∀ u ∈ b, ∀ w,
    taskDefinitionRow s u.id = some w → w.workflowDefinitionId = wd.id → w.key ≠ t.key
  /-- A task depends on tasks before it, and on tasks that were already stored. -/
  stored : ∀ a t b, wd.taskDefinitions = a ++ t :: b → ∀ d ∈ t.dependencies, d ≠ t.id →
    d ∈ a.map (·.id) ∨ ((taskDefinitionRow s d).isSome = true ∧ ¬ Removed s wd d)

theorem not_removed_iff {i : UUID} {t : TaskDefinitionModel} (ht : taskDefinitionRow s i = some t) :
    ¬ Removed s wd i ↔ isRemovedTask wd (.task i) t = false := by
  rw [← Bool.not_eq_true, isRemovedTask_task, not_iff_not]
  constructor
  · intro ⟨u, hu, h⟩
    rw [ht, Option.some.injEq] at hu
    exact hu ▸ h
  · intro h
    exact ⟨t, ht, h⟩

/-- What the loop needs, in terms of the rows before the save. -/
theorem accepts_iff {s₂ : DefinitionStore} (hwd : Distinct wd)
    (hrow : ∀ i, taskDefinitionRow s₂ i =
      (taskDefinitionRow s i).filter fun v => !isRemovedTask wd (.task i) v)
    {a b : List TaskDefinition} (hsplit : wd.taskDefinitions = a ++ task :: b) :
    Accepts s₂ wd.id a task ↔ (taskToModel wd.id task).fits = true ∧
      (∀ u ∈ b, ∀ w, taskDefinitionRow s u.id = some w → w.workflowDefinitionId = wd.id →
        w.key ≠ task.key) ∧
      ∀ d ∈ task.dependencies, d ≠ task.id →
        d ∈ a.map (·.id) ∨ ((taskDefinitionRow s d).isSome = true ∧ ¬ Removed s wd d) := by
  have hids := hwd.ids
  have hkeys := hwd.keys
  rw [hsplit, List.map_append, List.map_cons, List.nodup_append, List.nodup_cons] at hids hkeys
  constructor
  · intro h
    refine ⟨h.fits, ?_, ?_⟩
    · intro u hu w hw hid
      have hub : u.id ∈ b.map (·.id) := List.mem_map_of_mem hu
      have hua : taskNamed a u.id = none := taskNamed_eq_none.mpr fun hmem =>
        hids.2.2 _ hmem _ (List.mem_cons_of_mem _ hub) rfl
      refine h.free u.id w (fun heq => hids.2.1.1 (heq ▸ hub)) ?_ hid
      have hkept : isRemovedTask wd (.task u.id) w = false := by
        rw [← not_removed_iff hw]
        exact fun ⟨_, _, _, hgone⟩ => hgone (List.mem_map_of_mem (by rw [hsplit]; simp [hu]))
      rw [synchronizedRow, hua, Option.map_none, Option.none_or]
      refine (hrow u.id).trans ?_
      rw [hw, Option.filter_some, hkept]
      rfl
    · intro d hd hself
      have hsome := h.stored d hd hself
      rw [synchronizedRow] at hsome
      cases hda : taskNamed a d with
      | some u =>
          obtain ⟨hu, rfl⟩ := taskNamed_eq_some hda
          exact Or.inl (List.mem_map_of_mem hu)
      | none =>
          rw [hda, Option.map_none, Option.none_or] at hsome
          obtain ⟨w, hw⟩ := Option.isSome_iff_exists.mp hsome
          obtain ⟨hw, hkept⟩ := Option.filter_eq_some_iff.mp ((hrow d).symm.trans hw)
          exact Or.inr ⟨by rw [hw]; rfl, (not_removed_iff hw).mpr (by simpa using hkept)⟩
  · intro ⟨hfits, hfree, hstored⟩
    refine ⟨hfits, ?_, ?_⟩
    · intro j w hj hw hid
      rw [synchronizedRow] at hw
      cases hja : taskNamed a j with
      | some u =>
          obtain ⟨hu, rfl⟩ := taskNamed_eq_some hja
          rw [hja, Option.map_some, Option.some_or, Option.some.injEq] at hw
          subst hw
          exact hkeys.2.2 _ (List.mem_map_of_mem hu) _ (by simp)
      | none =>
          rw [hja, Option.map_none, Option.none_or] at hw
          obtain ⟨hw, hkept⟩ := Option.filter_eq_some_iff.mp ((hrow j).symm.trans hw)
          -- The row has not been rewritten yet, so its task comes later.
          have hmem : j ∈ wd.taskDefinitions.map (·.id) := by
            by_contra hgone
            rw [isRemovedTask_task.mpr ⟨hid, hgone⟩] at hkept
            simp at hkept
          obtain ⟨u, hu, rfl⟩ := List.mem_map.mp hmem
          rw [hsplit, List.mem_append, List.mem_cons] at hu
          rcases hu with hu | rfl | hu
          · exact absurd (List.mem_map_of_mem hu) (taskNamed_eq_none.mp hja)
          · exact absurd rfl hj
          · exact hfree u hu w hw hid
    · intro d hd hself
      rw [synchronizedRow]
      rcases hstored d hd hself with hda | ⟨hsome, hkept⟩
      · obtain ⟨u, hu, rfl⟩ := List.mem_map.mp hda
        rw [taskNamed_of_mem hids.1 hu]
        rfl
      · obtain ⟨w, hw⟩ := Option.isSome_iff_exists.mp hsome
        have hrow₂ : s₂.row (.task d) = some w := by
          refine (hrow d).trans ?_
          rw [hw, Option.filter_some, (not_removed_iff hw).mp hkept]
          rfl
        rw [hrow₂, Option.isSome_or]
        simp

/-- The trigger with an identifier. -/
def triggerNamed (triggers : List TriggerDefinition) (id : UUID) : Option TriggerDefinition :=
  triggers.find? (·.id = id)

/-- A row after a definition was saved. -/
def savedRow (s : DefinitionStore) (wd : WorkflowDefinition) :
    (k : DefinitionRowId) → Option (DefinitionRow k)
  | .workflow id => if id = wd.id then some (workflowToModel wd) else s.row (.workflow id)
  | .task id =>
      ((taskNamed wd.taskDefinitions id).map (taskToModel wd.id)).or
        ((s.row (.task id)).filter fun v => !isRemovedTask wd (.task id) v)
  | .dependency task dependsOn =>
      match taskNamed wd.taskDefinitions task with
      | some t => if dependsOn ∈ t.dependencies then some () else none
      | none => s.row (.dependency task dependsOn)
  | .trigger id =>
      ((triggerNamed wd.triggerDefinitions id).map (triggerToModel wd.id)).or
        ((s.row (.trigger id)).filter fun v => !isRemovedTrigger wd (.trigger id) v)
  | .chronologicalTriggerState id =>
      (s.row (.chronologicalTriggerState id)).filter fun _ =>
        !(s.row (.trigger id)).any (isRemovedTrigger wd (.trigger id))

theorem nodupKeys_triggers {triggers : List TriggerDefinition}
    (hnd : (triggers.map (·.id)).Nodup) :
    (triggers.map (triggerModelRow wd.id)).NodupKeys := by
  unfold List.NodupKeys List.keys
  rw [List.map_map]
  have hkeys : triggers.map (Sigma.fst ∘ triggerModelRow wd.id) =
      (triggers.map (·.id)).map DefinitionRowId.trigger := by
    rw [List.map_map]
    rfl
  rw [hkeys]
  exact (List.nodup_map_iff fun a b hab => by simpa using hab).mpr hnd

theorem dlookup_triggers (triggers : List TriggerDefinition) (i : UUID) :
    (triggers.map (triggerModelRow wd.id)).dlookup (.trigger i) =
      (triggerNamed triggers i).map (triggerToModel wd.id) := by
  induction triggers with
  | nil => rfl
  | cons t rest ih =>
      rw [List.map_cons, triggerModelRow, triggerNamed, List.find?_cons]
      by_cases hi : t.id = i
      · subst hi
        simp
      · rw [List.dlookup_cons_ne _ _ (by simpa using Ne.symm hi), ih]
        simp [hi, triggerNamed]

theorem dlookup_triggers_ne {triggers : List TriggerDefinition} {k : DefinitionRowId}
    (hk : ∀ i, k ≠ .trigger i) : (triggers.map (triggerModelRow wd.id)).dlookup k = none := by
  rw [List.dlookup_eq_none]
  intro hmem
  simp only [List.keys, List.map_map, List.mem_map, Function.comp, triggerModelRow] at hmem
  obtain ⟨t, -, h⟩ := hmem
  exact hk _ h.symm

variable (executions) in
theorem writeTriggers_eq (s : DefinitionStore) (wd : WorkflowDefinition) :
    writeTriggers executions s wd =
      ((definitionSchema executions).delete s (isRemovedTrigger wd) >>= fun s =>
        (wd.triggerDefinitions.map (triggerModelRow wd.id)).foldlM
          (definitionSchema executions).write s) := by
  simp only [writeTriggers, List.foldlM_map]

/-- Triggers that have been written fit. -/
theorem fits_of_writeTriggers (h : writeTriggers executions s wd = .ok s') :
    ∀ t ∈ wd.triggerDefinitions, (triggerToModel wd.id t).fits = true := by
  rw [writeTriggers_eq] at h
  obtain ⟨s₁, -, hwrite⟩ := bind_eq_ok.mp h
  exact fun t ht => Sql.Schema.fits_of_writeEach hwrite _ (List.mem_map_of_mem ht)

/-- What writing the triggers leaves; if they fit, nothing is in its way. -/
theorem writeTriggers_ok (hs : (definitionSchema executions).Consistent s)
    (hwd : Distinct wd)
    (hfits : ∀ t ∈ wd.triggerDefinitions, (triggerToModel wd.id t).fits = true)
    (hworkflow : (workflowDefinitionRow s wd.id).isSome = true) :
    ∃ s', writeTriggers executions s wd = .ok s' ∧ (definitionSchema executions).Consistent s' ∧
      (∀ k, (∀ i, k ≠ .trigger i) → (∀ i, k ≠ .chronologicalTriggerState i) →
        s'.row k = s.row k) ∧
      (∀ i, s'.row (.trigger i) =
        ((triggerNamed wd.triggerDefinitions i).map (triggerToModel wd.id)).or
          ((s.row (.trigger i)).filter fun v => !isRemovedTrigger wd (.trigger i) v)) ∧
      ∀ i, s'.row (.chronologicalTriggerState i) =
        (s.row (.chronologicalTriggerState i)).filter fun _ =>
          !(s.row (.trigger i)).any (isRemovedTrigger wd (.trigger i)) := by
  obtain ⟨s₁, hdelete, hs₁, hrow, hstate⟩ := delete_triggers wd hs
  have hworkflow₁ : (s₁.row (.workflow wd.id)).isSome = true := by
    rw [hrow _ (by simp)]
    have hkeep : ((s.row (.workflow wd.id)).filter fun v =>
        !isRemovedTrigger wd (.workflow wd.id) v) = s.row (.workflow wd.id) := by
      cases s.row (.workflow wd.id) <;> rfl
    rw [hkeep]
    exact hworkflow
  have hresolved : ∀ r ∈ wd.triggerDefinitions.map (triggerModelRow wd.id),
      ∀ j ∈ (definitionSchema executions).references r.1 r.2, (s₁.row j).isSome = true := by
    intro r hr j hj
    obtain ⟨t, -, rfl⟩ := List.mem_map.mp hr
    obtain rfl : j = .workflow wd.id := by simpa [triggerModelRow, triggerToModel] using hj
    exact hworkflow₁
  obtain ⟨s', hs'⟩ := Sql.Schema.writeEach_ok hs₁
    (fun r hr => by obtain ⟨t, ht, rfl⟩ := List.mem_map.mp hr; exact hfits t ht)
    (fun r hr => by obtain ⟨t, _, rfl⟩ := List.mem_map.mp hr; rfl) hresolved
  obtain ⟨hc, hrow', -⟩ :=
    Sql.Schema.writeEach_cases hs₁ (nodupKeys_triggers hwd.triggerIds) hs'
  refine ⟨s', ?_, hc, ?_, ?_, ?_⟩
  · rw [writeTriggers_eq]
    exact bind_eq_ok.mpr ⟨s₁, hdelete, hs'⟩
  · intro k htrigger hstate'
    rw [hrow', dlookup_triggers_ne htrigger, Option.none_or, hrow k hstate']
    cases s.row k with
    | none => rfl
    | some v => simp [Option.filter_some, isRemovedTrigger_ne htrigger]
  · intro i
    rw [hrow', dlookup_triggers, hrow _ (by simp)]
  · intro i
    rw [hrow', dlookup_triggers_ne (by simp), Option.none_or, hstate]

theorem synchronizedRow_nil (k : DefinitionRowId) :
    synchronizedRow s workflowDefinitionId [] k = s.row k := by
  cases k with
  | task i => simp [synchronizedRow, taskNamed]
  | dependency => simp [synchronizedRow, taskNamed]
  | workflow => rfl
  | trigger => rfl
  | chronologicalTriggerState => rfl

/-- Writing the workflow first changes nothing about the tasks. -/
theorem removed_put_iff {i : UUID} :
    Removed (s.put (.workflow wd.id) (workflowToModel wd)) wd i ↔ Removed s wd i := by
  unfold Removed taskDefinitionRow
  rw [Sql.Store.put_row_ne s _ (by simp)]

/-- The rows when the tasks no longer in the definition are gone. -/
theorem delete_tasks_cases (hs : (definitionSchema executions).Consistent s)
    (hfits : (workflowToModel wd).fits = true) (h : (definitionSchema executions).delete
      (s.put (.workflow wd.id) (workflowToModel wd)) (isRemovedTask wd) = .ok s') :
    (definitionSchema executions).Consistent s' ∧ (∀ i, Removed s wd i → i ∉ executedTasks executions) ∧
      (∀ a b, s.row (.dependency a b) = some () → ¬ Removed s wd a ∧ ¬ Removed s wd b) ∧
      (∀ i, s'.row (.task i) =
        (s.row (.task i)).filter fun v => !isRemovedTask wd (.task i) v) ∧
      s'.row (.workflow wd.id) = some (workflowToModel wd) ∧
      ∀ k, k ≠ .workflow wd.id → (∀ i, k ≠ .task i) → s'.row k = s.row k := by
  have hs₁ := hs.put (writable_workflow executions s wd.id hfits)
  obtain ⟨hdeletable, rfl⟩ := Sql.Schema.delete_cases h
  obtain ⟨hexecuted, hdetached⟩ := deletable_tasks_iff.mp hdeletable
  have hrow := delete_tasks_row hs₁ h
  refine ⟨?_, ?_, ?_, ?_, ?_, ?_⟩
  · exact (Sql.Schema.delete_ok (fun _ _ _ => definitionSchema.shallow executions) hs₁ hdeletable).2
  · intro i hi
    exact hexecuted i (removed_put_iff.mpr hi)
  · intro a b hab
    rw [← removed_put_iff, ← removed_put_iff]
    exact hdetached a b ((Sql.Store.put_row_ne s _ (by simp)).trans hab)
  · intro i
    rw [hrow, Sql.Store.put_row_ne s _ (by simp)]
  · rw [hrow, Sql.Store.put_row_self]
    rfl
  · intro k hk htask
    rw [hrow, Sql.Store.put_row_ne s _ hk]
    cases s.row k with
    | none => rfl
    | some v => simp [Option.filter_some, isRemovedTask_ne htask]

/-- **What a save needs, and what it leaves.** -/
theorem writeDefinition_cases (hs : (definitionSchema executions).Consistent s)
    (hwd : Distinct wd) (h : writeDefinition executions s wd = .ok s') :
    Saveable executions s wd ∧ (definitionSchema executions).Consistent s' ∧
      ∀ k, s'.row k = savedRow s wd k := by
  obtain ⟨s₁, hwrite, h⟩ := bind_eq_ok.mp h
  obtain ⟨hwritable, rfl⟩ := Sql.Schema.writable_of_ok hwrite
  have hfits : (workflowToModel wd).fits = true := hwritable.fits
  obtain ⟨s₃, htasks, htriggers⟩ := bind_eq_ok.mp h
  obtain ⟨s₂, hdelete, hloop⟩ := bind_eq_ok.mp htasks
  obtain ⟨hs₂, hexecuted, hdetached, htask, hworkflow, hother⟩ :=
    delete_tasks_cases hs hfits hdelete
  have hnil : ∀ k, s₂.row k = synchronizedRow s₂ wd.id [] k :=
    fun k => (synchronizedRow_nil k).symm
  obtain ⟨haccepts, hs₃, hrow₃⟩ := writeEachTask_cases hs₂ hnil hwd.dependencies
    (by simpa using hwd.ids) hloop
  rw [List.nil_append] at hrow₃
  have hworkflow₃ : s₃.row (.workflow wd.id) = some (workflowToModel wd) :=
    (hrow₃ _).trans hworkflow
  have hfits₃ := fits_of_writeTriggers htriggers
  obtain ⟨s₄, hs₄, hc, hrow, htrigger, hstate⟩ := writeTriggers_ok hs₃ hwd hfits₃
    (by rw [workflowDefinitionRow, hworkflow₃]; rfl)
  obtain rfl : s' = s₄ := by simpa [htriggers] using hs₄
  have haccept := fun {a t b} hsplit =>
    (accepts_iff hwd htask hsplit).mp (by simpa using haccepts a t b hsplit)
  refine ⟨⟨⟨hfits, ?_, hfits₃⟩, hexecuted, hdetached, ?_, ?_⟩, hc, ?_⟩
  · intro t ht
    obtain ⟨a, b, hsplit⟩ := List.append_of_mem ht
    exact (haccept hsplit).1
  · intro a t b hsplit
    exact (haccept hsplit).2.1
  · intro a t b hsplit
    exact (haccept hsplit).2.2
  · intro k
    cases k with
    | workflow i =>
        rw [hrow _ (by simp) (by simp), hrow₃]
        by_cases hi : i = wd.id
        · subst hi
          simp [synchronizedRow, savedRow, hworkflow]
        · simp [synchronizedRow, savedRow, hi, hother (.workflow i) (by simpa using hi) (by simp)]
    | task i =>
        rw [hrow _ (by simp) (by simp), hrow₃]
        simp only [synchronizedRow, savedRow, htask]
    | dependency a b =>
        rw [hrow _ (by simp) (by simp), hrow₃]
        simp only [synchronizedRow, savedRow, hother (.dependency a b) (by simp) (by simp)]
    | trigger i =>
        have hold : s₃.row (.trigger i) = s.row (.trigger i) :=
          (hrow₃ _).trans (hother _ (by simp) (by simp))
        rw [htrigger, hold]
        rfl
    | chronologicalTriggerState i =>
        have hold : s₃.row (.trigger i) = s.row (.trigger i) :=
          (hrow₃ _).trans (hother _ (by simp) (by simp))
        have hold' : s₃.row (.chronologicalTriggerState i) = s.row (.chronologicalTriggerState i) :=
          (hrow₃ _).trans (hother _ (by simp) (by simp))
        rw [hstate, hold, hold']
        rfl

/-- **A definition that can be saved is.** -/
theorem writeDefinition_ok (hs : (definitionSchema executions).Consistent s)
    (hwd : Distinct wd) (h : Saveable executions s wd) :
    ∃ s', writeDefinition executions s wd = .ok s' := by
  have hw := writable_workflow executions s wd.id h.fits.workflow
  have hdeletable : (definitionSchema executions).Deletable
      (s.put (.workflow wd.id) (workflowToModel wd)) (isRemovedTask wd) := by
    refine deletable_tasks_iff.mpr ⟨fun i hi => h.unexecuted i (removed_put_iff.mp hi), ?_⟩
    intro a b hab
    rw [removed_put_iff, removed_put_iff]
    exact h.detached a b ((Sql.Store.put_row_ne s _ (by simp)).symm.trans hab)
  obtain ⟨s₂, hdelete⟩ : ∃ s₂, (definitionSchema executions).delete
      (s.put (.workflow wd.id) (workflowToModel wd)) (isRemovedTask wd) = .ok s₂ :=
    ⟨_, (Sql.Schema.delete_ok (fun _ _ _ => definitionSchema.shallow executions) (hs.put hw)
      hdeletable).1⟩
  obtain ⟨hs₂, -, -, htask, hworkflow, -⟩ := delete_tasks_cases hs h.fits.workflow hdelete
  have hnil : ∀ k, s₂.row k = synchronizedRow s₂ wd.id [] k :=
    fun k => (synchronizedRow_nil k).symm
  have haccepts : ∀ a t b, wd.taskDefinitions = a ++ t :: b → Accepts s₂ wd.id ([] ++ a) t := by
    intro a t b hsplit
    refine (accepts_iff hwd htask hsplit).mpr
      ⟨h.fits.tasks t ?_, h.free a t b hsplit, h.stored a t b hsplit⟩
    rw [hsplit]
    simp
  obtain ⟨s₃, hloop⟩ := writeEachTask_ok hs₂ hnil
    (by rw [workflowDefinitionRow, hworkflow]; rfl) hwd.dependencies (by simpa using hwd.ids) haccepts
  obtain ⟨-, hs₃, hrow₃⟩ := writeEachTask_cases hs₂ hnil
    hwd.dependencies (by simpa using hwd.ids) hloop
  have hworkflow₃ : (workflowDefinitionRow s₃ wd.id).isSome = true := by
    rw [workflowDefinitionRow, hrow₃]
    exact Option.isSome_of_eq_some hworkflow
  obtain ⟨s₄, hs₄, -⟩ := writeTriggers_ok hs₃ hwd h.fits.triggers hworkflow₃
  exact ⟨s₄, bind_eq_ok.mpr ⟨_, Sql.Schema.write_ok hw, bind_eq_ok.mpr
    ⟨s₃, bind_eq_ok.mpr ⟨s₂, hdelete, hloop⟩, hs₄⟩⟩⟩

end WorkflowDefinitionRepository

end AutomationPlatform
