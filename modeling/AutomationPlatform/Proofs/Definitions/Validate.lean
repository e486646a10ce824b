/-
What the validation of tasks accepts.

The checks come one after the other and the first that fails raises.  What is left after all
of them are the requests whose tasks are well formed one by one, are linked by keys that
exist, and can be put in order.
-/
import AutomationPlatform.Proofs.Definitions.Cycle

namespace AutomationPlatform

namespace WorkflowDefinitionService

variable {registry : TaskRegistry} {tasks : List CreateTaskDefinition}

/-- The checks of single tasks and of the keys: everything before the search for a cycle. -/
structure WellFormed (registry : TaskRegistry) (tasks : List CreateTaskDefinition) : Prop where
  nonempty : tasks ≠ []
  keys : (tasks.map (·.key)).Nodup
  maxTries : ∀ t ∈ tasks, 1 ≤ t.maxTries
  plugins : ∀ t ∈ tasks, ∃ plugin, registry t.pluginType = some plugin ∧
    plugin.validateConfiguration t.configuration = .ok ()
  duplicates : ∀ t ∈ tasks, t.dependencies.Nodup
  known : ∀ t ∈ tasks, ∀ d ∈ t.dependencies, d ∈ tasks.map (·.key)
  notSelf : ∀ t ∈ tasks, t.key ∉ t.dependencies

theorem WellFormed.linked (h : WellFormed registry tasks) : WellLinked tasks :=
  ⟨h.keys, h.duplicates, h.known⟩

/-- Every plugin accepts a configuration or says that it is invalid. -/
def Judges (registry : TaskRegistry) : Prop :=
  ∀ pluginType plugin, registry pluginType = some plugin → ∀ configuration,
    plugin.validateConfiguration configuration = .ok () ∨
      ∃ message, plugin.validateConfiguration configuration =
        .error { class_ := .invalidPluginConfiguration, message }

/-! ### The checks of one task -/

/-- A step that succeeds, or raises that the definition is invalid. -/
def Rejects {α : Type} (x : Except Raised α) : Prop :=
  ∀ e, x = .error e → e.class_ = .invalidWorkflowDefinition

theorem rejects_invalid {α : Type} (message : String) :
    Rejects (.error (invalid message) : Except Raised α) := by
  intro e he
  obtain rfl := Except.error.inj he
  rfl

theorem Rejects.bind {α β : Type} {x : Except Raised α} {f : α → Except Raised β}
    (hx : Rejects x) (hf : ∀ a, x = .ok a → Rejects (f a)) : Rejects (x >>= f) := by
  intro e he
  cases x with
  | error e' =>
      obtain rfl : e' = e := Except.error.inj he
      exact hx e' rfl
  | ok a => exact hf a rfl e he

theorem Rejects.forM {α : Type} {f : α → Except Raised Unit} {l : List α}
    (h : ∀ a ∈ l, Rejects (f a)) : Rejects (l.forM f) := by
  induction l with
  | nil =>
      intro e he
      simp [List.forM, pure, Except.pure] at he
  | cons a rest ih =>
      show Rejects (f a >>= fun _ => rest.forM f)
      exact (h a (by simp)).bind fun _ _ => ih fun b hb => h b (by simp [hb])

theorem seq_ok_iff {β : Type} {x : Except Raised Unit} {y : Unit → Except Raised β} {b : β} :
    x >>= y = .ok b ↔ x = .ok () ∧ y () = .ok b := by
  rw [Sql.bind_eq_ok]
  constructor
  · intro ⟨_, hx, hy⟩
    exact ⟨hx, hy⟩
  · intro ⟨hx, hy⟩
    exact ⟨(), hx, hy⟩

theorem forM_ok_iff {α : Type} {f : α → Except Raised Unit} {l : List α} :
    l.forM f = .ok () ↔ ∀ a ∈ l, f a = .ok () := by
  induction l with
  | nil => simp [List.forM, pure, Except.pure]
  | cons a rest ih =>
      show (f a >>= fun _ => rest.forM f) = .ok () ↔ _
      rw [seq_ok_iff, List.forall_mem_cons, ih]

theorem nodup_iff_length_dedup {α : Type} [DecidableEq α] {l : List α} :
    l.Nodup ↔ l.length = l.dedup.length := by
  constructor
  · intro h
    rw [List.dedup_eq_self.mpr h]
  · intro h
    rw [← List.dedup_eq_self]
    exact (List.dedup_sublist l).eq_of_length h.symm

theorem validateDependency_ok {seenKeys : List String} {key dependency : String} :
    validateDependency seenKeys key dependency = .ok () ↔ dependency ∈ seenKeys := by
  unfold validateDependency
  split <;> simp_all

theorem validateConfiguration_ok {verdict : Except Raised Unit} {what key : String} :
    validateConfiguration verdict what key = .ok () ↔ verdict = .ok () := by
  unfold validateConfiguration
  cases verdict with
  | ok u => simp
  | error exc =>
      by_cases hclass : exc.class_ = .invalidPluginConfiguration
      · simp [hclass]
      · simp [hclass]

/-- What a task needs to pass its checks. -/
theorem validateTask_ok {seenKeys : List String} {task : CreateTaskDefinition} :
    validateTask registry seenKeys task = .ok () ↔
      1 ≤ task.maxTries ∧
      (∃ plugin, registry task.pluginType = some plugin ∧
        plugin.validateConfiguration task.configuration = .ok ()) ∧
      task.key ∉ task.dependencies ∧ task.dependencies.Nodup ∧
      ∀ d ∈ task.dependencies, d ∈ seenKeys := by
  unfold validateTask
  by_cases htries : task.maxTries < 1
  · rw [if_pos htries]
    simp
    omega
  rw [if_neg htries, and_iff_right (Int.not_lt.mp htries)]
  cases hplugin : registry task.pluginType with
  | none => simp [TaskRegistry.contains, hplugin]
  | some plugin =>
      have hget : (do (← registry.get task.pluginType).validateConfiguration task.configuration) =
          plugin.validateConfiguration task.configuration := by
        unfold TaskRegistry.get
        rw [hplugin]
        rfl
      rw [if_neg (by simp [TaskRegistry.contains, hplugin]), hget, seq_ok_iff]
      simp only [validateConfiguration_ok, Option.some.injEq, exists_eq_left']
      refine and_congr_right fun _ => ?_
      by_cases hself : task.key ∈ task.dependencies
      · simp [hself]
      by_cases hduplicates : task.dependencies.length ≠ task.dependencies.dedup.length
      · simp [hself, hduplicates, nodup_iff_length_dedup]
      rw [if_neg hself, if_neg hduplicates, forM_ok_iff]
      rw [not_not, ← nodup_iff_length_dedup] at hduplicates
      simp only [hself, hduplicates, validateDependency_ok, not_false_eq_true, true_and]

/-- A task that does not pass is rejected. -/
theorem validateTask_rejects (hjudges : Judges registry) {seenKeys : List String}
    {task : CreateTaskDefinition} : Rejects (validateTask registry seenKeys task) := by
  unfold validateTask
  split
  · exact rejects_invalid _
  split
  · exact rejects_invalid _
  rename_i hcontains
  rw [Bool.not_eq_false, TaskRegistry.contains, Option.isSome_iff_exists] at hcontains
  obtain ⟨plugin, hplugin⟩ := hcontains
  refine Rejects.bind ?_ fun _ _ => ?_
  · have hget : (do (← registry.get task.pluginType).validateConfiguration task.configuration) =
        plugin.validateConfiguration task.configuration := by
      unfold TaskRegistry.get
      rw [hplugin]
      rfl
    rw [hget]
    unfold validateConfiguration
    rcases hjudges _ _ hplugin task.configuration with hok | ⟨message, herror⟩
    · rw [hok]
      intro e he
      simp at he
    · rw [herror]
      exact rejects_invalid _
  · split
    · exact rejects_invalid _
    split
    · exact rejects_invalid _
    refine Rejects.forM fun d _ => ?_
    unfold validateDependency
    split
    · intro e he
      simp at he
    · exact rejects_invalid _

/-! ### The checks of all tasks -/

/-- What a request needs to reach the search for a cycle. -/
theorem wellFormed_iff : WellFormed registry tasks ↔
    tasks ≠ [] ∧ (tasks.map (·.key)).dedup.length = tasks.length ∧
      tasks.forM (validateTask registry (tasks.map (·.key)).dedup) = .ok () := by
  have hkeys : (tasks.map (·.key)).dedup.length = tasks.length ↔ (tasks.map (·.key)).Nodup := by
    rw [nodup_iff_length_dedup, List.length_map]
    exact eq_comm
  rw [hkeys, forM_ok_iff]
  simp only [validateTask_ok, List.mem_dedup]
  constructor
  · intro h
    exact ⟨h.nonempty, h.keys, fun t ht => ⟨h.maxTries t ht, h.plugins t ht, h.notSelf t ht,
      h.duplicates t ht, h.known t ht⟩⟩
  · intro ⟨hne, hnd, hall⟩
    exact ⟨hne, hnd, fun t ht => (hall t ht).1, fun t ht => (hall t ht).2.1,
      fun t ht => (hall t ht).2.2.2.1, fun t ht => (hall t ht).2.2.2.2, fun t ht => (hall t ht).2.2.1⟩

/-- What is accepted. -/
theorem validateTasks_ok :
    validateTasks registry tasks = .ok () ↔ WellFormed registry tasks ∧ Acyclic tasks := by
  unfold validateTasks
  by_cases hne : tasks = []
  · simp [hne]
    exact fun h => absurd rfl h.nonempty
  rw [if_neg hne]
  by_cases hlength : (tasks.map (·.key)).dedup.length ≠ tasks.length
  · rw [if_pos hlength]
    simp only [reduceCtorEq, false_iff, not_and]
    exact fun h => absurd (wellFormed_iff.mp h).2.1 hlength
  rw [if_neg hlength, Sql.bind_eq_ok]
  rw [not_not] at hlength
  constructor
  · intro ⟨_, hchecks, hcycle⟩
    have hformed : WellFormed registry tasks := wellFormed_iff.mpr ⟨hne, hlength, hchecks⟩
    obtain ⟨cyclic, hsearch, hacyclic, -⟩ := hasDependencyCycle_spec hformed.linked
    rw [hsearch] at hcycle
    refine ⟨hformed, hacyclic.mp ?_⟩
    cases cyclic with
    | false => rfl
    | true => simp [bind, Except.bind] at hcycle
  · intro ⟨hformed, hacyclic⟩
    obtain ⟨cyclic, hsearch, hiff, -⟩ := hasDependencyCycle_spec hformed.linked
    obtain rfl := hiff.mpr hacyclic
    refine ⟨(), (wellFormed_iff.mp hformed).2.2, ?_⟩
    rw [hsearch]
    rfl

/-- What is not accepted is rejected. -/
theorem validateTasks_rejects (hjudges : Judges registry) :
    Rejects (validateTasks registry tasks) := by
  unfold validateTasks
  by_cases hne : tasks = []
  · rw [if_pos hne]
    exact rejects_invalid _
  rw [if_neg hne]
  by_cases hlength : (tasks.map (·.key)).dedup.length ≠ tasks.length
  · rw [if_pos hlength]
    exact rejects_invalid _
  rw [if_neg hlength]
  rw [not_not] at hlength
  refine (Rejects.forM fun t _ => validateTask_rejects hjudges).bind fun _ hchecks => ?_
  have hformed : WellFormed registry tasks := wellFormed_iff.mpr ⟨hne, hlength, hchecks⟩
  obtain ⟨cyclic, hsearch, -⟩ := hasDependencyCycle_spec hformed.linked
  rw [hsearch]
  cases cyclic with
  | false =>
      intro e he
      simp [bind, Except.bind] at he
  | true => exact rejects_invalid _

/-! ### The order of a request -/

/-- The same tasks in any order, each with its dependencies in any order. -/
def Reordered (tasks tasks' : List CreateTaskDefinition) : Prop :=
  ∃ l, l.Perm tasks ∧ List.Forall₂
    (fun t t' => t.key = t'.key ∧ t.dependencies.Perm t'.dependencies) l tasks'

theorem Reordered.symm {tasks' : List CreateTaskDefinition} (h : Reordered tasks tasks') :
    Reordered tasks' tasks := by
  obtain ⟨l, hperm, hall⟩ := h
  obtain ⟨l', hall', hperm'⟩ := List.perm_comp_forall₂ hperm.symm hall
  exact ⟨l', hperm', hall'.flip.imp fun _ _ h => ⟨h.1.symm, h.2.symm⟩⟩

theorem exists_of_forall₂ {α β : Type} {R : α → β → Prop} {l : List α} {l' : List β}
    (h : List.Forall₂ R l l') {a : α} (ha : a ∈ l) : ∃ b ∈ l', R a b := by
  induction h with
  | nil => simp at ha
  | cons hab _ ih =>
      rcases List.mem_cons.mp ha with rfl | ha
      · exact ⟨_, by simp, hab⟩
      · obtain ⟨b, hb, hr⟩ := ih ha
        exact ⟨b, List.mem_cons_of_mem _ hb, hr⟩

variable {tasks' : List CreateTaskDefinition}

theorem Reordered.exists (h : Reordered tasks tasks') {t : CreateTaskDefinition} (ht : t ∈ tasks) :
    ∃ t' ∈ tasks', t.key = t'.key ∧ t.dependencies.Perm t'.dependencies := by
  obtain ⟨l, hperm, hall⟩ := h
  exact exists_of_forall₂ hall (hperm.mem_iff.mpr ht)

theorem Reordered.keys (h : Reordered tasks tasks') :
    (tasks'.map (·.key)).Perm (tasks.map (·.key)) := by
  obtain ⟨l, hperm, hall⟩ := h
  have hkeys : l.map (·.key) = tasks'.map (·.key) := by
    rw [← List.forall₂_eq_eq_eq, List.forall₂_map_left_iff, List.forall₂_map_right_iff]
    exact hall.imp fun _ _ h => h.1
  rw [← hkeys]
  exact hperm.map _

theorem Reordered.linked (h : Reordered tasks tasks') (hlinked : WellLinked tasks) :
    WellLinked tasks' where
  keys := h.keys.nodup_iff.mpr hlinked.keys
  duplicates := by
    intro t' ht'
    obtain ⟨t, ht, -, hperm⟩ := h.symm.exists ht'
    exact hperm.nodup_iff.mpr (hlinked.duplicates t ht)
  known := by
    intro t' ht' d hd
    obtain ⟨t, ht, -, hperm⟩ := h.symm.exists ht'
    exact h.keys.mem_iff.mpr (hlinked.known t ht d (hperm.mem_iff.mp hd))

theorem Reordered.acyclic (h : Reordered tasks tasks') (hacyclic : Acyclic tasks) :
    Acyclic tasks' := by
  have hle : Graph.DependsOn (·.key) (·.dependencies) tasks' ≤
      Graph.DependsOn (·.key) (·.dependencies) tasks := by
    intro a b ⟨t', ht', hkey, hdep⟩
    obtain ⟨t, ht, heq, hperm⟩ := h.symm.exists ht'
    exact ⟨t, ht, heq.symm.trans hkey, hperm.mem_iff.mp hdep⟩
  intro key hcycle
  exact hacyclic key (Relation.TransGen.mono hle key key hcycle)

/-- The answer of the search does not depend on the order of anything. -/
theorem hasDependencyCycle_reordered (hlinked : WellLinked tasks) (h : Reordered tasks tasks') :
    hasDependencyCycle tasks' = hasDependencyCycle tasks := by
  obtain ⟨cyclic, hsearch, hiff, -⟩ := hasDependencyCycle_spec hlinked
  obtain ⟨cyclic', hsearch', hiff', -⟩ := hasDependencyCycle_spec (h.linked hlinked)
  rw [hsearch, hsearch']
  have hsame : cyclic' = false ↔ cyclic = false := by
    rw [hiff, hiff']
    exact ⟨h.symm.acyclic, h.acyclic⟩
  cases cyclic <;> cases cyclic' <;> simp_all

/-! ### The validation -/

/-- **Validation accepts exactly the well-formed acyclic graphs**, and otherwise raises that
the definition is invalid and nothing else.  A list that reaches the search for a cycle is
well formed; there the loop ends with nothing ready, no key is missing, acyclic means that
the tasks can be put in order, and the order in which they and their dependencies are listed
does not matter. -/
theorem validation_exact (hjudges : Judges registry) :
    (validateTasks registry tasks = .ok () ↔ WellFormed registry tasks ∧ Acyclic tasks) ∧
      (validateTasks registry tasks = .ok () ↔ WellFormed registry tasks ∧ Orderable tasks) ∧
      (∀ e, validateTasks registry tasks = .error e → e.class_ = .invalidWorkflowDefinition) ∧
      (WellFormed registry tasks ↔
        tasks ≠ [] ∧ (tasks.map (·.key)).dedup.length = tasks.length ∧
          tasks.forM (validateTask registry (tasks.map (·.key)).dedup) = .ok ()) ∧
      (WellFormed registry tasks →
        (∃ children x, childKeys tasks = .ok children ∧
          eliminate children tasks.length (startElimination tasks) = .ok x ∧ x.ready = []) ∧
        (∃ cyclic, hasDependencyCycle tasks = .ok cyclic ∧ (cyclic = false ↔ Acyclic tasks)) ∧
        ∀ tasks', Reordered tasks tasks' → hasDependencyCycle tasks' = hasDependencyCycle tasks) := by
  refine ⟨validateTasks_ok, ?_, validateTasks_rejects hjudges, wellFormed_iff, fun hformed => ?_⟩
  · rw [validateTasks_ok]
    refine and_congr_right fun hformed => ?_
    obtain ⟨cyclic, -, hacyclic, horderable⟩ := hasDependencyCycle_spec hformed.linked
    rw [← hacyclic, horderable]
  · have hlinked := hformed.linked
    obtain ⟨children, hkeys, hchildren⟩ := childKeys_ok hlinked
    obtain ⟨-, x, hend, -, hready⟩ := eliminate_ends hlinked hchildren (Eliminated.start hlinked)
      (show tasks.length ≤ [].length + tasks.length by simp)
    obtain ⟨cyclic, hsearch, hacyclic, -⟩ := hasDependencyCycle_spec hlinked
    exact ⟨⟨children, x, hkeys, hend, hready⟩, ⟨cyclic, hsearch, hacyclic⟩,
      fun tasks' h => hasDependencyCycle_reordered hlinked h⟩

/-- The plugins of the package accept a configuration or say that it is invalid. -/
theorem judges_discovered : Judges .discovered := by
  intro pluginType plugin hplugin configuration
  unfold TaskRegistry.discovered at hplugin
  split at hplugin
  · obtain rfl := Option.some.inj hplugin
    show ProduceValueTask.validateConfiguration configuration = _ ∨ ∃ _, ProduceValueTask.validateConfiguration configuration = _
    unfold ProduceValueTask.validateConfiguration
    split
    · exact Or.inr ⟨_, rfl⟩
    split
    · exact Or.inr ⟨_, rfl⟩
    · exact Or.inl rfl
  split at hplugin
  · obtain rfl := Option.some.inj hplugin
    show CollectInputsTask.validateConfiguration configuration = _ ∨ ∃ _, CollectInputsTask.validateConfiguration configuration = _
    unfold CollectInputsTask.validateConfiguration
    split
    · exact Or.inr ⟨_, rfl⟩
    · exact Or.inl rfl
  split at hplugin
  · obtain rfl := Option.some.inj hplugin
    show FailTask.validateConfiguration configuration = _ ∨ ∃ _, FailTask.validateConfiguration configuration = _
    unfold FailTask.validateConfiguration
    split
    · exact Or.inr ⟨_, rfl⟩
    split
    · exact Or.inl rfl
    · exact Or.inl rfl
    · exact Or.inr ⟨_, rfl⟩
  · simp at hplugin

/-- A task that collects the outputs of others. -/
def collecting (key : String) (dependencies : List String) : CreateTaskDefinition where
  pluginType := CollectInputsTask.pluginType
  key := key
  configuration := []
  dependencies := dependencies
  maxTries := 1

/-- A diamond, listed from its end. -/
def diamond : List CreateTaskDefinition :=
  [collecting "d" ["b", "c"], collecting "b" ["a"], collecting "c" ["a"], collecting "a" []]

/-- A diamond is accepted. -/
theorem validation_exact_diamond : validateTasks .discovered diamond = .ok () := by
  refine (validation_exact judges_discovered).2.1.mpr ⟨?_, ?_⟩
  · refine ⟨by simp [diamond], by decide, by simp [diamond, collecting], ?_, ?_, ?_, ?_⟩
    · intro t ht
      refine ⟨CollectInputsTask.plugin, ?_⟩
      simp only [diamond, List.mem_cons, List.not_mem_nil, or_false] at ht
      rcases ht with rfl | rfl | rfl | rfl <;> exact ⟨rfl, rfl⟩
    · simp [diamond, collecting]
    · simp [diamond, collecting]
    · simp [diamond, collecting]
  · refine ⟨[collecting "a" [], collecting "b" ["a"], collecting "c" ["a"],
      collecting "d" ["b", "c"]], ?_, ?_⟩
    · exact (List.reverse_perm [collecting "d" ["b", "c"], collecting "c" ["a"],
        collecting "b" ["a"], collecting "a" []]).trans ((List.Perm.swap _ _ _).cons _)
    · exact (((Graph.inOrder_nil.snoc (by simp [collecting])).snoc (by simp [collecting])).snoc
        (by simp [collecting])).snoc (by simp [collecting])

end WorkflowDefinitionService

end AutomationPlatform
