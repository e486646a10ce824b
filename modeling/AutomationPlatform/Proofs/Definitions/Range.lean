/-
Numbers of a request.

Python's integers are of any size, and the validation bounds the numbers of a request from
below only.  From above they are bounded by what they are turned into: the tries of a task
by an integer column, the interval of a trigger by the last date there is.  A request that
exceeds one of the two is accepted, and fails when it is stored.
-/
import AutomationPlatform.Proofs.Definitions.Create

namespace AutomationPlatform

open Sql (bind_eq_ok bind_eq_error exists_of_foldlM_error)
open WorkflowDefinitionRepository WorkflowDefinitionMapper

/-- A statement that is not refused for a value is refused for a constraint. -/
theorem databaseError_class {α : Type} {x : Except Sql.Violation α} {e : Raised}
    (h : databaseError x = .error e) (hx : x ≠ .error .data) :
    e.class_ ≠ .data ∧ e.class_ ≠ .overflow := by
  cases x with
  | ok a => simp [databaseError] at h
  | error violation =>
      cases violation with
      | data => simp at hx
      | primaryKey | unique | foreignKey | stale =>
          simp only [databaseError, Except.error.injEq] at h
          subst h
          simp

/-! ### The tries of a task -/

/-- An execution has the tries of the definition it is made of. -/
theorem createWorkflowExecution_tries {draws : Draws} {now : Datetime} {wd : WorkflowDefinition}
    {workflowExecution : WorkflowExecution} {rootTaskIds : List UUID}
    (h : WorkflowStartService.createWorkflowExecution draws now wd =
      .ok (workflowExecution, rootTaskIds)) :
    ∀ task ∈ workflowExecution.taskExecutions, ∃ t ∈ wd.taskDefinitions,
      task.remainingTries = t.maxTries := by
  unfold WorkflowStartService.createWorkflowExecution at h
  obtain ⟨children, -, h⟩ := bind_eq_ok.mp h
  obtain ⟨tasks, htasks, h⟩ := bind_eq_ok.mp h
  obtain ⟨rfl, -⟩ := Prod.mk.inj (Except.ok.inj h)
  intro task htask
  obtain ⟨t, ht, hcreate⟩ := WorkflowDefinitionService.exists_of_forall₂
    (WorkflowDefinitionService.forall₂_of_mapM htasks).flip htask
  refine ⟨t, ht, ?_⟩
  unfold WorkflowStartService.createTaskExecution at hcreate
  obtain ⟨id, -, hcreate⟩ := bind_eq_ok.mp hcreate
  obtain ⟨parents, -, hcreate⟩ := bind_eq_ok.mp hcreate
  obtain ⟨childIds, -, hcreate⟩ := bind_eq_ok.mp hcreate
  obtain rfl := Except.ok.inj hcreate
  rfl

namespace WorkflowDefinitionRepository

variable {executions : ExecutionStore} {s : DefinitionStore} {wd : WorkflowDefinition}

theorem writeTask_data {task : TaskDefinition} {workflowDefinitionId : UUID}
    (h : writeTask executions workflowDefinitionId s task = .error .data) :
    (taskToModel workflowDefinitionId task).fits = false := by
  unfold writeTask at h
  rcases bind_eq_error.mp h with hwrite | ⟨s₁, -, h⟩
  · exact Sql.Schema.fits_of_write_data hwrite
  rcases bind_eq_error.mp h with hdelete | ⟨s₂, -, h⟩
  · exact absurd hdelete Sql.Schema.delete_not_data
  obtain ⟨r, hr, s₃, hwrite⟩ := exists_of_foldlM_error h
  obtain ⟨d, -, rfl⟩ := List.mem_map.mp hr
  have hfits := Sql.Schema.fits_of_write_data hwrite
  simp [dependencyToModel, definitionSchema] at hfits

/-- A definition is refused for a value only if one of them does not fit its column. -/
theorem writeDefinition_data (h : writeDefinition executions s wd = .error .data) : ¬ Fits wd := by
  intro hfits
  unfold writeDefinition writeTasks writeTriggers at h
  rcases bind_eq_error.mp h with hwrite | ⟨s₁, -, h⟩
  · have hnot : (workflowToModel wd).fits = false := Sql.Schema.fits_of_write_data hwrite
    simp [hfits.workflow] at hnot
  rcases bind_eq_error.mp h with htasks | ⟨s₂, -, h⟩
  · rcases bind_eq_error.mp htasks with hdelete | ⟨s₃, -, htasks⟩
    · exact absurd hdelete Sql.Schema.delete_not_data
    obtain ⟨t, ht, s₄, hwrite⟩ := exists_of_foldlM_error htasks
    have hnot := writeTask_data hwrite
    simp [hfits.tasks t ht] at hnot
  rcases bind_eq_error.mp h with hdelete | ⟨s₃, -, h⟩
  · exact absurd hdelete Sql.Schema.delete_not_data
  obtain ⟨t, ht, s₄, hwrite⟩ := exists_of_foldlM_error h
  have hnot : (triggerToModel wd.id t).fits = false := Sql.Schema.fits_of_write_data hwrite
  simp [hfits.triggers t ht] at hnot

end WorkflowDefinitionRepository

namespace WorkflowDefinitionService

open TriggerRegistry (discovered)

variable {draws : DefinitionDraws} {resolved : List (TriggerDefinition × TriggerPlugin)}
  {request : CreateWorkflowDefinition} {now : UUID → Datetime} {db : Database}

/-! ### The interval of a trigger -/

/-- The plugin of a trigger has accepted its configuration. -/
theorem createTriggerDefinition_validated {registry : TriggerRegistry}
    {trigger : CreateTriggerDefinition × Nat} {r : TriggerDefinition × TriggerPlugin}
    (h : createTriggerDefinition registry draws trigger = .ok r) :
    r.2.validateConfiguration r.1.configuration = .ok () := by
  unfold createTriggerDefinition at h
  split at h
  · simp at h
  obtain ⟨_, hvalidate, h⟩ := bind_eq_ok.mp h
  obtain ⟨plugin, hget, h⟩ := bind_eq_ok.mp h
  obtain rfl := Except.ok.inj h
  rw [hget] at hvalidate
  change validateConfiguration (plugin.validateConfiguration trigger.1.configuration) _ _ = _
    at hvalidate
  unfold validateConfiguration at hvalidate
  split at hvalidate
  · assumption
  · split at hvalidate
    · simp at hvalidate
    · simp at hvalidate

/-- The package has one kind of trigger; what is accepted of it has a positive interval. -/
theorem interval_of_resolved
    (htriggers : createTriggerDefinitions discovered draws request.triggers = .ok resolved)
    {trigger : TriggerDefinition × TriggerPlugin} (h : trigger ∈ resolved) :
    trigger.2 = IntervalTrigger.plugin ∧
      discovered trigger.1.pluginType = some IntervalTrigger.plugin ∧
      ∃ n, trigger.1.configuration.lookup "interval_seconds" = some (.int n) ∧ 0 < n := by
  obtain ⟨t, -, hcreate⟩ := exists_of_forall₂ (forall₂_of_mapM htriggers).flip h
  obtain ⟨hrequested, hregistered⟩ := createTriggerDefinition_ok hcreate
  have hplugin := TriggerRegistry.eq_interval_of_discovered hregistered
  refine ⟨hplugin, ?_, ?_⟩
  · rw [hrequested, ← hplugin]
    exact hregistered
  · have hvalidated := createTriggerDefinition_validated hcreate
    rw [hplugin] at hvalidated
    exact IntervalTrigger.validateConfiguration_ok hvalidated

theorem nextRunAt_resolved
    (htriggers : createTriggerDefinitions discovered draws request.triggers = .ok resolved)
    {trigger : TriggerDefinition × TriggerPlugin} (h : trigger ∈ resolved) (after : Datetime) :
    ChronologicalTriggerService.nextRunAt discovered trigger.1.pluginType trigger.1.configuration
      after = IntervalTrigger.nextOccurrence trigger.1.configuration after := by
  obtain ⟨-, hplugin, -⟩ := interval_of_resolved htriggers h
  exact ChronologicalTriggerService.nextRunAt_discovered hplugin _ after

theorem firstOccurrence_resolved
    (htriggers : createTriggerDefinitions discovered draws request.triggers = .ok resolved)
    {trigger : TriggerDefinition × TriggerPlugin} (h : trigger ∈ resolved) :
    firstOccurrence now trigger =
      IntervalTrigger.nextOccurrence trigger.1.configuration (now trigger.1.id) := by
  obtain ⟨hplugin, -, -⟩ := interval_of_resolved htriggers h
  unfold firstOccurrence
  rw [hplugin]
  rfl

/-! ### What is accepted and what can be carried out -/

/-- Everything that is done with the numbers of an accepted request is defined. -/
structure NumbersInRange (taskRegistry : TaskRegistry) (draws : DefinitionDraws)
    (now : UUID → Datetime) (db : Database) (request : CreateWorkflowDefinition)
    (resolved : List (TriggerDefinition × TriggerPlugin)) : Prop where
  /-- What is stored fits the column `max_tries`. -/
  maxTries : ∀ t ∈ (requested draws request).taskDefinitions, fitsInteger t.maxTries = true
  /-- What an execution of the stored definition starts with fits `remaining_tries`. -/
  remainingTries : ∀ wd, wd.SameUpToOrder (requested draws request) →
    ∀ executionDraws createdAt workflowExecution rootTaskIds,
      WorkflowStartService.createWorkflowExecution executionDraws createdAt wd =
        .ok (workflowExecution, rootTaskIds) →
      ∀ task ∈ workflowExecution.taskExecutions, fitsInteger task.remainingTries = true
  /-- The current time has a next occurrence, and so have the times before it, at which an
  occurrence can be due. -/
  nextOccurrence : ∀ trigger ∈ resolved, ∀ after, Datetime.min ≤ after →
    after ≤ now trigger.1.id → ∃ next,
      ChronologicalTriggerService.nextRunAt discovered trigger.1.pluginType
        trigger.1.configuration after = .ok (some next) ∧ after < next
  /-- Storing the request does not fail for a number. -/
  create : ∀ e, create taskRegistry discovered draws now db request = .error e →
    e.class_ ≠ .data ∧ e.class_ ≠ .overflow

/-- The tries fit an integer column, and an interval from now does not lead beyond the last
date. -/
structure Bounded (now : UUID → Datetime) (request : CreateWorkflowDefinition)
    (resolved : List (TriggerDefinition × TriggerPlugin)) : Prop where
  maxTries : ∀ t ∈ request.tasks, t.maxTries ≤ 2147483647
  interval : ∀ trigger ∈ resolved, ∀ n,
    trigger.1.configuration.lookup "interval_seconds" = some (.int n) →
      now trigger.1.id + n * 1000000 ≤ Datetime.max

variable {taskRegistry : TaskRegistry}

/-- The tries are bounded from below by the validation. -/
theorem fitsInteger_of_accepted (htasks : validateTasks taskRegistry request.tasks = .ok ())
    {t : CreateTaskDefinition} (ht : t ∈ request.tasks) :
    fitsInteger t.maxTries = true ↔ t.maxTries ≤ 2147483647 := by
  have hpos := (validateTasks_ok.mp htasks).1.maxTries t ht
  simp only [fitsInteger, Bool.and_eq_true, decide_eq_true_eq]
  omega

theorem Bounded.fits (h : Bounded now request resolved)
    (htasks : validateTasks taskRegistry request.tasks = .ok ()) :
    ∀ t ∈ (requested draws request).taskDefinitions, fitsInteger t.maxTries = true := by
  intro t ht
  obtain ⟨task, htask, rfl⟩ := List.mem_map.mp ht
  exact (fitsInteger_of_accepted htasks htask).mpr (h.maxTries task htask)

theorem Bounded.occurs (h : Bounded now request resolved)
    (htriggers : createTriggerDefinitions discovered draws request.triggers = .ok resolved)
    {trigger : TriggerDefinition × TriggerPlugin} (htrigger : trigger ∈ resolved)
    {after : Datetime} (hafter : Datetime.min ≤ after) (hnow : after ≤ now trigger.1.id) :
    ∃ next, IntervalTrigger.nextOccurrence trigger.1.configuration after = .ok (some next) ∧
      after < next := by
  obtain ⟨-, -, n, hn, hpos⟩ := interval_of_resolved htriggers htrigger
  refine (IntervalTrigger.nextOccurrence_iff hn hpos hafter).mpr ?_
  exact (Int.add_le_add_right hnow _).trans (h.interval trigger htrigger n hn)

/-- **Within the bounds nothing fails for a number.** -/
theorem Bounded.create (h : Bounded now request resolved) (htexts : TextsFit request)
    (hnow : ∀ i, Datetime.min ≤ now i)
    (htasks : validateTasks taskRegistry request.tasks = .ok ())
    (htriggers : createTriggerDefinitions discovered draws request.triggers = .ok resolved)
    {e : Raised} (he : create taskRegistry discovered draws now db request = .error e) :
    e.class_ ≠ .data ∧ e.class_ ≠ .overflow := by
  rw [create_eq (validateTasks_ok.mp htasks).1.linked htasks htriggers] at he
  rcases bind_eq_error.mp he with hwrite | ⟨s, -, he⟩
  · refine databaseError_class hwrite fun hdata => writeDefinition_data hdata ?_
    exact fits_requested_iff.mpr
      ⟨htexts, fun t ht => (fitsInteger_of_accepted htasks ht).mpr (h.maxTries t ht)⟩
  have hnext : ∀ trigger ∈ resolved, firstOccurrence now trigger =
      .ok ((firstOccurrence now trigger).toOption.join) := by
    intro trigger htrigger
    obtain ⟨next, hnext, -⟩ := h.occurs htriggers htrigger (hnow _) (Int.le_refl _)
    rw [firstOccurrence_resolved htriggers htrigger, hnext]
    rfl
  rcases bind_eq_error.mp he with hinitialize | ⟨x, hinitialize, he⟩
  · rw [initializeEach_ok hnext] at hinitialize
    simp at hinitialize
  rw [initializeEach_ok hnext] at hinitialize
  obtain rfl := Except.ok.inj hinitialize
  rcases bind_eq_error.mp he with hcommit | ⟨definitions, -, he⟩
  · refine databaseError_class hcommit fun hdata => ?_
    obtain ⟨r, hr, hfits⟩ := Sql.Schema.exists_of_settle_data hdata
    obtain ⟨trigger, -, nextRunAt, -, rfl⟩ := mem_stateRows.mp hr
    simp [definitionSchema] at hfits
  · simp [pure, Except.pure] at he

theorem Bounded.inRange (h : Bounded now request resolved) (htexts : TextsFit request)
    (hnow : ∀ i, Datetime.min ≤ now i) (htasks : validateTasks taskRegistry request.tasks = .ok ())
    (htriggers : createTriggerDefinitions discovered draws request.triggers = .ok resolved) :
    NumbersInRange taskRegistry draws now db request resolved where
  maxTries := h.fits htasks
  remainingTries := by
    intro wd hsame executionDraws createdAt workflowExecution rootTaskIds hcreate task htask
    obtain ⟨t, ht, htries⟩ := createWorkflowExecution_tries hcreate task htask
    obtain ⟨l, hperm, hall⟩ := hsame.tasks
    obtain ⟨u, hu, htu⟩ := exists_of_forall₂ hall ht
    rw [htries, htu.maxTries]
    exact h.fits htasks u (hperm.mem_iff.mp hu)
  nextOccurrence := by
    intro trigger htrigger after hafter hle
    rw [nextRunAt_resolved htriggers htrigger]
    exact h.occurs htriggers htrigger hafter hle
  create := fun _ he => h.create htexts hnow htasks htriggers he

theorem NumbersInRange.bounded (h : NumbersInRange taskRegistry draws now db request resolved)
    (hnow : ∀ i, Datetime.min ≤ now i)
    (htasks : validateTasks taskRegistry request.tasks = .ok ())
    (htriggers : createTriggerDefinitions discovered draws request.triggers = .ok resolved) :
    Bounded now request resolved where
  maxTries := fun t ht =>
    (fitsInteger_of_accepted htasks ht).mp (h.maxTries _ (List.mem_map_of_mem ht))
  interval := by
    intro trigger htrigger n hn
    obtain ⟨-, -, m, hm, hpos⟩ := interval_of_resolved htriggers htrigger
    obtain rfl : m = n := by simpa [hm] using hn
    have hnext := h.nextOccurrence trigger htrigger (now trigger.1.id) (hnow _) (Int.le_refl _)
    rw [nextRunAt_resolved htriggers htrigger] at hnext
    exact (IntervalTrigger.nextOccurrence_iff hm hpos (hnow _)).mp hnext

/-- **Which accepted numbers can be carried out.**  What is done with the numbers of an accepted
request, whose texts and JSON values fit, is defined exactly when the tries fit an integer column
and no interval from now leads beyond the last date.  Then the request is stored if it lists its
tasks in order, and only then. -/
theorem numbers_in_range_iff (htexts : TextsFit request) (hnow : ∀ i, Datetime.min ≤ now i)
    (htasks : validateTasks taskRegistry request.tasks = .ok ())
    (htriggers : createTriggerDefinitions discovered draws request.triggers = .ok resolved) :
    (NumbersInRange taskRegistry draws now db request resolved ↔ Bounded now request resolved) ∧
      ((definitionSchema db.executions).Consistent db.definitions → NewIds draws db.definitions →
        ((NumbersInRange taskRegistry draws now db request resolved ∧
          ∃ db', create taskRegistry discovered draws now db request =
              .ok (draws.workflowDefinitionId, db') ∧
            CreatedAs draws now request resolved db db') ↔
          Bounded now request resolved ∧
            Graph.InOrder (·.key) (·.dependencies) request.tasks)) := by
  have hiff : NumbersInRange taskRegistry draws now db request resolved ↔
      Bounded now request resolved :=
    ⟨fun h => h.bounded hnow htasks htriggers, fun h => h.inRange htexts hnow htasks htriggers⟩
  refine ⟨hiff, fun hs hnew => ?_⟩
  rw [hiff]
  refine and_congr_right fun hbounded => ?_
  have hfits : ∀ t ∈ request.tasks, fitsInteger t.maxTries = true :=
    fun t ht => (fitsInteger_of_accepted htasks ht).mpr (hbounded.maxTries t ht)
  have hoccurs : ∀ trigger ∈ resolved, ∃ next, firstOccurrence now trigger = .ok next := by
    intro trigger htrigger
    obtain ⟨next, hnext, -⟩ := hbounded.occurs htriggers htrigger (hnow _) (Int.le_refl _)
    exact ⟨some next, (firstOccurrence_resolved htriggers htrigger).trans hnext⟩
  constructor
  · intro ⟨db', hcreate, _⟩
    exact (inOrder_of_create hs hnew htexts hfits htasks htriggers hcreate).1
  · intro horder
    exact create_of_inOrder hs hnew htexts hfits htasks htriggers horder hoccurs

/-- The diamond is within the bounds, and stored. -/
theorem numbers_in_range_iff_sample :
    NumbersInRange .discovered firstDraws (fun _ => 0)
        { definitions := .empty, executions := .empty } diamondRequest
        [(requestedTrigger firstDraws (diamondRequest.triggers.head (by decide), 0),
          IntervalTrigger.plugin)] ∧
      ∃ db', create .discovered discovered firstDraws (fun _ => 0)
          { definitions := .empty, executions := .empty } diamondRequest = .ok (1, db') ∧
        CreatedAs firstDraws (fun _ => 0) diamondRequest
          [(requestedTrigger firstDraws (diamondRequest.triggers.head (by decide), 0),
            IntervalTrigger.plugin)] { definitions := .empty, executions := .empty } db' := by
  have hnow : ∀ _ : UUID, Datetime.min ≤ 0 := fun _ => by decide
  have htriggers : createTriggerDefinitions discovered firstDraws diamondRequest.triggers =
      .ok [(requestedTrigger firstDraws (diamondRequest.triggers.head (by decide), 0),
        IntervalTrigger.plugin)] := rfl
  refine ((numbers_in_range_iff textsFit_diamond hnow validateTasks_diamond htriggers).2
    consistent_empty newIds_firstDraws).mpr ⟨⟨?_, ?_⟩, inOrder_diamond⟩
  · simp [diamondRequest, collecting]
  · intro trigger htrigger n hn
    rw [List.mem_singleton] at htrigger
    subst htrigger
    obtain rfl : 60 = n := by simpa [requestedTrigger, diamondRequest] using hn
    decide

/-- One task, with one try more than an integer column holds. -/
def manyTries : CreateWorkflowDefinition where
  name := "many tries"
  description := ""
  tasks := [{ collecting "extract" [] with maxTries := 2147483648 }]
  triggers := []
  enabled := true

/-- One task and a trigger whose interval is longer than there are dates. -/
def longInterval : CreateWorkflowDefinition where
  name := "long interval"
  description := ""
  tasks := [collecting "extract" []]
  triggers :=
    [{ pluginType := "interval"
       configuration := [("interval_seconds", .int 1000000000000)]
       enabled := true }]
  enabled := true

/-- Both are accepted, at the beginning of 2026, and fail when they are stored. -/
theorem accepted_out_of_range :
    (TextsFit manyTries ∧ validateTasks .discovered manyTries.tasks = .ok () ∧
      createTriggerDefinitions discovered firstDraws manyTries.triggers = .ok [] ∧
      create .discovered discovered firstDraws (fun _ => 1767225600000000)
        { definitions := .empty, executions := .empty } manyTries = .error { class_ := .data } ∧
      ¬ NumbersInRange .discovered firstDraws (fun _ => 1767225600000000)
        { definitions := .empty, executions := .empty } manyTries []) ∧
    (TextsFit longInterval ∧ validateTasks .discovered longInterval.tasks = .ok () ∧
      createTriggerDefinitions discovered firstDraws longInterval.triggers =
        .ok [(requestedTrigger firstDraws (longInterval.triggers.head (by decide), 0),
          IntervalTrigger.plugin)] ∧
      create .discovered discovered firstDraws (fun _ => 1767225600000000)
        { definitions := .empty, executions := .empty } longInterval =
          .error { class_ := .overflow } ∧
      ¬ NumbersInRange .discovered firstDraws (fun _ => 1767225600000000)
        { definitions := .empty, executions := .empty } longInterval
        [(requestedTrigger firstDraws (longInterval.triggers.head (by decide), 0),
          IntervalTrigger.plugin)]) := by
  have hdata : create .discovered discovered firstDraws (fun _ => 1767225600000000)
      { definitions := .empty, executions := .empty } manyTries = .error { class_ := .data } := rfl
  have hoverflow : create .discovered discovered firstDraws (fun _ => 1767225600000000)
      { definitions := .empty, executions := .empty } longInterval =
        .error { class_ := .overflow } := rfl
  exact ⟨⟨⟨by decide, by decide, by decide, by decide⟩, rfl, rfl, hdata,
      fun h => (h.create _ hdata).1 rfl⟩,
    ⟨⟨by decide, by decide, by decide, by decide⟩, rfl, rfl, hoverflow,
      fun h => (h.create _ hoverflow).2 rfl⟩⟩

end WorkflowDefinitionService

end AutomationPlatform
