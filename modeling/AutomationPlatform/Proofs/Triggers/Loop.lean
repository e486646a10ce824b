/-
One scheduler, working off what is due at one time.

The due occurrences of the stored triggers are an agenda, and the rounds of the
scheduler's loop are the rounds of its clerk: the selection takes the earliest, and the
occurrence is worked off when nothing on the way of its transaction raises.  Only two
things can raise for definitions that creation has accepted, a disabled workflow and a
next occurrence beyond the last representable time.
-/
import AutomationPlatform.Merge.Agenda
import AutomationPlatform.Proofs.Executions.Compile
import AutomationPlatform.Proofs.Triggers.Schedule

namespace AutomationPlatform

open TriggerRegistry (discovered)

/-! ### The selection -/

instance : Std.Total DueChronologicalTrigger.Before := by
  refine ⟨fun a b => ?_⟩
  rcases lt_trichotomy a.nextRunAt b.nextRunAt with h | h | h
  · exact Or.inl (Or.inl h)
  · rcases Nat.le_total a.triggerDefinitionId b.triggerDefinitionId with h' | h'
    · exact Or.inl (Or.inr ⟨h, h'⟩)
    · exact Or.inr (Or.inr ⟨h.symm, h'⟩)
  · exact Or.inr (Or.inl h)

instance : IsTrans DueChronologicalTrigger DueChronologicalTrigger.Before := by
  refine ⟨fun a b c hab hbc => ?_⟩
  have habc : Agenda.Earlier a.nextRunAt a.triggerDefinitionId b.nextRunAt
    b.triggerDefinitionId := hab
  exact habc.trans hbc

namespace ChronologicalTriggerRepository

variable {s : DefinitionStore} {now : Datetime}

theorem mem_due {d : DueChronologicalTrigger} :
    d ∈ due s now ↔ ∃ id, dueRow s now id = some d := by
  unfold due
  rw [List.mem_insertionSort, Sql.Store.mem_scan]
  constructor
  · intro ⟨k, v, _, hd⟩
    cases k with
    | chronologicalTriggerState id => exact ⟨id, hd⟩
    | workflow _ => simp at hd
    | task _ => simp at hd
    | dependency _ _ => simp at hd
    | trigger _ => simp at hd
  · intro ⟨id, hd⟩
    obtain ⟨-, -, hstate, -⟩ := dueRow_spec hd
    exact ⟨.chronologicalTriggerState id, _, hstate, hd⟩

/-- What is selected is due, and the first of all that are. -/
theorem getNextDue_some {d : DueChronologicalTrigger} (h : getNextDue s now = some d) :
    dueRow s now d.triggerDefinitionId = some d ∧
      ∀ id e, dueRow s now id = some e → d.Before e := by
  unfold getNextDue at h
  obtain ⟨rest, hrest⟩ := List.head?_eq_some_iff.mp h
  have hsorted : (due s now).Pairwise DueChronologicalTrigger.Before :=
    List.pairwise_insertionSort _ _
  refine ⟨?_, ?_⟩
  · obtain ⟨id, hid⟩ := mem_due.mp (by rw [hrest]; simp : d ∈ due s now)
    obtain ⟨rfl, -⟩ := dueRow_spec hid
    exact hid
  · intro id e he
    have hmem : e ∈ due s now := mem_due.mpr ⟨id, he⟩
    rw [hrest] at hmem hsorted
    rcases List.mem_cons.mp hmem with heq | htail
    · subst heq
      exact Or.inr ⟨rfl, Nat.le_refl _⟩
    · exact (List.pairwise_cons.mp hsorted).1 e htail

theorem getNextDue_none (h : getNextDue s now = none) (id : UUID) : dueRow s now id = none := by
  cases hd : dueRow s now id with
  | none => rfl
  | some d =>
      unfold getNextDue at h
      rw [List.head?_eq_none_iff] at h
      have hmem := mem_due.mpr ⟨id, hd⟩
      rw [h] at hmem
      simp at hmem

end ChronologicalTriggerRepository

/-! ### Accepted definitions -/

/-- What creating definitions establishes of those that are stored. -/
structure Accepted (s : DefinitionStore) : Prop where
  /-- Triggers are of registered types, with configurations their plugins have validated. -/
  plugin : ∀ id trigger, triggerDefinitionRow s id = some trigger →
    ∃ plugin, discovered trigger.pluginType = some plugin ∧
      plugin.validateConfiguration trigger.configuration = .ok ()
  workflow : ∀ id trigger, triggerDefinitionRow s id = some trigger →
    (workflowDefinitionRow s trigger.workflowDefinitionId).isSome = true
  valid : ∀ id workflowDefinition,
    WorkflowDefinitionRepository.load s id = some workflowDefinition → workflowDefinition.Valid

/-- Identifiers that `uuid4` draws are new: different from round to round and within one, and
different from those in the store. -/
structure Fresh (draws : Nat → Draws) (s : ExecutionStore) : Prop where
  workflow : ∀ n, (.workflow (draws n).workflowExecutionId : RowId) ∉ s.keys
  task : ∀ n i, (.task ((draws n).taskExecutionId i) : RowId) ∉ s.keys
  workflow_injective : ∀ m n, (draws m).workflowExecutionId = (draws n).workflowExecutionId → m = n
  task_injective : ∀ m n i j, (draws m).taskExecutionId i = (draws n).taskExecutionId j →
    m = n ∧ i = j

/-- Nothing raises when an occurrence of the trigger is processed. -/
structure TriggerDefinitionModel.Startable (trigger : TriggerDefinitionModel)
    (s : DefinitionStore) (o : Datetime) : Prop where
  enabled : ∃ w, workflowDefinitionRow s trigger.workflowDefinitionId = some w ∧ w.enabled = true
  next : ∃ next, trigger.nextRunAt discovered o = .ok next

/-- A registered trigger is an interval trigger. -/
theorem nextRunAt_interval {trigger : TriggerDefinitionModel} {plugin : TriggerPlugin}
    (hplugin : discovered trigger.pluginType = some plugin) (o : Datetime) :
    plugin = IntervalTrigger.plugin ∧
      trigger.nextRunAt discovered o =
        IntervalTrigger.nextOccurrence trigger.configuration o :=
  ⟨TriggerRegistry.eq_interval_of_discovered hplugin,
    ChronologicalTriggerService.nextRunAt_discovered hplugin trigger.configuration o⟩

/-- What follows an occurrence of an accepted trigger is there and is later. -/
theorem Accepted.next_later {s : DefinitionStore} (h : Accepted s) {id : UUID}
    {trigger : TriggerDefinitionModel} (htrigger : triggerDefinitionRow s id = some trigger)
    {o : Datetime} {next : Option Datetime} (hnext : trigger.nextRunAt discovered o = .ok next) :
    ∃ o', next = some o' ∧ o < o' := by
  obtain ⟨plugin, hplugin, hvalid⟩ := h.plugin id trigger htrigger
  obtain ⟨rfl, hinterval⟩ := nextRunAt_interval hplugin o
  rw [hinterval] at hnext
  exact IntervalTrigger.nextOccurrence_ok hvalid hnext

/-! ### One round -/

/-- Definitions look the same where only trigger state has changed. -/
theorem load_congr {s s' : DefinitionStore} (hkeys : s'.keys = s.keys)
    (hrows : ∀ k, (∀ id, k ≠ .chronologicalTriggerState id) → s'.row k = s.row k) (id : UUID) :
    WorkflowDefinitionRepository.load s' id = WorkflowDefinitionRepository.load s id := by
  have hworkflow : workflowDefinitionRow s' id = workflowDefinitionRow s id :=
    hrows (.workflow id) (by simp)
  have htask : ∀ i, taskDefinitionRow s' i = taskDefinitionRow s i :=
    fun i => hrows (.task i) (by simp)
  have hdependencies : WorkflowDefinitionRepository.dependencyRows s' id =
      WorkflowDefinitionRepository.dependencyRows s id := by
    refine Sql.Store.scan_congr hkeys fun k => ?_
    cases k with
    | dependency i p =>
        rw [hrows (.dependency i p) (by simp)]
        simp only [htask]
    | workflow _ => simp
    | task _ => simp
    | trigger _ => simp
    | chronologicalTriggerState _ => simp
  have htasks : WorkflowDefinitionRepository.loadTasks s' id =
      WorkflowDefinitionRepository.loadTasks s id := by
    refine Sql.Store.scan_congr hkeys fun k => ?_
    cases k with
    | task i =>
        rw [hrows (.task i) (by simp)]
        simp only [WorkflowDefinitionRepository.loadDependencies, hdependencies]
    | workflow _ => simp
    | dependency _ _ => simp
    | trigger _ => simp
    | chronologicalTriggerState _ => simp
  have htriggers : WorkflowDefinitionRepository.loadTriggers s' id =
      WorkflowDefinitionRepository.loadTriggers s id := by
    refine Sql.Store.scan_congr hkeys fun k => ?_
    cases k with
    | trigger i => rw [hrows (.trigger i) (by simp)]
    | workflow _ => simp
    | dependency _ _ => simp
    | task _ => simp
    | chronologicalTriggerState _ => simp
  unfold WorkflowDefinitionRepository.load
  rw [hworkflow, htasks, htriggers]

/-- The definitions look to a start as they did in the beginning. -/
theorem load_some {s : DefinitionStore} {id : UUID} {w : WorkflowDefinitionModel}
    (h : workflowDefinitionRow s id = some w) :
    ∃ workflowDefinition, WorkflowDefinitionRepository.load s id = some workflowDefinition ∧
      workflowDefinition.enabled = w.enabled ∧ workflowDefinition.id = id := by
  refine ⟨WorkflowDefinitionMapper.workflowToDomain id w
    (WorkflowDefinitionRepository.loadTasks s id)
    (WorkflowDefinitionRepository.loadTriggers s id), ?_, rfl, rfl⟩
  unfold WorkflowDefinitionRepository.load
  rw [h]

/-- A start of an accepted definition prepares an execution exactly when it is enabled. -/
theorem prepare_cases {s : DefinitionStore} {id : UUID} {w : WorkflowDefinitionModel}
    (hw : workflowDefinitionRow s id = some w)
    (hvalid : ∀ wd, WorkflowDefinitionRepository.load s id = some wd → wd.Valid)
    (draws : Draws) (now : Datetime) :
    if w.enabled = true then
      ∃ wd, wd.Valid ∧ wd.id = id ∧ WorkflowStartService.prepare s draws now id =
        .ok (WorkflowStartService.compiled draws now wd, WorkflowStartService.rootsOf draws wd)
    else ∃ e, WorkflowStartService.prepare s draws now id = .error e := by
  obtain ⟨wd, hload, henabled, hid⟩ := load_some hw
  split
  · rename_i h
    refine ⟨wd, hvalid wd hload, hid, ?_⟩
    unfold WorkflowStartService.prepare
    rw [hload]
    simp only [henabled, h, if_true,
      WorkflowStartService.createWorkflowExecution_eq draws now (hvalid wd hload).linked]
  · rename_i h
    unfold WorkflowStartService.prepare
    rw [hload]
    simp only [henabled, h]
    exact ⟨_, rfl⟩

theorem rowIds_compiled (draws : Draws) (now : Datetime) (wd : WorkflowDefinition) :
    (WorkflowStartService.compiled draws now wd).rowIds = .workflow draws.workflowExecutionId ::
      wd.taskDefinitions.map fun d => .task (draws.taskExecutionId d.id) :=
  keys_compiled draws now wd

/-- An occurrence was processed between two states: its workflow was started, and the
trigger's state was moved on or removed. -/
structure Processed (db db' : Database) (id : UUID) (o : Datetime) : Prop where
  stood : triggerStateRow db.definitions id = some { nextRunAt := o }
  moved : ∃ trigger next, triggerDefinitionRow db.definitions id = some trigger ∧
    trigger.nextRunAt discovered o = .ok next ∧
    triggerStateRow db'.definitions id = next.map ChronologicalTriggerStateModel.mk
  started : ∃ trigger execution, triggerDefinitionRow db.definitions id = some trigger ∧
    execution.workflowDefinitionId = trigger.workflowDefinitionId ∧
    workflowRow db.executions execution.id = none ∧
    workflowRow db'.executions execution.id =
      some (WorkflowExecutionMapper.workflowToModel execution)

/-- What a round that processes an occurrence does to the database. -/
structure Advanced (db db' : Database) (draws : Draws) (id : UUID) (next : Datetime) : Prop where
  keys : db'.definitions.keys = db.definitions.keys
  state : triggerStateRow db'.definitions id = some { nextRunAt := next }
  rows : ∀ k, k ≠ .chronologicalTriggerState id → db'.definitions.row k = db.definitions.row k
  executions : ∀ k ∈ db'.executions.keys, k ∈ db.executions.keys ∨
    k = .workflow draws.workflowExecutionId ∨ ∃ i, k = .task (draws.taskExecutionId i)

section Round

variable {db : Database} (draws : Draws) {now : Datetime} (createdAt : Datetime)
  {d : DueChronologicalTrigger} {trigger : TriggerDefinitionModel}

/-- A round that finds nothing due returns `False` and changes nothing. -/
theorem processNextDue_idle
    (h : ChronologicalTriggerRepository.getNextDue db.definitions now = none) :
    ChronologicalTriggerService.processNextDue discovered draws now createdAt db =
      .ok (false, db) := by
  unfold ChronologicalTriggerService.processNextDue
  rw [h]

/-- A round whose occurrence cannot be processed raises. -/
theorem processNextDue_stuck (hacc : Accepted db.definitions)
    (hdue : ChronologicalTriggerRepository.getNextDue db.definitions now = some d)
    (htrigger : triggerDefinitionRow db.definitions d.triggerDefinitionId = some trigger)
    (hnot : ¬ trigger.Startable db.definitions d.nextRunAt) :
    ∃ e, ChronologicalTriggerService.processNextDue discovered draws now createdAt db =
      .error e := by
  obtain ⟨hrow, -⟩ := ChronologicalTriggerRepository.getNextDue_some hdue
  obtain ⟨-, -, hstate, trigger', htrigger', -, hworkflow, htype, hconfiguration⟩ := dueRow_spec hrow
  rw [htrigger, Option.some.injEq] at htrigger'
  subst htrigger'
  have hnext : ChronologicalTriggerService.nextRunAt discovered d.pluginType d.configuration
      d.nextRunAt = trigger.nextRunAt discovered d.nextRunAt := by
    rw [htype, hconfiguration]
    rfl
  unfold ChronologicalTriggerService.processNextDue
  rw [hdue]
  simp only [hnext]
  cases hn : trigger.nextRunAt discovered d.nextRunAt with
  | error e => exact ⟨e, rfl⟩
  | ok next =>
      -- The next occurrence is there, so it is the workflow that is disabled.
      obtain ⟨o, rfl, -⟩ := hacc.next_later htrigger hn
      obtain ⟨w, hw⟩ := Option.isSome_iff_exists.mp (hacc.workflow _ _ htrigger)
      have hdisabled : w.enabled ≠ true := fun hc => hnot ⟨⟨w, hw, hc⟩, ⟨_, hn⟩⟩
      obtain ⟨s', hs'⟩ : ∃ s', ChronologicalTriggerService.reschedule db.definitions
          d.triggerDefinitionId (some o) = .ok s' := by
        simp [ChronologicalTriggerService.reschedule, ChronologicalTriggerRepository.updateNextRun,
          hstate]
      obtain ⟨-, hframe⟩ := reschedule_spec hs'
      have hw' : workflowDefinitionRow s' d.workflowDefinitionId = some w := by
        rw [hworkflow, ← hw]
        exact hframe (.workflow _) (by simp)
      obtain ⟨wd, hload, henabled, -⟩ := load_some hw'
      simp only [bind, Except.bind, hs', WorkflowStartService.startAndCommit,
        WorkflowStartService.prepare, hload, henabled, hdisabled]
      exact ⟨_, rfl⟩

/-- A round whose occurrence can be processed processes it. -/
theorem processNextDue_moved (hacc : Accepted db.definitions)
    (hdue : ChronologicalTriggerRepository.getNextDue db.definitions now = some d)
    (htrigger : triggerDefinitionRow db.definitions d.triggerDefinitionId = some trigger)
    (hstartable : trigger.Startable db.definitions d.nextRunAt)
    (hworkflow : (.workflow draws.workflowExecutionId : RowId) ∉ db.executions.keys)
    (htask : ∀ i, (.task (draws.taskExecutionId i) : RowId) ∉ db.executions.keys)
    (hinjective : ∀ i j, draws.taskExecutionId i = draws.taskExecutionId j → i = j) :
    ∃ db' next, ChronologicalTriggerService.processNextDue discovered draws now createdAt db =
        .ok (true, db') ∧ trigger.nextRunAt discovered d.nextRunAt = .ok (some next) ∧
      Processed db db' d.triggerDefinitionId d.nextRunAt ∧
      Advanced db db' draws d.triggerDefinitionId next := by
  obtain ⟨hrow, -⟩ := ChronologicalTriggerRepository.getNextDue_some hdue
  obtain ⟨-, -, hstate, trigger', htrigger', -, hof, htype, hconfiguration⟩ := dueRow_spec hrow
  rw [htrigger, Option.some.injEq] at htrigger'
  subst htrigger'
  obtain ⟨⟨w, hw, henabled⟩, ⟨next?, hn⟩⟩ := hstartable
  obtain ⟨next, rfl, -⟩ := hacc.next_later htrigger hn
  have hnext : ChronologicalTriggerService.nextRunAt discovered d.pluginType d.configuration
      d.nextRunAt = .ok (some next) := by
    rw [htype, hconfiguration]
    exact hn
  obtain ⟨s', hs'⟩ : ∃ s', ChronologicalTriggerService.reschedule db.definitions
      d.triggerDefinitionId (some next) = .ok s' := by
    simp [ChronologicalTriggerService.reschedule, ChronologicalTriggerRepository.updateNextRun,
      hstate]
  have hkeys : s'.keys = db.definitions.keys := by
    simp only [ChronologicalTriggerService.reschedule, ChronologicalTriggerRepository.updateNextRun,
      hstate, Except.ok.injEq] at hs'
    subst hs'
    exact Sql.Store.set_keys ..
  obtain ⟨hstate', hframe⟩ := reschedule_spec hs'
  have hload : ∀ i, WorkflowDefinitionRepository.load s' i =
      WorkflowDefinitionRepository.load db.definitions i :=
    load_congr hkeys fun k hk => hframe k (hk _)
  have hw' : workflowDefinitionRow s' d.workflowDefinitionId = some w := by
    rw [hof, ← hw]
    exact hframe (.workflow _) (by simp)
  have hprepare := prepare_cases hw' (fun wd h => hacc.valid _ wd (by rw [← hload]; exact h))
    draws createdAt
  rw [if_pos henabled] at hprepare
  obtain ⟨wd, hvalid, hid, hprepare⟩ := hprepare
  obtain ⟨executions, hcreate⟩ := create_fresh createdAt hvalid.linked hworkflow htask hinjective
  obtain ⟨hexekeys, hfree, hnew, -⟩ := create_spec hcreate
  refine ⟨⟨s', executions⟩, next, ?_, hn, ?_, ?_⟩
  · unfold ChronologicalTriggerService.processNextDue
    rw [hdue]
    simp only [hnext, bind, Except.bind, hs', WorkflowStartService.startAndCommit, hprepare,
      hcreate, pure, Except.pure]
  · exact ⟨hstate, ⟨trigger, some next, htrigger, hn, hstate'⟩,
      ⟨trigger, _, htrigger, by rw [← hof, ← hid]; rfl, hfree, hnew⟩⟩
  · refine ⟨hkeys, hstate', hframe, ?_⟩
    intro k hk
    rw [hexekeys, List.mem_append] at hk
    rcases hk with hk | hk
    · exact Or.inl hk
    · refine Or.inr ?_
      rw [rowIds_compiled, List.mem_cons, List.mem_map] at hk
      rcases hk with hk | ⟨t, -, hk⟩
      · exact Or.inl hk
      · exact Or.inr ⟨t.id, hk.symm⟩

end Round

/-! ### The loop as an agenda -/

/-- The occurrences of the stored triggers that are enabled, and which can be processed. -/
def agenda (s : DefinitionStore) : Agenda UUID Datetime where
  time id k :=
    (triggerDefinitionRow s id).bind fun trigger => (triggerStateRow s id).bind fun state =>
      if trigger.enabled = true then trigger.occurrence discovered state.nextRunAt k else none
  possible id k := ∃ trigger state o, triggerDefinitionRow s id = some trigger ∧
    triggerStateRow s id = some state ∧
    trigger.occurrence discovered state.nextRunAt k = some o ∧ trigger.Startable s o

theorem agenda_time {s : DefinitionStore} {id : UUID} {k : Nat} {t : Datetime} :
    (agenda s).time id k = some t ↔ ∃ trigger state, triggerDefinitionRow s id = some trigger ∧
      triggerStateRow s id = some state ∧ trigger.enabled = true ∧
      trigger.occurrence discovered state.nextRunAt k = some t := by
  simp only [agenda, Option.bind_eq_some_iff]
  constructor
  · intro ⟨trigger, htrigger, state, hstate, ht⟩
    split at ht
    · exact ⟨trigger, state, htrigger, hstate, ‹_›, ht⟩
    · simp at ht
  · intro ⟨trigger, state, htrigger, hstate, henabled, ht⟩
    exact ⟨trigger, htrigger, state, hstate, by rw [if_pos henabled]; exact ht⟩

/-- The occurrences of accepted triggers increase. -/
theorem Accepted.increasing {s : DefinitionStore} (h : Accepted s) : (agenda s).Increasing where
  lt := by
    intro i k t u ht hu
    obtain ⟨trigger, state, htrigger, hstate, -, ht⟩ := agenda_time.mp ht
    obtain ⟨trigger', state', htrigger', hstate', -, hu⟩ := agenda_time.mp hu
    rw [htrigger, Option.some.injEq] at htrigger'
    rw [hstate, Option.some.injEq] at hstate'
    subst htrigger' hstate'
    rw [TriggerDefinitionModel.occurrence, ht] at hu
    cases hn : trigger.nextRunAt discovered t with
    | error e => simp [hn] at hu
    | ok next =>
        obtain ⟨o, rfl, hlt⟩ := h.next_later htrigger hn
        simp only [hn, Option.some.injEq] at hu
        exact hu ▸ hlt
  ended := by
    intro i k hk
    cases hsucc : (agenda s).time i (k + 1) with
    | none => rfl
    | some u =>
        exfalso
        obtain ⟨trigger, state, htrigger, hstate, henabled, hu⟩ := agenda_time.mp hsucc
        rw [TriggerDefinitionModel.occurrence] at hu
        cases ho : trigger.occurrence discovered state.nextRunAt k with
        | none => simp [ho] at hu
        | some o =>
            rw [agenda_time.mpr ⟨trigger, state, htrigger, hstate, henabled, ho⟩] at hk
            simp at hk

namespace Scheduler

/-- The occurrence that a round of the loop processes, if it processes one. -/
def processed (draws : Draws) (now createdAt : Datetime) (db : Database) :
    Option (UUID × Datetime) :=
  match ChronologicalTriggerService.processNextDue discovered draws now createdAt db with
  | .ok (true, _) =>
      (ChronologicalTriggerRepository.getNextDue db.definitions now).map fun due =>
        (due.triggerDefinitionId, due.nextRunAt)
  | _ => none

/-- One more for the trigger whose occurrence was processed. -/
def counted (pos : UUID → Nat) : Option (UUID × Datetime) → UUID → Nat
  | some (id, _) => Function.update pos id (pos id + 1)
  | none => pos

section Run

variable (draws : Nat → Draws) (now : Datetime) (createdAt : Nat → Datetime) (db₀ : Database)

/-- What round `n` of the loop processes. -/
def out (n : Nat) : Option (UUID × Datetime) :=
  processed (draws n) now (createdAt n) (run discovered draws now createdAt db₀ n)

/-- How many occurrences of each trigger the rounds before `n` have processed. -/
def count : Nat → UUID → Nat
  | 0 => fun _ => 0
  | n + 1 => counted (count n) (out draws now createdAt db₀ n)

/-- The database after some rounds, and where the triggers stand. -/
structure Along (n : Nat) (db : Database) (pos : UUID → Nat) : Prop where
  keys : db.definitions.keys = db₀.definitions.keys
  rows : ∀ k, (∀ id, k ≠ .chronologicalTriggerState id) →
    db.definitions.row k = db₀.definitions.row k
  states : ∀ id trigger state, triggerDefinitionRow db₀.definitions id = some trigger →
    triggerStateRow db₀.definitions id = some state →
    (triggerStateRow db.definitions id).map (·.nextRunAt) =
      trigger.occurrence discovered state.nextRunAt (pos id)
  absent : ∀ id, triggerStateRow db₀.definitions id = none →
    triggerStateRow db.definitions id = none
  executions : ∀ k ∈ db.executions.keys, k ∈ db₀.executions.keys ∨ ∃ m < n,
    k = .workflow (draws m).workflowExecutionId ∨ ∃ i, k = .task ((draws m).taskExecutionId i)

variable {draws now createdAt db₀} {n : Nat} {db : Database} {pos : UUID → Nat}

theorem Along.trigger (h : Along draws db₀ n db pos) (id : UUID) :
    triggerDefinitionRow db.definitions id = triggerDefinitionRow db₀.definitions id :=
  h.rows (.trigger id) (by simp)

theorem Along.workflow (h : Along draws db₀ n db pos) (id : UUID) :
    workflowDefinitionRow db.definitions id = workflowDefinitionRow db₀.definitions id :=
  h.rows (.workflow id) (by simp)

theorem Along.accepted (h : Along draws db₀ n db pos) (hacc : Accepted db₀.definitions) :
    Accepted db.definitions where
  plugin := fun id trigger ht => hacc.plugin id trigger (by rw [← h.trigger]; exact ht)
  workflow := fun id trigger ht => by
    rw [h.workflow]
    exact hacc.workflow id trigger (by rw [← h.trigger]; exact ht)
  valid := fun id wd hload => hacc.valid id wd (by rw [← load_congr h.keys h.rows]; exact hload)

theorem Along.startable (h : Along draws db₀ n db pos) {trigger : TriggerDefinitionModel}
    {o : Datetime} :
    trigger.Startable db.definitions o ↔ trigger.Startable db₀.definitions o := by
  constructor
  · intro hs
    exact ⟨by rw [← h.workflow]; exact hs.enabled, hs.next⟩
  · intro hs
    exact ⟨by rw [h.workflow]; exact hs.enabled, hs.next⟩

/-- A trigger that is due stands at an appointment of the agenda. -/
theorem Along.stands (h : Along draws db₀ n db pos) {id : UUID} {d : DueChronologicalTrigger}
    (hd : ChronologicalTriggerRepository.dueRow db.definitions now id = some d) :
    ∃ trigger state, triggerDefinitionRow db₀.definitions id = some trigger ∧
      triggerStateRow db₀.definitions id = some state ∧ trigger.enabled = true ∧
      trigger.occurrence discovered state.nextRunAt (pos id) = some d.nextRunAt := by
  obtain ⟨-, -, hstate, trigger, htrigger, henabled, -⟩ := dueRow_spec hd
  rw [h.trigger] at htrigger
  cases hs : triggerStateRow db₀.definitions id with
  | none =>
      rw [h.absent id hs] at hstate
      simp at hstate
  | some state =>
      have hcurrent := h.states id trigger state htrigger hs
      rw [hstate] at hcurrent
      exact ⟨trigger, state, htrigger, rfl, henabled, hcurrent.symm⟩

/-- And the other way round, an appointment at which a trigger stands is due when it is time. -/
theorem Along.dueRow (h : Along draws db₀ n db pos) {id : UUID} {t : Datetime}
    (ht : (agenda db₀.definitions).time id (pos id) = some t) (hnow : t ≤ now) :
    ∃ d, ChronologicalTriggerRepository.dueRow db.definitions now id = some d ∧
      d.triggerDefinitionId = id ∧ d.nextRunAt = t := by
  obtain ⟨trigger, state, htrigger, hstate, henabled, ht⟩ := agenda_time.mp ht
  have hcurrent := h.states id trigger state htrigger hstate
  rw [ht] at hcurrent
  obtain ⟨state', hstate', hrun⟩ := Option.map_eq_some_iff.mp hcurrent
  subst hrun
  unfold ChronologicalTriggerRepository.dueRow
  rw [hstate', h.trigger, htrigger]
  simp only [hnow, henabled, and_self, if_true]
  exact ⟨_, rfl, rfl, rfl⟩

/-- What the scheduler selects is what the clerk takes first. -/
theorem Along.first (h : Along draws db₀ n db pos) {d : DueChronologicalTrigger}
    (hd : ChronologicalTriggerRepository.getNextDue db.definitions now = some d) :
    (agenda db₀.definitions).First now pos d.triggerDefinitionId d.nextRunAt := by
  obtain ⟨hrow, hleast⟩ := ChronologicalTriggerRepository.getNextDue_some hd
  obtain ⟨trigger, state, htrigger, hstate, henabled, hocc⟩ := h.stands hrow
  obtain ⟨-, hnow, -⟩ := dueRow_spec hrow
  refine ⟨agenda_time.mpr ⟨trigger, state, htrigger, hstate, henabled, hocc⟩, hnow, ?_⟩
  intro j u hu hunow
  obtain ⟨e, he, rfl, rfl⟩ := h.dueRow hu hunow
  exact hleast _ e he

/-- Identifiers of a round are not among those the rounds before it have used. -/
theorem Along.unused (h : Along draws db₀ n db pos) (hfresh : Fresh draws db₀.executions) :
    (.workflow (draws n).workflowExecutionId : RowId) ∉ db.executions.keys ∧
      ∀ i, (.task ((draws n).taskExecutionId i) : RowId) ∉ db.executions.keys := by
  refine ⟨?_, ?_⟩
  · intro hmem
    rcases h.executions _ hmem with hold | ⟨m, hm, heq | ⟨i, heq⟩⟩
    · exact hfresh.workflow n hold
    · exact absurd (hfresh.workflow_injective n m (RowId.workflow.inj heq)) (by omega)
    · simp at heq
  · intro i hmem
    rcases h.executions _ hmem with hold | ⟨m, hm, heq | ⟨j, heq⟩⟩
    · exact hfresh.task n i hold
    · simp at heq
    · exact absurd (hfresh.task_injective n m i j (RowId.task.inj heq)).1 (by omega)

/-- A round that processes an occurrence moves its trigger on by one. -/
theorem Along.advanced (h : Along draws db₀ n db pos) {db' : Database} {id : UUID}
    {trigger : TriggerDefinitionModel} {o next : Datetime}
    (htrigger : triggerDefinitionRow db.definitions id = some trigger)
    (hstate : triggerStateRow db.definitions id = some { nextRunAt := o })
    (hnext : trigger.nextRunAt discovered o = .ok (some next))
    (hadv : Advanced db db' (draws n) id next) :
    Along draws db₀ (n + 1) db' (Function.update pos id (pos id + 1)) := by
  refine ⟨hadv.keys.trans h.keys, ?_, ?_, ?_, ?_⟩
  · intro k hk
    rw [hadv.rows k (hk id), h.rows k hk]
  · intro i tr st htr hst
    have hcurrent := h.states i tr st htr hst
    by_cases hi : i = id
    · subst hi
      rw [h.trigger, htr, Option.some.injEq] at htrigger
      subst htrigger
      rw [hstate] at hcurrent
      rw [hadv.state, Function.update_self,
        TriggerDefinitionModel.occurrence_succ hcurrent.symm hnext]
      rfl
    · rw [Function.update_of_ne hi, ← hcurrent]
      unfold triggerStateRow
      rw [hadv.rows (.chronologicalTriggerState i) (by simpa using hi)]
  · intro i hnone
    have hi : i ≠ id := by
      intro hc
      subst hc
      rw [h.absent i hnone] at hstate
      simp at hstate
    unfold triggerStateRow
    rw [hadv.rows (.chronologicalTriggerState i) (by simpa using hi)]
    exact h.absent i hnone
  · intro k hk
    rcases hadv.executions k hk with hold | hnew
    · rcases h.executions k hold with hold | ⟨m, hm, hdrawn⟩
      · exact Or.inl hold
      · exact Or.inr ⟨m, by omega, hdrawn⟩
    · exact Or.inr ⟨n, by omega, hnew⟩

theorem Along.next_round (h : Along draws db₀ n db pos) : Along draws db₀ (n + 1) db pos := by
  refine ⟨h.keys, h.rows, h.states, h.absent, ?_⟩
  intro k hk
  rcases h.executions k hk with hold | ⟨m, hm, hdrawn⟩
  · exact Or.inl hold
  · exact Or.inr ⟨m, by omega, hdrawn⟩

theorem along_start : Along draws db₀ 0 db₀ (fun _ => 0) where
  keys := rfl
  rows := fun _ _ => rfl
  states := fun id trigger state _ hs => by rw [hs]; rfl
  absent := fun _ h => h
  executions := fun k hk => Or.inl hk

/-- One round of the loop, as a round of the agenda. -/
theorem Along.round (h : Along draws db₀ n db pos) (now : Datetime) (hacc : Accepted db₀.definitions)
    (hfresh : Fresh draws db₀.executions) (c : Datetime) :
    ∃ pos', (agenda db₀.definitions).Round now pos (processed (draws n) now c db) pos' ∧
      Along draws db₀ (n + 1) (iterate discovered (draws n) now c db) pos' ∧
      (processed (draws n) now c db = none → iterate discovered (draws n) now c db = db) ∧
      ∀ id o, processed (draws n) now c db = some (id, o) →
        Processed db (iterate discovered (draws n) now c db) id o ∧
          ChronologicalTriggerService.processNextDue discovered (draws n) now c db =
            .ok (true, iterate discovered (draws n) now c db) := by
  cases hd : ChronologicalTriggerRepository.getNextDue db.definitions now with
  | none =>
      have hidle := processNextDue_idle (draws n) c hd
      have hiterate : iterate discovered (draws n) now c db = db := by
        unfold iterate
        rw [hidle]
      have hout : processed (draws n) now c db = none := by
        unfold processed
        rw [hidle]
      rw [hout, hiterate]
      refine ⟨pos, .idle ?_, h.next_round, fun _ => rfl, by simp⟩
      intro i t ht
      by_contra hle
      obtain ⟨d, hrow, -⟩ := h.dueRow ht (le_of_not_gt hle)
      rw [ChronologicalTriggerRepository.getNextDue_none hd] at hrow
      simp at hrow
  | some d =>
      have hfirst := h.first hd
      obtain ⟨hrow, -⟩ := ChronologicalTriggerRepository.getNextDue_some hd
      obtain ⟨trigger, state, htrigger₀, hstate₀, -, hocc⟩ := h.stands hrow
      obtain ⟨-, -, hstate, -⟩ := dueRow_spec hrow
      have htrigger : triggerDefinitionRow db.definitions d.triggerDefinitionId = some trigger :=
        (h.trigger _).trans htrigger₀
      by_cases hs : trigger.Startable db.definitions d.nextRunAt
      · obtain ⟨hworkflow, htask⟩ := h.unused hfresh
        obtain ⟨db', next, hok, hnext, hprocessed, hadv⟩ :=
          processNextDue_moved (draws n) c (h.accepted hacc) hd htrigger hs hworkflow htask
            fun i j hij => (hfresh.task_injective n n i j hij).2
        have hiterate : iterate discovered (draws n) now c db = db' := by
          unfold iterate
          rw [hok]
        have hout : processed (draws n) now c db =
            some (d.triggerDefinitionId, d.nextRunAt) := by
          unfold processed
          rw [hok, hd]
          rfl
        rw [hout, hiterate]
        refine ⟨_, .moved _ _ hfirst ⟨trigger, state, _, htrigger₀, hstate₀, hocc,
          h.startable.mp hs⟩, h.advanced htrigger hstate hnext hadv, by simp, ?_⟩
        intro id o ho
        obtain ⟨rfl, rfl⟩ := Prod.mk.inj (Option.some.inj ho)
        exact ⟨hprocessed, hok⟩
      · obtain ⟨e, he⟩ := processNextDue_stuck (draws n) c
          (h.accepted hacc) hd htrigger hs
        have hiterate : iterate discovered (draws n) now c db = db := by
          unfold iterate
          rw [he]
        have hout : processed (draws n) now c db = none := by
          unfold processed
          rw [he]
        rw [hout, hiterate]
        refine ⟨pos, .stuck _ _ hfirst ?_, h.next_round, fun _ => rfl, by simp⟩
        intro ⟨trigger', state', o', htrigger', hstate', hocc', hs'⟩
        rw [htrigger₀, Option.some.injEq] at htrigger'
        rw [hstate₀, Option.some.injEq] at hstate'
        subst htrigger' hstate'
        rw [hocc, Option.some.injEq] at hocc'
        subst hocc'
        exact hs (h.startable.mpr hs')

/-- A round determines where the triggers stand after it. -/
theorem round_pos {a : Agenda UUID Datetime} {now : Datetime} {pos pos' : UUID → Nat}
    {e : Option (UUID × Datetime)} (h : a.Round now pos e pos') :
    pos' = counted pos e := by
  cases h with
  | idle _ => rfl
  | stuck _ _ _ _ => rfl
  | moved _ _ _ _ => rfl

theorem along_run (now : Datetime) (createdAt : Nat → Datetime) (hacc : Accepted db₀.definitions) (hfresh : Fresh draws db₀.executions) :
    ∀ n, Along draws db₀ n (run discovered draws now createdAt db₀ n)
      (count draws now createdAt db₀ n) := by
  intro n
  induction n with
  | zero => exact along_start
  | succ n ih =>
      obtain ⟨pos', hround, halong, -, -⟩ := ih.round now hacc hfresh (createdAt n)
      have hpos : count draws now createdAt db₀ (n + 1) = pos' := by
        rw [round_pos hround]
        rfl
      rw [hpos]
      exact halong

/-- **The loop is a run of the agenda.** -/
theorem run_agenda (now : Datetime) (createdAt : Nat → Datetime)
    (hacc : Accepted db₀.definitions) (hfresh : Fresh draws db₀.executions) :
    (agenda db₀.definitions).Run now (count draws now createdAt db₀)
      (out draws now createdAt db₀) where
  start := fun _ => rfl
  round := by
    intro n
    obtain ⟨pos', hround, -, -, -⟩ :=
      (along_run now createdAt hacc hfresh n).round now hacc hfresh (createdAt n)
    have hpos : count draws now createdAt db₀ (n + 1) = pos' := by
      rw [round_pos hround]
      rfl
    rw [hpos]
    exact hround

/-- What a round is said to process it does process. -/
theorem processed_of_out (hacc : Accepted db₀.definitions) (hfresh : Fresh draws db₀.executions)
    {id : UUID} {o : Datetime} (ho : out draws now createdAt db₀ n = some (id, o)) :
    Processed (run discovered draws now createdAt db₀ n)
      (run discovered draws now createdAt db₀ (n + 1)) id o := by
  obtain ⟨-, -, -, -, h⟩ :=
    (along_run now createdAt hacc hfresh n).round now hacc hfresh (createdAt n)
  exact (h id o ho).1

theorem processNextDue_of_out (hacc : Accepted db₀.definitions)
    (hfresh : Fresh draws db₀.executions) {e : UUID × Datetime}
    (ho : out draws now createdAt db₀ n = some e) :
    ChronologicalTriggerService.processNextDue discovered (draws n) now (createdAt n)
        (run discovered draws now createdAt db₀ n) =
      .ok (true, run discovered draws now createdAt db₀ (n + 1)) := by
  obtain ⟨-, -, -, -, h⟩ :=
    (along_run now createdAt hacc hfresh n).round now hacc hfresh (createdAt n)
  exact (h e.1 e.2 ho).2

/-- A round in which the state of a trigger changes is one that processes its occurrence. -/
theorem out_of_processed (hacc : Accepted db₀.definitions) (hfresh : Fresh draws db₀.executions)
    {id : UUID} {o : Datetime}
    (hp : Processed (run discovered draws now createdAt db₀ n)
      (run discovered draws now createdAt db₀ (n + 1)) id o) :
    out draws now createdAt db₀ n = some (id, o) := by
  have halong := along_run now createdAt hacc hfresh n
  obtain ⟨-, -, -, hidle, hbusy⟩ := halong.round now hacc hfresh (createdAt n)
  obtain ⟨trigger, next, htrigger, hnext, hstate'⟩ := hp.moved
  obtain ⟨o', rfl, hlt⟩ := (halong.accepted hacc).next_later htrigger hnext
  cases ho : out draws now createdAt db₀ n with
  | none =>
      exfalso
      have hsame : run discovered draws now createdAt db₀ (n + 1) =
          run discovered draws now createdAt db₀ n := hidle ho
      rw [hsame, hp.stood] at hstate'
      simp only [Option.map_some, Option.some.injEq,
        ChronologicalTriggerStateModel.mk.injEq] at hstate'
      exact absurd hstate' (ne_of_lt hlt)
  | some e =>
      obtain ⟨i, u⟩ := e
      by_cases hi : id = i
      · subst hi
        have hstood := (processed_of_out hacc hfresh ho).stood
        rw [hp.stood] at hstood
        simp only [Option.some.injEq, ChronologicalTriggerStateModel.mk.injEq] at hstood
        rw [hstood]
      · -- Another trigger was moved on, and this one stands where it stood.
        exfalso
        rw [halong.trigger] at htrigger
        have hstate₀ : triggerStateRow db₀.definitions id ≠ none := by
          intro hnone
          have habsent := halong.absent id hnone
          rw [hp.stood] at habsent
          simp at habsent
        obtain ⟨state, hstate⟩ := Option.ne_none_iff_exists'.mp hstate₀
        have hbefore := halong.states id trigger state htrigger hstate
        have hafter := (along_run now createdAt hacc hfresh
          (n + 1)).states id trigger state htrigger hstate
        rw [count, ho, counted, Function.update_of_ne hi, ← hbefore, hp.stood, hstate'] at hafter
        simp only [Option.map_some, Option.some.injEq] at hafter
        exact absurd hafter.symm (ne_of_lt hlt)

end Run

end Scheduler

end AutomationPlatform
