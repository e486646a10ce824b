/-
Concurrent schedulers keep every trigger on its schedule.

The schedule of a trigger is what its plugin makes of its first occurrence: the next
occurrence, the one after that, and so on until there is none, or the plugin raises.
The database holds one point of it, and every commit moves one trigger on by one
occurrence and adds the execution that was started for the occurrence left behind.

Two facts carry this over all interleavings.  A transaction that has found its due
trigger holds the lock of its row, so what it read stays true until it ends.  And a
commit is the only step that changes what is committed.
-/
import AutomationPlatform.Runtime.Scheduler
import Mathlib.Data.List.Range

namespace AutomationPlatform

/-! ### Schedules -/

/-- The occurrence of a trigger after one. -/
def TriggerDefinitionModel.nextRunAt (registry : TriggerRegistry)
    (trigger : TriggerDefinitionModel) (after : Datetime) : Except Raised (Option Datetime) :=
  ChronologicalTriggerService.nextRunAt registry trigger.pluginType trigger.configuration after

/-- The occurrences of a trigger, counted from its first. -/
def TriggerDefinitionModel.occurrence (registry : TriggerRegistry)
    (trigger : TriggerDefinitionModel) (first : Datetime) : Nat → Option Datetime
  | 0 => some first
  | i + 1 =>
      match trigger.occurrence registry first i with
      | none => none
      | some o =>
          match trigger.nextRunAt registry o with
          | .ok next => next
          | .error _ => none

theorem TriggerDefinitionModel.occurrence_succ {registry : TriggerRegistry}
    {trigger : TriggerDefinitionModel} {first o : Datetime} {next : Option Datetime} {k : Nat}
    (ho : trigger.occurrence registry first k = some o)
    (hnext : trigger.nextRunAt registry o = .ok next) :
    trigger.occurrence registry first (k + 1) = next := by
  rw [occurrence, ho]
  simp only [hnext]

/-! ### What the parts of the transaction do -/

/-- Rescheduling a trigger writes its state and nothing else. -/
theorem reschedule_spec {s s' : DefinitionStore} {id : UUID} {next : Option Datetime}
    (h : ChronologicalTriggerService.reschedule s id next = .ok s') :
    triggerStateRow s' id = next.map ChronologicalTriggerStateModel.mk ∧
      ∀ k, k ≠ .chronologicalTriggerState id → s'.row k = s.row k := by
  cases next with
  | none =>
      simp only [ChronologicalTriggerService.reschedule, Except.ok.injEq] at h
      subst h
      unfold triggerStateRow ChronologicalTriggerRepository.delete
      refine ⟨Sql.Store.deleteWhere_row_drop fun _ _ => by simp, ?_⟩
      intro k hk
      refine Sql.Store.deleteWhere_row_keep fun _ _ => ?_
      cases k with
      | chronologicalTriggerState i => simpa using hk
      | workflow _ => rfl
      | task _ => rfl
      | dependency _ _ => rfl
      | trigger _ => rfl
  | some o =>
      simp only [ChronologicalTriggerService.reschedule,
        ChronologicalTriggerRepository.updateNextRun] at h
      split at h
      · rename_i state hstate
        simp only [Except.ok.injEq] at h
        subst h
        exact ⟨Sql.Store.set_row_self hstate _, fun k hk => Sql.Store.set_row_ne _ _ hk⟩
      · simp at h

/-- A row the recheck finds due holds the state and the definition of the trigger. -/
theorem dueRow_spec {s : DefinitionStore} {now : Datetime} {id : UUID}
    {due : DueChronologicalTrigger}
    (h : ChronologicalTriggerRepository.dueRow s now id = some due) :
    due.triggerDefinitionId = id ∧ due.nextRunAt ≤ now ∧
      triggerStateRow s id = some { nextRunAt := due.nextRunAt } ∧
      ∃ trigger, triggerDefinitionRow s id = some trigger ∧ trigger.enabled = true ∧
        due.workflowDefinitionId = trigger.workflowDefinitionId ∧
        due.pluginType = trigger.pluginType ∧ due.configuration = trigger.configuration := by
  unfold ChronologicalTriggerRepository.dueRow at h
  split at h
  · rename_i state trigger hstate htrigger
    split at h
    · rename_i hdue
      rw [Option.some.injEq] at h
      subst h
      exact ⟨rfl, hdue.1, hstate, trigger, htrigger, hdue.2, rfl, rfl, rfl⟩
    · simp at h
  · simp at h

/-- What a start has prepared is an execution of the definition it was asked for. -/
theorem prepare_spec {s : DefinitionStore} {draws : Draws} {now : Datetime} {id : UUID}
    {workflowExecution : WorkflowExecution} {rootTaskIds : List UUID}
    (h : WorkflowStartService.prepare s draws now id = .ok (workflowExecution, rootTaskIds)) :
    workflowExecution.workflowDefinitionId = id := by
  unfold WorkflowStartService.prepare WorkflowDefinitionRepository.load at h
  split at h
  · simp at h
  · rename_i wd hload
    split at hload
    · simp at hload
    rw [Option.some.injEq] at hload
    split at h
    · split at h
      · rename_i created hcreated
        unfold WorkflowStartService.createWorkflowExecution at hcreated
        simp only [bind, Except.bind, pure, Except.pure] at hcreated
        split at hcreated
        · simp at hcreated
        split at hcreated
        · simp at hcreated
        rw [Except.ok.injEq] at hcreated h
        subst hload
        rw [← hcreated] at h
        exact congrArg (fun p => p.1.workflowDefinitionId) h.symm
      · simp at h
    · simp at h

/-- The keys of an execution's rows: its own and its tasks'. -/
def WorkflowExecution.rowIds (workflow : WorkflowExecution) : List RowId :=
  (WorkflowExecutionMapper.workflowToRows workflow).keys

/-- Creating an execution adds its rows at free keys. -/
theorem create_spec {s s' : ExecutionStore} {workflow : WorkflowExecution}
    (h : WorkflowExecutionRepository.create s workflow = some s') :
    s'.keys = s.keys ++ workflow.rowIds ∧
      workflowRow s workflow.id = none ∧
      workflowRow s' workflow.id = some (WorkflowExecutionMapper.workflowToModel workflow) ∧
      ∀ k v, s.row k = some v → s'.row k = some v := by
  have hmem : (⟨.workflow workflow.id, WorkflowExecutionMapper.workflowToModel workflow⟩ :
      Sigma Row) ∈ WorkflowExecutionMapper.workflowToRows workflow := by
    simp [WorkflowExecutionMapper.workflowToRows]
  obtain ⟨-, hfree, hkeys, -⟩ := Sql.Store.insert?_cases h
  refine ⟨hkeys, ?_, Sql.Store.row_insert?_new h hmem, fun k v => Sql.Store.row_insert?_old h⟩
  have hnew := hfree _ (List.mem_map_of_mem (f := Sigma.fst) hmem)
  rw [s.mem_keys] at hnew
  simpa [workflowRow] using hnew

/-! ### Transactions in flight -/

namespace SchedulerDb

/-- The transaction holds the lock of its trigger, and has read what is committed. -/
structure Held (db : SchedulerDb) (t : Nat) (due : DueChronologicalTrigger) : Prop where
  locked : db.locks due.triggerDefinitionId = some t
  state : triggerStateRow db.definitions due.triggerDefinitionId =
    some { nextRunAt := due.nextRunAt }
  trigger : ∃ trigger, triggerDefinitionRow db.definitions due.triggerDefinitionId = some trigger ∧
    trigger.enabled = true ∧ due.workflowDefinitionId = trigger.workflowDefinitionId ∧
    due.pluginType = trigger.pluginType ∧ due.configuration = trigger.configuration

end SchedulerDb

/-- What is true of a transaction at each point of its way. -/
def SchedulerPhase.Sound (registry : TriggerRegistry) (db : SchedulerDb) (t : Nat) :
    SchedulerPhase → Prop
  | .begun => True
  | .selecting _ => True
  | .selected due => db.Held t due
  | .advanced due next =>
      db.Held t due ∧ ChronologicalTriggerService.nextRunAt registry due.pluginType
        due.configuration due.nextRunAt = .ok next
  | .created due next workflowExecution =>
      db.Held t due ∧ ChronologicalTriggerService.nextRunAt registry due.pluginType
        due.configuration due.nextRunAt = .ok next ∧
      workflowExecution.workflowDefinitionId = due.workflowDefinitionId

/-- What a transaction holds it still holds where its rows and locks are the same. -/
theorem SchedulerPhase.Sound.mono {registry : TriggerRegistry} {db db' : SchedulerDb} {t : Nat}
    {phase : SchedulerPhase} (h : phase.Sound registry db t)
    (hheld : ∀ due, db.Held t due → db'.Held t due) : phase.Sound registry db' t := by
  cases phase with
  | begun => trivial
  | selecting _ => trivial
  | selected due => exact hheld due h
  | advanced due next => exact ⟨hheld due h.1, h.2⟩
  | created due next e => exact ⟨hheld due h.1, h.2⟩

namespace SchedulerDb

variable {registry : TriggerRegistry} {db db' : SchedulerDb}

/-- What one step can do, to the transaction that takes it and to what is committed. -/
inductive Moved (registry : TriggerRegistry) (db : SchedulerDb) (t : Nat) : SchedulerDb → Prop
  | on (now : Datetime) (phase : SchedulerPhase) (hphase : phase.Sound registry db t) :
      Moved registry db t (db.setTxn t now phase)
  | locked (id : UUID) (now : Datetime) (phase : SchedulerPhase)
      (hfree : ∀ u, db.locks id = some u → u = t)
      (hphase : phase.Sound registry (db.lock t id) t) :
      Moved registry db t ((db.lock t id).setTxn t now phase)
  | closed : Moved registry db t (db.close t)
  | published (now : Datetime) (due : DueChronologicalTrigger) (next : Option Datetime)
      (workflowExecution : WorkflowExecution) (definitions : DefinitionStore)
      (executions : ExecutionStore)
      (htxn : db.txns t = some ⟨now, .created due next workflowExecution⟩)
      (hdefinitions : ChronologicalTriggerService.reschedule db.definitions
        due.triggerDefinitionId next = .ok definitions)
      (hexecutions : WorkflowExecutionRepository.create db.executions workflowExecution =
        some executions) :
      Moved registry db t
        { db.close t with
          definitions := definitions
          executions := executions
          log := db.log ++
            [{ triggerDefinitionId := due.triggerDefinitionId
               scheduledAt := due.nextRunAt
               workflowExecution := workflowExecution }] }

/-- Looking at a row moves on to the next, or takes the row with its lock. -/
theorem row_moved (registry : TriggerRegistry) (db : SchedulerDb) (t : Nat) (now : Datetime)
    (rest : List UUID) : Moved registry db t (db.row t now rest) := by
  cases rest with
  | nil => exact .closed
  | cons id rest =>
      simp only [row]
      split
      · exact .on now _ trivial
      · rename_i hlock
        have hfree : ∀ u, db.locks id = some u → u = t := by
          intro u hu
          simpa [hu] using hlock
        split
        · exact .on now _ trivial
        · split
          · exact .locked id now _ hfree trivial
          · rename_i due hdue
            obtain ⟨hid, -, hstate, htrigger⟩ := dueRow_spec hdue
            subst hid
            exact .locked _ now _ hfree
              ⟨by simp [lock], hstate, htrigger⟩

/-- A publication happens whole or leaves nothing. -/
theorem publish_moved {t : Nat} {now : Datetime} {due : DueChronologicalTrigger}
    {next : Option Datetime} {workflowExecution : WorkflowExecution}
    (htxn : db.txns t = some ⟨now, .created due next workflowExecution⟩) :
    Moved registry db t (db.publish t due next workflowExecution) := by
  unfold publish
  split
  · rename_i definitions executions hdefinitions hexecutions
    exact .published now due next _ definitions executions htxn hdefinitions hexecutions
  · exact .closed

/-- Every step is one of the moves. -/
theorem step_moved
    (hsound : ∀ t x, db.txns t = some x → x.phase.Sound registry db t)
    {action : SchedulerAction} (h : db.step registry action = some db') :
    ∃ t, Moved registry db t db' := by
  cases action with
  | begin t now =>
      simp only [step] at h
      split at h
      · rw [Option.some.injEq] at h
        exact ⟨t, h ▸ .on now .begun trivial⟩
      · simp at h
  | select t =>
      simp only [step] at h
      split at h
      · rename_i now hx
        rw [Option.some.injEq] at h
        exact ⟨t, h ▸ .on now _ trivial⟩
      · simp at h
  | row t =>
      simp only [step] at h
      split at h
      · rename_i now rest hx
        rw [Option.some.injEq] at h
        exact ⟨t, h ▸ row_moved registry db t now rest⟩
      · simp at h
  | advance t =>
      simp only [step] at h
      split at h
      · rename_i now due hx
        have hheld : db.Held t due := hsound t _ hx
        split at h
        · rename_i next hnext
          rw [Option.some.injEq] at h
          exact ⟨t, h ▸ .on now (.advanced due next) ⟨hheld, hnext⟩⟩
        · rw [Option.some.injEq] at h
          exact ⟨t, h ▸ .closed⟩
      · simp at h
  | create t draws createdAt =>
      simp only [step] at h
      split at h
      · rename_i now due next hx
        have hadvanced := hsound t _ hx
        split at h
        · rename_i e roots hprepare
          rw [Option.some.injEq] at h
          exact ⟨t, h ▸ .on now (.created due next e)
            ⟨hadvanced.1, hadvanced.2, prepare_spec hprepare⟩⟩
        · rw [Option.some.injEq] at h
          exact ⟨t, h ▸ .closed⟩
      · simp at h
  | commit t =>
      simp only [step] at h
      split at h
      · rename_i now due next e hx
        rw [Option.some.injEq] at h
        exact ⟨t, h ▸ publish_moved hx⟩
      · simp at h
  | abort t =>
      simp only [step] at h
      split at h
      · rw [Option.some.injEq] at h
        exact ⟨t, h ▸ .closed⟩
      · simp at h

/-! ### The law -/

/-- What has been started for a trigger, the first execution first. -/
def startedFor (db : SchedulerDb) (id : UUID) : List Scheduled :=
  db.log.filter (·.triggerDefinitionId = id)

/-- A trigger has come to its occurrence `k`, and exactly those before it were started. -/
structure OnSchedule (registry : TriggerRegistry) (db : SchedulerDb) (id : UUID)
    (trigger : TriggerDefinitionModel) (first : Datetime) (k : Nat) : Prop where
  /-- One execution for each of the first `k` occurrences, committed in their order. -/
  started : (db.startedFor id).map (fun e => some e.scheduledAt) =
    (List.range k).map (trigger.occurrence registry first)
  /-- The occurrence after them is the one stored; no row is stored when there is none. -/
  current : (triggerStateRow db.definitions id).map (·.nextRunAt) =
    trigger.occurrence registry first k
  /-- Each of them was there, and the plugin gave the one after it. -/
  followed : ∀ i < k, ∃ o, trigger.occurrence registry first i = some o ∧
    trigger.nextRunAt registry o = .ok (trigger.occurrence registry first (i + 1))

/-- Scheduling is exactly once, as far as the committed state shows. -/
structure ExactlyOnce (registry : TriggerRegistry) (initial : Database) (db : SchedulerDb) :
    Prop where
  schedule : ∀ id trigger state, triggerDefinitionRow initial.definitions id = some trigger →
    triggerStateRow initial.definitions id = some state →
    ∃ k, db.OnSchedule registry id trigger state.nextRunAt k
  /-- Nothing was started but for an enabled trigger with state, and of its own workflow. -/
  own : ∀ e ∈ db.log, ∃ trigger, triggerDefinitionRow initial.definitions e.triggerDefinitionId =
      some trigger ∧ trigger.enabled = true ∧
    (triggerStateRow initial.definitions e.triggerDefinitionId).isSome = true ∧
    e.workflowExecution.workflowDefinitionId = trigger.workflowDefinitionId ∧
    workflowRow db.executions e.workflowExecution.id =
      some (WorkflowExecutionMapper.workflowToModel e.workflowExecution)
  /-- The executions stored are those that were there and those started, each once. -/
  executions : db.executions.keys =
    initial.executions.keys ++ db.log.flatMap (·.workflowExecution.rowIds)
  /-- Of the definitions nothing has changed but trigger state, and none was added. -/
  definitions : ∀ k, (∀ id, k ≠ .chronologicalTriggerState id) →
    db.definitions.row k = initial.definitions.row k
  none_added : ∀ id, triggerStateRow initial.definitions id = none →
    triggerStateRow db.definitions id = none

/-- The law, and what is true of the transactions in flight. -/
structure Lawful (registry : TriggerRegistry) (initial : Database) (db : SchedulerDb) : Prop where
  law : ExactlyOnce registry initial db
  sound : ∀ t x, db.txns t = some x → x.phase.Sound registry db t

theorem lawful_init (registry : TriggerRegistry) (initial : Database) :
    Lawful registry initial { initial with } where
  law :=
    { schedule := fun id trigger state _ hstate =>
        ⟨0, rfl, by rw [hstate]; rfl, fun i hi => absurd hi (Nat.not_lt_zero i)⟩
      own := by simp
      executions := by simp
      definitions := fun _ _ => rfl
      none_added := fun _ h => h }
  sound := by simp

/-- What is committed stays, so the law does. -/
theorem ExactlyOnce.of_committed {initial : Database} (h : ExactlyOnce registry initial db)
    (hrows : db'.toDatabase = db.toDatabase) (hlog : db'.log = db.log) :
    ExactlyOnce registry initial db' := by
  have hdef : db'.definitions = db.definitions := congrArg Database.definitions hrows
  have hexe : db'.executions = db.executions := congrArg Database.executions hrows
  refine ⟨?_, by rw [hlog, hexe]; exact h.own, by rw [hlog, hexe]; exact h.executions,
    by rw [hdef]; exact h.definitions, by rw [hdef]; exact h.none_added⟩
  intro id trigger state ht hs
  obtain ⟨k, hk⟩ := h.schedule id trigger state ht hs
  exact ⟨k, by rw [startedFor, hlog]; exact hk.started, by rw [hdef]; exact hk.current,
    hk.followed⟩

/-- The transaction that a step moves is sound after it, and what the others hold is untouched. -/
theorem sound_setTxn (hsound : ∀ t x, db.txns t = some x → x.phase.Sound registry db t)
    {t : Nat} {now : Datetime} {phase : SchedulerPhase} (hphase : phase.Sound registry db t)
    (u : Nat) (x : SchedulerTxn) (hx : (db.setTxn t now phase).txns u = some x) :
    x.phase.Sound registry (db.setTxn t now phase) u := by
  by_cases hu : u = t
  · subst hu
    simp only [setTxn, Function.update_self, Option.some.injEq] at hx
    subst hx
    exact hphase.mono fun due hd => ⟨hd.locked, hd.state, hd.trigger⟩
  · simp only [setTxn, Function.update_of_ne hu] at hx
    exact (hsound u x hx).mono fun due hd => ⟨hd.locked, hd.state, hd.trigger⟩

/-- A lock that nobody else has takes nothing from anybody. -/
theorem held_lock {t u : Nat} {id : UUID} (hfree : ∀ u, db.locks id = some u → u = t)
    {due : DueChronologicalTrigger} (hd : db.Held u due) : (db.lock t id).Held u due := by
  refine ⟨?_, hd.state, hd.trigger⟩
  by_cases hid : due.triggerDefinitionId = id
  · have hu : u = t := hfree u (hid ▸ hd.locked)
    simp [lock, hid, hu]
  · simp [lock, Function.update_of_ne hid, hd.locked]

/-- The end of a transaction frees no lock of another. -/
theorem held_close {t u : Nat} (hu : u ≠ t) {due : DueChronologicalTrigger}
    (hd : db.Held u due) : (db.close t).Held u due := by
  refine ⟨?_, hd.state, hd.trigger⟩
  simp [close, hd.locked, hu]

/-- **The law is kept by a commit.** -/
theorem ExactlyOnce.published {initial : Database} (h : ExactlyOnce registry initial db)
    {t : Nat} {due : DueChronologicalTrigger} {next : Option Datetime}
    {e : WorkflowExecution} {definitions : DefinitionStore} {executions : ExecutionStore}
    (hheld : db.Held t due)
    (hnext : ChronologicalTriggerService.nextRunAt registry due.pluginType due.configuration
      due.nextRunAt = .ok next)
    (hwd : e.workflowDefinitionId = due.workflowDefinitionId)
    (hdefinitions : ChronologicalTriggerService.reschedule db.definitions
      due.triggerDefinitionId next = .ok definitions)
    (hexecutions : WorkflowExecutionRepository.create db.executions e = some executions)
    (hdb' : db'.toDatabase = { definitions, executions })
    (hlog' : db'.log = db.log ++
      [{ triggerDefinitionId := due.triggerDefinitionId
         scheduledAt := due.nextRunAt
         workflowExecution := e }]) :
    ExactlyOnce registry initial db' := by
  have hdef : db'.definitions = definitions := congrArg Database.definitions hdb'
  have hexe : db'.executions = executions := congrArg Database.executions hdb'
  obtain ⟨hstate', hframe⟩ := reschedule_spec hdefinitions
  obtain ⟨hkeys, -, hrow, hold⟩ := create_spec hexecutions
  obtain ⟨trigger, htrigger, henabled, hworkflow, htype, hconfiguration⟩ := hheld.trigger
  -- The definition of the trigger is the initial one, and so it had state from the start.
  have htrigger₀ : triggerDefinitionRow initial.definitions due.triggerDefinitionId =
      some trigger := by
    rw [← htrigger]
    exact (h.definitions (.trigger due.triggerDefinitionId) (by simp)).symm
  have hstate₀ : (triggerStateRow initial.definitions due.triggerDefinitionId).isSome = true := by
    by_contra hnone
    rw [Option.not_isSome_iff_eq_none] at hnone
    have := h.none_added _ hnone
    rw [hheld.state] at this
    simp at this
  refine ⟨?_, ?_, ?_, ?_, ?_⟩
  · intro id trigger' state ht hs
    obtain ⟨k, hk⟩ := h.schedule id trigger' state ht hs
    by_cases hid : id = due.triggerDefinitionId
    · subst hid
      rw [htrigger₀, Option.some.injEq] at ht
      subst ht
      have hcurrent : trigger.occurrence registry state.nextRunAt k = some due.nextRunAt := by
        rw [← hk.current, hheld.state]
        rfl
      have hstep : trigger.nextRunAt registry due.nextRunAt = .ok next := by
        rw [← hnext, TriggerDefinitionModel.nextRunAt, htype, hconfiguration]
      have hsucc := TriggerDefinitionModel.occurrence_succ hcurrent hstep
      refine ⟨k + 1, ?_, ?_, ?_⟩
      · rw [startedFor, hlog', List.filter_append, List.map_append, List.range_succ,
          List.map_append, ← hk.started]
        simp [startedFor, hcurrent]
      · rw [hdef, hstate', hsucc]
        cases next <;> rfl
      · intro i hi
        rcases Nat.lt_succ_iff_lt_or_eq.mp hi with hlt | heq
        · exact hk.followed i hlt
        · subst heq
          exact ⟨_, hcurrent, by rw [hsucc]; exact hstep⟩
    · refine ⟨k, ?_, ?_, hk.followed⟩
      · rw [startedFor, hlog', List.filter_append, ← hk.started, startedFor]
        have hne : ¬due.triggerDefinitionId = id := fun hc => hid hc.symm
        simp [hne]
      · rw [← hk.current, hdef]
        unfold triggerStateRow
        rw [hframe (.chronologicalTriggerState id) (by simpa using hid)]
  · intro e' he'
    rw [hlog', List.mem_append, List.mem_singleton] at he'
    rcases he' with he' | he'
    · obtain ⟨tr, htr, hen, hst, hw, hr⟩ := h.own e' he'
      exact ⟨tr, htr, hen, hst, hw, by rw [hexe]; exact hold _ _ hr⟩
    · subst he'
      exact ⟨trigger, htrigger₀, henabled, hstate₀, hwd.trans hworkflow, by rw [hexe]; exact hrow⟩
  · rw [hexe, hkeys, h.executions, hlog', List.flatMap_append, List.append_assoc]
    simp
  · intro k hk
    rw [hdef, hframe k (hk _), h.definitions k hk]
  · intro id hnone
    have hid : id ≠ due.triggerDefinitionId := by
      intro hc
      rw [← hc, hnone] at hstate₀
      simp at hstate₀
    rw [hdef]
    unfold triggerStateRow
    rw [hframe (.chronologicalTriggerState id) (by simpa using hid)]
    exact h.none_added id hnone

/-- One step of the system keeps the law. -/
theorem Lawful.step {initial : Database} (h : Lawful registry initial db)
    {action : SchedulerAction} (hs : db.step registry action = some db') :
    Lawful registry initial db' := by
  obtain ⟨t, hmoved⟩ := step_moved h.sound hs
  cases hmoved with
  | on now phase hphase =>
      exact ⟨h.law.of_committed rfl rfl, sound_setTxn h.sound hphase⟩
  | locked id now phase hfree hphase =>
      refine ⟨h.law.of_committed rfl rfl, sound_setTxn ?_ hphase⟩
      exact fun u x hx => (h.sound u x hx).mono fun due hd => held_lock hfree hd
  | closed =>
      refine ⟨h.law.of_committed rfl rfl, ?_⟩
      intro u x hx
      by_cases hu : u = t
      · simp [close, hu] at hx
      · simp only [close, Function.update_of_ne hu] at hx
        exact (h.sound u x hx).mono fun due hd => held_close hu hd
  | published now due next e definitions executions htxn hdefinitions hexecutions =>
      obtain ⟨hheld, hnext, hwd⟩ := h.sound t _ htxn
      refine ⟨h.law.published hheld hnext hwd hdefinitions hexecutions rfl rfl, ?_⟩
      intro u x hx
      by_cases hu : u = t
      · simp [close, hu] at hx
      · simp only [close, Function.update_of_ne hu] at hx
        refine (h.sound u x hx).mono fun due' hd => ?_
        -- Two transactions hold the locks of two triggers.
        have hid : due'.triggerDefinitionId ≠ due.triggerDefinitionId := by
          intro hc
          have hlock := hd.locked
          rw [hc, hheld.locked] at hlock
          exact hu (Option.some.inj hlock).symm
        obtain ⟨-, hframe⟩ := reschedule_spec hdefinitions
        have hclosed := held_close hu hd
        refine ⟨hclosed.locked, ?_, ?_⟩
        · unfold triggerStateRow
          rw [hframe (.chronologicalTriggerState due'.triggerDefinitionId) (by simpa using hid)]
          exact hd.state
        · unfold triggerDefinitionRow
          rw [hframe (.trigger due'.triggerDefinitionId) (by simp)]
          exact hd.trigger

theorem Reachable.lawful {initial : Database} (h : Reachable registry initial db) :
    Lawful registry initial db := by
  induction h with
  | init => exact lawful_init registry initial
  | step _ action hs ih => exact ih.step hs

end SchedulerDb

/--
**Scheduling is exactly once.**  Whatever the schedulers did, and wherever they were cut
off, every trigger stands at some occurrence of its schedule, and one execution was
committed for each occurrence before it and for nothing else.
-/
theorem scheduling_exactly_once {registry : TriggerRegistry} {initial : Database}
    {db : SchedulerDb} (h : SchedulerDb.Reachable registry initial db) :
    SchedulerDb.ExactlyOnce registry initial db :=
  h.lawful.law

/-- A workflow of one task with a trigger for every minute. -/
def sampleDefinitionRows : List (Sigma DefinitionRow) :=
  [⟨.workflow 1, { name := "report", description := "", enabled := true }⟩,
    ⟨.task 2,
      { workflowDefinitionId := 1, key := "write", pluginType := "produce_value"
        configuration := [], maxTries := 1 }⟩,
    ⟨.trigger 3,
      { workflowDefinitionId := 1, pluginType := "interval"
        configuration := [("interval_seconds", .int 60)], enabled := true }⟩,
    ⟨.chronologicalTriggerState 3, { nextRunAt := 0 }⟩]

def sampleDatabase : Database where
  definitions := .ofRows sampleDefinitionRows
  executions := .empty

/-- Two schedulers after one due trigger, and one of them once more a minute later. -/
def sampleSchedulerSteps : List SchedulerAction :=
  [.begin 0 5, .begin 1 6, .select 0, .select 1, .row 1, .row 0, .advance 1,
    .create 1 ⟨10, fun i => i + 20⟩ 7, .row 0, .commit 1,
    .begin 0 60000000, .select 0, .row 0, .advance 0,
    .create 0 ⟨11, fun i => i + 30⟩ 60000001, .commit 0]

/-- The states along a list of steps are reachable. -/
theorem SchedulerDb.Reachable.steps {registry : TriggerRegistry} {initial : Database} :
    ∀ {actions : List SchedulerAction} {db db' : SchedulerDb}, Reachable registry initial db →
      db.steps registry actions = some db' → Reachable registry initial db' := by
  intro actions
  induction actions with
  | nil =>
      intro db db' h hs
      simp only [SchedulerDb.steps, List.foldlM_nil, pure, Option.some.injEq] at hs
      exact hs ▸ h
  | cons action rest ih =>
      intro db db' h hs
      simp only [SchedulerDb.steps, List.foldlM_cons] at hs
      obtain ⟨mid, hmid, hrest⟩ := Option.bind_eq_some_iff.mp hs
      exact ih (.step h action hmid) hrest

/-- The sample database after some steps of schedulers on it. -/
def schedulersAfter (actions : List SchedulerAction) : SchedulerDb :=
  (SchedulerDb.steps TriggerRegistry.discovered { sampleDatabase with } actions).getD
    { sampleDatabase with }

theorem reachable_schedulersAfter {actions : List SchedulerAction}
    (h : (SchedulerDb.steps TriggerRegistry.discovered { sampleDatabase with }
      actions).isSome = true) :
    SchedulerDb.Reachable TriggerRegistry.discovered sampleDatabase (schedulersAfter actions) := by
  obtain ⟨db, hdb⟩ := Option.isSome_iff_exists.mp h
  unfold schedulersAfter
  rw [hdb]
  exact SchedulerDb.Reachable.steps .init hdb

theorem scheduling_exactly_once_sample :
    ((schedulersAfter sampleSchedulerSteps).startedFor 3).map (·.scheduledAt) = [0, 60000000] ∧
      (schedulersAfter sampleSchedulerSteps).executions.keys =
        [.workflow 10, .task 22, .workflow 11, .task 32] ∧
      SchedulerDb.ExactlyOnce TriggerRegistry.discovered sampleDatabase
        (schedulersAfter sampleSchedulerSteps) :=
  ⟨rfl, rfl, scheduling_exactly_once (reachable_schedulersAfter rfl)⟩

end AutomationPlatform
