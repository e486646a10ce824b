/-
Why there are the executions there are.

A run of the system is put on record: for every execution that is stored, who asked for it, a
client or an occurrence of a trigger.  Nothing is stored off the record, and nothing on record is
lost.  And what is on record for a trigger is its schedule: the multiples of its interval from
the moment it was created, one after the other, whatever else is created, deleted, started and
executed in between.

A trigger that something was started for stays, because the execution refers to its definition.
So a schedule can only end before it has begun.
-/
import AutomationPlatform.Proofs.System.Starts
import AutomationPlatform.Proofs.Triggers.CatchUp

namespace AutomationPlatform

open WorkflowDefinitionRepository WorkflowDefinitionService

/-! ### The record -/

/-- What an execution was started for. -/
inductive Reason where
  | request
  | occurrence (triggerDefinitionId : UUID) (scheduledAt : Datetime)
  deriving DecidableEq

/-- The occurrence of a trigger that this is, if it is one. -/
def Reason.occurrenceOf (triggerDefinitionId : UUID) : Reason → Option Datetime
  | .request => none
  | .occurrence id scheduledAt => if id = triggerDefinitionId then some scheduledAt else none

theorem Reason.occurrenceOf_eq_some {trigger : UUID} {reason : Reason} {o : Datetime} :
    reason.occurrenceOf trigger = some o ↔ reason = .occurrence trigger o := by
  cases reason with
  | request => simp [Reason.occurrenceOf]
  | occurrence id scheduledAt => simp [Reason.occurrenceOf]

/-- An execution that was stored, and what the clock said when it was decided. -/
structure StartRecord where
  workflowExecutionId : UUID
  workflowDefinitionId : UUID
  reason : Reason
  now : Datetime
  deriving DecidableEq

/-- What a step has to put on record once it commits. -/
def SystemAction.startRecord (x : System) : SystemAction → Option StartRecord
  | .start _ draws now workflowDefinitionId =>
      some
        { workflowExecutionId := draws.workflowExecutionId
          workflowDefinitionId
          reason := .request
          now }
  | .processNextDue _ draws now _ locked =>
      (ChronologicalTriggerRepository.getNextDueUnlocked x.definitions now locked).map fun due =>
        { workflowExecutionId := draws.workflowExecutionId
          workflowDefinitionId := due.workflowDefinitionId
          reason := .occurrence due.triggerDefinitionId due.nextRunAt
          now }
  | _ => none

/-- Whether a step may start something. -/
def SystemAction.starts : SystemAction → Bool
  | .start _ _ _ _ => true
  | .processNextDue _ _ _ _ _ => true
  | _ => false

/-- The occurrences of a trigger that are on record. -/
def occurrencesOf (triggerDefinitionId : UUID) (records : List StartRecord) : List Datetime :=
  records.filterMap (·.reason.occurrenceOf triggerDefinitionId)

theorem occurrencesOf_append (trigger : UUID) (records more : List StartRecord) :
    occurrencesOf trigger (records ++ more) =
      occurrencesOf trigger records ++ occurrencesOf trigger more :=
  List.filterMap_append

/-- The workflow executions that are stored. -/
def workflowIds (s : ExecutionStore) : List UUID :=
  s.keys.filterMap RowId.workflowExecutionId

theorem mem_workflowIds {s : ExecutionStore} {id : UUID} :
    id ∈ workflowIds s ↔ (workflowRow s id).isSome = true := by
  unfold workflowIds workflowRow
  rw [List.mem_filterMap, ← Sql.Store.mem_keys]
  constructor
  · rintro ⟨k, hk, hid⟩
    cases k with
    | task => simp [RowId.workflowExecutionId] at hid
    | workflow =>
        obtain rfl := Option.some.inj hid
        exact hk
  · intro hk
    exact ⟨_, hk, rfl⟩

theorem workflowIds_nodup (s : ExecutionStore) : (workflowIds s).Nodup := by
  refine s.nodup.filterMap fun j k i hj hk => ?_
  cases j with
  | task => simp [RowId.workflowExecutionId] at hj
  | workflow =>
      cases k with
      | task => simp [RowId.workflowExecutionId] at hk
      | workflow =>
          simp only [RowId.workflowExecutionId, Option.mem_def, Option.some.injEq] at hj hk
          rw [hj, hk]

/-- The same executions are stored, if each is stored in both. -/
theorem workflowIds_perm {s s' : ExecutionStore} (h : ∀ id,
    (workflowRow s' id).isSome = true ↔ (workflowRow s id).isSome = true) :
    (workflowIds s').Perm (workflowIds s) :=
  (List.perm_ext_iff_of_nodup (workflowIds_nodup s') (workflowIds_nodup s)).mpr fun id => by
    rw [mem_workflowIds, mem_workflowIds, h id]

namespace System

/-- What a step puts on record: an execution that was not stored before it and is after it. -/
def recorded (x x' : System) (action : SystemAction) : List StartRecord :=
  (action.startRecord x).toList.filter fun r =>
    (workflowRow x.executions r.workflowExecutionId).isNone &&
      (workflowRow x'.executions r.workflowExecutionId).isSome

/-- A run and its record. -/
inductive Records (leaseTimeout : Timedelta) (allowed : SystemAction → Prop) (x : System) :
    List StartRecord → System → Prop
  | refl : Records leaseTimeout allowed x [] x
  | step {records : List StartRecord} {y z : System}
      (h : Records leaseTimeout allowed x records y) (action : SystemAction)
      (hvalid : action.Valid y) (hallowed : allowed action)
      (hs : y.step leaseTimeout action = some z) :
      Records leaseTimeout allowed x (records ++ y.recorded z action) z

/-- Some steps, and what they put on record. -/
def record (leaseTimeout : Timedelta) (x : System) (actions : List SystemAction) :
    Option (List StartRecord × System) :=
  actions.foldlM (fun run action => (run.2.step leaseTimeout action).map fun z =>
    (run.1 ++ run.2.recorded z action, z)) ([], x)

variable {leaseTimeout : Timedelta} {allowed : SystemAction → Prop} {x x' y : System}
  {action : SystemAction} {records : List StartRecord}

theorem Records.of_record {actions : List SystemAction}
    (hactions : ∀ a ∈ actions, allowed a ∧ ∀ z, a.Valid z)
    (h : x.record leaseTimeout actions = some (records, y)) :
    x.Records leaseTimeout allowed records y := by
  induction actions using List.reverseRecOn generalizing records y with
  | nil =>
      simp only [record, List.foldlM_nil, Option.pure_def, Option.some.injEq, Prod.mk.injEq] at h
      obtain ⟨rfl, rfl⟩ := h
      exact .refl
  | append_singleton rest a ih =>
      simp only [record, List.foldlM_append, Option.bind_eq_bind, Option.bind_eq_some_iff] at h
      obtain ⟨mid, hmid, hlast⟩ := h
      simp only [List.foldlM_cons, List.foldlM_nil, bind_pure, Option.map_eq_some_iff] at hlast
      obtain ⟨z, hz, hrun⟩ := hlast
      obtain ⟨rfl, rfl⟩ := Prod.mk.inj hrun
      obtain ⟨hallowed, hvalid⟩ := hactions a (by simp)
      exact .step (ih (fun b hb => hactions b (by simp [hb])) hmid) a (hvalid mid.2) hallowed hz

theorem Records.meanwhile (h : x.Records leaseTimeout allowed records y) :
    x.Meanwhile leaseTimeout allowed y := by
  induction h with
  | refl => exact .refl
  | step _ action hvalid hallowed hs ih => exact .step ih action hvalid hallowed hs

/-- Nothing has happened, nothing is on record. -/
theorem recorded_self (x : System) (action : SystemAction) : x.recorded x action = [] := by
  refine List.filter_eq_nil_iff.mpr fun r _ => ?_
  cases workflowRow x.executions r.workflowExecutionId <;> simp

theorem recorded_none (h : action.starts = false) : x.recorded x' action = [] := by
  cases action with
  | start => simp [SystemAction.starts] at h
  | processNextDue => simp [SystemAction.starts] at h
  | _ => rfl

/-! ### What a step puts on record -/

/-- An execution of a stored, enabled definition has been stored. -/
structure Stores (x x' : System) (definitions : DefinitionStore) (draws : Draws) (now : Datetime)
    (id : UUID) (wd : WorkflowDefinition) : Prop where
  load : WorkflowDefinitionRepository.load definitions id = some wd
  enabled : wd.enabled = true
  valid : wd.Valid
  definitions : x'.definitions = definitions
  inserted : x.executions.insert? (WorkflowExecutionMapper.workflowToRows
    (WorkflowStartService.compiled draws now wd)) = some x'.executions

/-- The two steps that start something. -/
inductive Commits (x x' : System) : SystemAction → Prop
  | requested (publisher : Nat) (draws : Draws) (now : Datetime) (id : UUID)
      (wd : WorkflowDefinition) (hstores : x.Stores x' x.definitions draws now id wd) :
      Commits x x' (.start publisher draws now id)
  | scheduled (publisher : Nat) (draws : Draws) (now createdAt : Datetime) (locked : List UUID)
      (due : DueChronologicalTrigger) (next : Option Datetime) (wd : WorkflowDefinition)
      (hdue : ChronologicalTriggerRepository.getNextDueUnlocked x.definitions now locked =
        some due)
      (hnext : ChronologicalTriggerService.nextRunAt .discovered due.pluginType due.configuration
        due.nextRunAt = .ok next)
      (hreschedule : ChronologicalTriggerService.reschedule x.definitions due.triggerDefinitionId
        next = .ok x'.definitions)
      (hstores : x.Stores x' x'.definitions draws createdAt due.workflowDefinitionId wd) :
      Commits x x' (.processNextDue publisher draws now createdAt locked)

/-- What a start has prepared is stored, or nothing is. -/
theorem stores_of_commitStart {publisher : Nat} {definitions : DefinitionStore} {draws : Draws}
    {now : Datetime} {id : UUID} {workflowExecution : WorkflowExecution} {rootTaskIds : List UUID}
    (hvalidated : Validated definitions)
    (hprepare : WorkflowStartService.prepare definitions draws now id =
      .ok (workflowExecution, rootTaskIds))
    (h : x.commitStart publisher definitions workflowExecution rootTaskIds = some x') :
    x' = x ∨ ∃ wd, x.Stores x' definitions draws now id wd := by
  rcases commitStart_cases h with rfl | ⟨hdefinitions, hinserted⟩
  · exact Or.inl rfl
  · obtain ⟨wd, hload, henabled, hcreate⟩ := WorkflowStartService.prepare_ok hprepare
    have hvalid := hvalidated.valid hload
    obtain ⟨rfl, -⟩ := WorkflowStartService.compiled_of_create hvalid.linked hcreate
    exact Or.inr ⟨wd, hload, henabled, hvalid, hdefinitions, hinserted⟩

/-- A step that may start something does nothing, or commits. -/
theorem Sound.commits_of_step (hx : x.Sound leaseTimeout) (hstarts : action.starts = true)
    (hs : x.step leaseTimeout action = some x') : x' = x ∨ x.Commits x' action := by
  cases action with
  | start publisher draws now id =>
      simp only [step] at hs
      split at hs
      · exact Or.inl (Option.some.inj hs).symm
      · rename_i hprepare
        rcases stores_of_commitStart hx.definitions hprepare hs with rfl | ⟨wd, hstores⟩
        · exact Or.inl rfl
        · exact Or.inr (.requested publisher draws now id wd hstores)
  | processNextDue publisher draws now createdAt locked =>
      simp only [step] at hs
      split at hs
      · exact Or.inl (Option.some.inj hs).symm
      · exact Or.inl (Option.some.inj hs).symm
      · rename_i hprepared
        obtain ⟨due, next, hdue, hnext, hreschedule, hprepare⟩ :=
          ChronologicalTriggerService.prepareNextDue_ok hprepared
        have hvalidated := hx.definitions.reschedule hreschedule
        rcases stores_of_commitStart hvalidated hprepare hs with rfl | ⟨wd, hstores⟩
        · exact Or.inl rfl
        · obtain rfl := hstores.definitions
          exact Or.inr (.scheduled publisher draws now createdAt locked due next wd hdue hnext
            hreschedule hstores)
  | _ => simp [SystemAction.starts] at hstarts

/-- Any other step stores no execution. -/
theorem Sound.workflowIds_of_step (hx : x.Sound leaseTimeout) (hstarts : action.starts = false)
    (hs : x.step leaseTimeout action = some x') :
    (workflowIds x'.executions).Perm (workflowIds x.executions) := by
  by_cases hexecutes : action.executes = true
  · obtain ⟨a, platform, hother, -, hrun, rfl⟩ := ran_of_step hexecutes hs
    have hevolved := hx.platform.evolved hother hrun
    refine workflowIds_perm fun id => ⟨hevolved.rows (.workflow id), fun hid => ?_⟩
    obtain ⟨w, hw⟩ := Option.isSome_iff_exists.mp hid
    obtain ⟨w', hw', -⟩ := workflowRow_le hevolved.le hw
    exact Option.isSome_of_eq_some hw'
  · cases action with
    | create draws now request =>
        obtain rfl := Option.some.inj hs
        cases WorkflowDefinitionService.create .discovered .discovered draws now x.database
          request <;> exact .refl _
    | delete id =>
        obtain rfl := Option.some.inj hs
        cases WorkflowDefinitionService.delete x.database id <;> exact .refl _
    | start => simp [SystemAction.starts] at hstarts
    | processNextDue => simp [SystemAction.starts] at hstarts
    | report => exact absurd rfl hexecutes
    | run => exact absurd rfl hexecutes

section Stores

variable {definitions : DefinitionStore} {draws : Draws} {now : Datetime} {id : UUID}
  {wd : WorkflowDefinition}

/-- The execution is one more, under an identifier that was free. -/
theorem Stores.workflowIds (h : x.Stores x' definitions draws now id wd) :
    (workflowIds x'.executions).Perm
      (workflowIds x.executions ++ [draws.workflowExecutionId]) := by
  obtain ⟨-, -, hkeys, -⟩ := Sql.Store.insert?_cases h.inserted
  have htasks : (wd.taskDefinitions.map fun d => RowId.task (draws.taskExecutionId d.id)).filterMap
      RowId.workflowExecutionId = [] := by
    rw [List.filterMap_map]
    exact List.filterMap_eq_nil_iff.mpr fun d _ => rfl
  unfold AutomationPlatform.workflowIds
  rw [hkeys, List.filterMap_append, keys_compiled, List.filterMap_cons, htasks]
  exact .refl _

theorem Stores.fresh (h : x.Stores x' definitions draws now id wd) :
    workflowRow x.executions draws.workflowExecutionId = none :=
  (created_of_insert h.valid h.inserted).fresh

theorem Stores.row (h : x.Stores x' definitions draws now id wd) :
    ∃ w, workflowRow x'.executions draws.workflowExecutionId = some w ∧
      w.workflowDefinitionId = id := by
  refine ⟨_, Sql.Store.row_insert?_new h.inserted (mem_compiled_workflow.mpr ⟨rfl, rfl⟩), ?_⟩
  obtain ⟨m, -, rfl⟩ := load_cases h.load
  rfl

end Stores

/-- What commits is on record. -/
theorem Commits.recorded (h : x.Commits x' action) : ∃ r, action.startRecord x = some r ∧
    x.recorded x' action = [r] ∧
    (workflowIds x'.executions).Perm (workflowIds x.executions ++ [r.workflowExecutionId]) ∧
    (∃ w, workflowRow x'.executions r.workflowExecutionId = some w ∧
      w.workflowDefinitionId = r.workflowDefinitionId) ∧
    ∃ wd, load x'.definitions r.workflowDefinitionId = some wd ∧ wd.enabled = true := by
  cases h with
  | requested publisher draws now id wd hstores =>
      obtain ⟨w, hw, hid⟩ := hstores.row
      refine ⟨_, rfl, ?_, hstores.workflowIds, ⟨w, hw, hid⟩, wd,
        hstores.definitions ▸ hstores.load, hstores.enabled⟩
      unfold System.recorded
      simp [SystemAction.startRecord, hstores.fresh, hw]
  | scheduled publisher draws now createdAt locked due next wd hdue _ _ hstores =>
      obtain ⟨w, hw, hid⟩ := hstores.row
      refine ⟨_, by rw [SystemAction.startRecord, hdue]; rfl, ?_, hstores.workflowIds,
        ⟨w, hw, hid⟩, wd, hstores.load, hstores.enabled⟩
      unfold System.recorded
      simp [SystemAction.startRecord, hdue, hstores.fresh, hw]

/-! ### The executions and the record -/

/-- What is stored is what was there and what is on record, and of each execution on record the
definition is there and enabled. -/
structure Accounts (x : System) (records : List StartRecord) (y : System) : Prop where
  workflowIds : (workflowIds y.executions).Perm
    (workflowIds x.executions ++ records.map (·.workflowExecutionId))
  rows : ∀ r ∈ records, ∃ w wd, workflowRow y.executions r.workflowExecutionId = some w ∧
    w.workflowDefinitionId = r.workflowDefinitionId ∧
    load y.definitions r.workflowDefinitionId = some wd ∧ wd.enabled = true

theorem Accounts.refl (x : System) : x.Accounts [] x :=
  ⟨by simp, by simp⟩

/-- What is on record stays. -/
theorem Accounts.later {z : System} (h : x.Accounts records y) (hy : y.Reachable leaseTimeout)
    (hvalid : action.Valid y) (hs : y.step leaseTimeout action = some z) :
    ∀ r ∈ records, ∃ w wd, workflowRow z.executions r.workflowExecutionId = some w ∧
      w.workflowDefinitionId = r.workflowDefinitionId ∧
      load z.definitions r.workflowDefinitionId = some wd ∧ wd.enabled = true := by
  intro r hr
  obtain ⟨w, wd, hw, hid, hload, henabled⟩ := h.rows r hr
  have hlater := hy.sound.later_of_moves (moves_of_step hvalid hs)
  obtain ⟨w', hw', hev⟩ := workflowRow_le hlater.le hw
  have hid' := hev.workflowDefinitionId.trans hid
  have hpresent : y.Present r.workflowDefinitionId := hid ▸ hy.faithful.workflow _ w hw
  have hpresent' : z.Present r.workflowDefinitionId :=
    hid' ▸ (hy.step action hvalid hs).faithful.workflow _ w' hw'
  have hsame := hy.sound.same_of_step hvalid hs hpresent hpresent'
  obtain ⟨wd', hload', heq⟩ := hsame.toSameDefinition.load hy.sound.definitions hload
  exact ⟨w', wd', hw', hid', hload', heq.enabled.trans henabled⟩

theorem Accounts.step {z : System} (h : x.Accounts records y) (hy : y.Reachable leaseTimeout)
    (hvalid : action.Valid y) (hs : y.step leaseTimeout action = some z) :
    x.Accounts (records ++ y.recorded z action) z := by
  by_cases hstarts : action.starts = true
  · rcases hy.sound.commits_of_step hstarts hs with rfl | hcommits
    · rw [recorded_self, List.append_nil]
      exact h
    · obtain ⟨r, -, hrecorded, hids, ⟨w, hw, hid⟩, wd, hload, henabled⟩ := hcommits.recorded
      rw [hrecorded]
      refine ⟨?_, ?_⟩
      · rw [List.map_append, ← List.append_assoc]
        exact hids.trans (h.workflowIds.append_right _)
      · intro q hq
        rcases List.mem_append.mp hq with hq | hq
        · exact h.later hy hvalid hs q hq
        · obtain rfl := List.mem_singleton.mp hq
          exact ⟨w, wd, hw, hid, hload, henabled⟩
  · have hstarts : action.starts = false := by simpa using hstarts
    rw [recorded_none hstarts, List.append_nil]
    exact ⟨(hy.sound.workflowIds_of_step hstarts hs).trans h.workflowIds, h.later hy hvalid hs⟩

theorem Records.accounts (h : x.Records leaseTimeout allowed records y)
    (hx : x.Reachable leaseTimeout) : x.Accounts records y := by
  induction h with
  | refl => exact .refl x
  | step h action hvalid _ hs ih => exact ih.step (h.meanwhile.reachable hx) hvalid hs

/-! ### A trigger and the record -/

/-- A trigger is where its record says: the occurrences on record are the first ones of its
schedule, and the one after them is the next to come, as long as the trigger is there. -/
structure OnSchedule (trigger : UUID) (m : TriggerDefinitionModel) (first : Datetime)
    (records : List StartRecord) (y : System) : Prop where
  occurrences : occurrencesOf trigger records =
    (List.range (occurrencesOf trigger records).length).map fun i : Nat => first + i * m.interval
  stands : triggerDefinitionRow y.definitions trigger = some m ∧
      triggerStateRow y.definitions trigger =
        some { nextRunAt := first + (occurrencesOf trigger records).length * m.interval } ∨
    triggerDefinitionRow y.definitions trigger = none ∧ occurrencesOf trigger records = []
  own : ∀ r ∈ records, ∀ o, r.reason = .occurrence trigger o →
    r.workflowDefinitionId = m.workflowDefinitionId ∧ o ≤ r.now ∧ m.enabled = true

end System

/-- The identifiers of a definition and of its triggers are not given to another one. -/
def SystemAction.SparesAll (draws : DefinitionDraws) : SystemAction → Prop
  | .create other _ _ => other.workflowDefinitionId ≠ draws.workflowDefinitionId ∧
      ∀ m n, other.triggerDefinitionId m ≠ draws.triggerDefinitionId n
  | _ => True

theorem SystemAction.sparesAll_of_creates {action : SystemAction} (h : action.creates = false)
    (draws : DefinitionDraws) : action.SparesAll draws := by
  cases action with
  | create => simp [SystemAction.creates] at h
  | _ => trivial

theorem SystemAction.SparesAll.spares {draws : DefinitionDraws} (action : SystemAction)
    (h : action.SparesAll draws) : action.Spares draws.workflowDefinitionId := by
  cases action with
  | create => exact h.1
  | _ => trivial

namespace System

variable {leaseTimeout : Timedelta} {x y z : System} {action : SystemAction}
  {records : List StartRecord} {trigger : UUID} {m : TriggerDefinitionModel} {first : Datetime}
  {draws : DefinitionDraws}

/-- A step that leaves the trigger alone, and puts nothing on record for it. -/
theorem OnSchedule.kept (h : OnSchedule trigger m first records y) {more : List StartRecord}
    (hmore : occurrencesOf trigger more = [])
    (hreasons : ∀ r ∈ more, ∀ o, r.reason ≠ .occurrence trigger o)
    (hheld : Held trigger y.definitions z.definitions) :
    OnSchedule trigger m first (records ++ more) z := by
  have hsame : occurrencesOf trigger (records ++ more) = occurrencesOf trigger records := by
    rw [occurrencesOf_append, hmore, List.append_nil]
  refine ⟨?_, ?_, ?_⟩
  · rw [hsame]
    exact h.occurrences
  · rw [hsame, hheld.definition, hheld.state]
    exact h.stands
  · intro r hr o ho
    rcases List.mem_append.mp hr with hr | hr
    · exact h.own r hr o ho
    · exact absurd ho (hreasons r hr o)

/-- An occurrence that is due is put on record, and the trigger moves on by its interval. -/
theorem OnSchedule.moved (h : OnSchedule trigger m first records y) (hy : y.Sound leaseTimeout)
    {now : Datetime} {due : DueChronologicalTrigger} {next : Option Datetime} {r : StartRecord}
    (hdue : ChronologicalTriggerRepository.dueRow y.definitions now trigger = some due)
    (hnext : ChronologicalTriggerService.nextRunAt .discovered due.pluginType due.configuration
      due.nextRunAt = .ok next)
    (hreschedule : ChronologicalTriggerService.reschedule y.definitions trigger next =
      .ok z.definitions)
    (hreason : r.reason = .occurrence trigger due.nextRunAt)
    (hid : r.workflowDefinitionId = due.workflowDefinitionId) (hnow : r.now = now) :
    OnSchedule trigger m first (records ++ [r]) z := by
  obtain ⟨-, hle, hstate, m', hm', henabled, hworkflow, hplugin, hconfiguration⟩ := dueRow_spec hdue
  rcases h.stands with ⟨hm, hstands⟩ | ⟨hnone, -⟩
  · obtain rfl := Option.some.inj (hm.symm.trans hm')
    have ho : due.nextRunAt = first + (occurrencesOf trigger records).length * m.interval := by
      rw [hstands] at hstate
      exact (congrArg ChronologicalTriggerStateModel.nextRunAt (Option.some.inj hstate)).symm
    rw [hplugin, hconfiguration] at hnext
    obtain rfl := (hy.definitions.accepted.interval hm).2 _ _ hnext
    obtain ⟨hstate', hothers⟩ := reschedule_spec hreschedule
    have happend : occurrencesOf trigger (records ++ [r]) =
        occurrencesOf trigger records ++ [due.nextRunAt] := by
      rw [occurrencesOf_append]
      simp [occurrencesOf, hreason, Reason.occurrenceOf]
    have hlength : (occurrencesOf trigger (records ++ [r])).length =
        (occurrencesOf trigger records).length + 1 := by
      rw [happend, List.length_append, List.length_singleton]
    refine ⟨?_, Or.inl ⟨?_, ?_⟩, ?_⟩
    · rw [hlength, List.range_succ, List.map_append, ← h.occurrences, happend, ho]
      rfl
    · exact (hothers (.trigger trigger) (by simp)).trans hm
    · rw [hstate', hlength, ho]
      simp only [Option.map_some, Nat.cast_add, Nat.cast_one]
      rw [add_mul, one_mul, add_assoc]
    · intro q hq o hqo
      rcases List.mem_append.mp hq with hq | hq
      · exact h.own q hq o hqo
      · obtain rfl := List.mem_singleton.mp hq
        obtain ⟨-, rfl⟩ := Reason.occurrence.inj (hqo.symm.trans hreason)
        exact ⟨hid.trans hworkflow, hnow ▸ hle, henabled⟩
  · rw [hnone] at hm'
    simp at hm'

/-- What a deletion leaves of a trigger: everything, or nothing, and then nothing was started. -/
theorem OnSchedule.deleted (h : OnSchedule trigger m first records y)
    (haccounts : x.Accounts records y) {id : UUID} {db : Database}
    (hunexecuted : Unexecuted y.executions y.definitions id)
    (hdeleted : WorkflowDefinitionService.Deleted y.database db id)
    (hz : z.definitions = db.definitions) : OnSchedule trigger m first records z := by
  by_cases howned : RowOf y.definitions id (.trigger trigger)
  · have hgone : triggerDefinitionRow z.definitions trigger = none := by
      rw [hz]
      exact hdeleted.owned (.trigger trigger) howned
    obtain ⟨m', hm', hid⟩ := howned
    have hnone : occurrencesOf trigger records = [] := by
      by_contra hne
      obtain ⟨o, ho⟩ := List.exists_mem_of_ne_nil _ hne
      obtain ⟨r, hr, hreason⟩ := List.mem_filterMap.mp ho
      obtain ⟨hworkflow, -⟩ := h.own r hr o (Reason.occurrenceOf_eq_some.mp hreason)
      obtain ⟨w, -, hw, hwid, -⟩ := haccounts.rows r hr
      rcases h.stands with ⟨hm, -⟩ | ⟨-, hnone⟩
      · obtain rfl := Option.some.inj (hm.symm.trans hm')
        exact hunexecuted.1 (mem_executedWorkflows.mpr
          ⟨_, w, hw, hwid.trans (hworkflow.trans hid)⟩)
      · exact hne hnone
    exact ⟨h.occurrences, Or.inr ⟨hgone, hnone⟩, h.own⟩
  · have hheld : Held trigger y.definitions z.definitions := by
      rw [hz]
      exact ⟨hdeleted.others (.trigger trigger) howned,
        hdeleted.others (.chronologicalTriggerState trigger) howned⟩
    exact (List.append_nil records) ▸ h.kept rfl (by simp) hheld

/-- A step that starts nothing. -/
theorem OnSchedule.redefined (h : OnSchedule trigger m first records y)
    (haccounts : x.Accounts records y) (hy : y.Sound leaseTimeout) (hvalid : action.Valid y)
    (hspares : action.SparesAll draws) (htrigger : ∃ n, draws.triggerDefinitionId n = trigger)
    (hstarts : action.starts = false) (hs : y.step leaseTimeout action = some z) :
    OnSchedule trigger m first records z := by
  have hconsistent := consistent_executions hy.definitions.consistent y.database.executions
  have hkept : Held trigger y.definitions z.definitions → OnSchedule trigger m first records z :=
    fun hheld => (List.append_nil records) ▸ h.kept rfl (by simp) hheld
  have hstep := redefines_of_step hs
  generalize hz : z.definitions = s at hstep hkept
  cases hstep with
  | same => exact hkept ⟨rfl, rfl⟩
  | created other now request r hcreate =>
      obtain ⟨-, resolved, hcreated⟩ := create_cases hconsistent hvalid hcreate
      have hpart : ¬ ∃ t ∈ (requested other request).triggerDefinitions, t.id = trigger := by
        rintro ⟨t, ht, rfl⟩
        obtain ⟨k, -, rfl⟩ := List.mem_map.mp ht
        obtain ⟨n, hn⟩ := htrigger
        exact hspares.2 k.2 n hn.symm
      exact hkept ⟨hcreated.added.others (.trigger trigger) hpart,
        hcreated.added.others (.chronologicalTriggerState trigger) hpart⟩
  | deleted id db hdelete =>
      rcases delete_cases hconsistent hdelete with rfl | ⟨hunexecuted, hdeleted, -⟩
      · exact hkept ⟨rfl, rfl⟩
      · exact h.deleted haccounts hunexecuted hdeleted hz
  | rescheduled => simp [SystemAction.starts] at hstarts

theorem OnSchedule.step (h : OnSchedule trigger m first records y)
    (haccounts : x.Accounts records y) (hy : y.Sound leaseTimeout) (hvalid : action.Valid y)
    (hspares : action.SparesAll draws) (htrigger : ∃ n, draws.triggerDefinitionId n = trigger)
    (hs : y.step leaseTimeout action = some z) :
    OnSchedule trigger m first (records ++ y.recorded z action) z := by
  by_cases hstarts : action.starts = true
  · rcases hy.commits_of_step hstarts hs with rfl | hcommits
    · rw [recorded_self, List.append_nil]
      exact h
    · obtain ⟨r, hr, hrecorded, -⟩ := hcommits.recorded
      rw [hrecorded]
      cases hcommits with
      | requested publisher draws now id wd hstores =>
          obtain rfl := Option.some.inj hr
          refine h.kept rfl (by simp) ?_
          rw [hstores.definitions]
          exact ⟨rfl, rfl⟩
      | scheduled publisher draws now createdAt locked due next wd hdue hnext hreschedule _ =>
          simp only [SystemAction.startRecord, hdue, Option.map_some, Option.some.injEq] at hr
          have hrow := ChronologicalTriggerRepository.dueRow_of_getNextDueUnlocked hdue
          by_cases htriggers : due.triggerDefinitionId = trigger
          · subst htriggers
            exact h.moved hy hrow hnext hreschedule (hr ▸ rfl) (hr ▸ rfl) (hr ▸ rfl)
          · obtain ⟨-, hothers⟩ := reschedule_spec hreschedule
            refine h.kept ?_ ?_ ⟨hothers (.trigger trigger) (by simp), hothers _ ?_⟩
            · simp [occurrencesOf, ← hr, Reason.occurrenceOf, htriggers]
            · simp [← hr, htriggers]
            · simpa using Ne.symm htriggers
  · have hstarts : action.starts = false := by simpa using hstarts
    rw [recorded_none hstarts, List.append_nil]
    exact h.redefined haccounts hy hvalid hspares htrigger hstarts hs

theorem Records.onSchedule (hrun : x.Records leaseTimeout (SystemAction.SparesAll draws) records y)
    (hx : x.Reachable leaseTimeout) (htrigger : ∃ n, draws.triggerDefinitionId n = trigger)
    (h : OnSchedule trigger m first [] x) : OnSchedule trigger m first records y := by
  induction hrun with
  | refl => exact h
  | step hrun action hvalid hspares hs ih =>
      have hsound := (hrun.meanwhile.reachable hx).sound
      exact ih.step (hrun.accounts hx) hsound hvalid hspares htrigger hs

/-- A trigger that has been created stands one interval after its creation. -/
theorem OnSchedule.created (hx : x.Reachable leaseTimeout) (hnew : NewIds draws x.definitions)
    {now : UUID → Datetime} {request : CreateWorkflowDefinition} {r : UUID × Database}
    (hcreate : create .discovered .discovered draws now x.database request = .ok r)
    (hy : System.Reachable leaseTimeout { x with definitions := r.2.definitions })
    {t : TriggerDefinition} (ht : t ∈ (requested draws request).triggerDefinitions)
    {m : TriggerDefinitionModel}
    (hm : m = WorkflowDefinitionMapper.triggerToModel draws.workflowDefinitionId t) :
    triggerDefinitionRow r.2.definitions t.id = some m ∧
      OnSchedule t.id m (now t.id + m.interval) [] { x with definitions := r.2.definitions } := by
  have hconsistent := consistent_executions hx.sound.definitions.consistent x.database.executions
  obtain ⟨-, resolved, hcases⟩ := create_cases hconsistent hnew hcreate
  obtain ⟨next, hnext⟩ := ((create_ok_iff hconsistent hnew).mp ⟨r, hcreate⟩).2.intervals t ht
  have hrow : triggerDefinitionRow r.2.definitions t.id = some m :=
    ((hcases.added.stored.triggers t.id m).mpr ⟨t, ht, rfl, hm.symm⟩).1
  have haccepted := hy.sound.definitions.accepted
  have hinterval : next = some (now t.id + m.interval) := by
    refine (haccepted.interval hrow).2 _ _ ?_
    rw [(haccepted.configured hrow).2, hm]
    exact hnext
  have hresolved : t ∈ resolved.map (·.1) := by
    rw [createTriggerDefinitions_ok hcases.triggers]
    exact ht
  obtain ⟨u, hu, rfl⟩ := List.mem_map.mp hresolved
  refine ⟨hrow, rfl, Or.inl ⟨hrow, ?_⟩, by simp⟩
  refine (hcases.created.states u hu _).mpr ?_
  rw [firstOccurrence_resolved hcases.triggers hu, hnext, hinterval]
  simp [occurrencesOf]

/-- Nothing is ever on record for a trigger that is not enabled. -/
theorem OnSchedule.disabled (h : OnSchedule trigger m first records y)
    (hdisabled : m.enabled = false) : occurrencesOf trigger records = [] := by
  refine List.eq_nil_iff_forall_not_mem.mpr fun o ho => ?_
  obtain ⟨e, he, hreason⟩ := List.mem_filterMap.mp ho
  obtain ⟨-, -, henabled⟩ := h.own e he o (Reason.occurrenceOf_eq_some.mp hreason)
  exact absurd (henabled.symm.trans hdisabled) (by simp)

/-- A definition stays enabled, or not, as it was created. -/
theorem Meanwhile.enabled (hx : x.Reachable leaseTimeout) (hnew : NewIds draws x.definitions)
    {now : UUID → Datetime} {request : CreateWorkflowDefinition} {r : UUID × Database}
    (hcreate : create .discovered .discovered draws now x.database request = .ok r)
    (hcreated : System.Reachable leaseTimeout { x with definitions := r.2.definitions })
    (hrun : System.Meanwhile leaseTimeout (SystemAction.Spares draws.workflowDefinitionId)
      { x with definitions := r.2.definitions } y) {wd : WorkflowDefinition}
    (hload : load y.definitions draws.workflowDefinitionId = some wd) :
    wd.enabled = request.enabled := by
  have hpresent : y.Present draws.workflowDefinitionId := by
    obtain ⟨m, hm, -⟩ := load_cases hload
    exact Option.isSome_of_eq_some hm
  have hconsistent := consistent_executions hx.sound.definitions.consistent x.database.executions
  obtain ⟨-, resolved, hcases⟩ := create_cases hconsistent hnew hcreate
  obtain ⟨wd₁, hload₁, hrequested⟩ := hcases.created.loads
  have hkept := (hrun.same hcreated hpresent).2.toSameDefinition
  obtain ⟨wd₂, hload₂, hsame⟩ := hkept.load hcreated.sound.definitions hload₁
  obtain rfl := Option.some.inj (hload.symm.trans hload₂)
  exact hsame.enabled.trans hrequested.enabled

end System

/--
**Every execution has a reason, and every trigger keeps its schedule.**  In a run of the system from
the creation of a definition on, the executions that are stored are those that were there and those
on record, each once and of an enabled definition.  On record for a trigger are the first multiples
of its interval since its creation, in order, none before it was due; and the multiple after them is
when it is due next.
-/
theorem schedules_kept {leaseTimeout : Timedelta} {x y : System} (h : x.Reachable leaseTimeout)
    {draws : DefinitionDraws} (hnew : NewIds draws x.definitions) {now : UUID → Datetime}
    {request : CreateWorkflowDefinition} {r : UUID × Database}
    (hcreate : create .discovered .discovered draws now x.database request = .ok r)
    {records : List StartRecord}
    (hrun : System.Records leaseTimeout (SystemAction.SparesAll draws)
      { x with definitions := r.2.definitions } records y) :
    (workflowIds y.executions).Perm
      (workflowIds x.executions ++ records.map (·.workflowExecutionId)) ∧
    (workflowIds y.executions).Nodup ∧
    (∀ e ∈ records, ∃ w wd, workflowRow y.executions e.workflowExecutionId = some w ∧
      w.workflowDefinitionId = e.workflowDefinitionId ∧
      load y.definitions e.workflowDefinitionId = some wd ∧ wd.enabled = true) ∧
    (request.enabled = false →
      ∀ e ∈ records, e.workflowDefinitionId ≠ draws.workflowDefinitionId) ∧
    ∀ t ∈ (requested draws request).triggerDefinitions, ∃ (intervalSeconds : Int) (k : Nat),
      t.configuration.lookup "interval_seconds" = some (.int intervalSeconds) ∧
      0 < intervalSeconds ∧
      occurrencesOf t.id records =
        (List.range k).map (fun i : Nat => now t.id + (i + 1) * (intervalSeconds * 1000000)) ∧
      (triggerStateRow y.definitions t.id =
          some { nextRunAt := now t.id + (k + 1) * (intervalSeconds * 1000000) } ∨
        triggerDefinitionRow y.definitions t.id = none ∧ k = 0) ∧
      (t.enabled = false → k = 0) ∧
      ∀ e ∈ records, ∀ o, e.reason = .occurrence t.id o →
        e.workflowDefinitionId = draws.workflowDefinitionId ∧ o ≤ e.now := by
  have hstep : x.step leaseTimeout (.create draws now request) =
      some { x with definitions := r.2.definitions } := by
    simp only [System.step, hcreate]
    rfl
  have hx := h.step (.create draws now request) hnew hstep
  have haccounts := hrun.accounts hx
  refine ⟨haccounts.workflowIds, workflowIds_nodup _, haccounts.rows, ?_, ?_⟩
  · intro hdisabled e he hid
    obtain ⟨w, wd, -, -, hload, henabled⟩ := haccounts.rows e he
    rw [hid] at hload
    have hmeanwhile := hrun.meanwhile.mono SystemAction.SparesAll.spares
    have hsame := hmeanwhile.enabled h hnew hcreate hx hload
    exact absurd (henabled.symm.trans (hsame.trans hdisabled)) (by simp)
  · intro t ht
    obtain ⟨hrow, hstart⟩ := System.OnSchedule.created h hnew hcreate hx ht rfl
    have htrigger : ∃ n, draws.triggerDefinitionId n = t.id := by
      obtain ⟨u, -, rfl⟩ := List.mem_map.mp ht
      exact ⟨u.2, rfl⟩
    have hkept := hrun.onSchedule hx htrigger hstart
    obtain ⟨⟨intervalSeconds, hseconds, hpositive, hinterval⟩, -⟩ :=
      hx.sound.definitions.accepted.configured hrow
    have htime : ∀ i : Nat, now t.id + intervalSeconds * 1000000 +
        i * (intervalSeconds * 1000000) = now t.id + (i + 1) * (intervalSeconds * 1000000) := by
      intro i
      ring
    have hoccurrences := hkept.occurrences
    have hstands := hkept.stands
    simp only [hinterval, htime] at hoccurrences hstands
    refine ⟨intervalSeconds, (occurrencesOf t.id records).length, hseconds, hpositive,
      hoccurrences, ?_, ?_, fun e he o ho => ?_⟩
    · rcases hstands with ⟨-, hstate⟩ | ⟨hnone, hempty⟩
      · exact Or.inl hstate
      · exact Or.inr ⟨hnone, by rw [hempty]; rfl⟩
    · intro hdisabled
      rw [hkept.disabled hdisabled, List.length_nil]
    · obtain ⟨hid, hle, -⟩ := hkept.own e he o ho
      exact ⟨hid, hle⟩

/-- The definition of the sample is started by hand, and a minute later by its trigger. -/
theorem schedules_kept_sample : ∃ r records y,
    create .discovered .discovered firstDraws (fun _ => 0) (System.init 0).database sampleRequest =
      .ok r ∧
    System.record 100 { System.init 0 with definitions := r.2.definitions }
      [.start 0 ⟨1, id⟩ 0 1, .processNextDue 1 ⟨2, fun i => i + 5000⟩ 60000000 60000001 []] =
        some (records, y) ∧
    records =
      [{ workflowExecutionId := 1, workflowDefinitionId := 1, reason := .request, now := 0 },
       { workflowExecutionId := 2, workflowDefinitionId := 1
         reason := .occurrence 0 60000000, now := 60000000 }] ∧
    (workflowIds y.executions).Perm [1, 2] ∧
    ∃ (intervalSeconds : Int) (k : Nat), occurrencesOf 0 records =
        (List.range k).map (fun i : Nat => 0 + (i + 1) * (intervalSeconds * 1000000)) ∧
      (triggerStateRow y.definitions 0 =
          some { nextRunAt := 0 + (k + 1) * (intervalSeconds * 1000000) } ∨
        triggerDefinitionRow y.definitions 0 = none ∧ k = 0) := by
  have hrun : ((create .discovered .discovered firstDraws (fun _ => 0) (System.init 0).database
      sampleRequest).toOption.bind fun r =>
        (System.record 100 { System.init 0 with definitions := r.2.definitions }
          [.start 0 ⟨1, id⟩ 0 1, .processNextDue 1 ⟨2, fun i => i + 5000⟩ 60000000 60000001 []]).map
          Prod.fst) = some
      [{ workflowExecutionId := 1, workflowDefinitionId := 1, reason := .request, now := 0 },
       { workflowExecutionId := 2, workflowDefinitionId := 1
         reason := .occurrence 0 60000000, now := 60000000 }] := by
    decide +kernel
  cases hcreate : create .discovered .discovered firstDraws (fun _ => 0)
      (System.init 0).database sampleRequest with
  | error e =>
      rw [hcreate] at hrun
      simp [Except.toOption] at hrun
  | ok r =>
      rw [hcreate] at hrun
      obtain ⟨⟨records, y⟩, hrecord, hrecords⟩ := Option.map_eq_some_iff.mp hrun
      obtain rfl : records = _ := hrecords
      have hspares : ∀ a : SystemAction, a.creates = false →
          a.SparesAll firstDraws ∧ ∀ z, a.Valid z := fun a ha =>
        ⟨SystemAction.sparesAll_of_creates ha firstDraws, SystemAction.valid_of_creates ha⟩
      have hactions := System.Records.of_record (fun a ha => hspares a (by
        rcases List.mem_cons.mp ha with rfl | ha
        · rfl
        · rw [List.mem_singleton.mp ha]
          rfl)) hrecord
      obtain ⟨hids, -, -, -, hschedules⟩ :=
        schedules_kept (.init 0) newIds_firstDraws hcreate hactions
      obtain ⟨intervalSeconds, k, -, -, hoccurrences, hstate, -⟩ := hschedules
        { id := 0, pluginType := "interval", configuration := [("interval_seconds", .int 60)]
          enabled := true } (List.mem_singleton.mpr rfl)
      exact ⟨r, _, y, rfl, hrecord, rfl, hids, intervalSeconds, k, hoccurrences, hstate⟩

end AutomationPlatform
