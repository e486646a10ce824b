/-
The runs of the whole system are runs of the platform.

The platform was considered with any definitions that are valid.  Here the definitions are
those that are stored, and they are valid: `Moves` says what one step of the system can do,
and from it every invariant is a short case analysis.

The environment is trusted with one thing only: identifiers drawn for a new definition are
new.
-/
import AutomationPlatform.Proofs.Platform.Actions
import AutomationPlatform.Proofs.System.Definitions
import AutomationPlatform.Runtime.System

namespace AutomationPlatform

open Sql (bind_eq_ok)

/-! ### What a step can do -/

section Start

variable {s s' : DefinitionStore} {draws : Draws} {now createdAt : Datetime} {id : UUID}
  {workflowExecution : WorkflowExecution} {rootTaskIds locked : List UUID}

/-- What is prepared is an execution of a stored, enabled definition. -/
theorem WorkflowStartService.prepare_ok
    (h : WorkflowStartService.prepare s draws now id = .ok (workflowExecution, rootTaskIds)) :
    ∃ wd, WorkflowDefinitionRepository.load s id = some wd ∧ wd.enabled = true ∧
      createWorkflowExecution draws now wd = .ok (workflowExecution, rootTaskIds) := by
  unfold prepare at h
  split at h
  · simp at h
  · rename_i wd hload
    split at h
    · rename_i henabled
      split at h
      · rename_i hcreate
        rw [Except.ok.injEq] at h
        exact ⟨wd, hload, henabled, h ▸ hcreate⟩
      · simp at h
    · simp at h

theorem ChronologicalTriggerRepository.dueRow_of_getNextDueUnlocked
    {due : DueChronologicalTrigger} (h : getNextDueUnlocked s now locked = some due) :
    dueRow s now due.triggerDefinitionId = some due := by
  obtain ⟨id, hid⟩ := mem_due.mp (List.mem_of_find?_eq_some h)
  obtain ⟨rfl, -⟩ := dueRow_spec hid
  exact hid

/-- What is prepared for a due trigger. -/
theorem ChronologicalTriggerService.prepareNextDue_ok
    (h : prepareNextDue .discovered draws now createdAt locked s =
      .ok (some (s', workflowExecution, rootTaskIds))) :
    ∃ due next, ChronologicalTriggerRepository.getNextDueUnlocked s now locked = some due ∧
      nextRunAt .discovered due.pluginType due.configuration due.nextRunAt = .ok next ∧
      reschedule s due.triggerDefinitionId next = .ok s' ∧
      WorkflowStartService.prepare s' draws createdAt due.workflowDefinitionId =
        .ok (workflowExecution, rootTaskIds) := by
  unfold prepareNextDue at h
  split at h
  · simp at h
  · rename_i due hdue
    obtain ⟨next, hnext, h⟩ := bind_eq_ok.mp h
    obtain ⟨definitions, hreschedule, h⟩ := bind_eq_ok.mp h
    obtain ⟨prepared, hprepare, h⟩ := bind_eq_ok.mp h
    simp only [pure, Except.pure, Except.ok.injEq, Option.some.injEq, Prod.mk.injEq] at h
    obtain ⟨rfl, rfl, rfl⟩ := h
    exact ⟨due, next, hdue, hnext, hreschedule, hprepare⟩

end Start

/-- What the environment may do: identifiers of new definitions are new. -/
def SystemAction.Valid (x : System) : SystemAction → Prop
  | .create draws _ _ => WorkflowDefinitionService.NewIds draws x.definitions
  | _ => True

/-- Whether an action only takes further what has been started. -/
def SystemAction.executes : SystemAction → Bool
  | .report _ _ => true
  | .run _ => true
  | _ => false

namespace System

variable {leaseTimeout : Timedelta} {x x' : System}

/-- What one step of the system does. -/
inductive Moves (leaseTimeout : Timedelta) (x : System) : System → Prop
  /-- Nothing was to be done, or it has raised. -/
  | none : Moves leaseTimeout x x
  | created (draws : DefinitionDraws) (now : UUID → Datetime) (request : CreateWorkflowDefinition)
      (r : UUID × Database) (hnew : WorkflowDefinitionService.NewIds draws x.definitions)
      (hcreate : WorkflowDefinitionService.create .discovered .discovered draws now x.database
        request = .ok r) :
      Moves leaseTimeout x { x with definitions := r.2.definitions }
  | deleted (id : UUID) (db : Database)
      (hdelete : WorkflowDefinitionService.delete x.database id = .ok db) :
      Moves leaseTimeout x { x with definitions := db.definitions }
  /-- A stored definition is started, and the trigger it was due for has been rescheduled. -/
  | started (publisher : Nat) (draws : Draws) (now : Datetime) (definitions : DefinitionStore)
      (id : UUID) (wd : WorkflowDefinition) (platform : Platform)
      (hdefinitions : definitions = x.definitions ∨ ∃ trigger next,
        ChronologicalTriggerService.reschedule x.definitions trigger next = .ok definitions)
      (hload : WorkflowDefinitionRepository.load definitions id = some wd)
      (henabled : wd.enabled = true)
      (hstart : x.platform.step leaseTimeout (.start publisher draws now wd) = some platform) :
      Moves leaseTimeout x { definitions, platform }
  /-- What is reported is what the plugin of the task returned. -/
  | ran (action : PlatformAction) (platform : Platform) (hother : action.starts = false)
      (hreport : ∀ w result completedAt, action = .report w result completedAt →
        ∃ claim untrusted task, x.platform.workers w = .processing claim untrusted (.executing task) ∧
          TaskProcessingService.executeTask .discovered task = .ok result)
      (hrun : x.platform.step leaseTimeout action = some platform) :
      Moves leaseTimeout x { x with platform := platform }

/-- The commit of a start is that of the platform. -/
theorem moves_commitStart {publisher : Nat} {draws : Draws} {now : Datetime}
    {definitions : DefinitionStore} {id : UUID} {workflowExecution : WorkflowExecution}
    {rootTaskIds : List UUID}
    (hdefinitions : definitions = x.definitions ∨ ∃ trigger next,
      ChronologicalTriggerService.reschedule x.definitions trigger next = .ok definitions)
    (hprepare : WorkflowStartService.prepare definitions draws now id =
      .ok (workflowExecution, rootTaskIds))
    (h : x.commitStart publisher definitions workflowExecution rootTaskIds = some x') :
    x.Moves leaseTimeout x' := by
  obtain ⟨wd, hload, henabled, hcreate⟩ := WorkflowStartService.prepare_ok hprepare
  unfold commitStart at h
  split at h
  · simp at h
  · rename_i hpublishing
    split at h
    · obtain rfl := Option.some.inj h
      exact .none
    · rename_i db hinsert
      obtain rfl := Option.some.inj h
      refine .started publisher draws now definitions id wd _ hdefinitions hload henabled ?_
      simp only [Platform.step, hpublishing, hcreate, hinsert]
      rfl

/-- A step that takes further what has been started is one of the platform. -/
theorem ran_of_step {action : SystemAction} (hexecutes : action.executes = true)
    (h : x.step leaseTimeout action = some x') :
    ∃ (a : PlatformAction) (platform : Platform), a.starts = false ∧
      (∀ w result completedAt, a = .report w result completedAt →
        ∃ claim untrusted task, x.platform.workers w = .processing claim untrusted (.executing task) ∧
          TaskProcessingService.executeTask .discovered task = .ok result) ∧
      x.platform.step leaseTimeout a = some platform ∧ x' = { x with platform := platform } := by
  cases action with
  | report w completedAt =>
      simp only [step] at h
      split at h
      · rename_i claim untrusted task hworker
        obtain ⟨platform, hrun, h⟩ := Option.bind_eq_some_iff.mp h
        obtain rfl := Option.some.inj h
        cases hexecute : TaskProcessingService.executeTask .discovered task with
        | error e =>
            rw [hexecute] at hrun
            exact ⟨.crash w, platform, rfl, by simp, hrun, rfl⟩
        | ok result =>
            rw [hexecute] at hrun
            refine ⟨.report w result completedAt, platform, rfl, fun u r t ha => ?_, hrun, rfl⟩
            obtain ⟨rfl, rfl, -⟩ := PlatformAction.report.inj ha
            exact ⟨claim, untrusted, task, hworker, hexecute⟩
      · simp at h
  | run action =>
      cases action with
      | start => simp [step] at h
      | report => simp [step] at h
      | _ =>
          simp only [step] at h
          obtain ⟨platform, hrun, h⟩ := Option.bind_eq_some_iff.mp h
          obtain rfl := Option.some.inj h
          exact ⟨_, platform, rfl, by simp, hrun, rfl⟩
  | _ => simp [SystemAction.executes] at hexecutes

theorem moves_of_step {action : SystemAction} (hvalid : action.Valid x)
    (h : x.step leaseTimeout action = some x') : x.Moves leaseTimeout x' := by
  cases action with
  | create draws now request =>
      obtain rfl := Option.some.inj h
      cases hcreate : WorkflowDefinitionService.create .discovered .discovered draws now
          x.database request with
      | error e => exact .none
      | ok r => exact .created draws now request r hvalid hcreate
  | delete id =>
      obtain rfl := Option.some.inj h
      cases hdelete : WorkflowDefinitionService.delete x.database id with
      | error e => exact .none
      | ok db => exact .deleted id db hdelete
  | start publisher draws now id =>
      simp only [step] at h
      split at h
      · obtain rfl := Option.some.inj h
        exact .none
      · rename_i hprepare
        exact moves_commitStart (Or.inl rfl) hprepare h
  | processNextDue publisher draws now createdAt locked =>
      simp only [step] at h
      split at h
      · obtain rfl := Option.some.inj h
        exact .none
      · obtain rfl := Option.some.inj h
        exact .none
      · rename_i hprepare
        obtain ⟨due, next, -, -, hreschedule, hprepare⟩ :=
          ChronologicalTriggerService.prepareNextDue_ok hprepare
        exact moves_commitStart (Or.inr ⟨_, next, hreschedule⟩) hprepare h
  | report w completedAt =>
      obtain ⟨a, platform, hother, hreport, hrun, rfl⟩ := ran_of_step rfl h
      exact .ran a platform hother hreport hrun
  | run action =>
      obtain ⟨a, platform, hother, hreport, hrun, rfl⟩ := ran_of_step rfl h
      exact .ran a platform hother hreport hrun

/-! ### Every run -/

/-- The states the system reaches from empty stores. -/
inductive Reachable (leaseTimeout : Timedelta) : System → Prop
  | init (clock : Datetime) : Reachable leaseTimeout (init clock)
  | step {x x' : System} (h : Reachable leaseTimeout x) (action : SystemAction)
      (hvalid : action.Valid x) (hs : x.step leaseTimeout action = some x') :
      Reachable leaseTimeout x'

/-- Definitions that are started are valid, and every step of the platform is one it has. -/
structure Sound (leaseTimeout : Timedelta) (x : System) : Prop where
  definitions : Validated x.definitions
  platform : x.platform.Reachable leaseTimeout

theorem Moves.sound (h : x.Moves leaseTimeout x') (hx : x.Sound leaseTimeout) :
    x'.Sound leaseTimeout := by
  cases h with
  | none => exact hx
  | created draws now request r hnew hcreate =>
      exact ⟨Validated.create hx.definitions hnew hcreate, hx.platform⟩
  | deleted id db hdelete =>
      exact ⟨Validated.delete hx.definitions hdelete, hx.platform⟩
  | started publisher draws now definitions id wd platform hdefinitions hload _ hstart =>
      have hvalidated := hx.definitions.started hdefinitions
      exact ⟨hvalidated, .step hx.platform (.start publisher draws now wd)
        (hvalidated.valid hload) hstart⟩
  | ran action platform hother _ hrun =>
      exact ⟨hx.definitions, .step hx.platform action (PlatformAction.valid_of_starts hother) hrun⟩

theorem Reachable.sound (h : x.Reachable leaseTimeout) : x.Sound leaseTimeout := by
  induction h with
  | init clock => exact ⟨validated_empty, .init clock⟩
  | step _ action hvalid hs ih => exact (moves_of_step hvalid hs).sound ih

theorem Reachable.steps : ∀ {actions : List SystemAction} {x x' : System},
    x.Reachable leaseTimeout → (∀ a ∈ actions, ∀ y, a.Valid y) →
    x.steps leaseTimeout actions = some x' → x'.Reachable leaseTimeout := by
  intro actions
  induction actions with
  | nil =>
      intro x x' h _ hs
      simp only [System.steps, List.foldlM_nil, Option.pure_def, Option.some.injEq] at hs
      exact hs ▸ h
  | cons a rest ih =>
      intro x x' h hvalid hs
      simp only [System.steps, List.foldlM_cons, Option.bind_eq_bind,
        Option.bind_eq_some_iff] at hs
      obtain ⟨mid, hmid, hrest⟩ := hs
      exact ih (.step h a (hvalid a (by simp) x) hmid) (fun b hb => hvalid b (by simp [hb])) hrest

end System

/--
**A run of the whole system is a run of the platform.**  What was assumed of the definitions
that are started holds of all that are stored, at any time: they are valid, and plugins of the
package have accepted what their tasks and triggers are configured with.
-/
theorem system_refines_platform {leaseTimeout : Timedelta} {x : System}
    (h : x.Reachable leaseTimeout) :
    x.platform.Reachable leaseTimeout ∧ Accepted x.definitions ∧
      (definitionSchema x.platform.db.store).Consistent x.definitions ∧
      ∀ id wd, WorkflowDefinitionRepository.load x.definitions id = some wd → wd.Valid ∧
        ∀ t ∈ wd.taskDefinitions, TaskAccepted t.pluginType t.configuration := by
  have hx := h.sound
  refine ⟨hx.platform, hx.definitions.accepted,
    consistent_executions hx.definitions.consistent _, fun id wd hload => ⟨?_, ?_⟩⟩
  · exact hx.definitions.valid hload
  · intro t ht
    obtain ⟨m, -, rfl⟩ := load_cases hload
    obtain ⟨i, m', hi, -, rfl⟩ := WorkflowDefinitionRepository.mem_loadTasks.mp ht
    exact hx.definitions.tasks i m' hi

/-!
A sample run.  A definition of two tasks and a trigger is created and started, and a worker
processes the tasks one after the other.
-/

def sampleRequest : CreateWorkflowDefinition where
  name := "report"
  description := ""
  tasks :=
    [{ pluginType := "produce_value", key := "a", configuration := [("value", .int 7)]
       dependencies := [], maxTries := 2 },
     { pluginType := "collect_inputs", key := "b", configuration := []
       dependencies := ["a"], maxTries := 1 }]
  triggers :=
    [{ pluginType := "interval", configuration := [("interval_seconds", .int 60)], enabled := true }]
  enabled := true

def sampleSystemSteps : List SystemAction :=
  [.start 0 ⟨1, id⟩ 0 1, .run (.publish 0 0), .run (.lock 0 7 [] 0), .run (.grant 0 100),
   .run (.startTask 0 1), .run (.statement 0), .run (.row 0 (.task 9507)), .run (.statement 0),
   .run (.endTransaction 0), .report 0 2, .run (.statement 0), .run (.row 0 (.task 9507)),
   .run (.statement 0), .run (.row 0 (.task 9703)), .run (.statement 0), .run (.endTransaction 0),
   .run (.dispose 0 3), .run (.lock 0 7 [] 4), .run (.grant 0 101), .run (.startTask 0 5),
   .run (.statement 0), .run (.row 0 (.task 9703)), .run (.statement 0), .run (.statement 0),
   .run (.endTransaction 0), .report 0 6, .run (.statement 0), .run (.row 0 (.task 9703)),
   .run (.statement 0), .run (.row 0 (.workflow 1)), .run (.endTransaction 0),
   .run (.dispose 0 7)]

def SystemAction.creates : SystemAction → Bool
  | .create _ _ _ => true
  | _ => false

/-- The state after a definition has been created and these steps have been taken. -/
def systemAfter (request : CreateWorkflowDefinition) (actions : List SystemAction) : System :=
  (((System.init 0).step 100 (.create WorkflowDefinitionService.firstDraws (fun _ => 0)
    request)).bind fun x => x.steps 100 actions).getD (System.init 0)

theorem systemAfter_reachable (request : CreateWorkflowDefinition) {actions : List SystemAction}
    (hactions : (actions.all fun a => !a.creates) = true) :
    (systemAfter request actions).Reachable 100 := by
  unfold systemAfter
  cases hs : ((System.init 0).step 100 (.create WorkflowDefinitionService.firstDraws (fun _ => 0)
    request)).bind fun x => x.steps 100 actions with
  | none => exact .init 0
  | some x =>
      obtain ⟨y, hcreate, hsteps⟩ := Option.bind_eq_some_iff.mp hs
      refine (System.Reachable.step (.init 0) _ ?_ hcreate).steps (fun a ha z => ?_) hsteps
      · exact WorkflowDefinitionService.newIds_firstDraws
      · have hother := List.all_eq_true.mp hactions a ha
        cases a with
        | create draws now request => simp [SystemAction.creates] at hother
        | _ => trivial

/-- The state after the first so many steps of the run. -/
def sampleSystem (n : Nat) : System := systemAfter sampleRequest (sampleSystemSteps.take n)

theorem sampleSystem_reachable (n : Nat) : (sampleSystem n).Reachable 100 := by
  refine systemAfter_reachable _ (List.all_eq_true.mpr fun a ha => ?_)
  exact List.all_eq_true.mp (by decide : (sampleSystemSteps.all fun a => !a.creates) = true) a
    (List.mem_of_mem_take ha)

theorem system_refines_platform_sample :
    ((WorkflowDefinitionRepository.load (sampleSystem 8).definitions 1).map
      fun wd => wd.taskDefinitions.map (·.key)) = some ["a", "b"] ∧
    (sampleSystem 8).platform.Reachable 100 ∧ Accepted (sampleSystem 8).definitions ∧
      (definitionSchema (sampleSystem 8).platform.db.store).Consistent (sampleSystem 8).definitions ∧
      ∀ id wd, WorkflowDefinitionRepository.load (sampleSystem 8).definitions id = some wd →
        wd.Valid ∧ ∀ t ∈ wd.taskDefinitions, TaskAccepted t.pluginType t.configuration :=
  ⟨by decide +kernel, system_refines_platform (sampleSystem_reachable 8)⟩

end AutomationPlatform
