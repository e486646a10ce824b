/-
The system catches up with everything that is due.

The scheduler may have been down for as long as it likes, and anything may have been left half
done.  One scheduler, one worker and one publisher can work it off: what there is to do is done,
a tick starts the first occurrence that is due, what it has started is done, and so on.  Each tick
leaves one due occurrence less, and the driver never sees more tasks than one definition has.
-/
import AutomationPlatform.Proofs.System.Requests
import AutomationPlatform.Proofs.System.Schedules

namespace AutomationPlatform

open WorkflowDefinitionRepository
open WorkflowDefinitionService (firstDraws)

/-! ### Working -/

/-- A tick at this time, or a step that takes further what has been started. -/
def SystemAction.CatchesUp (now : Datetime) : SystemAction → Prop
  | .processNextDue _ _ time _ _ => time = now
  | action => action.executes = true

section CatchesUp

variable {now : Datetime} {action : SystemAction}

theorem SystemAction.CatchesUp.creates (h : action.CatchesUp now) : action.creates = false := by
  cases action with
  | create => simp [SystemAction.CatchesUp, SystemAction.executes] at h
  | _ => rfl

end CatchesUp

namespace System

/-- A run of such steps through the driver, and its record. -/
inductive Works (leaseTimeout : Timedelta) (now : Datetime) (x : System) :
    List StartRecord → System → Prop
  | refl : Works leaseTimeout now x [] x
  | step {records : List StartRecord} {y z : System} (h : Works leaseTimeout now x records y)
      (action : SystemAction) (hcatches : action.CatchesUp now)
      (hs : y.step leaseTimeout action = some z)
      (hdriver : y.driverStep leaseTimeout action = some z) :
      Works leaseTimeout now x (records ++ y.recorded z action) z

variable {leaseTimeout : Timedelta} {now : Datetime} {x y z : System}
  {records more : List StartRecord} {action : SystemAction}

theorem Works.trans (h : x.Works leaseTimeout now records y)
    (h' : y.Works leaseTimeout now more z) : x.Works leaseTimeout now (records ++ more) z := by
  induction h' with
  | refl =>
      rw [List.append_nil]
      exact h
  | step _ action hcatches hs hdriver ih =>
      rw [← List.append_assoc]
      exact .step ih action hcatches hs hdriver

theorem Works.onRecord (h : x.Works leaseTimeout now records y) (draws : DefinitionDraws) :
    x.Records leaseTimeout (SystemAction.SparesAll draws) records y := by
  induction h with
  | refl => exact .refl
  | step _ action hcatches hs _ ih =>
      have hcreates := hcatches.creates
      exact .step ih action (SystemAction.valid_of_creates hcreates _)
        (SystemAction.sparesAll_of_creates hcreates draws) hs

theorem Works.reachable (h : x.Works leaseTimeout now records y) (hx : x.Reachable leaseTimeout) :
    y.Reachable leaseTimeout := by
  induction h with
  | refl => exact hx
  | step _ action hcatches hs _ ih =>
      exact .step ih action (SystemAction.valid_of_creates hcatches.creates _) hs

/-- The actions of such a run. -/
theorem Works.actions (h : x.Works leaseTimeout now records y) :
    ∃ actions : List SystemAction, (∀ a ∈ actions, a.CatchesUp now) ∧
      x.driverSteps leaseTimeout actions = some y ∧
      x.record leaseTimeout actions = some (records, y) := by
  induction h with
  | refl => exact ⟨[], by simp, rfl, rfl⟩
  | step _ action hcatches hs hdriver ih =>
      obtain ⟨actions, hall, hsteps, hrecord⟩ := ih
      refine ⟨actions ++ [action], fun a ha => ?_, ?_, ?_⟩
      · rcases List.mem_append.mp ha with ha | ha
        · exact hall a ha
        · exact List.mem_singleton.mp ha ▸ hcatches
      · rw [System.driverSteps, List.foldlM_append]
        simp only [System.driverSteps] at hsteps
        rw [hsteps]
        simp [hdriver]
      · rw [System.record, List.foldlM_append]
        simp only [System.record] at hrecord
        rw [hrecord]
        simp [hs]

/-- Nothing is defined and nothing deleted meanwhile. -/
theorem Works.rows (h : x.Works leaseTimeout now records y) {k : DefinitionRowId}
    (hk : ∀ i, k ≠ .chronologicalTriggerState i) :
    y.definitions.row k = x.definitions.row k := by
  induction h with
  | refl => rfl
  | @step _ y z _ action hcatches hs _ ih =>
      have hstep := redefines_of_step hs
      generalize z.definitions = s at hstep ⊢
      cases hstep with
      | same => exact ih
      | created => simp [SystemAction.CatchesUp, SystemAction.executes] at hcatches
      | deleted => simp [SystemAction.CatchesUp, SystemAction.executes] at hcatches
      | rescheduled _ _ _ _ _ trigger next _ _ hreschedule =>
          exact (reschedule_rows hreschedule k hk).trans ih

end System

section Moved

variable {s s' : DefinitionStore} {now : Datetime} {id : UUID} {m : TriggerDefinitionModel}
  {o : Datetime}

/-- A trigger moves on to its next occurrence. -/
structure MovesOn (s : DefinitionStore) (id : UUID) (m : TriggerDefinitionModel) (o : Datetime)
    (s' : DefinitionStore) : Prop where
  trigger : triggerDefinitionRow s id = some m
  stood : triggerStateRow s id = some { nextRunAt := o }
  state : triggerStateRow s' id = some { nextRunAt := o + m.interval }
  keys : s'.keys = s.keys
  others : ∀ k, k ≠ .chronologicalTriggerState id → s'.row k = s.row k

theorem MovesOn.triggers (h : MovesOn s id m o s') (i : UUID) :
    triggerDefinitionRow s' i = triggerDefinitionRow s i :=
  h.others (.trigger i) (by simp)

theorem MovesOn.states (h : MovesOn s id m o s') {i : UUID} (hi : i ≠ id) :
    triggerStateRow s' i = triggerStateRow s i :=
  h.others (.chronologicalTriggerState i) (by simpa using hi)

theorem MovesOn.load (h : MovesOn s id m o s') (i : UUID) :
    WorkflowDefinitionRepository.load s' i = WorkflowDefinitionRepository.load s i :=
  load_congr h.keys (fun k hk => h.others k (hk id)) i

end Moved

/-! ### A tick, and what it has started -/

namespace System

variable {leaseTimeout : Timedelta} {now : Datetime} {x y z : System}

/-- Every task is over, and nothing is queued. -/
structure Rested (x : System) : Prop where
  tasks : ∀ i t, taskRow x.executions i = some t → t.status.isTerminal = true
  queue : x.platform.queue.queue = []

theorem Rested.unfinishedCount (h : x.Rested) : unfinishedCount x.executions = 0 := by
  refine List.countP_eq_zero.mpr fun e he => ?_
  rw [h.tasks e.1 e.2 (mem_taskTable.mp he)]
  simp

/-- The executions on record are over. -/
def Over (records : List StartRecord) (x : System) : Prop :=
  ∀ e ∈ records, ∀ w, workflowRow x.executions e.workflowExecutionId = some w →
    w.status ≠ .running

/-- What is over stays over. -/
theorem Over.later {records : List StartRecord} (h : Over records x) (hx : x.Reachable leaseTimeout)
    (haccounts : ∀ e ∈ records, ∃ w, workflowRow x.executions e.workflowExecutionId = some w)
    {more : List StartRecord} (hworks : x.Works leaseTimeout now more y) : Over records y := by
  intro e he w' hw'
  obtain ⟨w, hw⟩ := haccounts e he
  have hlater := (hworks.onRecord firstDraws).meanwhile.later hx
  obtain ⟨w'', hw'', hev⟩ := workflowRow_le hlater.le hw
  obtain rfl := Option.some.inj (hw'.symm.trans hw'')
  have hended := h e he w hw
  rwa [hev.terminal hended]

/-- A trigger begins its record where it stands. -/
theorem OnSchedule.start {trigger : UUID} {m : TriggerDefinitionModel}
    {state : ChronologicalTriggerStateModel}
    (hm : triggerDefinitionRow x.definitions trigger = some m)
    (hstate : triggerStateRow x.definitions trigger = some state) :
    OnSchedule trigger m state.nextRunAt [] x where
  occurrences := rfl
  stands := by
    refine Or.inl ⟨hm, ?_⟩
    rw [hstate]
    simp [occurrencesOf]
  own := by simp

end System

end AutomationPlatform
