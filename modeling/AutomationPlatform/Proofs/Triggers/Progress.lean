/-
Which due triggers a scheduler gets to.

The selection always takes the earliest due trigger, and a transaction that raises
leaves it where it is.  So a due occurrence is reached exactly when it and everything
that comes before it can be processed, and one trigger of a disabled workflow is enough
to stop all that come after it.
-/
import AutomationPlatform.Proofs.Triggers.Loop
import Mathlib.Data.Nat.Pairing

namespace AutomationPlatform

open TriggerRegistry (discovered)

/-! ### Due occurrences are finitely many -/

/-- The triggers that have state. -/
def stateIds (s : DefinitionStore) : Finset UUID :=
  (s.scan fun
    | .chronologicalTriggerState id, _ => some id
    | _, _ => none).toFinset

theorem mem_stateIds {s : DefinitionStore} {id : UUID} {state : ChronologicalTriggerStateModel}
    (h : triggerStateRow s id = some state) : id ∈ stateIds s := by
  unfold stateIds
  rw [List.mem_toFinset, Sql.Store.mem_scan]
  exact ⟨.chronologicalTriggerState id, state, h, rfl⟩

theorem Accepted.limited {s : DefinitionStore} (h : Accepted s) (now : Datetime) :
    ∃ limit, (agenda s).Limited now (stateIds s) limit := by
  choose limit hlimit using Agenda.exists_limit h.increasing now
  refine ⟨limit, hlimit, ?_⟩
  intro id hid
  by_contra hpos
  obtain ⟨t, ht, -⟩ := (hlimit id 0).mpr (Nat.pos_of_ne_zero hpos)
  obtain ⟨-, state, -, hstate, -⟩ := agenda_time.mp ht
  exact hid (mem_stateIds hstate)

/-! ### What blocks a trigger -/

/-- All occurrences of enabled triggers that come no later than this one can be processed. -/
def Unblocked (s : DefinitionStore) (id : UUID) (due : Datetime) : Prop :=
  ∀ other trigger state k o, triggerDefinitionRow s other = some trigger →
    triggerStateRow s other = some state → trigger.enabled = true →
    trigger.occurrence discovered state.nextRunAt k = some o →
    o < due ∨ o = due ∧ other ≤ id → trigger.Startable s o

section Progress

variable {db : Database} {draws : Nat → Draws} {now : Datetime} {createdAt : Nat → Datetime}

/-- What has been processed was not blocked. -/
theorem unblocked_of_processed (hacc : Accepted db.definitions)
    (hfresh : Fresh draws db.executions) {id : UUID} {due : Datetime} {n : Nat}
    (hp : Processed (Scheduler.run discovered draws now createdAt db n)
      (Scheduler.run discovered draws now createdAt db (n + 1)) id due) :
    Unblocked db.definitions id due := by
  intro other trigger state k o htrigger hstate henabled hocc hearlier
  have hout := Scheduler.out_of_processed hacc hfresh hp
  have hpossible := (Scheduler.run_agenda now createdAt hacc hfresh).possible_of_out hacc.increasing hout
    (agenda_time.mpr ⟨trigger, state, htrigger, hstate, henabled, hocc⟩) hearlier
  obtain ⟨trigger', state', o', htrigger', hstate', hocc', hstartable⟩ := hpossible
  rw [htrigger, Option.some.injEq] at htrigger'
  rw [hstate, Option.some.injEq] at hstate'
  subst htrigger' hstate'
  rw [hocc, Option.some.injEq] at hocc'
  exact hocc' ▸ hstartable

/-- What is due and not blocked is processed in some round. -/
theorem processed_of_unblocked (hacc : Accepted db.definitions)
    (hfresh : Fresh draws db.executions) {id : UUID} {trigger : TriggerDefinitionModel}
    {state : ChronologicalTriggerStateModel}
    (htrigger : triggerDefinitionRow db.definitions id = some trigger)
    (hstate : triggerStateRow db.definitions id = some state) (henabled : trigger.enabled = true)
    (hdue : state.nextRunAt ≤ now) (hunblocked : Unblocked db.definitions id state.nextRunAt) :
    ∃ n, Processed (Scheduler.run discovered draws now createdAt db n)
      (Scheduler.run discovered draws now createdAt db (n + 1)) id state.nextRunAt := by
  obtain ⟨limit, hlimit⟩ := hacc.limited now
  have hfirst : (agenda db.definitions).time id 0 = some state.nextRunAt :=
    agenda_time.mpr ⟨trigger, state, htrigger, hstate, henabled, rfl⟩
  obtain ⟨n, hn⟩ := (Scheduler.run_agenda now createdAt hacc hfresh).reached hlimit
    hfirst hdue fun i k t ht hearlier => by
      obtain ⟨trigger', state', htrigger', hstate', henabled', hocc'⟩ := agenda_time.mp ht
      exact ⟨trigger', state', t, htrigger', hstate', hocc',
        hunblocked i trigger' state' k t htrigger' hstate' henabled' hocc' hearlier⟩
  exact ⟨n, Scheduler.processed_of_out hacc hfresh hn⟩

/--
**A due trigger is processed exactly when nothing before it is blocked.**  The loop
comes to its occurrence if and only if every occurrence of an enabled trigger that is
not later can be processed, its own one included: its workflow is enabled and the next
occurrence after it is a representable time.
-/
theorem due_processed_iff (hacc : Accepted db.definitions)
    (hfresh : Fresh draws db.executions) {id : UUID} {trigger : TriggerDefinitionModel}
    {state : ChronologicalTriggerStateModel}
    (htrigger : triggerDefinitionRow db.definitions id = some trigger)
    (hstate : triggerStateRow db.definitions id = some state) (henabled : trigger.enabled = true)
    (hdue : state.nextRunAt ≤ now) :
    (∃ n, Processed (Scheduler.run discovered draws now createdAt db n)
      (Scheduler.run discovered draws now createdAt db (n + 1)) id state.nextRunAt) ↔
      Unblocked db.definitions id state.nextRunAt :=
  ⟨fun ⟨_, hp⟩ => unblocked_of_processed hacc hfresh hp,
    processed_of_unblocked hacc hfresh htrigger hstate henabled hdue⟩

end Progress

/-! ### A disabled workflow -/

/-- Round by round other identifiers. -/
def sampleDraws (n : Nat) : Draws := ⟨n, fun i => Nat.pair n i⟩

theorem fresh_sampleDraws : Fresh sampleDraws .empty where
  workflow := by simp
  task := by simp
  workflow_injective := fun _ _ h => h
  task_injective := fun _ _ _ _ h => Nat.pair_eq_pair.mp h

/-- A workflow with one task. -/
def sampleWorkflow (id task : UUID) (enabled : Bool) : List (Sigma DefinitionRow) :=
  [⟨.workflow id, { name := "report", description := "", enabled }⟩,
    ⟨.task task,
      { workflowDefinitionId := id, key := "write", pluginType := "produce_value"
        configuration := [], maxTries := 1 }⟩]

/-- A trigger for every minute, with the time of its next run. -/
def sampleTrigger (id workflow : UUID) (nextRunAt : Datetime) : List (Sigma DefinitionRow) :=
  [⟨.trigger id,
      { workflowDefinitionId := workflow, pluginType := "interval"
        configuration := [("interval_seconds", .int 60)], enabled := true }⟩,
    ⟨.chronologicalTriggerState id, { nextRunAt }⟩]

/-- Two workflows with a trigger each, the first of them possibly disabled. -/
def twoWorkflowRows (enabled : Bool) : List (Sigma DefinitionRow) :=
  sampleWorkflow 1 11 enabled ++ sampleWorkflow 2 12 true ++ sampleTrigger 21 1 1 ++
    sampleTrigger 22 2 2

def twoWorkflows (enabled : Bool) : Database where
  definitions := .ofRows (twoWorkflowRows enabled)
  executions := .empty

theorem mem_twoWorkflowRows {enabled : Bool} {k : DefinitionRowId} {v : DefinitionRow k}
    (h : (twoWorkflows enabled).definitions.row k = some v) : ⟨k, v⟩ ∈ twoWorkflowRows enabled := by
  have hrows : (twoWorkflows enabled).definitions = .ofRows (twoWorkflowRows enabled) := rfl
  rw [hrows] at h
  exact Sql.Store.mem_of_row_ofRows h

/-- One task without dependencies makes a valid definition. -/
theorem valid_single {wd : WorkflowDefinition} (task : TaskDefinition)
    (h : wd.taskDefinitions = [task]) (hdeps : task.dependencies = []) (htries : 1 ≤ task.maxTries) :
    wd.Valid where
  nonempty := by simp [h]
  ids := by simp [h]
  keys := by simp [h]
  duplicates := by simp [h, hdeps]
  known := by simp [h, hdeps]
  acyclic := acyclic_of_rank (fun _ => 0) (by simp [h, hdeps])
  maxTries := by simpa [h] using htries

theorem trigger_twoWorkflows {enabled : Bool} {id : UUID} {trigger : TriggerDefinitionModel}
    (h : triggerDefinitionRow (twoWorkflows enabled).definitions id = some trigger) :
    (trigger.workflowDefinitionId = 1 ∨ trigger.workflowDefinitionId = 2) ∧
      trigger.pluginType = "interval" ∧
      trigger.configuration = [("interval_seconds", .int 60)] := by
  have hmem := mem_twoWorkflowRows h
  simp only [twoWorkflowRows, sampleWorkflow, sampleTrigger, List.cons_append, List.nil_append,
    List.mem_cons, Sigma.mk.injEq, reduceCtorEq, false_and, false_or, List.not_mem_nil,
    or_false] at hmem
  rcases hmem with ⟨hid, htr⟩ | ⟨hid, htr⟩
  · obtain rfl := DefinitionRowId.trigger.inj hid
    obtain rfl := eq_of_heq htr
    exact ⟨Or.inl rfl, rfl, rfl⟩
  · obtain rfl := DefinitionRowId.trigger.inj hid
    obtain rfl := eq_of_heq htr
    exact ⟨Or.inr rfl, rfl, rfl⟩

theorem accepted_twoWorkflows (enabled : Bool) : Accepted (twoWorkflows enabled).definitions := by
  refine ⟨?_, ?_, ?_⟩
  · intro id trigger h
    obtain ⟨-, htype, hconfiguration⟩ := trigger_twoWorkflows h
    rw [htype, hconfiguration]
    exact ⟨IntervalTrigger.plugin, rfl, rfl⟩
  · intro id trigger h
    obtain ⟨hworkflow | hworkflow, -⟩ := trigger_twoWorkflows h
    · rw [hworkflow]; cases enabled <;> rfl
    · rw [hworkflow]; cases enabled <;> rfl
  · intro id wd h
    have hid : id = 1 ∨ id = 2 := by
      cases hw : workflowDefinitionRow (twoWorkflows enabled).definitions id with
      | none =>
          unfold WorkflowDefinitionRepository.load at h
          rw [hw] at h
          simp at h
      | some w =>
          have hmem := mem_twoWorkflowRows hw
          simp only [twoWorkflowRows, sampleWorkflow, sampleTrigger, List.cons_append, List.nil_append,
            List.mem_cons, Sigma.mk.injEq, reduceCtorEq, false_and, false_or, List.not_mem_nil,
            or_false] at hmem
          rcases hmem with ⟨hid, -⟩ | ⟨hid, -⟩
          · exact Or.inl (DefinitionRowId.workflow.inj hid)
          · exact Or.inr (DefinitionRowId.workflow.inj hid)
    rcases hid with rfl | rfl
    · refine valid_single
        { id := 11, pluginType := "produce_value", key := "write", maxTries := 1 } ?_ rfl (by decide)
      cases enabled <;> exact (congrArg WorkflowDefinition.taskDefinitions (Option.some.inj h)).symm
    · refine valid_single
        { id := 12, pluginType := "produce_value", key := "write", maxTries := 1 } ?_ rfl (by decide)
      cases enabled <;> exact (congrArg WorkflowDefinition.taskDefinitions (Option.some.inj h)).symm

/-- With both workflows enabled the second trigger is processed in the second round. -/
theorem processed_twoWorkflows :
    Processed (Scheduler.run discovered sampleDraws 10 (fun _ => 10) (twoWorkflows true) 1)
      (Scheduler.run discovered sampleDraws 10 (fun _ => 10) (twoWorkflows true) 2) 22 2 where
  stood := by decide +kernel
  moved := ⟨_, some 60000002, rfl, rfl, by decide +kernel⟩
  started :=
    ⟨_, { id := 1, workflowDefinitionId := 2, status := .running, taskExecutions := []
          createdAt := 10 }, rfl, rfl, by decide +kernel, by rfl⟩

/-- So nothing before it is blocked. -/
theorem due_processed_sample :
    Processed (Scheduler.run discovered sampleDraws 10 (fun _ => 10) (twoWorkflows true) 1)
      (Scheduler.run discovered sampleDraws 10 (fun _ => 10) (twoWorkflows true) 2) 22 2 ∧
      Unblocked (twoWorkflows true).definitions 22 2 :=
  ⟨processed_twoWorkflows, (@due_processed_iff _ _ _ _ (accepted_twoWorkflows true)
    fresh_sampleDraws 22 _ { nextRunAt := 2 } rfl rfl rfl (by decide)).mp
      ⟨1, processed_twoWorkflows⟩⟩

/-- **A trigger of a disabled workflow hides all later ones.**  The second workflow and its
trigger are enabled and the trigger is due, and it is never processed. -/
theorem disabled_workflow_hides :
    Accepted (twoWorkflows false).definitions ∧ Fresh sampleDraws (twoWorkflows false).executions ∧
      (∃ trigger, triggerDefinitionRow (twoWorkflows false).definitions 22 = some trigger ∧
        trigger.enabled = true ∧ (discovered trigger.pluginType).isSome = true ∧
        ∃ w, workflowDefinitionRow (twoWorkflows false).definitions trigger.workflowDefinitionId =
          some w ∧ w.enabled = true) ∧
      triggerStateRow (twoWorkflows false).definitions 22 = some { nextRunAt := 2 } ∧
      ¬ ∃ n, Processed
        (Scheduler.run discovered sampleDraws 10 (fun _ => 10) (twoWorkflows false) n)
        (Scheduler.run discovered sampleDraws 10 (fun _ => 10) (twoWorkflows false) (n + 1)) 22 2 := by
  refine ⟨accepted_twoWorkflows false, fresh_sampleDraws, ⟨_, rfl, rfl, rfl, _, rfl, rfl⟩, rfl, ?_⟩
  intro ⟨n, hp⟩
  have hunblocked := unblocked_of_processed (accepted_twoWorkflows false) fresh_sampleDraws hp
  -- The first trigger is due a microsecond earlier, and its workflow is disabled.
  obtain ⟨⟨w, hw, henabled⟩, -⟩ := hunblocked 21 _ { nextRunAt := 1 } 0 1 rfl rfl rfl rfl
    (Or.inl (by decide))
  have hdisabled : w.enabled = false :=
    (congrArg WorkflowDefinitionModel.enabled (Option.some.inj hw)).symm
  rw [hdisabled] at henabled
  simp at henabled

end AutomationPlatform
