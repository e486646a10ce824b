/-
No workflow gets stuck on its dependencies.

Three parts of the program have to agree for a workflow to come to its end: the validation,
which lets no cycle pass, the compilation, which turns edges into counters, and the completion
of a task, which counts them down.  Where they agree there is always a task to go on with: of
the tasks that are not completed, take one that depends on none of the others.

Calls run alone here, one after the other.
-/
import AutomationPlatform.Graph.Order
import AutomationPlatform.Proofs.Definitions.Create
import AutomationPlatform.Proofs.Executions.Inputs
import AutomationPlatform.Proofs.Executions.Release
import AutomationPlatform.Proofs.Executions.Serial

namespace AutomationPlatform

open WorkflowExecutionRepository

/-! ### What a call changes -/

section Changes

variable {s s' : ExecutionStore} {call : Call} {r : Except String CallResult}

/-- The call completes a task. -/
def hits (s : ExecutionStore) (call : Call) : Bool :=
  match call with
  | .completeTask request =>
      (taskRow s request.taskExecutionId).any fun t => t.status == .running
  | _ => false

theorem hits_of_row {request : CompleteTaskExecutionRequest} {t : TaskExecutionModel}
    (hrow : taskRow s request.taskExecutionId = some t) :
    hits s (.completeTask request) = (t.status == .running) := by
  show (taskRow s request.taskExecutionId).any _ = _
  rw [hrow]
  rfl

theorem not_hits {request : CompleteTaskExecutionRequest}
    (hmissed : ∀ t, taskRow s request.taskExecutionId = some t → t.status ≠ .running) :
    hits s (.completeTask request) = false := by
  show (taskRow s request.taskExecutionId).any _ = _
  rw [Option.any_eq_false]
  intro t ht
  simpa using hmissed t ht

/-- The completed tasks after a call: those before it, and the one it completes. -/
theorem Alone.completes (h : Alone s call r s') (i : UUID) :
    completed s' i = (completed s i || (hits s call && i == call.taskExecutionId)) := by
  cases r with
  | error e =>
      obtain rfl := h.raised
      cases h with
      | startRaised => simp [hits]
  | ok result =>
      cases call with
      | startTask id startedAt =>
          rw [completed_effect h.effect (by simp)]
          simp [hits]
      | retryTask request =>
          rw [completed_effect h.effect (by simp)]
          simp [hits]
      | completeTask request =>
          cases h with
          | completeMissed hmissed => simp [not_hits hmissed]
          | completeDone hrow hrunning =>
              rw [completed_complete hrow, hits_of_row hrow, hrunning, Bool.or_comm]
              simp [Call.taskExecutionId]

/-- A row that is there now was there before. -/
theorem StoreMove.before (h : StoreMove s s') {i : UUID} {t' : TaskExecutionModel}
    (hi : taskRow s' i = some t') : ∃ t, taskRow s i = some t ∧ TaskMove t t' := by
  have hkey := Sql.Store.mem_keys_of_row hi
  rw [h.keys, s.mem_keys] at hkey
  obtain ⟨t, ht⟩ := Option.isSome_iff_exists.mp hkey
  obtain ⟨t'', ht'', hmove⟩ := h.task i t ht
  obtain rfl : t'' = t' := Option.some.inj (ht''.symm.trans hi)
  exact ⟨t, ht, hmove⟩

/-- **The completion of the last task ends its workflow.** -/
theorem Alone.ends (h : Alone s call r s') (hs : Coherent s) {i : UUID}
    {w : WorkflowExecutionModel} (hw : workflowRow s i = some w)
    (hbefore : (∀ j t, taskRow s j = some t → t.workflowExecutionId = i → t.status = .completed) →
      w.status = .completed)
    (hall : ∀ j t, taskRow s' j = some t → t.workflowExecutionId = i → t.status = .completed) :
    ∃ w', workflowRow s' i = some w' ∧ w'.status = .completed := by
  have hmove := h.move hs
  have hafter : ∀ j t, taskRow s j = some t → t.workflowExecutionId = i →
      completed s' j = true := by
    intro j t hj hwf
    obtain ⟨t', hj', htm⟩ := hmove.task j t hj
    rw [completed_of_row hj', hall j t' hj' (htm.same.workflowExecutionId.trans hwf)]
    rfl
  by_cases hdone : ∀ j t, taskRow s j = some t → t.workflowExecutionId = i → t.status = .completed
  · obtain ⟨w', hw', hsame⟩ := hmove.workflow i w hw
    exact ⟨w', hw', by rw [hsame (Or.inl (hbefore hdone)), hbefore hdone]⟩
  · simp only [not_forall] at hdone
    obtain ⟨j, t, hj, hwf, hopen⟩ := hdone
    -- The call has completed a task that was open.
    have hj' := hafter j t hj hwf
    rw [h.completes, completed_of_row hj, beq_eq_false_iff_ne.mpr hopen, Bool.false_or,
      Bool.and_eq_true, beq_iff_eq] at hj'
    obtain ⟨hhits, rfl⟩ := hj'
    cases h with
    | completeMissed hmissed => rw [not_hits hmissed] at hhits; simp at hhits
    | @completeDone request t₀ hrow hrunning =>
        obtain rfl : t = t₀ := Option.some.inj (hj.symm.trans hrow)
        have hlast : lastOfWorkflow s request.taskExecutionId t = true := by
          rw [lastOfWorkflow_iff]
          intro k u hk hwu hne
          have hk' := hafter k u hk (hwu.trans hwf)
          rw [completed_complete hrow, completed_of_row hk] at hk'
          simpa [hne] using hk'
        refine ⟨w.finish .completed request.completedAt, ?_, rfl⟩
        rw [workflowRow_mapRows, hw, hlast, ← hwf, Option.map_some, completeChange_finish]
    | _ => simp [hits] at hhits

end Changes

/-! ### One workflow -/

/-- One of the tasks waits for another task. -/
def WaitsFor (s : ExecutionStore) (ids : List UUID) (child parent : UUID) : Prop :=
  child ∈ ids ∧ ∃ t, taskRow s child = some t ∧ parent ∈ t.parentTaskIds

/-- A workflow execution and the identifiers of its tasks, in a store of many. -/
structure Executing (s : ExecutionStore) (workflowId : UUID) (ids : List UUID) : Prop where
  coherent : Coherent s
  distinct : ids.Nodup
  nonempty : ids ≠ []
  stored : ∀ i ∈ ids, (taskRow s i).isSome = true
  tasks : ∀ i t, taskRow s i = some t → (t.workflowExecutionId = workflowId ↔ i ∈ ids)
  acyclic : ∀ i, ¬ Relation.TransGen (WaitsFor s ids) i i
  finished : (∀ i ∈ ids, completed s i = true) →
    ∃ w, workflowRow s workflowId = some w ∧ w.status = .completed

/-- The task is being worked on, or waits for nothing but being taken. -/
def Workable (s : ExecutionStore) (i : UUID) : Prop :=
  ∃ t, taskRow s i = some t ∧
    (t.status = .running ∨ (t.status = .pending ∧ t.remainingDependencies = 0))

namespace Executing

variable {s s' : ExecutionStore} {workflowId : UUID} {ids : List UUID} {call : Call}
  {r : Except String CallResult}

/-- The parents of a task are tasks of the same workflow. -/
theorem mem_of_parent (h : Executing s workflowId ids) {i p : UUID} {t : TaskExecutionModel}
    (hi : i ∈ ids) (ht : taskRow s i = some t) (hp : p ∈ t.parentTaskIds) : p ∈ ids := by
  obtain ⟨tp, htp, hw, -⟩ := h.coherent.parents i t ht p hp
  exact (h.tasks p tp htp).mp (hw.trans ((h.tasks i t ht).mpr hi))

theorem workflow (h : Executing s workflowId ids) : ∃ w, workflowRow s workflowId = some w := by
  obtain ⟨i, hi⟩ := List.exists_mem_of_ne_nil _ h.nonempty
  obtain ⟨t, ht⟩ := Option.isSome_iff_exists.mp (h.stored i hi)
  have hw := h.coherent.workflow i t ht
  rw [(h.tasks i t ht).mpr hi] at hw
  exact Option.isSome_iff_exists.mp hw

/-- A workflow is completed exactly when its tasks are. -/
theorem completed_iff (h : Executing s workflowId ids) :
    (∃ w, workflowRow s workflowId = some w ∧ w.status = .completed) ↔
      ∀ i ∈ ids, completed s i = true := by
  refine ⟨?_, h.finished⟩
  intro ⟨w, hw, hc⟩ i hi
  obtain ⟨t, ht⟩ := Option.isSome_iff_exists.mp (h.stored i hi)
  have hadm := h.coherent.admits i t w ht (by rw [(h.tasks i t ht).mpr hi, hw])
  rw [hc] at hadm
  exact AutomationPlatform.completed_iff.mpr ⟨t, ht, hadm⟩

/-- **There is a task to go on with**, as long as the workflow runs and one is left. -/
theorem exists_workable (h : Executing s workflowId ids) {w : WorkflowExecutionModel}
    (hw : workflowRow s workflowId = some w) (hrunning : w.status = .running)
    (hleft : ∃ i ∈ ids, completed s i = false) : ∃ i ∈ ids, Workable s i := by
  obtain ⟨i, hi, hc⟩ := hleft
  obtain ⟨m, hm, hsource⟩ := Graph.exists_source h.acyclic
    (ids.filter fun j => !completed s j).toFinset
    ⟨i, List.mem_toFinset.mpr (List.mem_filter.mpr ⟨hi, by rw [hc]; rfl⟩)⟩
  obtain ⟨hmem, hopen⟩ := List.mem_filter.mp (List.mem_toFinset.mp hm)
  obtain ⟨t, ht⟩ := Option.isSome_iff_exists.mp (h.stored m hmem)
  rw [completed_of_row ht] at hopen
  refine ⟨m, hmem, t, ht, ?_⟩
  have hadm := h.coherent.admits m t w ht (by rw [(h.tasks m t ht).mpr hmem, hw])
  rw [hrunning] at hadm
  rcases hadm with hp | hr | hcompleted
  · -- All its parents are completed, for it depends on nothing that is not.
    refine Or.inr ⟨hp, (h.coherent.counterExact ht hp).zero_iff.mpr fun p hpar => ?_⟩
    by_contra hnot
    refine hsource p (List.mem_toFinset.mpr (List.mem_filter.mpr ⟨?_, ?_⟩)) ⟨hmem, t, ht, hpar⟩
    · exact h.mem_of_parent hmem ht hpar
    · simpa using hnot
  · exact Or.inl hr
  · rw [hcompleted] at hopen
    simp at hopen

/-! ### One call -/

/-- The last task of the workflow ends it. -/
theorem finish (h : Executing s workflowId ids) (halone : Alone s call r s')
    (hall : ∀ i ∈ ids, completed s' i = true) :
    ∃ w, workflowRow s' workflowId = some w ∧ w.status = .completed := by
  obtain ⟨w, hw⟩ := h.workflow
  refine halone.ends h.coherent hw (fun hbefore => ?_) fun j t' hj hwf => ?_
  · obtain ⟨w', hw', hc⟩ := h.finished fun i hi => by
      obtain ⟨t, ht⟩ := Option.isSome_iff_exists.mp (h.stored i hi)
      exact AutomationPlatform.completed_iff.mpr
        ⟨t, ht, hbefore i t ht ((h.tasks i t ht).mpr hi)⟩
    obtain rfl : w' = w := Option.some.inj (hw'.symm.trans hw)
    exact hc
  · obtain ⟨t, ht, hmove⟩ := (halone.move h.coherent).before hj
    have hmem := (h.tasks j t ht).mp (hmove.same.workflowExecutionId.symm.trans hwf)
    have hcompleted := hall j hmem
    rw [completed_of_row hj] at hcompleted
    exact beq_iff_eq.mp hcompleted

/-- A call leaves the workflow the workflow it is. -/
theorem step (h : Executing s workflowId ids) (halone : Alone s call r s') :
    Executing s' workflowId ids := by
  have hmove := halone.move h.coherent
  refine ⟨halone.coherent h.coherent, h.distinct, h.nonempty, ?_, ?_, ?_, h.finish halone⟩
  · intro i hi
    obtain ⟨t, ht⟩ := Option.isSome_iff_exists.mp (h.stored i hi)
    obtain ⟨t', ht', -⟩ := hmove.task i t ht
    rw [ht']
    rfl
  · intro i t' hi
    obtain ⟨t, ht, htm⟩ := hmove.before hi
    rw [htm.same.workflowExecutionId]
    exact h.tasks i t ht
  · intro i hcycle
    refine h.acyclic i (Relation.TransGen.mono (fun c p hcp => ?_) i i hcycle)
    obtain ⟨hc, t', ht', hp⟩ := hcp
    obtain ⟨t, ht, htm⟩ := hmove.before ht'
    exact ⟨hc, t, ht, htm.same.parentTaskIds ▸ hp⟩

end Executing

/-! ### Counting completions -/

/-- The call completes one of the tasks. -/
def completesOne (ids : List UUID) (s : ExecutionStore) (call : Call) : Bool :=
  hits s call && decide (call.taskExecutionId ∈ ids)

/-- How many of the calls complete one of the tasks. -/
def completions (ids : List UUID) (s : ExecutionStore) : List Call → Nat
  | [] => 0
  | call :: rest =>
      (completesOne ids s call).toNat + completions ids (call.body.exec s).1 rest

/-- The call reports that the workflow is completed. -/
def reportsCompleted : Except String CallResult → Bool
  | .ok (.completed result) => result.workflowCompleted
  | _ => false

theorem completions_append (ids : List UUID) (s : ExecutionStore) (calls more : List Call) :
    completions ids s (calls ++ more) =
      completions ids s calls + completions ids (runCalls s calls) more := by
  induction calls generalizing s with
  | nil => simp [completions, runCalls]
  | cons call rest ih =>
      show _ + completions ids _ (rest ++ more) = _
      rw [ih, ← Nat.add_assoc]
      rfl

/-- One more member of a list without repetitions. -/
theorem countP_or_eq {ids : List UUID} (hids : ids.Nodup) {p : UUID → Bool} {k : UUID}
    (hk : k ∈ ids) (hp : p k = false) :
    ids.countP (fun i => p i || i == k) = ids.countP p + 1 := by
  obtain ⟨a, b, rfl⟩ := List.append_of_mem hk
  have hsame : ∀ l : List UUID, k ∉ l → l.countP (fun i => p i || i == k) = l.countP p := by
    intro l hl
    refine List.countP_congr fun i hi => ?_
    have hne : i ≠ k := fun heq => hl (heq ▸ hi)
    simp [hne]
  obtain ⟨-, hb, hdisjoint⟩ := List.nodup_append.mp hids
  rw [List.countP_append, List.countP_append, List.countP_cons, List.countP_cons,
    hsame a fun hka => hdisjoint k hka k (by simp) rfl,
    hsame b (List.nodup_cons.mp hb).1]
  simp [hp]
  omega

namespace Executing

variable {s s' : ExecutionStore} {workflowId : UUID} {ids : List UUID} {call : Call}
  {r : Except String CallResult}

/-- The number of completed tasks after a call. -/
theorem countP_step (h : Executing s workflowId ids) (halone : Alone s call r s') :
    ids.countP (completed s') = ids.countP (completed s) + (completesOne ids s call).toNat := by
  have hcompleted : completed s' =
      fun i => completed s i || (hits s call && i == call.taskExecutionId) :=
    funext halone.completes
  rw [hcompleted]
  cases hhits : hits s call with
  | false => simp [completesOne, hhits]
  | true =>
      by_cases hmem : call.taskExecutionId ∈ ids
      · have hopen : completed s call.taskExecutionId = false := by
          cases halone with
          | completeMissed hmissed => rw [not_hits hmissed] at hhits; simp at hhits
          | completeDone hrow hrunning => simp [Call.taskExecutionId, completed_of_row hrow, hrunning]
          | _ => simp [hits] at hhits
        simp only [completesOne, hhits, hmem, Bool.true_and, decide_true, Bool.toNat_true]
        exact countP_or_eq h.distinct hmem hopen
      · simp only [completesOne, hhits, hmem, Bool.true_and, decide_false, Bool.toNat_false,
          Nat.add_zero]
        refine List.countP_congr fun i hi => ?_
        have hne : i ≠ call.taskExecutionId := fun heq => hmem (heq ▸ hi)
        simp [hne]

/-- The completion that leaves no task open, and only that one, reports it. -/
theorem reported (h : Executing s workflowId ids) (halone : Alone s call r s')
    (hmem : call.taskExecutionId ∈ ids) :
    reportsCompleted r = true ↔
      completesOne ids s call = true ∧ ∀ i ∈ ids, completed s' i = true := by
  cases halone with
  | completeMissed hmissed => simp [reportsCompleted, completesOne, not_hits hmissed]
  | @completeDone request t hrow hrunning =>
      have hhits : completesOne ids s (.completeTask request) = true := by
        simp only [completesOne, hits_of_row hrow, hrunning, decide_eq_true hmem]
        rfl
      have hwf := (h.tasks _ t hrow).mpr hmem
      simp only [hhits, true_and, reportsCompleted, TaskExecutionModel.completeResult]
      rw [lastOfWorkflow_iff]
      constructor
      · intro hlast i hi
        obtain ⟨u, hu⟩ := Option.isSome_iff_exists.mp (h.stored i hi)
        rw [completed_complete hrow, completed_of_row hu, Bool.or_eq_true, beq_iff_eq, beq_iff_eq]
        by_cases hid : i = request.taskExecutionId
        · exact Or.inl hid
        · exact Or.inr (hlast i u hu (((h.tasks i u hu).mpr hi).trans hwf.symm) hid)
      · intro hall j u hj huw hne
        have hj' := hall j ((h.tasks j u hj).mp (huw.trans hwf))
        rw [completed_complete hrow, completed_of_row hj] at hj'
        simpa [hne] using hj'
  | _ => simp [reportsCompleted, completesOne, hits]

/-- A task that can be worked on can be taken and completed. -/
theorem completions_workable (h : Executing s workflowId ids) {i : UUID} (hi : i ∈ ids)
    (hworkable : Workable s i) (startedAt : Datetime) (output : TaskOutput)
    (completedAt : Datetime) :
    completions ids s [.startTask i startedAt,
      .completeTask { taskExecutionId := i, output, completedAt }] = 1 := by
  obtain ⟨t, ht, hworks⟩ := hworkable
  have hterminal : t.status.isTerminal = false := by
    rcases hworks with hr | ⟨hp, -⟩
    · rw [hr]; rfl
    · rw [hp]; rfl
  obtain ⟨s', r, hexec, halone⟩ := alone_exec h.coherent (.startTask i startedAt)
  have hrunning : ∃ t', taskRow s' i = some t' ∧ t'.status = .running := by
    cases halone with
    | startRefused hover =>
        have := hover t ht
        rw [hterminal] at this
        simp at this
    | startRaised hrow _ hparents =>
        obtain rfl := Option.some.inj (ht.symm.trans hrow)
        rcases hworks with hr | ⟨hp, hzero⟩
        · exact ⟨t, ht, hr⟩
        · obtain ⟨outputs, hok⟩ := collectOutputs_completed h.coherent
            ((h.coherent.counterExact ht hp).zero_iff.mp hzero)
          rw [hok] at hparents
          simp at hparents
    | startResumed hrow hrunning _ => exact ⟨_, hrow, hrunning⟩
    | startTaken hrow _ _ =>
        exact ⟨_, by rw [taskRow_mapRows, hrow]; rfl, by simp [startChange, TaskExecutionModel.start]⟩
  obtain ⟨t', ht', hr⟩ := hrunning
  have hlast : completesOne ids s' (.completeTask { taskExecutionId := i, output, completedAt }) =
      true := by
    unfold completesOne
    rw [hits_of_row ht', hr]
    simp [Call.taskExecutionId, hi]
  show _ + (_ + 0) = 1
  rw [hexec, hlast]
  rfl

/-! ### Many calls -/

/-- Many calls leave the workflow the workflow it is, with as many more completed tasks as there
were completions. -/
theorem run (h : Executing s workflowId ids) (calls : List Call) :
    Executing (runCalls s calls) workflowId ids ∧
      ids.countP (completed (runCalls s calls)) =
        ids.countP (completed s) + completions ids s calls := by
  induction calls generalizing s with
  | nil => exact ⟨h, rfl⟩
  | cons call rest ih =>
      obtain ⟨s', r, hexec, halone⟩ := alone_exec h.coherent call
      obtain ⟨hexecuting, hcount⟩ := ih (h.step halone)
      have hrun : runCalls s (call :: rest) = runCalls s' rest := by
        show runCalls (call.body.exec s).1 rest = _
        rw [hexec]
      have hcompletions : completions ids s (call :: rest) =
          (completesOne ids s call).toNat + completions ids s' rest := by
        show _ + completions ids (call.body.exec s).1 rest = _
        rw [hexec]
      rw [hrun, hcompletions]
      refine ⟨hexecuting, ?_⟩
      rw [hcount, h.countP_step halone]
      omega

end Executing

/-! ### A new workflow -/

open WorkflowStartService

section Created

variable {draws : Draws} {now : Datetime} {wd : WorkflowDefinition} {s s' : ExecutionStore}

/-- The identifiers of the tasks of a new execution. -/
theorem taskIds_compiled : (compiled draws now wd).taskExecutions.map (·.id) =
    wd.taskDefinitions.map fun d => draws.taskExecutionId d.id := by
  simp [compiled, compiledTask, Function.comp_def]

/-- Between new tasks, waiting is depending. -/
theorem dependsOn_of_waitsFor (hvalid : wd.Valid)
    (hins : s.insert? (WorkflowExecutionMapper.workflowToRows (compiled draws now wd)) = some s')
    {child parent : UUID}
    (h : Relation.TransGen
      (WaitsFor s' (wd.taskDefinitions.map fun d => draws.taskExecutionId d.id)) child parent) :
    ∃ d ∈ wd.taskDefinitions, ∃ e ∈ wd.taskDefinitions, child = draws.taskExecutionId d.id ∧
      parent = draws.taskExecutionId e.id ∧ Relation.TransGen wd.DependsOn d.id e.id := by
  have hone : ∀ {child parent : UUID},
      WaitsFor s' (wd.taskDefinitions.map fun d => draws.taskExecutionId d.id) child parent →
      ∃ d ∈ wd.taskDefinitions, ∃ e ∈ wd.taskDefinitions, child = draws.taskExecutionId d.id ∧
        parent = draws.taskExecutionId e.id ∧ wd.DependsOn d.id e.id := by
    intro child parent ⟨hchild, t, ht, hp⟩
    obtain ⟨d, hd, rfl⟩ := List.mem_map.mp hchild
    obtain rfl : compiledRow draws wd d = t :=
      Option.some.inj ((taskRow_created hins hd).1.symm.trans ht)
    obtain ⟨p, hpd, rfl⟩ := List.mem_map.mp hp
    obtain ⟨e, he, rfl⟩ := List.mem_map.mp (hvalid.known d hd p hpd)
    exact ⟨d, hd, e, he, rfl, rfl, d, hd, rfl, hpd⟩
  induction h with
  | single hstep =>
      obtain ⟨d, hd, e, he, hc, hp, hdep⟩ := hone hstep
      exact ⟨d, hd, e, he, hc, hp, .single hdep⟩
  | tail _ hstep ih =>
      obtain ⟨d, hd, e, he, hc, rfl, hde⟩ := ih
      obtain ⟨e', he', f, hf, hcf, hpf, hdep⟩ := hone hstep
      obtain rfl := draws_injective hins he he' hcf
      exact ⟨d, hd, f, hf, hc, hpf, hde.tail hdep⟩

/-- A new execution of a valid definition is a workflow and its tasks. -/
theorem executing_created (hs : Coherent s) (hvalid : wd.Valid)
    (hins : s.insert? (WorkflowExecutionMapper.workflowToRows (compiled draws now wd)) = some s') :
    Executing s' (compiled draws now wd).id
      ((compiled draws now wd).taskExecutions.map (·.id)) := by
  have hcreated := created_of_insert hvalid hins
  rw [taskIds_compiled]
  refine ⟨hs.created hcreated, ?_, ?_, ?_, ?_, ?_, ?_⟩
  · refine hvalid.ids.of_map.map_on fun d hd e he heq => draws_injective hins hd he heq
  · simpa using hvalid.nonempty
  · intro i hi
    obtain ⟨d, hd, rfl⟩ := List.mem_map.mp hi
    rw [(taskRow_created hins hd).1]
    rfl
  · intro i t hi
    constructor
    · intro hw
      rcases Sql.Store.row_insert?_cases hins hi with ⟨hmem, -⟩ | hold
      · obtain ⟨d, hd, hid, -⟩ := mem_compiled_task.mp hmem
        exact List.mem_map.mpr ⟨d, hd, hid⟩
      · have hwf := hs.workflow i t hold
        rw [hw, show workflowRow s (compiled draws now wd).id = none from hcreated.fresh] at hwf
        simp at hwf
    · intro hmem
      obtain ⟨d, hd, rfl⟩ := List.mem_map.mp hmem
      obtain rfl : compiledRow draws wd d = t :=
        Option.some.inj ((taskRow_created hins hd).1.symm.trans hi)
      rfl
  · intro i hcycle
    obtain ⟨d, hd, e, he, hc, hp, hde⟩ := dependsOn_of_waitsFor hvalid hins hcycle
    obtain rfl := draws_injective hins hd he (hc.symm.trans hp)
    exact hvalid.acyclic d.id hde
  · intro hall
    obtain ⟨d, hd⟩ := List.exists_mem_of_ne_nil _ hvalid.nonempty
    have hopen := hall _ (List.mem_map_of_mem (f := fun d => draws.taskExecutionId d.id) hd)
    rw [completed_of_row (taskRow_created hins hd).1] at hopen
    simp [WorkflowExecutionMapper.taskToModel, compiledTask] at hopen

/-- None of its tasks is completed. -/
theorem countP_created
    (hins : s.insert? (WorkflowExecutionMapper.workflowToRows (compiled draws now wd)) = some s') :
    ((compiled draws now wd).taskExecutions.map (·.id)).countP (completed s') = 0 := by
  rw [taskIds_compiled, List.countP_eq_zero]
  intro i hi
  obtain ⟨d, hd, rfl⟩ := List.mem_map.mp hi
  rw [completed_of_row (taskRow_created hins hd).1]
  simp [WorkflowExecutionMapper.taskToModel, compiledTask]

end Created

/-- What holds of a workflow after some calls, on its own tasks or on any others. -/
structure NeverStuck (s : ExecutionStore) (workflowId : UUID) (ids : List UUID)
    (calls : List Call) : Prop where
  /-- As long as it runs and a task is left, there is one to go on with. -/
  workable : ∀ w, workflowRow (runCalls s calls) workflowId = some w → w.status = .running →
    (∃ i ∈ ids, completed (runCalls s calls) i = false) →
    ∃ i ∈ ids, Workable (runCalls s calls) i
  /-- It is running or will be found. -/
  found : ∀ i, Workable (runCalls s calls) i →
    (∃ t, taskRow (runCalls s calls) i = some t ∧ t.status = .running) ∨
      ∃ found, findRunnableIds.exec (runCalls s calls) = (runCalls s calls, .ok found) ∧ i ∈ found
  /-- It can be taken and completed. -/
  completable : ∀ i ∈ ids, Workable (runCalls s calls) i → ∀ startedAt output completedAt,
    completions ids s (calls ++ [.startTask i startedAt,
      .completeTask { taskExecutionId := i, output, completedAt }]) = completions ids s calls + 1
  /-- There are at most as many completions as tasks. -/
  bounded : completions ids s calls ≤ ids.length
  /-- With as many, all tasks are completed. -/
  allCompleted : completions ids s calls = ids.length ↔
    ∀ i ∈ ids, completed (runCalls s calls) i = true
  /-- Then the workflow is, and not before. -/
  finished : completions ids s calls = ids.length ↔
    ∃ w, workflowRow (runCalls s calls) workflowId = some w ∧ w.status = .completed
  /-- The last completion reports it, and no other call does. -/
  reported : ∀ call : Call, call.taskExecutionId ∈ ids →
    (reportsCompleted (call.body.exec (runCalls s calls)).2 = true ↔
      completions ids s calls < ids.length ∧ completions ids s (calls ++ [call]) = ids.length)

/-- What the reconciler looks for, it finds. -/
theorem mem_findRunnableIds {s : ExecutionStore} {i : UUID} {t : TaskExecutionModel}
    (hi : taskRow s i = some t) (hp : t.status = .pending) (hzero : t.remainingDependencies = 0) :
    ∃ found, findRunnableIds.exec s = (s, .ok found) ∧ i ∈ found := by
  refine ⟨((taskTable s).filter fun e =>
    e.2.status == .pending && e.2.remainingDependencies == 0).map (·.1), ?_, ?_⟩
  · show (s.overlay Sql.Writes.empty, _) = _
    rw [Sql.Store.overlay_empty]
  · refine List.mem_map.mpr ⟨(i, t), List.mem_filter.mpr ⟨mem_taskTable.mpr hi, ?_⟩, rfl⟩
    simp [hp, hzero]

theorem Executing.neverStuck {s : ExecutionStore} {workflowId : UUID} {ids : List UUID}
    (h : Executing s workflowId ids) (hnew : ids.countP (completed s) = 0) (calls : List Call) :
    NeverStuck s workflowId ids calls := by
  obtain ⟨hrun, hcount⟩ := h.run calls
  rw [hnew, Nat.zero_add] at hcount
  have hall : completions ids s calls = ids.length ↔
      ∀ i ∈ ids, completed (runCalls s calls) i = true := by
    rw [← hcount, List.countP_eq_length]
  refine ⟨?_, ?_, ?_, ?_, hall, ?_, ?_⟩
  · intro w hw hrunning hleft
    exact hrun.exists_workable hw hrunning hleft
  · intro i ⟨t, ht, hworks⟩
    rcases hworks with hr | ⟨hp, hzero⟩
    · exact Or.inl ⟨t, ht, hr⟩
    · exact Or.inr (mem_findRunnableIds ht hp hzero)
  · intro i hi hworkable startedAt output completedAt
    rw [completions_append, hrun.completions_workable hi hworkable]
  · rw [← hcount]
    exact List.countP_le_length
  · rw [hall]
    exact hrun.completed_iff.symm
  · intro call hmem
    obtain ⟨s', r, hexec, halone⟩ := alone_exec hrun.coherent call
    have hstep := hrun.countP_step halone
    have hlast := hrun.reported halone hmem
    have happend : completions ids s (calls ++ [call]) = ids.countP (completed s') := by
      rw [completions_append, ← hcount, hstep]
      rfl
    rw [hexec, hlast, ← List.countP_eq_length, happend]
    have hle : ids.countP (completed s') ≤ ids.length := List.countP_le_length
    cases hone : completesOne ids (runCalls s calls) call with
    | false =>
        rw [hone] at hstep
        simp only [Bool.toNat_false] at hstep
        simp only [Bool.false_eq_true, false_and, false_iff]
        omega
    | true =>
        rw [hone] at hstep
        simp only [Bool.toNat_true] at hstep
        simp only [true_and]
        omega

/-- **No workflow gets stuck.**  A workflow compiled from a request that passes the validation
has a task to go on with as long as it runs, after any calls; it is completed with as many
completions as it has tasks, in any order, and the last of them reports it. -/
theorem never_stuck {db : ExecutionDb} (h : ReachableDb db) {taskRegistry : TaskRegistry}
    {definitionDraws : DefinitionDraws} {request : CreateWorkflowDefinition}
    (hinjective : Function.Injective definitionDraws.taskDefinitionId)
    (haccepted : WorkflowDefinitionService.validateTasks taskRegistry request.tasks = .ok ())
    {wd : WorkflowDefinition}
    (hstored : wd.SameUpToOrder (WorkflowDefinitionService.requested definitionDraws request))
    {draws : Draws} {now : Datetime} {workflow : WorkflowExecution} {roots : List UUID}
    (hcompiled : createWorkflowExecution draws now wd = .ok (workflow, roots)) {s : ExecutionStore}
    (hcreated : create db.store workflow = some s) (calls : List Call) :
    NeverStuck s workflow.id (workflow.taskExecutions.map (·.id)) calls := by
  have hvalid := WorkflowDefinitionService.valid_of_same hstored
    (WorkflowDefinitionService.requested_valid hinjective haccepted)
  obtain ⟨rfl, rfl⟩ := compiled_of_create hvalid.linked hcompiled
  exact (executing_created (reachable_coherent h) hvalid hcreated).neverStuck
    (countP_created hcreated) calls

/-- A diamond, in an empty store, with its first task started. -/
theorem never_stuck_diamond : ∃ workflow roots s,
    createWorkflowExecution { workflowExecutionId := 0, taskExecutionId := id } 0
      (WorkflowDefinitionService.requested WorkflowDefinitionService.firstDraws
        WorkflowDefinitionService.diamondRequest) = .ok (workflow, roots) ∧
    create (Sql.Db.init : ExecutionDb).store workflow = some s ∧
    NeverStuck s workflow.id (workflow.taskExecutions.map (·.id))
      [.startTask (WorkflowDefinitionService.firstDraws.taskDefinitionId "a") 10] := by
  have hinjective := WorkflowDefinitionService.newIds_firstDraws.taskIds
  have hvalid := WorkflowDefinitionService.requested_valid hinjective
    WorkflowDefinitionService.validateTasks_diamond
  have hcompiled := createWorkflowExecution_eq { workflowExecutionId := 0, taskExecutionId := id } 0
    hvalid.linked
  have hcreated : ∃ s', create (Sql.Db.init : ExecutionDb).store
      (compiled { workflowExecutionId := 0, taskExecutionId := id } 0
        (WorkflowDefinitionService.requested WorkflowDefinitionService.firstDraws
          WorkflowDefinitionService.diamondRequest)) = some s' :=
    create_fresh 0 hvalid.linked (by simp [Sql.Db.init, Sql.Store.empty])
      (by simp [Sql.Db.init, Sql.Store.empty]) fun _ _ heq => heq
  obtain ⟨s, hs⟩ := hcreated
  exact ⟨_, _, s, hcompiled, hs, never_stuck .init hinjective
    WorkflowDefinitionService.validateTasks_diamond (.refl _) hcompiled hs _⟩

end AutomationPlatform
