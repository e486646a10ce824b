/-
What is answered to a start, and when.

A start is answered with 404 or 409 for what it finds.  It fails with 500 when an identifier is
taken, which changes nothing, and when the queue does not take its root tasks, which are then left
to the reconciler: the client is not told of the execution, but there is one.
-/
import AutomationPlatform.Proofs.Platform.Repair
import AutomationPlatform.Proofs.Queue.Publication
import AutomationPlatform.Proofs.System.Api

namespace AutomationPlatform

open WorkflowDefinitionRepository

/-- The identifiers of a new execution are not taken. -/
structure NewExecution (draws : Draws) (s : ExecutionStore) (wd : WorkflowDefinition) : Prop where
  workflow : workflowRow s draws.workflowExecutionId = none
  tasks : ∀ d ∈ wd.taskDefinitions, taskRow s (draws.taskExecutionId d.id) = none
  distinct : (wd.taskDefinitions.map fun d => draws.taskExecutionId d.id).Nodup

section Start

open WorkflowStartService WorkflowExecutionRepository PostgresExecutionQueue

variable {draws : Draws} {now : Datetime} {s s' : ExecutionStore} {wd : WorkflowDefinition}
  {definitions : DefinitionStore} {id : UUID}

/-- The rows of an execution are inserted exactly when its identifiers are new. -/
theorem create_compiled_iff : (∃ s', WorkflowExecutionRepository.create s (compiled draws now wd) =
    some s') ↔ NewExecution draws s wd := by
  unfold WorkflowExecutionRepository.create
  constructor
  · rintro ⟨s', h⟩
    obtain ⟨hnodup, hfree, -, -⟩ := Sql.Store.insert?_cases h
    unfold List.NodupKeys at hnodup
    rw [keys_compiled] at hnodup hfree
    have hnone : ∀ k ∈ (RowId.workflow draws.workflowExecutionId ::
        wd.taskDefinitions.map fun d => RowId.task (draws.taskExecutionId d.id)),
        s.row k = none := by
      intro k hk
      have hnot := hfree k hk
      rw [s.mem_keys, Option.not_isSome_iff_eq_none] at hnot
      exact hnot
    refine ⟨hnone _ (by simp), fun d hd => hnone _ ?_, ?_⟩
    · exact List.mem_cons_of_mem _ (List.mem_map_of_mem hd)
    · refine List.Nodup.of_map RowId.task ?_
      rw [List.map_map]
      exact (List.nodup_cons.mp hnodup).2
  · intro h
    unfold Sql.Store.insert?
    rw [dif_pos]
    · exact ⟨_, rfl⟩
    · rw [keys_compiled]
      refine ⟨List.nodup_cons.mpr ⟨by simp, ?_⟩, fun k hk => ?_⟩
      · have hdistinct := h.distinct.map (f := RowId.task) fun _ _ heq => RowId.task.inj heq
        rwa [List.map_map] at hdistinct
      · rw [s.mem_keys, Option.not_isSome_iff_eq_none]
        rcases List.mem_cons.mp hk with rfl | hk
        · exact h.workflow
        · obtain ⟨d, hd, rfl⟩ := List.mem_map.mp hk
          exact h.tasks d hd

/-- A new execution is read as it has been created. -/
theorem Faithful.taskModels_created (h : Faithful definitions s) (hvalid : wd.Valid)
    (hins : s.insert? (WorkflowExecutionMapper.workflowToRows (compiled draws now wd)) =
      some s') :
    (taskModels s' draws.workflowExecutionId).Perm
      (wd.taskDefinitions.map fun d => (draws.taskExecutionId d.id, compiledRow draws wd d)) := by
  have hcreated := created_of_insert hvalid hins
  have hdistinct : ((wd.taskDefinitions.map fun d =>
      (draws.taskExecutionId d.id, compiledRow draws wd d)).map Prod.fst).Nodup := by
    rw [List.map_map]
    exact (create_compiled_iff.mp ⟨s', hins⟩).distinct
  refine (List.perm_ext_iff_of_nodup (taskModels_nodup s' _).of_map hdistinct.of_map).mpr ?_
  rintro ⟨i, t⟩
  rw [mem_taskModels, List.mem_map]
  constructor
  · rintro ⟨hi, hwf⟩
    rcases Sql.Store.row_insert?_cases hins hi with ⟨hmem, -⟩ | hold
    · obtain ⟨d, hd, rfl, rfl⟩ := mem_compiled_task.mp hmem
      exact ⟨d, hd, rfl⟩
    · -- No task that was there belongs to it.
      obtain ⟨w, -, hw, -⟩ := h.task i t hold
      rw [hwf, hcreated.fresh] at hw
      simp at hw
  · rintro ⟨d, hd, heq⟩
    obtain ⟨rfl, rfl⟩ := Prod.mk.inj heq
    exact ⟨(taskRow_created hins hd).1, rfl⟩

/-- What is answered about a new execution. -/
structure GetWorkflowExecutionResponse.New (r : GetWorkflowExecutionResponse)
    (wd : WorkflowDefinition) : Prop where
  workflowDefinitionId : r.workflowDefinitionId = wd.id
  status : r.status = "RUNNING"
  tasks : (r.taskExecutions.map fun t => (t.taskDefinitionId, t.key, t.pluginType)).Perm
    (wd.taskDefinitions.map fun d => (d.id, d.key, d.pluginType))
  pending : ∀ t ∈ r.taskExecutions, t.status = "PENDING" ∧ t.output = none ∧
    t.errorMessage = none ∧ t.startedAt = none ∧ t.completedAt = none

/-- It is answered about at once. -/
theorem Faithful.answered (h : Faithful definitions s) (hvalid : wd.Valid)
    (hins : s.insert? (WorkflowExecutionMapper.workflowToRows (compiled draws now wd)) =
      some s') (order : Sql.RowOrder (UUID × TaskExecutionModel)) :
    ∃ r, getWorkflowExecution order s' s' draws.workflowExecutionId =
        { statusCode := 200, content := .getWorkflowExecution r } ∧ r.New wd ∧
      (r.taskExecutions.map fun t => (t.id, t.taskDefinitionId)).Perm
        (wd.taskDefinitions.map fun d => (draws.taskExecutionId d.id, d.id)) := by
  have hrow : workflowRow s' draws.workflowExecutionId =
      some (WorkflowExecutionMapper.workflowToModel (compiled draws now wd)) :=
    Sql.Store.row_insert?_new hins (mem_compiled_workflow.mpr ⟨rfl, rfl⟩)
  have htasks := (order.perm _).trans (h.taskModels_created hvalid hins)
  refine ⟨_, by rw [getWorkflowExecution_eq, hrow], ⟨rfl, rfl, ?_, ?_⟩, ?_⟩
  · rw [taskExecutions_answerOf, List.map_map]
    refine (htasks.map _).trans (List.Perm.of_eq ?_)
    rw [List.map_map]
    rfl
  · intro t ht
    rw [taskExecutions_answerOf, (htasks.map _).mem_iff, List.map_map] at ht
    obtain ⟨d, -, rfl⟩ := List.mem_map.mp ht
    exact ⟨rfl, rfl, rfl, rfl, rfl⟩
  · rw [taskExecutions_answerOf, List.map_map]
    refine (htasks.map _).trans (List.Perm.of_eq ?_)
    rw [List.map_map]
    rfl

/-- The definition is there and enabled, and its execution can be inserted. -/
structure System.Startable (x : System) (draws : Draws) (id : UUID) (wd : WorkflowDefinition) :
    Prop where
  stored : load x.definitions id = some wd
  enabled : wd.enabled = true
  new : NewExecution draws x.executions wd

theorem System.Sound.prepare_compiled {leaseTimeout : Timedelta} {x : System}
    (hx : x.Sound leaseTimeout) (hload : load x.definitions id = some wd)
    (henabled : wd.enabled = true) : prepare x.definitions draws now id =
      .ok (compiled draws now wd, rootsOf draws wd) := by
  simp only [prepare, hload, henabled, if_true,
    createWorkflowExecution_eq draws now (hx.definitions.valid hload).linked]

/-- What `start_and_commit` does, by what it finds. -/
theorem System.Reachable.startAndCommit_cases {leaseTimeout : Timedelta} {x : System}
    (h : x.Reachable leaseTimeout) (draws : Draws) (now : Datetime) (id : UUID) :
    (load x.definitions id = none ∧ ∃ message,
      WorkflowStartService.startAndCommit x.database draws now id =
        .error { class_ := .workflowDefinitionNotFound, message := message }) ∨
    ∃ wd, load x.definitions id = some wd ∧
      ((wd.enabled = false ∧ ∃ message,
        WorkflowStartService.startAndCommit x.database draws now id =
          .error { class_ := .workflowDefinitionDisabled, message := message }) ∨
      wd.enabled = true ∧
        ((¬ NewExecution draws x.executions wd ∧
          WorkflowStartService.startAndCommit x.database draws now id =
            .error { class_ := .integrity }) ∨
        ∃ s', x.executions.insert?
            (WorkflowExecutionMapper.workflowToRows (compiled draws now wd)) = some s' ∧
          NewExecution draws x.executions wd ∧
          WorkflowStartService.startAndCommit x.database draws now id =
            .ok ({ x.database with executions := s' }, compiled draws now wd,
              rootsOf draws wd))) := by
  cases hload : load x.definitions id with
  | none =>
      refine Or.inl ⟨rfl, "Workflow definition " ++ toString id ++ " does not exist.", ?_⟩
      simp only [startAndCommit, prepare, System.database, hload]
      rfl
  | some wd =>
      refine Or.inr ⟨wd, rfl, ?_⟩
      by_cases henabled : wd.enabled = true
      · refine Or.inr ⟨henabled, ?_⟩
        have hprepare : prepare x.database.definitions draws now id = _ :=
          h.sound.prepare_compiled hload henabled
        have hiff : (∃ s', WorkflowExecutionRepository.create x.database.executions
            (compiled draws now wd) = some s') ↔ NewExecution draws x.executions wd :=
          create_compiled_iff
        unfold startAndCommit
        rw [hprepare]
        cases hcreate : WorkflowExecutionRepository.create x.database.executions
            (compiled draws now wd) with
        | none =>
            refine Or.inl ⟨?_, ?_⟩
            · rw [← hiff, hcreate]
              simp
            · simp only [bind, Except.bind, hcreate]
        | some s' =>
            refine Or.inr ⟨s', hcreate, hiff.mp ⟨s', hcreate⟩, ?_⟩
            simp only [bind, Except.bind, hcreate]
            rfl
      · rw [Bool.not_eq_true] at henabled
        refine Or.inl ⟨henabled, "Workflow definition " ++ toString id ++ " is disabled.", ?_⟩
        simp only [startAndCommit, prepare, System.database, hload, henabled]
        rfl

/-- The root tasks are those that depend on nothing. -/
theorem mem_rootsOf_iff {r : GetWorkflowExecutionResponse} (hvalid : wd.Valid)
    (hids : (r.taskExecutions.map fun t => (t.id, t.taskDefinitionId)).Perm
      (wd.taskDefinitions.map fun d => (draws.taskExecutionId d.id, d.id))) {i : UUID} :
    i ∈ rootsOf draws wd ↔
      ∃ t ∈ r.taskExecutions, t.id = i ∧ ¬ ∃ k, wd.DependsOn t.taskDefinitionId k := by
  have hroot : ∀ d ∈ wd.taskDefinitions,
      d.dependencies.length = 0 ↔ ¬ ∃ k, wd.DependsOn d.id k := by
    intro d hd
    rw [List.length_eq_zero_iff, List.eq_nil_iff_forall_not_mem, not_exists]
    refine forall_congr' fun k => not_congr ⟨fun hk => ⟨d, hd, rfl, hk⟩, ?_⟩
    rintro ⟨d', hd', hid, hk⟩
    obtain rfl := List.inj_on_of_nodup_map hvalid.ids hd' hd hid
    exact hk
  simp only [rootsOf, List.mem_map, List.mem_filter, beq_iff_eq]
  constructor
  · rintro ⟨d, ⟨hd, hnone⟩, rfl⟩
    have hmem : (draws.taskExecutionId d.id, d.id) ∈
        r.taskExecutions.map fun t => (t.id, t.taskDefinitionId) := by
      exact hids.mem_iff.mpr (List.mem_map_of_mem hd)
    obtain ⟨t, ht, heq⟩ := List.mem_map.mp hmem
    obtain ⟨hi, htd⟩ := Prod.mk.inj heq
    exact ⟨t, ht, hi, htd ▸ (hroot d hd).mp hnone⟩
  · rintro ⟨t, ht, rfl, hnone⟩
    have hmem : (t.id, t.taskDefinitionId) ∈
        wd.taskDefinitions.map fun d => (draws.taskExecutionId d.id, d.id) := by
      exact hids.mem_iff.mp (List.mem_map_of_mem ht)
    obtain ⟨d, hd, heq⟩ := List.mem_map.mp hmem
    obtain ⟨hi, htd⟩ := Prod.mk.inj heq
    exact ⟨d, ⟨hd, (hroot d hd).mpr (htd ▸ hnone)⟩, hi⟩

/-- The execution of a definition is committed, and its root tasks are to be published. -/
def System.started (x : System) (publisher : Nat) (draws : Draws) (wd : WorkflowDefinition)
    (s' : ExecutionStore) : System :=
  { x with
    platform :=
      { x.platform.setPublishing publisher (some (rootsOf draws wd)) with
        db :=
          { x.platform.db with
            store := s'
            log := x.platform.db.log ++ [.inserted x.platform.db.store s'] } } }

theorem System.Sound.step_start {leaseTimeout : Timedelta} {x : System}
    (hx : x.Sound leaseTimeout) (hload : load x.definitions id = some wd)
    (henabled : wd.enabled = true) {publisher : Nat}
    (hidle : x.platform.publishing publisher = none)
    (hins : x.executions.insert? (WorkflowExecutionMapper.workflowToRows (compiled draws now wd)) =
      some s') :
    x.step leaseTimeout (.start publisher draws now id) =
      some (x.started publisher draws wd s') := by
  have hins : x.platform.db.store.insert?
      (WorkflowExecutionMapper.workflowToRows (compiled draws now wd)) = some s' := hins
  simp only [System.step, hx.prepare_compiled hload henabled, System.commitStart, hidle,
    Sql.Db.step, hins, Option.bind_eq_bind, Option.bind_some]
  rfl

/-- What the route does, the system does in two steps: it starts, and it publishes. -/
theorem startWorkflow_steps {leaseTimeout : Timedelta} {x : System} (h : x.Reachable leaseTimeout)
    {publisher : Nat} (hidle : x.platform.publishing publisher = none) {enqueuedAt : Datetime}
    (hnow : x.platform.queue.clock ≤ enqueuedAt) {response : Response} {db' : Database}
    {queue' : ExecutionQueue}
    (hanswer : startWorkflow draws now enqueuedAt x.database x.platform.queue.queue id =
      (response, db', queue')) :
    ∃ x', x.step leaseTimeout (.start publisher draws now id) = some x' ∧
      ((x' = x ∧ db' = x.database ∧ queue' = x.platform.queue.queue) ∨
      ∃ x'', x'.driverStep leaseTimeout (.run (.publish publisher enqueuedAt)) = some x'' ∧
        x''.database = db' ∧ x''.platform.queue.queue = queue') := by
  unfold startWorkflow at hanswer
  rcases h.startAndCommit_cases draws now id with
    ⟨hnone, message, hcommit⟩ | ⟨wd, hload, ⟨hdisabled, message, hcommit⟩ |
      ⟨henabled, ⟨hnew, hcommit⟩ | ⟨s', hins, -, hcommit⟩⟩⟩
  · simp only [hcommit, Prod.mk.injEq] at hanswer
    refine ⟨x, ?_, Or.inl ⟨rfl, hanswer.2.1.symm, hanswer.2.2.symm⟩⟩
    simp only [System.step, prepare, hnone]
  · simp only [hcommit, Prod.mk.injEq] at hanswer
    refine ⟨x, ?_, Or.inl ⟨rfl, hanswer.2.1.symm, hanswer.2.2.symm⟩⟩
    simp only [System.step, prepare, hload, hdisabled]
    rfl
  · simp only [hcommit, Prod.mk.injEq] at hanswer
    refine ⟨x, ?_, Or.inl ⟨rfl, hanswer.2.1.symm, hanswer.2.2.symm⟩⟩
    have hins : x.platform.db.store.insert?
        (WorkflowExecutionMapper.workflowToRows (compiled draws now wd)) = none := by
      rw [Option.eq_none_iff_forall_ne_some]
      exact fun s' hs' => hnew (create_compiled_iff.mp ⟨s', hs'⟩)
    simp only [System.step, h.sound.prepare_compiled hload henabled, System.commitStart, hidle,
      Sql.Db.step, hins, Option.bind_eq_bind, Option.bind_none]
  · refine ⟨_, h.sound.step_start hload henabled hidle hins, Or.inr ?_⟩
    have hpublish : (x.started publisher draws wd s').platform.driverStep leaseTimeout
        (.publish publisher enqueuedAt) = _ :=
      Platform.driverStep_publish (Function.update_self ..) hnow
    simp only [System.driverStep, hpublish, Option.bind_eq_bind, Option.bind_some]
    simp only [hcommit, enqueueThroughDriver_eq] at hanswer
    refine ⟨_, rfl, ?_⟩
    by_cases haccepted : accepted (rootsOf draws wd) = true
    · simp only [if_pos haccepted, Prod.mk.injEq] at hanswer ⊢
      exact ⟨hanswer.2.1, hanswer.2.2⟩
    · simp only [if_neg haccepted, Prod.mk.injEq] at hanswer ⊢
      exact ⟨hanswer.2.1, hanswer.2.2⟩

/--
**What is answered to a start.**  404 or 409 if the definition is not there or is disabled, 201 if
its execution has been inserted and its root tasks are queued, and 500 otherwise.

Without the insert nothing has changed.  With it the execution can be asked for at once, with a
task for each of the definition, in whatever order; and if the answer is 500 all the same, because
the queue takes no more than 10922 tasks at a time, none of them is queued.  The steps of the
system that the route takes are those of `startWorkflow_steps`.
-/
theorem start_answers {leaseTimeout : Timedelta} {x : System} (h : x.Reachable leaseTimeout)
    (draws : Draws) (now enqueuedAt : Datetime) (id : UUID) {response : Response} {db' : Database}
    {queue' : ExecutionQueue}
    (hanswer : startWorkflow draws now enqueuedAt x.database x.platform.queue.queue id =
      (response, db', queue')) :
    (response.statusCode = 404 ↔ load x.definitions id = none) ∧
    (response.statusCode = 409 ↔ ∃ wd, load x.definitions id = some wd ∧ wd.enabled = false) ∧
    (response.statusCode = 201 ↔ ∃ wd, x.Startable draws id wd ∧ (rootsOf draws wd).length ≤ 10922) ∧
    (response.statusCode ∈ [201, 404, 409] ∨
      response = { statusCode := 500, content := .internalServerError }) ∧
    ((¬ ∃ wd, x.Startable draws id wd) → db' = x.database ∧ queue' = x.platform.queue.queue) ∧
    ∀ wd, x.Startable draws id wd → db'.definitions = x.definitions ∧ ∀ order,
      ∃ r, getWorkflowExecution order db'.executions db'.executions draws.workflowExecutionId =
          { statusCode := 200, content := .getWorkflowExecution r } ∧ r.New wd ∧
        (response.statusCode = 201 → response.content = .startWorkflow draws.workflowExecutionId ∧
          ∀ i, (entry queue' i).isSome = true ↔
            (entry x.platform.queue.queue i).isSome = true ∨
            ∃ t ∈ r.taskExecutions, t.id = i ∧ ¬ ∃ k, wd.DependsOn t.taskDefinitionId k) ∧
        (response.statusCode ≠ 201 → queue' = x.platform.queue.queue) := by
  unfold startWorkflow at hanswer
  rcases h.startAndCommit_cases draws now id with
    ⟨hnone, message, hcommit⟩ | ⟨wd, hload, ⟨hdisabled, message, hcommit⟩ |
      ⟨henabled, ⟨hnew, hcommit⟩ | ⟨s', hins, hnew, hcommit⟩⟩⟩
  · simp only [hcommit, handleException, exceptionHandler, Prod.mk.injEq] at hanswer
    obtain ⟨rfl, rfl, rfl⟩ := hanswer
    have hnot : ∀ wd, ¬ x.Startable draws id wd := by
      intro wd hstartable
      rw [hstartable.stored] at hnone
      simp at hnone
    refine ⟨by simp [hnone], by simp [hnone], by simp [hnot], by simp, by simp, ?_⟩
    exact fun wd hstartable => absurd hstartable (hnot wd)
  · simp only [hcommit, handleException, exceptionHandler, Prod.mk.injEq] at hanswer
    obtain ⟨rfl, rfl, rfl⟩ := hanswer
    have hnot : ∀ wd, ¬ x.Startable draws id wd := by
      intro wd' hstartable
      obtain rfl := Option.some.inj (hload.symm.trans hstartable.stored)
      rw [hstartable.enabled] at hdisabled
      simp at hdisabled
    refine ⟨by simp [hload], by simp [hload, hdisabled], by simp [hnot], by simp, by simp, ?_⟩
    exact fun wd hstartable => absurd hstartable (hnot wd)
  · simp only [hcommit, handleException, exceptionHandler, Prod.mk.injEq] at hanswer
    obtain ⟨rfl, rfl, rfl⟩ := hanswer
    have hnot : ∀ wd, ¬ x.Startable draws id wd := by
      intro wd' hstartable
      obtain rfl := Option.some.inj (hload.symm.trans hstartable.stored)
      exact hnew hstartable.new
    refine ⟨by simp [hload], by simp [hload, henabled], by simp [hnot], by simp, by simp, ?_⟩
    exact fun wd hstartable => absurd hstartable (hnot wd)
  · have hstartable : x.Startable draws id wd := ⟨hload, henabled, hnew⟩
    have honly : ∀ wd', x.Startable draws id wd' → wd' = wd :=
      fun wd' h' => Option.some.inj (h'.stored.symm.trans hload)
    have hvalid := h.sound.definitions.valid hload
    have hanswered := h.faithful.answered hvalid hins
    simp only [hcommit, enqueueThroughDriver_eq] at hanswer
    by_cases haccepted : (rootsOf draws wd).length ≤ 10922
    · rw [if_pos (accepted_iff.mpr haccepted)] at hanswer
      simp only [Prod.mk.injEq] at hanswer
      obtain ⟨rfl, rfl, rfl⟩ := hanswer
      refine ⟨by simp [hload], by simp [hload, henabled], by simpa using ⟨wd, hstartable, haccepted⟩,
        by simp, fun hnot => absurd ⟨wd, hstartable⟩ hnot, fun wd' h' => ?_⟩
      obtain rfl := honly wd' h'
      refine ⟨rfl, fun order => ?_⟩
      obtain ⟨r, hr, hrnew, hids⟩ := hanswered order
      refine ⟨r, hr, hrnew, fun _ => ⟨rfl, fun i => ?_⟩, by simp⟩
      rw [entry_enqueue, ← mem_rootsOf_iff hvalid hids]
      by_cases hi : i ∈ rootsOf draws wd'
      · simp [hi]
      · simp [hi]
    · rw [if_neg (mt accepted_iff.mp haccepted)] at hanswer
      simp only [Prod.mk.injEq] at hanswer
      obtain ⟨rfl, rfl, rfl⟩ := hanswer
      have hnot : ¬ ∃ wd, x.Startable draws id wd ∧ (rootsOf draws wd).length ≤ 10922 := by
        rintro ⟨wd', h', haccepted'⟩
        rw [honly wd' h'] at haccepted'
        exact haccepted haccepted'
      refine ⟨by simp [hload], by simp [hload, henabled], by simpa using hnot,
        by simp, fun hnot => absurd ⟨wd, hstartable⟩ hnot, fun wd' h' => ?_⟩
      obtain rfl := honly wd' h'
      refine ⟨rfl, fun order => ?_⟩
      obtain ⟨r, hr, hrnew, -⟩ := hanswered order
      exact ⟨r, hr, hrnew, by simp, fun _ => rfl⟩

end Start

/-- The definition that was posted is started. -/
theorem start_answers_sample : ∃ response db' queue' r,
    startWorkflow ⟨1, id⟩ 0 0 (systemAfter postedRequest.toApplicationModel []).database
      (systemAfter postedRequest.toApplicationModel []).platform.queue.queue 1 =
        (response, db', queue') ∧
    response.statusCode = 201 ∧ response.content = .startWorkflow 1 ∧
    getWorkflowExecution .stored db'.executions db'.executions 1 =
      { statusCode := 200, content := .getWorkflowExecution r } ∧ r.status = "RUNNING" := by
  have hstarted : (startWorkflow ⟨1, id⟩ 0 0
      (systemAfter postedRequest.toApplicationModel []).database
      (systemAfter postedRequest.toApplicationModel []).platform.queue.queue 1).1.statusCode =
        201 := by
    decide +kernel
  have hx : (systemAfter postedRequest.toApplicationModel []).Reachable 100 :=
    systemAfter_reachable postedRequest.toApplicationModel (by simp)
  obtain ⟨-, -, h201, -, -, hall⟩ := start_answers hx ⟨1, id⟩ 0 0 1
    (show startWorkflow ⟨1, id⟩ 0 0 _ _ 1 = (_, _, _) from rfl)
  obtain ⟨wd, hstartable, -⟩ := h201.mp hstarted
  obtain ⟨-, hall⟩ := hall wd hstartable
  obtain ⟨r, hr, hrnew, hqueued, -⟩ := hall .stored
  exact ⟨_, _, _, r, rfl, hstarted, (hqueued hstarted).1, hr, hrnew.status⟩

end AutomationPlatform
