/-
The results of a workflow do not depend on the schedule.

Where the plugins compute, there is one value for every task of a definition: that of its
plugin on its configuration and on the values of the tasks it depends on.  Every run of the
platform that completes the workflow comes to these values, whoever executed the tasks and
how often, and in which order.

A task is executed on the outputs of its parents only after these are final, so what its
plugin returns is the one value there is for it.  It does not matter which of several
executions is the one whose completion takes effect.
-/
import AutomationPlatform.Graph.Order
import AutomationPlatform.Proofs.Executions.Isolation
import AutomationPlatform.Proofs.Platform.Dependencies
import AutomationPlatform.Python

namespace AutomationPlatform

open WorkflowExecutionRepository

/-! ### Plugins that compute -/

/-- What an output means, and what the plugin of each type computes from its configuration and
the meanings of its inputs, by their keys. -/
structure Computation (β : Type) where
  meaning : TaskOutput → β
  plugin : String → JsonObject → (String → Option β) → β

variable {β : Type} {c : Computation β}

/-- The meanings of outputs, by their keys. -/
def Computation.inputs (c : Computation β) (outputs : List (String × TaskOutput)) :
    String → Option β :=
  (Dict.ofList (outputs.map fun e => (e.1, c.meaning e.2))).row

/-- A plugin that succeeds returns what it should compute. -/
def Computation.Follows (c : Computation β) (task : StartTaskExecutionResult)
    (result : TaskResult) : Prop :=
  result.succeeded = true →
    c.meaning result.output = c.plugin task.pluginType task.configuration (c.inputs task.parentOutputs)

/-- The task depends on completed tasks only, and this is the output it should have. -/
def Computed (c : Computation β) (s : ExecutionStore) (i : UUID) (output : TaskOutput) : Prop :=
  ∃ t, taskRow s i = some t ∧ ParentsCompleted s t ∧
    c.meaning output = c.plugin t.pluginType t.configuration
      (c.inputs (t.parentTaskIds.filterMap (dependencyOutput s)))

theorem inputs_perm {outputs outputs' : List (String × TaskOutput)}
    (hperm : outputs.Perm outputs') (hnd : (outputs.map (·.1)).Nodup) :
    c.inputs outputs = c.inputs outputs' := by
  funext key
  refine Dict.ofList_row_perm (hperm.map _) ?_ key
  rw [List.map_map]
  exact hnd

/-- The second store has every task of the first one, and those that are over as they were. -/
def Keeps (s s' : ExecutionStore) : Prop :=
  ∀ i t, taskRow s i = some t → ∃ t', taskRow s' i = some t' ∧ SameTask t t' ∧
    (t.status.isTerminal = true → t' = t)

section Keeps

variable {s s' : ExecutionStore} {i : UUID}

theorem keeps_of_le (h : s.Le executionEvolution s') : Keeps s s' := by
  intro i t hi
  obtain ⟨t', ht', hev⟩ := taskRow_le h hi
  exact ⟨t', ht', hev.same, hev.terminal⟩

theorem StoreMove.keeps (h : StoreMove s s') : Keeps s s' := by
  intro i t hi
  obtain ⟨t', ht', hmove⟩ := h.task i t hi
  exact ⟨t', ht', hmove.same, hmove.terminal⟩

theorem Created.keeps {workflowId : UUID} (h : Created workflowId s s') : Keeps s s' :=
  fun i t hi => ⟨t, h.old i t hi, .refl t, fun _ => rfl⟩

theorem Keeps.row_completed (h : Keeps s s') (hi : completed s i = true) :
    taskRow s' i = taskRow s i := by
  obtain ⟨t, ht, hc⟩ := completed_iff.mp hi
  obtain ⟨t', ht', -, hterminal⟩ := h i t ht
  rw [ht, ht', hterminal (by rw [hc]; rfl)]

theorem Keeps.parentsCompleted (h : Keeps s s') {t t' : TaskExecutionModel} (hsame : SameTask t t')
    (hparents : ParentsCompleted s t) : ParentsCompleted s' t' := by
  intro p hp
  rw [hsame.parentTaskIds] at hp
  unfold completed
  rw [h.row_completed (hparents p hp)]
  exact hparents p hp

/-- The outputs a task is executed on are final. -/
theorem Keeps.dependencyOutputs (h : Keeps s s') {t t' : TaskExecutionModel} (hsame : SameTask t t')
    (hparents : ParentsCompleted s t) : t'.parentTaskIds.filterMap (dependencyOutput s') =
      t.parentTaskIds.filterMap (dependencyOutput s) := by
  rw [hsame.parentTaskIds]
  refine List.filterMap_congr fun p hp => ?_
  unfold dependencyOutput
  rw [h.row_completed (hparents p hp)]

theorem Computed.mono (h : Keeps s s') {output : TaskOutput} (hi : Computed c s i output) :
    Computed c s' i output := by
  obtain ⟨t, ht, hparents, hmeaning⟩ := hi
  obtain ⟨t', ht', hsame, -⟩ := h i t ht
  refine ⟨t', ht', h.parentsCompleted hsame hparents, ?_⟩
  rw [hmeaning, h.dependencyOutputs hsame hparents, hsame.pluginType, hsame.configuration]

end Keeps

/-! ### What a plugin is executed on -/

/-- The task depends on completed tasks only, and this is what it is to be executed on. -/
structure SuppliedBy (s : ExecutionStore) (t : TaskExecutionModel)
    (task : StartTaskExecutionResult) : Prop where
  pluginType : task.pluginType = t.pluginType
  configuration : task.configuration = t.configuration
  parents : ParentsCompleted s t
  outputs : task.parentOutputs.Perm (t.parentTaskIds.filterMap (dependencyOutput s))
  keys : (task.parentOutputs.map (·.1)).Nodup

def Supplied (s : ExecutionStore) (i : UUID) (task : StartTaskExecutionResult) : Prop :=
  ∃ t, taskRow s i = some t ∧ SuppliedBy s t task

section Supplied

variable {s s' base : ExecutionStore} {i : UUID} {task : StartTaskExecutionResult}

theorem Supplied.mono (h : Keeps s s') (hi : Supplied s i task) : Supplied s' i task := by
  obtain ⟨t, ht, hsupplied⟩ := hi
  obtain ⟨t', ht', hsame, -⟩ := h i t ht
  refine ⟨t', ht', ?_, ?_, h.parentsCompleted hsame hsupplied.parents, ?_, hsupplied.keys⟩
  · rw [hsupplied.pluginType, hsame.pluginType]
  · rw [hsupplied.configuration, hsame.configuration]
  · rw [h.dependencyOutputs hsame hsupplied.parents]
    exact hsupplied.outputs

/-- What a start of a ready task returns. -/
theorem Effect.supplied {log : History} (hrun : Run log s) {startedAt : Datetime}
    (heffect : Effect base s (.startTask i startedAt) (.started (some task)) s')
    (hready : Ready base i) : Supplied s i task := by
  obtain ⟨t, ht, hinputs⟩ := heffect.inputs hrun hready
  have hcolumns : task.pluginType = t.pluginType ∧ task.configuration = t.configuration := by
    cases heffect with
    | @startResumed _ _ V V' u _ _ hV hs hrow _ hdata =>
        obtain ⟨t', ht', hev⟩ := taskRow_le (hV.1.trans hs.1) hrow
        obtain rfl : t = t' := Option.some.inj (ht.symm.trans ht')
        exact ⟨hdata.pluginType.trans hev.same.pluginType.symm,
          hdata.configuration.trans hev.same.configuration.symm⟩
    | startTaken _ _ hrow _ hdata =>
        obtain rfl := Option.some.inj (ht.symm.trans hrow)
        exact ⟨hdata.pluginType, hdata.configuration⟩
  refine ⟨t, ht, hcolumns.1, hcolumns.2, fun p hp => ?_, ?_, hinputs.keys⟩
  · obtain ⟨tp, -, htp, hc, -⟩ := hinputs.parents p hp
    exact completed_iff.mpr ⟨tp, htp, hc⟩
  · have hperm := hinputs.entries.filterMap id
    simpa [List.filterMap_map, Function.comp_def] using hperm

/-- Over a run that starts ready tasks only, what was given to a plugin stays what it should be. -/
theorem Run.supplied {log : History} (h : Run log s)
    (hready : ∀ i startedAt result base before after,
      .committed (.startTask i startedAt) result base before after ∈ log → Ready base i) :
    ∀ i startedAt task base before after,
      .committed (.startTask i startedAt) (.started (some task)) base before after ∈ log →
      Supplied s i task := by
  induction h with
  | empty =>
      intro i startedAt task base before after he
      simp at he
  | insert _ hrows hins ih =>
      intro i startedAt task base before after he
      obtain ⟨_, hcreated⟩ := hrows.created hins
      rcases List.mem_append.mp he with hold | hnew
      · exact (ih (fun i t r b b' a hmem => hready i t r b b' a (List.mem_append_left _ hmem))
          i startedAt task base before after hold).mono hcreated.keeps
      · simp at hnew
  | @commit log log₀ s s' base₀ call result hrun _ _ heffect ih _ =>
      intro i startedAt task base before after he
      have hkeeps := (heffect.storeMove hrun.coherent).keeps
      rcases List.mem_append.mp he with hold | hnew
      · exact (ih (fun i t r b b' a hmem => hready i t r b b' a (List.mem_append_left _ hmem))
          i startedAt task base before after hold).mono hkeeps
      · rw [List.mem_singleton] at hnew
        cases hnew
        exact (heffect.supplied hrun
          (hready i startedAt _ _ _ _
            (List.mem_append_right _ (List.mem_singleton.mpr rfl)))).mono hkeeps

/-- What a plugin that follows its computation returns is the output its task should have. -/
theorem Supplied.computed (h : Supplied s i task) {result : TaskResult}
    (hfollows : c.Follows task result) (hsucceeded : result.succeeded = true) :
    Computed c s i result.output := by
  obtain ⟨t, ht, hsupplied⟩ := h
  refine ⟨t, ht, hsupplied.parents, ?_⟩
  rw [hfollows hsucceeded, hsupplied.pluginType, hsupplied.configuration,
    inputs_perm hsupplied.outputs hsupplied.keys]

end Supplied

/-! ### The database -/

/-- Every completed task of the workflow has the output it should have, and whoever is
completing one of its tasks has the output that one should have. -/
structure Computes (c : Computation β) (workflowId : UUID) (db : ExecutionDb) : Prop where
  rows : ∀ i t (output : TaskOutput), taskRow db.store i = some t →
    t.workflowExecutionId = workflowId → t.status = .completed → t.output = some output.values →
    Computed c db.store i output
  txns : ∀ w request base, (db.txns w).map Sql.Txn.begun = some (.completeTask request, base) →
    ∃ t, taskRow db.store request.taskExecutionId = some t ∧
      (t.workflowExecutionId = workflowId →
        Computed c db.store request.taskExecutionId request.output)

section Database

variable {db db' : ExecutionDb} {workflowId : UUID}

theorem computes_init : Computes c workflowId (Sql.Db.init : ExecutionDb) where
  rows := by
    intro i t output hi
    simp [Sql.Db.init, taskRow] at hi
  txns := by
    intro w request base hbegun
    simp [Sql.Db.init] at hbegun

/-- What transactions in flight know stays true. -/
theorem Computes.txns_mono (h : Computes c workflowId db)
    (hle : db.store.Le executionEvolution db'.store) {w : Nat}
    {request : CompleteTaskExecutionRequest} {base : ExecutionStore}
    (hbegun : (db.txns w).map Sql.Txn.begun = some (.completeTask request, base)) :
    ∃ t, taskRow db'.store request.taskExecutionId = some t ∧
      (t.workflowExecutionId = workflowId →
        Computed c db'.store request.taskExecutionId request.output) := by
  obtain ⟨t, ht, hcomputed⟩ := h.txns w request base hbegun
  obtain ⟨t', ht', hev⟩ := taskRow_le hle ht
  refine ⟨t', ht', fun hw => ?_⟩
  exact (hcomputed (hev.same.workflowExecutionId.symm.trans hw)).mono (keeps_of_le hle)

/-- A step of the database keeps it computing, if whoever begins to complete a task has the
output it should have. -/
theorem Computes.step (h : Computes c workflowId db) (hdb : ReachableDb db)
    {a : Sql.Action RowId Row Call} (ha : Allowed db a) (hs : db.step Call.body a = some db')
    (hbegin : ∀ w request, a = .begin w (.completeTask request) →
      ∃ t, taskRow db.store request.taskExecutionId = some t ∧
        (t.workflowExecutionId = workflowId →
          Computed c db.store request.taskExecutionId request.output)) :
    Computes c workflowId db' := by
  have hle := (before_of_step hdb ha hs).1
  cases a with
  | begin w call =>
      obtain ⟨-, rfl⟩ := Sql.step_begin hs
      refine ⟨h.rows, fun u request base hbegun => ?_⟩
      by_cases hu : u = w
      · subst hu
        rw [Sql.Db.setTxn_self] at hbegun
        obtain ⟨hcall, -⟩ := Prod.mk.inj (Option.some.inj hbegun)
        exact hbegin u request (congrArg _ hcall)
      · rw [Sql.Db.setTxn_ne _ _ hu] at hbegun
        exact h.txns u request base hbegun
  | statement w =>
      obtain ⟨x, x', hx, hissue, rfl⟩ := Sql.step_statement hs
      refine ⟨h.rows, fun u request base hbegun => ?_⟩
      rw [Sql.begun_setTxn hx (Sql.Txn.begun_issue hissue)] at hbegun
      exact h.txns u request base hbegun
  | row w k =>
      obtain ⟨x, x', hx, -, hprocess, rfl⟩ := Sql.step_row hs
      refine ⟨h.rows, fun u request base hbegun => ?_⟩
      rw [Sql.begun_setTxn hx (Sql.Txn.begun_process hprocess)] at hbegun
      exact h.txns u request base hbegun
  | abort w =>
      obtain ⟨x, hx, rfl⟩ := Sql.step_abort hs
      exact ⟨h.rows, fun u request base hbegun =>
        h.txns u request base (Sql.begun_setTxn_none hbegun)⟩
  | commit w =>
      have hcoherent := reachable_coherent hdb
      obtain ⟨x, result, hx, hphase, rfl⟩ := Sql.step_commit hs
      have heffect := effect_of_finished hdb hx hphase
      refine ⟨fun i t' output hi hw hc houtput => ?_, fun u request base hbegun => ?_⟩
      · rcases heffect.completed_cases hi hc with hold |
          ⟨request, r, hcall, -, rfl, -, hrequested⟩
        · exact (h.rows i t' output hold hw hc houtput).mono (keeps_of_le hle)
        · have hbegun : (db.txns w).map Sql.Txn.begun = some (.completeTask request, x.base) := by
            rw [hx, Option.map_some, Sql.Txn.begun, hcall]
          obtain ⟨t, ht, hcomputed⟩ := h.txns_mono hle hbegun
          obtain rfl : t' = t := Option.some.inj (hi.symm.trans ht)
          have hsame : output = request.output := by
            rw [hrequested, Option.some.injEq] at houtput
            cases output
            exact congrArg TaskOutput.mk houtput.symm
          exact hsame ▸ hcomputed hw
      · exact h.txns_mono hle (Sql.begun_setTxn_none hbegun)
  | insert rows =>
      obtain ⟨s, hins, rfl⟩ := Sql.step_insert hs
      obtain ⟨_, hcreated⟩ := CompiledRows.created ha hins
      refine ⟨fun i t output hi hw hc houtput => ?_, fun u request base hbegun =>
        h.txns_mono hle hbegun⟩
      rcases hcreated.cases (reachable_coherent hdb).toLinked hi with ⟨hold, -⟩ | ⟨-, hnew⟩
      · exact (h.rows i t output hold hw hc houtput).mono (keeps_of_le hle)
      · rw [hnew.status] at hc
        simp at hc

end Database

/-! ### Runs -/

/-- Whoever executes a task of the workflow and succeeds returns what it should compute. -/
def PlatformAction.Follows (c : Computation β) (workflowId : UUID) (p : Platform) :
    PlatformAction → Prop
  | .report w result _ => ∀ claim untrusted task,
      p.workers w = .processing claim untrusted (.executing task) →
      TaskOf p.db.store workflowId claim.taskExecutionId → c.Follows task result
  | _ => True

/-- The states the platform reaches in runs in which the tasks of a workflow compute.  Whatever
else happens in them is left open. -/
inductive Platform.Computing (c : Computation β) (workflowId : UUID) (leaseTimeout : Timedelta) :
    Platform → Prop
  | init (clock : Datetime) : Computing c workflowId leaseTimeout (init clock)
  | step {p p' : Platform} (h : Computing c workflowId leaseTimeout p) (action : PlatformAction)
      (hvalid : action.Valid) (hfollows : action.Follows c workflowId p)
      (hs : p.step leaseTimeout action = some p') : Computing c workflowId leaseTimeout p'

section Runs

variable {workflowId : UUID} {leaseTimeout : Timedelta} {p : Platform}

theorem Platform.Computing.reachable (h : p.Computing c workflowId leaseTimeout) :
    p.Reachable leaseTimeout := by
  induction h with
  | init clock => exact .init clock
  | step _ action hvalid _ hs ih => exact .step ih action hvalid hs

/-- **Every execution of a task is on final inputs**, so no run completes one with anything but
the output it should have. -/
theorem Platform.Computing.computes (h : p.Computing c workflowId leaseTimeout) :
    Computes c workflowId p.db := by
  induction h with
  | init clock => exact computes_init
  | @step p p' hrun action hvalid hfollows hs ih =>
      have hsound := hrun.reachable.sound
      rcases (Platform.Steps.of_step hs).db with hsame | ⟨a, hdb, hallowed, hreport⟩
      · exact hsame ▸ ih
      · refine ih.step hsound.db (hallowed hvalid) hdb fun w request ha => ?_
        obtain ⟨claim, untrusted, task, result, completedAt, rfl, hworker, hsucceeded, hid, houtput⟩ :=
          hreport w request ha
        have hw := hsound.workers w
        rw [hworker] at hw
        obtain ⟨startedAt, base, before, after, he⟩ := hw.2.2.2.2
        have hsupplied := (reachable_run hsound.db).supplied hsound.started _ _ _ _ _ _ he
        have hcomputed : TaskOf p.db.store workflowId claim.taskExecutionId →
            Computed c p.db.store claim.taskExecutionId result.output := by
          intro hof
          exact hsupplied.computed (hfollows claim untrusted task hworker hof) hsucceeded
        obtain ⟨t, ht, -⟩ := hsupplied
        rw [hid, houtput]
        exact ⟨t, ht, fun hwf => hcomputed ⟨t, ht, hwf⟩⟩

/-! ### The values of a definition -/

/-- The execution was created from this definition. -/
def StartedFrom (log : History) (draws : Draws) (wd : WorkflowDefinition) : Prop :=
  ∃ s s' now workflow roots, .inserted s s' ∈ log ∧
    WorkflowStartService.createWorkflowExecution draws now wd = .ok (workflow, roots) ∧
    create s workflow = some s'

/-- The key of a task and the value of its output, from those of the tasks it depends on. -/
def Computation.task (c : Computation β) (values : UUID → Option (String × β))
    (d : TaskDefinition) : String × β :=
  (d.key, c.plugin d.pluginType d.configuration (Dict.ofList (d.dependencies.filterMap values)).row)

/-- The dependency graph evaluated once, in some order. -/
def Computation.evaluate (c : Computation β) (order : List TaskDefinition) :
    UUID → Option (String × β) :=
  Graph.evaluate (·.id) c.task order

/-- The tasks of a definition, each after those it depends on. -/
structure WorkflowDefinition.Topological (wd : WorkflowDefinition) (order : List TaskDefinition) :
    Prop where
  perm : order.Perm wd.taskDefinitions
  inOrder : Graph.InOrder (·.id) (·.dependencies) order

theorem WorkflowDefinition.Valid.exists_topological {wd : WorkflowDefinition} (h : wd.Valid) :
    ∃ order, wd.Topological order := by
  obtain ⟨order, hperm, horder⟩ : ∃ order : List TaskDefinition,
      order.Perm wd.taskDefinitions ∧ Graph.InOrder (·.id) (·.dependencies) order :=
    Graph.exists_inOrder h.known h.acyclic
  exact ⟨order, hperm, horder⟩

/-- The rows of an execution stay those of its definition. -/
theorem Run.startedFrom {log : History} {s : ExecutionStore} (h : Run log s) {draws : Draws}
    {wd : WorkflowDefinition} (hvalid : wd.Valid) (hstarted : StartedFrom log draws wd) :
    ∀ d ∈ wd.taskDefinitions, ∃ t, taskRow s (draws.taskExecutionId d.id) = some t ∧
      SameTask (compiledRow draws wd d) t := by
  intro d hd
  induction h with
  | empty =>
      obtain ⟨_, _, _, _, _, he, -⟩ := hstarted
      simp at he
  | @insert log s s' rows hrun hrows hins ih =>
      obtain ⟨s₁, s₁', now, workflow, roots, he, hcompiled, hcreate⟩ := hstarted
      rcases List.mem_append.mp he with hold | hnew
      · obtain ⟨t, ht, hsame⟩ := ih ⟨s₁, s₁', now, workflow, roots, hold, hcompiled, hcreate⟩
        obtain ⟨_, hcreated⟩ := hrows.created hins
        exact ⟨t, hcreated.old _ t ht, hsame⟩
      · rw [List.mem_singleton] at hnew
        cases hnew
        obtain ⟨rfl, rfl⟩ := WorkflowStartService.compiled_of_create hvalid.linked hcompiled
        exact ⟨_, (taskRow_created hcreate hd).1, .refl _⟩
  | commit hrun _ _ heffect ih _ =>
      obtain ⟨s₁, s₁', now, workflow, roots, he, hrest⟩ := hstarted
      rcases List.mem_append.mp he with hold | hnew
      · obtain ⟨t, ht, hsame⟩ := ih ⟨s₁, s₁', now, workflow, roots, hold, hrest⟩
        obtain ⟨t', ht', hmove⟩ := (heffect.storeMove hrun.coherent).task _ t ht
        exact ⟨t', ht', hsame.trans hmove.same⟩
      · simp at hnew

/-- The key of a task and the value of its output, in a store. -/
def Computation.valueOf (c : Computation β) (s : ExecutionStore) (i : UUID) : Option (String × β) :=
  (dependencyOutput s i).map fun e => (e.1, c.meaning e.2)

/-- **The outputs of a completed workflow are the values of its definition**, in whatever order
these are evaluated. -/
theorem Platform.Computing.evaluates {draws : Draws}
    (h : p.Computing c draws.workflowExecutionId leaseTimeout) {wd : WorkflowDefinition}
    (hvalid : wd.Valid) (hstarted : StartedFrom p.db.log draws wd)
    (hdone : ∀ d ∈ wd.taskDefinitions, completed p.db.store (draws.taskExecutionId d.id) = true)
    {order : List TaskDefinition} (horder : wd.Topological order) :
    ∀ d ∈ wd.taskDefinitions,
      c.valueOf p.db.store (draws.taskExecutionId d.id) = c.evaluate order d.id ∧
        ∃ e, c.valueOf p.db.store (draws.taskExecutionId d.id) = some e ∧ e.1 = d.key := by
  have hrun := reachable_run h.reachable.sound.db
  -- Every completed task has the value that its plugin computes from those of its parents.
  have hrows : ∀ d ∈ wd.taskDefinitions, ∃ t output,
      taskRow p.db.store (draws.taskExecutionId d.id) = some t ∧
      SameTask (compiledRow draws wd d) t ∧
      dependencyOutput p.db.store (draws.taskExecutionId d.id) = some (d.key, output) ∧
      c.meaning output = c.plugin d.pluginType d.configuration (c.inputs
        ((d.dependencies.map draws.taskExecutionId).filterMap (dependencyOutput p.db.store))) := by
    intro d hd
    obtain ⟨t, ht, hsame⟩ := hrun.startedFrom hvalid hstarted d hd
    obtain ⟨t', ht', hc⟩ := completed_iff.mp (hdone d hd)
    obtain rfl : t = t' := Option.some.inj (ht.symm.trans ht')
    obtain ⟨values, hvalues⟩ := Option.isSome_iff_exists.mp (hrun.coherent.output_of_completed ht hc)
    obtain ⟨u, hu, -, hmeaning⟩ := h.computes.rows _ t { values } ht hsame.workflowExecutionId hc hvalues
    obtain rfl : t = u := Option.some.inj (ht.symm.trans hu)
    refine ⟨t, { values }, ht, hsame, ?_, ?_⟩
    · unfold dependencyOutput
      rw [ht, Option.bind_some, contribution, hvalues, hsame.key]
      rfl
    · rw [hmeaning, hsame.pluginType, hsame.configuration, hsame.parentTaskIds]
      rfl
  have hsome : ∀ d ∈ wd.taskDefinitions, ∃ e,
      c.valueOf p.db.store (draws.taskExecutionId d.id) = some e ∧ e.1 = d.key := by
    intro d hd
    obtain ⟨_, output, -, -, hdependency, -⟩ := hrows d hd
    exact ⟨(d.key, c.meaning output), by rw [Computation.valueOf, hdependency]; rfl, rfl⟩
  -- So these are values that fit, and those of an evaluation are the only ones.
  let value := fun k => (c.valueOf p.db.store (draws.taskExecutionId k)).getD ("", c.meaning {})
  have hvalueOf : ∀ d ∈ wd.taskDefinitions,
      c.valueOf p.db.store (draws.taskExecutionId d.id) = some (value d.id) := by
    intro d hd
    obtain ⟨e, he, -⟩ := hsome d hd
    show _ = some ((c.valueOf p.db.store (draws.taskExecutionId d.id)).getD _)
    rw [he, Option.getD_some]
  have hfits : ∀ d ∈ order, ∀ values : UUID → Option (String × β),
      (∀ k ∈ d.dependencies, values k = some (value k)) → c.task values d = value d.id := by
    intro d hd values hvalues
    have hmem := horder.perm.mem_iff.mp hd
    have hinputs : d.dependencies.filterMap values =
        ((d.dependencies.map draws.taskExecutionId).filterMap
          (dependencyOutput p.db.store)).map fun e => (e.1, c.meaning e.2) := by
      rw [List.map_filterMap, List.filterMap_map]
      refine List.filterMap_congr fun k hk => ?_
      obtain ⟨parent, hparent, rfl⟩ := List.mem_map.mp (hvalid.known d hmem k hk)
      exact (hvalues _ hk).trans (hvalueOf parent hparent).symm
    obtain ⟨_, output, -, -, hdependency, hmeaning⟩ := hrows d hmem
    refine Option.some.inj (Eq.trans ?_ (hvalueOf d hmem))
    rw [Computation.valueOf, hdependency, Option.map_some, Computation.task, hinputs, hmeaning]
    rfl
  intro d hd
  refine ⟨?_, hsome d hd⟩
  rw [hvalueOf d hd]
  exact (Graph.evaluate_eq horder.inOrder hfits d (horder.perm.mem_iff.mpr hd)).symm

/--
**The results do not depend on the schedule.**  Two runs that complete an execution of the same
definition, by any number of workers, with leases lost and workers crashed and tasks executed
several times in either of them, come to the same output for every task: that of evaluating
the dependency graph once, in any topological order.
-/
theorem same_results (c : Computation β) {wd : WorkflowDefinition} (hvalid : wd.Valid)
    {leaseTimeout₁ leaseTimeout₂ : Timedelta} {draws₁ draws₂ : Draws} {p₁ p₂ : Platform}
    (h₁ : p₁.Computing c draws₁.workflowExecutionId leaseTimeout₁)
    (h₂ : p₂.Computing c draws₂.workflowExecutionId leaseTimeout₂)
    (hstarted₁ : StartedFrom p₁.db.log draws₁ wd) (hstarted₂ : StartedFrom p₂.db.log draws₂ wd)
    (hdone₁ : ∀ d ∈ wd.taskDefinitions, completed p₁.db.store (draws₁.taskExecutionId d.id) = true)
    (hdone₂ : ∀ d ∈ wd.taskDefinitions, completed p₂.db.store (draws₂.taskExecutionId d.id) = true) :
    (∃ order, wd.Topological order) ∧
    ∀ d ∈ wd.taskDefinitions, ∃ value,
      c.valueOf p₁.db.store (draws₁.taskExecutionId d.id) = some (d.key, value) ∧
      c.valueOf p₂.db.store (draws₂.taskExecutionId d.id) = some (d.key, value) ∧
      ∀ order, wd.Topological order → c.evaluate order d.id = some (d.key, value) := by
  obtain ⟨order, horder⟩ := hvalid.exists_topological
  refine ⟨⟨order, horder⟩, fun d hd => ?_⟩
  obtain ⟨heval₁, ⟨key, value⟩, hvalue, rfl⟩ := h₁.evaluates hvalid hstarted₁ hdone₁ horder d hd
  have heval₂ := (h₂.evaluates hvalid hstarted₂ hdone₂ horder d hd).1
  refine ⟨value, hvalue, by rw [heval₂, ← heval₁, hvalue], fun order' horder' => ?_⟩
  rw [← (h₁.evaluates hvalid hstarted₁ hdone₁ horder' d hd).1, hvalue]

/-! ### A sample

The sample definition, with plugins that return one value more than they are given.  One run
has one worker.  In the other run the first worker crashes in the root task, which a second one
executes again when the lease has expired, and the children are completed in the other order.
-/

instance [DecidableEq β] (task : StartTaskExecutionResult) (result : TaskResult) :
    Decidable (c.Follows task result) :=
  inferInstanceAs (Decidable (_ → _))

/-- Whether a step leaves all tasks computing, whatever their workflow. -/
def PlatformAction.follows [DecidableEq β] (c : Computation β) (p : Platform) :
    PlatformAction → Bool
  | .report w result _ =>
      match p.workers w with
      | .processing _ _ (.executing task) => decide (c.Follows task result)
      | _ => true
  | _ => true

/-- Several steps in a row, with tasks that compute. -/
def Platform.computingSteps [DecidableEq β] (c : Computation β) (leaseTimeout : Timedelta)
    (p : Platform) (actions : List PlatformAction) : Option Platform :=
  actions.foldlM (fun p a => if a.follows c p then p.step leaseTimeout a else none) p

theorem PlatformAction.follows_sound [DecidableEq β] {action : PlatformAction}
    (h : action.follows c p = true) : action.Follows c workflowId p := by
  cases action with
  | report w result completedAt =>
      intro claim untrusted task hworker _
      simp only [follows, hworker, decide_eq_true_eq] at h
      exact h
  | _ => trivial

theorem Platform.Computing.steps [DecidableEq β] {actions : List PlatformAction} {p' : Platform}
    (h : p.Computing c workflowId leaseTimeout) (hvalid : ∀ a ∈ actions, a.Valid)
    (hs : p.computingSteps c leaseTimeout actions = some p') :
    p'.Computing c workflowId leaseTimeout := by
  induction actions generalizing p with
  | nil =>
      simp only [computingSteps, List.foldlM_nil, Option.pure_def, Option.some.injEq] at hs
      exact hs ▸ h
  | cons a rest ih =>
      simp only [computingSteps, List.foldlM_cons, Option.bind_eq_bind,
        Option.bind_eq_some_iff] at hs
      obtain ⟨mid, hmid, hrest⟩ := hs
      split at hmid
      · rename_i hfollows
        exact ih (.step h a (hvalid a (by simp)) (PlatformAction.follows_sound hfollows) hmid)
          (fun b hb => hvalid b (by simp [hb])) hrest
      · simp at hmid

end Runs

def sampleComputation : Computation Nat where
  meaning output := output.values.length
  plugin _ _ inputs := (inputs "extract").elim 1 (· + 1)

/-- Worker `w` claims the first task of the queue and completes it, in transactions that take
these steps. -/
def sampleTurn (w : Nat) (claimToken : UUID) (now : Datetime) (values : JsonObject)
    (starting completing : List PlatformAction) : List PlatformAction :=
  [.lock w w [] now, .grant w claimToken, .startTask w now] ++ starting ++
    [.endTransaction w, .report w { succeeded := true, output := { values } } now] ++ completing ++
    [.endTransaction w, .dispose w now]

def sampleDraws₁ : Draws := { workflowExecutionId := 0, taskExecutionId := id }

def sampleDraws₂ : Draws := { workflowExecutionId := 1, taskExecutionId := (· + 10) }

def sampleRun₁ : List PlatformAction :=
  [.publish 0 1] ++
  sampleTurn 0 100 2 [("rows", .int 5)] [.statement 0, .row 0 (.task 1), .statement 0]
    [.statement 0, .row 0 (.task 1), .statement 0, .row 0 (.task 2), .statement 0,
      .row 0 (.task 3), .statement 0] ++
  sampleTurn 0 101 3 [("rows", .int 5), ("side", .str "left")]
    [.statement 0, .row 0 (.task 2), .statement 0, .statement 0]
    [.statement 0, .row 0 (.task 2), .statement 0] ++
  sampleTurn 0 102 4 [("rows", .int 5), ("side", .str "right")]
    [.statement 0, .row 0 (.task 3), .statement 0, .statement 0]
    [.statement 0, .row 0 (.task 3), .statement 0, .row 0 (.workflow 0)]

def sampleRun₂ : List PlatformAction :=
  [.publish 0 1, .lock 0 0 [] 2, .grant 0 100, .startTask 0 2, .statement 0, .row 0 (.task 11),
    .statement 0, .endTransaction 0, .crash 0] ++
  sampleTurn 1 101 200 [("rows", .int 7)] [.statement 1, .statement 1]
    [.statement 1, .row 1 (.task 11), .statement 1, .row 1 (.task 12), .statement 1,
      .row 1 (.task 13), .statement 1] ++
  [.lock 0 0 [] 201, .grant 0 102] ++
  sampleTurn 1 103 202 [("rows", .int 7), ("side", .str "right")]
    [.statement 1, .row 1 (.task 13), .statement 1, .statement 1]
    [.statement 1, .row 1 (.task 13), .statement 1] ++
  [.startTask 0 203, .statement 0, .row 0 (.task 12), .statement 0, .statement 0,
    .endTransaction 0,
    .report 0 { succeeded := true, output := { values := [("rows", .int 7), ("side", .null)] } } 204,
    .statement 0, .row 0 (.task 12), .statement 0, .row 0 (.workflow 1), .endTransaction 0]

def PlatformAction.isStart : PlatformAction → Bool
  | .start _ _ _ _ => true
  | _ => false

theorem PlatformAction.valid_of_isStart {action : PlatformAction} (h : action.isStart = false) :
    action.Valid := by
  cases action with
  | start => simp [isStart] at h
  | _ => trivial

/-- The sample is started, and then these steps are taken. -/
def sampleSchedule (draws : Draws) (rest : List PlatformAction) : List PlatformAction :=
  .start 0 draws 0 sampleDefinition :: rest

def sampleComputed (actions : List PlatformAction) : Platform :=
  ((Platform.init 0).computingSteps sampleComputation 100 actions).getD (Platform.init 0)

section Sample

variable {draws : Draws} {rest : List PlatformAction}

theorem sampleComputed_computing {workflowId : UUID}
    (hrest : (rest.all fun action => !action.isStart) = true)
    (hs : ((Platform.init 0).computingSteps sampleComputation 100
      (sampleSchedule draws rest)).isSome = true) :
    (sampleComputed (sampleSchedule draws rest)).Computing sampleComputation workflowId 100 := by
  obtain ⟨p, hp⟩ := Option.isSome_iff_exists.mp hs
  rw [sampleComputed, hp, Option.getD_some]
  refine (Platform.Computing.init 0).steps (fun action ha => ?_) hp
  rcases List.mem_cons.mp ha with rfl | ha
  · exact sampleDefinition_valid
  · exact PlatformAction.valid_of_isStart (by simpa using List.all_eq_true.mp hrest action ha)

theorem sampleComputed_started {log : History} {s : ExecutionStore}
    (hlog : (sampleComputed (sampleSchedule draws rest)).db.log = .inserted .empty s :: log)
    (hs : create .empty (WorkflowStartService.compiled draws 0 sampleDefinition) = some s) :
    StartedFrom (sampleComputed (sampleSchedule draws rest)).db.log draws sampleDefinition :=
  ⟨.empty, s, 0, _, _, by rw [hlog]; simp,
    WorkflowStartService.createWorkflowExecution_eq draws 0 sampleDefinition_valid.linked, hs⟩

end Sample

/-- Both runs complete the sample. -/
theorem same_results_sample :
    (∃ order, sampleDefinition.Topological order) ∧
    ∀ d ∈ sampleDefinition.taskDefinitions, ∃ value,
      sampleComputation.valueOf (sampleComputed (sampleSchedule sampleDraws₁ sampleRun₁)).db.store
        (sampleDraws₁.taskExecutionId d.id) = some (d.key, value) ∧
      sampleComputation.valueOf (sampleComputed (sampleSchedule sampleDraws₂ sampleRun₂)).db.store
        (sampleDraws₂.taskExecutionId d.id) = some (d.key, value) ∧
      ∀ order, sampleDefinition.Topological order →
        sampleComputation.evaluate order d.id = some (d.key, value) :=
  same_results sampleComputation sampleDefinition_valid
    (sampleComputed_computing rfl rfl) (sampleComputed_computing rfl rfl)
    (sampleComputed_started rfl rfl) (sampleComputed_started rfl rfl) (by decide) (by decide)

end AutomationPlatform
