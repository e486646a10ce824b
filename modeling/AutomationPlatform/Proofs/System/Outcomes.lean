/-
What comes of an execution is decided by its definition.

A worker looks the plugin of its task up and executes it on the outputs of the parents, and
what it reports is what the plugin returned.  By then these outputs are final.  So a completed
task has the output of its plugin on them, whoever executed it and how often, and a task has
failed only where its plugin has.

Two of the plugins of the package succeed whatever they are given, and the third one never
does.  A workflow therefore completes exactly when no task of its definition has the third
one, and nothing that depends on such a task is ever started.
-/
import AutomationPlatform.Proofs.Platform.Results
import AutomationPlatform.Proofs.System.Fidelity

namespace AutomationPlatform

open WorkflowDefinitionRepository

/-! ### The plugins -/

/-- Whether a plugin of the package succeeds does not depend on what it is given. -/
theorem TaskRegistry.succeeded_iff {pluginType : String} {plugin : TaskPlugin}
    (h : TaskRegistry.discovered pluginType = some plugin) (context : TaskContext) :
    (plugin.execute context).succeeded = true ↔ pluginType ≠ FailTask.pluginType := by
  unfold discovered at h
  split at h
  · rename_i hproduce
    obtain rfl := Option.some.inj h
    simp [ProduceValueTask.plugin, ProduceValueTask.execute, hproduce,
      ProduceValueTask.pluginType, FailTask.pluginType]
  · split at h
    · rename_i hcollect
      obtain rfl := Option.some.inj h
      simp [CollectInputsTask.plugin, CollectInputsTask.execute, hcollect,
        CollectInputsTask.pluginType, FailTask.pluginType]
    · split at h
      · rename_i hfail
        obtain rfl := Option.some.inj h
        simp [FailTask.plugin, FailTask.execute, hfail]
      · simp at h

/-- A plugin of the package has returned this, on the outputs of the parents of the task. -/
structure Executed (e : ExecutionStore) (t : TaskExecutionModel) (result : TaskResult) :
    Prop where
  parents : ParentsCompleted e t
  plugin : ∃ plugin inputs, TaskRegistry.discovered t.pluginType = some plugin ∧
    inputs.Perm (t.parentTaskIds.filterMap (dependencyOutput e)) ∧ (inputs.map (·.1)).Nodup ∧
    result = plugin.execute { configuration := t.configuration, inputs := inputs }

section Executed

variable {e e' : ExecutionStore} {t t' : TaskExecutionModel} {result : TaskResult}

theorem Executed.mono (h : Keeps e e') (hsame : SameTask t t') (ht : Executed e t result) :
    Executed e' t' result := by
  obtain ⟨plugin, inputs, hplugin, hperm, hkeys, hresult⟩ := ht.plugin
  refine ⟨h.parentsCompleted hsame ht.parents, plugin, inputs, ?_, ?_, hkeys, ?_⟩
  · rw [hsame.pluginType, hplugin]
  · rw [h.dependencyOutputs hsame ht.parents]
    exact hperm
  · rw [hresult, hsame.configuration]

/-- Success is the plugin's. -/
theorem Executed.succeeded_iff (h : Executed e t result) :
    result.succeeded = true ↔ t.pluginType ≠ FailTask.pluginType := by
  obtain ⟨plugin, inputs, hplugin, -, -, rfl⟩ := h.plugin
  exact TaskRegistry.succeeded_iff hplugin _

/-- What a worker that was supplied with its task makes of it. -/
theorem Supplied.executed {i : UUID} {task : StartTaskExecutionResult} (h : Supplied e i task)
    (hexecute : TaskProcessingService.executeTask .discovered task = .ok result) :
    ∃ t, taskRow e i = some t ∧ Executed e t result := by
  obtain ⟨t, ht, hsupplied⟩ := h
  obtain ⟨plugin, hget, hresult⟩ := Sql.bind_eq_ok.mp hexecute
  obtain rfl := Except.ok.inj hresult
  have hplugin : TaskRegistry.discovered t.pluginType = some plugin := by
    rw [← hsupplied.pluginType]
    unfold TaskRegistry.get at hget
    split at hget
    · rename_i hregistered
      rw [hregistered, Except.ok.inj hget]
    · simp at hget
  refine ⟨t, ht, hsupplied.parents, plugin, task.parentOutputs, hplugin, hsupplied.outputs,
    hsupplied.keys, ?_⟩
  rw [hsupplied.configuration]

end Executed

/-! ### The database -/

/-- A completed or failed row says what came of executing the task. -/
structure Attested (e : ExecutionStore) (t : TaskExecutionModel) : Prop where
  completed : t.status = .completed → ∃ result, Executed e t result ∧ result.succeeded = true ∧
    t.output = some result.output.values
  failed : t.status = .failed → ∃ result, Executed e t result ∧ result.succeeded = false ∧
    t.errorMessage = result.message

/-- Whatever a row shows came of executing the task: an output is that of a task that is completed,
and a message that of an attempt that has failed, whether it was the last one or not. -/
structure Marked (e : ExecutionStore) (t : TaskExecutionModel) : Prop where
  output : t.output ≠ none → t.status = .completed
  message : ∀ m, t.errorMessage = some m → ∃ result, Executed e t result ∧
    result.succeeded = false ∧ result.message = some m

/-- What a call is about to write came of executing the task. -/
def Justified (e : ExecutionStore) : Call → Prop
  | .startTask _ _ => True
  | .completeTask request => ∃ t result, taskRow e request.taskExecutionId = some t ∧
      Executed e t result ∧ result.succeeded = true ∧ request.output = result.output
  | .retryTask request => ∃ t result, taskRow e request.taskExecutionId = some t ∧
      Executed e t result ∧ result.succeeded = false ∧ request.errorMessage = result.message

/-- Nothing is written or about to be written but what came of executing a task. -/
structure Genuine (db : ExecutionDb) : Prop where
  rows : ∀ i t, taskRow db.store i = some t → Attested db.store t
  marks : ∀ i t, taskRow db.store i = some t → Marked db.store t
  calls : ∀ w call base, (db.txns w).map Sql.Txn.begun = some (call, base) →
    Justified db.store call

theorem Attested.mono {e e' : ExecutionStore} (h : Keeps e e') {t : TaskExecutionModel}
    (ht : Attested e t) : Attested e' t := by
  constructor
  · intro hc
    obtain ⟨result, hexecuted, hrest⟩ := ht.completed hc
    exact ⟨result, hexecuted.mono h (.refl t), hrest⟩
  · intro hf
    obtain ⟨result, hexecuted, hrest⟩ := ht.failed hf
    exact ⟨result, hexecuted.mono h (.refl t), hrest⟩

theorem Marked.mono {e e' : ExecutionStore} (h : Keeps e e') {t : TaskExecutionModel}
    (ht : Marked e t) : Marked e' t := by
  refine ⟨ht.output, fun m hm => ?_⟩
  obtain ⟨result, hexecuted, hrest⟩ := ht.message m hm
  exact ⟨result, hexecuted.mono h (.refl t), hrest⟩

theorem Justified.mono {e e' : ExecutionStore} (h : Keeps e e') {call : Call}
    (hcall : Justified e call) : Justified e' call := by
  cases call with
  | startTask => trivial
  | completeTask request =>
      obtain ⟨t, result, ht, hexecuted, hrest⟩ := hcall
      obtain ⟨t', ht', hsame, -⟩ := h _ t ht
      exact ⟨t', result, ht', hexecuted.mono h hsame, hrest⟩
  | retryTask request =>
      obtain ⟨t, result, ht, hexecuted, hrest⟩ := hcall
      obtain ⟨t', ht', hsame, -⟩ := h _ t ht
      exact ⟨t', result, ht', hexecuted.mono h hsame, hrest⟩

/-- A report is justified by what the plugin returned. -/
theorem justified_reportCall {e : ExecutionStore} {i : UUID} {t : TaskExecutionModel}
    (ht : taskRow e i = some t) {result : TaskResult} (hexecuted : Executed e t result)
    (completedAt : Datetime) :
    Justified e (TaskProcessingService.reportCall i result completedAt) := by
  unfold TaskProcessingService.reportCall
  by_cases hsucceeded : result.succeeded = true
  · rw [if_pos hsucceeded]
    exact ⟨t, result, ht, hexecuted, hsucceeded, rfl⟩
  · rw [if_neg hsucceeded]
    exact ⟨t, result, ht, hexecuted, by simpa using hsucceeded, rfl⟩

/-- A failed task was failed before, as it is, or by this very call. -/
theorem Effect.failed_cases {s s' base : ExecutionStore} {call : Call} {result : CallResult}
    (heffect : Effect base s call result s') {i : UUID} {t' : TaskExecutionModel}
    (hi : taskRow s' i = some t') (hf : t'.status = .failed) :
    taskRow s i = some t' ∨ ∃ request t, call = .retryTask request ∧
      request.taskExecutionId = i ∧ taskRow s i = some t ∧ SameTask t t' ∧
      t'.errorMessage = request.errorMessage := by
  obtain ⟨t, ht, hstep⟩ := heffect.taskRow_before hi
  cases hstep with
  | same => exact Or.inl ht
  | start => simp [TaskExecutionModel.start] at hf
  | complete => simp [TaskExecutionModel.complete] at hf
  | release hblocked =>
      have hpending : t.status = .failed := hf
      rw [hblocked.1] at hpending
      simp at hpending
  | again => simp [TaskExecutionModel.again] at hf
  | @fail request hid hrunning =>
      exact Or.inr ⟨request, t, rfl, hid, ht, ⟨rfl, rfl, rfl, rfl, rfl, rfl, rfl⟩, rfl⟩
  | cancel => simp [TaskExecutionModel.cancel] at hf

/-- A call that is justified shows nothing else. -/
theorem Marked.of_step {e e' : ExecutionStore} (hkeeps : Keeps e e') {call : Call}
    (hcall : Justified e call) {i : UUID} {t t' : TaskExecutionModel} (ht : Marked e t)
    (hi : taskRow e i = some t) (hi' : taskRow e' i = some t') (hstep : TaskStep i t call t') :
    Marked e' t' := by
  -- No update is made of a completed row, and before that there is no output.
  have hnone : t.status ≠ .completed → t.output = none := fun hs => by
    by_contra hne
    exact hs (ht.output hne)
  have hkept : SameTask t t' → t'.errorMessage = t.errorMessage →
      (t'.output ≠ none → t'.status = .completed) → Marked e' t' := by
    refine fun hsame hmessage houtput => ⟨houtput, fun m hm => ?_⟩
    obtain ⟨result, hexecuted, hrest⟩ := ht.message m (hmessage ▸ hm)
    exact ⟨result, hexecuted.mono hkeeps hsame, hrest⟩
  have hretried : ∀ request, call = .retryTask request → request.taskExecutionId = i →
      SameTask t t' → t'.errorMessage = request.errorMessage → t'.output = none →
      Marked e' t' := by
    rintro request rfl rfl hsame hmessage houtput
    obtain ⟨u, result, hu, hexecuted, hfailed, hrequested⟩ := hcall
    obtain rfl : u = t := Option.some.inj (hu.symm.trans hi)
    refine ⟨fun hne => absurd houtput hne, fun m hm => ?_⟩
    exact ⟨result, hexecuted.mono hkeeps hsame, hfailed,
      hrequested.symm.trans (hmessage.symm.trans hm)⟩
  have hsame : SameTask t t' := by
    obtain ⟨u, hu, hsame, -⟩ := hkeeps i t hi
    exact Option.some.inj (hi'.symm.trans hu) ▸ hsame
  cases hstep with
  | same => exact hkept hsame rfl ht.output
  | start hpending =>
      exact hkept hsame rfl fun hne => absurd (hnone (by simp [hpending])) hne
  | complete => exact hkept hsame rfl fun _ => rfl
  | release hblocked =>
      exact hkept hsame rfl fun hne => absurd (hnone (by simp [hblocked.1])) hne
  | again hid hrunning => exact hretried _ rfl hid hsame rfl (hnone (by simp [hrunning]))
  | fail hid hrunning => exact hretried _ rfl hid hsame rfl (hnone (by simp [hrunning]))
  | cancel hid hopen =>
      have hs : t.status ≠ .completed := fun hs => by simp [hs, TaskStatus.isTerminal] at hopen
      exact hkept hsame rfl fun hne => absurd (hnone hs) hne

section Database

variable {db db' : ExecutionDb}

theorem genuine_init : Genuine (Sql.Db.init : ExecutionDb) where
  rows := by
    intro i t hi
    simp [Sql.Db.init, taskRow] at hi
  marks := by
    intro i t hi
    simp [Sql.Db.init, taskRow] at hi
  calls := by
    intro w call base hbegun
    simp [Sql.Db.init] at hbegun

/-- What a commit writes was justified before. -/
theorem Genuine.attested (h : Genuine db) {w : Nat} {x : Sql.Txn RowId Row Call CallResult}
    (hx : db.txns w = some x) {result : CallResult} {e' : ExecutionStore}
    (heffect : Effect x.base db.store x.call result e') (hkeeps : Keeps db.store e') {i : UUID}
    {t' : TaskExecutionModel} (hi : taskRow e' i = some t') : Attested e' t' := by
  have hcall := h.calls w x.call x.base (by rw [hx]; rfl)
  constructor
  · intro hc
    rcases heffect.completed_cases hi hc with hold | ⟨request, r, hx, -, rfl, -, houtput⟩
    · exact ((h.rows i t' hold).mono hkeeps).completed hc
    · rw [hx] at hcall
      obtain ⟨t, result, ht, hexecuted, hsucceeded, hrequested⟩ := hcall
      obtain ⟨t'', ht'', hsame, -⟩ := hkeeps _ t ht
      obtain rfl := Option.some.inj (hi.symm.trans ht'')
      exact ⟨result, hexecuted.mono hkeeps hsame, hsucceeded, by rw [houtput, hrequested]⟩
  · intro hf
    rcases heffect.failed_cases hi hf with hold | ⟨request, u, hx, rfl, hu, hsame, hmessage⟩
    · exact ((h.rows i t' hold).mono hkeeps).failed hf
    · rw [hx] at hcall
      obtain ⟨t, result, ht, hexecuted, hsucceeded, hrequested⟩ := hcall
      obtain rfl := Option.some.inj (hu.symm.trans ht)
      exact ⟨result, hexecuted.mono hkeeps hsame, hsucceeded, by rw [hmessage, hrequested]⟩

/-- A step keeps the database genuine, if whoever begins a call is justified. -/
theorem Genuine.step (h : Genuine db) (hdb : ReachableDb db) {a : Sql.Action RowId Row Call}
    (ha : Allowed db a) (hs : db.step Call.body a = some db')
    (hbegin : ∀ w call, a = .begin w call → Justified db.store call) : Genuine db' := by
  have hkeeps := keeps_of_le (before_of_step hdb ha hs).1
  cases a with
  | begin w call =>
      obtain ⟨-, rfl⟩ := Sql.step_begin hs
      refine ⟨h.rows, h.marks, fun u call' base hbegun => ?_⟩
      by_cases hu : u = w
      · subst hu
        rw [Sql.Db.setTxn_self] at hbegun
        obtain ⟨hcall, -⟩ := Prod.mk.inj (Option.some.inj hbegun)
        exact hcall ▸ hbegin u call rfl
      · rw [Sql.Db.setTxn_ne _ _ hu] at hbegun
        exact h.calls u call' base hbegun
  | statement w =>
      obtain ⟨x, x', hx, hissue, rfl⟩ := Sql.step_statement hs
      refine ⟨h.rows, h.marks, fun u call base hbegun => ?_⟩
      rw [Sql.begun_setTxn hx (Sql.Txn.begun_issue hissue)] at hbegun
      exact h.calls u call base hbegun
  | row w k =>
      obtain ⟨x, x', hx, -, hprocess, rfl⟩ := Sql.step_row hs
      refine ⟨h.rows, h.marks, fun u call base hbegun => ?_⟩
      rw [Sql.begun_setTxn hx (Sql.Txn.begun_process hprocess)] at hbegun
      exact h.calls u call base hbegun
  | abort w =>
      obtain ⟨x, hx, rfl⟩ := Sql.step_abort hs
      exact ⟨h.rows, h.marks, fun u call base hbegun =>
        h.calls u call base (Sql.begun_setTxn_none hbegun)⟩
  | commit w =>
      obtain ⟨x, result, hx, hphase, rfl⟩ := Sql.step_commit hs
      have heffect := effect_of_finished hdb hx hphase
      refine ⟨fun i t' hi => h.attested hx heffect hkeeps hi, fun i t' hi => ?_,
        fun u call base hbegun =>
          (h.calls u call base (Sql.begun_setTxn_none hbegun)).mono hkeeps⟩
      obtain ⟨t, ht, hstep⟩ := heffect.taskRow_before hi
      have hcall := h.calls w x.call x.base (by rw [hx]; rfl)
      exact (h.marks i t ht).of_step hkeeps hcall ht hi hstep
  | insert rows =>
      obtain ⟨s, hins, rfl⟩ := Sql.step_insert hs
      obtain ⟨_, hcreated⟩ := CompiledRows.created ha hins
      have hlinked := (reachable_coherent hdb).toLinked
      refine ⟨fun i t hi => ?_, fun i t hi => ?_,
        fun u call base hbegun => (h.calls u call base hbegun).mono hkeeps⟩
      · rcases hcreated.cases hlinked hi with ⟨hold, -⟩ | ⟨-, hnew⟩
        · exact (h.rows i t hold).mono hkeeps
        · have hpending := hnew.status
          exact ⟨fun hc => by simp [hc] at hpending, fun hf => by simp [hf] at hpending⟩
      · rcases hcreated.cases hlinked hi with ⟨hold, -⟩ | ⟨-, hnew⟩
        · exact (h.marks i t hold).mono hkeeps
        · exact ⟨fun hne => absurd hnew.output hne, fun m hm => by simp [hnew.errorMessage] at hm⟩

end Database

/-! ### Every run -/

/-- Whoever executes a task has been supplied with it. -/
theorem Platform.Reachable.supplied {leaseTimeout : Timedelta} {p : Platform}
    (h : p.Reachable leaseTimeout) {w : Nat} {claim : Claim} {untrusted : Bool}
    {task : StartTaskExecutionResult}
    (hworker : p.workers w = .processing claim untrusted (.executing task)) :
    Supplied p.db.store claim.taskExecutionId task := by
  have hsound := h.sound
  have hw := hsound.workers w
  rw [hworker] at hw
  obtain ⟨startedAt, base, before, after, he⟩ := hw.2.2.2.2
  exact (reachable_run hsound.db).supplied hsound.started _ _ _ _ _ _ he

namespace System

variable {leaseTimeout : Timedelta} {x x' : System}

theorem Moves.genuine (h : x.Moves leaseTimeout x') (hx : x.Sound leaseTimeout)
    (hg : Genuine x.platform.db) : Genuine x'.platform.db := by
  cases h with
  | none => exact hg
  | created => exact hg
  | deleted => exact hg
  | started publisher draws now definitions id wd platform hdefinitions hload _ hstart =>
      have hvalid := (hx.definitions.started hdefinitions).valid hload
      rcases Platform.onDb_of_step hstart with hsame | ⟨a, hdb, hon⟩
      · exact hsame ▸ hg
      · refine hg.step hx.platform.sound.db (hon.allowed hvalid) hdb fun w call ha => ?_
        cases hon.begins w call ha
  | ran action platform hother hreport hrun =>
      rcases Platform.onDb_of_step hrun with hsame | ⟨a, hdb, hon⟩
      · exact hsame ▸ hg
      · refine hg.step hx.platform.sound.db
          (hon.allowed (PlatformAction.valid_of_starts hother)) hdb fun w call ha => ?_
        cases hon.begins w call ha with
        | start => trivial
        | @report _ claim untrusted task result completedAt hworker =>
            obtain ⟨claim', untrusted', task', hworker', hexecute⟩ := hreport w _ _ rfl
            obtain ⟨rfl, rfl, hprocessing⟩ :=
              Worker.processing.inj (hworker.symm.trans hworker')
            obtain rfl := Processing.executing.inj hprocessing
            obtain ⟨t, ht, hexecuted⟩ := (hx.platform.supplied hworker).executed hexecute
            exact justified_reportCall ht hexecuted completedAt

theorem Reachable.genuine (h : x.Reachable leaseTimeout) : Genuine x.platform.db := by
  induction h with
  | init clock => exact genuine_init
  | step h action hvalid hs ih => exact (moves_of_step hvalid hs).genuine h.sound ih

/-- The plugin of a task that is being executed is found. -/
theorem Reachable.executeTask_ok (h : x.Reachable leaseTimeout) {w : Nat} {claim : Claim}
    {untrusted : Bool} {task : StartTaskExecutionResult}
    (hworker : x.platform.workers w = .processing claim untrusted (.executing task)) :
    ∃ result, TaskProcessingService.executeTask .discovered task = .ok result := by
  obtain ⟨t, ht, hsupplied⟩ := h.sound.platform.supplied hworker
  obtain ⟨_, m, -, hm, -, -, hplugin, -⟩ := h.faithful.task _ t ht
  obtain ⟨plugin, hregistered, -⟩ := h.sound.definitions.tasks _ m hm
  refine ⟨_, Sql.bind_eq_ok.mpr ⟨plugin, ?_, rfl⟩⟩
  unfold TaskRegistry.get
  rw [hsupplied.pluginType, hplugin, hregistered]

end System

/--
**A finished task says what its plugin returned.**  No plugin a worker looks up is missing, and
whatever becomes of a task came of executing its plugin, with its configuration, on the final
outputs of its parents: its output where the plugin has succeeded, and its message where it has
not.
-/
theorem outputs_of_plugins {leaseTimeout : Timedelta} {x : System}
    (h : x.Reachable leaseTimeout) :
    (∀ w claim untrusted task,
      x.platform.workers w = .processing claim untrusted (.executing task) →
      ∃ t result, taskRow x.platform.db.store claim.taskExecutionId = some t ∧
        TaskProcessingService.executeTask .discovered task = .ok result ∧
        Executed x.platform.db.store t result) ∧
    ∀ i t, taskRow x.platform.db.store i = some t → Attested x.platform.db.store t := by
  refine ⟨fun w claim untrusted task hworker => ?_, h.genuine.rows⟩
  obtain ⟨result, hresult⟩ := h.executeTask_ok hworker
  obtain ⟨t, ht, hexecuted⟩ := (h.sound.platform.supplied hworker).executed hresult
  exact ⟨t, result, ht, hresult, hexecuted⟩

/-- In the sample both tasks are completed, the second with what the first one has produced. -/
theorem outputs_of_plugins_sample :
    ((taskRow (sampleSystem 32).platform.db.store 9703).map (·.status) = some .completed) ∧
    (∀ w claim untrusted task,
      (sampleSystem 32).platform.workers w = .processing claim untrusted (.executing task) →
      ∃ t result, taskRow (sampleSystem 32).platform.db.store claim.taskExecutionId = some t ∧
        TaskProcessingService.executeTask .discovered task = .ok result ∧
        Executed (sampleSystem 32).platform.db.store t result) ∧
    ∀ i t, taskRow (sampleSystem 32).platform.db.store i = some t →
      Attested (sampleSystem 32).platform.db.store t :=
  ⟨by decide +kernel, outputs_of_plugins (sampleSystem_reachable 32)⟩

/-! ### The end of a workflow -/

/-- What a workflow ends as. -/
def WorkflowDefinition.outcome (wd : WorkflowDefinition) : WorkflowStatus :=
  if wd.taskDefinitions.any fun d => d.pluginType == FailTask.pluginType then .failed
  else .completed

section Ancestors

variable {wd : WorkflowDefinition} {e : ExecutionStore} {workflowId : UUID}

/-- The execution of a task of the definition. -/
theorem ExecutionOf.row (h : ExecutionOf wd e workflowId) (hvalid : wd.Valid)
    {d : TaskDefinition} (hd : d ∈ wd.taskDefinitions) :
    ∃ i t, taskRow e i = some t ∧ t.workflowExecutionId = workflowId ∧
      t.taskDefinitionId = d.id ∧ t.key = d.key ∧ t.pluginType = d.pluginType ∧
      t.configuration = d.configuration := by
  obtain ⟨i, t, hi, ht, htd⟩ := h.complete d hd
  obtain ⟨d', hd', hid, hkey, hplugin, hconfiguration, -⟩ := h.tasks i t hi ht
  obtain rfl := List.inj_on_of_nodup_map hvalid.ids hd' hd (hid.trans htd)
  exact ⟨i, t, hi, ht, htd, hkey, hplugin, hconfiguration⟩

/-- A dependency of a task of an execution has its execution among the parents. -/
theorem ExecutionOf.parent (h : ExecutionOf wd e workflowId) (hvalid : wd.Valid) {i : UUID}
    {t : TaskExecutionModel} (hi : taskRow e i = some t) (ht : t.workflowExecutionId = workflowId)
    {k : UUID} (hk : wd.DependsOn t.taskDefinitionId k) :
    ∃ j u, taskRow e j = some u ∧ u.workflowExecutionId = workflowId ∧
      u.taskDefinitionId = k ∧ j ∈ t.parentTaskIds := by
  obtain ⟨d, hd, -, hmem⟩ := id hk
  obtain ⟨p, hp, rfl⟩ := List.mem_map.mp (hvalid.known d hd k hmem)
  obtain ⟨j, u, hj, hu, hup⟩ := h.complete p hp
  exact ⟨j, u, hj, hu, hup, (h.parents i j t u hi hj ht hu).mpr (by rw [hup]; exact hk)⟩

/-- Where the parents are completed, everything the task depends on is. -/
theorem ExecutionOf.ancestors (h : ExecutionOf wd e workflowId) (hvalid : wd.Valid)
    (hrows : ∀ i t, taskRow e i = some t → Attested e t) {i : UUID} {t : TaskExecutionModel}
    (hi : taskRow e i = some t) (ht : t.workflowExecutionId = workflowId)
    (hparents : ParentsCompleted e t) {k : UUID}
    (hk : Relation.TransGen wd.DependsOn t.taskDefinitionId k) :
    ∃ j u, taskRow e j = some u ∧ u.workflowExecutionId = workflowId ∧
      u.taskDefinitionId = k ∧ u.status = .completed := by
  have hnext : ∀ {i t k}, taskRow e i = some t → t.workflowExecutionId = workflowId →
      ParentsCompleted e t → wd.DependsOn t.taskDefinitionId k →
      ∃ j u, taskRow e j = some u ∧ u.workflowExecutionId = workflowId ∧
        u.taskDefinitionId = k ∧ u.status = .completed := by
    intro i t k hi ht hparents hk
    obtain ⟨j, u, hj, hu, huk, hmem⟩ := h.parent hvalid hi ht hk
    obtain ⟨u', hu', hc⟩ := completed_iff.mp (hparents j hmem)
    obtain rfl := Option.some.inj (hj.symm.trans hu')
    exact ⟨j, u, hj, hu, huk, hc⟩
  induction hk with
  | single hstep => exact hnext hi ht hparents hstep
  | tail _ hstep ih =>
      obtain ⟨j, u, hj, hu, rfl, hc⟩ := ih
      obtain ⟨result, hexecuted, -⟩ := (hrows j u hj).completed hc
      exact hnext hj hu hexecuted.parents hstep

/-- A completed task does not have the plugin that fails. -/
theorem Attested.not_fail {t : TaskExecutionModel} (h : Attested e t) (hc : t.status = .completed) :
    t.pluginType ≠ FailTask.pluginType := by
  obtain ⟨result, hexecuted, hsucceeded, -⟩ := h.completed hc
  exact hexecuted.succeeded_iff.mp hsucceeded

/-- A failed task has. -/
theorem Attested.fail {t : TaskExecutionModel} (h : Attested e t) (hf : t.status = .failed) :
    t.pluginType = FailTask.pluginType := by
  obtain ⟨result, hexecuted, hfailed, -⟩ := h.failed hf
  by_contra hne
  rw [hexecuted.succeeded_iff.mpr hne] at hfailed
  simp at hfailed

/-- The status of a workflow that is over is decided by its definition. -/
theorem ExecutionOf.status (h : ExecutionOf wd e workflowId) (hvalid : wd.Valid)
    (hcoherent : Coherent e) (hrows : ∀ i t, taskRow e i = some t → Attested e t)
    {w : WorkflowExecutionModel} (hw : workflowRow e workflowId = some w) :
    w.status = .running ∨ w.status = wd.outcome := by
  unfold WorkflowDefinition.outcome
  cases hs : w.status with
  | running => exact Or.inl rfl
  | cancelled => exact absurd hs (hcoherent.not_cancelled hw)
  | completed =>
      refine Or.inr (if_neg fun hany => ?_).symm
      obtain ⟨d, hd, hfail⟩ := List.any_eq_true.mp hany
      obtain ⟨i, t, hi, ht, -, -, hplugin, -⟩ := h.row hvalid hd
      have hadmits := hcoherent.admits i t w hi (ht ▸ hw)
      rw [hs] at hadmits
      exact (hrows i t hi).not_fail hadmits (hplugin.trans (by simpa using hfail))
  | failed =>
      refine Or.inr (if_pos ?_).symm
      obtain ⟨j, hj⟩ := hcoherent.culprit workflowId w hw hs
      obtain ⟨t, ht, hti, hf⟩ := (hj j).mpr rfl
      obtain ⟨d, hd, -, -, hplugin, -⟩ := h.tasks j t ht hti
      refine List.any_eq_true.mpr ⟨d, hd, ?_⟩
      rw [← hplugin, (hrows j t ht).fail hf]
      rfl

end Ancestors

/--
**A workflow ends as its definition says.**  It fails exactly if one of its tasks is one that
fails, in whatever order and however often its tasks are executed; and what depends on such a
task, directly or not, is never executed.
-/
theorem outcome_of_definition {leaseTimeout : Timedelta} {x : System}
    (h : x.Reachable leaseTimeout) {id : UUID} {w : WorkflowExecutionModel}
    {wd : WorkflowDefinition} (hw : workflowRow x.platform.db.store id = some w)
    (hload : load x.definitions w.workflowDefinitionId = some wd) :
    (w.status = .running ∨ w.status = wd.outcome) ∧
    ∀ i t d, taskRow x.platform.db.store i = some t → t.workflowExecutionId = id →
      d ∈ wd.taskDefinitions → d.pluginType = FailTask.pluginType →
      Relation.TransGen wd.DependsOn t.taskDefinitionId d.id →
      (t.status = .pending ∨ t.status = .cancelled) ∧
        ∀ w claim untrusted task, x.platform.workers w =
          .processing claim untrusted (.executing task) → claim.taskExecutionId ≠ i := by
  have hvalid := h.sound.definitions.valid hload
  have hplatform := h.sound.platform.sound
  have hrows := h.genuine.rows
  obtain ⟨wd', hload', hof⟩ := h.executionOf hw
  obtain rfl := Option.some.inj (hload.symm.trans hload')
  refine ⟨hof.status hvalid (reachable_coherent hplatform.db) hrows hw, ?_⟩
  intro i t d hi hti hd hfail hdepends
  have hparents : ¬ ParentsCompleted x.platform.db.store t := by
    intro hparents
    obtain ⟨j, u, hj, hu, hud, hc⟩ := hof.ancestors hvalid hrows hi hti hparents hdepends
    obtain ⟨d', hd', hid, -, hplugin, -⟩ := hof.tasks j u hj hu
    obtain rfl := List.inj_on_of_nodup_map hvalid.ids hd' hd (hid.trans hud)
    exact (hrows j u hj).not_fail hc (hplugin.trans hfail)
  constructor
  · cases hs : t.status with
    | pending => exact Or.inl rfl
    | cancelled => exact Or.inr rfl
    | running =>
        obtain ⟨entry, hentry, hid⟩ := hplatform.running i t hi hs
        obtain ⟨t', ht', hready⟩ := hplatform.queued entry hentry
        rw [hid] at ht'
        obtain rfl := Option.some.inj (hi.symm.trans ht')
        exact absurd hready hparents
    | completed =>
        obtain ⟨_, hexecuted, -⟩ := (hrows i t hi).completed hs
        exact absurd hexecuted.parents hparents
    | failed =>
        obtain ⟨_, hexecuted, -⟩ := (hrows i t hi).failed hs
        exact absurd hexecuted.parents hparents
  · rintro w claim untrusted task hworker rfl
    obtain ⟨t', ht', hsupplied⟩ := h.sound.platform.supplied hworker
    obtain rfl := Option.some.inj (hi.symm.trans ht')
    exact hparents hsupplied.parents

/-! A sample of a workflow that fails: the second task depends on one that always does. -/

def failingRequest : CreateWorkflowDefinition where
  name := "failing"
  description := ""
  tasks :=
    [{ pluginType := "fail", key := "a", configuration := [("message", .str "out of paper")]
       dependencies := [], maxTries := 1 },
     { pluginType := "collect_inputs", key := "b", configuration := []
       dependencies := ["a"], maxTries := 1 }]
  triggers := []
  enabled := true

def failingSystem : System := systemAfter failingRequest
  [.start 0 ⟨1, id⟩ 0 1, .run (.publish 0 0), .run (.lock 0 7 [] 0), .run (.grant 0 100),
   .run (.startTask 0 1), .run (.statement 0), .run (.row 0 (.task 9507)), .run (.statement 0),
   .run (.endTransaction 0), .report 0 2, .run (.statement 0), .run (.row 0 (.task 9507)),
   .run (.statement 0), .run (.row 0 (.workflow 1)), .run (.statement 0),
   .run (.row 0 (.task 9703)), .run (.statement 0), .run (.endTransaction 0),
   .run (.dispose 0 3)]

theorem failingSystem_reachable : failingSystem.Reachable 100 :=
  systemAfter_reachable _ (by decide)

/-- The execution of the sample and its definition. -/
theorem failingSystem_execution : ∃ w wd, workflowRow failingSystem.platform.db.store 1 = some w ∧
    load failingSystem.definitions w.workflowDefinitionId = some wd ∧ w.status = .failed ∧
    wd.outcome = .failed := by
  have hsome : ((workflowRow failingSystem.platform.db.store 1).bind fun w =>
      (load failingSystem.definitions w.workflowDefinitionId).map fun wd =>
        (w.status, wd.outcome)) = some (.failed, .failed) := by
    decide +kernel
  obtain ⟨w, hw, hmap⟩ := Option.bind_eq_some_iff.mp hsome
  obtain ⟨wd, hwd, hboth⟩ := Option.map_eq_some_iff.mp hmap
  obtain ⟨hstatus, houtcome⟩ := Prod.mk.inj hboth
  exact ⟨w, wd, hw, hwd, hstatus, houtcome⟩

theorem outcome_of_definition_sample : ∃ (w : WorkflowExecutionModel) (wd : WorkflowDefinition),
    w.status = .failed ∧ wd.outcome = .failed ∧ (w.status = .running ∨ w.status = wd.outcome) ∧
    ∀ i t d, taskRow failingSystem.platform.db.store i = some t → t.workflowExecutionId = 1 →
      d ∈ wd.taskDefinitions → d.pluginType = FailTask.pluginType →
      Relation.TransGen wd.DependsOn t.taskDefinitionId d.id →
      (t.status = .pending ∨ t.status = .cancelled) ∧
        ∀ w claim untrusted task, failingSystem.platform.workers w =
          .processing claim untrusted (.executing task) → claim.taskExecutionId ≠ i := by
  obtain ⟨w, wd, hw, hload, hstatus, houtcome⟩ := failingSystem_execution
  exact ⟨w, wd, hstatus, houtcome, outcome_of_definition failingSystem_reachable hw hload⟩

end AutomationPlatform
