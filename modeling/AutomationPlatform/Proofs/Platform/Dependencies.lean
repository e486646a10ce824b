/-
A task runs after all its dependencies, and on exactly their outputs.

`start_task` does not look at the counter of its task.  It need not: a task comes
into the queue only when its parents are completed, so it is `Ready` before anyone
can claim it.  What it then collects of its parents is what they were completed with,
and that is in the log.
-/
import AutomationPlatform.Proofs.Executions.Inputs
import AutomationPlatform.Proofs.Platform.NoWorkLost

namespace AutomationPlatform

open WorkflowExecutionRepository

/-! ### How a task came by its output -/

/-- A commit of `complete_task` found the task running and gave it this output. -/
def CompletedWith (log : History) (i : UUID) (output : TaskOutput) : Prop :=
  ∃ request result base before after,
    .committed (.completeTask request) (.completed result) base before after ∈ log ∧
      request.taskExecutionId = i ∧ request.output = output ∧ Running before i

theorem CompletedWith.mono {log log' : History} (hlog : ∀ e ∈ log, e ∈ log') {i : UUID}
    {output : TaskOutput} (h : CompletedWith log i output) : CompletedWith log' i output := by
  obtain ⟨request, result, base, before, after, he, hrest⟩ := h
  exact ⟨request, result, base, before, after, hlog _ he, hrest⟩

/-- A completion answers with the tasks it has released. -/
theorem Effect.completed_result {s s' base : ExecutionStore}
    {request : CompleteTaskExecutionRequest} {result : CallResult}
    (heffect : Effect base s (.completeTask request) result s') : ∃ r, result = .completed r := by
  cases heffect with
  | completeMissed => exact ⟨_, rfl⟩
  | completeDone => exact ⟨_, rfl⟩

/-- A completed task was completed before, as it is, or by this very call. -/
theorem Effect.completed_cases {s s' base : ExecutionStore} {call : Call} {result : CallResult}
    (heffect : Effect base s call result s') {i : UUID} {t' : TaskExecutionModel}
    (hi : taskRow s' i = some t') (hc : t'.status = .completed) :
    taskRow s i = some t' ∨ ∃ request r, call = .completeTask request ∧ result = .completed r ∧
      request.taskExecutionId = i ∧ Running s i ∧ t'.output = some request.output.values := by
  obtain ⟨t, ht, hstep⟩ := heffect.taskRow_before hi
  cases hstep with
  | same => exact Or.inl ht
  | start => simp [TaskExecutionModel.start] at hc
  | @complete request hid hrunning =>
      obtain ⟨r, rfl⟩ := heffect.completed_result
      exact Or.inr ⟨request, r, rfl, rfl, hid, ⟨t, ht, hrunning⟩, rfl⟩
  | release hblocked =>
      have hpending : t.status = .completed := hc
      rw [hblocked.1] at hpending
      simp at hpending
  | again => simp [TaskExecutionModel.again] at hc
  | fail => simp [TaskExecutionModel.fail] at hc
  | cancel => simp [TaskExecutionModel.cancel] at hc

/-- A completed task has the output its completion was requested with. -/
theorem Run.completedWith {log : History} {s : ExecutionStore} (h : Run log s) :
    ∀ i t, taskRow s i = some t → t.status = .completed →
      ∃ output : TaskOutput, t.output = some output.values ∧ CompletedWith log i output := by
  induction h with
  | empty => intro i t hi; simp [taskRow] at hi
  | insert hrun hrows hins ih =>
      intro i t hi hc
      obtain ⟨_, hcreated⟩ := hrows.created hins
      rcases hcreated.cases hrun.coherent.toLinked hi with ⟨hold, -⟩ | ⟨-, hnew⟩
      · obtain ⟨output, houtput, hwith⟩ := ih i t hold hc
        exact ⟨output, houtput, hwith.mono fun e he => List.mem_append_left _ he⟩
      · rw [hnew.status] at hc; simp at hc
  | @commit log log₀ s s' base call result hrun _ _ heffect ih _ =>
      intro i t hi hc
      rcases heffect.completed_cases hi hc with hold |
        ⟨request, r, rfl, rfl, hid, hrunning, houtput⟩
      · obtain ⟨output, houtput, hwith⟩ := ih i t hold hc
        exact ⟨output, houtput, hwith.mono fun e he => List.mem_append_left _ he⟩
      · exact ⟨request.output, houtput, request, r, base, s, s',
          List.mem_append_right _ (by simp), hid, rfl, hrunning⟩

/-! ### Dependencies first -/

/--
The task `t` could run on the store `s` and the data `r` says on what: every parent is
completed, and the mapping has one entry for each of them, under its key and with the
output its completion was requested with.
-/
structure InputsOf (log : History) (s : ExecutionStore) (t : TaskExecutionModel)
    (r : StartTaskExecutionResult) : Prop where
  parents : ∀ q ∈ t.parentTaskIds, ∃ tq output, taskRow s q = some tq ∧ tq.status = .completed ∧
    dependencyOutput s q = some (tq.key, output) ∧ CompletedWith log q output
  entries : (r.parentOutputs.map some).Perm (t.parentTaskIds.map (dependencyOutput s))
  keys : (r.parentOutputs.map (·.1)).Nodup

/-- What is collected on a store between the two is what the parents were completed with. -/
theorem inputsOf {log : History} {base V s : ExecutionStore} (hrun : Run log s)
    (hbase : base.Le executionEvolution V) (hV : V.Le executionEvolution s) {i : UUID}
    {t : TaskExecutionModel} (hi : taskRow s i = some t) (hready : Ready base i)
    {r : StartTaskExecutionResult}
    (h : collectOutputs [] (parentModels V t.parentTaskIds) = .ok r.parentOutputs) :
    InputsOf log s t r := by
  have hparents : ∀ q ∈ t.parentTaskIds, completed V q = true := by
    obtain ⟨t₀, ht₀, hcompleted⟩ := hready.mono hbase
    obtain ⟨t', ht', hev⟩ := taskRow_le hV ht₀
    obtain rfl : t = t' := Option.some.inj (hi.symm.trans ht')
    rw [hev.same.parentTaskIds]
    exact hcompleted
  obtain ⟨hentries, hkeys⟩ := parentOutputs_eq hrun.coherent hi hparents hV h
  refine ⟨fun q hq => ?_, hentries, hkeys⟩
  obtain ⟨tq, htq, hc⟩ := completed_iff.mp (completed_mono hV (hparents q hq))
  obtain ⟨output, houtput, hwith⟩ := hrun.completedWith q tq htq hc
  refine ⟨tq, output, htq, hc, ?_, hwith⟩
  rw [dependencyOutput, htq, Option.bind_some, contribution, houtput]
  rfl

/-- A start of a ready task is given its inputs. -/
theorem Effect.inputs {log : History} {s s' base : ExecutionStore} (hrun : Run log s) {i : UUID}
    {startedAt : Datetime} {r : StartTaskExecutionResult}
    (heffect : Effect base s (.startTask i startedAt) (.started (some r)) s')
    (hready : Ready base i) : ∃ t, taskRow s i = some t ∧ InputsOf log s t r := by
  cases heffect with
  | @startResumed _ _ V V' t _ hbase hV hs hrow _ hdata =>
      obtain ⟨t', ht', hev⟩ := taskRow_le (hV.1.trans hs.1) hrow
      refine ⟨t', ht', inputsOf hrun (hbase.1.trans hV.1) hs.1 ht' hready ?_⟩
      rw [hev.same.parentTaskIds]
      exact hdata.parentOutputs
  | startTaken hbase hs hrow _ hdata =>
      exact ⟨_, hrow, inputsOf hrun hbase.1 hs.1 hrow hready hdata.parentOutputs⟩

/-- A start that returns nothing changes nothing. -/
theorem Effect.started_changes {s s' base : ExecutionStore} {i : UUID} {startedAt : Datetime}
    {result : CallResult} (heffect : Effect base s (.startTask i startedAt) result s')
    (h : (∃ r, result = .started (some r)) ∨ taskRow s' i ≠ taskRow s i) :
    ∃ r, result = .started (some r) := by
  cases heffect with
  | startRefused =>
      rcases h with hr | hne
      · exact hr
      · exact absurd rfl hne
  | startResumed => exact ⟨_, rfl⟩
  | startTaken => exact ⟨_, rfl⟩

/-- A worker never finds a parent without an output. -/
theorem Platform.Sound.no_error {leaseTimeout : Timedelta} {p : Platform}
    (h : p.Sound leaseTimeout) {w : Nat} {x : Sql.Txn RowId Row Call CallResult}
    (hx : p.db.txns w = some x) {i : UUID} {startedAt : Datetime}
    (hcall : x.call = .startTask i startedAt) (e : String) : x.phase ≠ .ready (.raise e) := by
  intro hphase
  have hs := reachable_coherent h.db
  have hready := (h.starting hx hcall).1
  obtain ⟨lb, body, writes, hlax, hat⟩ := ((reachable_sound h.db).txn w x hx).run
  rw [hphase] at hat
  obtain ⟨rfl, rfl⟩ := hat
  rw [hcall] at hlax
  rcases startTask_run hs (Sql.Program.finished_raise _) hlax with ⟨_, hdone, -⟩ | ⟨t, V, _, key, ht, hbase, hV, -, herror⟩
  · simp at hdone
  · obtain ⟨u, hu, hnone⟩ := collectOutputs_error herror
    obtain ⟨q, hq, hrow⟩ := mem_parentModels hu
    -- The parent was completed when the transaction began, and has its output since.
    obtain ⟨t₀, ht₀, hparents⟩ := hready
    obtain ⟨t', ht', hev⟩ := taskRow_le (hbase.1.trans hV.1) ht₀
    obtain rfl : t = t' := Option.some.inj (ht.symm.trans ht')
    rw [hev.same.parentTaskIds] at hq
    have hcompleted := hparents q hq
    have hsame := row_of_completed hV.1 (completed_mono hbase.1 hcompleted)
    rw [hrow] at hsame
    obtain ⟨u', hu', hc⟩ := completed_iff.mp (completed_mono (hbase.1.trans hV.1) hcompleted)
    obtain rfl : u = u' := Option.some.inj (hsame.symm.trans hu')
    have houtput := (hs.ok q u hu').output.mp hc
    rw [hnone] at houtput
    simp at houtput

/-- What the platform promises about the order of tasks and what they are given. -/
structure DependenciesFirst (p : Platform) : Prop where
  /-- Whatever is in the queue is committed, and its parents are completed. -/
  queued : ∀ entry ∈ p.queue.queue, Ready p.db.store entry.taskExecutionId
  /-- A start that takes its task up or returns data returned the task's inputs. -/
  started : ∀ i startedAt result base before after,
    .committed (.startTask i startedAt) result base before after ∈ p.db.log →
    (∃ r, result = .started (some r)) ∨ taskRow after i ≠ taskRow before i →
    ∃ t r, result = .started (some r) ∧ taskRow before i = some t ∧ InputsOf p.db.log before t r
  /-- What a plugin is executed on was returned by a start of the claimed task. -/
  executing : ∀ w claim untrusted task,
    p.workers w = .processing claim untrusted (.executing task) →
    p.Given claim.taskExecutionId task
  /-- No `start_task` ends in the exception of `_load_parent_outputs`. -/
  no_error : ∀ w x, p.db.txns w = some x → ∀ i startedAt, x.call = .startTask i startedAt →
    ∀ e, x.phase ≠ .ready (.raise e)

/--
**Tasks run after all their dependencies, on exactly their outputs**, whoever put them
into the queue and whoever claims them.
-/
theorem dependencies_first {leaseTimeout : Timedelta} {p : Platform}
    (h : p.Reachable leaseTimeout) : DependenciesFirst p where
  queued := h.sound.queued
  started := by
    intro i startedAt result base before after he hmoves
    obtain ⟨⟨log₁, hprefix, hrun⟩, -, -, heffect⟩ := (reachable_run h.sound.db).committed he
    obtain ⟨r, rfl⟩ := heffect.started_changes hmoves
    obtain ⟨t, ht, hinputs⟩ := heffect.inputs hrun (h.sound.started i startedAt _ base before after he)
    refine ⟨t, r, rfl, ht, fun q hq => ?_, hinputs.entries, hinputs.keys⟩
    obtain ⟨tq, output, htq, hc, hdep, hwith⟩ := hinputs.parents q hq
    exact ⟨tq, output, htq, hc, hdep, hwith.mono fun _ he => hprefix.subset he⟩
  executing := by
    intro w claim untrusted task hworker
    have hw := h.sound.workers w
    rw [hworker] at hw
    exact hw.2.2.2.2
  no_error := fun w x hx i startedAt hcall e => h.sound.no_error hx hcall e

/-- In the sample the second worker executes the first child, on the output of the root. -/
theorem dependencies_first_sample :
    (∃ task, (platformAfter 100 samplePlatformSteps).workers 1 =
        .processing ⟨2, 101⟩ false (.executing task) ∧ task.parentOutputs = [("extract", {})]) ∧
      DependenciesFirst (platformAfter 100 samplePlatformSteps) :=
  ⟨⟨_, rfl, rfl⟩, dependencies_first samplePlatform_reachable⟩

end AutomationPlatform
