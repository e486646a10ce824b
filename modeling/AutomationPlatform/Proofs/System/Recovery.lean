/-
From every state the system can bring what has been started to its end.

Whatever has crashed, been lost or been left half done, one worker and one publisher are enough:

    come to rest      whoever is at work goes down, and the leases expire
    work off          the worker takes what is queued, one row after another
    repair            what is runnable and not queued is found and published

Working off a row lowers the tries that are left, or the rows, and repair raises neither.  When
nothing is queued and nothing is found, a task that is not over would wait for one that is not
over either, and the graph has no cycle.

What is published at once has to pass the driver, so no more tasks may be left than it takes.
-/
import AutomationPlatform.Proofs.Platform.WorkerLoop
import AutomationPlatform.Proofs.System.Quiet
import AutomationPlatform.Proofs.System.Refinement

namespace AutomationPlatform

open PostgresExecutionQueue (accepted)

/-! ### Nothing left to do -/

section Quiescent

variable {leaseTimeout : Timedelta} {x : System}

end Quiescent

/-! ### Workflows that end -/

/-- While it runs, the workflow has a task that is not completed. -/
def Busy (s : ExecutionStore) (workflowId : UUID) : Prop :=
  ∀ w, workflowRow s workflowId = some w → w.status = .running →
    ∃ j t, taskRow s j = some t ∧ t.workflowExecutionId = workflowId ∧ t.status ≠ .completed

section Busy

variable {s s' : ExecutionStore} {call : Call} {r : CallResult} {workflowId : UUID}
  {change : Change}

/-- A change that completes no task of the workflow, unless it ends the workflow. -/
theorem Busy.mapRows (h : Busy s workflowId)
    (hchange : ∀ w, workflowRow s workflowId = some w →
      (change (.workflow workflowId) w).status = .running → w.status = .running ∧
        ∀ j t, taskRow s j = some t → t.workflowExecutionId = workflowId →
          t.status ≠ .completed → ∃ k u, taskRow s k = some u ∧
            (change (.task k) u).workflowExecutionId = workflowId ∧
            (change (.task k) u).status ≠ .completed) :
    Busy (s.mapRows change) workflowId := by
  intro w' hw' hrunning
  obtain ⟨w, hw, rfl⟩ := workflowRow_of_mapRows hw'
  obtain ⟨hbefore, htask⟩ := hchange w hw hrunning
  obtain ⟨j, t, hj, ht, hopen⟩ := h w hw hbefore
  obtain ⟨k, u, hk, hu, huopen⟩ := htask j t hj ht hopen
  exact ⟨k, _, by rw [taskRow_mapRows, hk, Option.map_some], hu, huopen⟩

/-- A call that is alone loses no completion. -/
theorem Alone.busy (h : Alone s call (.ok r) s') (hbusy : Busy s workflowId) :
    Busy s' workflowId := by
  cases h with
  | startRefused | startResumed | completeMissed | retryMissed => exact hbusy
  | @startTaken id startedAt v outputs hrow hpending hparents =>
      refine hbusy.mapRows fun w _ hw => ⟨hw, fun j t hj ht hopen => ⟨j, t, hj, ?_⟩⟩
      by_cases hid : j = id
      · simpa [startChange, hid, TaskExecutionModel.start] using ht
      · simpa [startChange, hid] using ⟨ht, hopen⟩
  | @retryAgain request v hrow hrunning htries =>
      refine hbusy.mapRows fun w _ hw => ⟨hw, fun j t hj ht hopen => ⟨j, t, hj, ?_⟩⟩
      by_cases hid : j = request.taskExecutionId
      · simpa [retryChange, hid, TaskExecutionModel.again] using ht
      · simpa [retryChange, hid] using ⟨ht, hopen⟩
  | @completeDone request v hrow hrunning =>
      refine hbusy.mapRows fun w _ hw => ?_
      by_cases hended : lastOfWorkflow s request.taskExecutionId v = true ∧
          workflowId = v.workflowExecutionId
      · simp [completeChange, hended, WorkflowExecutionModel.finish] at hw
      rw [completeChange_workflow hended] at hw
      refine ⟨hw, fun j t hj ht hopen => ?_⟩
      -- Another task of the workflow is not completed either.
      obtain ⟨k, u, hk, hu, hne, huopen⟩ : ∃ k u, taskRow s k = some u ∧
          u.workflowExecutionId = workflowId ∧ k ≠ request.taskExecutionId ∧
          u.status ≠ .completed := by
        by_cases hown : workflowId = v.workflowExecutionId
        · have hlast : ¬ lastOfWorkflow s request.taskExecutionId v = true :=
            fun hlast => hended ⟨hlast, hown⟩
          rw [lastOfWorkflow_iff] at hlast
          push Not at hlast
          obtain ⟨k, u, hk, hu, hne, huopen⟩ := hlast
          exact ⟨k, u, hk, hu.trans hown.symm, hne, huopen⟩
        · refine ⟨j, t, hj, ht, ?_, hopen⟩
          rintro rfl
          obtain rfl := Option.some.inj (hj.symm.trans hrow)
          exact hown ht.symm
      refine ⟨k, u, hk, ?_⟩
      by_cases hchild : k ∈ v.childTaskIds ∧ u.blocked
      · simpa [completeChange, hne, hchild, TaskExecutionModel.release] using ⟨hu, huopen⟩
      · simpa only [completeChange, if_neg hne, if_neg hchild] using ⟨hu, huopen⟩
  | @retryFailed request v hrow hrunning htries =>
      refine hbusy.mapRows fun w _ hw => ?_
      by_cases hown : workflowId = v.workflowExecutionId
      · rw [hown, failChange_finish] at hw
        simp [WorkflowExecutionModel.finish] at hw
      rw [failChange_workflow hown] at hw
      refine ⟨hw, fun j t hj ht hopen => ⟨j, t, hj, ?_⟩⟩
      have hid : j ≠ request.taskExecutionId := by
        rintro rfl
        obtain rfl := Option.some.inj (hj.symm.trans hrow)
        exact hown ht.symm
      have hother : ¬ (t.workflowExecutionId = v.workflowExecutionId ∧
          t.status.isTerminal = false) := fun h => hown (ht.symm.trans h.1)
      simpa [failChange, hid, hother] using ⟨ht, hopen⟩

end Busy

/-! ### What working off a row comes to -/

section Weights

variable {s s' : ExecutionStore} {queued queued' ids : List UUID} {call : Call} {r : CallResult}
  {i j : UUID} {t : TaskExecutionModel}

/-- A call on one task makes no other one cost more. -/
theorem Alone.weight_le (hs : Coherent s) (h : Alone s call (.ok r) s')
    (hj : j ≠ call.taskExecutionId)
    (hqueued : j ∈ queued' → j ∈ queued ∨ j ∈ handedOut (.committed call r s s s')) :
    weight s' queued' j ≤ weight s queued j := by
  cases ht' : taskRow s' j with
  | none => simp [weight, ht']
  | some t' =>
      obtain ⟨t, ht, -⟩ := (h.move hs).before ht'
      refine (h.beside hj ht ht').weight_le ht ht' fun hover hmem => ?_
      rcases hqueued hmem with hold | hnew
      · exact hold
      · obtain ⟨u, hu, hp⟩ := (handedOut_open hs h hnew).2
        obtain rfl := Option.some.inj (ht.symm.trans hu)
        rw [hp] at hover
        simp [TaskStatus.isTerminal] at hover

/-- A row of a task that is over is what it costs. -/
theorem drop_lowers (hi : i ∈ ids) (hqueued : i ∈ queued) (ht : taskRow s i = some t)
    (hover : t.status.isTerminal = true) (hleft : Left queued i {} queued') :
    remaining s queued' ids < remaining s queued ids := by
  have hiff : ∀ j, j ∈ queued' ↔ j ∈ queued ∧ j ≠ i := fun j => by simpa using hleft j
  refine remaining_lt hi (fun j _ => ?_) ?_
  · cases hu : taskRow s j with
    | none => simp [weight, hu]
    | some u => exact (Beside.kept rfl rfl).weight_le hu hu fun _ hmem => ((hiff j).mp hmem).1
  · rw [weight_over ht hover, weight_over ht hover, if_pos hqueued, if_neg (by simp [hiff])]
    omega

/-- An attempt takes a try or the row from its task, and what comes is paid for. -/
theorem Alone.lowers {t' : TaskExecutionModel} (hs : Coherent s) (h : Alone s call (.ok r) s')
    (hcall : call.taskExecutionId = i)
    (hhanded : ∀ j, j ∈ handedOut (.committed call r s s s') ↔
      j ∈ (TaskProcessingService.processResult r).enqueueTaskIds)
    (ht : taskRow s i = some t) (hrunning : t.status = .running) (ht' : taskRow s' i = some t')
    (hcost : (t'.status.isTerminal = true ∧
        (TaskProcessingService.processResult r).shouldRetry = false) ∨
      (t'.status = .running ∧ (TaskProcessingService.processResult r).shouldRetry = true ∧
        t'.remainingTries.toNat < t.remainingTries.toNat))
    (hi : i ∈ ids) (hleft : Left queued i (TaskProcessingService.processResult r) queued') :
    remaining s' queued' ids < remaining s queued ids := by
  -- The task itself was running, so the call does not hand it out.
  have hnot : i ∉ handedOut (.committed call r s s s') := by
    intro hnew
    obtain ⟨u, hu, hp⟩ := (handedOut_open hs h hnew).2
    obtain rfl := Option.some.inj (ht.symm.trans hu)
    rw [hrunning] at hp
    simp at hp
  have hlt : weight s' queued' i < weight s queued i := by
    rw [weight_open ht (by rw [hrunning]; rfl)]
    rcases hcost with ⟨hover, hretry⟩ | ⟨hr, -, htries⟩
    · have hgone : i ∉ queued' := by
        rw [hleft i, hretry, ← hhanded i]
        simp [hnot]
      rw [weight_over ht' hover, if_neg hgone]
      omega
    · rw [weight_open ht' (by rw [hr]; rfl)]
      omega
  refine remaining_lt hi (fun j _ => ?_) hlt
  by_cases hji : j = i
  · exact hji ▸ hlt.le
  · refine h.weight_le hs (hcall ▸ hji) fun hmem => ?_
    have hj := (hleft j).mp hmem
    split at hj
    · exact Or.inl hj
    · exact hj.imp And.left (hhanded j).mpr

/-- What processing a task comes to, on the store and on what is queued. -/
structure Lowers (s : ExecutionStore) (i : UUID) (ids : List UUID) (s' : ExecutionStore)
    (result : ProcessTaskResult) : Prop where
  enqueued : ∀ j ∈ result.enqueueTaskIds, ∃ t, taskRow s j = some t ∧ t.status = .pending
  distinct : result.enqueueTaskIds.Nodup
  remaining : ∀ queued queued', Left queued i result queued' →
    remaining s' queued' ids < remaining s queued ids
  busy : ∀ workflowId, Busy s workflowId → Busy s' workflowId

/-- Whatever is reported of a running task lowers what remains. -/
theorem report_lowers (hs : Coherent s) (ht : taskRow s i = some t) (hrunning : t.status = .running)
    (hi : i ∈ ids) (result : TaskResult) (completedAt : Datetime) :
    ∃ s' r, (TaskProcessingService.reportCall i result completedAt).body.exec s = (s', .ok r) ∧
      TaskProcessingService.proceed (if result.succeeded then .completing else .retrying) r =
        some (true, .processed (TaskProcessingService.processResult r)) ∧
      Lowers s i ids s' (TaskProcessingService.processResult r) := by
  have htries := (hs.ok i t ht).tries (by rw [hrunning]; rfl)
  cases hresult : result.succeeded with
  | true =>
      obtain ⟨request, rfl, hcall⟩ : ∃ request : CompleteTaskExecutionRequest,
          request.taskExecutionId = i ∧
          TaskProcessingService.reportCall i result completedAt = .completeTask request :=
        ⟨_, rfl, by rw [TaskProcessingService.reportCall, if_pos hresult]⟩
      have halone := Alone.completeDone ht hrunning
      have ht' : ∀ finished, taskRow (s.mapRows (completeChange request t finished))
          request.taskExecutionId = some (t.complete request) := by
        intro finished
        rw [taskRow_mapRows, ht, Option.map_some, completeChange, if_pos rfl]
      refine ⟨_, _, hcall ▸ halone.exec hs, rfl, fun j hj => ?_, ?_, fun queued queued' hleft => ?_,
          fun _ => halone.busy⟩
      · exact (handedOut_open hs halone hj).2
      · exact handedOut_nodup hs halone.effect
      · exact halone.lowers hs rfl (fun _ => Iff.rfl) ht hrunning (ht' _) (Or.inl ⟨rfl, rfl⟩) hi hleft
  | false =>
      obtain ⟨request, rfl, hcall⟩ : ∃ request : RetryTaskExecutionRequest,
          request.taskExecutionId = i ∧
          TaskProcessingService.reportCall i result completedAt = .retryTask request :=
        ⟨_, rfl, by rw [TaskProcessingService.reportCall, if_neg (by simp [hresult])]⟩
      have hnone : ∀ {s' : ExecutionStore} {r : RetryTaskExecutionResult} (j : UUID),
          j ∈ handedOut (.committed (.retryTask request) (.retried r) s s s') ↔
            j ∈ (TaskProcessingService.processResult (.retried r)).enqueueTaskIds := by
        intro s' r j
        simp [handedOut, TaskProcessingService.processResult]
      by_cases hmore : 1 < t.remainingTries
      · have halone := Alone.retryAgain ht hrunning hmore
        have ht' : taskRow (s.mapRows (retryChange request)) request.taskExecutionId =
            some (t.again request) := by
          rw [taskRow_mapRows, ht, Option.map_some, retryChange, if_pos rfl]
        have htries' : (t.again request).remainingTries = t.remainingTries - 1 := rfl
        refine ⟨_, _, hcall ▸ halone.exec hs, rfl, fun j hj => ?_, ?_, fun queued queued' hleft => ?_,
          fun _ => halone.busy⟩
        · simp [TaskProcessingService.processResult] at hj
        · exact List.nodup_nil
        · exact halone.lowers hs rfl hnone ht hrunning ht' (Or.inr ⟨rfl, rfl, by omega⟩) hi hleft
      · have halone := Alone.retryFailed ht hrunning (show t.remainingTries = 1 by omega)
        have ht' : taskRow (s.mapRows (failChange request t.workflowExecutionId))
            request.taskExecutionId = some (t.fail request) := by
          rw [taskRow_mapRows, ht, Option.map_some, failChange, if_pos rfl]
        refine ⟨_, _, hcall ▸ halone.exec hs, rfl, fun j hj => ?_, ?_, fun queued queued' hleft => ?_,
          fun _ => halone.busy⟩
        · simp [TaskProcessingService.processResult] at hj
        · exact List.nodup_nil
        · exact halone.lowers hs rfl hnone ht hrunning ht' (Or.inl ⟨rfl, rfl⟩) hi hleft

/-- A ready task that is not over is started, and that costs nothing. -/
theorem start_lowers (hs : Coherent s) (hready : Ready s i) (ht : taskRow s i = some t)
    (hopen : t.status.isTerminal = false) (startedAt : Datetime) :
    ∃ s' task t', (Call.startTask i startedAt).body.exec s = (s', .ok (.started (some task))) ∧
      taskRow s' i = some t' ∧ t'.status = .running ∧
      (∀ queued ids, remaining s' queued ids ≤ remaining s queued ids) ∧
      ∀ workflowId, Busy s workflowId → Busy s' workflowId := by
  obtain ⟨u, hu, hparents⟩ := hready
  obtain rfl := Option.some.inj (ht.symm.trans hu)
  obtain ⟨outputs, houtputs⟩ := collectOutputs_completed hs hparents
  rcases TaskStatus.not_terminal_iff.mp hopen with hpending | hrunning
  · have halone : Alone s (.startTask i startedAt) _ _ := .startTaken ht hpending houtputs
    have ht' : taskRow (s.mapRows (startChange i startedAt)) i = some (t.start startedAt) := by
      rw [taskRow_mapRows, ht, Option.map_some, startChange, if_pos rfl]
    refine ⟨_, _, _, halone.exec hs, ht', rfl, fun queued ids => List.sum_le_sum fun j _ => ?_,
      fun _ => halone.busy⟩
    by_cases hji : j = i
    · rw [hji, weight_open ht hopen, weight_open ht' rfl]
      rfl
    · exact halone.weight_le hs hji Or.inl
  · have halone : Alone s (.startTask i startedAt) _ _ := .startResumed ht hrunning houtputs
    exact ⟨_, _, _, halone.exec hs, ht, hrunning, fun _ _ => le_rfl, fun _ => id⟩

end Weights

/-! ### A round of one worker -/

namespace QueueDb

open PostgresExecutionQueue (taskIds)

variable {leaseTimeout : Timedelta} {db : QueueDb}

/-- A time at which every lease has expired. -/
def expiry (leaseTimeout : Timedelta) (db : QueueDb) : Datetime :=
  max db.clock (db.clock + leaseTimeout)

theorem Leases.claimable (h : Leases leaseTimeout db) {entry : QueueEntryModel}
    (he : entry ∈ db.queue) :
    entry.claimable (db.expiry leaseTimeout - leaseTimeout) = true := by
  have hexpired : db.clock ≤ db.expiry leaseTimeout - leaseTimeout :=
    le_sub_iff_add_le.mpr (le_max_right _ _)
  unfold QueueEntryModel.claimable
  rw [Bool.or_eq_true]
  rcases h.coherent entry he with ⟨-, hnone, -⟩ | ⟨_, _, _, heartbeat, -, -, -, hbeat, -⟩
  · exact Or.inl (by rw [hnone]; rfl)
  · refine Or.inr ?_
    have hpast := h.past entry he heartbeat hbeat
    rw [hbeat]
    simpa using hpast.trans hexpired

/-- Then there is a row to claim. -/
theorem Leases.exists_select (h : Leases leaseTimeout db) (hlocks : ∀ i, db.locks i = none)
    (hne : db.queue ≠ []) :
    ∃ entry, PostgresExecutionQueue.select db.queue
      (fun i => (db.locks i).isSome || ([] : List UUID).contains i)
      (db.expiry leaseTimeout - leaseTimeout) = some entry := by
  unfold PostgresExecutionQueue.select
  have hall : db.queue.filter (fun entry =>
      entry.claimable (db.expiry leaseTimeout - leaseTimeout) &&
        !((db.locks entry.taskExecutionId).isSome ||
          ([] : List UUID).contains entry.taskExecutionId)) = db.queue := by
    refine List.filter_eq_self.mpr fun entry he => ?_
    rw [h.claimable he, hlocks]
    rfl
  rw [hall, ← Option.isSome_iff_exists, List.isSome_head?]
  intro hnil
  rw [← List.length_eq_zero_iff, List.length_insertionSort, List.length_eq_zero_iff] at hnil
  exact hne hnil

/-- A claim that is current finishes the row of its task. -/
theorem Leases.mem_finish (h : Leases leaseTimeout db) {claim : Claim}
    (hcurrent : db.current claim = true) (ids : List UUID) (now : Datetime) (j : UUID) :
    j ∈ taskIds (PostgresExecutionQueue.finish db.queue claim ids now) ↔
      (j ∈ taskIds db.queue ∧ j ≠ claim.taskExecutionId) ∨ j ∈ ids := by
  obtain ⟨held, hheld, hholds⟩ := current_iff.mp hcurrent
  -- The claim holds no other row.
  have hiff : ∀ entry ∈ db.queue, claim.holds entry = true ↔
      entry.taskExecutionId = claim.taskExecutionId := by
    refine fun entry he => ⟨fun hc => (Claim.holds_iff.mp hc).1, fun hid => ?_⟩
    have hsame : entry = held :=
      List.inj_on_of_nodup_map h.unique he hheld (hid.trans (Claim.holds_iff.mp hholds).1.symm)
    exact hsame ▸ hholds
  rw [PostgresExecutionQueue.mem_taskIds]
  constructor
  · rintro ⟨entry, he, rfl⟩
    rcases PostgresExecutionQueue.mem_finish he with ⟨hold, hnot⟩ | ⟨-, hnew, -⟩
    · refine Or.inl ⟨PostgresExecutionQueue.mem_taskIds.mpr ⟨entry, hold, rfl⟩, fun hid => ?_⟩
      rw [(hiff entry hold).mpr hid] at hnot
      simp at hnot
    · exact Or.inr hnew
  · rintro (⟨hold, hne⟩ | hnew)
    · obtain ⟨entry, he, rfl⟩ := PostgresExecutionQueue.mem_taskIds.mp hold
      refine ⟨entry, PostgresExecutionQueue.mem_finish_of_not_holds he ?_, rfl⟩
      rw [← Bool.not_eq_true, hiff entry he]
      exact hne
    · unfold PostgresExecutionQueue.finish
      rw [PostgresExecutionQueue.countP_holds h.unique,
        if_pos (show db.queue.any claim.holds = true from hcurrent), if_pos rfl]
      exact PostgresExecutionQueue.exists_insertQueueEntries hnew

/-- Tokens do not run out. -/
theorem exists_fresh (db : QueueDb) : ∃ claimToken, db.fresh claimToken = true := by
  obtain ⟨token, htoken⟩ :=
    Infinite.exists_notMem_finset (db.granted.map (·.claimToken)).toFinset
  refine ⟨token, ?_⟩
  simpa [fresh] using htoken

end QueueDb

namespace Platform

open PostgresExecutionQueue (taskIds)

variable {leaseTimeout : Timedelta} {p p' : Platform}

/-- The first worker has locked a row, and nobody else is on anything. -/
structure Locked (p : Platform) (x : Claiming) : Prop where
  worker : p.workers 0 = .claiming
  others : ∀ w, w ≠ 0 → p.workers w = .idle
  found : p.queue.claiming 0 = some x
  claiming : ∀ w, w ≠ 0 → p.queue.claiming w = none
  locks : ∀ i w, p.queue.locks i = some w → w = 0
  row : x.queueEntry ∈ p.queue.queue

/-- The first worker is at work on a claim, and nobody else on anything. -/
structure Sole (p : Platform) (claim : Claim) (processing : Processing) : Prop where
  worker : p.workers 0 = .processing claim false processing
  others : ∀ w, w ≠ 0 → p.workers w = .idle
  claiming : ∀ w, p.queue.claiming w = none
  locks : ∀ i, p.queue.locks i = none
  current : p.queue.current claim = true

theorem Quiet.lock (h : p.Quiet) (hqueue : p.queue.Reachable leaseTimeout)
    (hne : p.queue.queue ≠ []) :
    ∃ p' x, p.Goes leaseTimeout p' ∧ p'.Locked x ∧ p'.db = p.db ∧
      p'.queue.queue = p.queue.queue := by
  obtain ⟨entry, hselect⟩ := hqueue.leases.exists_select h.locks hne
  have hclock : p.queue.clock ≤ p.queue.expiry leaseTimeout := le_max_left _ _
  obtain ⟨x, hx⟩ : ∃ x : Claiming, x =
      { workerId := 0, now := p.queue.expiry leaseTimeout, queueEntry := entry } := ⟨_, rfl⟩
  obtain ⟨queue, hqueue', hs⟩ : ∃ queue, queue = { p.queue with
        claiming := Function.update p.queue.claiming 0 (some x)
        locks := Function.update p.queue.locks entry.taskExecutionId (some 0)
        clock := p.queue.expiry leaseTimeout } ∧
      p.queue.step leaseTimeout (.lock 0 0 [] (p.queue.expiry leaseTimeout)) = some queue := by
    refine ⟨_, rfl, ?_⟩
    simp only [QueueDb.step, hclock, h.claiming 0, hselect, Option.isNone_none, and_self, if_true,
      hx]
  have hfound : queue.claiming 0 = some x := by simp [hqueue']
  have hstep : p.step leaseTimeout (.lock 0 0 [] (p.queue.expiry leaseTimeout)) =
      some { p.setWorker 0 .claiming with queue := queue } := by
    simp only [step, h.workers 0, hs, Option.bind_eq_bind, Option.bind_some, hfound,
      Option.isSome_some, if_true]
  refine ⟨_, x, .run _ rfl (by simp) hstep hstep, ⟨?_, fun w hw => ?_, hfound, fun w hw => ?_,
    fun i w hi => ?_, ?_⟩, rfl, by rw [hqueue']⟩
  · exact setWorker_self (p := p) 0 _
  · exact (setWorker_ne _ hw).trans (h.workers w)
  · show queue.claiming w = none
    rw [hqueue']
    exact (Function.update_of_ne hw ..).trans (h.claiming w)
  · replace hi : queue.locks i = some w := hi
    rw [hqueue'] at hi
    dsimp only at hi
    by_cases hentry : i = entry.taskExecutionId
    · rw [hentry, Function.update_self, Option.some.injEq] at hi
      exact hi.symm
    · rw [Function.update_of_ne hentry, h.locks i] at hi
      simp at hi
  · show x.queueEntry ∈ queue.queue
    rw [hqueue', hx]
    exact (PostgresExecutionQueue.select_cases hselect).1

variable (leaseTimeout) in
theorem Locked.grant {x : Claiming} (h : p.Locked x) :
    ∃ p' claim, p.Goes leaseTimeout p' ∧ p'.Sole claim .claimed ∧ p'.db = p.db ∧
      taskIds p'.queue.queue = taskIds p.queue.queue := by
  obtain ⟨token, hfresh⟩ := p.queue.exists_fresh
  have hs : ∃ queue, p.queue.step leaseTimeout (.grant 0 token) = some queue := by
    simp [QueueDb.step, h.found, hfresh]
  obtain ⟨queue, hs⟩ := hs
  have hstep : p.step leaseTimeout (.grant 0 token) = some
      { p.setWorker 0 (.processing ⟨x.queueEntry.taskExecutionId, token⟩ false .claimed) with
        queue := queue } := by
    simp only [step, h.worker, h.found, hs, Option.bind_eq_bind, Option.bind_some]
  obtain ⟨y, hy, -, rfl⟩ := QueueDb.step_grant hs
  obtain rfl := Option.some.inj (h.found.symm.trans hy)
  refine ⟨_, ⟨x.queueEntry.taskExecutionId, token⟩, .run _ rfl (by simp) hstep hstep,
    ⟨?_, fun w hw => ?_, fun w => ?_, fun i => ?_, ?_⟩, rfl, ?_⟩
  · exact setWorker_self (p := p) 0 _
  · exact (setWorker_ne _ hw).trans (h.others w hw)
  · show Function.update p.queue.claiming 0 none w = none
    by_cases hw : w = 0
    · rw [hw, Function.update_self]
    · rw [Function.update_of_ne hw, h.claiming w hw]
  · show p.queue.unlock 0 i = none
    unfold QueueDb.unlock
    cases hi : p.queue.locks i with
    | none => rfl
    | some w => rw [h.locks i w hi, if_pos rfl]
  · refine QueueDb.current_iff.mpr ⟨_, List.mem_map_of_mem h.row, ?_⟩
    rw [if_pos rfl]
    exact Claim.holds_iff.mpr ⟨rfl, rfl⟩
  · exact PostgresExecutionQueue.map_ids (fun e => by split <;> rfl) p.queue.queue

variable {claim : Claim} {before between next : Processing}

/-- Turns of a transaction of the first worker. -/
theorem Continues.of_turns {db : ExecutionDb}
    (h : Relation.ReflTransGen (Sql.Db.Turn Call.body 0) p.db db) :
    p.Continues leaseTimeout { p with db := db } := by
  induction h with
  | refl => exact .refl
  | @tail db₁ db₂ _ hturn ih =>
      refine ih.tail ?_
      cases hturn with
      | statement hs =>
          have hstep : ({ p with db := db₁ } : Platform).step leaseTimeout (.statement 0) =
              some { p with db := db₂ } := by
            simp only [step, hs, Option.bind_eq_bind, Option.bind_some]
          exact .run (.statement 0) rfl (by simp) hstep hstep
      | row k hs =>
          have hstep : ({ p with db := db₁ } : Platform).step leaseTimeout (.row 0 k) =
              some { p with db := db₂ } := by
            simp only [step, hs, Option.bind_eq_bind, Option.bind_some]
          exact .run (.row 0 k) rfl (by simp) hstep hstep

/-- A transaction of the first worker, from its beginning to its end. -/
theorem Sole.transact (h : p.Sole claim before) (hdb : p.db.Quiet) {call : Call}
    {s : ExecutionStore} {result : CallResult} {commits : Bool}
    (hexec : call.body.exec p.db.store = (s, .ok result))
    (hproceed : TaskProcessingService.proceed between result = some (commits, next))
    (hbegin : ∀ db, p.db.step Call.body (.begin 0 call) = some db → p.Goes leaseTimeout
      { p.setWorker 0 (.processing claim false between) with db := db }) :
    ∃ p', p.Continues leaseTimeout p' ∧ p'.Sole claim next ∧ p'.db.Quiet ∧
      p'.db.store = (if commits then s else p.db.store) ∧ p'.queue = p.queue := by
  obtain ⟨db₀, x, db₁, hbegun, hgets, hresult, hstore, hoverlay, hothers⟩ := hdb.call 0 hexec
  -- The end of the transaction.
  obtain ⟨db₂, hend, hquiet, hended⟩ : ∃ db₂,
      db₁.step Call.body (if commits then .commit 0 else .abort 0) = some db₂ ∧ db₂.Quiet ∧
        db₂.store = if commits then s else p.db.store := by
    cases commits with
    | true =>
        obtain ⟨db₂, hs, hquiet, hcommitted⟩ := hgets.solo.commit Call.body hothers hresult
        exact ⟨db₂, hs, hquiet, hcommitted.trans hoverlay⟩
    | false =>
        obtain ⟨db₂, hs, hquiet, hsame⟩ := hgets.solo.abort Call.body hothers
        exact ⟨db₂, hs, hquiet, hsame.trans hstore⟩
  have hturns : Continues leaseTimeout
      { p.setWorker 0 (.processing claim false between) with db := db₀ }
      { p.setWorker 0 (.processing claim false between) with db := db₁ } :=
    Continues.of_turns hgets.run
  have hstep : ({ p.setWorker 0 (.processing claim false between) with db := db₁ } :
      Platform).step leaseTimeout (.endTransaction 0) =
      some { p.setWorker 0 (.processing claim false next) with db := db₂ } := by
    simp only [step, setWorker_self, hgets.solo.txn, hresult, hproceed, hend, Option.bind_eq_bind,
      Option.bind_some]
    simp [setWorker]
  refine ⟨_, ((Relation.ReflTransGen.single (hbegin db₀ hbegun)).trans hturns).tail
    (.run (.endTransaction 0) rfl (by simp) hstep hstep), ⟨?_, fun w hw => ?_, h.claiming, h.locks,
    h.current⟩, hquiet, hended, rfl⟩
  · exact setWorker_self (p := p) 0 _
  · exact (setWorker_ne _ hw).trans (h.others w hw)

/-- What the driver takes of a finished claim. -/
theorem finishThroughDriver_isSome {ids : List UUID} (h : accepted ids = true)
    (queue : ExecutionQueue) (claim : Claim) (now : Datetime) :
    (PostgresExecutionQueue.finishThroughDriver queue claim ids now).isSome = true := by
  unfold PostgresExecutionQueue.finishThroughDriver
  split
  · rw [insertThroughDriver_eq, if_pos h]
    rfl
  · rfl

/-- The end of a round. -/
theorem Sole.dispose {result : ProcessTaskResult} (h : p.Sole claim (.processed result))
    (hdb : p.db.Quiet) (hqueue : p.queue.Reachable leaseTimeout)
    (haccepted : accepted result.enqueueTaskIds = true) :
    ∃ p', p.Goes leaseTimeout p' ∧ p'.Quiet ∧ p'.db = p.db ∧
      Left (taskIds p.queue.queue) claim.taskExecutionId result (taskIds p'.queue.queue) := by
  have hfree : p.queue.free claim = true := by simp [QueueDb.free, h.locks]
  obtain ⟨queue, hs, hclaiming, hlocks, hleft⟩ : ∃ queue,
      p.queue.step leaseTimeout (if result.shouldRetry then .release claim
        else .finish claim result.enqueueTaskIds p.queue.clock) = some queue ∧
      queue.claiming = p.queue.claiming ∧ queue.locks = p.queue.locks ∧
      Left (taskIds p.queue.queue) claim.taskExecutionId result (taskIds queue.queue) := by
    cases hretry : result.shouldRetry with
    | true =>
        refine ⟨{ p.queue with queue := PostgresExecutionQueue.release p.queue.queue claim },
          by simp [QueueDb.step, hfree], rfl, rfl, fun j => ?_⟩
        rw [hretry, if_pos rfl]
        show j ∈ taskIds (PostgresExecutionQueue.release p.queue.queue claim) ↔ _
        rw [show taskIds (PostgresExecutionQueue.release p.queue.queue claim) = _ from
          PostgresExecutionQueue.map_ids (fun e => by split <;> rfl) p.queue.queue]
        rfl
    | false =>
        refine ⟨{ p.queue with
            queue := PostgresExecutionQueue.finish p.queue.queue claim result.enqueueTaskIds
              p.queue.clock },
          by simp [QueueDb.step, hfree], rfl, rfl, fun j => ?_⟩
        rw [hretry, if_neg (by simp)]
        exact hqueue.leases.mem_finish h.current result.enqueueTaskIds p.queue.clock j
  have hstep : p.step leaseTimeout (.dispose 0 p.queue.clock) =
      some { p.setWorker 0 .idle with queue := queue } := by
    simp only [step, h.worker, hs, Option.bind_eq_bind, Option.bind_some]
  have hdriver : p.driverStep leaseTimeout (.dispose 0 p.queue.clock) =
      some { p.setWorker 0 .idle with queue := queue } := by
    obtain ⟨rows, hrows⟩ := Option.isSome_iff_exists.mp
      (finishThroughDriver_isSome haccepted p.queue.queue claim p.queue.clock)
    simp only [driverStep, h.worker, hrows, hstep, ite_self]
  refine ⟨_, .run _ rfl (by simp) hstep hdriver, ⟨hdb, fun w => ?_, fun w => ?_, fun i => ?_⟩, rfl,
    hleft⟩
  · by_cases hw : w = 0
    · rw [hw]
      exact setWorker_self (p := p) 0 _
    · exact (setWorker_ne _ hw).trans (h.others w hw)
  · show queue.claiming w = none
    rw [hclaiming, h.claiming w]
  · show queue.locks i = none
    rw [hlocks, h.locks i]

end Platform

/-! ### What is left to do -/

/-- How many tasks are not over. -/
def unfinishedCount (s : ExecutionStore) : Nat :=
  (taskTable s).countP fun e => !e.2.status.isTerminal

theorem length_le_unfinishedCount {s : ExecutionStore} {ids : List UUID} (hids : ids.Nodup)
    (h : ∀ j ∈ ids, ∃ t, taskRow s j = some t ∧ t.status.isTerminal = false) :
    ids.length ≤ unfinishedCount s := by
  have hsub : ids ⊆ ((taskTable s).filter fun e => !e.2.status.isTerminal).map (·.1) := by
    intro j hj
    obtain ⟨t, ht, hopen⟩ := h j hj
    exact List.mem_map.mpr
      ⟨(j, t), List.mem_filter.mpr ⟨mem_taskTable.mpr ht, by simp [hopen]⟩, rfl⟩
  have hle := (hids.subperm hsub).length_le
  rwa [List.length_map, ← List.countP_eq_length_filter] at hle

/-- A task that is over does not come back. -/
theorem Evolved.unfinishedCount_le {e e' : ExecutionStore} (h : Evolved e e') :
    unfinishedCount e' ≤ unfinishedCount e := by
  have hlength : unfinishedCount e' =
      (((taskTable e').filter fun x => !x.2.status.isTerminal).map (·.1)).length := by
    rw [List.length_map, ← List.countP_eq_length_filter]
    rfl
  rw [hlength]
  refine length_le_unfinishedCount ?_ fun j hj => ?_
  · exact (taskTable_nodup e').sublist (List.filter_sublist.map _)
  · obtain ⟨⟨i, t'⟩, hmem, rfl⟩ := List.mem_map.mp hj
    obtain ⟨hmem, hopen⟩ := List.mem_filter.mp hmem
    obtain ⟨t, ht, hev⟩ := h.task (mem_taskTable.mp hmem)
    refine ⟨t, ht, ?_⟩
    by_contra hover
    rw [hev.terminal (by simpa using hover)] at hopen
    simp [hover] at hopen

theorem Evolved.trans {e e' e'' : ExecutionStore} (h : Evolved e e') (h' : Evolved e' e'') :
    Evolved e e'' :=
  ⟨h.le.trans h'.le, fun k hk => h.rows k (h'.rows k hk)⟩

namespace Platform

open PostgresExecutionQueue (taskIds)

variable {leaseTimeout : Timedelta} {p p' : Platform} {definitions : DefinitionStore}

theorem Continues.evolved (h : p.Continues leaseTimeout p')
    (hreach : System.Reachable leaseTimeout { definitions, platform := p }) :
    Evolved p.db.store p'.db.store := by
  induction h with
  | refl => exact .refl _
  | tail hsteps hstep ih =>
      have hmid := (Continues.reachable hsteps hreach).sound.platform
      refine ih.trans ?_
      cases hstep with
      | run action hother _ hs _ => exact hmid.evolved hother hs
      | report w completedAt _ _ hs => exact hmid.evolved rfl hs

/-- What is left to do: the tries of the tasks that are not over, and the rows of the queue. -/
def left (ids : List UUID) (p : Platform) : Nat :=
  remaining p.db.store (taskIds p.queue.queue) ids

/-- A row has been worked off. -/
structure Lowered (ids : List UUID) (p p' : Platform) : Prop where
  quiet : p'.Quiet
  left : p'.left ids < p.left ids
  busy : ∀ workflowId, Busy p.db.store workflowId → Busy p'.db.store workflowId

variable {claim : Claim} {ids : List UUID} {t : TaskExecutionModel}

theorem Sole.begin_start (h : p.Sole claim .claimed) (startedAt : Datetime) {db : ExecutionDb}
    (hdb : p.db.step Call.body (.begin 0 (.startTask claim.taskExecutionId startedAt)) = some db) :
    p.Goes leaseTimeout { p.setWorker 0 (.processing claim false .starting) with db := db } := by
  have hstep : p.step leaseTimeout (.startTask 0 startedAt) =
      some { p.setWorker 0 (.processing claim false .starting) with db := db } := by
    simp only [step, h.worker, hdb, Option.bind_eq_bind, Option.bind_some]
  exact .run _ rfl (by simp) hstep hstep

variable (leaseTimeout) in
theorem Sole.begin_report {task : StartTaskExecutionResult} (h : p.Sole claim (.executing task))
    {result : TaskResult} (hexecute : TaskProcessingService.executeTask .discovered task = .ok result)
    (completedAt : Datetime) {db : ExecutionDb}
    (hdb : p.db.step Call.body (.begin 0 (TaskProcessingService.reportCall claim.taskExecutionId
      result completedAt)) = some db) :
    p.Goes leaseTimeout { p.setWorker 0 (.processing claim false
      (if result.succeeded then .completing else .retrying)) with db := db } := by
  refine .report 0 completedAt h.worker hexecute ?_
  simp only [step, h.worker, hdb, Option.bind_eq_bind, Option.bind_some]

/-- A claimed task that is over is dropped. -/
theorem Sole.drop (h : p.Sole claim .claimed) (hquiet : p.db.Quiet)
    (hreach : System.Reachable leaseTimeout { definitions, platform := p })
    (ht : taskRow p.db.store claim.taskExecutionId = some t) (hover : t.status.isTerminal = true)
    (hmem : claim.taskExecutionId ∈ taskIds p.queue.queue) (hi : claim.taskExecutionId ∈ ids) :
    ∃ p', p.Continues leaseTimeout p' ∧ p.Lowered ids p' := by
  have hcoherent := reachable_coherent hreach.sound.platform.sound.db
  have halone : Alone p.db.store (.startTask claim.taskExecutionId 0) (.ok (.started none))
      p.db.store := by
    refine .startRefused fun u hu => ?_
    obtain rfl := Option.some.inj (ht.symm.trans hu)
    exact hover
  obtain ⟨p₁, hstarted, hsole₁, hquiet₁, hstore₁, hqueue₁⟩ :=
    h.transact hquiet (halone.exec hcoherent) rfl fun db => h.begin_start 0
  obtain ⟨p₂, hdispose, hquiet₂, hdb₂, hleft⟩ := hsole₁.dispose hquiet₁
    (hstarted.reachable hreach).sound.platform.sound.queue rfl
  rw [hqueue₁] at hleft
  refine ⟨p₂, hstarted.tail hdispose, hquiet₂, ?_, fun _ hbusy => ?_⟩
  · unfold left
    rw [hdb₂, hstore₁]
    exact drop_lowers hi hmem ht hover hleft
  · rw [hdb₂, hstore₁]
    exact hbusy

/-- Any other one is attempted. -/
theorem Sole.attempt (h : p.Sole claim .claimed) (hquiet : p.db.Quiet)
    (hreach : System.Reachable leaseTimeout { definitions, platform := p })
    (hready : Ready p.db.store claim.taskExecutionId)
    (ht : taskRow p.db.store claim.taskExecutionId = some t) (hopen : t.status.isTerminal = false)
    (hi : claim.taskExecutionId ∈ ids) (hlimit : unfinishedCount p.db.store ≤ 10922) :
    ∃ p', p.Continues leaseTimeout p' ∧ p.Lowered ids p' := by
  obtain ⟨s₁, task, t₁, hexec, ht₁, hrunning, hle, hbusy₁⟩ := start_lowers
    (reachable_coherent hreach.sound.platform.sound.db) hready ht hopen 0
  obtain ⟨p₁, hstarted, hsole₁, hquiet₁, rfl, hqueue₁⟩ :=
    h.transact hquiet hexec rfl fun db => h.begin_start 0
  -- The plugin is executed, and what it returns is reported.
  have hreach₁ := hstarted.reachable hreach
  have hcoherent₁ := reachable_coherent hreach₁.sound.platform.sound.db
  obtain ⟨result, hexecute⟩ := hreach₁.executeTask_ok hsole₁.worker
  obtain ⟨s₂, r, hreported, hproceed, hlowers⟩ :=
    report_lowers hcoherent₁ ht₁ hrunning hi result 0
  obtain ⟨p₂, hended, hsole₂, hquiet₂, hstore₂, hqueue₂⟩ :=
    hsole₁.transact hquiet₁ hreported hproceed fun db =>
      hsole₁.begin_report leaseTimeout hexecute 0
  have hcontinues := hstarted.trans hended
  have hlength : (TaskProcessingService.processResult r).enqueueTaskIds.length ≤ 10922 := by
    refine le_trans (length_le_unfinishedCount hlowers.distinct fun j hj => ?_)
      ((hstarted.evolved hreach).unfinishedCount_le.trans hlimit)
    obtain ⟨u, hu, hp⟩ := hlowers.enqueued j hj
    exact ⟨u, hu, by rw [hp]; rfl⟩
  obtain ⟨p₃, hdispose, hquiet₃, hdb₃, hleft⟩ := hsole₂.dispose hquiet₂
    (Continues.reachable hcontinues hreach).sound.platform.sound.queue (accepted_iff.mpr hlength)
  refine ⟨p₃, hcontinues.tail hdispose, hquiet₃, ?_, fun workflowId hbusy => ?_⟩
  · rw [hqueue₂, hqueue₁] at hleft
    calc p₃.left ids < remaining p₁.db.store (taskIds p.queue.queue) ids := by
          unfold left
          rw [hdb₃, hstore₂]
          exact hlowers.remaining _ _ hleft
      _ ≤ p.left ids := hle _ _
  · rw [hdb₃, hstore₂]
    exact hlowers.busy workflowId (hbusy₁ workflowId hbusy)

/-- **A round of one worker works off a row.** -/
theorem Quiet.round (h : p.Quiet)
    (hreach : System.Reachable leaseTimeout { definitions, platform := p })
    (hids : ∀ i, (taskRow p.db.store i).isSome = true → i ∈ ids)
    (hlimit : unfinishedCount p.db.store ≤ 10922) (hne : p.queue.queue ≠ []) :
    ∃ p', p.Continues leaseTimeout p' ∧ p.Lowered ids p' := by
  obtain ⟨p₁, x, hlock, hlocked, hdb₁, hrows₁⟩ := h.lock hreach.sound.platform.sound.queue hne
  obtain ⟨p₂, claim, hgrant, hsole, hdb₂, hrows₂⟩ := hlocked.grant leaseTimeout
  have hclaimed : p.Continues leaseTimeout p₂ := .head hlock (.single hgrant)
  have hdb : p₂.db = p.db := hdb₂.trans hdb₁
  have hleft : p₂.left ids = p.left ids := by
    unfold left
    rw [hdb, hrows₂, hrows₁]
  have hreach₂ := hclaimed.reachable hreach
  have hquiet : p₂.db.Quiet := hdb ▸ h.db
  -- The row of the claim, and its task.
  obtain ⟨entry, hentry, hholds⟩ := QueueDb.current_iff.mp hsole.current
  have hid := (Claim.holds_iff.mp hholds).1
  have hready : Ready p₂.db.store claim.taskExecutionId :=
    hid ▸ hreach₂.sound.platform.sound.queued entry hentry
  obtain ⟨t, ht, -⟩ := id hready
  have hi : claim.taskExecutionId ∈ ids := hids _ (by rw [← hdb, ht]; rfl)
  have hprocess : ∃ p', p₂.Continues leaseTimeout p' ∧ p₂.Lowered ids p' := by
    cases hstatus : t.status.isTerminal with
    | true =>
        exact hsole.drop hquiet hreach₂ ht hstatus
          (PostgresExecutionQueue.mem_taskIds.mpr ⟨entry, hentry, hid⟩) hi
    | false => exact hsole.attempt hquiet hreach₂ hready ht hstatus hi (hdb ▸ hlimit)
  obtain ⟨p', hcontinues, hlowered⟩ := hprocess
  exact ⟨p', hclaimed.trans hcontinues, hlowered.quiet, hleft ▸ hlowered.left,
    hdb ▸ hlowered.busy⟩

end Platform

/-- A task is left to do. -/
def Unfinished (s : ExecutionStore) (workflowId : UUID) : Prop :=
  ∃ i t, taskRow s i = some t ∧ t.workflowExecutionId = workflowId ∧ t.status.isTerminal = false

theorem Unfinished.busy {s : ExecutionStore} {workflowId : UUID} (h : Unfinished s workflowId) :
    Busy s workflowId := by
  obtain ⟨i, t, hi, ht, hopen⟩ := h
  refine fun _ _ _ => ⟨i, t, hi, ht, fun hc => ?_⟩
  rw [hc] at hopen
  simp [TaskStatus.isTerminal] at hopen

/-- A workflow whose tasks are over is over, too, if it lost no completion. -/
theorem Busy.ended {s : ExecutionStore} {workflowId : UUID} {w : WorkflowExecutionModel}
    (h : Busy s workflowId) (hs : Coherent s) (hw : workflowRow s workflowId = some w)
    (hover : ∀ i t, taskRow s i = some t → t.status.isTerminal = true) : w.status ≠ .running := by
  intro hrunning
  obtain ⟨i, t, hi, ht, hopen⟩ := h w hw hrunning
  have hadmits := hs.admits i t w hi (ht ▸ hw)
  have hterminal := hover i t hi
  rw [hrunning] at hadmits
  rcases hadmits with hp | hr | hc
  · rw [hp] at hterminal
    simp [TaskStatus.isTerminal] at hterminal
  · rw [hr] at hterminal
    simp [TaskStatus.isTerminal] at hterminal
  · exact hopen hc

end AutomationPlatform
