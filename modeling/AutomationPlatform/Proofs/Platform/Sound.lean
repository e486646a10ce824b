/-
What holds while workers, publishers and the reconciler run.

Three things are said of a task execution and never unsaid: it is `Ready` when all
its parents are completed, `Taken` when it is not pending any more, and `Over` when
it is terminal.  Since they stay true once they are, it does not matter how long ago
a component learned them, or which claim it held then.

`Platform.Sound` says who knows what: the queue and the publishers hold ready tasks
only, a worker's stage says what its transactions have shown, and a running task is
in the queue.  The last one is kept because a row leaves the queue only by a
`finish`, and who finishes knows that the task is over.
-/
import AutomationPlatform.Proofs.Executions.Release
import AutomationPlatform.Proofs.Queue.Lease
import AutomationPlatform.Runtime.Platform

namespace AutomationPlatform

open WorkflowStartService

/-! ### What stays true of a task -/

section Facts

variable {s s' base : ExecutionStore} {i : UUID}

/-- The task is committed and all its parents are completed. -/
def Ready (s : ExecutionStore) (i : UUID) : Prop :=
  ∃ t, taskRow s i = some t ∧ ParentsCompleted s t

/-- The task is committed and has been started. -/
def Taken (s : ExecutionStore) (i : UUID) : Prop :=
  ∃ t, taskRow s i = some t ∧ t.status ≠ .pending

theorem completed_mono (h : s.Le executionEvolution s') (hi : completed s i = true) :
    completed s' i = true := by
  obtain ⟨t, ht, hc⟩ := completed_iff.mp hi
  obtain ⟨t', ht', hev⟩ := taskRow_le h ht
  rw [hev.terminal (by rw [hc]; rfl)] at ht'
  exact completed_iff.mpr ⟨t, ht', hc⟩

theorem Ready.mono (h : s.Le executionEvolution s') (hi : Ready s i) : Ready s' i := by
  obtain ⟨t, ht, hparents⟩ := hi
  obtain ⟨t', ht', hev⟩ := taskRow_le h ht
  refine ⟨t', ht', fun p hp => ?_⟩
  rw [hev.same.parentTaskIds] at hp
  exact completed_mono h (hparents p hp)

theorem Taken.mono (h : s.Le executionEvolution s') (hi : Taken s i) : Taken s' i := by
  obtain ⟨t, ht, hp⟩ := hi
  obtain ⟨t', ht', hev⟩ := taskRow_le h ht
  exact ⟨t', ht', hev.not_pending hp⟩

theorem Over.mono (h : s.Le executionEvolution s') (hi : Over s i) : Over s' i := by
  obtain ⟨t, ht, hover⟩ := hi
  obtain ⟨t', ht', hev⟩ := taskRow_le h ht
  exact ⟨t', ht', hev.status_terminal hover⟩

theorem Ready.isSome (hi : Ready s i) : (taskRow s i).isSome = true := by
  obtain ⟨t, ht, -⟩ := hi
  rw [ht]
  rfl

/-! ### What a transaction shows -/

/-- A task that is running was running before, or the call has just started it. -/
theorem Effect.running {call : Call} {result : CallResult} (heffect : Effect base s call result s')
    {t' : TaskExecutionModel} (hi : taskRow s' i = some t') (hr : t'.status = .running) :
    (∃ t, taskRow s i = some t ∧ t.status = .running) ∨
      ∃ startedAt, call = .startTask i startedAt := by
  obtain ⟨t, ht, hstep⟩ := heffect.taskRow_before hi
  cases hstep with
  | same => exact Or.inl ⟨t', ht, hr⟩
  | start => exact Or.inr ⟨_, rfl⟩
  | complete => simp [TaskExecutionModel.complete] at hr
  | release => exact Or.inl ⟨t, ht, hr⟩
  | again _ hrunning => exact Or.inl ⟨t, ht, hrunning⟩
  | fail => simp [TaskExecutionModel.fail] at hr
  | cancel => simp [TaskExecutionModel.cancel] at hr

/-- Whoever is given a task to execute has taken it. -/
theorem Effect.taken {startedAt : Datetime} {r : StartTaskExecutionResult}
    (heffect : Effect base s (.startTask i startedAt) (.started (some r)) s') : Taken s' i := by
  cases heffect with
  | startResumed _ hV hs hrow hrunning _ =>
      exact Taken.mono hs.1 (Taken.mono hV.1 ⟨_, hrow, by rw [hrunning]; simp⟩)
  | startTaken _ _ hrow _ _ =>
      refine ⟨_, by rw [taskRow_mapRows, hrow]; rfl, ?_⟩
      rw [startChange, if_pos rfl]
      simp [TaskExecutionModel.start]

/-- Whoever is given nothing to execute may know that the task is over. -/
theorem Effect.refused {startedAt : Datetime}
    (heffect : Effect base s (.startTask i startedAt) (.started none) s')
    (hi : (taskRow base i).isSome = true) : Over s i := by
  cases heffect with
  | startRefused hover => exact hover hi

/-- A task that was taken is over when its completion has been committed. -/
theorem Effect.completed_over {request : CompleteTaskExecutionRequest} {result : CallResult}
    (heffect : Effect base s (.completeTask request) result s')
    (hi : Taken base request.taskExecutionId) : Over s' request.taskExecutionId := by
  obtain ⟨t₀, ht₀, hp⟩ := hi
  cases heffect with
  | completeMissed hover => exact hover t₀ ht₀ hp
  | completeDone hrow _ _ =>
      refine ⟨_, by rw [taskRow_mapRows, hrow]; rfl, ?_⟩
      simp [completeChange, TaskExecutionModel.complete, TaskStatus.isTerminal]

/-- A task that was taken and is not to be tried again is over. -/
theorem Effect.retried_over {request : RetryTaskExecutionRequest} {r : RetryTaskExecutionResult}
    (heffect : Effect base s (.retryTask request) (.retried r) s')
    (hi : Taken base request.taskExecutionId) (hr : r.shouldRetry = false) :
    Over s' request.taskExecutionId := by
  obtain ⟨t₀, ht₀, hp⟩ := hi
  cases heffect with
  | retryMissed hover => exact hover t₀ ht₀ hp
  | retryAgain => simp at hr
  | retryFailed hrow _ _ =>
      refine ⟨_, by rw [taskRow_mapRows, hrow]; rfl, ?_⟩
      simp [failChange, TaskExecutionModel.fail, TaskStatus.isTerminal]

/-- What a completion hands out is ready. -/
theorem Effect.handedOut_ready (h : Coherent s) {call : Call} {r : CompleteTaskExecutionResult}
    (heffect : Effect base s call (.completed r) s') (hi : i ∈ r.runnableTaskExecutionIds) :
    Ready s' i := by
  obtain ⟨t, ht, -, -, -, hparents⟩ := (mem_handedOut h heffect).mp hi
  obtain ⟨t', ht', hmove⟩ := (heffect.storeMove h).task i t ht
  refine ⟨t', ht', fun p hp => ?_⟩
  rw [hmove.same.parentTaskIds] at hp
  exact hparents p hp

end Facts

/-! ### Steps of the database -/

section Database

variable {db db' : ExecutionDb}

/-- What a transaction that has run its body does when it is committed. -/
theorem effect_of_finished (h : ReachableDb db) {w : Nat} {x : Sql.Txn RowId Row Call CallResult}
    (hx : db.txns w = some x) {result : CallResult} (hphase : x.phase = .ready (.done result)) :
    Effect x.base db.store x.call result (db.store.overlay x.writes) := by
  obtain ⟨lb, p, writes, hlax, hat⟩ := ((reachable_sound h).txn w x hx).run
  rw [hphase] at hat
  obtain ⟨rfl, rfl⟩ := hat
  exact effect_of_lax (fun V ⟨_, hV⟩ => hV.coherent) (reachable_coherent h) hlax

/-- The store only moves forward. -/
theorem before_of_step (h : ReachableDb db) {a : Sql.Action RowId Row Call} (ha : Allowed db a)
    (hs : db.step Call.body a = some db') : executionTimeline.before db.store db'.store := by
  have hrefl := executionTimeline.before_refl db.store
  cases a with
  | begin w call => obtain ⟨-, rfl⟩ := Sql.step_begin hs; exact hrefl
  | statement w => obtain ⟨_, _, -, -, rfl⟩ := Sql.step_statement hs; exact hrefl
  | row w k => obtain ⟨_, _, -, -, -, rfl⟩ := Sql.step_row hs; exact hrefl
  | abort w => obtain ⟨_, -, rfl⟩ := Sql.step_abort hs; exact hrefl
  | commit w =>
      obtain ⟨x, result, hx, -, rfl⟩ := Sql.step_commit hs
      exact (reachable_sound h).le_commit hx
  | insert rows =>
      obtain ⟨s, hins, rfl⟩ := Sql.step_insert hs
      obtain ⟨_, hc⟩ := CompiledRows.created ha hins
      exact hc.before (reachable_coherent h).toLinked hins

/-- Nothing is taken from the log. -/
theorem log_of_step {a : Sql.Action RowId Row Call} (hs : db.step Call.body a = some db')
    {e : Sql.Event RowId Row Call CallResult} (he : e ∈ db.log) : e ∈ db'.log := by
  cases a with
  | begin w call => obtain ⟨-, rfl⟩ := Sql.step_begin hs; exact he
  | statement w => obtain ⟨_, _, -, -, rfl⟩ := Sql.step_statement hs; exact he
  | row w k => obtain ⟨_, _, -, -, -, rfl⟩ := Sql.step_row hs; exact he
  | abort w => obtain ⟨_, -, rfl⟩ := Sql.step_abort hs; exact he
  | commit w => obtain ⟨_, _, -, -, rfl⟩ := Sql.step_commit hs; exact List.mem_append_left _ he
  | insert rows => obtain ⟨_, -, rfl⟩ := Sql.step_insert hs; exact List.mem_append_left _ he

/-- What a step adds to the log of commits of `start_task`. -/
theorem started_of_step {a : Sql.Action RowId Row Call} (hs : db.step Call.body a = some db')
    {i : UUID} {startedAt : Datetime} {result : CallResult} {base before after : ExecutionStore}
    (he : .committed (.startTask i startedAt) result base before after ∈ db'.log) :
    .committed (.startTask i startedAt) result base before after ∈ db.log ∨
      ∃ w x, a = .commit w ∧ db.txns w = some x ∧ x.call = .startTask i startedAt ∧
        x.base = base := by
  cases a with
  | begin w call => obtain ⟨-, rfl⟩ := Sql.step_begin hs; exact Or.inl he
  | statement w => obtain ⟨_, _, -, -, rfl⟩ := Sql.step_statement hs; exact Or.inl he
  | row w k => obtain ⟨_, _, -, -, -, rfl⟩ := Sql.step_row hs; exact Or.inl he
  | abort w => obtain ⟨_, -, rfl⟩ := Sql.step_abort hs; exact Or.inl he
  | commit w =>
      obtain ⟨x, _, hx, -, rfl⟩ := Sql.step_commit hs
      rcases List.mem_append.mp he with hold | hnew
      · exact Or.inl hold
      · rw [List.mem_singleton, Sql.Event.committed.injEq] at hnew
        exact Or.inr ⟨w, x, rfl, hx, hnew.1.symm, hnew.2.2.1.symm⟩
  | insert rows =>
      obtain ⟨_, -, rfl⟩ := Sql.step_insert hs
      rcases List.mem_append.mp he with hold | hnew
      · exact Or.inl hold
      · simp at hnew

/-- A running task was running before the step, or the step commits its start. -/
theorem running_of_step (h : ReachableDb db) {a : Sql.Action RowId Row Call} (ha : Allowed db a)
    (hs : db.step Call.body a = some db') {i : UUID} {t' : TaskExecutionModel}
    (hi : taskRow db'.store i = some t') (hr : t'.status = .running) :
    (∃ t, taskRow db.store i = some t ∧ t.status = .running) ∨
      ∃ w x startedAt, a = .commit w ∧ db.txns w = some x ∧ x.call = .startTask i startedAt := by
  cases a with
  | begin w call => obtain ⟨-, rfl⟩ := Sql.step_begin hs; exact Or.inl ⟨t', hi, hr⟩
  | statement w => obtain ⟨_, _, -, -, rfl⟩ := Sql.step_statement hs; exact Or.inl ⟨t', hi, hr⟩
  | row w k => obtain ⟨_, _, -, -, -, rfl⟩ := Sql.step_row hs; exact Or.inl ⟨t', hi, hr⟩
  | abort w => obtain ⟨_, -, rfl⟩ := Sql.step_abort hs; exact Or.inl ⟨t', hi, hr⟩
  | commit w =>
      obtain ⟨x, result, hx, hphase, rfl⟩ := Sql.step_commit hs
      rcases (effect_of_finished h hx hphase).running hi hr with hold | ⟨startedAt, hcall⟩
      · exact Or.inl hold
      · exact Or.inr ⟨w, x, startedAt, rfl, hx, hcall⟩
  | insert rows =>
      obtain ⟨s, hins, rfl⟩ := Sql.step_insert hs
      obtain ⟨_, hc⟩ := CompiledRows.created ha hins
      rcases hc.cases (reachable_coherent h).toLinked hi with ⟨hold, -⟩ | ⟨-, hnew⟩
      · exact Or.inl ⟨t', hold, hr⟩
      · rw [hnew.status] at hr; simp at hr

end Database

/-! ### The invariant -/

namespace Platform

variable {leaseTimeout : Timedelta} {p p' : Platform}

/-- What worker `w`'s transaction on the executions began with, if it is in one. -/
def transaction (p : Platform) (w : Nat) : Option (Call × ExecutionStore) :=
  (p.db.txns w).map Sql.Txn.begun

/-- The task is in the queue, or need not be there any more. -/
def Watched (p : Platform) (i : UUID) : Prop := p.queue.Queued i ∨ Over p.db.store i

/-- A commit of `start_task` returned this. -/
def Given (p : Platform) (i : UUID) (task : StartTaskExecutionResult) : Prop :=
  ∃ startedAt base before after,
    .committed (.startTask i startedAt) (.started (some task)) base before after ∈ p.db.log

/-- What is known of the claimed task `i` at each stage. -/
def ProcessingOk (p : Platform) (i : UUID) (transaction : Option (Call × ExecutionStore)) :
    Processing → Prop
  | .claimed => transaction = none
  | .starting => ∃ startedAt base, transaction = some (.startTask i startedAt, base) ∧ Ready base i
  | .executing task => transaction = none ∧ Taken p.db.store i ∧ p.Given i task
  | .completing => ∃ request base, transaction = some (.completeTask request, base) ∧
      request.taskExecutionId = i ∧ Taken base i
  | .retrying => ∃ request base, transaction = some (.retryTask request, base) ∧
      request.taskExecutionId = i ∧ Taken base i
  | .processed result => transaction = none ∧ (result.shouldRetry = false → Over p.db.store i) ∧
      ∀ j ∈ result.enqueueTaskIds, Ready p.db.store j

/-- What is known of a worker's claim. -/
def WorkerOk (p : Platform) (transaction : Option (Call × ExecutionStore)) : Worker → Prop
  | .idle => transaction = none
  | .claiming => transaction = none
  | .processing claim _ processing => Ready p.db.store claim.taskExecutionId ∧
      p.Watched claim.taskExecutionId ∧ p.ProcessingOk claim.taskExecutionId transaction processing

/-- Who knows what, in every reachable state. -/
structure Sound (leaseTimeout : Timedelta) (p : Platform) : Prop where
  db : ReachableDb p.db
  queue : p.queue.Reachable leaseTimeout
  queued : ∀ entry ∈ p.queue.queue, Ready p.db.store entry.taskExecutionId
  publishing : ∀ k ids, p.publishing k = some ids → ∀ i ∈ ids, Ready p.db.store i
  running : ∀ i t, taskRow p.db.store i = some t → t.status = .running → p.queue.Queued i
  workers : ∀ w, p.WorkerOk (p.transaction w) (p.workers w)
  started : ∀ i startedAt result base before after,
    .committed (.startTask i startedAt) result base before after ∈ p.db.log → Ready base i

theorem sound_init (clock : Datetime) : (init clock).Sound leaseTimeout where
  db := .init
  queue := .init clock
  queued := fun _ he => absurd he List.not_mem_nil
  publishing := fun k ids hk => by simp [init] at hk
  running := fun i t hi => by simp [init, Sql.Db.init, taskRow] at hi
  workers := fun _ => rfl
  started := fun _ _ _ _ _ _ he => absurd he List.not_mem_nil

/-- What is known stays known: the store and the log only grow, and no task is forgotten. -/
structure Grows (p p' : Platform) : Prop where
  store : p.db.store.Le executionEvolution p'.db.store
  log : ∀ e ∈ p.db.log, e ∈ p'.db.log
  watched : ∀ i, p.queue.Queued i → p'.Watched i

theorem Grows.of_eq (hdb : p'.db = p.db) (hqueue : p'.queue = p.queue) : Grows p p' := by
  refine ⟨?_, fun e he => hdb ▸ he, fun i hi => Or.inl (hqueue ▸ hi)⟩
  rw [hdb]
  exact Sql.Store.Le.refl _ _

theorem Grows.watched_of (hg : Grows p p') {i : UUID} (h : p.Watched i) : p'.Watched i := by
  rcases h with hq | hover
  · exact hg.watched i hq
  · exact Or.inr (hover.mono hg.store)

theorem ProcessingOk.mono (hg : Grows p p') {i : UUID}
    {transaction : Option (Call × ExecutionStore)} {processing : Processing}
    (h : p.ProcessingOk i transaction processing) : p'.ProcessingOk i transaction processing := by
  cases processing with
  | claimed => exact h
  | starting => exact h
  | executing task =>
      obtain ⟨hnone, htaken, startedAt, base, before, after, he⟩ := h
      exact ⟨hnone, htaken.mono hg.store, startedAt, base, before, after, hg.log _ he⟩
  | completing => exact h
  | retrying => exact h
  | processed result =>
      obtain ⟨hnone, hover, hready⟩ := h
      exact ⟨hnone, fun hr => (hover hr).mono hg.store, fun j hj => (hready j hj).mono hg.store⟩

theorem WorkerOk.mono (hg : Grows p p') {transaction : Option (Call × ExecutionStore)}
    {worker : Worker} (h : p.WorkerOk transaction worker) : p'.WorkerOk transaction worker := by
  cases worker with
  | idle => exact h
  | claiming => exact h
  | processing claim untrusted processing =>
      obtain ⟨hready, hwatched, hok⟩ := h
      exact ⟨hready.mono hg.store, hg.watched_of hwatched, hok.mono hg⟩

/-- Only a worker that is starting its claimed task is in a transaction of `start_task`. -/
theorem Sound.starting (h : p.Sound leaseTimeout) {w : Nat}
    {x : Sql.Txn RowId Row Call CallResult} (hx : p.db.txns w = some x) {i : UUID}
    {startedAt : Datetime} (hcall : x.call = .startTask i startedAt) :
    Ready x.base i ∧ p.Watched i := by
  have hw := h.workers w
  have htxn : p.transaction w = some (.startTask i startedAt, x.base) := by
    rw [transaction, hx, ← hcall]
    rfl
  rw [htxn] at hw
  cases hworker : p.workers w with
  | idle => rw [hworker] at hw; simp [WorkerOk] at hw
  | claiming => rw [hworker] at hw; simp [WorkerOk] at hw
  | processing claim untrusted processing =>
      rw [hworker] at hw
      obtain ⟨-, hwatched, hok⟩ := hw
      cases processing with
      | starting =>
          obtain ⟨startedAt', base, hsome, hready⟩ := hok
          simp only [Option.some.injEq, Prod.mk.injEq, Call.startTask.injEq] at hsome
          obtain ⟨⟨hid, -⟩, hbase⟩ := hsome
          rw [hid, hbase]
          exact ⟨hready, hwatched⟩
      | claimed => simp [ProcessingOk] at hok
      | executing task => simp [ProcessingOk] at hok
      | completing => simp [ProcessingOk] at hok
      | retrying => simp [ProcessingOk] at hok
      | processed result => simp [ProcessingOk] at hok

/-! ### One step of one component -/

/-- A change of the publishers and of workers that touches neither store. -/
theorem Sound.of_workers (h : p.Sound leaseTimeout) {workers : Nat → Worker}
    {publishing : Nat → Option (List UUID)}
    (hworkers : ∀ w, p.WorkerOk (p.transaction w) (workers w))
    (hpublishing : ∀ k ids, publishing k = some ids → ∀ i ∈ ids, Ready p.db.store i) :
    Sound leaseTimeout { p with workers := workers, publishing := publishing } where
  db := h.db
  queue := h.queue
  queued := h.queued
  publishing := hpublishing
  running := h.running
  workers := fun w => WorkerOk.mono (.of_eq rfl rfl) (hworkers w)
  started := h.started

/--
A step of the queue.  What it enqueues has to be ready, and what it finishes has to
be over; workers may learn from the step.
-/
theorem Sound.of_queue (h : p.Sound leaseTimeout) {action : QueueAction} {queue : QueueDb}
    (hs : p.queue.step leaseTimeout action = some queue)
    (henqueued : ∀ i ∈ action.enqueued, Ready p.db.store i)
    (hfinish : ∀ claim ids now, action = .finish claim ids now →
      Over p.db.store claim.taskExecutionId)
    {workers : Nat → Worker} (hworkers : ∀ w, workers w = p.workers w ∨
      WorkerOk { p with queue := queue } (p.transaction w) (workers w)) :
    Sound leaseTimeout { p with queue := queue, workers := workers } := by
  have hgrows : Grows p { p with queue := queue, workers := workers } := by
    refine ⟨Sql.Store.Le.refl _ _, fun _ he => he, fun i hi => ?_⟩
    rcases QueueDb.queued_after hs hi with hq | ⟨claim, ids, now, ha, rfl⟩
    · exact Or.inl hq
    · exact Or.inr (hfinish claim ids now ha)
  refine ⟨h.db, .step h.queue action hs, ?_, h.publishing, ?_, ?_, h.started⟩
  · intro entry he
    rcases QueueDb.queued_before hs he with ⟨e, hold, hid⟩ | hnew
    · exact hid ▸ h.queued e hold
    · exact henqueued _ hnew
  · intro i t hi hr
    rcases hgrows.watched i (h.running i t hi hr) with hq | ⟨t', ht', hover⟩
    · exact hq
    · obtain rfl : t = t' := Option.some.inj (hi.symm.trans ht')
      rw [hr] at hover
      simp [TaskStatus.isTerminal] at hover
  · intro w
    show WorkerOk _ (p.transaction w) (workers w)
    rcases hworkers w with hold | hnew
    · rw [hold]
      exact WorkerOk.mono hgrows (h.workers w)
    · exact WorkerOk.mono (.of_eq rfl rfl) hnew

@[simp] theorem setWorker_self (w : Nat) (worker : Worker) :
    (p.setWorker w worker).workers w = worker :=
  Function.update_self ..

theorem setWorker_ne {w u : Nat} (worker : Worker) (hu : u ≠ w) :
    (p.setWorker w worker).workers u = p.workers u :=
  Function.update_of_ne hu ..

/-- A worker goes on without touching either store. -/
theorem Sound.setWorker (h : p.Sound leaseTimeout) {w : Nat} {worker : Worker}
    (hworker : p.WorkerOk (p.transaction w) worker) :
    (p.setWorker w worker).Sound leaseTimeout := by
  refine h.of_workers (fun u => ?_) h.publishing
  show p.WorkerOk _ ((p.setWorker w worker).workers u)
  by_cases hu : u = w
  · subst hu
    rw [setWorker_self]
    exact hworker
  · rw [setWorker_ne _ hu]
    exact h.workers u

/-- A worker goes on with a step of the queue. -/
theorem Sound.setWorker_of_queue (h : p.Sound leaseTimeout) {action : QueueAction}
    {queue : QueueDb} (hs : p.queue.step leaseTimeout action = some queue)
    (henqueued : ∀ i ∈ action.enqueued, Ready p.db.store i)
    (hfinish : ∀ claim ids now, action = .finish claim ids now →
      Over p.db.store claim.taskExecutionId)
    {w : Nat} {worker : Worker}
    (hworker : WorkerOk { p with queue := queue } (p.transaction w) worker) :
    Sound leaseTimeout { p.setWorker w worker with queue := queue } := by
  refine h.of_queue hs henqueued hfinish fun u => ?_
  by_cases hu : u = w
  · subst hu
    rw [setWorker_self]
    exact Or.inr hworker
  · exact Or.inl (setWorker_ne _ hu)

/-- A step of the database of executions; workers may learn from it. -/
theorem Sound.of_db (h : p.Sound leaseTimeout) {a : Sql.Action RowId Row Call}
    (ha : Allowed p.db a) {db : ExecutionDb} (hs : p.db.step Call.body a = some db)
    {workers : Nat → Worker} {publishing : Nat → Option (List UUID)}
    (hpublishing : ∀ k ids, publishing k = some ids → p.publishing k = some ids ∨
      ∀ i ∈ ids, Ready db.store i)
    (hworkers : ∀ w, (workers w = p.workers w ∧
        (db.txns w).map Sql.Txn.begun = p.transaction w) ∨
      WorkerOk { p with db := db } ((db.txns w).map Sql.Txn.begun) (workers w)) :
    Sound leaseTimeout { p with db := db, workers := workers, publishing := publishing } := by
  have hle := (before_of_step h.db ha hs).1
  have hgrows : Grows p { p with db := db, workers := workers, publishing := publishing } :=
    ⟨hle, fun _ he => log_of_step hs he, fun i hi => Or.inl hi⟩
  refine ⟨.step h.db a ha hs, h.queue, fun e he => (h.queued e he).mono hle, ?_, ?_, ?_, ?_⟩
  · intro k ids hk
    rcases hpublishing k ids hk with hold | hnew
    · exact fun i hi => (h.publishing k ids hold i hi).mono hle
    · exact hnew
  · intro i t' hi hr
    rcases running_of_step h.db ha hs hi hr with ⟨t, ht, hrt⟩ | ⟨w, x, startedAt, -, hx, hcall⟩
    · exact h.running i t ht hrt
    · -- The task has just been started by a worker that had claimed it.
      rcases (h.starting hx hcall).2 with hq | hover
      · exact hq
      · obtain ⟨t, ht, hover⟩ := hover.mono hle
        obtain rfl : t' = t := Option.some.inj (hi.symm.trans ht)
        rw [hr] at hover
        simp [TaskStatus.isTerminal] at hover
  · intro w
    show WorkerOk _ ((db.txns w).map Sql.Txn.begun) (workers w)
    rcases hworkers w with ⟨hold, htxn⟩ | hnew
    · rw [hold, htxn]
      exact WorkerOk.mono hgrows (h.workers w)
    · exact WorkerOk.mono (.of_eq rfl rfl) hnew
  · intro i startedAt result base before after he
    rcases started_of_step hs he with hold | ⟨w, x, -, hx, hcall, rfl⟩
    · exact h.started i startedAt result base before after hold
    · exact (h.starting hx hcall).1

/-! ### The steps of the platform -/

theorem grows_of_db (h : p.Sound leaseTimeout) {a : Sql.Action RowId Row Call}
    (ha : Allowed p.db a) {db : ExecutionDb} (hs : p.db.step Call.body a = some db) :
    Grows p { p with db := db } :=
  ⟨(before_of_step h.db ha hs).1, fun _ he => log_of_step hs he, fun _ hi => Or.inl hi⟩

/-- The publishers after one of them has changed its mind. -/
theorem publishing_update {publisher : Nat} {new : Option (List UUID)} {k : Nat}
    {ids : List UUID} (hk : Function.update p.publishing publisher new k = some ids) :
    p.publishing k = some ids ∨ new = some ids := by
  by_cases hkp : k = publisher
  · rw [hkp, Function.update_self] at hk
    exact Or.inr hk
  · rw [Function.update_of_ne hkp] at hk
    exact Or.inl hk

theorem Sound.start (h : p.Sound leaseTimeout) {publisher : Nat} {draws : Draws} {now : Datetime}
    {wd : WorkflowDefinition} (hvalid : wd.Valid)
    (hs : p.step leaseTimeout (.start publisher draws now wd) = some p') :
    p'.Sound leaseTimeout := by
  simp only [step] at hs
  split at hs
  · rename_i execution roots hpublishing hcreate
    simp only [Option.bind_eq_bind, Option.bind_eq_some_iff, Option.some.injEq] at hs
    obtain ⟨db, hdb, rfl⟩ := hs
    obtain ⟨rfl, rfl⟩ := compiled_of_create hvalid.linked hcreate
    have hrows : CompiledRows (WorkflowExecutionMapper.workflowToRows (compiled draws now wd)) :=
      ⟨draws, now, wd, _, _, hvalid, hcreate, rfl⟩
    obtain ⟨s, hins, rfl⟩ := Sql.step_insert hdb
    refine h.of_db (a := .insert _) hrows hdb (fun k ids hk => ?_) fun w => Or.inl ⟨rfl, rfl⟩
    rcases publishing_update hk with hold | hnew
    · exact Or.inl hold
    · rw [Option.some.injEq] at hnew
      subst hnew
      -- A root task has no parents to wait for.
      refine Or.inr fun i hi => ?_
      obtain ⟨t, ht, hnil⟩ := mem_rootsOf hins hi
      exact ⟨t, ht, fun q hq => by rw [hnil] at hq; simp at hq⟩
  · simp at hs

/-- What the reconciler finds is ready, and all that is ready and pending is found. -/
theorem mem_find (s : ExecutionStore) (i : UUID) :
    i ∈ Reconciler.find s ↔
      ∃ t, taskRow s i = some t ∧ t.status = .pending ∧ t.remainingDependencies = 0 := by
  show i ∈ ((taskTable (s.overlay Sql.Writes.empty)).filter _).map _ ↔ _
  rw [Sql.Store.overlay_empty]
  simp only [List.mem_map, List.mem_filter, Bool.and_eq_true, beq_iff_eq]
  constructor
  · intro h
    obtain ⟨⟨j, t⟩, ⟨hmem, hp, hz⟩, rfl⟩ := h
    exact ⟨t, mem_taskTable.mp hmem, hp, hz⟩
  · intro h
    obtain ⟨t, ht, hp, hz⟩ := h
    exact ⟨(i, t), ⟨mem_taskTable.mpr ht, hp, hz⟩, rfl⟩

theorem Sound.find (h : p.Sound leaseTimeout) {publisher : Nat}
    (hs : p.step leaseTimeout (.find publisher) = some p') : p'.Sound leaseTimeout := by
  simp only [step] at hs
  split at hs
  · obtain rfl := Option.some.inj hs
    refine h.of_workers h.workers fun k ids hk => ?_
    rcases publishing_update hk with hold | hnew
    · exact h.publishing k ids hold
    · rw [Option.some.injEq] at hnew
      subst hnew
      intro i hi
      obtain ⟨t, ht, hp, hz⟩ := (mem_find _ i).mp hi
      exact ⟨t, ht, ((reachable_coherent h.db).counterExact ht hp).zero_iff.mp hz⟩
  · simp at hs

theorem Sound.lose (h : p.Sound leaseTimeout) {publisher : Nat}
    (hs : p.step leaseTimeout (.lose publisher) = some p') : p'.Sound leaseTimeout := by
  simp only [step] at hs
  obtain rfl := Option.some.inj hs
  refine h.of_workers h.workers fun k ids hk => ?_
  rcases publishing_update hk with hold | hnew
  · exact h.publishing k ids hold
  · simp at hnew

theorem Sound.publish (h : p.Sound leaseTimeout) {publisher : Nat} {now : Datetime}
    (hs : p.step leaseTimeout (.publish publisher now) = some p') : p'.Sound leaseTimeout := by
  simp only [step] at hs
  split at hs
  · simp at hs
  · rename_i ids hids
    simp only [Option.bind_eq_bind, Option.bind_eq_some_iff, Option.some.injEq] at hs
    obtain ⟨queue, hqueue, rfl⟩ := hs
    have hq := h.of_queue hqueue (fun i hi => h.publishing publisher ids hids i hi)
      (fun _ _ _ ha => by simp at ha) fun w => Or.inl rfl
    refine hq.of_workers hq.workers fun k ids hk => ?_
    rcases publishing_update hk with hold | hnew
    · exact h.publishing k ids hold
    · simp at hnew

theorem Sound.lock (h : p.Sound leaseTimeout) {w : Nat} {workerId : UUID} {skipped : List UUID}
    {now : Datetime} (hs : p.step leaseTimeout (.lock w workerId skipped now) = some p') :
    p'.Sound leaseTimeout := by
  simp only [step] at hs
  split at hs
  · rename_i hworker
    simp only [Option.bind_eq_bind, Option.bind_eq_some_iff, Option.some.injEq] at hs
    obtain ⟨queue, hqueue, rfl⟩ := hs
    have hw := h.workers w
    rw [hworker] at hw
    refine h.setWorker_of_queue hqueue (fun _ hi => by simp [QueueAction.enqueued] at hi)
      (fun _ _ _ ha => by simp at ha) ?_
    split
    · exact hw
    · exact hw
  · simp at hs

theorem Sound.grant (h : p.Sound leaseTimeout) {w : Nat} {claimToken : UUID}
    (hs : p.step leaseTimeout (.grant w claimToken) = some p') : p'.Sound leaseTimeout := by
  simp only [step] at hs
  split at hs
  · rename_i x hworker hx
    simp only [Option.bind_eq_bind, Option.bind_eq_some_iff, Option.some.injEq] at hs
    obtain ⟨queue, hqueue, rfl⟩ := hs
    have hw := h.workers w
    rw [hworker] at hw
    refine h.setWorker_of_queue hqueue (fun _ hi => by simp [QueueAction.enqueued] at hi)
      (fun _ _ _ ha => by simp at ha) ?_
    -- The row it locked is still there, so its task is ready and stays queued.
    have hmem := (h.queue.leases.claiming w x hx).2.2.1
    refine ⟨h.queued _ hmem, Or.inl ?_, hw⟩
    rcases QueueDb.queued_after hqueue ⟨_, hmem, rfl⟩ with hq | ⟨_, _, _, ha, -⟩
    · exact hq
    · simp at ha
  · simp at hs

theorem Sound.heartbeat (h : p.Sound leaseTimeout) {w : Nat} {now : Datetime}
    (hs : p.step leaseTimeout (.heartbeat w now) = some p') : p'.Sound leaseTimeout := by
  simp only [step] at hs
  split at hs
  · rename_i claim processing hworker
    simp only [Option.bind_eq_bind, Option.bind_eq_some_iff, Option.some.injEq] at hs
    obtain ⟨queue, hqueue, rfl⟩ := hs
    have hq := h.of_queue hqueue (fun _ hi => by simp [QueueAction.enqueued] at hi)
      (fun _ _ _ ha => by simp at ha) fun u => Or.inl rfl
    have hw := hq.workers w
    simp only [hworker] at hw
    exact hq.setWorker hw
  · simp at hs

theorem Sound.heartbeatFailed (h : p.Sound leaseTimeout) {w : Nat}
    (hs : p.step leaseTimeout (.heartbeatFailed w) = some p') : p'.Sound leaseTimeout := by
  simp only [step] at hs
  split at hs
  · rename_i claim untrusted processing hworker
    obtain rfl := Option.some.inj hs
    have hw := h.workers w
    rw [hworker] at hw
    exact h.setWorker hw
  · simp at hs

/-- Beginning a transaction: what is known of the claim goes into what it began with. -/
theorem Sound.begin (h : p.Sound leaseTimeout) {w : Nat} {call : Call} {db : ExecutionDb}
    (hs : p.db.step Call.body (.begin w call) = some db) {claim : Claim} {untrusted : Bool}
    {processing next : Processing} (hworker : p.workers w = .processing claim untrusted processing)
    (hnext : p.ProcessingOk claim.taskExecutionId (p.transaction w) processing →
      ProcessingOk { p with db := db } claim.taskExecutionId (some (call, p.db.store)) next) :
    Sound leaseTimeout { p.setWorker w (.processing claim untrusted next) with db := db } := by
  have hgrows := grows_of_db (a := .begin w call) h trivial hs
  obtain ⟨-, rfl⟩ := Sql.step_begin hs
  refine h.of_db (a := .begin w call) trivial hs (fun _ _ hk => Or.inl hk) fun u => ?_
  by_cases hu : u = w
  · subst hu
    refine Or.inr ?_
    have hw := h.workers u
    rw [hworker] at hw
    obtain ⟨hready, hwatched, hok⟩ := hw
    rw [setWorker_self, Sql.Db.setTxn_self]
    exact ⟨hready.mono hgrows.store, hgrows.watched_of hwatched, hnext hok⟩
  · exact Or.inl ⟨setWorker_ne _ hu, by rw [Sql.Db.setTxn_ne _ _ hu, transaction]⟩

theorem Sound.startTask (h : p.Sound leaseTimeout) {w : Nat} {startedAt : Datetime}
    (hs : p.step leaseTimeout (.startTask w startedAt) = some p') : p'.Sound leaseTimeout := by
  simp only [step] at hs
  split at hs
  · rename_i claim untrusted hworker
    simp only [Option.bind_eq_bind, Option.bind_eq_some_iff, Option.some.injEq] at hs
    obtain ⟨db, hdb, rfl⟩ := hs
    refine h.begin hdb hworker fun _ => ⟨startedAt, _, rfl, ?_⟩
    have hw := h.workers w
    rw [hworker] at hw
    exact hw.1
  · simp at hs

theorem Sound.report (h : p.Sound leaseTimeout) {w : Nat} {result : TaskResult}
    {completedAt : Datetime} (hs : p.step leaseTimeout (.report w result completedAt) = some p') :
    p'.Sound leaseTimeout := by
  simp only [step] at hs
  split at hs
  · rename_i claim untrusted task hworker
    simp only [Option.bind_eq_bind, Option.bind_eq_some_iff, Option.some.injEq] at hs
    obtain ⟨db, hdb, rfl⟩ := hs
    refine h.begin hdb hworker fun hok => ?_
    obtain ⟨-, htaken, -⟩ := hok
    unfold TaskProcessingService.reportCall
    by_cases hsucceeded : result.succeeded = true
    · rw [if_pos hsucceeded, if_pos hsucceeded]
      exact ⟨_, _, rfl, rfl, htaken⟩
    · rw [if_neg hsucceeded, if_neg hsucceeded]
      exact ⟨_, _, rfl, rfl, htaken⟩
  · simp at hs

theorem Sound.statement (h : p.Sound leaseTimeout) {w : Nat}
    (hs : p.step leaseTimeout (.statement w) = some p') : p'.Sound leaseTimeout := by
  simp only [step, Option.bind_eq_bind, Option.bind_eq_some_iff, Option.some.injEq] at hs
  obtain ⟨db, hdb, rfl⟩ := hs
  refine h.of_db (a := .statement w) trivial hdb (fun _ _ hk => Or.inl hk)
    fun u => Or.inl ⟨rfl, ?_⟩
  obtain ⟨x, x', hx, hissue, rfl⟩ := Sql.step_statement hdb
  exact Sql.begun_setTxn hx (Sql.Txn.begun_issue hissue) u

theorem Sound.row (h : p.Sound leaseTimeout) {w : Nat} {k : RowId}
    (hs : p.step leaseTimeout (.row w k) = some p') : p'.Sound leaseTimeout := by
  simp only [step, Option.bind_eq_bind, Option.bind_eq_some_iff, Option.some.injEq] at hs
  obtain ⟨db, hdb, rfl⟩ := hs
  refine h.of_db (a := .row w k) trivial hdb (fun _ _ hk => Or.inl hk) fun u => Or.inl ⟨rfl, ?_⟩
  obtain ⟨x, x', hx, -, hprocess, rfl⟩ := Sql.step_row hdb
  exact Sql.begun_setTxn hx (Sql.Txn.begun_process hprocess) u

/-- How processing goes on, case by case. -/
theorem proceed_cases {processing next : Processing} {result : CallResult} {commits : Bool}
    (h : TaskProcessingService.proceed processing result = some (commits, next)) :
    (processing = .starting ∧ result = .started none ∧ commits = false ∧
      next = .processed {}) ∨
    (∃ task, processing = .starting ∧ result = .started (some task) ∧ commits = true ∧
      next = .executing task) ∨
    (∃ r, processing = .completing ∧ result = .completed r ∧ commits = true ∧
      next = .processed { enqueueTaskIds := r.runnableTaskExecutionIds }) ∨
    (∃ r, processing = .retrying ∧ result = .retried r ∧ commits = true ∧
      next = .processed { shouldRetry := r.shouldRetry }) := by
  unfold TaskProcessingService.proceed at h
  split at h
  · simp only [Option.some.injEq, Prod.mk.injEq] at h
    exact Or.inl ⟨rfl, rfl, h.1.symm, h.2.symm⟩
  · simp only [Option.some.injEq, Prod.mk.injEq] at h
    exact Or.inr (Or.inl ⟨_, rfl, rfl, h.1.symm, h.2.symm⟩)
  · simp only [Option.some.injEq, Prod.mk.injEq] at h
    exact Or.inr (Or.inr (Or.inl ⟨_, rfl, rfl, h.1.symm, h.2.symm⟩))
  · simp only [Option.some.injEq, Prod.mk.injEq] at h
    exact Or.inr (Or.inr (Or.inr ⟨_, rfl, rfl, h.1.symm, h.2.symm⟩))
  · simp at h

/-- Ending a worker's transaction, with what its last step shows. -/
theorem Sound.ended (h : p.Sound leaseTimeout) {w : Nat} {a : Sql.Action RowId Row Call}
    (ha : Allowed p.db a) {db : ExecutionDb} (hs : p.db.step Call.body a = some db)
    (htxns : db.txns = Function.update p.db.txns w none) {worker : Worker}
    (hworker : WorkerOk { p with db := db } none worker) :
    Sound leaseTimeout { p.setWorker w worker with db := db } := by
  refine h.of_db ha hs (fun _ _ hk => Or.inl hk) fun u => ?_
  rw [htxns]
  by_cases hu : u = w
  · subst hu
    refine Or.inr ?_
    rw [setWorker_self, Function.update_self]
    exact hworker
  · exact Or.inl ⟨setWorker_ne _ hu, by rw [Function.update_of_ne hu, transaction]⟩

theorem Sound.endTransaction (h : p.Sound leaseTimeout) {w : Nat}
    (hs : p.step leaseTimeout (.endTransaction w) = some p') : p'.Sound leaseTimeout := by
  simp only [step] at hs
  split at hs
  · rename_i claim untrusted processing hworker
    simp only [Option.bind_eq_bind, Option.bind_eq_some_iff, Option.some.injEq] at hs
    obtain ⟨x, hx, result, hresult, ⟨commits, next⟩, hproceed, db, hdb, rfl⟩ := hs
    have hw := h.workers w
    rw [hworker, transaction, hx, Option.map_some] at hw
    obtain ⟨hready, hwatched, hok⟩ := hw
    have heffect := effect_of_finished h.db hx (Sql.Txn.phase_of_result hresult)
    have hcoherent := reachable_coherent h.db
    rcases proceed_cases hproceed with ⟨rfl, rfl, rfl, rfl⟩ | ⟨task, rfl, rfl, rfl, rfl⟩ |
      ⟨r, rfl, rfl, rfl, rfl⟩ | ⟨r, rfl, rfl, rfl, rfl⟩
    · -- Nothing to execute: the task was committed before, so it is over.
      obtain ⟨startedAt, base, hbegun, hbase⟩ := hok
      obtain ⟨hcall, rfl⟩ := Prod.mk.inj (Option.some.inj hbegun)
      rw [hcall] at heffect
      have hover := heffect.refused hbase.isSome
      obtain ⟨_, -, rfl⟩ := Sql.step_abort hdb
      exact h.ended (a := .abort w) trivial hdb rfl ⟨hready, hwatched, rfl, fun _ => hover, by simp⟩
    · obtain ⟨startedAt, base, hbegun, hbase⟩ := hok
      obtain ⟨hcall, rfl⟩ := Prod.mk.inj (Option.some.inj hbegun)
      have hgrows := grows_of_db (a := .commit w) h trivial hdb
      obtain rfl := Sql.step_commit_of hx hresult hdb
      rw [hcall] at heffect
      refine h.ended (a := .commit w) trivial hdb rfl
        ⟨hready.mono hgrows.store, hgrows.watched_of hwatched, rfl, heffect.taken, ?_⟩
      refine ⟨startedAt, x.base, p.db.store, p.db.store.overlay x.writes, ?_⟩
      rw [hcall]
      exact List.mem_append_right _ (by simp)
    · obtain ⟨request, base, hbegun, hid, hbase⟩ := hok
      obtain ⟨hcall, rfl⟩ := Prod.mk.inj (Option.some.inj hbegun)
      have hgrows := grows_of_db (a := .commit w) h trivial hdb
      obtain rfl := Sql.step_commit_of hx hresult hdb
      rw [hcall] at heffect
      have hover := heffect.completed_over (hid ▸ hbase)
      rw [hid] at hover
      exact h.ended (a := .commit w) trivial hdb rfl
        ⟨hready.mono hgrows.store, hgrows.watched_of hwatched, rfl, fun _ => hover,
          fun j hj => heffect.handedOut_ready hcoherent hj⟩
    · obtain ⟨request, base, hbegun, hid, hbase⟩ := hok
      obtain ⟨hcall, rfl⟩ := Prod.mk.inj (Option.some.inj hbegun)
      have hgrows := grows_of_db (a := .commit w) h trivial hdb
      obtain rfl := Sql.step_commit_of hx hresult hdb
      rw [hcall] at heffect
      have hover : r.shouldRetry = false → Over _ claim.taskExecutionId := fun hr =>
        hid ▸ heffect.retried_over (hid ▸ hbase) hr
      exact h.ended (a := .commit w) trivial hdb rfl
        ⟨hready.mono hgrows.store, hgrows.watched_of hwatched, rfl, hover, by simp⟩
  · simp at hs

theorem Sound.dispose (h : p.Sound leaseTimeout) {w : Nat} {now : Datetime}
    (hs : p.step leaseTimeout (.dispose w now) = some p') : p'.Sound leaseTimeout := by
  simp only [step] at hs
  split at hs
  · rename_i claim result hworker
    obtain rfl := Option.some.inj hs
    have hw := h.workers w
    rw [hworker] at hw
    obtain ⟨-, -, hnone, -⟩ := hw
    exact h.setWorker hnone
  · rename_i claim result hworker
    simp only [Option.bind_eq_bind, Option.bind_eq_some_iff, Option.some.injEq] at hs
    obtain ⟨queue, hqueue, rfl⟩ := hs
    have hw := h.workers w
    rw [hworker] at hw
    obtain ⟨-, -, hnone, hover, hready⟩ := hw
    refine h.setWorker_of_queue hqueue (fun i hi => ?_) (fun c ids t ha => ?_) hnone
    · by_cases hr : result.shouldRetry = true
      · rw [if_pos hr] at hi; simp [QueueAction.enqueued] at hi
      · rw [if_neg hr] at hi; exact hready i hi
    · by_cases hr : result.shouldRetry = true
      · rw [if_pos hr] at ha; simp at ha
      · rw [if_neg hr] at ha
        obtain ⟨rfl, -, -⟩ := QueueAction.finish.inj ha
        exact hover (by simpa using hr)
  · simp at hs

theorem Sound.crash (h : p.Sound leaseTimeout) {w : Nat}
    (hs : p.step leaseTimeout (.crash w) = some p') : p'.Sound leaseTimeout := by
  simp only [step] at hs
  obtain rfl := Option.some.inj hs
  -- First its transaction is rolled back, then its claim.
  have hdb : Sound leaseTimeout
      { p.setWorker w .idle with db := (p.db.step Call.body (.abort w)).getD p.db } := by
    cases hstep : p.db.step Call.body (.abort w) with
    | some db =>
        rw [Option.getD_some]
        obtain ⟨_, -, rfl⟩ := Sql.step_abort hstep
        exact h.ended (a := .abort w) trivial hstep rfl rfl
    | none =>
        have hnone : p.db.txns w = none := by
          cases hx : p.db.txns w with
          | none => rfl
          | some x => simp [Sql.Db.step, hx] at hstep
        rw [Option.getD_none]
        refine h.setWorker ?_
        rw [transaction, hnone]
        rfl
  cases hstep : p.queue.step leaseTimeout (.abort w) with
  | none => exact hdb
  | some queue =>
      exact hdb.of_queue hstep
        (fun _ hi => by simp [QueueAction.enqueued] at hi) (fun _ _ _ ha => by simp at ha)
        fun u => Or.inl rfl

end Platform

/-! ### Every run -/

/-- What the environment may do: definitions that are executed have been validated. -/
def PlatformAction.Valid : PlatformAction → Prop
  | .start _ _ _ workflowDefinition => workflowDefinition.Valid
  | _ => True

/-- The states the platform reaches from empty stores. -/
inductive Platform.Reachable (leaseTimeout : Timedelta) : Platform → Prop
  | init (clock : Datetime) : Reachable leaseTimeout (init clock)
  | step {p p' : Platform} (h : Reachable leaseTimeout p) (action : PlatformAction)
      (hvalid : action.Valid) (hs : p.step leaseTimeout action = some p') :
      Reachable leaseTimeout p'

/-- **Every step of the platform keeps it sound.** -/
theorem Platform.Sound.step {leaseTimeout : Timedelta} {p p' : Platform}
    (h : p.Sound leaseTimeout) {action : PlatformAction} (hvalid : action.Valid)
    (hs : p.step leaseTimeout action = some p') : p'.Sound leaseTimeout := by
  cases action with
  | start publisher draws now wd => exact h.start hvalid hs
  | find publisher => exact h.find hs
  | publish publisher now => exact h.publish hs
  | lose publisher => exact h.lose hs
  | lock w workerId skipped now => exact h.lock hs
  | grant w claimToken => exact h.grant hs
  | startTask w startedAt => exact h.startTask hs
  | report w result completedAt => exact h.report hs
  | statement w => exact h.statement hs
  | row w k => exact h.row hs
  | endTransaction w => exact h.endTransaction hs
  | heartbeat w now => exact h.heartbeat hs
  | heartbeatFailed w => exact h.heartbeatFailed hs
  | dispose w now => exact h.dispose hs
  | crash w => exact h.crash hs

theorem Platform.Reachable.sound {leaseTimeout : Timedelta} {p : Platform}
    (h : p.Reachable leaseTimeout) : p.Sound leaseTimeout := by
  induction h with
  | init clock => exact Platform.sound_init clock
  | step _ action hvalid hs ih => exact ih.step hvalid hs

end AutomationPlatform
