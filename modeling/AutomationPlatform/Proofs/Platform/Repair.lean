/-
Repair, as far as the driver takes it.

Behind the driver the platform only does what it could do before: a publication that
raises is lost, and a worker that goes down with one has lost its claim.  So all that was
proved of the platform's runs holds of these.

What it can not do any more is to repair them all.  A cycle publishes everything that is
durably runnable in one statement, queued already or not, and with 10923 tasks the
statement binds more parameters than the driver takes.  The next cycle finds the same tasks
again, and if nobody else can work them off, so does every later one.
-/
import AutomationPlatform.Proofs.Platform.NoWorkLost
import AutomationPlatform.Runtime.Reconciler
import Std.Data.String.ToNat

namespace AutomationPlatform

open PostgresExecutionQueue WorkflowStartService

/-! ### What the driver accepts -/

theorem accepted_iff {ids : List UUID} : accepted ids = true ↔ ids.length ≤ 10922 := by
  have hcolumns : columns.length = 6 := rfl
  rw [accepted, decide_eq_true_eq, boundParameters, hcolumns, maxParameters]
  omega

theorem insertThroughDriver_eq (queue : ExecutionQueue) (ids : List UUID) (now : Datetime) :
    insertThroughDriver queue ids now =
      if accepted ids then some (insertQueueEntries queue ids now) else none := by
  cases ids with
  | nil => rfl
  | cons i rest => rfl

theorem enqueueThroughDriver_eq (queue : ExecutionQueue) (ids : List UUID) (now : Datetime) :
    enqueueThroughDriver queue ids now =
      if accepted ids then some (enqueue queue ids now) else none :=
  insertThroughDriver_eq queue ids now

theorem reconcile_eq (s : ExecutionStore) (queue : ExecutionQueue) (now : Datetime) :
    Reconciler.reconcile s queue now = enqueueThroughDriver queue (Reconciler.find s) now := by
  unfold Reconciler.reconcile
  cases hfind : Reconciler.find s with
  | nil => rfl
  | cons i rest => rfl

/-! ### Runs behind the driver -/

namespace Platform

variable {leaseTimeout : Timedelta} {p p' : Platform}

/-- The states the platform reaches from empty stores when its queue is behind the driver. -/
inductive Driven (leaseTimeout : Timedelta) : Platform → Prop
  | init (clock : Datetime) : Driven leaseTimeout (init clock)
  | step {p p' : Platform} (h : Driven leaseTimeout p) (action : PlatformAction)
      (hvalid : action.Valid) (hs : p.driverStep leaseTimeout action = some p') :
      Driven leaseTimeout p'

/-- A worker that is let go is one that has lost its claim. -/
theorem Reachable.setWorker_idle (h : p.Reachable leaseTimeout) {w : Nat} {claim : Claim}
    {untrusted : Bool} {result : ProcessTaskResult}
    (hw : p.workers w = .processing claim untrusted (.processed result)) (now : Datetime) :
    (p.setWorker w .idle).Reachable leaseTimeout := by
  have hfailed : p.step leaseTimeout (.heartbeatFailed w) =
      some (p.setWorker w (.processing claim true (.processed result))) := by
    simp only [Platform.step, hw]
  have hdisposed : (p.setWorker w (.processing claim true (.processed result))).step leaseTimeout
      (.dispose w now) = some (p.setWorker w .idle) := by
    simp [Platform.step, setWorker]
  exact .step (.step h (.heartbeatFailed w) trivial hfailed) (.dispose w now) trivial hdisposed

/-- **Behind the driver the platform does nothing new.** -/
theorem Driven.reachable (h : p.Driven leaseTimeout) : p.Reachable leaseTimeout := by
  induction h with
  | init clock => exact .init clock
  | @step p p' h action hvalid hs ih =>
      cases action with
      | publish publisher now =>
          simp only [driverStep] at hs
          split at hs
          · simp at hs
          · split at hs
            · exact .step ih (.publish publisher now) trivial hs
            · -- What could not be inserted is lost.
              exact .step ih (.lose publisher) trivial hs
      | dispose w now =>
          simp only [driverStep] at hs
          split at hs
          · rename_i claim result hw
            split at hs
            · exact .step ih (.dispose w now) trivial hs
            · split at hs
              · exact .step ih (.dispose w now) trivial hs
              · exact Option.some.inj hs ▸ ih.setWorker_idle hw now
          · exact .step ih (.dispose w now) trivial hs
      | _ => exact .step ih _ hvalid hs

end Platform

/-! ### One cycle -/

/-- The task is to be published: it is pending, and its parents are completed. -/
def DurablyRunnable (s : ExecutionStore) (i : UUID) : Prop :=
  ∃ t, taskRow s i = some t ∧ t.status = .pending ∧ ParentsCompleted s t

/-- How many tasks are to be published. -/
def runnableCount (s : ExecutionStore) : Nat :=
  (taskTable s).countP fun e =>
    e.2.status == .pending && e.2.parentTaskIds.all fun p => completed s p

/-- The reconciler finds exactly the tasks that are to be published. -/
theorem mem_find_iff {s : ExecutionStore} (h : Coherent s) {i : UUID} :
    i ∈ Reconciler.find s ↔ DurablyRunnable s i := by
  rw [Platform.mem_find]
  constructor
  · rintro ⟨t, ht, hp, hzero⟩
    exact ⟨t, ht, hp, (h.counterExact ht hp).zero_iff.mp hzero⟩
  · rintro ⟨t, ht, hp, hparents⟩
    exact ⟨t, ht, hp, (h.counterExact ht hp).zero_iff.mpr hparents⟩

/-- It finds each of them once. -/
theorem length_find {s : ExecutionStore} (h : Coherent s) :
    (Reconciler.find s).length = runnableCount s := by
  have hfind : Reconciler.find s = ((taskTable s).filter fun e =>
      e.2.status == .pending && e.2.remainingDependencies == 0).map (·.1) := by
    show ((taskTable (s.overlay Sql.Writes.empty)).filter _).map _ = _
    rw [Sql.Store.overlay_empty]
  rw [hfind, List.length_map, ← List.countP_eq_length_filter, runnableCount]
  refine List.countP_congr fun e he => ?_
  rw [Bool.and_eq_true, Bool.and_eq_true]
  refine and_congr_right fun hp => ?_
  rw [beq_iff_eq] at hp ⊢
  rw [(h.counterExact (mem_taskTable.mp he) hp).zero_iff, List.all_eq_true, ParentsCompleted]

/-- The cycle raises no exception, and then every task that was to be published is queued. -/
structure Repairs (s : ExecutionStore) (queue : ExecutionQueue) (now : Datetime) : Prop where
  succeeds : (Reconciler.reconcile s queue now).isSome = true
  queued : ∀ i, DurablyRunnable s i →
    ∃ entry ∈ Reconciler.cycle s queue now, entry.taskExecutionId = i

/-- A cycle that fails leaves the queue as it was. -/
theorem cycle_of_rejected {s : ExecutionStore} (h : accepted (Reconciler.find s) = false)
    (queue : ExecutionQueue) (now : Datetime) :
    Reconciler.reconcile s queue now = none ∧ Reconciler.cycle s queue now = queue := by
  have hnone : Reconciler.reconcile s queue now = none := by
    rw [reconcile_eq, enqueueThroughDriver_eq, if_neg (by simp [h])]
  exact ⟨hnone, by rw [Reconciler.cycle, hnone]; rfl⟩

/-- A cycle that the driver accepts repairs everything. -/
theorem repairs_of_accepted {s : ExecutionStore} (hs : Coherent s)
    (h : accepted (Reconciler.find s) = true) (queue : ExecutionQueue) (now : Datetime) :
    Repairs s queue now := by
  have hsome : Reconciler.reconcile s queue now =
      some (enqueue queue (Reconciler.find s) now) := by
    rw [reconcile_eq, enqueueThroughDriver_eq, if_pos h]
  refine ⟨by rw [hsome]; rfl, fun i hi => ?_⟩
  rw [Reconciler.cycle, hsome, Option.getD_some]
  exact exists_insertQueueEntries ((mem_find_iff hs).mpr hi)

/-- Publishing through the driver, whether it takes the statement or not. -/
theorem Platform.driverStep_publish {leaseTimeout : Timedelta} {p : Platform} {publisher : Nat}
    {ids : List UUID} {now : Datetime} (hids : p.publishing publisher = some ids)
    (hnow : p.queue.clock ≤ now) :
    p.driverStep leaseTimeout (.publish publisher now) =
      some (if accepted ids then
          { p.setPublishing publisher none with
            queue := { p.queue with queue := enqueue p.queue.queue ids now, clock := now } }
        else p.setPublishing publisher none) := by
  simp only [driverStep, hids, enqueueThroughDriver_eq]
  split
  · rename_i h
    rw [if_pos (by by_contra hnot; simp [hnot] at h)]
    exact step_publish hids hnow
  · rename_i h
    rw [if_neg (by intro haccepted; simp [haccepted] at h)]

/-- The two steps of a cycle, with nothing in between. -/
theorem Platform.driverSteps_cycle {leaseTimeout : Timedelta} {p : Platform} {publisher : Nat}
    {now : Datetime} (hidle : p.publishing publisher = none) (hnow : p.queue.clock ≤ now) :
    ∃ p', p.driverSteps leaseTimeout [.find publisher, .publish publisher now] = some p' ∧
      p'.db = p.db ∧ p'.queue.queue = Reconciler.cycle p.db.store p.queue.queue now := by
  have hfind : p.driverStep leaseTimeout (.find publisher) =
      some (p.setPublishing publisher (some (Reconciler.find p.db.store))) := by
    show p.step leaseTimeout (.find publisher) = _
    exact step_find hidle
  rw [driverSteps, List.foldlM_cons, hfind]
  simp only [List.foldlM_cons, List.foldlM_nil, Option.bind_eq_bind, Option.bind_some,
    driverStep_publish (p.setPublishing_self publisher _)
      (show (p.setPublishing publisher _).queue.clock ≤ now from hnow),
    Option.pure_def]
  refine ⟨_, rfl, ?_⟩
  rw [Reconciler.cycle, reconcile_eq, enqueueThroughDriver_eq]
  split <;> exact ⟨rfl, rfl⟩

/--
**A cycle repairs exactly when the driver takes it.**  The executions are those of any
state the platform reaches, and the queue is whatever the cycle's second transaction meets.  With
nothing in between, the cycle is two steps of the platform (`Platform.driverSteps_cycle`).
-/
theorem repairs_iff {leaseTimeout : Timedelta} {p : Platform} (h : p.Driven leaseTimeout)
    (queue : ExecutionQueue) (now : Datetime) :
    Repairs p.db.store queue now ↔ runnableCount p.db.store ≤ 10922 := by
  have hs := reachable_coherent h.reachable.sound.db
  rw [← length_find hs, ← accepted_iff]
  constructor
  · intro hrepairs
    by_contra hnot
    have hnone := (cycle_of_rejected (by simpa using hnot) queue now).1
    have hsome := hrepairs.succeeds
    rw [hnone] at hsome
    simp at hsome
  · exact fun haccepted => repairs_of_accepted hs haccepted queue now

/-- The sample is started, and its root task is not published. -/
def lostStartSteps : List PlatformAction :=
  [.start 0 { workflowExecutionId := 0, taskExecutionId := id } 0 sampleDefinition, .lose 0]

def lostStart : Platform :=
  ((Platform.init 0).driverSteps 100 lostStartSteps).getD (Platform.init 0)

theorem lostStart_driven : lostStart.Driven 100 := by
  have hstarted : Platform.Driven 100 _ :=
    .step (.init 0) (.start 0 { workflowExecutionId := 0, taskExecutionId := id } 0
      sampleDefinition) sampleDefinition_valid rfl
  exact .step hstarted (.lose 0) trivial rfl

theorem repairs_iff_sample :
    runnableCount lostStart.db.store = 1 ∧
      ((Reconciler.cycle lostStart.db.store [] 5).map (·.taskExecutionId) = [1]) ∧
      (Repairs lostStart.db.store [] 5 ↔ runnableCount lostStart.db.store ≤ 10922) :=
  ⟨rfl, rfl, repairs_iff lostStart_driven [] 5⟩

/-! ### A start that nobody repairs -/

/-- As many tasks, none of which waits for another. -/
def wideDefinition (n : Nat) : WorkflowDefinition where
  id := 0
  name := "wide"
  taskDefinitions := (List.range n).map fun i =>
    { id := i, pluginType := "collect_inputs", key := Nat.repr i }

theorem mem_wideDefinition {n : Nat} {d : TaskDefinition}
    (h : d ∈ (wideDefinition n).taskDefinitions) : d.dependencies = [] ∧ d.maxTries = 1 := by
  obtain ⟨i, -, rfl⟩ := List.mem_map.mp h
  exact ⟨rfl, rfl⟩

theorem wideDefinition_ids (n : Nat) :
    (wideDefinition n).taskDefinitions.map (·.id) = List.range n := by
  rw [wideDefinition, List.map_map]
  exact List.map_id _

theorem wideDefinition_valid {n : Nat} (hn : 0 < n) : (wideDefinition n).Valid where
  nonempty := by simp [wideDefinition, Nat.ne_of_gt hn]
  ids := by
    rw [wideDefinition_ids]
    exact List.nodup_range
  keys := by
    rw [wideDefinition, List.map_map]
    exact List.nodup_range.map fun i j hij => Nat.repr_injective hij
  duplicates d hd := by simp [(mem_wideDefinition hd).1]
  known d hd p hp := by simp [(mem_wideDefinition hd).1] at hp
  acyclic := acyclic_of_rank id fun d hd p hp => by simp [(mem_wideDefinition hd).1] at hp
  maxTries d hd := by simp [(mem_wideDefinition hd).2]

/-- Nobody is at work, and what is to be published is too much for the driver. -/
structure Stranded (db : ExecutionDb) (p : Platform) : Prop where
  same : p.db = db
  txns : ∀ w, db.txns w = none
  rejected : accepted (Reconciler.find db.store) = false
  queue : p.queue.queue = []
  claiming : ∀ w, p.queue.claiming w = none
  workers : ∀ w, p.workers w = .idle
  publishing : ∀ k ids, p.publishing k = some ids → accepted ids = false

/-- Whether an action starts a workflow. -/
def PlatformAction.starts : PlatformAction → Bool
  | .start .. => true
  | _ => false

namespace Stranded

variable {leaseTimeout : Timedelta} {db : ExecutionDb} {p p' : Platform}

theorem setPublishing (h : Stranded db p) (k : Nat) {new : Option (List UUID)}
    (hnew : ∀ ids, new = some ids → accepted ids = false) :
    Stranded db (p.setPublishing k new) where
  same := h.same
  txns := h.txns
  rejected := h.rejected
  queue := h.queue
  claiming := h.claiming
  workers := h.workers
  publishing j ids hj := by
    rcases Platform.publishing_update hj with hold | hnew'
    · exact h.publishing j ids hold
    · exact hnew ids hnew'

theorem setWorker_idle (h : Stranded db p) (w : Nat) : Stranded db (p.setWorker w .idle) where
  same := h.same
  txns := h.txns
  rejected := h.rejected
  queue := h.queue
  claiming := h.claiming
  workers u := by
    by_cases hu : u = w
    · subst hu; simp
    · rw [Platform.setWorker_ne _ hu]; exact h.workers u
  publishing := h.publishing

/-- **Without another start the tasks stay where they are.** -/
theorem step (h : Stranded db p) {action : PlatformAction} (hstart : action.starts = false)
    (hs : p.driverStep leaseTimeout action = some p') : Stranded db p' := by
  have hdb : ∀ w, p.db.txns w = none := fun w => h.same ▸ h.txns w
  cases action with
  | start => simp [PlatformAction.starts] at hstart
  | find publisher =>
      simp only [Platform.driverStep, Platform.step] at hs
      split at hs
      · obtain rfl := Option.some.inj hs
        refine h.setPublishing publisher fun ids hids => ?_
        rw [← Option.some.inj hids, h.same]
        exact h.rejected
      · simp at hs
  | publish publisher now =>
      simp only [Platform.driverStep] at hs
      split at hs
      · simp at hs
      · rename_i ids hids
        rw [enqueueThroughDriver_eq, if_neg (by simp [h.publishing publisher ids hids])] at hs
        obtain rfl := Option.some.inj hs
        exact h.setPublishing publisher (by simp)
  | lose publisher =>
      obtain rfl := Option.some.inj hs
      exact h.setPublishing publisher (by simp)
  | lock w workerId skipped now =>
      simp only [Platform.driverStep, Platform.step, h.workers w, Option.bind_eq_bind,
        Option.bind_eq_some_iff, Option.some.injEq] at hs
      obtain ⟨queue, hqueue, rfl⟩ := hs
      obtain ⟨-, -, rfl | ⟨entry, hentry, -⟩⟩ := QueueDb.step_lock hqueue
      · -- There is no row to lock.
        have hidle := h.setWorker_idle w
        rw [h.claiming w]
        exact { hidle with queue := h.queue, claiming := h.claiming }
      · rw [h.queue] at hentry
        simp at hentry
  | grant w claimToken =>
      simp [Platform.driverStep, Platform.step, h.workers w] at hs
  | startTask w startedAt => simp [Platform.driverStep, Platform.step, h.workers w] at hs
  | report w result completedAt => simp [Platform.driverStep, Platform.step, h.workers w] at hs
  | statement w => simp [Platform.driverStep, Platform.step, Sql.Db.step, hdb w] at hs
  | row w k => simp [Platform.driverStep, Platform.step, Sql.Db.step, hdb w] at hs
  | endTransaction w => simp [Platform.driverStep, Platform.step, h.workers w] at hs
  | heartbeat w now => simp [Platform.driverStep, Platform.step, h.workers w] at hs
  | heartbeatFailed w => simp [Platform.driverStep, Platform.step, h.workers w] at hs
  | dispose w now => simp [Platform.driverStep, Platform.step, h.workers w] at hs
  | crash w =>
      simp [Platform.driverStep, Platform.step, Sql.Db.step, QueueDb.step, hdb w,
        h.claiming w] at hs
      subst hs
      exact h.setWorker_idle w

theorem steps {actions : List PlatformAction} :
    ∀ {p p' : Platform}, Stranded db p → (∀ a ∈ actions, a.starts = false) →
      p.driverSteps leaseTimeout actions = some p' → Stranded db p' := by
  induction actions with
  | nil =>
      intro p p' h _ hs
      obtain rfl := Option.some.inj hs
      exact h
  | cons a rest ih =>
      intro p p' h hstart hs
      simp only [Platform.driverSteps, List.foldlM_cons, Option.bind_eq_bind,
        Option.bind_eq_some_iff] at hs
      obtain ⟨mid, hmid, hrest⟩ := hs
      exact ih (h.step (hstart a (by simp)) hmid) (fun b hb => hstart b (by simp [hb])) hrest

/-- No cycle repairs anything. -/
theorem not_repairs (h : Stranded db p) (now : Datetime) :
    ¬ Repairs p.db.store p.queue.queue now := by
  intro hrepairs
  have hnone := (cycle_of_rejected h.rejected p.queue.queue now).1
  have hsome := hrepairs.succeeds
  rw [h.same, hnone] at hsome
  simp at hsome

end Stranded

/-- Starting the wide workflow, and publishing its tasks. -/
def wideSteps (n : Nat) : List PlatformAction :=
  [.start 0 { workflowExecutionId := 0, taskExecutionId := id } 0 (wideDefinition n),
   .publish 0 1]

/-- The tasks of the wide workflow are found, each of them. -/
theorem find_wide {n : Nat} {draws : Draws} {now : Datetime} {s' : ExecutionStore}
    (hid : draws.taskExecutionId = id)
    (hins : (Sql.Store.empty : ExecutionStore).insert?
      (WorkflowExecutionMapper.workflowToRows (compiled draws now (wideDefinition n))) = some s')
    {i : UUID} (hi : i < n) :
    DurablyRunnable s' i ∧ i ∈ Reconciler.find s' := by
  have hmem : ({ id := i, pluginType := "collect_inputs", key := Nat.repr i } : TaskDefinition) ∈
      (wideDefinition n).taskDefinitions :=
    List.mem_map_of_mem (List.mem_range.mpr hi)
  have hrow := (taskRow_created hins hmem).1
  rw [hid] at hrow
  exact ⟨⟨_, hrow, rfl, fun _ hp => nomatch hp⟩,
    (Platform.mem_find s' i).mpr ⟨_, hrow, rfl, rfl⟩⟩

theorem length_rootsOf_wide (n : Nat) (draws : Draws) :
    (rootsOf draws (wideDefinition n)).length = n := by
  rw [rootsOf, List.length_map, List.filter_eq_self.mpr fun d hd => by
    simp [(mem_wideDefinition hd).1]]
  simp [wideDefinition]

/-- A start whose rows can be inserted. -/
theorem Platform.step_start (leaseTimeout : Timedelta) (p : Platform) {publisher : Nat}
    {draws : Draws} {now : Datetime} {wd : WorkflowDefinition} {s' : ExecutionStore}
    (hidle : p.publishing publisher = none) (hlinked : wd.Linked)
    (hins : p.db.store.insert? (WorkflowExecutionMapper.workflowToRows (compiled draws now wd)) =
      some s') :
    ∃ p', p.step leaseTimeout (.start publisher draws now wd) = some p' ∧
      p'.db = { p.db with store := s', log := p.db.log ++ [.inserted p.db.store s'] } ∧
      p'.queue = p.queue ∧ p'.workers = p.workers ∧
      p'.publishing = Function.update p.publishing publisher (some (rootsOf draws wd)) := by
  simp only [Platform.step, hidle, createWorkflowExecution_eq _ _ hlinked, Sql.Db.step, hins]
  exact ⟨_, rfl, rfl, rfl, rfl, rfl⟩

/-- **A workflow of more than 10922 root tasks starts, and its tasks are stranded.** -/
theorem wide_stranded {n : Nat} (hn : 10922 < n) (leaseTimeout : Timedelta) :
    ∃ p, (Platform.init 0).driverSteps leaseTimeout (wideSteps n) = some p ∧ Stranded p.db p ∧
      ∀ i < n, DurablyRunnable p.db.store i := by
  have hlinked := (wideDefinition_valid (by omega : 0 < n)).linked
  obtain ⟨s', hs'⟩ : ∃ s', WorkflowExecutionRepository.create .empty
      (compiled { workflowExecutionId := 0, taskExecutionId := id } 0 (wideDefinition n)) =
        some s' :=
    create_fresh 0 hlinked (by simp [Sql.Store.empty]) (by simp [Sql.Store.empty]) (fun _ _ h => h)
  have hfound : ∀ i < n, DurablyRunnable s' i ∧ i ∈ Reconciler.find s' :=
    fun i hi => find_wide rfl hs' hi
  have hrejected : ∀ ids : List UUID, n ≤ ids.length → accepted ids = false := by
    intro ids hlength
    rw [← Bool.not_eq_true, accepted_iff]
    omega
  have hroots := hrejected _
    (length_rootsOf_wide n { workflowExecutionId := 0, taskExecutionId := id }).ge
  have hlength : n ≤ (Reconciler.find s').length := by
    have hsub : List.range n ⊆ Reconciler.find s' := fun i hi =>
      (hfound i (List.mem_range.mp hi)).2
    simpa using (List.nodup_range.subperm hsub).length_le
  -- The execution is committed, and its root tasks are refused.
  obtain ⟨p, hstart, hdb, hqueue, hworkers, hpublishing⟩ :=
    Platform.step_start leaseTimeout (Platform.init 0) (show _ = none from rfl) hlinked hs'
  have hpublish : p.driverStep leaseTimeout (.publish 0 1) = some (p.setPublishing 0 none) := by
    rw [Platform.driverStep_publish (by rw [hpublishing, Function.update_self])
      (by rw [hqueue]; decide), if_neg (by simp [hroots])]
  refine ⟨p.setPublishing 0 none, ?_, ?_, fun i hi => ?_⟩
  · rw [Platform.driverSteps, wideSteps, List.foldlM_cons]
    refine Option.bind_eq_some_iff.mpr ⟨p, hstart, ?_⟩
    rw [List.foldlM_cons]
    exact Option.bind_eq_some_iff.mpr ⟨_, hpublish, rfl⟩
  · have hstore : p.db.store = s' := by rw [hdb]
    refine ⟨rfl, fun w => ?_, hrejected _ ?_, ?_, fun w => ?_, fun w => ?_, fun k ids hk => ?_⟩
    · show p.db.txns w = none
      rw [hdb]
      rfl
    · exact hstore ▸ hlength
    · show p.queue.queue = []
      rw [hqueue]
      rfl
    · show p.queue.claiming w = none
      rw [hqueue]
      rfl
    · show p.workers w = .idle
      rw [hworkers]
      rfl
    · rcases Platform.publishing_update hk with hold | hnew
      · rw [hpublishing] at hold
        rcases Platform.publishing_update (p := Platform.init 0) hold with hold | hnew
        · simp [Platform.init] at hold
        · rw [← Option.some.inj hnew]
          exact hroots
      · simp at hnew
  · show DurablyRunnable p.db.store i
    rw [hdb]
    exact (hfound i hi).1

/-- Nothing repairs the start of a workflow of 10923 root tasks, until another one is started. -/
theorem wide_start_stranded :
    (wideDefinition 10923).Valid ∧
      ∃ p, (Platform.init 0).driverSteps 100 (wideSteps 10923) = some p ∧
        ∀ actions p', (∀ a ∈ actions, a.starts = false) →
          p.driverSteps 100 actions = some p' →
            (∀ i < 10923, DurablyRunnable p'.db.store i ∧ ¬ p'.queue.Queued i) ∧
              ∀ now, ¬ Repairs p'.db.store p'.queue.queue now := by
  obtain ⟨p, hp, hstranded, hrunnable⟩ := wide_stranded (by decide : 10922 < 10923) 100
  refine ⟨wideDefinition_valid (by decide), p, hp, fun actions p' hstart hs => ?_⟩
  have h := hstranded.steps hstart hs
  refine ⟨fun i hi => ⟨h.same ▸ hrunnable i hi, ?_⟩, h.not_repairs⟩
  rintro ⟨entry, hentry, -⟩
  rw [h.queue] at hentry
  simp at hentry

end AutomationPlatform
