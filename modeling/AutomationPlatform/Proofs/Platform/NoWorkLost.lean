/-
No unfinished work is lost by the queue.

The reconciler looks for pending tasks only, so nothing would ever repair a running
task that had lost its row.  None does: a row leaves the queue by a `finish` alone,
and a worker finishes a claim only when its transactions have shown that the task is
over, which it then is for good.  It does not matter whether the claim was still
current when they did.

What is pending may be missing from the queue, when a process died between its two
transactions.  One cycle of the reconciler puts all of that back, provided that the driver takes
its INSERT.  When it does is settled where the driver is modelled (`repairs_iff`).
-/
import AutomationPlatform.Proofs.Platform.Sound

namespace AutomationPlatform

namespace Platform

variable {leaseTimeout : Timedelta} {p p' : Platform}

/-- What one action of the platform does to its two stores. -/
structure Steps (leaseTimeout : Timedelta) (p : Platform) (action : PlatformAction)
    (p' : Platform) : Prop where
  /-- The queue takes a step of its own or none, and only what a worker disposes of is finished. -/
  queue : p'.queue = p.queue ∨ ∃ a, p.queue.step leaseTimeout a = some p'.queue ∧
    ∀ claim ids now, a = .finish claim ids now → ∃ w now result, action = .dispose w now ∧
      p.workers w = .processing claim false (.processed result) ∧ result.shouldRetry = false
  /-- The database takes a step of its own or none, and only what a worker reports is completed. -/
  db : p'.db = p.db ∨ ∃ a, p.db.step Call.body a = some p'.db ∧
    (action.Valid → Allowed p.db a) ∧
    ∀ w request, a = .begin w (.completeTask request) →
      ∃ claim untrusted task result completedAt, action = .report w result completedAt ∧
        p.workers w = .processing claim untrusted (.executing task) ∧ result.succeeded = true ∧
        request.taskExecutionId = claim.taskExecutionId ∧ request.output = result.output

/-- A report that begins the completion of a task is of a success. -/
theorem completeTask_of_reportCall {claim : Claim} {result : TaskResult}
    {completedAt : Datetime} {request : CompleteTaskExecutionRequest}
    (h : TaskProcessingService.reportCall claim.taskExecutionId result completedAt =
      .completeTask request) :
    result.succeeded = true ∧ request.taskExecutionId = claim.taskExecutionId ∧
      request.output = result.output := by
  unfold TaskProcessingService.reportCall at h
  split at h
  · rename_i hsucceeded
    obtain rfl := Call.completeTask.inj h
    exact ⟨hsucceeded, rfl, rfl⟩
  · simp at h

/-- Each store takes a step of its own or none, whatever the platform does. -/
theorem Steps.of_step {action : PlatformAction} (hs : p.step leaseTimeout action = some p') :
    Steps leaseTimeout p action p' := by
  cases action with
  | start publisher draws now wd =>
      simp only [step] at hs
      split at hs
      · rename_i workflow roots _ hcreate
        simp only [Option.bind_eq_bind, Option.bind_eq_some_iff, Option.some.injEq] at hs
        obtain ⟨db, hdb, rfl⟩ := hs
        exact {
          queue := Or.inl rfl
          db := Or.inr ⟨_, hdb,
            fun hvalid => ⟨draws, now, wd, workflow, roots, hvalid, hcreate, rfl⟩,
            fun _ _ ha => by simp at ha⟩ }
      · simp at hs
  | find publisher =>
      simp only [step] at hs
      split at hs
      · obtain rfl := Option.some.inj hs
        exact ⟨Or.inl rfl, Or.inl rfl⟩
      · simp at hs
  | lose publisher =>
      obtain rfl := Option.some.inj hs
      exact ⟨Or.inl rfl, Or.inl rfl⟩
  | publish publisher now =>
      simp only [step] at hs
      split at hs
      · simp at hs
      · simp only [Option.bind_eq_bind, Option.bind_eq_some_iff, Option.some.injEq] at hs
        obtain ⟨queue, hqueue, rfl⟩ := hs
        exact ⟨Or.inr ⟨_, hqueue, fun _ _ _ ha => by simp at ha⟩, Or.inl rfl⟩
  | lock w workerId skipped now =>
      simp only [step] at hs
      split at hs
      · simp only [Option.bind_eq_bind, Option.bind_eq_some_iff, Option.some.injEq] at hs
        obtain ⟨queue, hqueue, rfl⟩ := hs
        exact ⟨Or.inr ⟨_, hqueue, fun _ _ _ ha => by simp at ha⟩, Or.inl rfl⟩
      · simp at hs
  | grant w claimToken =>
      simp only [step] at hs
      split at hs
      · simp only [Option.bind_eq_bind, Option.bind_eq_some_iff, Option.some.injEq] at hs
        obtain ⟨queue, hqueue, rfl⟩ := hs
        exact ⟨Or.inr ⟨_, hqueue, fun _ _ _ ha => by simp at ha⟩, Or.inl rfl⟩
      · simp at hs
  | startTask w startedAt =>
      simp only [step] at hs
      split at hs
      · simp only [Option.bind_eq_bind, Option.bind_eq_some_iff, Option.some.injEq] at hs
        obtain ⟨_, hdb, rfl⟩ := hs
        exact ⟨Or.inl rfl, Or.inr ⟨_, hdb, fun _ => trivial, fun _ _ ha => by simp at ha⟩⟩
      · simp at hs
  | report w result completedAt =>
      simp only [step] at hs
      split at hs
      · rename_i claim untrusted task hworker
        simp only [Option.bind_eq_bind, Option.bind_eq_some_iff, Option.some.injEq] at hs
        obtain ⟨_, hdb, rfl⟩ := hs
        refine ⟨Or.inl rfl, Or.inr ⟨_, hdb, fun _ => trivial, fun u request ha => ?_⟩⟩
        obtain ⟨rfl, hcall⟩ := Sql.Action.begin.inj ha
        exact ⟨claim, untrusted, task, result, completedAt, rfl, hworker,
          completeTask_of_reportCall hcall⟩
      · simp at hs
  | statement w =>
      simp only [step, Option.bind_eq_bind, Option.bind_eq_some_iff, Option.some.injEq] at hs
      obtain ⟨_, hdb, rfl⟩ := hs
      exact ⟨Or.inl rfl, Or.inr ⟨_, hdb, fun _ => trivial, fun _ _ ha => by simp at ha⟩⟩
  | row w k =>
      simp only [step, Option.bind_eq_bind, Option.bind_eq_some_iff, Option.some.injEq] at hs
      obtain ⟨_, hdb, rfl⟩ := hs
      exact ⟨Or.inl rfl, Or.inr ⟨_, hdb, fun _ => trivial, fun _ _ ha => by simp at ha⟩⟩
  | endTransaction w =>
      simp only [step] at hs
      split at hs
      · simp only [Option.bind_eq_bind, Option.bind_eq_some_iff, Option.some.injEq] at hs
        obtain ⟨_, -, _, -, ⟨commits, _⟩, -, _, hdb, rfl⟩ := hs
        refine ⟨Or.inl rfl, Or.inr ⟨_, hdb, fun _ => ?_, fun _ _ ha => ?_⟩⟩
        · cases commits <;> trivial
        · cases commits <;> simp at ha
      · simp at hs
  | heartbeat w now =>
      simp only [step] at hs
      split at hs
      · simp only [Option.bind_eq_bind, Option.bind_eq_some_iff, Option.some.injEq] at hs
        obtain ⟨queue, hqueue, rfl⟩ := hs
        exact ⟨Or.inr ⟨_, hqueue, fun _ _ _ ha => by simp at ha⟩, Or.inl rfl⟩
      · simp at hs
  | heartbeatFailed w =>
      simp only [step] at hs
      split at hs
      · obtain rfl := Option.some.inj hs
        exact ⟨Or.inl rfl, Or.inl rfl⟩
      · simp at hs
  | dispose w now =>
      simp only [step] at hs
      split at hs
      · obtain rfl := Option.some.inj hs
        exact ⟨Or.inl rfl, Or.inl rfl⟩
      · rename_i claim result hworker
        simp only [Option.bind_eq_bind, Option.bind_eq_some_iff, Option.some.injEq] at hs
        obtain ⟨queue, hqueue, rfl⟩ := hs
        refine ⟨Or.inr ⟨_, hqueue, fun c ids t ha => ⟨w, now, result, rfl, ?_⟩⟩, Or.inl rfl⟩
        by_cases hr : result.shouldRetry = true
        · rw [if_pos hr] at ha; simp at ha
        · rw [if_neg hr] at ha
          obtain ⟨rfl, -, -⟩ := QueueAction.finish.inj ha
          exact ⟨hworker, by simpa using hr⟩
      · simp at hs
  | crash w =>
      obtain rfl := Option.some.inj hs
      constructor
      · cases hstep : p.queue.step leaseTimeout (.abort w) with
        | none => exact Or.inl rfl
        | some queue => exact Or.inr ⟨.abort w, hstep, fun _ _ _ ha => by simp at ha⟩
      · cases hstep : p.db.step Call.body (.abort w) with
        | none => exact Or.inl rfl
        | some db => exact Or.inr ⟨.abort w, hstep, fun _ => trivial, fun _ _ ha => by simp at ha⟩

/-- Who is about to finish a claim knows that the task is over. -/
theorem Sound.finishing (h : p.Sound leaseTimeout) {w : Nat} {claim : Claim}
    {result : ProcessTaskResult} (hworker : p.workers w = .processing claim false (.processed result))
    (hretry : result.shouldRetry = false) : Over p.db.store claim.taskExecutionId := by
  have hw := h.workers w
  rw [hworker] at hw
  exact hw.2.2.2.1 hretry

/-- A task that leaves the queue was finished by a worker, and is over. -/
theorem Sound.removed (h : p.Sound leaseTimeout) {action : PlatformAction}
    (hs : p.step leaseTimeout action = some p') {i : UUID} (hi : p.queue.Queued i)
    (hi' : ¬ p'.queue.Queued i) : (∃ w now, action = .dispose w now) ∧ Over p.db.store i := by
  rcases (Steps.of_step hs).queue with hsame | ⟨a, ha, hfinish⟩
  · exact absurd (hsame ▸ hi) hi'
  · rcases QueueDb.queued_after ha hi with hq | ⟨claim, ids, now, hfin, rfl⟩
    · exact absurd hq hi'
    · obtain ⟨w, now', result, haction, hworker, hretry⟩ := hfinish claim ids now hfin
      exact ⟨⟨w, now', haction⟩, h.finishing hworker hretry⟩

theorem setPublishing_self (p : Platform) (publisher : Nat) (ids : Option (List UUID)) :
    (p.setPublishing publisher ids).publishing publisher = ids :=
  Function.update_self ..

theorem step_find {publisher : Nat} (hidle : p.publishing publisher = none) :
    p.step leaseTimeout (.find publisher) =
      some (p.setPublishing publisher (some (Reconciler.find p.db.store))) := by
  simp only [step, hidle]

theorem step_publish {publisher : Nat} {ids : List UUID} {now : Datetime}
    (hids : p.publishing publisher = some ids) (hnow : p.queue.clock ≤ now) :
    p.step leaseTimeout (.publish publisher now) =
      some { p.setPublishing publisher none with
        queue := { p.queue with
          queue := PostgresExecutionQueue.enqueue p.queue.queue ids now
          clock := now } } := by
  simp [step, hids, QueueDb.step, hnow]

/-- A cycle of the reconciler with nothing in between leaves every runnable task queued. -/
theorem Sound.reconciled (h : p.Sound leaseTimeout) {publisher : Nat} {now : Datetime}
    (hidle : p.publishing publisher = none) (hnow : p.queue.clock ≤ now) :
    ∃ p', p.steps leaseTimeout [.find publisher, .publish publisher now] = some p' ∧
      p'.db = p.db ∧ ∀ i t, taskRow p.db.store i = some t →
        t.status = .running ∨ t.status = .pending ∧ ParentsCompleted p.db.store t →
        p'.queue.Queued i := by
  rw [steps, List.foldlM_cons, step_find hidle]
  simp only [List.foldlM_cons, List.foldlM_nil, Option.bind_eq_bind, Option.bind_some,
    step_publish (p.setPublishing_self publisher _)
      (show (p.setPublishing publisher _).queue.clock ≤ now from hnow),
    Option.pure_def]
  refine ⟨_, rfl, rfl, fun i t hi hrunnable => ?_⟩
  rcases hrunnable with hr | ⟨hp, hparents⟩
  · obtain ⟨entry, he, hid⟩ := h.running i t hi hr
    exact ⟨entry, PostgresExecutionQueue.mem_insertQueueEntries.mpr (Or.inl he), hid⟩
  · have hzero := ((reachable_coherent h.db).counterExact hi hp).zero_iff.mpr hparents
    exact PostgresExecutionQueue.exists_insertQueueEntries
      ((mem_find _ i).mpr ⟨t, hi, hp, hzero⟩)

end Platform

/-- What the queue and the reconciler promise the tasks that are not over. -/
structure NoWorkLost (leaseTimeout : Timedelta) (p : Platform) : Prop where
  /-- A running task is in the queue. -/
  running : ∀ i t, taskRow p.db.store i = some t → t.status = .running → p.queue.Queued i
  /-- A task leaves the queue when a worker finishes it, and is over then. -/
  removed : ∀ action p', p.step leaseTimeout action = some p' → ∀ i, p.queue.Queued i →
    ¬ p'.queue.Queued i → (∃ w now, action = .dispose w now) ∧ Over p.db.store i
  /-- Whatever row a `finish` removes, its task is over. -/
  finished : ∀ w now p' claim result, p.workers w = .processing claim false (.processed result) →
    result.shouldRetry = false → p.step leaseTimeout (.dispose w now) = some p' →
    ∀ entry ∈ p.queue.queue, claim.holds entry = true → Over p.db.store entry.taskExecutionId
  /-- One cycle of the reconciler, with an INSERT that the driver takes, leaves every task that
  can run in the queue. -/
  reconciled : ∀ publisher now, p.publishing publisher = none → p.queue.clock ≤ now →
    ∃ p', p.steps leaseTimeout [.find publisher, .publish publisher now] = some p' ∧
      p'.db = p.db ∧ ∀ i t, taskRow p.db.store i = some t →
        t.status = .running ∨ t.status = .pending ∧ ParentsCompleted p.db.store t →
        p'.queue.Queued i

/--
**No unfinished work is lost**, whatever the workers, the publishers and the
reconciler do and wherever they stop doing it.  A step that publishes is one whose INSERT the
driver takes.
-/
theorem no_work_lost {leaseTimeout : Timedelta} {p : Platform} (h : p.Reachable leaseTimeout) :
    NoWorkLost leaseTimeout p where
  running := h.sound.running
  removed := fun _ _ hs _ hi hi' => h.sound.removed hs hi hi'
  finished := by
    intro w now p' claim result hworker hretry _ entry _ hc
    rw [(Claim.holds_iff.mp hc).1]
    exact h.sound.finishing hworker hretry
  reconciled := fun _ _ hidle hnow => h.sound.reconciled hidle hnow

/-! ### A sample

The root task is processed, its children are queued, and one of them is started.
-/

def samplePlatformSteps : List PlatformAction :=
  [.start 0 { workflowExecutionId := 0, taskExecutionId := id } 0 sampleDefinition, .publish 0 1,
   .lock 0 7 [] 2, .grant 0 100, .startTask 0 10, .statement 0, .row 0 (.task 1), .statement 0,
   .endTransaction 0, .heartbeat 0 15, .report 0 { succeeded := true, output := {} } 20,
   .statement 0, .row 0 (.task 1), .statement 0, .row 0 (.task 2), .statement 0,
   .row 0 (.task 3), .statement 0, .endTransaction 0, .dispose 0 30,
   .lock 1 8 [] 31, .grant 1 101, .startTask 1 32, .statement 1, .row 1 (.task 2), .statement 1,
   .statement 1, .endTransaction 1]

/-- The state a list of steps leads to from empty stores. -/
def platformAfter (leaseTimeout : Timedelta) (actions : List PlatformAction) : Platform :=
  ((Platform.init 0).steps leaseTimeout actions).getD (Platform.init 0)

theorem Platform.Reachable.steps {leaseTimeout : Timedelta} :
    ∀ {actions : List PlatformAction} {p p' : Platform}, p.Reachable leaseTimeout →
      (∀ a ∈ actions, a.Valid) → p.steps leaseTimeout actions = some p' →
      p'.Reachable leaseTimeout := by
  intro actions
  induction actions with
  | nil =>
      intro p p' h _ hs
      simp only [Platform.steps, List.foldlM_nil, Option.pure_def, Option.some.injEq] at hs
      exact hs ▸ h
  | cons a rest ih =>
      intro p p' h hvalid hs
      simp only [Platform.steps, List.foldlM_cons, Option.bind_eq_bind,
        Option.bind_eq_some_iff] at hs
      obtain ⟨mid, hmid, hrest⟩ := hs
      exact ih (.step h a (hvalid a (by simp)) hmid) (fun b hb => hvalid b (by simp [hb])) hrest

theorem samplePlatform_reachable : (platformAfter 100 samplePlatformSteps).Reachable 100 := by
  have hsteps : ((Platform.init 0).steps 100 samplePlatformSteps).isSome = true := rfl
  obtain ⟨p, hp⟩ := Option.isSome_iff_exists.mp hsteps
  rw [platformAfter, hp, Option.getD_some]
  refine (Platform.Reachable.init 0).steps (fun a ha => ?_) hp
  simp only [samplePlatformSteps, List.mem_cons, List.not_mem_nil, or_false] at ha
  rcases ha with rfl | ha
  · exact sampleDefinition_valid
  · cases a with
    | start => simp at ha
    | _ => trivial

theorem no_work_lost_sample :
    ((platformAfter 100 samplePlatformSteps).queue.queue.map (·.taskExecutionId)) = [2, 3] ∧
      NoWorkLost 100 (platformAfter 100 samplePlatformSteps) :=
  ⟨rfl, no_work_lost samplePlatform_reachable⟩

end AutomationPlatform
