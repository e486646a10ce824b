/-
What processing a task does to the workflow it belongs to.

A worker that is alone sees a workflow as a set of tasks still to be queued, and a number of
tries for each of them.  `Tracked` says how the store, the queue and the attempts made so far
fit together: what can be worked on is queued, what is queued is ready, and the tries a task
has left are those that its attempts have not used.

The measure gives an open task its remaining tries and one for its row in the queue, and a task
that is over one as long as it still has such a row.  Processing a queued task lowers it:

    completed         its tries and its row go, and rows of open tasks that come are paid for
    to be retried     one try goes
    failed            its tries and its row go, and so do the tries of all it cancels
    over before       its row goes
-/
import AutomationPlatform.Proofs.Executions.Progress
import AutomationPlatform.Proofs.Platform.Sound
import AutomationPlatform.Runtime.Worker
import Mathlib.Algebra.Order.BigOperators.Group.List

namespace AutomationPlatform

open WorkflowExecutionRepository

/-! ### Tries -/

/-- The first attempts at a task fail. -/
def Fails (outcome : Nat → TaskResult) (attempts : Nat) : Prop :=
  ∀ k < attempts, (outcome k).succeeded = false

theorem Fails.succ {outcome : Nat → TaskResult} {attempts : Nat} (h : Fails outcome attempts)
    (hfailed : (outcome attempts).succeeded = false) : Fails outcome (attempts + 1) := by
  intro k hk
  rcases Nat.lt_succ_iff_lt_or_eq.mp hk with hlt | rfl
  · exact h k hlt
  · exact hfailed

/-- A row and the attempts that were made at its task. -/
structure Attempted (outcome : Nat → TaskResult) (maxTries : Int) (attempts : Nat)
    (t : TaskExecutionModel) : Prop where
  unfinished : t.status.isTerminal = false →
    t.remainingTries + attempts = maxTries ∧ Fails outcome attempts
  completed : t.status = .completed →
    ∃ k : Nat, attempts = k + 1 ∧ (attempts : Int) ≤ maxTries ∧ (outcome k).succeeded = true
  failed : t.status = .failed →
    t.remainingTries = 0 ∧ (attempts : Int) = maxTries ∧ Fails outcome attempts
  cancelled : t.status = .cancelled → (attempts : Int) ≤ maxTries

section Attempted

variable {outcome : Nat → TaskResult} {maxTries : Int} {attempts : Nat}
  {t t' : TaskExecutionModel}

theorem Attempted.of_same (h : Attempted outcome maxTries attempts t)
    (hstatus : t'.status = t.status) (htries : t'.remainingTries = t.remainingTries) :
    Attempted outcome maxTries attempts t' := by
  refine ⟨?_, ?_, ?_, ?_⟩ <;> rw [hstatus]
  · rw [htries]
    exact h.unfinished
  · exact h.completed
  · rw [htries]
    exact h.failed
  · exact h.cancelled

theorem attempted_open (hopen : t.status.isTerminal = false)
    (htries : t.remainingTries + attempts = maxTries) (hfails : Fails outcome attempts) :
    Attempted outcome maxTries attempts t := by
  refine ⟨fun _ => ⟨htries, hfails⟩, ?_, ?_, ?_⟩ <;> intro hc <;> rw [hc] at hopen <;>
    simp [TaskStatus.isTerminal] at hopen

theorem attempted_completed (hstatus : t.status = .completed) (hle : (attempts : Int) + 1 ≤ maxTries)
    (hsucceeded : (outcome attempts).succeeded = true) :
    Attempted outcome maxTries (attempts + 1) t := by
  refine ⟨?_, fun _ => ⟨attempts, rfl, by exact_mod_cast hle, hsucceeded⟩, ?_, ?_⟩ <;> intro hc <;>
    rw [hstatus] at hc <;> simp [TaskStatus.isTerminal] at hc

theorem attempted_failed (hstatus : t.status = .failed) (htries : t.remainingTries = 0)
    (hall : (attempts : Int) = maxTries) (hfails : Fails outcome attempts) :
    Attempted outcome maxTries attempts t := by
  refine ⟨?_, ?_, fun _ => ⟨htries, hall, hfails⟩, ?_⟩ <;> intro hc <;> rw [hstatus] at hc <;>
    simp [TaskStatus.isTerminal] at hc

theorem attempted_cancelled (hstatus : t.status = .cancelled) (hle : (attempts : Int) ≤ maxTries) :
    Attempted outcome maxTries attempts t := by
  refine ⟨?_, ?_, ?_, fun _ => hle⟩ <;> intro hc <;> rw [hstatus] at hc <;>
    simp [TaskStatus.isTerminal] at hc

/-- Nobody makes more attempts than there are tries. -/
theorem Attempted.le (h : Attempted outcome maxTries attempts t) (hok : t.Ok) :
    (attempts : Int) ≤ maxTries := by
  cases hs : t.status with
  | completed =>
      obtain ⟨_, -, hle, -⟩ := h.completed hs
      exact hle
  | failed => exact (h.failed hs).2.1.le
  | cancelled => exact h.cancelled hs
  | _ =>
      have hopen : t.status.isTerminal = false := by rw [hs]; rfl
      have htries := hok.tries hopen
      have hleft := (h.unfinished hopen).1
      omega

end Attempted

/-! ### What a call makes of the other tasks -/

/-- A task that a call is not about goes on as it was, or is cancelled. -/
inductive Beside (t t' : TaskExecutionModel) : Prop
  | kept (hstatus : t'.status = t.status) (htries : t'.remainingTries = t.remainingTries)
  | cancelled (hopen : t.status.isTerminal = false) (hstatus : t'.status = .cancelled)

section Calls

variable {s s' : ExecutionStore} {call : Call} {r : Except String CallResult} {j : UUID}
  {t t' : TaskExecutionModel}

theorem Alone.beside (h : Alone s call r s') (hj : j ≠ call.taskExecutionId)
    (ht : taskRow s j = some t) (ht' : taskRow s' j = some t') : Beside t t' := by
  have hsame : taskRow s j = some t' → Beside t t' := by
    intro hkept
    obtain rfl : t = t' := Option.some.inj (ht.symm.trans hkept)
    exact .kept rfl rfl
  have hmapped : ∀ {change : Change}, s' = s.mapRows change → change (.task j) t = t' := by
    rintro change rfl
    rw [taskRow_mapRows, ht, Option.map_some, Option.some.injEq] at ht'
    exact ht'
  cases h with
  | startRefused => exact hsame ht'
  | startRaised => exact hsame ht'
  | startResumed => exact hsame ht'
  | completeMissed => exact hsame ht'
  | retryMissed => exact hsame ht'
  | startTaken =>
      have hchange := hmapped rfl
      simp only [Call.taskExecutionId] at hj
      rw [startChange, if_neg hj] at hchange
      exact hchange ▸ .kept rfl rfl
  | completeDone hrow _ =>
      have hchange := hmapped rfl
      rcases completeChange_cases _ hrow ht with ⟨hid, -, -⟩ | ⟨-, -, -, hc⟩ | ⟨-, -, hc⟩
      · exact absurd hid hj
      · exact (hc.symm.trans hchange) ▸ .kept rfl rfl
      · exact (hc.symm.trans hchange) ▸ .kept rfl rfl
  | retryAgain =>
      have hchange := hmapped rfl
      simp only [Call.taskExecutionId] at hj
      rw [retryChange, if_neg hj] at hchange
      exact hchange ▸ .kept rfl rfl
  | retryFailed hrow _ _ =>
      have hchange := hmapped rfl
      rcases failChange_cases hrow ht with ⟨hid, -, -⟩ | ⟨-, -, hopen, hc⟩ | ⟨-, -, hc⟩
      · exact absurd hid hj
      · exact (hc.symm.trans hchange) ▸ .cancelled hopen rfl
      · exact (hc.symm.trans hchange) ▸ .kept rfl rfl

/-- No task becomes pending again. -/
theorem StatusMove.not_pending (status : TaskStatus) : ¬ StatusMove status .pending := by
  intro h
  cases h

/-- What can be worked on after a call could be before, or was handed out by it. -/
theorem workable_before (hs : Coherent s) {result : CallResult} (h : Alone s call (.ok result) s')
    (hj : Workable s' j) (hcall : call.taskExecutionId = j → Workable s j) :
    Workable s j ∨ j ∈ handedOut (.committed call result s s s') := by
  obtain ⟨t', ht', hworks⟩ := hj
  rcases hworks with hrunning | ⟨hpending, hzero⟩
  · rcases h.effect.running ht' hrunning with ⟨t, ht, hr⟩ | ⟨startedAt, rfl⟩
    · exact Or.inl ⟨t, ht, Or.inl hr⟩
    · exact Or.inl (hcall rfl)
  · obtain ⟨t, ht, hmove⟩ := (h.move hs).before ht'
    have hp : t.status = .pending := by
      rcases hmove.status with hsame | hmoved
      · exact hsame.symm.trans hpending
      · rw [hpending] at hmoved
        exact absurd hmoved (StatusMove.not_pending _)
    by_cases hdone : ParentsCompleted s t
    · exact Or.inl ⟨t, ht, Or.inr ⟨hp, (hs.counterExact ht hp).zero_iff.mpr hdone⟩⟩
    · -- So it is this call that completed the last parent.
      refine Or.inr ((mem_handedOut hs h.effect).mpr ⟨t, ht, hp, ?_, hdone, fun p hpar => ?_⟩)
      · rintro hnil
        exact hdone fun p hpar => by simp [hnil] at hpar
      · have hparents := ((h.coherent hs).counterExact ht' hpending).zero_iff.mp hzero
        exact hparents p (hmove.same.parentTaskIds ▸ hpar)

/-- What a call hands out depends on the task it is about. -/
theorem handedOut_parent (hs : Coherent s) {result : CallResult}
    (h : Alone s call (.ok result) s') (hj : j ∈ handedOut (.committed call result s s s')) :
    ∃ t, taskRow s j = some t ∧ call.taskExecutionId ∈ t.parentTaskIds := by
  obtain ⟨t, ht, -, -, hbefore, hafter⟩ := (mem_handedOut hs h.effect).mp hj
  simp only [ParentsCompleted, not_forall, Bool.not_eq_true] at hbefore
  obtain ⟨p, hp, hopen⟩ := hbefore
  have hdone := hafter p hp
  rw [h.completes, hopen, Bool.false_or, Bool.and_eq_true, beq_iff_eq] at hdone
  exact ⟨t, ht, hdone.2 ▸ hp⟩

/-- It was pending, and is ready now. -/
theorem handedOut_open (hs : Coherent s) {result : CallResult} (h : Alone s call (.ok result) s')
    (hj : j ∈ handedOut (.committed call result s s s')) :
    Ready s' j ∧ ∃ t, taskRow s j = some t ∧ t.status = .pending := by
  obtain ⟨t, ht, hp, -, -, hparents⟩ := (mem_handedOut hs h.effect).mp hj
  obtain ⟨t', ht', hmove⟩ := (h.move hs).task j t ht
  refine ⟨⟨t', ht', fun p hpar => ?_⟩, t, ht, hp⟩
  rw [hmove.same.parentTaskIds] at hpar
  exact hparents p hpar

theorem Ready.move (hmove : StoreMove s s') (hj : Ready s j) : Ready s' j := by
  obtain ⟨t, ht, hparents⟩ := hj
  obtain ⟨t', ht', htm⟩ := hmove.task j t ht
  refine ⟨t', ht', fun p hpar => ?_⟩
  rw [htm.same.parentTaskIds] at hpar
  exact hmove.completed (hparents p hpar)

end Calls

/-! ### A workflow and its queue -/

/-- A workflow as a worker by itself finds it between two calls: which of its tasks are queued,
and how often each of them was attempted. -/
structure Tracked (outcome : UUID → Nat → TaskResult) (maxTries : UUID → Int) (workflowId : UUID)
    (ids : List UUID) (s : ExecutionStore) (queued : List UUID) (attempts : UUID → Nat) :
    Prop where
  executing : Executing s workflowId ids
  ready : ∀ i ∈ queued, i ∈ ids ∧ Ready s i
  workable : ∀ i ∈ ids, Workable s i → i ∈ queued
  attempted : ∀ i ∈ ids, ∀ t, taskRow s i = some t →
    Attempted (outcome i) (maxTries i) (attempts i) t

/-- What a task may still cost. -/
def weight (s : ExecutionStore) (queued : List UUID) (i : UUID) : Nat :=
  (taskRow s i).elim 0 fun t =>
    if t.status.isTerminal then (if i ∈ queued then 1 else 0) else t.remainingTries.toNat + 1

/-- What the tasks may still cost together. -/
def remaining (s : ExecutionStore) (queued ids : List UUID) : Nat :=
  (ids.map (weight s queued)).sum

/-- What is queued when a task has been processed with this result. -/
def Left (queued : List UUID) (i : UUID) (result : ProcessTaskResult) (queued' : List UUID) :
    Prop :=
  ∀ j, j ∈ queued' ↔
    if result.shouldRetry then j ∈ queued else (j ∈ queued ∧ j ≠ i) ∨ j ∈ result.enqueueTaskIds

section Weight

variable {s s' : ExecutionStore} {queued queued' ids : List UUID} {i : UUID}
  {t t' : TaskExecutionModel}

theorem weight_open (ht : taskRow s i = some t) (hopen : t.status.isTerminal = false) :
    weight s queued i = t.remainingTries.toNat + 1 := by
  simp [weight, ht, hopen]

theorem weight_over (ht : taskRow s i = some t) (hover : t.status.isTerminal = true) :
    weight s queued i = if i ∈ queued then 1 else 0 := by
  simp [weight, ht, hover]

theorem Beside.weight_le (h : Beside t t') (ht : taskRow s i = some t)
    (ht' : taskRow s' i = some t')
    (hqueued : t.status.isTerminal = true → i ∈ queued' → i ∈ queued) :
    weight s' queued' i ≤ weight s queued i := by
  cases h with
  | kept hstatus htries =>
      cases hs : t.status.isTerminal with
      | true =>
          rw [weight_over ht hs, weight_over ht' (by rw [hstatus, hs])]
          have hmem := hqueued hs
          split <;> split <;> simp_all
      | false =>
          rw [weight_open ht hs, weight_open ht' (by rw [hstatus, hs]), htries]
  | cancelled hopen hstatus =>
      rw [weight_open ht hopen, weight_over ht' (by rw [hstatus]; rfl)]
      split <;> omega

theorem remaining_lt (hi : i ∈ ids) (hle : ∀ j ∈ ids, weight s' queued' j ≤ weight s queued j)
    (hlt : weight s' queued' i < weight s queued i) :
    remaining s' queued' ids < remaining s queued ids :=
  List.sum_lt_sum _ _ hle ⟨i, hi, hlt⟩

end Weight

namespace Tracked

variable {outcome : UUID → Nat → TaskResult} {maxTries : UUID → Int} {workflowId : UUID}
  {ids queued queued' : List UUID} {s s' : ExecutionStore} {attempts attempts' : UUID → Nat}
  {i : UUID} {t t' : TaskExecutionModel} {call : Call} {r : CallResult}

/-- A call on one task keeps track of all the others. -/
theorem step (h : Tracked outcome maxTries workflowId ids s queued attempts)
    (halone : Alone s call (.ok r) s') (hcall : call.taskExecutionId = i) (hi : i ∈ ids)
    (hqueued : ∀ j, j ≠ i → (j ∈ queued' ↔ j ∈ queued ∨ j ∈ handedOut (.committed call r s s s')))
    (hself : i ∈ queued' → i ∈ queued) (hworkable : Workable s' i → i ∈ queued')
    (hattempted : ∀ t', taskRow s' i = some t' →
      Attempted (outcome i) (maxTries i) (attempts' i) t')
    (hattempts : ∀ j, j ≠ i → attempts' j = attempts j) :
    Tracked outcome maxTries workflowId ids s' queued' attempts' ∧
      ∀ j ∈ ids, j ≠ i → weight s' queued' j ≤ weight s queued j := by
  have hs := h.executing.coherent
  have hmove := halone.move hs
  have hhanded : ∀ j, j ∈ handedOut (.committed call r s s s') → j ∈ ids := by
    intro j hj
    obtain ⟨t, ht, hparent⟩ := handedOut_parent hs halone hj
    obtain ⟨tp, htp, hw, -⟩ := hs.parents j t ht _ hparent
    rw [hcall] at htp
    exact (h.executing.tasks j t ht).mp (hw.symm.trans ((h.executing.tasks i tp htp).mpr hi))
  refine ⟨⟨h.executing.step halone, ?_, ?_, ?_⟩, ?_⟩
  · intro j hj
    by_cases hji : j = i
    · subst hji
      exact ⟨hi, (h.ready j (hself hj)).2.move hmove⟩
    · rcases (hqueued j hji).mp hj with hold | hnew
      · exact ⟨(h.ready j hold).1, (h.ready j hold).2.move hmove⟩
      · exact ⟨hhanded j hnew, (handedOut_open hs halone hnew).1⟩
  · intro j hj hw
    by_cases hji : j = i
    · subst hji
      exact hworkable hw
    · refine (hqueued j hji).mpr ?_
      rcases workable_before hs halone hw fun heq => absurd (heq.symm.trans hcall) hji with
        hold | hnew
      · exact Or.inl (h.workable j hj hold)
      · exact Or.inr hnew
  · intro j hj t' ht'
    by_cases hji : j = i
    · subst hji
      exact hattempted t' ht'
    · obtain ⟨t, ht, -⟩ := hmove.before ht'
      have hold := h.attempted j hj t ht
      rw [hattempts j hji]
      cases halone.beside (hcall ▸ hji) ht ht' with
      | kept hstatus htries => exact hold.of_same hstatus htries
      | cancelled hopen hstatus =>
          exact attempted_cancelled hstatus (hold.le (hs.ok j t ht))
  · intro j hj hji
    obtain ⟨t, ht⟩ := Option.isSome_iff_exists.mp (h.executing.stored j hj)
    obtain ⟨t', ht', -⟩ := hmove.task j t ht
    refine (halone.beside (hcall ▸ hji) ht ht').weight_le ht ht' fun hover hmem => ?_
    rcases (hqueued j hji).mp hmem with hold | hnew
    · exact hold
    · obtain ⟨u, hu, hp⟩ := (handedOut_open hs halone hnew).2
      obtain rfl : t = u := Option.some.inj (ht.symm.trans hu)
      rw [hp] at hover
      simp [TaskStatus.isTerminal] at hover

/-- A queued task that is not over is taken up. -/
theorem start (h : Tracked outcome maxTries workflowId ids s queued attempts) (hi : i ∈ queued)
    (ht : taskRow s i = some t) (hopen : t.status.isTerminal = false) (startedAt : Datetime) :
    ∃ s' task t', TaskProcessingService.startTask s i startedAt = (s', .ok (some task)) ∧
      Tracked outcome maxTries workflowId ids s' queued attempts ∧
      taskRow s' i = some t' ∧ t'.status = .running ∧
      ∀ j ∈ ids, weight s' queued j ≤ weight s queued j := by
  have hs := h.executing.coherent
  obtain ⟨hmem, u, hu, hparents⟩ := h.ready i hi
  obtain rfl : t = u := Option.some.inj (ht.symm.trans hu)
  obtain ⟨outputs, houtputs⟩ := collectOutputs_completed hs hparents
  have hstart : ∀ {s'}, Alone s (.startTask i startedAt)
      (.ok (.started (some (t.startResult outputs)))) s' →
      TaskProcessingService.startTask s i startedAt = (s', .ok (some (t.startResult outputs))) := by
    intro s' halone
    unfold TaskProcessingService.startTask
    rw [halone.exec hs]
  rcases TaskStatus.not_terminal_iff.mp hopen with hpending | hrunning
  · have halone : Alone s (.startTask i startedAt) _ _ := .startTaken ht hpending houtputs
    have ht' : taskRow (s.mapRows (startChange i startedAt)) i = some (t.start startedAt) := by
      rw [taskRow_mapRows, ht, Option.map_some, startChange, if_pos rfl]
    have hstarted : Attempted (outcome i) (maxTries i) (attempts i) (t.start startedAt) := by
      obtain ⟨htries, hfails⟩ := (h.attempted i hmem t ht).unfinished hopen
      exact attempted_open rfl htries hfails
    obtain ⟨htracked, hothers⟩ : Tracked outcome maxTries workflowId ids
        (s.mapRows (startChange i startedAt)) queued attempts ∧ ∀ j ∈ ids, j ≠ i →
          weight (s.mapRows (startChange i startedAt)) queued j ≤ weight s queued j := by
      refine h.step halone rfl hmem (fun j _ => ?_) (fun hq => hq) (fun _ => hi) (fun u hu => ?_)
        fun _ _ => rfl
      · simp [handedOut]
      · obtain rfl := Option.some.inj (ht'.symm.trans hu)
        exact hstarted
    refine ⟨_, _, _, hstart halone, htracked, ht', rfl, fun j hj => ?_⟩
    by_cases hji : j = i
    · subst hji
      rw [weight_open ht hopen, weight_open ht' rfl]
      rfl
    · exact hothers j hj hji
  · exact ⟨s, _, t, hstart (.startResumed ht hrunning houtputs), h, ht, hrunning,
      fun _ _ => le_rfl⟩

/-- What has to be said of an attempt: how it leaves its own task. -/
theorem reported (h : Tracked outcome maxTries workflowId ids s queued attempts) (hi : i ∈ queued)
    (halone : Alone s call (.ok r) s') (hcall : call.taskExecutionId = i)
    (hhanded : ∀ j, j ∈ handedOut (.committed call r s s s') ↔
      j ∈ (TaskProcessingService.processResult r).enqueueTaskIds)
    (ht : taskRow s i = some t) (hrunning : t.status = .running) (ht' : taskRow s' i = some t')
    (hattempted : Attempted (outcome i) (maxTries i) (attempts i + 1) t')
    (hcost : (t'.status.isTerminal = true ∧
        (TaskProcessingService.processResult r).shouldRetry = false) ∨
      (t'.status = .running ∧ (TaskProcessingService.processResult r).shouldRetry = true ∧
        (TaskProcessingService.processResult r).enqueueTaskIds = [] ∧
        t'.remainingTries.toNat < t.remainingTries.toNat))
    (hleft : Left queued i (TaskProcessingService.processResult r) queued') :
    Tracked outcome maxTries workflowId ids s' queued'
        (Function.update attempts i (attempts i + 1)) ∧
      remaining s' queued' ids < remaining s queued ids := by
  have hs := h.executing.coherent
  have hmem := (h.ready i hi).1
  -- The task itself was running, so the call does not hand it out.
  have hnot : i ∉ handedOut (.committed call r s s s') := by
    intro hnew
    obtain ⟨u, hu, hp⟩ := (handedOut_open hs halone hnew).2
    obtain rfl : t = u := Option.some.inj (ht.symm.trans hu)
    rw [hrunning] at hp
    simp at hp
  have hqueued : ∀ j, j ≠ i →
      (j ∈ queued' ↔ j ∈ queued ∨ j ∈ handedOut (.committed call r s s s')) := by
    intro j hji
    rw [hleft j, hhanded j]
    rcases hcost with ⟨-, hretry⟩ | ⟨-, hretry, hnone, -⟩
    · simp [hretry, hji]
    · simp [hretry, hnone]
  have hself : Workable s' i → i ∈ queued' := by
    intro ⟨u, hu, hworks⟩
    obtain rfl : t' = u := Option.some.inj (ht'.symm.trans hu)
    rcases hcost with ⟨hover, -⟩ | ⟨-, hretry, -, -⟩
    · rcases hworks with hr | ⟨hp, -⟩
      · rw [hr] at hover; simp [TaskStatus.isTerminal] at hover
      · rw [hp] at hover; simp [TaskStatus.isTerminal] at hover
    · rw [hleft i, hretry, if_pos rfl]
      exact hi
  obtain ⟨htracked, hothers⟩ : Tracked outcome maxTries workflowId ids s' queued'
      (Function.update attempts i (attempts i + 1)) ∧
        ∀ j ∈ ids, j ≠ i → weight s' queued' j ≤ weight s queued j := by
    refine h.step halone hcall hmem hqueued (fun _ => hi) hself (fun u hu => ?_) fun j hji =>
      Function.update_of_ne hji _ _
    obtain rfl : t' = u := Option.some.inj (ht'.symm.trans hu)
    rw [Function.update_self]
    exact hattempted
  have hlt : weight s' queued' i < weight s queued i := by
    rw [weight_open ht (by rw [hrunning]; rfl)]
    rcases hcost with ⟨hover, hretry⟩ | ⟨hr, -, -, htries⟩
    · have hgone : i ∉ queued' := by
        rw [hleft i, hretry, ← hhanded i]
        simp [hnot]
      rw [weight_over ht' hover, if_neg hgone]
      omega
    · rw [weight_open ht' (by rw [hr]; rfl)]
      omega
  refine ⟨htracked, remaining_lt hmem (fun j hj => ?_) hlt⟩
  by_cases hji : j = i
  · exact hji ▸ hlt.le
  · exact hothers j hj hji

/-- What the plugin returned for a running task is reported. -/
theorem report (h : Tracked outcome maxTries workflowId ids s queued attempts) (hi : i ∈ queued)
    (ht : taskRow s i = some t) (hrunning : t.status = .running) (completedAt : Datetime) :
    ∃ s' r, (TaskProcessingService.reportCall i (outcome i (attempts i)) completedAt).body.exec s =
        (s', .ok r) ∧
      ∀ queued', Left queued i (TaskProcessingService.processResult r) queued' →
        Tracked outcome maxTries workflowId ids s' queued'
            (Function.update attempts i (attempts i + 1)) ∧
          remaining s' queued' ids < remaining s queued ids := by
  have hs := h.executing.coherent
  have hopen : t.status.isTerminal = false := by rw [hrunning]; rfl
  have htries := (hs.ok i t ht).tries hopen
  obtain ⟨hleft, hfails⟩ := (h.attempted i (h.ready i hi).1 t ht).unfinished hopen
  cases hresult : (outcome i (attempts i)).succeeded with
  | true =>
      obtain ⟨request, hrequest, hcall⟩ : ∃ request : CompleteTaskExecutionRequest,
          request.taskExecutionId = i ∧
          TaskProcessingService.reportCall i (outcome i (attempts i)) completedAt =
            .completeTask request :=
        ⟨_, rfl, by rw [TaskProcessingService.reportCall, if_pos hresult]⟩
      subst hrequest
      have halone := Alone.completeDone ht hrunning
      have ht' : ∀ finished, taskRow (s.mapRows (completeChange request t finished))
          request.taskExecutionId = some (t.complete request) := by
        intro finished
        rw [taskRow_mapRows, ht, Option.map_some, completeChange, if_pos rfl]
      refine ⟨_, _, hcall ▸ halone.exec hs, fun queued' hqueued => ?_⟩
      exact h.reported hi halone rfl (fun _ => Iff.rfl) ht hrunning (ht' _)
        (attempted_completed rfl (by omega) hresult) (Or.inl ⟨rfl, rfl⟩) hqueued
  | false =>
      obtain ⟨request, hrequest, hcall⟩ : ∃ request : RetryTaskExecutionRequest,
          request.taskExecutionId = i ∧
          TaskProcessingService.reportCall i (outcome i (attempts i)) completedAt =
            .retryTask request :=
        ⟨_, rfl, by rw [TaskProcessingService.reportCall, if_neg (by simp [hresult])]⟩
      subst hrequest
      have hfailed := hfails.succ hresult
      have hnone : ∀ {s' : ExecutionStore} {r : RetryTaskExecutionResult} (j : UUID),
          j ∈ handedOut (.committed (.retryTask request) (.retried r) s s s') ↔
            j ∈ (TaskProcessingService.processResult (.retried r)).enqueueTaskIds := by
        intro s' r j
        simp [handedOut, TaskProcessingService.processResult]
      by_cases hmore : 1 < t.remainingTries
      · have halone := Alone.retryAgain ht hrunning hmore
        have ht' : taskRow (s.mapRows (retryChange request)) request.taskExecutionId =
            some (t.again request) := by
          rw [taskRow_mapRows, ht, Option.map_some, retryChange, if_pos rfl]
        have htries' : (t.again request).remainingTries = t.remainingTries - 1 := rfl
        refine ⟨_, _, hcall ▸ halone.exec hs, fun queued' hqueued => ?_⟩
        exact h.reported hi halone rfl hnone ht hrunning ht'
          (attempted_open rfl (by push_cast; omega) hfailed)
          (Or.inr ⟨rfl, rfl, rfl, by omega⟩) hqueued
      · have hlast : t.remainingTries = 1 := by omega
        have halone := Alone.retryFailed ht hrunning hlast
        have ht' : taskRow (s.mapRows (failChange request t.workflowExecutionId))
            request.taskExecutionId = some (t.fail request) := by
          rw [taskRow_mapRows, ht, Option.map_some, failChange, if_pos rfl]
        have htries' : (t.fail request).remainingTries = t.remainingTries - 1 := rfl
        refine ⟨_, _, hcall ▸ halone.exec hs, fun queued' hqueued => ?_⟩
        exact h.reported hi halone rfl hnone ht hrunning ht'
          (attempted_failed rfl (by omega) (by push_cast; omega) hfailed) (Or.inl ⟨rfl, rfl⟩) hqueued

/-- A queued task that is over is dropped from the queue. -/
theorem drop (h : Tracked outcome maxTries workflowId ids s queued attempts) (hi : i ∈ queued)
    (ht : taskRow s i = some t) (hover : t.status.isTerminal = true)
    (hleft : Left queued i {} queued') :
    Tracked outcome maxTries workflowId ids s queued' attempts ∧
      remaining s queued' ids < remaining s queued ids := by
  have hqueued : ∀ j, j ∈ queued' ↔ j ∈ queued ∧ j ≠ i := by
    intro j
    simpa using hleft j
  have hlt : weight s queued' i < weight s queued i := by
    rw [weight_over ht hover, weight_over ht hover, if_pos hi, if_neg (by simp [hqueued])]
    omega
  refine ⟨⟨h.executing, ?_, ?_, h.attempted⟩, remaining_lt (h.ready i hi).1 (fun j hj => ?_) hlt⟩
  · intro j hj
    exact h.ready j ((hqueued j).mp hj).1
  · intro j hj hworkable
    refine (hqueued j).mpr ⟨h.workable j hj hworkable, ?_⟩
    rintro rfl
    obtain ⟨u, hu, hworks⟩ := hworkable
    obtain rfl : t = u := Option.some.inj (ht.symm.trans hu)
    rcases hworks with hr | ⟨hp, -⟩
    · rw [hr] at hover; simp [TaskStatus.isTerminal] at hover
    · rw [hp] at hover; simp [TaskStatus.isTerminal] at hover
  · obtain ⟨u, hu⟩ := Option.isSome_iff_exists.mp (h.executing.stored j hj)
    exact (Beside.kept rfl rfl).weight_le hu hu fun _ hmem => ((hqueued j).mp hmem).1

/-- **Processing a queued task.**  A task that is over is dropped, and any other is attempted
once; either way it lowers what remains. -/
theorem process (h : Tracked outcome maxTries workflowId ids s queued attempts) (hi : i ∈ queued)
    (startedAt completedAt : Datetime) :
    ∃ t s' executed r, taskRow s i = some t ∧
      TaskProcessingService.process (fun _ => .ok (outcome i (attempts i))) s i startedAt
        completedAt = { executions := s', executed := executed, result := .ok r } ∧
      (executed = if t.status.isTerminal then none else some (outcome i (attempts i))) ∧
      ∀ queued', Left queued i r queued' →
        Tracked outcome maxTries workflowId ids s' queued'
            (if t.status.isTerminal then attempts
              else Function.update attempts i (attempts i + 1)) ∧
          remaining s' queued' ids < remaining s queued ids := by
  have hs := h.executing.coherent
  obtain ⟨hmem, t, ht, -⟩ := h.ready i hi
  unfold TaskProcessingService.process
  cases hstatus : t.status.isTerminal with
  | true =>
      have halone : Alone s (.startTask i startedAt) (.ok (.started none)) s := by
        refine .startRefused fun u hu => ?_
        obtain rfl : t = u := Option.some.inj (ht.symm.trans hu)
        exact hstatus
      have hstart : TaskProcessingService.startTask s i startedAt = (s, .ok none) := by
        unfold TaskProcessingService.startTask
        rw [halone.exec hs]
      rw [hstart]
      exact ⟨t, s, none, {}, ht, rfl, by rw [hstatus]; rfl, fun queued' hleft => by
        rw [hstatus]; exact h.drop hi ht hstatus hleft⟩
  | false =>
      obtain ⟨s₁, task, t₁, hstart, htracked, ht₁, hrunning, hle⟩ := h.start hi ht hstatus startedAt
      obtain ⟨s', r, hexec, hreported⟩ := htracked.report hi ht₁ hrunning completedAt
      rw [hstart]
      refine ⟨t, s', some (outcome i (attempts i)), TaskProcessingService.processResult r, ht, ?_,
        by rw [hstatus]; rfl, fun queued' hleft => ?_⟩
      · dsimp only
        rw [hexec]
        rfl
      · obtain ⟨hafter, hlt⟩ := hreported queued' hleft
        rw [hstatus]
        exact ⟨hafter, hlt.trans_le (List.sum_le_sum hle)⟩

end Tracked

end AutomationPlatform
