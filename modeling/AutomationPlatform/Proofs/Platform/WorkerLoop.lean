/-
One worker by itself brings a workflow to its end.

Between two rounds nobody holds a row of the queue, and within a round the worker holds the one
of its claim until it gives it back or removes it.  So a claim finds a row as long as there is
one, and the heartbeats of the worker never fail.

Every round that finds a row processes its task, which lowers what remains.  When no row is left
there is no task to work on, and a workflow without one is over.
-/
import AutomationPlatform.Proofs.Executions.Attempts
import AutomationPlatform.Proofs.Executions.Failure
import AutomationPlatform.Proofs.Queue.Lease
import Mathlib.Algebra.BigOperators.Group.Finset.Basic
import Mathlib.Algebra.BigOperators.Ring.Finset
import Mathlib.Algebra.Order.BigOperators.Group.Finset

namespace AutomationPlatform

/-! ### The queue in a round -/

namespace PostgresExecutionQueue

/-- The task executions in the queue. -/
def taskIds (queue : ExecutionQueue) : List UUID := queue.map (·.taskExecutionId)

/-- The rows between two rounds. -/
structure Unclaimed (queue : ExecutionQueue) : Prop where
  distinct : (taskIds queue).Nodup
  free : ∀ entry ∈ queue, entry.claimedBy = none

/-- The rows while the worker has a claim. -/
structure Held (queue : ExecutionQueue) (claim : Claim) : Prop where
  distinct : (taskIds queue).Nodup
  free : ∀ entry ∈ queue, entry.taskExecutionId ≠ claim.taskExecutionId → entry.claimedBy = none
  holds : ∀ entry ∈ queue, entry.taskExecutionId = claim.taskExecutionId → claim.holds entry = true
  mem : claim.taskExecutionId ∈ taskIds queue

variable {queue rows : ExecutionQueue} {claim : Claim} {leaseTimeout : Timedelta}
  {workerId claimToken : UUID} {now : Datetime}

theorem mem_taskIds {i : UUID} : i ∈ taskIds queue ↔ ∃ entry ∈ queue, entry.taskExecutionId = i :=
  List.mem_map

theorem Unclaimed.perm (h : Unclaimed queue) (hperm : rows.Perm queue) : Unclaimed rows where
  distinct := (hperm.map _).nodup_iff.mpr h.distinct
  free := fun entry he => h.free entry (hperm.mem_iff.mp he)

/-- Where nobody holds a row, a claim finds one if there is one. -/
theorem claim_none (h : Unclaimed rows)
    (hclaim : PostgresExecutionQueue.claim leaseTimeout rows workerId claimToken now = none) :
    rows = [] := by
  unfold PostgresExecutionQueue.claim select at hclaim
  rw [Option.map_eq_none_iff, List.head?_eq_none_iff] at hclaim
  have hall : rows.filter (fun entry => entry.claimable (now - leaseTimeout) && !false) = rows := by
    refine List.filter_eq_self.mpr fun entry he => ?_
    simp [QueueEntryModel.claimable, h.free entry he]
  rw [hall, ← List.length_eq_zero_iff, List.length_insertionSort, List.length_eq_zero_iff] at hclaim
  exact hclaim

/-- A statement that updates rows leaves the claim held, if it does so row by row. -/
theorem held_map {f : QueueEntryModel → QueueEntryModel}
    (hid : ∀ entry, (f entry).taskExecutionId = entry.taskExecutionId)
    (hdistinct : (taskIds rows).Nodup) (hmem : claim.taskExecutionId ∈ taskIds rows)
    (hother : ∀ entry ∈ rows, entry.taskExecutionId ≠ claim.taskExecutionId →
      (f entry).claimedBy = none)
    (hown : ∀ entry ∈ rows, entry.taskExecutionId = claim.taskExecutionId →
      claim.holds (f entry) = true) :
    Held (rows.map f) claim ∧ taskIds (rows.map f) = taskIds rows := by
  have hids : taskIds (rows.map f) = taskIds rows := map_ids hid rows
  refine ⟨⟨hids ▸ hdistinct, ?_, ?_, hids ▸ hmem⟩, hids⟩
  · intro entry he hne
    obtain ⟨old, hold, rfl⟩ := List.mem_map.mp he
    rw [hid] at hne
    exact hother old hold hne
  · intro entry he heq
    obtain ⟨old, hold, rfl⟩ := List.mem_map.mp he
    rw [hid] at heq
    exact hown old hold heq

/-- A claim holds its row, and no other row is held. -/
theorem claim_some (h : Unclaimed rows)
    (hclaim : PostgresExecutionQueue.claim leaseTimeout rows workerId claimToken now =
      some (claim, queue)) : Held queue claim ∧ taskIds queue = taskIds rows := by
  unfold PostgresExecutionQueue.claim at hclaim
  obtain ⟨entry, hselect, hclaim⟩ := Option.map_eq_some_iff.mp hclaim
  obtain ⟨rfl, rfl⟩ := Prod.mk.inj hclaim
  have hmem := mem_taskIds.mpr ⟨entry, (select_cases hselect).1, rfl⟩
  refine held_map (fun e => by split <;> rfl) h.distinct hmem (fun e he hne => ?_) fun e he heq => ?_
  · rw [if_neg hne]
    exact h.free e he
  · rw [if_pos heq]
    exact Claim.holds_iff.mpr ⟨heq, rfl⟩

theorem Held.countP (h : Held queue claim) : queue.countP claim.holds = 1 := by
  obtain ⟨entry, he, hid⟩ := mem_taskIds.mp h.mem
  rw [countP_holds h.distinct, if_pos (List.any_eq_true.mpr ⟨entry, he, h.holds entry he hid⟩)]

theorem Held.holds_iff (h : Held queue claim) {entry : QueueEntryModel} (he : entry ∈ queue) :
    claim.holds entry = true ↔ entry.taskExecutionId = claim.taskExecutionId :=
  ⟨fun hc => (Claim.holds_iff.mp hc).1, h.holds entry he⟩

/-- A heartbeat is on time, however late. -/
theorem Held.heartbeat (h : Held queue claim) (now : Datetime) :
    (heartbeat queue claim now).2 = true ∧ Held (heartbeat queue claim now).1 claim ∧
      taskIds (heartbeat queue claim now).1 = taskIds queue := by
  refine ⟨by simp [PostgresExecutionQueue.heartbeat, h.countP], ?_⟩
  refine held_map (fun e => by split <;> rfl) h.distinct h.mem (fun e he hne => ?_) fun e he heq => ?_
  · rw [if_neg fun hholds => hne ((h.holds_iff he).mp hholds)]
    exact h.free e he hne
  · rw [if_pos (h.holds e he heq)]
    exact h.holds e he heq

theorem Held.release (h : Held queue claim) :
    Unclaimed (release queue claim) ∧ taskIds (release queue claim) = taskIds queue := by
  have hids : taskIds (PostgresExecutionQueue.release queue claim) = taskIds queue :=
    map_ids (fun e => by split <;> rfl) queue
  refine ⟨⟨hids ▸ h.distinct, fun e he => ?_⟩, hids⟩
  obtain ⟨e₀, he₀, rfl⟩ := List.mem_map.mp he
  split
  · rfl
  · rename_i hholds
    exact h.free e₀ he₀ fun heq => hholds (h.holds e₀ he₀ heq)

theorem Held.finish (h : Held queue claim) (runnable : List UUID) (now : Datetime) :
    Unclaimed (finish queue claim runnable now) ∧
      ∀ j, j ∈ taskIds (finish queue claim runnable now) ↔
        (j ∈ taskIds queue ∧ j ≠ claim.taskExecutionId) ∨ j ∈ runnable := by
  refine ⟨⟨nodup_finish h.distinct, fun e he => ?_⟩, fun j => ⟨?_, ?_⟩⟩
  · rcases mem_finish he with ⟨hold, hnot⟩ | ⟨-, -, hnew⟩
    · exact h.free e hold fun heq => by simp [h.holds e hold heq] at hnot
    · rw [hnew]
  · intro hj
    obtain ⟨e, he, rfl⟩ := mem_taskIds.mp hj
    rcases mem_finish he with ⟨hold, hnot⟩ | ⟨-, hnew, -⟩
    · exact Or.inl ⟨mem_taskIds.mpr ⟨e, hold, rfl⟩, fun heq => by simp [h.holds e hold heq] at hnot⟩
    · exact Or.inr hnew
  · rintro (⟨hold, hne⟩ | hnew)
    · obtain ⟨e, he, rfl⟩ := mem_taskIds.mp hold
      refine mem_taskIds.mpr ⟨e, mem_finish_of_not_holds he ?_, rfl⟩
      rw [← Bool.not_eq_true, h.holds_iff he]
      exact hne
    · unfold PostgresExecutionQueue.finish
      rw [if_pos h.countP]
      exact mem_taskIds.mpr (exists_insertQueueEntries hnew)

end PostgresExecutionQueue

open PostgresExecutionQueue

namespace SoleWorker

/-! ### A round -/

variable {outcome : UUID → Nat → TaskResult} {maxTries : UUID → Int} {workflowId : UUID}
  {ids : List UUID} {σ : SoleWorker}

/-- The worker never stops trusting its claim. -/
theorem heartbeat_held {claim : Claim} {queue : ExecutionQueue} (h : Held queue claim)
    (times : List Datetime) :
    (heartbeat queue claim times).2 = false ∧ Held (heartbeat queue claim times).1 claim ∧
      taskIds (heartbeat queue claim times).1 = taskIds queue := by
  induction times generalizing queue with
  | nil => exact ⟨rfl, h, rfl⟩
  | cons now rest ih =>
      obtain ⟨howned, hheld, hids⟩ := h.heartbeat now
      unfold heartbeat
      split
      · rename_i queue' heq
        rw [heq] at hheld hids
        obtain ⟨htrusted, hrest, hrestIds⟩ := ih hheld
        exact ⟨htrusted, hrest, hrestIds.trans hids⟩
      · rename_i heq
        rw [heq] at howned
        simp at howned

/-- The end of the round leaves what is to be left in the queue, and no claim. -/
theorem dispose_held {claim : Claim} {queue : ExecutionQueue} (h : Held queue claim)
    (now : Datetime) (result : ProcessTaskResult) :
    Unclaimed (dispose queue claim false now (.ok result)) ∧
      Left (taskIds queue) claim.taskExecutionId result
        (taskIds (dispose queue claim false now (.ok result))) := by
  simp only [dispose, Bool.false_eq_true, if_false]
  cases hretry : result.shouldRetry with
  | true =>
      obtain ⟨hunclaimed, hids⟩ := h.release
      rw [if_pos rfl]
      refine ⟨hunclaimed, fun j => ?_⟩
      rw [hids, hretry, if_pos rfl]
  | false =>
      obtain ⟨hunclaimed, hids⟩ := h.finish result.enqueueTaskIds now
      rw [if_neg (by simp)]
      refine ⟨hunclaimed, fun j => ?_⟩
      rw [hids j, hretry, if_neg (by simp)]

/-- A worker between two rounds, with a workflow that has the queue for itself. -/
structure Underway (outcome : UUID → Nat → TaskResult) (maxTries : UUID → Int) (workflowId : UUID)
    (ids : List UUID) (σ : SoleWorker) : Prop where
  tracked : Tracked outcome maxTries workflowId ids σ.executions (taskIds σ.queue) σ.attempts
  unclaimed : Unclaimed σ.queue
  executed : ∀ e ∈ σ.executed, e.1 ∈ ids

/-- What the tasks may still cost. -/
def cost (ids : List UUID) (σ : SoleWorker) : Nat :=
  remaining σ.executions (taskIds σ.queue) ids

/-- Plugins that do not raise. -/
def returning (outcome : UUID → Nat → TaskResult) :
    UUID → Nat → StartTaskExecutionResult → Except String TaskResult :=
  fun i attempts _ => .ok (outcome i attempts)

/-- A round processes a row: it executes the plugin once if the task is not over. -/
def Processes (outcome : UUID → Nat → TaskResult) (σ σ' : SoleWorker) : Prop :=
  ∃ entry ∈ σ.queue, ∃ t, taskRow σ.executions entry.taskExecutionId = some t ∧
    σ'.executed = if t.status.isTerminal then σ.executed
      else σ.executed ++
        [(entry.taskExecutionId, outcome entry.taskExecutionId (σ.attempts entry.taskExecutionId))]

theorem attempts_append (σ : SoleWorker) (executions : ExecutionStore) (queue : ExecutionQueue)
    (i : UUID) (result : TaskResult) :
    ({ executions, queue, executed := σ.executed ++ [(i, result)] } : SoleWorker).attempts =
      Function.update σ.attempts i (σ.attempts i + 1) := by
  funext j
  unfold attempts
  rw [List.map_append, List.count_append]
  by_cases hj : j = i
  · subst hj
    rw [Function.update_self]
    simp
  · rw [Function.update_of_ne hj]
    simp [Ne.symm hj]

/-- **A round that finds a row lowers what remains.** -/
theorem Underway.step (h : Underway outcome maxTries workflowId ids σ) (leaseTimeout : Timedelta)
    (workerId : UUID) (round : Round) :
    (σ.queue = [] ∧ σ.step leaseTimeout workerId (returning outcome) round = σ) ∨
    Processes outcome σ (σ.step leaseTimeout workerId (returning outcome) round) ∧
      Underway outcome maxTries workflowId ids
        (σ.step leaseTimeout workerId (returning outcome) round) ∧
      cost ids (σ.step leaseTimeout workerId (returning outcome) round) < cost ids σ := by
  have hrows := h.unclaimed.perm (round.scan_perm σ.queue)
  have hscan : ∀ i, i ∈ taskIds (round.scan σ.queue) ↔ i ∈ taskIds σ.queue := fun i =>
    ((round.scan_perm σ.queue).map _).mem_iff
  unfold SoleWorker.step
  cases hclaim : claim leaseTimeout (round.scan σ.queue) workerId round.claimToken
      round.claimedAt with
  | none =>
      have hempty := round.scan_perm σ.queue
      rw [claim_none hrows hclaim, List.nil_perm] at hempty
      exact Or.inl ⟨hempty, rfl⟩
  | some found =>
      obtain ⟨claim, queue⟩ := found
      obtain ⟨hheld, hids⟩ := claim_some hrows hclaim
      have hmem : claim.taskExecutionId ∈ taskIds σ.queue := by
        rw [← hscan, ← hids]
        exact hheld.mem
      obtain ⟨entry, hentry, hid⟩ := mem_taskIds.mp hmem
      obtain ⟨t, s', executed, r, ht, hprocess, hexecuted, hleft⟩ :=
        h.tracked.process hmem round.startedAt round.completedAt
      obtain ⟨queue', untrusted, hbeat⟩ : ∃ queue' untrusted,
          heartbeat queue claim round.heartbeats = (queue', untrusted) := ⟨_, _, rfl⟩
      have hbeats := heartbeat_held hheld round.heartbeats
      rw [hbeat] at hbeats
      obtain ⟨rfl, hheld', hids'⟩ := hbeats
      obtain ⟨hunclaimed, hdisposed⟩ := dispose_held hheld' round.finishedAt r
      have hstate : processClaim (returning outcome claim.taskExecutionId
            (σ.attempts claim.taskExecutionId)) round claim { σ with queue := queue } =
          { executions := s'
            queue := dispose queue' claim false round.finishedAt (.ok r)
            executed := σ.executed ++
              (executed.map fun result => (claim.taskExecutionId, result)).toList } := by
        unfold processClaim returning
        dsimp only
        rw [hprocess, hbeat]
      have hleft' : Left (taskIds σ.queue) claim.taskExecutionId r
          (taskIds (dispose queue' claim false round.finishedAt (.ok r))) := by
        intro j
        rw [hdisposed j, hids', hids]
        simp only [hscan]
      obtain ⟨htracked, hlt⟩ := hleft _ hleft'
      have hi := (h.tracked.ready _ hmem).1
      rw [← hid] at ht
      dsimp only
      rw [hstate]
      refine Or.inr ⟨⟨entry, hentry, t, ht, ?_⟩, ⟨?_, hunclaimed, ?_⟩, hlt⟩
      · rw [hexecuted, hid]
        split <;> simp
      · cases hover : t.status.isTerminal with
        | true =>
            rw [hover, if_pos rfl] at hexecuted htracked
            rw [hexecuted, Option.map_none, Option.toList_none, List.append_nil]
            exact htracked
        | false =>
            rw [hover, if_neg (by simp)] at hexecuted htracked
            rw [hexecuted, Option.map_some, Option.toList_some, attempts_append]
            exact htracked
      · intro e he
        rcases List.mem_append.mp he with hold | hnew
        · exact h.executed e hold
        · obtain ⟨result, -, rfl⟩ := Option.map_eq_some_iff.mp (Option.mem_toList.mp hnew)
          exact hi

/-! ### Many rounds -/

/-- What falls until something is done does so within as many steps. -/
theorem exists_done (measure : Nat → Nat) (done : Nat → Prop)
    (h : ∀ n, done n ∨ measure (n + 1) < measure n) : ∃ n ≤ measure 0, done n := by
  have hgo : ∀ k, (∃ n < k, done n) ∨ measure k + k ≤ measure 0 := by
    intro k
    induction k with
    | zero => exact Or.inr le_rfl
    | succ k ih =>
        rcases ih with ⟨n, hn, hdone⟩ | hle
        · exact Or.inl ⟨n, by omega, hdone⟩
        · rcases h k with hdone | hlt
          · exact Or.inl ⟨k, by omega, hdone⟩
          · exact Or.inr (by omega)
  rcases hgo (measure 0 + 1) with ⟨n, hn, hdone⟩ | hle
  · exact ⟨n, by omega, hdone⟩
  · omega

section Run

variable (leaseTimeout : Timedelta) (workerId : UUID) (rounds : Nat → Round)

theorem run_succ (n : Nat) : σ.run leaseTimeout workerId (returning outcome) rounds (n + 1) =
    (σ.run leaseTimeout workerId (returning outcome) rounds n).step leaseTimeout workerId
      (returning outcome) (rounds n) := rfl

theorem Underway.run (h : Underway outcome maxTries workflowId ids σ) (n : Nat) :
    Underway outcome maxTries workflowId ids
      (σ.run leaseTimeout workerId (returning outcome) rounds n) := by
  induction n with
  | zero => exact h
  | succ n ih =>
      rcases ih.step leaseTimeout workerId (rounds n) with ⟨-, hsame⟩ | ⟨-, hafter, -⟩
      · rw [run_succ, hsame]
        exact ih
      · exact hafter

/-- **The queue empties**, and then the loop idles. -/
theorem Underway.drains (h : Underway outcome maxTries workflowId ids σ) :
    ∃ n ≤ cost ids σ, ∀ m, n ≤ m →
      (σ.run leaseTimeout workerId (returning outcome) rounds m).queue = [] := by
  obtain ⟨n, hn, hempty⟩ := exists_done
    (fun n => cost ids (σ.run leaseTimeout workerId (returning outcome) rounds n))
    (fun n => (σ.run leaseTimeout workerId (returning outcome) rounds n).queue = []) fun n => by
      rcases (h.run leaseTimeout workerId rounds n).step leaseTimeout workerId (rounds n) with
        ⟨hempty, -⟩ | ⟨-, -, hlt⟩
      · exact Or.inl hempty
      · exact Or.inr hlt
  refine ⟨n, hn, fun m hm => ?_⟩
  induction m, hm using Nat.le_induction with
  | base => exact hempty
  | succ m _ ih =>
      rcases (h.run leaseTimeout workerId rounds m).step leaseTimeout workerId (rounds m) with
        ⟨-, hsame⟩ | ⟨⟨entry, hentry, -⟩, -⟩
      · rw [run_succ, hsame]
        exact ih
      · rw [ih] at hentry
        simp at hentry

end Run

/-- No more plugins are executed than there are tries. -/
theorem Underway.executed_le (h : Underway outcome maxTries workflowId ids σ) :
    (σ.executed.length : Int) ≤ (ids.map maxTries).sum := by
  have hmem : ∀ i ∈ (σ.executed.map (·.1) : Multiset UUID), i ∈ ids.toFinset := by
    intro i hi
    obtain ⟨e, he, rfl⟩ := List.mem_map.mp (Multiset.mem_coe.mp hi)
    exact List.mem_toFinset.mpr (h.executed e he)
  have hcount := Multiset.sum_count_eq_card hmem
  rw [Multiset.coe_card, List.length_map] at hcount
  rw [← hcount, ← List.sum_toFinset _ h.tracked.executing.distinct, Nat.cast_sum]
  refine Finset.sum_le_sum fun i hi => ?_
  have hi := List.mem_toFinset.mp hi
  obtain ⟨t, ht⟩ := Option.isSome_iff_exists.mp (h.tracked.executing.stored i hi)
  rw [Multiset.coe_count]
  exact (h.tracked.attempted i hi t ht).le (h.tracked.executing.coherent.ok i t ht)

/-! ### The end of the workflow -/

/-- The workflow is completed, and so are its tasks. -/
structure Succeeded (s : ExecutionStore) (workflowId : UUID) (ids : List UUID) : Prop where
  workflow : ∃ w, workflowRow s workflowId = some w ∧ w.status = .completed
  tasks : ∀ i ∈ ids, ∃ t, taskRow s i = some t ∧ t.status = .completed

/-- The workflow failed because this task did, which has no tries left; the other tasks were
completed before or cancelled. -/
structure FailedBy (s : ExecutionStore) (workflowId : UUID) (ids : List UUID) (i : UUID) :
    Prop where
  workflow : ∃ w, workflowRow s workflowId = some w ∧ w.status = .failed
  task : ∃ t, taskRow s i = some t ∧ t.status = .failed ∧ t.remainingTries = 0
  others : ∀ j ∈ ids, j ≠ i → ∃ t, taskRow s j = some t ∧
    (t.status = .completed ∨ t.status = .cancelled)

/-- With nothing in the queue, the workflow is over. -/
theorem Underway.over (h : Underway outcome maxTries workflowId ids σ) (hempty : σ.queue = []) :
    Succeeded σ.executions workflowId ids ∨
      ∃ i ∈ ids, FailedBy σ.executions workflowId ids i ∧ σ.attempts i = maxTries i ∧
        Fails (outcome i) (σ.attempts i) := by
  have hexecuting := h.tracked.executing
  have hcoherent := hexecuting.coherent
  have hidle : ∀ i ∈ ids, ¬ Workable σ.executions i := by
    intro i hi hworkable
    have hqueued := h.tracked.workable i hi hworkable
    rw [hempty] at hqueued
    simp [taskIds] at hqueued
  obtain ⟨w, hw⟩ := hexecuting.workflow
  have hadmits : ∀ i ∈ ids, ∃ t, taskRow σ.executions i = some t ∧ w.status.Admits t.status := by
    intro i hi
    obtain ⟨t, ht⟩ := Option.isSome_iff_exists.mp (hexecuting.stored i hi)
    exact ⟨t, ht, hcoherent.admits i t w ht (by rw [(hexecuting.tasks i t ht).mpr hi, hw])⟩
  cases hstatus : w.status with
  | running =>
      -- There would be a task to go on with, or all are completed and the workflow with them.
      have hall : ∀ i ∈ ids, completed σ.executions i = true := by
        by_contra hleft
        simp only [not_forall, Bool.not_eq_true] at hleft
        obtain ⟨i, hi, hopen⟩ := hleft
        obtain ⟨j, hj, hworkable⟩ := hexecuting.exists_workable hw hstatus ⟨i, hi, hopen⟩
        exact hidle j hj hworkable
      obtain ⟨w', hw', hcompleted⟩ := hexecuting.finished hall
      obtain rfl : w = w' := Option.some.inj (hw.symm.trans hw')
      rw [hstatus] at hcompleted
      simp at hcompleted
  | completed =>
      refine Or.inl ⟨⟨w, hw, hstatus⟩, fun i hi => ?_⟩
      obtain ⟨t, ht, hadm⟩ := hadmits i hi
      rw [hstatus] at hadm
      exact ⟨t, ht, hadm⟩
  | failed =>
      obtain ⟨i, honly⟩ := hcoherent.culprit workflowId w hw hstatus
      obtain ⟨t, ht, hwf, hfailed⟩ := (honly i).mpr rfl
      have hi := (hexecuting.tasks i t ht).mp hwf
      obtain ⟨hnone, hall, hfails⟩ := (h.tracked.attempted i hi t ht).failed hfailed
      refine Or.inr ⟨i, hi, ⟨⟨w, hw, hstatus⟩, ⟨t, ht, hfailed, hnone⟩, fun j hj hji => ?_⟩, hall,
        hfails⟩
      obtain ⟨u, hu, hadm⟩ := hadmits j hj
      rw [hstatus] at hadm
      refine ⟨u, hu, ?_⟩
      cases hs : u.status with
      | completed => exact Or.inl rfl
      | cancelled => exact Or.inr rfl
      | failed => exact absurd ((honly j).mp ⟨u, hu, (hexecuting.tasks j u hu).mpr hj, hs⟩) hji
      | _ =>
          rw [hs] at hadm
          simp [WorkflowStatus.Admits, TaskStatus.isTerminal] at hadm
  | cancelled => exact absurd hstatus (hcoherent.not_cancelled hw)

/-- And what its attempts came to says which way it ended. -/
theorem Underway.ended (h : Underway outcome maxTries workflowId ids σ) (hempty : σ.queue = [])
    (hmax : ∀ i ∈ ids, 1 ≤ maxTries i) :
    (Succeeded σ.executions workflowId ids ∧ ∀ i ∈ ids, ∃ k : Nat, (k : Int) < maxTries i ∧
        (outcome i k).succeeded = true) ∨
      ∃ i ∈ ids, FailedBy σ.executions workflowId ids i ∧ σ.attempts i = maxTries i ∧
        0 < σ.attempts i ∧ ∀ k : Nat, (k : Int) < maxTries i → (outcome i k).succeeded = false := by
  rcases h.over hempty with hsucceeded | ⟨i, hi, hfailed, hall, hfails⟩
  · refine Or.inl ⟨hsucceeded, fun i hi => ?_⟩
    obtain ⟨t, ht, hc⟩ := hsucceeded.tasks i hi
    obtain ⟨k, hk, hle, hresult⟩ := (h.tracked.attempted i hi t ht).completed hc
    exact ⟨k, by omega, hresult⟩
  · have hone := hmax i hi
    exact Or.inr ⟨i, hi, hfailed, hall, by omega, fun k hk => hfails k (by omega)⟩

end SoleWorker

/-! ### From the start -/

open WorkflowStartService
open WorkflowExecutionRepository (create)

section Start

variable {outcome : UUID → Nat → TaskResult} {draws : Draws} {now enqueuedAt : Datetime}
  {wd : WorkflowDefinition} {s s' : ExecutionStore}

/-- The tasks of an execution of a definition. -/
def executionIds (draws : Draws) (wd : WorkflowDefinition) : List UUID :=
  wd.taskDefinitions.map fun d => draws.taskExecutionId d.id

/-- The tries its tasks have left. -/
def triesOf (s : ExecutionStore) (i : UUID) : Int := (taskRow s i).elim 0 (·.remainingTries)

theorem triesOf_created (hins : create s (compiled draws now wd) = some s') {d : TaskDefinition}
    (hd : d ∈ wd.taskDefinitions) : triesOf s' (draws.taskExecutionId d.id) = d.maxTries := by
  rw [triesOf, (taskRow_created hins hd).1]
  rfl

/-- What a start stores and enqueues. -/
theorem WorkflowStartService.start_inv {db db' : Database} {queue queue' : ExecutionQueue}
    {workflowDefinitionId workflowId : UUID}
    (hload : WorkflowDefinitionRepository.load db.definitions workflowDefinitionId = some wd)
    (hlinked : wd.Linked)
    (h : start db queue draws now enqueuedAt workflowDefinitionId = .ok (db', queue', workflowId)) :
    create db.executions (compiled draws now wd) = some db'.executions ∧
      queue' = PostgresExecutionQueue.enqueue queue (rootsOf draws wd) enqueuedAt ∧
      workflowId = draws.workflowExecutionId := by
  obtain ⟨⟨_, workflow, roots⟩, hcommit, h⟩ := Sql.bind_eq_ok.mp h
  obtain ⟨rfl, rfl, rfl⟩ := Prod.mk.inj (Except.ok.inj h)
  obtain ⟨⟨_, _⟩, hprepare, hcommit⟩ := Sql.bind_eq_ok.mp hcommit
  unfold prepare at hprepare
  rw [hload] at hprepare
  dsimp only at hprepare
  rw [createWorkflowExecution_eq draws now hlinked] at hprepare
  split at hprepare
  · obtain ⟨rfl, rfl⟩ := Prod.mk.inj (Except.ok.inj hprepare)
    dsimp only at hcommit
    split at hcommit
    · rename_i executions hins
      obtain ⟨rfl, rfl, rfl⟩ := Prod.mk.inj (Except.ok.inj hcommit)
      exact ⟨hins, rfl, rfl⟩
    · simp at hcommit
  · simp at hprepare

/-- A worker that begins on what a start has left. -/
theorem underway_started (hs : Coherent s) (hvalid : wd.Valid)
    (hins : create s (compiled draws now wd) = some s') :
    SoleWorker.Underway outcome (triesOf s') draws.workflowExecutionId (executionIds draws wd)
      { executions := s'
        queue := PostgresExecutionQueue.enqueue [] (rootsOf draws wd) enqueuedAt } := by
  have hexecuting := executing_created hs hvalid hins
  rw [taskIds_compiled] at hexecuting
  have hqueued : ∀ i, i ∈ taskIds (PostgresExecutionQueue.enqueue [] (rootsOf draws wd) enqueuedAt) ↔
      i ∈ rootsOf draws wd := by
    intro i
    rw [mem_taskIds]
    constructor
    · rintro ⟨entry, he, rfl⟩
      rcases mem_insertQueueEntries.mp he with hold | ⟨hnew, -⟩
      · simp at hold
      · exact hnew
    · exact exists_insertQueueEntries
  refine ⟨⟨hexecuting, ?_, ?_, ?_⟩, ⟨nodup_insertQueueEntries List.nodup_nil, ?_⟩, by simp⟩
  · intro i hi
    obtain ⟨d, hd, rfl⟩ := List.mem_map.mp ((hqueued i).mp hi)
    obtain ⟨hd, hroot⟩ := List.mem_filter.mp hd
    refine ⟨List.mem_map_of_mem hd, _, (taskRow_created hins hd).1, fun p hp => ?_⟩
    have hnone : d.dependencies = [] := by simpa using hroot
    simp [WorkflowExecutionMapper.taskToModel, compiledTask, hnone] at hp
  · rintro i hi ⟨t, ht, hworks⟩
    obtain ⟨d, hd, rfl⟩ := List.mem_map.mp hi
    obtain rfl := Option.some.inj ((taskRow_created hins hd).1.symm.trans ht)
    refine (hqueued _).mpr (List.mem_map_of_mem (List.mem_filter.mpr ⟨hd, ?_⟩))
    rcases hworks with hrunning | ⟨-, hzero⟩
    · simp [WorkflowExecutionMapper.taskToModel, compiledTask] at hrunning
    · simpa [WorkflowExecutionMapper.taskToModel, compiledTask] using hzero
  · intro i hi t ht
    obtain ⟨d, hd, rfl⟩ := List.mem_map.mp hi
    obtain rfl := Option.some.inj ((taskRow_created hins hd).1.symm.trans ht)
    refine attempted_open rfl ?_ fun k hk => by simp [SoleWorker.attempts] at hk
    rw [triesOf_created hins hd]
    simp [SoleWorker.attempts, WorkflowExecutionMapper.taskToModel, compiledTask]
  · intro entry he
    rcases mem_insertQueueEntries.mp he with hold | ⟨-, -, hnew⟩
    · simp at hold
    · rw [hnew]

/-- What its tasks may cost. -/
theorem cost_started (hvalid : wd.Valid) (hins : create s (compiled draws now wd) = some s')
    (queue : ExecutionQueue) :
    (SoleWorker.cost (executionIds draws wd) { executions := s', queue } : Int) =
      (wd.taskDefinitions.map fun d => d.maxTries + 1).sum := by
  unfold SoleWorker.cost remaining executionIds
  rw [Nat.cast_list_sum, List.map_map, List.map_map]
  refine congrArg List.sum (List.map_congr_left fun d hd => ?_)
  have hrow := (taskRow_created hins hd).1
  have hpositive := hvalid.maxTries d hd
  show ((weight s' _ (draws.taskExecutionId d.id) : Nat) : Int) = _
  rw [weight_open hrow rfl]
  show ((d.maxTries.toNat + 1 : Nat) : Int) = _
  omega

end Start

/-- Every task that was attempted succeeds at one of the attempts it has. -/
def AttemptsSucceed (outcome : UUID → Nat → TaskResult) (draws : Draws) (wd : WorkflowDefinition)
    (σ : SoleWorker) : Prop :=
  ∀ d ∈ wd.taskDefinitions, 0 < σ.attempts (draws.taskExecutionId d.id) →
    ∃ k : Nat, (k : Int) < d.maxTries ∧ (outcome (draws.taskExecutionId d.id) k).succeeded = true

/-- The worker has nothing left to do, and the workflow has ended as its attempts say. -/
structure WorkflowEnded (outcome : UUID → Nat → TaskResult) (draws : Draws)
    (wd : WorkflowDefinition) (workflowId : UUID) (σ : SoleWorker) : Prop where
  queue : σ.queue = []
  completed : AttemptsSucceed outcome draws wd σ →
    SoleWorker.Succeeded σ.executions workflowId (executionIds draws wd)
  failed : ¬ AttemptsSucceed outcome draws wd σ → ∃ d ∈ wd.taskDefinitions,
    SoleWorker.FailedBy σ.executions workflowId (executionIds draws wd)
        (draws.taskExecutionId d.id) ∧
      σ.attempts (draws.taskExecutionId d.id) = d.maxTries

/-- A run of the loop of one worker. -/
structure RunsToEnd (outcome : UUID → Nat → TaskResult) (draws : Draws) (wd : WorkflowDefinition)
    (workflowId : UUID) (run : Nat → SoleWorker) : Prop where
  /-- After finitely many rounds there is nothing left to do. -/
  ends : ∃ n : Nat, (n : Int) ≤ (wd.taskDefinitions.map fun d => d.maxTries + 1).sum ∧
    ∀ m, n ≤ m → WorkflowEnded outcome draws wd workflowId (run m)
  /-- No more plugins are executed than there are tries. -/
  executed : ∀ n, ((run n).executed.length : Int) ≤ (wd.taskDefinitions.map (·.maxTries)).sum
  /-- No plugin is executed for a task that was cancelled. -/
  cancelled : ∀ n i t, taskRow (run n).executions i = some t → t.status = .cancelled →
    (run (n + 1)).attempts i = (run n).attempts i

theorem SoleWorker.Underway.workflowEnded {outcome : UUID → Nat → TaskResult} {draws : Draws}
    {wd : WorkflowDefinition} {workflowId : UUID} {maxTries : UUID → Int} {σ : SoleWorker}
    (h : Underway outcome maxTries workflowId (executionIds draws wd) σ)
    (htries : ∀ d ∈ wd.taskDefinitions, maxTries (draws.taskExecutionId d.id) = d.maxTries)
    (hvalid : wd.Valid) (hempty : σ.queue = []) :
    WorkflowEnded outcome draws wd workflowId σ := by
  have hmax : ∀ i ∈ executionIds draws wd, 1 ≤ maxTries i := by
    intro i hi
    obtain ⟨d, hd, rfl⟩ := List.mem_map.mp hi
    rw [htries d hd]
    exact hvalid.maxTries d hd
  rcases h.ended hempty hmax with ⟨hsucceeded, hall⟩ | ⟨i, hi, hfailed, hused, hpos, hfails⟩
  · refine ⟨hempty, fun _ => hsucceeded, fun hnot => absurd (fun d hd _ => ?_) hnot⟩
    rw [← htries d hd]
    exact hall _ (List.mem_map_of_mem hd)
  · obtain ⟨d, hd, rfl⟩ := List.mem_map.mp hi
    refine ⟨hempty, fun hattempts => ?_, fun _ => ⟨d, hd, hfailed, hused.trans (htries d hd)⟩⟩
    obtain ⟨k, hk, hresult⟩ := hattempts d hd hpos
    rw [hfails k (by rw [htries d hd]; exact hk)] at hresult
    simp at hresult

/-- What is processed is not a task that is over. -/
theorem SoleWorker.Processes.attempts_eq {outcome : UUID → Nat → TaskResult} {σ σ' : SoleWorker}
    (h : Processes outcome σ σ') {i : UUID} {t : TaskExecutionModel}
    (ht : taskRow σ.executions i = some t) (hover : t.status.isTerminal = true) :
    σ'.attempts i = σ.attempts i := by
  obtain ⟨entry, -, u, hu, hexecuted⟩ := h
  unfold attempts
  rw [hexecuted]
  cases hstatus : u.status.isTerminal with
  | true => rw [if_pos rfl]
  | false =>
      have hne : entry.taskExecutionId ≠ i := by
        rintro rfl
        obtain rfl : t = u := Option.some.inj (ht.symm.trans hu)
        rw [hstatus] at hover
        simp at hover
      rw [if_neg (by simp), List.map_append, List.count_append]
      simp [hne]

/--
**A worker by itself brings a workflow to its end.**  Whatever the attempts at its tasks come
to, and whatever order the rows of the queue are scanned in, the loop of the worker empties the
queue within as many rounds as there are tries and tasks.  It is assumed that the driver takes the
root tasks at the start and the children of a task at its end, which it does up to 10922 of them.
-/
theorem worker_runs_to_end {db : ExecutionDb} (h : ReachableDb db) {definitions : DefinitionStore}
    {workflowDefinitionId : UUID} {wd : WorkflowDefinition}
    (hload : WorkflowDefinitionRepository.load definitions workflowDefinitionId = some wd)
    (hvalid : wd.Valid) {draws : Draws} {now enqueuedAt : Datetime} {db' : Database}
    {queue : ExecutionQueue} {workflowId : UUID}
    (hstart : WorkflowStartService.start { definitions, executions := db.store } [] draws now
      enqueuedAt workflowDefinitionId = .ok (db', queue, workflowId))
    (outcome : UUID → Nat → TaskResult) (leaseTimeout : Timedelta) (workerId : UUID)
    (rounds : Nat → Round) :
    RunsToEnd outcome draws wd workflowId
      (SoleWorker.run leaseTimeout workerId (SoleWorker.returning outcome) rounds
        { executions := db'.executions, queue }) := by
  obtain ⟨hins, rfl, rfl⟩ := start_inv hload hvalid.linked hstart
  have hunderway : SoleWorker.Underway outcome (triesOf db'.executions) draws.workflowExecutionId
      (executionIds draws wd)
      { executions := db'.executions
        queue := PostgresExecutionQueue.enqueue [] (rootsOf draws wd) enqueuedAt } :=
    underway_started (reachable_coherent h) hvalid hins
  have htries : ∀ d ∈ wd.taskDefinitions,
      triesOf db'.executions (draws.taskExecutionId d.id) = d.maxTries :=
    fun d hd => triesOf_created hins hd
  have hrun := hunderway.run leaseTimeout workerId rounds
  refine ⟨?_, fun n => ?_, fun n i t ht hc => ?_⟩
  · obtain ⟨n, hn, hempty⟩ := hunderway.drains leaseTimeout workerId rounds
    have hcost := cost_started hvalid hins
      (PostgresExecutionQueue.enqueue [] (rootsOf draws wd) enqueuedAt)
    exact ⟨n, by omega, fun m hm => (hrun m).workflowEnded htries hvalid (hempty m hm)⟩
  · have hsum : (executionIds draws wd).map (triesOf db'.executions) =
        wd.taskDefinitions.map (·.maxTries) := by
      unfold executionIds
      rw [List.map_map]
      exact List.map_congr_left htries
    have hle := (hrun n).executed_le
    rwa [hsum] at hle
  · rcases (hrun n).step leaseTimeout workerId (rounds n) with ⟨-, hsame⟩ | ⟨hprocesses, -⟩
    · rw [SoleWorker.run_succ, hsame]
    · exact hprocesses.attempts_eq ht (by rw [hc]; rfl)

/-! ### A sample

The left child fails once and is released, behind the right child.  That fails for good, and the
left child is cancelled while it is queued.
-/

def retryingDefinition : WorkflowDefinition :=
  { sampleDefinition with
    taskDefinitions :=
      [{ id := 1, pluginType := "noop", key := "extract" },
       { id := 2, pluginType := "noop", key := "left", dependencies := [1], maxTries := 2 },
       { id := 3, pluginType := "noop", key := "right", dependencies := [1] }] }

theorem retryingDefinition_valid : retryingDefinition.Valid where
  nonempty := by decide
  ids := by decide
  keys := by decide
  duplicates := by decide
  known := by decide
  acyclic := acyclic_of_rank id (by decide)
  maxTries := by decide

def retryingRows : List (Sigma DefinitionRow) :=
  [⟨.workflow 0, { name := "sample", description := "", enabled := true }⟩,
    ⟨.task 1,
      { workflowDefinitionId := 0, key := "extract", pluginType := "noop", configuration := []
        maxTries := 1 }⟩,
    ⟨.task 2,
      { workflowDefinitionId := 0, key := "left", pluginType := "noop", configuration := []
        maxTries := 2 }⟩,
    ⟨.task 3,
      { workflowDefinitionId := 0, key := "right", pluginType := "noop", configuration := []
        maxTries := 1 }⟩,
    ⟨.dependency 2 1, ()⟩, ⟨.dependency 3 1, ()⟩]

/-- The first attempt at a task succeeds for the root only. -/
def rootSucceeds (i : UUID) (_ : Nat) : TaskResult :=
  { succeeded := i == 1, output := {} }

def sampleRounds (n : Nat) : Round where
  scan queue := if n = 2 then queue.reverse else queue
  scan_perm queue := by
    split
    · exact List.reverse_perm queue
    · exact .refl queue
  claimedAt := n
  claimToken := n
  startedAt := n
  heartbeats := [n]
  completedAt := n
  finishedAt := n

def retryingStarted : Except Raised (Database × ExecutionQueue × UUID) :=
  WorkflowStartService.start
    { definitions := .ofRows retryingRows, executions := (Sql.Db.init : ExecutionDb).store } []
    { workflowExecutionId := 0, taskExecutionId := id } 0 0 0

theorem worker_runs_to_end_sample : ∃ db' queue workflowId,
    retryingStarted = .ok (db', queue, workflowId) ∧
    RunsToEnd rootSucceeds { workflowExecutionId := 0, taskExecutionId := id } retryingDefinition
      workflowId
      (SoleWorker.run 100 7 (SoleWorker.returning rootSucceeds) sampleRounds
        { executions := db'.executions, queue }) := by
  obtain ⟨⟨db', queue, workflowId⟩, hstart⟩ : ∃ started, retryingStarted = .ok started := ⟨_, rfl⟩
  exact ⟨db', queue, workflowId, hstart,
    worker_runs_to_end .init rfl retryingDefinition_valid hstart rootSucceeds 100 7 sampleRounds⟩

end AutomationPlatform
