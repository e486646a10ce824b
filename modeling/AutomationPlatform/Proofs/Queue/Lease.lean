/-
The lease protocol of the queue.

Who holds a row is written in four columns, and no two operations look at the same
ones.  What keeps them together is said once, of the whole table and the claims in
flight (`Leases`): a row's lease is there whole or not at all, its token was handed
out for that row, and a row that a claim has locked is still the one it has read.

Tokens are fresh, so a claim that is no longer current has a token that no row will
carry again.  That is all that makes a stale holder harmless.
-/
import Mathlib.Data.List.Nodup
import Mathlib.Tactic.Linarith
import AutomationPlatform.ExecutionQueue.Postgres
import AutomationPlatform.Sql.Conflict

namespace AutomationPlatform

/-- The lease columns are all null or all set, and the lease was taken before it was renewed. -/
def QueueEntryModel.Coherent (entry : QueueEntryModel) : Prop :=
  (entry.claimToken = none ∧ entry.claimedBy = none ∧ entry.claimedAt = none ∧
    entry.lastHeartbeat = none) ∨
  ∃ claimToken claimedBy claimedAt lastHeartbeat, entry.claimToken = some claimToken ∧
    entry.claimedBy = some claimedBy ∧ entry.claimedAt = some claimedAt ∧
    entry.lastHeartbeat = some lastHeartbeat ∧ claimedAt ≤ lastHeartbeat

theorem Claim.holds_iff {claim : Claim} {entry : QueueEntryModel} :
    claim.holds entry = true ↔ entry.taskExecutionId = claim.taskExecutionId ∧
      entry.claimToken = some claim.claimToken := by
  simp [Claim.holds]

namespace PostgresExecutionQueue

/-! ### What the statements do -/

variable {queue : ExecutionQueue} {claim : Claim}

theorem insertQueueEntries_eq (queue : ExecutionQueue) (ids : List UUID) (queuedAt : Datetime) :
    insertQueueEntries queue ids queuedAt = Sql.insertAbsent (·.taskExecutionId) queue
      (ids.map fun i => { taskExecutionId := i, queuedAt := queuedAt }) := by
  unfold Sql.insertAbsent
  rw [List.foldl_map]
  rfl

theorem find_queued (ids : List UUID) (queuedAt : Datetime) (i : UUID) :
    Sql.find (·.taskExecutionId)
        (ids.map fun i => ({ taskExecutionId := i, queuedAt := queuedAt } : QueueEntryModel)) i =
      if i ∈ ids then some { taskExecutionId := i, queuedAt := queuedAt } else none := by
  induction ids with
  | nil => rfl
  | cons j rest ih =>
      rw [List.map_cons, Sql.find_cons, ih]
      by_cases hj : j = i
      · simp [hj]
      · simp [hj, Ne.symm hj]

/-- The rows after an insert are the old ones, and an unleased one for each new task. -/
theorem mem_insertQueueEntries {queuedAt : Datetime} {entry : QueueEntryModel} {ids : List UUID}
    {queue : ExecutionQueue} :
    entry ∈ insertQueueEntries queue ids queuedAt ↔
      entry ∈ queue ∨ entry.taskExecutionId ∈ ids ∧
        (∀ e ∈ queue, e.taskExecutionId ≠ entry.taskExecutionId) ∧
        entry = { taskExecutionId := entry.taskExecutionId, queuedAt := queuedAt } := by
  rw [insertQueueEntries_eq, Sql.mem_insertAbsent, Sql.find_eq_none, find_queued]
  refine or_congr_right ?_
  split
  · rename_i hids
    simp only [Option.some.injEq, hids, true_and, eq_comm]
  · rename_i hids
    simp [hids]

/-- Every task that is to be inserted has a row then. -/
theorem exists_insertQueueEntries {ids : List UUID} {queuedAt : Datetime} {i : UUID}
    (hi : i ∈ ids) : ∃ entry ∈ insertQueueEntries queue ids queuedAt, entry.taskExecutionId = i := by
  by_cases hold : ∃ entry ∈ queue, entry.taskExecutionId = i
  · obtain ⟨entry, he, hid⟩ := hold
    exact ⟨entry, mem_insertQueueEntries.mpr (Or.inl he), hid⟩
  · refine ⟨{ taskExecutionId := i, queuedAt := queuedAt }, ?_, rfl⟩
    exact mem_insertQueueEntries.mpr (Or.inr ⟨hi, fun e he hid => hold ⟨e, he, hid⟩, rfl⟩)

/-- An insert keeps one row a task. -/
theorem nodup_insertQueueEntries {queuedAt : Datetime} {ids : List UUID} {queue : ExecutionQueue}
    (h : (queue.map (·.taskExecutionId)).Nodup) :
    ((insertQueueEntries queue ids queuedAt).map (·.taskExecutionId)).Nodup := by
  rw [insertQueueEntries_eq]
  exact Sql.Keyed.insertAbsent h _

/-- `claim` locks a row that is claimable and that nobody else has locked. -/
theorem select_cases {locked : UUID → Bool} {expiration : Datetime} {entry : QueueEntryModel}
    (h : select queue locked expiration = some entry) :
    entry ∈ queue ∧ entry.claimable expiration = true ∧
      locked entry.taskExecutionId = false := by
  unfold select at h
  have hmem := List.mem_of_head? h
  rw [List.mem_insertionSort, List.mem_filter] at hmem
  obtain ⟨hq, hc⟩ := hmem
  simp only [Bool.and_eq_true, Bool.not_eq_true'] at hc
  exact ⟨hq, hc.1, hc.2⟩

/-- With one row a task, a claim holds one row or none. -/
theorem countP_holds (hq : (queue.map (·.taskExecutionId)).Nodup) :
    queue.countP claim.holds = if queue.any claim.holds then 1 else 0 := by
  induction queue with
  | nil => rfl
  | cons e rest ih =>
      rw [List.map_cons, List.nodup_cons] at hq
      rw [List.countP_cons, ih hq.2, List.any_cons]
      by_cases he : claim.holds e = true
      · -- No other row is of the same task.
        have hrest : rest.any claim.holds = false := by
          rw [List.any_eq_false]
          intro f hf hfc
          refine hq.1 (List.mem_map.mpr ⟨f, hf, ?_⟩)
          rw [(Claim.holds_iff.mp hfc).1, (Claim.holds_iff.mp he).1]
        simp [he, hrest]
      · simp [he]

/-- The operations of a holder whose claim is not current change nothing. -/
theorem heartbeat_stale (h : queue.any claim.holds = false) (now : Datetime) :
    heartbeat queue claim now = (queue, false) := by
  rw [List.any_eq_false] at h
  unfold heartbeat
  rw [List.countP_eq_zero.mpr h]
  refine Prod.ext ?_ rfl
  show queue.map _ = queue
  exact (List.map_congr_left fun e he => if_neg (h e he)).trans (List.map_id _)

theorem release_stale (h : queue.any claim.holds = false) : release queue claim = queue := by
  rw [List.any_eq_false] at h
  exact (List.map_congr_left fun e he => if_neg (h e he)).trans (List.map_id _)

theorem finish_stale (h : queue.any claim.holds = false) (ids : List UUID) (now : Datetime) :
    finish queue claim ids now = queue := by
  rw [List.any_eq_false] at h
  unfold finish
  rw [List.countP_eq_zero.mpr h, if_neg (by decide)]
  exact List.filter_eq_self.mpr fun e he => by simpa using h e he

/-- The rows after `finish`: the others, and what it enqueues if there was a row to remove. -/
theorem mem_finish {ids : List UUID} {now : Datetime} {entry : QueueEntryModel}
    (h : entry ∈ finish queue claim ids now) :
    (entry ∈ queue ∧ claim.holds entry = false) ∨
    (queue.any claim.holds = true ∧ entry.taskExecutionId ∈ ids ∧
      entry = { taskExecutionId := entry.taskExecutionId, queuedAt := now }) := by
  unfold finish at h
  split at h
  · rename_i hone
    rcases mem_insertQueueEntries.mp h with hold | ⟨hids, -, hnew⟩
    · rw [List.mem_filter] at hold
      exact Or.inl ⟨hold.1, by simpa using hold.2⟩
    · refine Or.inr ⟨?_, hids, hnew⟩
      rw [List.any_eq_true]
      exact List.countP_pos_iff.mp (by omega)
  · rw [List.mem_filter] at h
    exact Or.inl ⟨h.1, by simpa using h.2⟩

/-- `finish` keeps the rows of other tasks. -/
theorem mem_finish_of_not_holds {ids : List UUID} {now : Datetime} {entry : QueueEntryModel}
    (h : entry ∈ queue) (hc : claim.holds entry = false) : entry ∈ finish queue claim ids now := by
  have hmem : entry ∈ queue.filter fun entry => !claim.holds entry :=
    List.mem_filter.mpr ⟨h, by rw [hc]; rfl⟩
  unfold finish
  split
  · exact mem_insertQueueEntries.mpr (Or.inl hmem)
  · exact hmem

theorem nodup_finish {ids : List UUID} {now : Datetime}
    (h : (queue.map (·.taskExecutionId)).Nodup) :
    ((finish queue claim ids now).map (·.taskExecutionId)).Nodup := by
  have hfilter := h.sublist (List.Sublist.map _ (List.filter_sublist (l := queue)
    (p := fun entry => !claim.holds entry)))
  unfold finish
  split
  · exact nodup_insertQueueEntries hfilter
  · exact hfilter

/-- Statements that update rows keep their tasks. -/
theorem map_ids {f : QueueEntryModel → QueueEntryModel}
    (hf : ∀ e, (f e).taskExecutionId = e.taskExecutionId) (queue : ExecutionQueue) :
    (queue.map f).map (·.taskExecutionId) = queue.map (·.taskExecutionId) := by
  rw [List.map_map]
  exact List.map_congr_left fun e _ => hf e

end PostgresExecutionQueue

/-- The task executions a step enqueues. -/
def QueueAction.enqueued : QueueAction → List UUID
  | .enqueue ids _ => ids
  | .finish _ ids _ => ids
  | _ => []

namespace QueueDb

variable {leaseTimeout : Timedelta} {db db' : QueueDb}

open PostgresExecutionQueue

/-! ### What a step does -/

theorem step_enqueue {ids : List UUID} {now : Datetime}
    (h : db.step leaseTimeout (.enqueue ids now) = some db') :
    db.clock ≤ now ∧
      db' = { db with queue := PostgresExecutionQueue.enqueue db.queue ids now, clock := now } := by
  simp only [step] at h
  split at h
  · rename_i hnow
    exact ⟨hnow, (Option.some.inj h).symm⟩
  · simp at h

theorem step_lock {session : Nat} {workerId : UUID} {skipped : List UUID} {now : Datetime}
    (h : db.step leaseTimeout (.lock session workerId skipped now) = some db') :
    db.clock ≤ now ∧ db.claiming session = none ∧
      (db' = { db with clock := now } ∨
        ∃ entry ∈ db.queue, entry.claimable (now - leaseTimeout) = true ∧
          db.locks entry.taskExecutionId = none ∧
          db' = { db with
            claiming := Function.update db.claiming session
              (some { workerId := workerId, now := now, queueEntry := entry })
            locks := Function.update db.locks entry.taskExecutionId (some session)
            clock := now }) := by
  simp only [step] at h
  split at h
  · rename_i hc
    refine ⟨hc.1, Option.isNone_iff_eq_none.mp hc.2, ?_⟩
    split at h
    · exact Or.inl (Option.some.inj h).symm
    · rename_i entry hselect
      obtain ⟨hmem, hclaimable, hlocked⟩ := select_cases hselect
      simp only [Bool.or_eq_false_iff, Option.isSome_eq_false_iff,
        Option.isNone_iff_eq_none] at hlocked
      exact Or.inr ⟨entry, hmem, hclaimable, hlocked.1, (Option.some.inj h).symm⟩
  · simp at h

theorem step_grant {session : Nat} {claimToken : UUID}
    (h : db.step leaseTimeout (.grant session claimToken) = some db') :
    ∃ x, db.claiming session = some x ∧ (∀ claim ∈ db.granted, claim.claimToken ≠ claimToken) ∧
      db' = { db with
        queue := grant db.queue ⟨x.queueEntry.taskExecutionId, claimToken⟩ x.workerId x.now
        claiming := Function.update db.claiming session none
        locks := db.unlock session
        granted := db.granted ++ [⟨x.queueEntry.taskExecutionId, claimToken⟩] } := by
  simp only [step] at h
  split at h
  · simp at h
  · rename_i x hx
    split at h
    · rename_i hfresh
      refine ⟨x, hx, ?_, (Option.some.inj h).symm⟩
      simpa [fresh] using hfresh
    · simp at h

theorem step_abort {session : Nat} (h : db.step leaseTimeout (.abort session) = some db') :
    db' = { db with
      claiming := Function.update db.claiming session none, locks := db.unlock session } := by
  simp only [step] at h
  split at h
  · simp at h
  · exact (Option.some.inj h).symm

theorem step_heartbeat {claim : Claim} {now : Datetime}
    (h : db.step leaseTimeout (.heartbeat claim now) = some db') :
    db.clock ≤ now ∧ db.free claim = true ∧
      db' = { db with queue := (heartbeat db.queue claim now).1, clock := now } := by
  simp only [step] at h
  split at h
  · rename_i hc
    exact ⟨hc.1, hc.2, (Option.some.inj h).symm⟩
  · simp at h

theorem step_release {claim : Claim} (h : db.step leaseTimeout (.release claim) = some db') :
    db.free claim = true ∧ db' = { db with queue := release db.queue claim } := by
  simp only [step] at h
  split at h
  · rename_i hc
    exact ⟨hc, (Option.some.inj h).symm⟩
  · simp at h

theorem step_finish {claim : Claim} {ids : List UUID} {now : Datetime}
    (h : db.step leaseTimeout (.finish claim ids now) = some db') :
    db.clock ≤ now ∧ db.free claim = true ∧
      db' = { db with queue := finish db.queue claim ids now, clock := now } := by
  simp only [step] at h
  split at h
  · rename_i hc
    exact ⟨hc.1, hc.2, (Option.some.inj h).symm⟩
  · simp at h

theorem current_iff {claim : Claim} :
    db.current claim = true ↔ ∃ entry ∈ db.queue, claim.holds entry = true :=
  List.any_eq_true

theorem current_eq_false {claim : Claim} :
    db.current claim = false ↔ ∀ entry ∈ db.queue, claim.holds entry = false := by
  unfold current
  simp

/-- Where a row comes from: it was there, or a step has just written it. -/
inductive RowFrom (db : QueueDb) : QueueAction → QueueEntryModel → Prop
  | kept {action : QueueAction} {entry : QueueEntryModel} (h : entry ∈ db.queue) :
      RowFrom db action entry
  | inserted {action : QueueAction} {taskExecutionId : UUID} (queuedAt : Datetime)
      (h : taskExecutionId ∈ action.enqueued) :
      RowFrom db action { taskExecutionId := taskExecutionId, queuedAt := queuedAt }
  | renewed {claim : Claim} {now : Datetime} {entry : QueueEntryModel} (h : entry ∈ db.queue)
      (hc : claim.holds entry = true) : RowFrom db (.heartbeat claim now) (entry.renew now)
  | freed {claim : Claim} {entry : QueueEntryModel} (h : entry ∈ db.queue) :
      RowFrom db (.release claim) entry.free
  | leased {session : Nat} {claimToken : UUID} {x : Claiming} {entry : QueueEntryModel}
      (hx : db.claiming session = some x) (h : entry ∈ db.queue)
      (hid : entry.taskExecutionId = x.queueEntry.taskExecutionId)
      (hfresh : ∀ claim ∈ db.granted, claim.claimToken ≠ claimToken) :
      RowFrom db (.grant session claimToken) (entry.lease x.workerId claimToken x.now)

/-- **Every row after a step has such an origin.** -/
theorem rowFrom_of_step {action : QueueAction} (h : db.step leaseTimeout action = some db')
    {entry : QueueEntryModel} (he : entry ∈ db'.queue) : RowFrom db action entry := by
  cases action with
  | enqueue ids now =>
      obtain ⟨-, rfl⟩ := step_enqueue h
      rcases mem_insertQueueEntries.mp he with hold | ⟨hids, -, hnew⟩
      · exact .kept hold
      · rw [hnew]; exact .inserted _ hids
  | lock session workerId skipped now =>
      obtain ⟨-, -, rfl | ⟨_, -, -, -, rfl⟩⟩ := step_lock h
      · exact .kept he
      · exact .kept he
  | grant session claimToken =>
      obtain ⟨x, hx, hfresh, rfl⟩ := step_grant h
      obtain ⟨e, hmem, rfl⟩ := List.mem_map.mp he
      split
      · rename_i hid
        exact .leased hx hmem hid hfresh
      · exact .kept hmem
  | abort session =>
      rw [step_abort h] at he
      exact .kept he
  | heartbeat claim now =>
      obtain ⟨-, -, rfl⟩ := step_heartbeat h
      obtain ⟨e, hmem, rfl⟩ := List.mem_map.mp he
      split
      · rename_i hc
        exact .renewed hmem hc
      · exact .kept hmem
  | release claim =>
      obtain ⟨-, rfl⟩ := step_release h
      obtain ⟨e, hmem, rfl⟩ := List.mem_map.mp he
      split
      · exact .freed hmem
      · exact .kept hmem
  | finish claim ids now =>
      obtain ⟨-, -, rfl⟩ := step_finish h
      rcases mem_finish he with ⟨hold, -⟩ | ⟨-, hids, hnew⟩
      · exact .kept hold
      · rw [hnew]; exact .inserted _ hids

/-- The task execution has a row. -/
def Queued (db : QueueDb) (taskExecutionId : UUID) : Prop :=
  ∃ entry ∈ db.queue, entry.taskExecutionId = taskExecutionId

/-- A task execution in the queue was there before, or a step has just enqueued it. -/
theorem queued_before {action : QueueAction} (h : db.step leaseTimeout action = some db')
    {entry : QueueEntryModel} (he : entry ∈ db'.queue) :
    db.Queued entry.taskExecutionId ∨ entry.taskExecutionId ∈ action.enqueued := by
  cases rowFrom_of_step h he with
  | kept hold => exact Or.inl ⟨entry, hold, rfl⟩
  | inserted _ hids => exact Or.inr hids
  | renewed hold _ => exact Or.inl ⟨_, hold, rfl⟩
  | freed hold => exact Or.inl ⟨_, hold, rfl⟩
  | leased _ hold _ _ => exact Or.inl ⟨_, hold, rfl⟩

/-- A task execution stays in the queue until a claim of it is finished. -/
theorem queued_after {action : QueueAction} (h : db.step leaseTimeout action = some db')
    {i : UUID} (hi : db.Queued i) :
    db'.Queued i ∨ ∃ claim ids now, action = .finish claim ids now ∧
      claim.taskExecutionId = i := by
  obtain ⟨entry, he, rfl⟩ := hi
  have hmap : ∀ {f : QueueEntryModel → QueueEntryModel}, (∀ e, (f e).taskExecutionId =
      e.taskExecutionId) → ∃ e ∈ db.queue.map f, e.taskExecutionId = entry.taskExecutionId :=
    fun hf => ⟨_, List.mem_map.mpr ⟨entry, he, rfl⟩, hf entry⟩
  cases action with
  | enqueue ids now =>
      obtain ⟨-, rfl⟩ := step_enqueue h
      exact Or.inl ⟨entry, mem_insertQueueEntries.mpr (Or.inl he), rfl⟩
  | lock session workerId skipped now =>
      obtain ⟨-, -, rfl | ⟨_, -, -, -, rfl⟩⟩ := step_lock h
      · exact Or.inl ⟨entry, he, rfl⟩
      · exact Or.inl ⟨entry, he, rfl⟩
  | grant session claimToken =>
      obtain ⟨x, -, -, rfl⟩ := step_grant h
      exact Or.inl (hmap fun e => by split <;> rfl)
  | abort session => rw [step_abort h]; exact Or.inl ⟨entry, he, rfl⟩
  | heartbeat claim now =>
      obtain ⟨-, -, rfl⟩ := step_heartbeat h
      exact Or.inl (hmap fun e => by split <;> rfl)
  | release claim =>
      obtain ⟨-, rfl⟩ := step_release h
      exact Or.inl (hmap fun e => by split <;> rfl)
  | finish claim ids now =>
      obtain ⟨-, -, rfl⟩ := step_finish h
      by_cases hc : claim.holds entry = true
      · exact Or.inr ⟨claim, ids, now, rfl, (Claim.holds_iff.mp hc).1.symm⟩
      · exact Or.inl ⟨entry, mem_finish_of_not_holds he (Bool.not_eq_true _ ▸ hc), rfl⟩

/-- A row that no current claim is working on stays as it is, unless its claim is granted. -/
theorem mem_of_step {action : QueueAction} (h : db.step leaseTimeout action = some db')
    {entry : QueueEntryModel} (he : entry ∈ db.queue)
    (hlocked : (db.locks entry.taskExecutionId).isSome = true)
    (hgrant : ∀ session claimToken x, action = .grant session claimToken →
      db.claiming session = some x → x.queueEntry.taskExecutionId ≠ entry.taskExecutionId) :
    entry ∈ db'.queue := by
  -- A statement that matches the row would have to wait for its lock.
  have hfree : ∀ claim : Claim, db.free claim = true → claim.holds entry = false := by
    intro claim hfree
    by_contra hc
    rw [Bool.not_eq_false] at hc
    unfold free at hfree
    rw [current_iff.mpr ⟨entry, he, hc⟩, ← (Claim.holds_iff.mp hc).1] at hfree
    cases hl : db.locks entry.taskExecutionId <;> simp [hl] at hlocked hfree
  have hmap : ∀ {f : QueueEntryModel → QueueEntryModel}, f entry = entry →
      entry ∈ db.queue.map f := fun hf => List.mem_map.mpr ⟨entry, he, hf⟩
  cases action with
  | enqueue ids now =>
      obtain ⟨-, rfl⟩ := step_enqueue h
      exact mem_insertQueueEntries.mpr (Or.inl he)
  | lock session workerId skipped now =>
      obtain ⟨-, -, rfl | ⟨_, -, -, -, rfl⟩⟩ := step_lock h
      · exact he
      · exact he
  | grant session claimToken =>
      obtain ⟨x, hx, -, rfl⟩ := step_grant h
      exact hmap (if_neg fun hid => hgrant session claimToken x rfl hx hid.symm)
  | abort session => rw [step_abort h]; exact he
  | heartbeat claim now =>
      obtain ⟨-, hf, rfl⟩ := step_heartbeat h
      exact hmap (if_neg (by rw [hfree claim hf]; simp))
  | release claim =>
      obtain ⟨hf, rfl⟩ := step_release h
      exact hmap (if_neg (by rw [hfree claim hf]; simp))
  | finish claim ids now =>
      obtain ⟨-, hf, rfl⟩ := step_finish h
      exact mem_finish_of_not_holds he (hfree claim hf)

/-- A step does not set the clock back. -/
theorem clock_le_of_step {action : QueueAction} (h : db.step leaseTimeout action = some db') :
    db.clock ≤ db'.clock := by
  cases action with
  | enqueue ids now => obtain ⟨hnow, rfl⟩ := step_enqueue h; exact hnow
  | lock session workerId skipped now =>
      obtain ⟨hnow, -, rfl | ⟨_, -, -, -, rfl⟩⟩ := step_lock h
      · exact hnow
      · exact hnow
  | grant session claimToken => obtain ⟨_, -, -, rfl⟩ := step_grant h; exact le_refl _
  | abort session => rw [step_abort h]
  | heartbeat claim now => obtain ⟨hnow, -, rfl⟩ := step_heartbeat h; exact hnow
  | release claim => obtain ⟨-, rfl⟩ := step_release h; exact le_refl _
  | finish claim ids now => obtain ⟨hnow, -, rfl⟩ := step_finish h; exact hnow

/-- What was handed out stays handed out. -/
theorem granted_of_step {action : QueueAction} (h : db.step leaseTimeout action = some db')
    {claim : Claim} (hc : claim ∈ db.granted) : claim ∈ db'.granted := by
  cases action with
  | enqueue ids now => obtain ⟨-, rfl⟩ := step_enqueue h; exact hc
  | lock session workerId skipped now =>
      obtain ⟨-, -, rfl | ⟨_, -, -, -, rfl⟩⟩ := step_lock h
      · exact hc
      · exact hc
  | grant session claimToken =>
      obtain ⟨_, -, -, rfl⟩ := step_grant h
      exact List.mem_append_left _ hc
  | abort session => rw [step_abort h]; exact hc
  | heartbeat claim now => obtain ⟨-, -, rfl⟩ := step_heartbeat h; exact hc
  | release claim => obtain ⟨-, rfl⟩ := step_release h; exact hc
  | finish claim ids now => obtain ⟨-, -, rfl⟩ := step_finish h; exact hc

/-! ### The invariant -/

/-- How the rows, their leases and the claims in flight hang together. -/
structure Leases (leaseTimeout : Timedelta) (db : QueueDb) : Prop where
  unique : (db.queue.map (·.taskExecutionId)).Nodup
  coherent : ∀ entry ∈ db.queue, entry.Coherent
  /-- No lease was renewed later than now. -/
  past : ∀ entry ∈ db.queue, ∀ t, entry.lastHeartbeat = some t → t ≤ db.clock
  /-- A row's token was handed out, and for that row. -/
  granted : ∀ entry ∈ db.queue, ∀ token, entry.claimToken = some token →
    ⟨entry.taskExecutionId, token⟩ ∈ db.granted
  /-- The row a claim has locked is still the one it found, and was claimable then. -/
  claiming : ∀ session x, db.claiming session = some x → x.now ≤ db.clock ∧
    db.locks x.queueEntry.taskExecutionId = some session ∧ x.queueEntry ∈ db.queue ∧
    x.queueEntry.claimable (x.now - leaseTimeout) = true

theorem leases_init (clock : Datetime) : Leases leaseTimeout (init clock) where
  unique := List.nodup_nil
  coherent := fun entry he => absurd he List.not_mem_nil
  past := fun entry he => absurd he List.not_mem_nil
  granted := fun entry he => absurd he List.not_mem_nil
  claiming := fun session x hx => by simp [init] at hx

/-- A row that a step has written is coherent, of the past, and its token was handed out. -/
theorem Leases.rowFrom (h : Leases leaseTimeout db) {action : QueueAction}
    (hs : db.step leaseTimeout action = some db') {entry : QueueEntryModel}
    (he : RowFrom db action entry) :
    entry.Coherent ∧ (∀ t, entry.lastHeartbeat = some t → t ≤ db'.clock) ∧
      ∀ token, entry.claimToken = some token →
        (⟨entry.taskExecutionId, token⟩ : Claim) ∈ db'.granted := by
  have hclock := clock_le_of_step hs
  cases he with
  | kept he =>
      exact ⟨h.coherent entry he, fun t ht => (h.past entry he t ht).trans hclock,
        fun token ht => granted_of_step hs (h.granted entry he token ht)⟩
  | inserted => exact ⟨Or.inl ⟨rfl, rfl, rfl, rfl⟩, by simp, by simp⟩
  | @renewed claim now entry he hc =>
      obtain ⟨hnow, -, rfl⟩ := step_heartbeat hs
      obtain ⟨hid, htoken⟩ := Claim.holds_iff.mp hc
      refine ⟨?_, ?_, fun token ht => h.granted entry he token ht⟩
      · rcases h.coherent entry he with ⟨hnone, -⟩ | ⟨_, _, t, r, h₁, h₂, h₃, h₄, hle⟩
        · rw [hnone] at htoken; simp at htoken
        · -- The lease is from the past, so its renewal does not come before it.
          exact Or.inr ⟨_, _, t, now, h₁, h₂, h₃, rfl,
            (hle.trans (h.past entry he r h₄)).trans hnow⟩
      · intro t ht
        have ht : now = t := Option.some.inj ht
        exact le_of_eq ht.symm
  | freed he => exact ⟨Or.inl ⟨rfl, rfl, rfl, rfl⟩, by simp [QueueEntryModel.free],
      by simp [QueueEntryModel.free]⟩
  | @leased session claimToken x entry hx he hid hfresh =>
      obtain ⟨y, hy, -, rfl⟩ := step_grant hs
      rw [hx, Option.some.injEq] at hy
      subst hy
      refine ⟨Or.inr ⟨_, _, _, _, rfl, rfl, rfl, rfl, le_refl _⟩, ?_, ?_⟩
      · intro t ht
        have ht : x.now = t := Option.some.inj ht
        exact ht ▸ (h.claiming session x hx).1
      · intro token ht
        have ht : claimToken = token := Option.some.inj ht
        show (⟨entry.taskExecutionId, token⟩ : Claim) ∈ _
        rw [hid, ← ht]
        exact List.mem_append_right _ (by simp)

theorem unique_of_step {action : QueueAction} (hs : db.step leaseTimeout action = some db')
    (h : (db.queue.map (·.taskExecutionId)).Nodup) :
    (db'.queue.map (·.taskExecutionId)).Nodup := by
  cases action with
  | enqueue ids now =>
      obtain ⟨-, rfl⟩ := step_enqueue hs
      exact nodup_insertQueueEntries h
  | lock session workerId skipped now =>
      obtain ⟨-, -, rfl | ⟨_, -, -, -, rfl⟩⟩ := step_lock hs
      · exact h
      · exact h
  | grant session claimToken =>
      obtain ⟨_, -, -, rfl⟩ := step_grant hs
      show ((db.queue.map _).map _).Nodup
      rw [map_ids fun e => by split <;> rfl]
      exact h
  | abort session => rw [step_abort hs]; exact h
  | heartbeat claim now =>
      obtain ⟨-, -, rfl⟩ := step_heartbeat hs
      show ((db.queue.map _).map _).Nodup
      rw [map_ids fun e => by split <;> rfl]
      exact h
  | release claim =>
      obtain ⟨-, rfl⟩ := step_release hs
      show ((db.queue.map _).map _).Nodup
      rw [map_ids fun e => by split <;> rfl]
      exact h
  | finish claim ids now =>
      obtain ⟨-, -, rfl⟩ := step_finish hs
      exact nodup_finish h

/-- Where a claim in flight comes from, and that its lock stays. -/
theorem claiming_of_step {action : QueueAction} (hs : db.step leaseTimeout action = some db')
    {session : Nat} {x : Claiming} (hx : db'.claiming session = some x) :
    (db.claiming session = some x ∧ (∀ token, action ≠ .grant session token) ∧
      (db.locks x.queueEntry.taskExecutionId = some session →
        db'.locks x.queueEntry.taskExecutionId = some session)) ∨
    (x.queueEntry ∈ db.queue ∧ x.queueEntry.claimable (x.now - leaseTimeout) = true ∧
      db'.queue = db.queue ∧ db'.clock = x.now ∧
      db'.locks x.queueEntry.taskExecutionId = some session) := by
  -- A claim that ends in another session takes no lock but its own.
  have hend : ∀ s, Function.update db.claiming s none session = some x →
      db.claiming session = some x ∧ s ≠ session ∧
        (db.locks x.queueEntry.taskExecutionId = some session →
          db.unlock s x.queueEntry.taskExecutionId = some session) := by
    intro s hsx
    have hne : s ≠ session := fun hc => by simp [hc] at hsx
    rw [Function.update_of_ne hne.symm] at hsx
    refine ⟨hsx, hne, fun hl => ?_⟩
    unfold unlock
    rw [hl, if_neg fun hc => hne (Option.some.inj hc).symm]
  cases action with
  | enqueue ids now =>
      obtain ⟨-, rfl⟩ := step_enqueue hs
      exact Or.inl ⟨hx, by simp, id⟩
  | lock s workerId skipped now =>
      obtain ⟨-, hidle, rfl | ⟨entry, hmem, hclaimable, hfree, rfl⟩⟩ := step_lock hs
      · exact Or.inl ⟨hx, by simp, id⟩
      · by_cases hne : session = s
        · subst hne
          replace hx : Function.update db.claiming session _ session = some x := hx
          rw [Function.update_self, Option.some.injEq] at hx
          subst hx
          exact Or.inr ⟨hmem, hclaimable, rfl, rfl, Function.update_self ..⟩
        · replace hx : db.claiming session = some x := (Function.update_of_ne hne ..).symm.trans hx
          refine Or.inl ⟨hx, by simp, fun hl => ?_⟩
          show Function.update db.locks _ _ _ = _
          rw [Function.update_of_ne, hl]
          intro hc
          rw [← hc, hl] at hfree
          simp at hfree
  | grant s claimToken =>
      obtain ⟨_, -, -, rfl⟩ := step_grant hs
      obtain ⟨hx, hne, hl⟩ := hend s hx
      exact Or.inl ⟨hx, fun token hc => hne (QueueAction.grant.inj hc).1, hl⟩
  | abort s =>
      rw [step_abort hs] at hx ⊢
      obtain ⟨hx, -, hl⟩ := hend s hx
      exact Or.inl ⟨hx, by simp, hl⟩
  | heartbeat claim now =>
      obtain ⟨-, -, rfl⟩ := step_heartbeat hs
      exact Or.inl ⟨hx, by simp, id⟩
  | release claim =>
      obtain ⟨-, rfl⟩ := step_release hs
      exact Or.inl ⟨hx, by simp, id⟩
  | finish claim ids now =>
      obtain ⟨-, -, rfl⟩ := step_finish hs
      exact Or.inl ⟨hx, by simp, id⟩

/-- **Every step keeps the invariant.** -/
theorem Leases.step (h : Leases leaseTimeout db) {action : QueueAction}
    (hs : db.step leaseTimeout action = some db') : Leases leaseTimeout db' where
  unique := unique_of_step hs h.unique
  coherent := fun _ he => (h.rowFrom hs (rowFrom_of_step hs he)).1
  past := fun _ he => (h.rowFrom hs (rowFrom_of_step hs he)).2.1
  granted := fun _ he => (h.rowFrom hs (rowFrom_of_step hs he)).2.2
  claiming := by
    intro session x hx
    rcases claiming_of_step hs hx with ⟨hold, hgrant, hlock⟩ | ⟨hmem, hc, hq, hclock, hlock⟩
    · obtain ⟨hnow, hl, hmem, hc⟩ := h.claiming session x hold
      refine ⟨hnow.trans (clock_le_of_step hs), hlock hl, ?_, hc⟩
      refine mem_of_step hs hmem (by rw [hl]; rfl) ?_
      -- Two sessions have not locked the same row.
      intro s token y ha hy hid
      have hly := (h.claiming s y hy).2.1
      rw [hid, hl, Option.some.injEq] at hly
      exact hgrant token (hly ▸ ha)
    · exact ⟨le_of_eq hclock.symm, hlock, hq ▸ hmem, hc⟩

theorem Reachable.leases (h : Reachable leaseTimeout db) : Leases leaseTimeout db := by
  induction h with
  | init clock => exact leases_init clock
  | step _ action hs ih => exact ih.step hs

/-! ### Claims that are over -/

/-- The step supersedes, releases or finishes the claim. -/
def Ends (db : QueueDb) (claim : Claim) : QueueAction → Prop
  | .grant session _ => ∃ x, db.claiming session = some x ∧
      x.queueEntry.taskExecutionId = claim.taskExecutionId
  | .release c => c = claim
  | .finish c _ _ => c = claim
  | _ => False

/-- A claim that was current is not after a step that ends it. -/
theorem ended {claim : Claim} (hgranted : claim ∈ db.granted) {action : QueueAction}
    (hs : db.step leaseTimeout action = some db') (hends : db.Ends claim action) :
    db'.current claim = false := by
  rw [current_eq_false]
  intro entry he
  cases action with
  | grant session claimToken =>
      obtain ⟨x, hx, hid⟩ := hends
      obtain ⟨y, hy, hfresh, rfl⟩ := step_grant hs
      rw [hx, Option.some.injEq] at hy
      subst hy
      obtain ⟨e, -, rfl⟩ := List.mem_map.mp he
      rw [← Bool.not_eq_true, Claim.holds_iff]
      split
      · -- The row carries the new token, which is none of those handed out before.
        intro hc
        exact hfresh claim hgranted (Option.some.inj hc.2).symm
      · rename_i hne
        exact fun hc => hne (hc.1.trans hid.symm)
  | release c =>
      obtain rfl : c = claim := hends
      obtain ⟨-, rfl⟩ := step_release hs
      obtain ⟨e, -, rfl⟩ := List.mem_map.mp he
      split
      · simp [Claim.holds, QueueEntryModel.free]
      · rename_i hc
        simpa using hc
  | finish c ids now =>
      obtain rfl : c = claim := hends
      obtain ⟨-, -, rfl⟩ := step_finish hs
      rcases mem_finish he with ⟨-, hc⟩ | ⟨-, -, hnew⟩
      · exact hc
      · rw [hnew]; simp [Claim.holds]
  | enqueue ids now => exact hends.elim
  | lock session workerId skipped now => exact hends.elim
  | abort session => exact hends.elim
  | heartbeat c now => exact hends.elim

/-- A claim that was handed out and is not current does not become current again. -/
theorem stale_of_step {claim : Claim} (hgranted : claim ∈ db.granted)
    (hstale : db.current claim = false) {action : QueueAction}
    (hs : db.step leaseTimeout action = some db') : db'.current claim = false := by
  rw [current_eq_false] at hstale ⊢
  intro entry he
  cases rowFrom_of_step hs he with
  | kept he => exact hstale entry he
  | inserted => simp [Claim.holds]
  | @renewed c now e he' hc => exact hstale e he'
  | freed he => simp [Claim.holds, QueueEntryModel.free]
  | @leased session claimToken x e hx he hid hfresh =>
      rw [← Bool.not_eq_true, Claim.holds_iff]
      exact fun hc => hfresh claim hgranted (Option.some.inj hc.2).symm

theorem stale_of_steps {claim : Claim} :
    ∀ {actions : List QueueAction} {db : QueueDb}, claim ∈ db.granted →
      db.current claim = false → db.steps leaseTimeout actions = some db' →
        db'.current claim = false := by
  intro actions
  induction actions with
  | nil =>
      intro db _ hstale hs
      simp only [steps, List.foldlM_nil, Option.pure_def, Option.some.injEq] at hs
      exact hs ▸ hstale
  | cons a rest ih =>
      intro db hgranted hstale hs
      simp only [steps, List.foldlM_cons, Option.bind_eq_bind, Option.bind_eq_some_iff] at hs
      obtain ⟨mid, hmid, hrest⟩ := hs
      exact ih (granted_of_step hmid hgranted) (stale_of_step hgranted hstale hmid) hrest

/-! ### Leases that are renewed -/

/-- The claim's lease was last renewed less than the timeout ago. -/
def Renewed (leaseTimeout : Timedelta) (db : QueueDb) (claim : Claim) : Prop :=
  ∀ entry ∈ db.queue, claim.holds entry = true → ∀ t, entry.lastHeartbeat = some t →
    db.clock < t + leaseTimeout

/-- A claim about to be granted replaces an expired lease, or none. -/
theorem Leases.expired (h : Leases leaseTimeout db) {session : Nat} {x : Claiming}
    (hx : db.claiming session = some x) {entry : QueueEntryModel} (he : entry ∈ db.queue)
    (hid : entry.taskExecutionId = x.queueEntry.taskExecutionId) {token : UUID}
    (htoken : entry.claimToken = some token) :
    ∃ t, entry.lastHeartbeat = some t ∧ t ≤ x.now - leaseTimeout := by
  obtain ⟨-, -, hmem, hclaimable⟩ := h.claiming session x hx
  obtain rfl : entry = x.queueEntry := List.inj_on_of_nodup_map h.unique he hmem hid
  rcases h.coherent _ he with ⟨hnone, -⟩ | ⟨_, w, _, t, -, hw, -, ht, -⟩
  · rw [hnone] at htoken; simp at htoken
  · refine ⟨t, ht, ?_⟩
    unfold QueueEntryModel.claimable at hclaimable
    rw [hw, ht] at hclaimable
    simpa using hclaimable

/-- A lease that is renewed in time is lost by nothing but its own release or finish. -/
theorem Leases.kept (h : Leases leaseTimeout db) {claim : Claim} (hc : db.current claim = true)
    (hrenewed : db.Renewed leaseTimeout claim) {action : QueueAction}
    (hs : db.step leaseTimeout action = some db') (hrelease : action ≠ .release claim)
    (hfinish : ∀ ids now, action ≠ .finish claim ids now) : db'.current claim = true := by
  obtain ⟨entry, he, hh⟩ := current_iff.mp hc
  obtain ⟨hid, htoken⟩ := Claim.holds_iff.mp hh
  have hsame : ∀ c : Claim, c.holds entry = true → c = claim := by
    intro c hc
    obtain ⟨hcid, hctoken⟩ := Claim.holds_iff.mp hc
    rw [htoken, Option.some.injEq] at hctoken
    cases c
    cases claim
    simp_all
  rw [current_iff]
  cases action with
  | enqueue ids now =>
      obtain ⟨-, rfl⟩ := step_enqueue hs
      exact ⟨entry, mem_insertQueueEntries.mpr (Or.inl he), hh⟩
  | lock session workerId skipped now =>
      obtain ⟨-, -, rfl | ⟨_, -, -, -, rfl⟩⟩ := step_lock hs
      · exact ⟨entry, he, hh⟩
      · exact ⟨entry, he, hh⟩
  | grant session claimToken =>
      obtain ⟨x, hx, -, rfl⟩ := step_grant hs
      refine ⟨entry, List.mem_map.mpr ⟨entry, he, if_neg fun hxid => ?_⟩, hh⟩
      obtain ⟨t, ht, hexpired⟩ := h.expired hx he hxid htoken
      have hlate := hrenewed entry he hh t ht
      have hnow := (h.claiming session x hx).1
      linarith
  | abort session => rw [step_abort hs]; exact ⟨entry, he, hh⟩
  | heartbeat c now =>
      obtain ⟨-, -, rfl⟩ := step_heartbeat hs
      refine ⟨_, List.mem_map.mpr ⟨entry, he, rfl⟩, ?_⟩
      split
      · exact hh
      · exact hh
  | release c =>
      obtain ⟨-, rfl⟩ := step_release hs
      refine ⟨entry, List.mem_map.mpr ⟨entry, he, if_neg fun hce => hrelease ?_⟩, hh⟩
      rw [hsame c hce]
  | finish c ids now =>
      obtain ⟨-, -, rfl⟩ := step_finish hs
      refine ⟨entry, mem_finish_of_not_holds he ?_, hh⟩
      rw [← Bool.not_eq_true]
      intro hce
      exact hfinish ids now (by rw [hsame c hce])

theorem Leases.kept_steps {claim : Claim} :
    ∀ {actions : List QueueAction} {db : QueueDb}, Leases leaseTimeout db →
      db.current claim = true →
      (∀ before action after, actions = before ++ action :: after →
        action ≠ .release claim ∧ (∀ ids now, action ≠ .finish claim ids now) ∧
        ∀ mid, db.steps leaseTimeout before = some mid → mid.Renewed leaseTimeout claim) →
      db.steps leaseTimeout actions = some db' → db'.current claim = true := by
  intro actions
  induction actions with
  | nil =>
      intro db _ hc _ hs
      simp only [steps, List.foldlM_nil, Option.pure_def, Option.some.injEq] at hs
      exact hs ▸ hc
  | cons a rest ih =>
      intro db h hc hall hs
      simp only [steps, List.foldlM_cons, Option.bind_eq_bind, Option.bind_eq_some_iff] at hs
      obtain ⟨mid, hmid, hrest⟩ := hs
      obtain ⟨hrelease, hfinish, hrenewed⟩ := hall [] a rest rfl
      refine ih (h.step hmid) (h.kept hc (hrenewed db rfl) hmid hrelease hfinish) ?_ hrest
      intro before action after hsplit
      obtain ⟨h₁, h₂, h₃⟩ := hall (a :: before) action after (by rw [hsplit]; rfl)
      refine ⟨h₁, h₂, fun m hm => h₃ m ?_⟩
      simp only [steps, List.foldlM_cons, Option.bind_eq_bind, Option.bind_eq_some_iff]
      exact ⟨mid, hmid, hm⟩

end QueueDb

/-! ### The protocol -/

/-- What the queue promises the holders of claims, of a state and of what may follow it. -/
structure LeaseProtocol (leaseTimeout : Timedelta) (db : QueueDb) : Prop where
  /-- No task has two rows. -/
  unique : (db.queue.map (·.taskExecutionId)).Nodup
  /-- A lease is there whole or not at all. -/
  coherent : ∀ entry ∈ db.queue, entry.Coherent
  /-- Once superseded, released or finished, a claim is never current again, and its
  holder's operations do nothing. -/
  stale : ∀ claim ∈ db.granted, ∀ action db₁, db.step leaseTimeout action = some db₁ →
    db.Ends claim action → ∀ actions db', db₁.steps leaseTimeout actions = some db' →
      db'.current claim = false ∧
      (∀ now, PostgresExecutionQueue.heartbeat db'.queue claim now = (db'.queue, false)) ∧
      PostgresExecutionQueue.release db'.queue claim = db'.queue ∧
      ∀ ids now, PostgresExecutionQueue.finish db'.queue claim ids now = db'.queue
  /-- A claim replaces only a lease that expired by the time it looked. -/
  expired : ∀ session claimToken db', db.step leaseTimeout (.grant session claimToken) = some db' →
    ∃ x, db.claiming session = some x ∧ ∀ entry ∈ db.queue,
      entry.taskExecutionId = x.queueEntry.taskExecutionId → ∀ token,
        entry.claimToken = some token →
        ∃ t, entry.lastHeartbeat = some t ∧ t ≤ x.now - leaseTimeout
  /-- Whoever renews in time stays the holder until it releases or finishes. -/
  kept : ∀ claim, db.current claim = true → ∀ actions db',
    (∀ before action after, actions = before ++ action :: after →
      action ≠ .release claim ∧ (∀ ids now, action ≠ .finish claim ids now) ∧
      ∀ mid, db.steps leaseTimeout before = some mid → mid.Renewed leaseTimeout claim) →
    db.steps leaseTimeout actions = some db' → db'.current claim = true

/-- **The queue keeps its lease protocol.** -/
theorem lease_protocol {leaseTimeout : Timedelta} {db : QueueDb}
    (h : QueueDb.Reachable leaseTimeout db) : LeaseProtocol leaseTimeout db where
  unique := h.leases.unique
  coherent := h.leases.coherent
  stale := by
    intro claim hgranted action db₁ hs hends actions db' hrun
    have hstale := QueueDb.stale_of_steps (QueueDb.granted_of_step hs hgranted)
      (QueueDb.ended hgranted hs hends) hrun
    exact ⟨hstale, PostgresExecutionQueue.heartbeat_stale hstale,
      PostgresExecutionQueue.release_stale hstale, PostgresExecutionQueue.finish_stale hstale⟩
  expired := by
    intro session claimToken db' hs
    obtain ⟨x, hx, -, -⟩ := QueueDb.step_grant hs
    exact ⟨x, hx, fun entry he hid token htoken => h.leases.expired hx he hid htoken⟩
  kept := fun claim hc actions db' hall hs => h.leases.kept_steps hc hall hs

/-- Two tasks are enqueued and one of them claimed, renewed late, and claimed again. -/
def leaseSteps : List QueueAction :=
  [.enqueue [1, 2] 0, .lock 0 7 [] 1, .grant 0 100, .heartbeat ⟨1, 100⟩ 5,
    .lock 1 8 [2] 20, .grant 1 101]

/-- The run is possible, so the protocol holds where it leads. -/
theorem lease_protocol_sample :
    ∃ db, (QueueDb.init 0).steps 10 leaseSteps = some db ∧
      db.current ⟨1, 100⟩ = false ∧ db.current ⟨1, 101⟩ = true ∧ LeaseProtocol 10 db :=
  ⟨_, rfl, rfl, rfl, lease_protocol (.step (.step (.step (.step (.step (.step (.init 0)
    (.enqueue [1, 2] 0) rfl) (.lock 0 7 [] 1) rfl) (.grant 0 100) rfl)
    (.heartbeat ⟨1, 100⟩ 5) rfl) (.lock 1 8 [2] 20) rfl) (.grant 1 101) rfl)⟩

end AutomationPlatform
