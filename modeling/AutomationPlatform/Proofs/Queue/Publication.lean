/-
The laws of publication.

Start, finish and reconciliation publish the same tasks again and again, in any order.
Nothing is lost by that, and nothing disturbed: the queue is a set of tasks to which
publication adds, and a row that is there stays as it is, lease and all.

The only trace of the order is `queued_at` of the rows that are new, so queues that differ
in nothing else are compared with the times of those rows taken out.
-/
import AutomationPlatform.Proofs.Queue.Lease

namespace AutomationPlatform

namespace PostgresExecutionQueue

variable {queue : ExecutionQueue}

/-! ### What is found after publishing -/

/-- The row of a task execution. -/
abbrev entry (queue : ExecutionQueue) (taskExecutionId : UUID) : Option QueueEntryModel :=
  Sql.find (·.taskExecutionId) queue taskExecutionId

/-- The table has one row a task. -/
abbrev PrimaryKey (queue : ExecutionQueue) : Prop := Sql.Keyed (·.taskExecutionId) queue

/-- **What is there stays; what is not is there unleased.** -/
theorem entry_enqueue (queue : ExecutionQueue) (ids : List UUID) (now : Datetime) (i : UUID) :
    entry (enqueue queue ids now) i =
      (entry queue i).or
        (if i ∈ ids then some { taskExecutionId := i, queuedAt := now } else none) := by
  rw [enqueue, insertQueueEntries_eq, entry, Sql.find_insertAbsent, find_queued]

/-- The queue is such a table in every state its sessions reach. -/
theorem reachable_primaryKey {leaseTimeout : Timedelta} {db : QueueDb}
    (h : QueueDb.Reachable leaseTimeout db) : PrimaryKey db.queue :=
  h.leases.unique

theorem PrimaryKey.enqueue (h : PrimaryKey queue) (ids : List UUID) (now : Datetime) :
    PrimaryKey (enqueue queue ids now) :=
  nodup_insertQueueEntries h

theorem enqueue_append (queue : ExecutionQueue) (xs ys : List UUID) (now : Datetime) :
    enqueue queue (xs ++ ys) now = enqueue (enqueue queue xs now) ys now := by
  simp only [enqueue, insertQueueEntries_eq, List.map_append, Sql.insertAbsent_append]

/-- Publishing what is there already does nothing. -/
theorem enqueue_of_present {ids : List UUID} (h : ∀ i ∈ ids, (entry queue i).isSome = true)
    (now : Datetime) : enqueue queue ids now = queue := by
  rw [enqueue, insertQueueEntries_eq]
  refine Sql.insertAbsent_of_present fun e he => ?_
  obtain ⟨i, hi, rfl⟩ := List.mem_map.mp he
  exact h i hi

/-! ### Queues that differ in the times of new rows -/

/-- The row, without its time if it is none of the queue's. -/
def untimed (queue : ExecutionQueue) (e : QueueEntryModel) : QueueEntryModel :=
  if (entry queue e.taskExecutionId).isSome then e else { e with queuedAt := 0 }

/-- The same rows, but for `queued_at` of those that the first queue does not have. -/
def AgreeOnAllButQueuedAt (queue after after' : ExecutionQueue) : Prop :=
  (after.map (untimed queue)).Perm (after'.map (untimed queue))

theorem untimed_taskExecutionId (queue : ExecutionQueue) (e : QueueEntryModel) :
    (untimed queue e).taskExecutionId = e.taskExecutionId := by
  unfold untimed
  split <;> rfl

theorem entry_map_untimed (queue after : ExecutionQueue) (i : UUID) :
    entry (after.map (untimed queue)) i = (entry after i).map (untimed queue) := by
  unfold entry Sql.find
  rw [List.find?_map]
  congr 2
  funext e
  simp [untimed_taskExecutionId]

/-- Queues agree so when they find the same rows, but for those times. -/
theorem agreeOnAllButQueuedAt_of_entry {after after' : ExecutionQueue} (h : PrimaryKey after)
    (h' : PrimaryKey after')
    (hentry : ∀ i, (entry after i).map (untimed queue) = (entry after' i).map (untimed queue)) :
    AgreeOnAllButQueuedAt queue after after' := by
  have hkeyed : ∀ {after : ExecutionQueue}, PrimaryKey after →
      PrimaryKey (after.map (untimed queue)) := by
    intro after h
    unfold PrimaryKey Sql.Keyed
    rw [map_ids (untimed_taskExecutionId queue)]
    exact h
  refine Sql.perm_of_find (hkeyed h) (hkeyed h') fun i => ?_
  exact (entry_map_untimed queue after i).trans
    ((hentry i).trans (entry_map_untimed queue after' i).symm)

/-- What is found after publishing twice, but for those times, is what was there and the union. -/
theorem entry_enqueue_enqueue (xs ys : List UUID) (now now' : Datetime) (i : UUID) :
    (entry (enqueue (enqueue queue xs now) ys now') i).map (untimed queue) =
      (entry queue i).or
        (if i ∈ xs ∨ i ∈ ys then some { taskExecutionId := i, queuedAt := 0 } else none) := by
  rw [entry_enqueue, entry_enqueue]
  cases hq : entry queue i with
  | some e =>
      have hid : e.taskExecutionId = i := Sql.key_of_find hq
      simp [untimed, hid, hq]
  | none =>
      have hnew : ∀ time : Datetime,
          untimed queue { taskExecutionId := i, queuedAt := time } =
            { taskExecutionId := i, queuedAt := 0 } := by
        intro time
        simp [untimed, hq]
      by_cases hx : i ∈ xs
      · simp [hx, hnew]
      · by_cases hy : i ∈ ys <;> simp [hx, hy, hnew]

/-! ### The laws -/

/-- What publishing some tasks does to the queue. -/
structure Published (queue : ExecutionQueue) (ids : List UUID) (now : Datetime)
    (after : ExecutionQueue) : Prop where
  primaryKey : PrimaryKey after
  /-- Every row is still there, with all its columns. -/
  kept : ∀ e ∈ queue, e ∈ after
  /-- A task without a row has one row now, and nobody holds it. -/
  added : ∀ i ∈ ids, (∀ e ∈ queue, e.taskExecutionId ≠ i) →
    after.filter (fun e => e.taskExecutionId = i) =
      [{ taskExecutionId := i, claimToken := none, claimedBy := none, queuedAt := now,
         claimedAt := none, lastHeartbeat := none }]
  /-- Nothing else is. -/
  only : ∀ e ∈ after, e ∈ queue ∨
    e.taskExecutionId ∈ ids ∧ ∀ e' ∈ queue, e'.taskExecutionId ≠ e.taskExecutionId

theorem published_enqueue (h : PrimaryKey queue) (ids : List UUID) (now : Datetime) :
    Published queue ids now (enqueue queue ids now) where
  primaryKey := h.enqueue ids now
  kept _ he := mem_insertQueueEntries.mpr (Or.inl he)
  added i hi hnew := by
    have hentry : entry (enqueue queue ids now) i =
        some { taskExecutionId := i, queuedAt := now } := by
      rw [entry_enqueue, entry, Sql.find_eq_none.mpr hnew, if_pos hi]
      rfl
    rw [Sql.filter_key (h.enqueue ids now) i]
    exact congrArg Option.toList hentry
  only _ he := (mem_insertQueueEntries.mp he).imp_right fun hnew => ⟨hnew.1, hnew.2.1⟩

/-- Removing the claimed row is removing the row of its task. -/
theorem filter_not_holds (h : PrimaryKey queue) {claim : Claim}
    (hcurrent : queue.any claim.holds = true) :
    queue.filter (fun e => !claim.holds e) =
      queue.filter (fun e => e.taskExecutionId ≠ claim.taskExecutionId) := by
  obtain ⟨held, hmem, hheld⟩ := List.any_eq_true.mp hcurrent
  obtain ⟨hid, -⟩ := Claim.holds_iff.mp hheld
  refine List.filter_congr fun e he => ?_
  by_cases hc : e.taskExecutionId = claim.taskExecutionId
  · -- The row of the task is the one the claim holds.
    obtain rfl : e = held := List.inj_on_of_nodup_map h he hmem (hc.trans hid.symm)
    simp [hheld, hc]
  · have hnot : claim.holds e = false := by
      rw [← Bool.not_eq_true, Claim.holds_iff]
      exact fun hholds => hc hholds.1
    simp [hnot, hc]

/-- A current claim is finished by removing its row and publishing. -/
theorem finish_current (h : PrimaryKey queue) {claim : Claim}
    (hcurrent : queue.any claim.holds = true) (ids : List UUID) (now : Datetime) :
    finish queue claim ids now =
      enqueue (queue.filter fun e => e.taskExecutionId ≠ claim.taskExecutionId) ids now := by
  rw [finish, countP_holds h, hcurrent, if_pos rfl, if_pos rfl, filter_not_holds h hcurrent]
  rfl

/-- Publication as a union that may be repeated and reordered. -/
structure PublicationLaws (queue : ExecutionQueue) : Prop where
  published : ∀ ids now, Published queue ids now (enqueue queue ids now)
  twice : ∀ ids now now', enqueue (enqueue queue ids now) ids now' = enqueue queue ids now
  swapped : ∀ xs ys t₁ t₂ t₃ t₄, AgreeOnAllButQueuedAt queue
    (enqueue (enqueue queue xs t₁) ys t₂) (enqueue (enqueue queue ys t₃) xs t₄)
  joined : ∀ xs ys t₁ t₂ t₃, AgreeOnAllButQueuedAt queue
    (enqueue (enqueue queue xs t₁) ys t₂) (enqueue queue (xs ++ ys) t₃)
  finished : ∀ claim ids now, queue.any claim.holds = true →
    finish queue claim ids now =
        enqueue (queue.filter fun e => e.taskExecutionId ≠ claim.taskExecutionId) ids now ∧
      Published (queue.filter fun e => e.taskExecutionId ≠ claim.taskExecutionId) ids now
        (finish queue claim ids now)
  stale : ∀ claim ids now, queue.any claim.holds = false → finish queue claim ids now = queue

/--
**Publication is an idempotent union that never disturbs a lease.**  The queue may be any
table with one row a task.
-/
theorem publication_laws (h : PrimaryKey queue) : PublicationLaws queue where
  published := published_enqueue h
  twice ids now now' := by
    refine enqueue_of_present (fun i hi => ?_) now'
    rw [entry_enqueue, if_pos hi]
    simp
  swapped xs ys t₁ t₂ t₃ t₄ := by
    refine agreeOnAllButQueuedAt_of_entry ((h.enqueue xs t₁).enqueue ys t₂)
      ((h.enqueue ys t₃).enqueue xs t₄) fun i => ?_
    rw [entry_enqueue_enqueue, entry_enqueue_enqueue]
    simp only [or_comm]
  joined xs ys t₁ t₂ t₃ := by
    refine agreeOnAllButQueuedAt_of_entry ((h.enqueue xs t₁).enqueue ys t₂)
      (h.enqueue (xs ++ ys) t₃) fun i => ?_
    rw [enqueue_append, entry_enqueue_enqueue, entry_enqueue_enqueue]
  finished claim ids now hcurrent := by
    rw [finish_current h hcurrent]
    refine ⟨rfl, published_enqueue ?_ ids now⟩
    exact List.Nodup.sublist (List.filter_sublist.map _) h
  stale _ ids now hstale := finish_stale hstale ids now

/-- Task 1 is leased, and task 2 waits. -/
def publicationSample : ExecutionQueue :=
  [{ taskExecutionId := 1, claimToken := some 7, claimedBy := some 9, queuedAt := 10,
     claimedAt := some 20, lastHeartbeat := some 30 },
   { taskExecutionId := 2, queuedAt := 10 }]

theorem publication_laws_sample : PublicationLaws publicationSample :=
  publication_laws (show (publicationSample.map (·.taskExecutionId)).Nodup by decide)

/-- A finished task that is published at once is queued anew, the leased row is left alone. -/
example : (finish publicationSample ⟨1, 7⟩ [1, 3, 3, 2] 40).map
    (fun e => (e.taskExecutionId, e.claimToken, e.queuedAt)) =
      [(2, none, 10), (1, none, 40), (3, none, 40)] := by
  decide

end PostgresExecutionQueue

end AutomationPlatform
