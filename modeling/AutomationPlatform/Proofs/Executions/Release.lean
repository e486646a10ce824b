/-
Every task with parents is released exactly once.

The counter of a task is a cached count of its unfinished parents, and coherence is
what keeps it exact.  A task is handed out when a commit takes its counter to zero.
Since the counter is exact, that is the commit that completes the last parent, and
since a parent is completed once, there is one such commit.

What was handed out is read off the log: the identifiers returned by the commits of
`complete_task`, in the order of the commits.
-/
import AutomationPlatform.Proofs.Executions.Absorbing

namespace AutomationPlatform

/-- The identifiers a commit handed out. -/
def handedOut : Sql.Event RowId Row Call CallResult → List UUID
  | .committed _ (.completed r) _ _ _ => r.runnableTaskExecutionIds
  | _ => []

/-- Everything that was ever handed out. -/
def releasedIds (log : History) : List UUID := log.flatMap handedOut

/-- All parents of the task are completed. -/
def ParentsCompleted (s : ExecutionStore) (t : TaskExecutionModel) : Prop :=
  ∀ p ∈ t.parentTaskIds, completed s p = true

/-- The last parent of a pending task is completed by the commit between the two stores. -/
def LastParentCompletes (before after : ExecutionStore) (i : UUID) : Prop :=
  ∃ t, taskRow before i = some t ∧ t.status = .pending ∧ t.parentTaskIds ≠ [] ∧
    ¬ ParentsCompleted before t ∧ ParentsCompleted after t

theorem unfinishedParents_eq_nil {s : ExecutionStore} {t : TaskExecutionModel} :
    unfinishedParents s t = [] ↔ ParentsCompleted s t := by
  simp [unfinishedParents, ParentsCompleted, List.filter_eq_nil_iff]

theorem released_iff {s : ExecutionStore} {i : UUID} :
    released s i = true ↔
      ∃ t, taskRow s i = some t ∧ t.status = .pending ∧ t.remainingDependencies = 1 := by
  simp [released, Option.any_eq_true]

/-! ### One commit -/

section Commit

variable {s s' base : ExecutionStore}

/-- Only a completion changes which tasks are completed. -/
theorem completed_effect {call : Call} {result : CallResult}
    (heffect : Effect base s call result s') (hcall : ∀ request, call ≠ .completeTask request)
    (i : UUID) : completed s' i = completed s i := by
  cases hi : taskRow s i with
  | none =>
      have hi' : taskRow s' i = none := by simpa [hi] using heffect.isSome_taskRow i
      rw [completed, completed, hi, hi']
  | some t =>
      obtain ⟨t', hi', hstep⟩ := heffect.taskRow_after hi
      rw [completed_of_row hi', completed_of_row hi]
      cases hstep with
      | same => rfl
      | start hpending => rw [hpending]; rfl
      | complete => exact absurd rfl (hcall _)
      | release => exact absurd rfl (hcall _)
      | again _ hrunning => rw [hrunning]; rfl
      | fail _ hrunning => rw [hrunning]; rfl
      | cancel _ hopen =>
          rcases TaskStatus.not_terminal_iff.mp hopen with ho | ho <;> rw [ho] <;> rfl

theorem unfinishedParents_effect {call : Call} {result : CallResult}
    (heffect : Effect base s call result s') (hcall : ∀ request, call ≠ .completeTask request)
    (u : TaskExecutionModel) : unfinishedParents s' u = unfinishedParents s u := by
  refine List.filter_congr fun p _ => ?_
  rw [completed_effect heffect hcall]

/-- A commit that changes nobody's unfinished parents completes no last parent. -/
theorem not_lastParentCompletes {i : UUID}
    (h : ∀ t, unfinishedParents s' t = unfinishedParents s t) : ¬ LastParentCompletes s s' i := by
  rintro ⟨t, -, -, -, hbefore, hafter⟩
  rw [← unfinishedParents_eq_nil, ← h t, unfinishedParents_eq_nil] at hbefore
  exact hbefore hafter

/-- **A commit hands out a task exactly when it completes the task's last parent.** -/
theorem mem_handedOut (h : Coherent s) {call : Call} {result : CallResult}
    (heffect : Effect base s call result s') {i : UUID} :
    i ∈ handedOut (.committed call result base s s') ↔ LastParentCompletes s s' i := by
  by_cases hcall : ∃ request, call = .completeTask request
  · obtain ⟨request, rfl⟩ := hcall
    cases heffect with
    | completeMissed =>
        simp only [handedOut, List.not_mem_nil, false_iff]
        exact not_lastParentCompletes fun _ => rfl
    | @completeDone _ task finished hrow hrunning hfinished =>
        have hunfinished : completed s request.taskExecutionId = false := by
          rw [completed_of_row hrow, hrunning]; rfl
        simp only [handedOut, List.mem_filter, released_iff]
        constructor
        · rintro ⟨hchild, t, hi, hp, hone⟩
          obtain ⟨tc, htc, -, hparent⟩ := h.children _ _ hrow i hchild
          obtain rfl : t = tc := Option.some.inj (hi.symm.trans htc)
          have hmem : request.taskExecutionId ∈ unfinishedParents s t :=
            List.mem_filter.mpr ⟨hparent, by rw [hunfinished]; rfl⟩
          have hcount := h.counter i t hi hp
          refine ⟨t, hi, hp, List.ne_nil_of_mem hparent, ?_, ?_⟩
          · rw [← unfinishedParents_eq_nil]
            exact List.ne_nil_of_mem hmem
          · rw [← unfinishedParents_eq_nil, unfinishedParents_complete h hrow hi,
              ← List.length_eq_zero_iff, List.length_erase_of_mem hmem]
            omega
        · rintro ⟨t, hi, hp, -, hbefore, hafter⟩
          rw [← unfinishedParents_eq_nil] at hbefore hafter
          rw [unfinishedParents_complete h hrow hi] at hafter
          -- Taking one parent off the list emptied it, so it was the only one on it.
          have hmem : request.taskExecutionId ∈ unfinishedParents s t := by
            by_contra hnot
            rw [List.erase_of_not_mem hnot] at hafter
            exact hbefore hafter
          have hlen := List.length_erase_of_mem hmem
          have hpos := List.length_pos_of_mem hmem
          rw [hafter, List.length_nil] at hlen
          have hcount := h.counter i t hi hp
          obtain ⟨tp, htp, -, hchild⟩ := h.parents i t hi _ (List.mem_filter.mp hmem).1
          obtain rfl : task = tp := Option.some.inj (hrow.symm.trans htp)
          exact ⟨hchild, t, hi, hp, by omega⟩
  · have hnot : ∀ request, call ≠ .completeTask request := fun request hc => hcall ⟨request, hc⟩
    have hnone : handedOut (.committed call result base s s') = [] := by
      cases heffect with
      | completeMissed => exact absurd rfl (hnot _)
      | completeDone => exact absurd rfl (hnot _)
      | _ => rfl
    rw [hnone]
    simp only [List.not_mem_nil, false_iff]
    exact not_lastParentCompletes (unfinishedParents_effect heffect hnot)

/-- No commit hands out a task twice. -/
theorem handedOut_nodup (h : Coherent s) {call : Call} {result : CallResult}
    (heffect : Effect base s call result s') :
    (handedOut (.committed call result base s s')).Nodup := by
  cases heffect with
  | completeDone hrow _ _ => exact (h.children_nodup _ _ hrow).filter _
  | _ => exact List.nodup_nil

/-- A completed task stays completed. -/
theorem StoreMove.completed (h : StoreMove s s') {p : UUID} (hp : completed s p = true) :
    AutomationPlatform.completed s' p = true := by
  obtain ⟨t, ht, hc⟩ := completed_iff.mp hp
  obtain ⟨t', ht', hmove⟩ := h.task p t ht
  rw [hmove.terminal (by rw [hc]; rfl)] at ht'
  exact completed_iff.mpr ⟨t, ht', hc⟩

end Commit

/-! ### The whole history -/

/-- A task that has been handed out has parents, and all of them are completed. -/
def Released (s : ExecutionStore) (i : UUID) : Prop :=
  ∃ t, taskRow s i = some t ∧ t.parentTaskIds ≠ [] ∧ ParentsCompleted s t

theorem releasedIds_append (log : History) (e : Sql.Event RowId Row Call CallResult) :
    releasedIds (log ++ [e]) = releasedIds log ++ handedOut e := by
  simp [releasedIds]

/-- Over any history, what was handed out is released, and nothing was handed out twice. -/
theorem Run.released {log : History} {s : ExecutionStore} (h : Run log s) :
    (releasedIds log).Nodup ∧ ∀ i ∈ releasedIds log, Released s i := by
  induction h with
  | empty => simp [releasedIds]
  | @insert log s s' rows hrun hrows hins ih =>
      obtain ⟨_, hc⟩ := hrows.created hins
      rw [releasedIds_append, show handedOut (.inserted s s') = [] from rfl, List.append_nil]
      refine ⟨ih.1, fun i hi => ?_⟩
      obtain ⟨t, ht, hne, hparents⟩ := ih.2 i hi
      refine ⟨t, hc.old i t ht, hne, fun p hp => ?_⟩
      obtain ⟨tp, htp, hcp⟩ := completed_iff.mp (hparents p hp)
      exact completed_iff.mpr ⟨tp, hc.old p tp htp, hcp⟩
  | @commit log log₀ s s' base call result hrun _ _ heffect ih _ =>
      have hmove := heffect.storeMove hrun.coherent
      -- What was handed out before stays released, and so was not waiting for a parent.
      have hold : ∀ i ∈ releasedIds log, Released s' i := by
        intro i hi
        obtain ⟨t, ht, hne, hparents⟩ := ih.2 i hi
        obtain ⟨t', ht', htm⟩ := hmove.task i t ht
        refine ⟨t', ht', by rw [htm.same.parentTaskIds]; exact hne, fun p hp => ?_⟩
        rw [htm.same.parentTaskIds] at hp
        exact hmove.completed (hparents p hp)
      rw [releasedIds_append]
      refine ⟨List.nodup_append.mpr ⟨ih.1, handedOut_nodup hrun.coherent heffect, ?_⟩, ?_⟩
      · rintro i hi j hj rfl
        obtain ⟨t, ht, -, -, hnot, -⟩ := (mem_handedOut hrun.coherent heffect).mp hj
        obtain ⟨t', ht', -, hparents⟩ := ih.2 i hi
        obtain rfl : t = t' := Option.some.inj (ht.symm.trans ht')
        exact hnot hparents
      · intro i hi
        rcases List.mem_append.mp hi with hi | hi
        · exact hold i hi
        · obtain ⟨t, ht, -, hne, -, hparents⟩ := (mem_handedOut hrun.coherent heffect).mp hi
          obtain ⟨t', ht', htm⟩ := hmove.task i t ht
          refine ⟨t', ht', by rw [htm.same.parentTaskIds]; exact hne, fun p hp => ?_⟩
          rw [htm.same.parentTaskIds] at hp
          exact hparents p hp

/-- The counter of a pending task, and what it says. -/
structure CounterExact (s : ExecutionStore) (t : TaskExecutionModel) : Prop where
  count : t.remainingDependencies =
    (t.parentTaskIds.filter fun p => !completed s p).length
  nonneg : 0 ≤ t.remainingDependencies
  zero_iff : t.remainingDependencies = 0 ↔ ParentsCompleted s t

theorem Coherent.counterExact {s : ExecutionStore} (h : Coherent s) {i : UUID}
    {t : TaskExecutionModel} (hi : taskRow s i = some t) (hp : t.status = .pending) :
    CounterExact s t := by
  have hcount := h.counter i t hi hp
  refine ⟨hcount, by omega, ?_⟩
  rw [← unfinishedParents_eq_nil, ← List.length_eq_zero_iff]
  omega

/--
**Counters are exact and every release happens once.**  In every reachable state the
counter of a pending task is the number of its parents that are not completed; and
over the whole run no task is handed out twice, and the tasks handed out are those
whose last parent some commit completed while they were pending.
-/
theorem release_exactly_once {db : ExecutionDb} (h : ReachableDb db) :
    (∀ i t, taskRow db.store i = some t → t.status = .pending → CounterExact db.store t) ∧
      (releasedIds db.log).Nodup ∧
      ∀ i, i ∈ releasedIds db.log ↔
        ∃ call result base before after, .committed call result base before after ∈ db.log ∧
          LastParentCompletes before after i := by
  have hrun := reachable_run h
  refine ⟨fun i t hi hp => hrun.coherent.counterExact hi hp, hrun.released.1, fun i => ?_⟩
  rw [releasedIds, List.mem_flatMap]
  constructor
  · rintro ⟨e, he, hi⟩
    cases e with
    | inserted before after => simp [handedOut] at hi
    | committed call result base before after =>
        obtain ⟨⟨_, -, hbefore⟩, -, -, heffect⟩ := hrun.committed he
        exact ⟨call, result, base, before, after, he,
          (mem_handedOut hbefore.coherent heffect).mp hi⟩
  · rintro ⟨call, result, base, before, after, he, hlast⟩
    obtain ⟨⟨_, -, hbefore⟩, -, -, heffect⟩ := hrun.committed he
    exact ⟨_, he, (mem_handedOut hbefore.coherent heffect).mpr hlast⟩

theorem release_exactly_once_sample :
    releasedIds (dbAfter sampleSteps).log = [2, 3] ∧ (releasedIds (dbAfter sampleSteps).log).Nodup :=
  ⟨by rfl, (release_exactly_once sample_reachable).2.1⟩

end AutomationPlatform
