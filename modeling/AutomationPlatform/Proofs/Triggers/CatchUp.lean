/-
Catching up on interval triggers.

The occurrences of an interval trigger are an arithmetic progression, so how many of
them are due is a division.  When nothing blocks, the loop works off all of them: the
merged progressions in the order of time and identifier, and then it is idle.

What is asked of the dates is that the occurrences after the due ones are representable.
-/
import AutomationPlatform.Proofs.Triggers.Progress
import Mathlib.Tactic.Ring

namespace AutomationPlatform

open TriggerRegistry (discovered)

/-! ### Progressions -/

/-- The interval of a trigger, in microseconds. -/
def TriggerDefinitionModel.interval (trigger : TriggerDefinitionModel) : Timedelta :=
  match trigger.configuration.lookup "interval_seconds" with
  | some (.int intervalSeconds) => intervalSeconds * 1000000
  | _ => 0

/-- The configuration of an accepted trigger holds its interval, which is positive. -/
theorem Accepted.configured {s : DefinitionStore} (h : Accepted s) {id : UUID}
    {trigger : TriggerDefinitionModel} (htrigger : triggerDefinitionRow s id = some trigger) :
    (∃ n : Int, trigger.configuration.lookup "interval_seconds" = some (.int n) ∧ 0 < n ∧
        trigger.interval = n * 1000000) ∧
      ∀ o, trigger.nextRunAt discovered o =
        IntervalTrigger.nextOccurrence trigger.configuration o := by
  obtain ⟨plugin, hplugin, hvalid⟩ := h.plugin id trigger htrigger
  obtain ⟨rfl, -⟩ := nextRunAt_interval hplugin 0
  obtain ⟨n, hn, hpos⟩ := IntervalTrigger.validateConfiguration_ok hvalid
  refine ⟨⟨n, hn, hpos, ?_⟩, fun o => (nextRunAt_interval hplugin o).2⟩
  unfold TriggerDefinitionModel.interval
  rw [hn]

/-- The interval of an accepted trigger is positive, and its occurrences are that far apart. -/
theorem Accepted.interval {s : DefinitionStore} (h : Accepted s) {id : UUID}
    {trigger : TriggerDefinitionModel} (htrigger : triggerDefinitionRow s id = some trigger) :
    0 < trigger.interval ∧ ∀ o next, trigger.nextRunAt discovered o = .ok next →
      next = some (o + trigger.interval) := by
  obtain ⟨⟨n, hn, hpos, hinterval⟩, hnextRunAt⟩ := h.configured htrigger
  refine ⟨by rw [hinterval]; linarith, ?_⟩
  intro o next hnext
  rw [hnextRunAt] at hnext
  rw [hinterval]
  exact ((IntervalTrigger.nextOccurrence_eq_ok hn).mp hnext).2.2

/-- The next occurrence is there when it is a representable time. -/
theorem Accepted.next_in_range {s : DefinitionStore} (h : Accepted s) {id : UUID}
    {trigger : TriggerDefinitionModel} (htrigger : triggerDefinitionRow s id = some trigger)
    {o : Datetime} (hmin : Datetime.min ≤ o) (hmax : o + trigger.interval ≤ Datetime.max) :
    trigger.nextRunAt discovered o = .ok (some (o + trigger.interval)) := by
  obtain ⟨⟨n, hn, hpos, hinterval⟩, hnextRunAt⟩ := h.configured htrigger
  rw [hnextRunAt, hinterval]
  exact IntervalTrigger.nextOccurrence_in_range hn hpos hmin (hinterval ▸ hmax)

/-! ### Nothing blocks -/

/-- Every enabled trigger belongs to an enabled workflow, and the occurrence after the last one
of it that is due is a representable time. -/
structure AllStartable (s : DefinitionStore) (now : Datetime) : Prop where
  workflow : ∀ id trigger state, triggerDefinitionRow s id = some trigger →
    triggerStateRow s id = some state → trigger.enabled = true →
    ∃ w, workflowDefinitionRow s trigger.workflowDefinitionId = some w ∧ w.enabled = true
  range : ∀ id trigger state, triggerDefinitionRow s id = some trigger →
    triggerStateRow s id = some state → trigger.enabled = true → state.nextRunAt ≤ now →
    Datetime.min ≤ state.nextRunAt ∧ now + trigger.interval ≤ Datetime.max

/-- How many occurrences of a trigger are due. -/
def dueCount (s : DefinitionStore) (now : Datetime) (id : UUID) : Nat :=
  match triggerDefinitionRow s id, triggerStateRow s id with
  | some trigger, some state =>
      if trigger.enabled = true ∧ state.nextRunAt ≤ now then
        ((now - state.nextRunAt) / trigger.interval).toNat + 1
      else 0
  | _, _ => 0

section Due

variable {s : DefinitionStore} {now : Datetime} {id : UUID} {trigger : TriggerDefinitionModel}
  {state : ChronologicalTriggerStateModel}

/-- As far as they are due, the occurrences are the progression. -/
theorem occurrence_of_due (hacc : Accepted s)
    (htrigger : triggerDefinitionRow s id = some trigger) :
    ∀ {k : Nat} {t : Datetime}, trigger.occurrence discovered state.nextRunAt k = some t →
      t = state.nextRunAt + k * trigger.interval := by
  intro k
  induction k with
  | zero =>
      intro t ht
      simpa [TriggerDefinitionModel.occurrence] using ht.symm
  | succ k ih =>
      intro t ht
      rw [TriggerDefinitionModel.occurrence] at ht
      cases ho : trigger.occurrence discovered state.nextRunAt k with
      | none => simp [ho] at ht
      | some o =>
          cases hn : trigger.nextRunAt discovered o with
          | error e => simp [ho, hn] at ht
          | ok next =>
              simp only [ho, hn] at ht
              have hstep := (hacc.interval htrigger).2 o next hn
              rw [hstep, Option.some.injEq, ih ho] at ht
              rw [← ht]
              push_cast
              ring

/-- All of the progression that is due occurs, and so does what follows it. -/
theorem occurrence_due (hacc : Accepted s) (hstart : AllStartable s now)
    (htrigger : triggerDefinitionRow s id = some trigger)
    (hstate : triggerStateRow s id = some state) (henabled : trigger.enabled = true)
    (hdue : state.nextRunAt ≤ now) :
    ∀ k : Nat, state.nextRunAt + k * trigger.interval ≤ now + trigger.interval →
      trigger.occurrence discovered state.nextRunAt k =
        some (state.nextRunAt + k * trigger.interval) := by
  obtain ⟨hpos, -⟩ := hacc.interval htrigger
  obtain ⟨hmin, hmax⟩ := hstart.range id trigger state htrigger hstate henabled hdue
  intro k
  induction k with
  | zero => intro _; simp [TriggerDefinitionModel.occurrence]
  | succ k ih =>
      intro hk
      push_cast at hk
      have hk' : state.nextRunAt + k * trigger.interval ≤ now := by linarith
      have hge : (0 : Int) ≤ k * trigger.interval := by positivity
      have ho := ih (by linarith)
      have hnext := hacc.next_in_range htrigger (o := state.nextRunAt + k * trigger.interval)
        (by linarith) (by linarith)
      rw [TriggerDefinitionModel.occurrence_succ ho hnext]
      push_cast
      ring_nf

/-- An occurrence of a due trigger is due when its number is below the quotient. -/
theorem due_iff_lt (hacc : Accepted s) (htrigger : triggerDefinitionRow s id = some trigger)
    (hdue : state.nextRunAt ≤ now) (k : Nat) :
    state.nextRunAt + k * trigger.interval ≤ now ↔
      k < ((now - state.nextRunAt) / trigger.interval).toNat + 1 := by
  obtain ⟨hpos, -⟩ := hacc.interval htrigger
  have hquot : (0 : Int) ≤ (now - state.nextRunAt) / trigger.interval :=
    Int.ediv_nonneg (by linarith) (by linarith)
  rw [Nat.lt_succ_iff, Int.le_toNat hquot, Int.le_ediv_iff_mul_le hpos]
  constructor
  · intro h; linarith
  · intro h; linarith

end Due

/-- What is due of the agenda is counted by the divisions. -/
theorem limited_dueCount {s : DefinitionStore} {now : Datetime} (hacc : Accepted s)
    (hstart : AllStartable s now) : (agenda s).Limited now (stateIds s) (dueCount s now) where
  due := by
    intro id k
    constructor
    · intro ⟨t, ht, hnow⟩
      obtain ⟨trigger, state, htrigger, hstate, henabled, hocc⟩ := agenda_time.mp ht
      have ht' := occurrence_of_due hacc htrigger hocc
      obtain ⟨hpos, -⟩ := hacc.interval htrigger
      have hge : (0 : Int) ≤ k * trigger.interval := by positivity
      have hdue : state.nextRunAt ≤ now := by linarith
      unfold dueCount
      simp only [htrigger, hstate, henabled, hdue, and_self, if_true]
      exact (due_iff_lt hacc htrigger hdue k).mp (by linarith)
    · intro hk
      unfold dueCount at hk
      split at hk
      · rename_i trigger state htrigger hstate
        split at hk
        · rename_i h
          obtain ⟨henabled, hdue⟩ := h
          obtain ⟨hpos, -⟩ := hacc.interval htrigger
          have hle := (due_iff_lt hacc htrigger hdue k).mpr hk
          refine ⟨_, agenda_time.mpr ⟨trigger, state, htrigger, hstate, henabled,
            occurrence_due hacc hstart htrigger hstate henabled hdue k (by linarith)⟩, hle⟩
        · exact absurd hk (Nat.not_lt_zero k)
      · exact absurd hk (Nat.not_lt_zero k)
  outside := by
    intro id hid
    unfold dueCount
    split
    · rename_i state _ hstate
      exact absurd (mem_stateIds hstate) hid
    · rfl

/-- And all of it can be processed. -/
theorem possible_of_allStartable {s : DefinitionStore} {now : Datetime} (hacc : Accepted s)
    (hstart : AllStartable s now) {id : UUID} {k : Nat} (hk : k < dueCount s now id) :
    (agenda s).possible id k := by
  obtain ⟨t, ht, hnow⟩ := ((limited_dueCount hacc hstart).due id k).mpr hk
  obtain ⟨trigger, state, htrigger, hstate, henabled, hocc⟩ := agenda_time.mp ht
  have ht' := occurrence_of_due hacc htrigger hocc
  obtain ⟨hpos, -⟩ := hacc.interval htrigger
  have hge : (0 : Int) ≤ k * trigger.interval := by positivity
  obtain ⟨hmin, hmax⟩ := hstart.range id trigger state htrigger hstate henabled (by linarith)
  exact ⟨trigger, state, t, htrigger, hstate, hocc,
    hstart.workflow id trigger state htrigger hstate henabled,
    ⟨_, hacc.next_in_range htrigger (by linarith) (by linarith)⟩⟩

/-! ### The loop -/

section CatchUp

variable (draws : Nat → Draws) (now : Datetime) (createdAt : Nat → Datetime) (db : Database)

/-- How many rounds there is something to do. -/
def rounds : Nat := ∑ id ∈ stateIds db.definitions, dueCount db.definitions now id

/-- What the loop at one time does to triggers that nothing blocks. -/
structure CaughtUp : Prop where
  /-- `process_next_due` returns `True` as many times as occurrences are due. -/
  busy : ∀ n < rounds now db, ChronologicalTriggerService.processNextDue discovered (draws n) now
      (createdAt n) (Scheduler.run discovered draws now createdAt db n) =
    .ok (true, Scheduler.run discovered draws now createdAt db (n + 1))
  /-- And then `False`. -/
  idle : ∀ n, rounds now db ≤ n → ChronologicalTriggerService.processNextDue discovered (draws n)
      now (createdAt n) (Scheduler.run discovered draws now createdAt db n) =
    .ok (false, Scheduler.run discovered draws now createdAt db (rounds now db))
  /-- Each of these rounds processes one occurrence. -/
  processes : ∀ n < rounds now db, ∃ id o, Scheduler.out draws now createdAt db n = some (id, o)
  processed : ∀ n id o, Scheduler.out draws now createdAt db n = some (id, o) →
    Processed (Scheduler.run discovered draws now createdAt db n)
      (Scheduler.run discovered draws now createdAt db (n + 1)) id o
  /-- In the order of the scheduled time and the identifier, and none twice. -/
  ordered : ∀ m n i j t u, m < n → Scheduler.out draws now createdAt db m = some (i, t) →
    Scheduler.out draws now createdAt db n = some (j, u) → t < u ∨ t = u ∧ i < j
  /-- They are the occurrences that are due. -/
  due : ∀ id o, (∃ n < rounds now db, Scheduler.out draws now createdAt db n = some (id, o)) ↔
    ∃ trigger state, triggerDefinitionRow db.definitions id = some trigger ∧
      triggerStateRow db.definitions id = some state ∧ trigger.enabled = true ∧ o ≤ now ∧
      ∃ k : Nat, o = state.nextRunAt + k * trigger.interval
  /-- At the end a trigger that was due stands at its first occurrence that is not. -/
  final : ∀ id trigger state, triggerDefinitionRow db.definitions id = some trigger →
    triggerStateRow db.definitions id = some state → trigger.enabled = true →
    state.nextRunAt ≤ now → ∃ k : Nat,
      triggerStateRow (Scheduler.run discovered draws now createdAt db (rounds now db)).definitions
        id = some { nextRunAt := state.nextRunAt + k * trigger.interval } ∧
      now < state.nextRunAt + k * trigger.interval ∧
      ∀ j : Nat, now < state.nextRunAt + j * trigger.interval → k ≤ j
  /-- The others stand where they stood. -/
  unchanged : ∀ id trigger state, triggerDefinitionRow db.definitions id = some trigger →
    triggerStateRow db.definitions id = some state →
    (trigger.enabled = false ∨ now < state.nextRunAt) →
    triggerStateRow (Scheduler.run discovered draws now createdAt db (rounds now db)).definitions
      id = some state

variable {draws now createdAt db}

/-- Once everything due is worked off, nothing is selected any more. -/
theorem selection_none (createdAt : Nat → Datetime) (hacc : Accepted db.definitions) (hfresh : Fresh draws db.executions)
    (hstart : AllStartable db.definitions now) {n : Nat} (hn : rounds now db ≤ n) :
    ChronologicalTriggerRepository.getNextDue
      (Scheduler.run discovered draws now createdAt db n).definitions now = none := by
  have hrun := Scheduler.run_agenda now createdAt hacc hfresh
  have hlimit := limited_dueCount hacc hstart
  cases hd : ChronologicalTriggerRepository.getNextDue
      (Scheduler.run discovered draws now createdAt db n).definitions now with
  | none => rfl
  | some d =>
      exfalso
      have hfirst := (Scheduler.along_run now createdAt hacc hfresh n).first hd
      have hlt := (hlimit.due _ _).mp ⟨_, hfirst.time, hfirst.due⟩
      have hle := hrun.le_of_le hn d.triggerDefinitionId
      rw [rounds, hrun.finished hlimit fun i k hk => possible_of_allStartable hacc hstart hk] at hle
      omega

theorem run_after (hacc : Accepted db.definitions) (hfresh : Fresh draws db.executions)
    (hstart : AllStartable db.definitions now) {n : Nat} (hn : rounds now db ≤ n) :
    Scheduler.run discovered draws now createdAt db n =
      Scheduler.run discovered draws now createdAt db (rounds now db) := by
  induction n, hn using Nat.le_induction with
  | base => rfl
  | succ n hn ih =>
      have hidle := processNextDue_idle (draws n) (createdAt n)
        (selection_none createdAt hacc hfresh hstart hn)
      rw [Scheduler.run, Scheduler.iterate, hidle]
      exact ih

/--
**Catching up is complete, ordered and finite.**  For interval triggers of enabled
workflows the loop at one time does as many rounds of work as occurrences are due, each
of them once and in order, and leaves every trigger at its first occurrence after that
time.  Of each round it is assumed that the driver takes the root tasks, which it does up to 10922.
-/
theorem catch_up (hacc : Accepted db.definitions) (hfresh : Fresh draws db.executions)
    (hstart : AllStartable db.definitions now) : CaughtUp draws now createdAt db := by
  have hrun := Scheduler.run_agenda now createdAt hacc hfresh
  have hlimit := limited_dueCount hacc hstart
  have hpossible : ∀ i k, k < dueCount db.definitions now i →
      (agenda db.definitions).possible i k := fun i k => possible_of_allStartable hacc hstart
  have hsome : ∀ n < rounds now db, ∃ e, Scheduler.out draws now createdAt db n = some e :=
    fun n hn => hrun.out_some hlimit hpossible hn
  have halong := Scheduler.along_run now createdAt hacc hfresh (rounds now db)
  refine ⟨?_, ?_, ?_, ?_, ?_, ?_, ?_, ?_⟩
  · intro n hn
    obtain ⟨e, he⟩ := hsome n hn
    exact Scheduler.processNextDue_of_out hacc hfresh he
  · intro n hn
    rw [processNextDue_idle (draws n) (createdAt n)
      (selection_none createdAt hacc hfresh hstart hn),
      run_after hacc hfresh hstart hn]
  · intro n hn
    obtain ⟨e, he⟩ := hsome n hn
    exact ⟨e.1, e.2, he⟩
  · exact fun n id o ho => Scheduler.processed_of_out hacc hfresh ho
  · intro m n i j t u hmn hm hn
    obtain ⟨hlt | ⟨heq, hle⟩, hne⟩ := hrun.ordered hacc.increasing hmn hm hn
    · exact Or.inl hlt
    · exact Or.inr ⟨heq, lt_of_le_of_ne hle fun hc => hne ⟨heq, hc⟩⟩
  · intro id o
    rw [rounds, hrun.out_iff hlimit hpossible]
    constructor
    · intro ⟨hnow, k, hk⟩
      obtain ⟨trigger, state, htrigger, hstate, henabled, hocc⟩ := agenda_time.mp hk
      exact ⟨trigger, state, htrigger, hstate, henabled, hnow, k, occurrence_of_due hacc htrigger hocc⟩
    · intro ⟨trigger, state, htrigger, hstate, henabled, hnow, k, hk⟩
      obtain ⟨hpos, -⟩ := hacc.interval htrigger
      have hge : (0 : Int) ≤ k * trigger.interval := by positivity
      refine ⟨hnow, k, agenda_time.mpr ⟨trigger, state, htrigger, hstate, henabled, ?_⟩⟩
      rw [occurrence_due hacc hstart htrigger hstate henabled (by linarith) k (by linarith), hk]
  · intro id trigger state htrigger hstate henabled hdue
    have hcount : dueCount db.definitions now id =
        ((now - state.nextRunAt) / trigger.interval).toNat + 1 := by
      unfold dueCount
      simp only [htrigger, hstate, henabled, hdue, and_self, if_true]
    have hiff := due_iff_lt hacc htrigger hdue
    refine ⟨dueCount db.definitions now id, ?_, ?_, ?_⟩
    · have hlast := (hiff ((now - state.nextRunAt) / trigger.interval).toNat).mpr
        (Nat.lt_succ_self _)
      have hocc := occurrence_due hacc hstart htrigger hstate henabled hdue
        (dueCount db.definitions now id) (by rw [hcount]; push_cast at hlast ⊢; linarith)
      have hcurrent := halong.states id trigger state htrigger hstate
      rw [show Scheduler.count draws now createdAt db (rounds now db) id =
        dueCount db.definitions now id from hrun.finished hlimit hpossible id, hocc] at hcurrent
      obtain ⟨state', hstate', hnext⟩ := Option.map_eq_some_iff.mp hcurrent
      rw [hstate', ← hnext]
    · by_contra hle
      have := (hiff _).mp (le_of_not_gt hle)
      omega
    · intro j hj
      by_contra hlt
      exact absurd ((hiff j).mpr (by omega)) (not_le_of_gt hj)
  · intro id trigger state htrigger hstate hnot
    have hcount : dueCount db.definitions now id = 0 := by
      unfold dueCount
      simp only [htrigger, hstate]
      rw [if_neg]
      intro ⟨henabled, hdue⟩
      rcases hnot with hdisabled | hlater
      · rw [henabled] at hdisabled
        simp at hdisabled
      · exact absurd hdue (not_le_of_gt hlater)
    have hcurrent := halong.states id trigger state htrigger hstate
    rw [show Scheduler.count draws now createdAt db (rounds now db) id =
      dueCount db.definitions now id from hrun.finished hlimit hpossible id, hcount] at hcurrent
    obtain ⟨state', hstate', hnext⟩ := Option.map_eq_some_iff.mp hcurrent
    rw [hstate']
    exact congrArg (fun o => some (ChronologicalTriggerStateModel.mk o)) hnext

end CatchUp

/-- Two workflows with a trigger for every minute each, two minutes later. -/
theorem allStartable_twoWorkflows : AllStartable (twoWorkflows true).definitions 120000000 := by
  have hstate : ∀ id state, triggerStateRow (twoWorkflows true).definitions id = some state →
      state.nextRunAt = 1 ∨ state.nextRunAt = 2 := by
    intro id state h
    have hmem := mem_twoWorkflowRows h
    simp only [twoWorkflowRows, sampleWorkflow, sampleTrigger, List.cons_append, List.nil_append,
      List.mem_cons, Sigma.mk.injEq, reduceCtorEq, false_and, false_or, List.not_mem_nil,
      or_false] at hmem
    rcases hmem with ⟨hid, hst⟩ | ⟨hid, hst⟩
    · obtain rfl := DefinitionRowId.chronologicalTriggerState.inj hid
      exact Or.inl (congrArg ChronologicalTriggerStateModel.nextRunAt (eq_of_heq hst))
    · obtain rfl := DefinitionRowId.chronologicalTriggerState.inj hid
      exact Or.inr (congrArg ChronologicalTriggerStateModel.nextRunAt (eq_of_heq hst))
  refine ⟨?_, ?_⟩
  · intro id trigger state htrigger _ _
    obtain ⟨hworkflow | hworkflow, -⟩ := trigger_twoWorkflows htrigger
    · rw [hworkflow]; exact ⟨_, rfl, rfl⟩
    · rw [hworkflow]; exact ⟨_, rfl, rfl⟩
  · intro id trigger state htrigger hs _ _
    obtain ⟨-, -, hconfiguration⟩ := trigger_twoWorkflows htrigger
    have hinterval : trigger.interval = 60000000 := by
      unfold TriggerDefinitionModel.interval
      rw [hconfiguration]
      rfl
    rw [hinterval]
    rcases hstate id state hs with h | h
    · rw [h]; decide
    · rw [h]; decide

theorem catch_up_sample : rounds 120000000 (twoWorkflows true) = 4 ∧
    CaughtUp sampleDraws 120000000 (fun _ => 0) (twoWorkflows true) :=
  ⟨rfl, catch_up (accepted_twoWorkflows true) fresh_sampleDraws allStartable_twoWorkflows⟩

end AutomationPlatform
