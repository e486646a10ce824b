/-
What the actions of the platform do to the database.

Most of them do nothing to it.  Only a start adds rows to it, and whoever begins a call holds
a claim on its task; everything else moves a transaction that has begun.
-/
import AutomationPlatform.Proofs.Platform.Repair

namespace AutomationPlatform

open WorkflowStartService

/-! ### Rows that are kept -/

section Evolved

variable {e e' : ExecutionStore}

/-- The second store has the rows of the first one, possibly evolved, and no others. -/
structure Evolved (e e' : ExecutionStore) : Prop where
  le : e.Le executionEvolution e'
  rows : ∀ k, (e'.row k).isSome = true → (e.row k).isSome = true

theorem Evolved.refl (e : ExecutionStore) : Evolved e e :=
  ⟨Sql.Store.Le.refl _ e, fun _ h => h⟩

theorem Evolved.task (h : Evolved e e') {i : UUID} {t' : TaskExecutionModel}
    (hi : taskRow e' i = some t') : ∃ t, taskRow e i = some t ∧ TaskEvolves t t' := by
  obtain ⟨t, ht⟩ := Option.isSome_iff_exists.mp (h.rows (.task i) (Option.isSome_of_eq_some hi))
  obtain ⟨t'', ht'', hev⟩ := taskRow_le h.le ht
  obtain rfl := Option.some.inj (hi.symm.trans ht'')
  exact ⟨t, ht, hev⟩

theorem Evolved.workflow (h : Evolved e e') {i : UUID} {w' : WorkflowExecutionModel}
    (hi : workflowRow e' i = some w') : ∃ w, workflowRow e i = some w ∧ WorkflowEvolves w w' := by
  obtain ⟨w, hw⟩ :=
    Option.isSome_iff_exists.mp (h.rows (.workflow i) (Option.isSome_of_eq_some hi))
  obtain ⟨w'', hw'', hev⟩ := workflowRow_le h.le hw
  obtain rfl := Option.some.inj (hi.symm.trans hw'')
  exact ⟨w, hw, hev⟩


/-- Rows are added to the database by an insert only. -/
theorem evolved_of_step {db db' : ExecutionDb} (h : ReachableDb db)
    {a : Sql.Action RowId Row Call} (ha : Allowed db a) (hinsert : ∀ rows, a ≠ .insert rows)
    (hs : db.step Call.body a = some db') : Evolved db.store db'.store := by
  refine ⟨(before_of_step h ha hs).1, ?_⟩
  cases a with
  | begin w call => obtain ⟨-, rfl⟩ := Sql.step_begin hs; exact fun _ hk => hk
  | statement w => obtain ⟨_, _, -, -, rfl⟩ := Sql.step_statement hs; exact fun _ hk => hk
  | row w k => obtain ⟨_, _, -, -, -, rfl⟩ := Sql.step_row hs; exact fun _ hk => hk
  | abort w => obtain ⟨_, -, rfl⟩ := Sql.step_abort hs; exact fun _ hk => hk
  | commit w =>
      obtain ⟨x, _, -, -, rfl⟩ := Sql.step_commit hs
      intro k hk
      simpa [Sql.Store.overlay_row] using hk
  | insert rows => exact absurd rfl (hinsert rows)

end Evolved

namespace Platform

variable {leaseTimeout : Timedelta} {p p' : Platform}

/-- The calls that actions begin. -/
inductive Begins (p : Platform) : PlatformAction → Nat → Call → Prop
  | start {w : Nat} {claim : Claim} {untrusted : Bool} {startedAt : Datetime}
      (hworker : p.workers w = .processing claim untrusted .claimed) :
      Begins p (.startTask w startedAt) w (.startTask claim.taskExecutionId startedAt)
  | report {w : Nat} {claim : Claim} {untrusted : Bool} {task : StartTaskExecutionResult}
      {result : TaskResult} {completedAt : Datetime}
      (hworker : p.workers w = .processing claim untrusted (.executing task)) :
      Begins p (.report w result completedAt) w
        (TaskProcessingService.reportCall claim.taskExecutionId result completedAt)

/-- A step of the database that an action takes. -/
structure OnDb (p : Platform) (action : PlatformAction) (a : Sql.Action RowId Row Call) :
    Prop where
  allowed : action.Valid → Allowed p.db a
  inserts : ∀ rows, a = .insert rows → action.starts = true
  begins : ∀ w call, a = .begin w call → p.Begins action w call

/-- An action leaves the database alone, or takes one step of it. -/
theorem onDb_of_step {action : PlatformAction} (hs : p.step leaseTimeout action = some p') :
    p'.db = p.db ∨ ∃ a, p.db.step Call.body a = some p'.db ∧ p.OnDb action a := by
  cases action with
  | start publisher draws now wd =>
      simp only [step] at hs
      split at hs
      · rename_i workflow roots _ hcreate
        simp only [Option.bind_eq_bind, Option.bind_eq_some_iff, Option.some.injEq] at hs
        obtain ⟨_, hdb, rfl⟩ := hs
        exact Or.inr ⟨_, hdb, fun hvalid => ⟨draws, now, wd, workflow, roots, hvalid, hcreate, rfl⟩,
          fun _ _ => rfl, by simp⟩
      · simp at hs
  | find publisher =>
      simp only [step] at hs
      split at hs
      · obtain rfl := Option.some.inj hs
        exact Or.inl rfl
      · simp at hs
  | publish publisher now =>
      simp only [step] at hs
      split at hs
      · simp at hs
      · simp only [Option.bind_eq_bind, Option.bind_eq_some_iff, Option.some.injEq] at hs
        obtain ⟨_, -, rfl⟩ := hs
        exact Or.inl rfl
  | lose publisher =>
      obtain rfl := Option.some.inj hs
      exact Or.inl rfl
  | lock w workerId skipped now =>
      simp only [step] at hs
      split at hs
      · simp only [Option.bind_eq_bind, Option.bind_eq_some_iff, Option.some.injEq] at hs
        obtain ⟨_, -, rfl⟩ := hs
        exact Or.inl rfl
      · simp at hs
  | grant w claimToken =>
      simp only [step] at hs
      split at hs
      · simp only [Option.bind_eq_bind, Option.bind_eq_some_iff, Option.some.injEq] at hs
        obtain ⟨_, -, rfl⟩ := hs
        exact Or.inl rfl
      · simp at hs
  | startTask w startedAt =>
      simp only [step] at hs
      split at hs
      · rename_i hworker
        simp only [Option.bind_eq_bind, Option.bind_eq_some_iff, Option.some.injEq] at hs
        obtain ⟨_, hdb, rfl⟩ := hs
        refine Or.inr ⟨_, hdb, fun _ => trivial, by simp, fun u call ha => ?_⟩
        obtain ⟨rfl, rfl⟩ := Sql.Action.begin.inj ha
        exact .start hworker
      · simp at hs
  | report w result completedAt =>
      simp only [step] at hs
      split at hs
      · rename_i hworker
        simp only [Option.bind_eq_bind, Option.bind_eq_some_iff, Option.some.injEq] at hs
        obtain ⟨_, hdb, rfl⟩ := hs
        refine Or.inr ⟨_, hdb, fun _ => trivial, by simp, fun u call ha => ?_⟩
        obtain ⟨rfl, rfl⟩ := Sql.Action.begin.inj ha
        exact .report hworker
      · simp at hs
  | statement w =>
      simp only [step, Option.bind_eq_bind, Option.bind_eq_some_iff, Option.some.injEq] at hs
      obtain ⟨_, hdb, rfl⟩ := hs
      exact Or.inr ⟨_, hdb, fun _ => trivial, by simp, by simp⟩
  | row w k =>
      simp only [step, Option.bind_eq_bind, Option.bind_eq_some_iff, Option.some.injEq] at hs
      obtain ⟨_, hdb, rfl⟩ := hs
      exact Or.inr ⟨_, hdb, fun _ => trivial, by simp, by simp⟩
  | endTransaction w =>
      simp only [step] at hs
      split at hs
      · simp only [Option.bind_eq_bind, Option.bind_eq_some_iff, Option.some.injEq] at hs
        obtain ⟨_, -, _, -, ⟨commits, _⟩, -, _, hdb, rfl⟩ := hs
        refine Or.inr ⟨_, hdb, fun _ => ?_, ?_, ?_⟩
        · cases commits <;> trivial
        · cases commits <;> simp
        · cases commits <;> simp
      · simp at hs
  | heartbeat w now =>
      simp only [step] at hs
      split at hs
      · simp only [Option.bind_eq_bind, Option.bind_eq_some_iff, Option.some.injEq] at hs
        obtain ⟨_, -, rfl⟩ := hs
        exact Or.inl rfl
      · simp at hs
  | heartbeatFailed w =>
      simp only [step] at hs
      split at hs
      · obtain rfl := Option.some.inj hs
        exact Or.inl rfl
      · simp at hs
  | dispose w now =>
      simp only [step] at hs
      split at hs
      · obtain rfl := Option.some.inj hs
        exact Or.inl rfl
      · simp only [Option.bind_eq_bind, Option.bind_eq_some_iff, Option.some.injEq] at hs
        obtain ⟨_, -, rfl⟩ := hs
        exact Or.inl rfl
      · simp at hs
  | crash w =>
      simp only [step] at hs
      obtain rfl := Option.some.inj hs
      cases hstep : p.db.step Call.body (.abort w) with
      | none => exact Or.inl rfl
      | some db => exact Or.inr ⟨.abort w, hstep, fun _ => trivial, by simp, by simp⟩

/-- A start that goes through inserts what its definition compiles to. -/
theorem start_cases {publisher : Nat} {draws : Draws} {now : Datetime} {wd : WorkflowDefinition}
    (hlinked : wd.Linked)
    (hs : p.step leaseTimeout (.start publisher draws now wd) = some p') :
    p.db.store.insert? (WorkflowExecutionMapper.workflowToRows (compiled draws now wd)) =
        some p'.db.store ∧
      p' = { p.setPublishing publisher (some (rootsOf draws wd)) with
        db := { p.db with
          store := p'.db.store, log := p.db.log ++ [.inserted p.db.store p'.db.store] } } := by
  simp only [step] at hs
  split at hs
  · rename_i hcreate
    simp only [Option.bind_eq_bind, Option.bind_eq_some_iff, Option.some.injEq] at hs
    obtain ⟨db, hdb, rfl⟩ := hs
    obtain ⟨rfl, rfl⟩ := compiled_of_create hlinked hcreate
    obtain ⟨s, hins, rfl⟩ := Sql.step_insert hdb
    exact ⟨hins, rfl⟩
  · simp at hs

end Platform

theorem PlatformAction.valid_of_starts {action : PlatformAction} (h : action.starts = false) :
    action.Valid := by
  cases action with
  | start => simp [starts] at h
  | _ => trivial

/-- Between two starts, rows only evolve. -/
theorem Platform.Reachable.evolved {leaseTimeout : Timedelta} {p p' : Platform}
    (h : p.Reachable leaseTimeout) {action : PlatformAction} (hother : action.starts = false)
    (hs : p.step leaseTimeout action = some p') : Evolved p.db.store p'.db.store := by
  rcases onDb_of_step hs with hsame | ⟨a, hdb, hon⟩
  · rw [hsame]
    exact .refl _
  · refine evolved_of_step h.sound.db (hon.allowed (PlatformAction.valid_of_starts hother)) ?_ hdb
    intro rows ha
    rw [hon.inserts rows ha] at hother
    simp at hother

end AutomationPlatform
