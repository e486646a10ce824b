/-
A start is atomic, although its statements are not.

While a start reads its definition, statement after statement, others create definitions,
delete them and move triggers on.  But a definition is written once and deleted as a whole.  So
if it is there at the commit it has been there all the time, and every statement has read it as
it is at the commit, in the same order.  If it is not, a foreign key refuses the execution,
whatever was read.  Either way the start does what it would do in one step at its commit.
-/
import AutomationPlatform.Proofs.System.Reachable
import AutomationPlatform.Proofs.System.Same

namespace AutomationPlatform

open Sql (bind_eq_ok)
open WorkflowDefinitionRepository WorkflowDefinitionService

/-! ### The statements of a load -/

/-- What `load` returns when its statements see these stores. -/
theorem reads_loadEach (s₁ s₂ s₃ s₄ : DefinitionStore) (id : UUID) :
    (loadEach id).reads [s₁, s₂, s₃, s₄] = some (.ok ((workflowDefinitionRow s₁ id).map fun model =>
      WorkflowDefinitionMapper.workflowToDomain id model
        ((taskDefinitionModels s₃ id).map fun e => WorkflowDefinitionMapper.taskToDomain e.1 e.2
          (((dependencyRows s₂ id).filter (·.1 = e.1)).map (·.2)))
        (loadTriggers s₄ id))) := by
  unfold loadEach
  cases h : workflowDefinitionRow s₁ id with
  | none => simp [Sql.Program.select, Sql.Program.reads, h]
  | some model => simp [Sql.Program.select, Sql.Program.reads, h]

/-- Statements that see the same definition read it as one. -/
theorem reads_loadEach_same {id : UUID} {s s₁ s₂ s₃ s₄ : DefinitionStore}
    (h₁ : Unmoved id s₁ s) (h₂ : Unmoved id s₂ s) (h₃ : Unmoved id s₃ s)
    (h₄ : Unmoved id s₄ s) :
    (loadEach id).reads [s₁, s₂, s₃, s₄] = some (.ok (WorkflowDefinitionRepository.load s id)) := by
  rw [reads_loadEach, ← h₁.workflow, ← h₂.dependencies, ← h₃.tasks, ← h₄.triggers]
  unfold WorkflowDefinitionRepository.load
  rw [← loadTasks_eq]
  cases workflowDefinitionRow s id <;> rfl

/-! ### What a step does to the definitions -/

namespace System

variable {leaseTimeout : Timedelta} {x x' : System} {action : SystemAction}

/-- The definitions after a step. -/
inductive Redefines (x : System) : SystemAction → DefinitionStore → Prop
  | same (action : SystemAction) : Redefines x action x.definitions
  | created (draws : DefinitionDraws) (now : UUID → Datetime) (request : CreateWorkflowDefinition)
      (r : UUID × Database)
      (hcreate : WorkflowDefinitionService.create .discovered .discovered draws now x.database
        request = .ok r) :
      Redefines x (.create draws now request) r.2.definitions
  | deleted (id : UUID) (db : Database)
      (hdelete : WorkflowDefinitionService.delete x.database id = .ok db) :
      Redefines x (.delete id) db.definitions
  /-- A trigger that nobody has locked is moved on. -/
  | rescheduled (publisher : Nat) (draws : Draws) (now createdAt : Datetime) (locked : List UUID)
      (trigger : UUID) (next : Option Datetime) (definitions : DefinitionStore)
      (hfree : trigger ∉ locked)
      (hreschedule : ChronologicalTriggerService.reschedule x.definitions trigger next =
        .ok definitions) :
      Redefines x (.processNextDue publisher draws now createdAt locked) definitions

/-- A commit publishes everything, or nothing. -/
theorem commitStart_cases {publisher : Nat} {definitions : DefinitionStore}
    {workflowExecution : WorkflowExecution} {rootTaskIds : List UUID}
    (h : x.commitStart publisher definitions workflowExecution rootTaskIds = some x') :
    x' = x ∨ (x'.definitions = definitions ∧
      x.platform.db.store.insert? (WorkflowExecutionMapper.workflowToRows workflowExecution) =
        some x'.platform.db.store) := by
  unfold commitStart at h
  split at h
  · simp at h
  · split at h
    · exact Or.inl (Option.some.inj h).symm
    · rename_i db hinsert
      obtain rfl := Option.some.inj h
      obtain ⟨s, hs, rfl⟩ := Sql.step_insert hinsert
      exact Or.inr ⟨rfl, hs⟩

theorem redefines_of_step (h : x.step leaseTimeout action = some x') :
    x.Redefines action x'.definitions := by
  cases action with
  | create draws now request =>
      obtain rfl := Option.some.inj h
      cases hcreate : WorkflowDefinitionService.create .discovered .discovered draws now
          x.database request with
      | error e => exact .same _
      | ok r => exact .created draws now request r hcreate
  | delete id =>
      obtain rfl := Option.some.inj h
      cases hdelete : WorkflowDefinitionService.delete x.database id with
      | error e => exact .same _
      | ok db => exact .deleted id db hdelete
  | start publisher draws now id =>
      simp only [step] at h
      split at h
      · obtain rfl := Option.some.inj h
        exact .same _
      · rcases commitStart_cases h with rfl | ⟨hdefinitions, -⟩
        · exact .same _
        · rw [hdefinitions]
          exact .same _
  | processNextDue publisher draws now createdAt locked =>
      simp only [step] at h
      split at h
      · obtain rfl := Option.some.inj h
        exact .same _
      · obtain rfl := Option.some.inj h
        exact .same _
      · rename_i hprepare
        rcases commitStart_cases h with rfl | ⟨hdefinitions, -⟩
        · exact .same _
        · rw [hdefinitions]
          obtain ⟨due, next, hdue, -, hreschedule, -⟩ :=
            ChronologicalTriggerService.prepareNextDue_ok hprepare
          refine .rescheduled publisher draws now createdAt locked due.triggerDefinitionId next _
            ?_ hreschedule
          simpa using List.find?_some hdue
  | report w completedAt =>
      simp only [step] at h
      split at h
      · obtain ⟨platform, -, h⟩ := Option.bind_eq_some_iff.mp h
        obtain rfl := Option.some.inj h
        exact .same _
      · simp at h
  | run action =>
      cases action with
      | start => simp [step] at h
      | report => simp [step] at h
      | _ =>
          simp only [step] at h
          obtain ⟨platform, -, h⟩ := Option.bind_eq_some_iff.mp h
          obtain rfl := Option.some.inj h
          exact .same _

end System

/-! ### While others are at work -/

/-- The identifier is not given to a new definition. -/
def SystemAction.Spares (id : UUID) : SystemAction → Prop
  | .create draws _ _ => draws.workflowDefinitionId ≠ id
  | _ => True

/-- The row of a trigger of a definition is locked: neither is the trigger moved on, nor can the
definition be deleted, because its triggers would go with it. -/
def SystemAction.Respects (workflowDefinitionId triggerDefinitionId : UUID) : SystemAction → Prop
  | .delete id => id ≠ workflowDefinitionId
  | .processNextDue _ _ _ _ locked => triggerDefinitionId ∈ locked
  | _ => True

namespace System

/-- What happens between two statements of a transaction. -/
inductive Meanwhile (leaseTimeout : Timedelta) (allowed : SystemAction → Prop) (x : System) :
    System → Prop
  | refl : Meanwhile leaseTimeout allowed x x
  | step {y z : System} (h : Meanwhile leaseTimeout allowed x y) (action : SystemAction)
      (hvalid : action.Valid y) (hallowed : allowed action)
      (hs : y.step leaseTimeout action = some z) : Meanwhile leaseTimeout allowed x z

variable {leaseTimeout : Timedelta} {allowed : SystemAction → Prop} {x x' y : System}
  {action : SystemAction} {id : UUID}

theorem Meanwhile.reachable (h : x.Meanwhile leaseTimeout allowed y)
    (hx : x.Reachable leaseTimeout) : y.Reachable leaseTimeout := by
  induction h with
  | refl => exact hx
  | step _ action hvalid _ hs ih => exact .step ih action hvalid hs

theorem Meanwhile.mono {allowed' : SystemAction → Prop} (hmono : ∀ a, allowed a → allowed' a)
    (h : x.Meanwhile leaseTimeout allowed y) : x.Meanwhile leaseTimeout allowed' y := by
  induction h with
  | refl => exact .refl
  | step _ action hvalid hallowed hs ih => exact .step ih action hvalid (hmono action hallowed) hs

theorem Meanwhile.of_steps {actions : List SystemAction}
    (hactions : ∀ a ∈ actions, allowed a ∧ ∀ z, a.Valid z)
    (h : x.steps leaseTimeout actions = some y) : x.Meanwhile leaseTimeout allowed y := by
  induction actions using List.reverseRecOn generalizing y with
  | nil =>
      simp only [System.steps, List.foldlM_nil, Option.pure_def, Option.some.injEq] at h
      exact h ▸ .refl
  | append_singleton rest a ih =>
      simp only [System.steps, List.foldlM_append, Option.bind_eq_bind,
        Option.bind_eq_some_iff] at h
      obtain ⟨mid, hmid, hlast⟩ := h
      simp only [List.foldlM_cons, List.foldlM_nil, bind_pure] at hlast
      obtain ⟨hallowed, hvalid⟩ := hactions a (by simp)
      exact .step (ih (fun b hb => hactions b (by simp [hb])) hmid) a (hvalid mid) hallowed hlast

/-- The definition is stored. -/
def Present (x : System) (id : UUID) : Prop :=
  (workflowDefinitionRow x.definitions id).isSome = true

/-- A definition that is there before a step and after it is the same definition. -/
theorem Sound.same_of_step (hx : x.Sound leaseTimeout) (hvalid : action.Valid x)
    (hs : x.step leaseTimeout action = some x') (hid : x.Present id) (hid' : x'.Present id) :
    Unmoved id x.definitions x'.definitions := by
  have hconsistent := consistent_executions hx.definitions.consistent x.database.executions
  have hstep := redefines_of_step hs
  unfold Present at hid'
  generalize x'.definitions = s' at hstep hid'
  cases hstep with
  | same => exact .refl _ _
  | created draws now request r hcreate => exact .created hconsistent hvalid hcreate hid
  | deleted other db hdelete => exact .deleted hconsistent hdelete hid'
  | rescheduled publisher draws now createdAt locked trigger next definitions _ hreschedule =>
      exact .rescheduled hreschedule

/-- A definition that is there after a step has been there, or is created by the step. -/
theorem Sound.present_of_step (hx : x.Sound leaseTimeout) (hvalid : action.Valid x)
    (hspares : action.Spares id) (hs : x.step leaseTimeout action = some x')
    (hid' : x'.Present id) : x.Present id := by
  have hconsistent := consistent_executions hx.definitions.consistent x.database.executions
  have hstep := redefines_of_step hs
  unfold Present at hid' ⊢
  generalize x'.definitions = s' at hstep hid'
  cases hstep with
  | same => exact hid'
  | created draws now request r hcreate =>
      obtain ⟨-, resolved, hcreated⟩ := create_cases hconsistent hvalid hcreate
      rwa [workflowDefinitionRow, hcreated.added.others (.workflow id) (Ne.symm hspares)] at hid'
  | deleted other db hdelete =>
      rcases delete_cases hconsistent hdelete with rfl | ⟨-, hdeleted, -⟩
      · exact hid'
      · obtain ⟨m, hm⟩ := Option.isSome_iff_exists.mp hid'
        exact Option.isSome_of_eq_some (hdeleted.before hm).1
  | rescheduled publisher draws now createdAt locked trigger next definitions _ hreschedule =>
      rwa [workflowDefinitionRow, reschedule_rows hreschedule (.workflow id) (by simp)] at hid'

/-- So if it is there in the end it has been there all the time. -/
theorem Meanwhile.same (h : x.Meanwhile leaseTimeout (SystemAction.Spares id) y)
    (hx : x.Reachable leaseTimeout) (hid : y.Present id) :
    x.Present id ∧ Unmoved id x.definitions y.definitions := by
  induction h with
  | refl => exact ⟨hid, .refl _ _⟩
  | step h action hvalid hspares hs ih =>
      have hy := (h.reachable hx).sound
      have hbefore := hy.present_of_step hvalid hspares hs hid
      obtain ⟨hpresent, hsame⟩ := ih hbefore
      exact ⟨hpresent, hsame.trans (hy.same_of_step hvalid hs hbefore hid)⟩

end System

/-! ### The commit of a start -/

section Start

variable {s : DefinitionStore} {draws : Draws} {now : Datetime} {id : UUID}
  {wd : WorkflowDefinition} {workflowExecution : WorkflowExecution} {rootTaskIds : List UUID}

theorem WorkflowStartService.prepare_eq (s : DefinitionStore) (draws : Draws) (now : Datetime)
    (id : UUID) : WorkflowStartService.prepare s draws now id =
      prepareLoaded draws now id (WorkflowDefinitionRepository.load s id) := rfl

theorem WorkflowStartService.prepareLoaded_ok {loaded : Option WorkflowDefinition}
    (h : prepareLoaded draws now id loaded = .ok (workflowExecution, rootTaskIds)) :
    ∃ wd, loaded = some wd ∧
      createWorkflowExecution draws now wd = .ok (workflowExecution, rootTaskIds) := by
  unfold prepareLoaded at h
  split at h
  · simp at h
  · rename_i wd
    split at h
    · split at h
      · rename_i hcreate
        exact ⟨wd, rfl, by rw [hcreate, Except.ok.inj h]⟩
      · simp at h
    · simp at h

/-- Whatever has been read, the execution refers to its definition. -/
theorem WorkflowStartService.workflowDefinitionId_of_create
    (h : createWorkflowExecution draws now wd = .ok (workflowExecution, rootTaskIds)) :
    workflowExecution.workflowDefinitionId = wd.id := by
  unfold createWorkflowExecution at h
  obtain ⟨children, -, h⟩ := bind_eq_ok.mp h
  obtain ⟨tasks, -, h⟩ := bind_eq_ok.mp h
  obtain ⟨rfl, -⟩ := Prod.mk.inj (Except.ok.inj h)
  rfl

/-- The foreign keys of an execution of a stored definition hold. -/
theorem Validated.resolved (hs : Validated s)
    (h : WorkflowStartService.prepare s draws now id = .ok (workflowExecution, rootTaskIds)) :
    workflowExecution.resolved s = true := by
  obtain ⟨wd, hload, -, hcreate⟩ := WorkflowStartService.prepare_ok h
  rw [WorkflowStartService.createWorkflowExecution_eq draws now (hs.valid hload).linked,
    Except.ok.injEq] at hcreate
  obtain ⟨rfl, -⟩ := Prod.mk.inj hcreate
  obtain ⟨m, hm, rfl⟩ := load_cases hload
  unfold WorkflowExecution.resolved
  rw [Bool.and_eq_true, List.all_eq_true]
  refine ⟨Option.isSome_of_eq_some hm, fun t ht => ?_⟩
  obtain ⟨d, hd, rfl⟩ := List.mem_map.mp ht
  obtain ⟨i, m', hi, -, rfl⟩ := mem_loadTasks.mp hd
  exact Option.isSome_of_eq_some hi

namespace System

variable {leaseTimeout : Timedelta} {x : System} {publisher : Nat}

/-- A start that has read its definition as it is at the commit. -/
theorem Sound.insertAndCommit (hx : x.Sound leaseTimeout) :
    x.insertAndCommit publisher x.definitions
        (WorkflowStartService.prepare x.definitions draws now id) =
      x.step leaseTimeout (.start publisher draws now id) := by
  cases hprepare : WorkflowStartService.prepare x.definitions draws now id with
  | error e => simp only [System.insertAndCommit, step, hprepare]
  | ok prepared =>
      simp only [System.insertAndCommit, step, hprepare,
        if_pos (hx.definitions.resolved hprepare)]

/-- A start whose definition is gone is refused, whatever it has read. -/
theorem insertAndCommit_absent {loaded : Option WorkflowDefinition} {definitions : DefinitionStore}
    (hloaded : ∀ wd, loaded = some wd → wd.id = id)
    (habsent : ¬ (workflowDefinitionRow definitions id).isSome = true) :
    x.insertAndCommit publisher definitions
      (WorkflowStartService.prepareLoaded draws now id loaded) = some x := by
  unfold System.insertAndCommit
  split
  · rfl
  · rename_i workflowExecution rootTaskIds hprepare
    obtain ⟨wd, hwd, hcreate⟩ := WorkflowStartService.prepareLoaded_ok hprepare
    refine if_neg fun hresolved => habsent ?_
    unfold WorkflowExecution.resolved at hresolved
    rw [Bool.and_eq_true, WorkflowStartService.workflowDefinitionId_of_create hcreate,
      hloaded wd hwd] at hresolved
    exact hresolved.1

theorem step_start_absent (habsent : ¬ x.Present id) :
    x.step leaseTimeout (.start publisher draws now id) = some x := by
  have hload : WorkflowDefinitionRepository.load x.definitions id = none := by
    unfold WorkflowDefinitionRepository.load
    rw [Option.not_isSome_iff_eq_none.mp habsent]
  simp only [step, WorkflowStartService.prepare, hload]

end System

end Start

/-- A definition that has been read has the identifier that was asked for. -/
theorem id_of_loadEach {id : UUID} {s₁ s₂ s₃ s₄ : DefinitionStore}
    {loaded : Option WorkflowDefinition}
    (h : (loadEach id).reads [s₁, s₂, s₃, s₄] = some (.ok loaded)) :
    ∀ wd, loaded = some wd → wd.id = id := by
  rintro wd rfl
  rw [reads_loadEach, Option.some.injEq, Except.ok.injEq, Option.map_eq_some_iff] at h
  obtain ⟨model, -, rfl⟩ := h
  rfl

/--
**A start is atomic.**  Its statements see what is committed when they begin, and anything may be
committed in between, short of a new definition under the old identifier.  Still the start ends as
if it were one step at its commit: it never starts a definition that was put together from parts
of different times, and it fails no more often.
-/
theorem start_is_atomic {leaseTimeout : Timedelta} {x₁ x₂ x₃ x₄ x₅ : System}
    (h : x₁.Reachable leaseTimeout) {id : UUID}
    (h₂ : x₁.Meanwhile leaseTimeout (SystemAction.Spares id) x₂)
    (h₃ : x₂.Meanwhile leaseTimeout (SystemAction.Spares id) x₃)
    (h₄ : x₃.Meanwhile leaseTimeout (SystemAction.Spares id) x₄)
    (h₅ : x₄.Meanwhile leaseTimeout (SystemAction.Spares id) x₅)
    {loaded : Option WorkflowDefinition}
    (hread : (loadEach id).reads
      [x₁.definitions, x₂.definitions, x₃.definitions, x₄.definitions] = some (.ok loaded))
    (publisher : Nat) (draws : Draws) (now : Datetime) :
    x₅.insertAndCommit publisher x₅.definitions
        (WorkflowStartService.prepareLoaded draws now id loaded) =
      x₅.step leaseTimeout (.start publisher draws now id) := by
  have hx₂ := h₂.reachable h
  have hx₃ := h₃.reachable hx₂
  have hx₄ := h₄.reachable hx₃
  by_cases hpresent : x₅.Present id
  · obtain ⟨hp₄, hs₄⟩ := h₅.same hx₄ hpresent
    obtain ⟨hp₃, hs₃⟩ := h₄.same hx₃ hp₄
    obtain ⟨hp₂, hs₂⟩ := h₃.same hx₂ hp₃
    obtain ⟨-, hs₁⟩ := h₂.same h hp₂
    have hs₃ := hs₃.trans hs₄
    have hs₂ := hs₂.trans hs₃
    rw [reads_loadEach_same (hs₁.trans hs₂) hs₂ hs₃ hs₄, Option.some.injEq,
      Except.ok.injEq] at hread
    rw [← hread, ← WorkflowStartService.prepare_eq]
    exact (h₅.reachable hx₄).sound.insertAndCommit
  · rw [System.insertAndCommit_absent (id_of_loadEach hread) hpresent,
      System.step_start_absent hpresent]

/-- A definition of one task, which nothing keeps from being deleted. -/
def singleRequest : CreateWorkflowDefinition where
  name := "single"
  description := ""
  tasks :=
    [{ pluginType := "produce_value", key := "a", configuration := [("value", .int 7)]
       dependencies := [], maxTries := 1 }]
  triggers := []
  enabled := true

/-- The definition is deleted before its tasks are read: what has been read has none. -/
theorem start_is_atomic_sample :
    ∃ x y : System, x.step 100 (.delete 1) = some y ∧ ∃ wd,
      (loadEach 1).reads [x.definitions, x.definitions, y.definitions, y.definitions] =
        some (.ok (some wd)) ∧ wd.taskDefinitions = [] ∧
      y.insertAndCommit 0 y.definitions
          (WorkflowStartService.prepareLoaded ⟨1, id⟩ 0 1 (some wd)) =
        y.step 100 (.start 0 ⟨1, id⟩ 0 1) := by
  let x := systemAfter singleRequest []
  let y := x.settle (WorkflowDefinitionService.delete x.database 1)
  have hx : x.Reachable 100 := systemAfter_reachable singleRequest (by simp)
  have hrow : (workflowDefinitionRow x.definitions 1).isSome = true := by decide +kernel
  have hempty : (taskDefinitionModels y.definitions 1).length = 0 := by decide +kernel
  obtain ⟨m, hm⟩ := Option.isSome_iff_exists.mp hrow
  have hread := reads_loadEach x.definitions x.definitions y.definitions y.definitions 1
  rw [hm, List.length_eq_zero_iff.mp hempty] at hread
  refine ⟨x, y, rfl, _, hread, rfl, ?_⟩
  exact start_is_atomic hx .refl (.step .refl (.delete 1) trivial trivial rfl) .refl .refl hread
    0 ⟨1, id⟩ 0

/-! ### The commit of a scheduled start -/

namespace System

variable {leaseTimeout : Timedelta} {x x' y : System} {action : SystemAction} {id trigger : UUID}

/-- What a lock on the row of a trigger's state keeps as it is. -/
structure Held (trigger : UUID) (s s' : DefinitionStore) : Prop where
  definition : triggerDefinitionRow s' trigger = triggerDefinitionRow s trigger
  state : triggerStateRow s' trigger = triggerStateRow s trigger

theorem Held.trans {s s' s'' : DefinitionStore} (h : Held trigger s s')
    (h' : Held trigger s' s'') : Held trigger s s'' :=
  ⟨h'.definition.trans h.definition, h'.state.trans h.state⟩

/-- It is due when it was. -/
theorem Held.dueRow {s s' : DefinitionStore} (h : Held trigger s s') (now : Datetime) :
    ChronologicalTriggerRepository.dueRow s' now trigger =
      ChronologicalTriggerRepository.dueRow s now trigger := by
  unfold ChronologicalTriggerRepository.dueRow
  rw [h.state, h.definition]

/-- Nobody touches the trigger, and its definition stays. -/
theorem Sound.held_of_step (hx : x.Sound leaseTimeout) (hvalid : action.Valid x)
    (hrespects : action.Respects id trigger) (hs : x.step leaseTimeout action = some x')
    {m : TriggerDefinitionModel} (hm : triggerDefinitionRow x.definitions trigger = some m)
    (hid : m.workflowDefinitionId = id) (hpresent : x.Present id) :
    x'.Present id ∧ Held trigger x.definitions x'.definitions := by
  have hconsistent := consistent_executions hx.definitions.consistent x.database.executions
  have hstep := redefines_of_step hs
  unfold Present at hpresent ⊢
  generalize x'.definitions = s' at hstep ⊢
  cases hstep with
  | same => exact ⟨hpresent, rfl, rfl⟩
  | created draws now request r hcreate =>
      obtain ⟨-, resolved, hcreated⟩ := create_cases hconsistent hvalid hcreate
      obtain ⟨w, hw⟩ := Option.isSome_iff_exists.mp hpresent
      have hpart : ¬ ∃ t ∈ (requested draws request).triggerDefinitions, t.id = trigger := by
        rintro ⟨t, ht, rfl⟩
        obtain ⟨k, -, rfl⟩ := List.mem_map.mp ht
        have hfree := (show NewIds draws x.definitions from hvalid).triggers k.2
        rw [show triggerDefinitionRow x.definitions (draws.triggerDefinitionId k.2) = some m
          from hm] at hfree
        simp at hfree
      exact ⟨Option.isSome_of_eq_some (hcreated.added.workflow_old hw),
        hcreated.added.others (.trigger trigger) hpart,
        hcreated.added.others (.chronologicalTriggerState trigger) hpart⟩
  | deleted other db hdelete =>
      rcases delete_cases hconsistent hdelete with rfl | ⟨-, hdeleted, -⟩
      · exact ⟨hpresent, rfl, rfl⟩
      have hother : ¬ ∃ m, triggerDefinitionRow x.definitions trigger = some m ∧
          m.workflowDefinitionId = other := by
        rintro ⟨m', hm', hid'⟩
        obtain rfl := Option.some.inj (hm.symm.trans hm')
        exact hrespects (hid'.symm.trans hid)
      refine ⟨?_, hdeleted.others (.trigger trigger) hother,
        hdeleted.others (.chronologicalTriggerState trigger) hother⟩
      have hkept := hdeleted.others (.workflow id) fun h => hrespects h.symm
      rw [workflowDefinitionRow, hkept]
      exact hpresent
  | rescheduled publisher draws now createdAt locked other next definitions hfree hreschedule =>
      have hrows := reschedule_rows hreschedule
      refine ⟨?_, hrows (.trigger trigger) (by simp), ?_⟩
      · rw [workflowDefinitionRow, hrows (.workflow id) (by simp)]
        exact hpresent
      · refine (reschedule_spec hreschedule).2 _ fun h => hfree ?_
        obtain rfl := DefinitionRowId.chronologicalTriggerState.inj h
        exact hrespects

theorem Meanwhile.held (h : x.Meanwhile leaseTimeout (SystemAction.Respects id trigger) y)
    (hx : x.Reachable leaseTimeout) {m : TriggerDefinitionModel}
    (hm : triggerDefinitionRow x.definitions trigger = some m) (hid : m.workflowDefinitionId = id)
    (hpresent : x.Present id) :
    y.Present id ∧ Held trigger x.definitions y.definitions ∧
      Unmoved id x.definitions y.definitions := by
  induction h with
  | refl => exact ⟨hpresent, ⟨rfl, rfl⟩, .refl _ _⟩
  | step h action hvalid hrespects hs ih =>
      obtain ⟨hpresent', hheld, hsame⟩ := ih
      have hy := (h.reachable hx).sound
      obtain ⟨hpresent'', hheld'⟩ :=
        hy.held_of_step hvalid hrespects hs (hheld.definition.trans hm) hid hpresent'
      exact ⟨hpresent'', hheld.trans hheld', hsame.trans (hy.same_of_step hvalid hs hpresent' hpresent'')⟩

end System

/-- A due trigger is selected when others have locked all the rest. -/
theorem ChronologicalTriggerRepository.getNextDueUnlocked_eq {s : DefinitionStore} {now : Datetime}
    {d : DueChronologicalTrigger} (h : dueRow s now d.triggerDefinitionId = some d) :
    getNextDueUnlocked s now (((due s now).map (·.triggerDefinitionId)).filter
      (· ≠ d.triggerDefinitionId)) = some d := by
  unfold getNextDueUnlocked
  cases hfind : (due s now).find? _ with
  | none =>
      have hnot := List.find?_eq_none.mp hfind d (mem_due.mpr ⟨_, h⟩)
      simp at hnot
  | some e =>
      obtain ⟨i, hi⟩ := mem_due.mp (List.mem_of_find?_eq_some hfind)
      obtain ⟨rfl, -⟩ := dueRow_spec hi
      have hmem : e.triggerDefinitionId ∈ (due s now).map (·.triggerDefinitionId) :=
        List.mem_map_of_mem (mem_due.mpr ⟨_, hi⟩)
      have hid : e.triggerDefinitionId = d.triggerDefinitionId := by
        have hpass := List.find?_some hfind
        simp only [List.contains_eq_mem, List.mem_filter, hmem, true_and] at hpass
        simpa using hpass
      rw [hid] at hi
      exact hi.symm.trans h

/-- The end of a tick that has read everything as it is at the commit. -/
theorem System.Sound.rescheduleAndCommit {leaseTimeout : Timedelta} {x : System}
    (hx : x.Sound leaseTimeout) {due : DueChronologicalTrigger} {now createdAt : Datetime}
    {locked : List UUID} {publisher : Nat} {draws : Draws}
    (hdue : ChronologicalTriggerRepository.getNextDueUnlocked x.definitions now locked =
      some due) :
    x.rescheduleAndCommit publisher due
        (WorkflowStartService.prepare x.definitions draws createdAt due.workflowDefinitionId) =
      x.step leaseTimeout (.processNextDue publisher draws now createdAt locked) := by
  unfold System.rescheduleAndCommit
  simp only [step, ChronologicalTriggerService.prepareNextDue, hdue]
  cases hnext : ChronologicalTriggerService.nextRunAt .discovered due.pluginType
      due.configuration due.nextRunAt with
  | error e => rfl
  | ok next =>
      cases hreschedule : ChronologicalTriggerService.reschedule x.definitions
          due.triggerDefinitionId next with
      | error e => simp [bind, Except.bind, hreschedule]
      | ok s =>
          have hprepare : WorkflowStartService.prepare s draws createdAt due.workflowDefinitionId =
              WorkflowStartService.prepare x.definitions draws createdAt
                due.workflowDefinitionId := by
            rw [WorkflowStartService.prepare_eq, WorkflowStartService.prepare_eq,
              (Unmoved.rescheduled hreschedule).load]
          simp only [bind, Except.bind, hreschedule, hprepare]
          unfold System.insertAndCommit
          split
          · rename_i e hfails
            rw [hfails]
          · rename_i workflowExecution rootTaskIds hprepared
            rw [hprepared, if_pos]
            · rfl
            · exact (hx.definitions.reschedule hreschedule).resolved (hprepare.trans hprepared)

/--
**A scheduled start is atomic, too.**  It holds the lock of its trigger's row from the selection on,
and it does what one step at its commit would do, for the same trigger and the same occurrence.
-/
theorem tick_is_atomic {leaseTimeout : Timedelta} {x₀ x₁ x₂ x₃ x₄ x₅ : System}
    (h : x₀.Reachable leaseTimeout) {now : Datetime} {locked : List UUID}
    {due : DueChronologicalTrigger}
    (hdue : ChronologicalTriggerRepository.getNextDueUnlocked x₀.definitions now locked = some due)
    (h₁ : x₀.Meanwhile leaseTimeout
      (SystemAction.Respects due.workflowDefinitionId due.triggerDefinitionId) x₁)
    (h₂ : x₁.Meanwhile leaseTimeout
      (SystemAction.Respects due.workflowDefinitionId due.triggerDefinitionId) x₂)
    (h₃ : x₂.Meanwhile leaseTimeout
      (SystemAction.Respects due.workflowDefinitionId due.triggerDefinitionId) x₃)
    (h₄ : x₃.Meanwhile leaseTimeout
      (SystemAction.Respects due.workflowDefinitionId due.triggerDefinitionId) x₄)
    (h₅ : x₄.Meanwhile leaseTimeout
      (SystemAction.Respects due.workflowDefinitionId due.triggerDefinitionId) x₅)
    {loaded : Option WorkflowDefinition}
    (hread : (loadEach due.workflowDefinitionId).reads
      [x₁.definitions, x₂.definitions, x₃.definitions, x₄.definitions] = some (.ok loaded))
    (publisher : Nat) (draws : Draws) (createdAt : Datetime) :
    ∃ locked', ChronologicalTriggerRepository.getNextDueUnlocked x₅.definitions now locked' =
        some due ∧
      x₅.rescheduleAndCommit publisher due
          (WorkflowStartService.prepareLoaded draws createdAt due.workflowDefinitionId loaded) =
        x₅.step leaseTimeout (.processNextDue publisher draws now createdAt locked') := by
  have hrow := ChronologicalTriggerRepository.dueRow_of_getNextDueUnlocked hdue
  obtain ⟨-, -, -, m, hm, -, hid, -⟩ := dueRow_spec hrow
  have hpresent : x₀.Present due.workflowDefinitionId := by
    rw [hid]
    exact h.sound.definitions.accepted.workflow _ m hm
  have hx₁ := h₁.reachable h
  have hx₂ := h₂.reachable hx₁
  have hx₃ := h₃.reachable hx₂
  have hx₄ := h₄.reachable hx₃
  obtain ⟨hp₁, hheld₁, -⟩ := h₁.held h hm hid.symm hpresent
  obtain ⟨hp₂, hheld₂, hs₁⟩ := h₂.held hx₁ (hheld₁.definition.trans hm) hid.symm hp₁
  have hheld₂ := hheld₁.trans hheld₂
  obtain ⟨hp₃, hheld₃, hs₂⟩ := h₃.held hx₂ (hheld₂.definition.trans hm) hid.symm hp₂
  have hheld₃ := hheld₂.trans hheld₃
  obtain ⟨hp₄, hheld₄, hs₃⟩ := h₄.held hx₃ (hheld₃.definition.trans hm) hid.symm hp₃
  have hheld₄ := hheld₃.trans hheld₄
  obtain ⟨-, hheld₅, hs₄⟩ := h₅.held hx₄ (hheld₄.definition.trans hm) hid.symm hp₄
  have hheld₅ := hheld₄.trans hheld₅
  have hs₃ := hs₃.trans hs₄
  have hs₂ := hs₂.trans hs₃
  rw [reads_loadEach_same (hs₁.trans hs₂) hs₂ hs₃ hs₄, Option.some.injEq,
    Except.ok.injEq] at hread
  have hdue' := ChronologicalTriggerRepository.getNextDueUnlocked_eq
    ((hheld₅.dueRow now).trans hrow)
  refine ⟨_, hdue', ?_⟩
  rw [← hread, ← WorkflowStartService.prepare_eq]
  exact (h₅.reachable hx₄).sound.rescheduleAndCommit hdue'

/-- The definition is started by hand after its trigger has been selected. -/
theorem tick_is_atomic_sample :
    ∃ y due loaded locked', (sampleSystem 0).step 100 (.start 0 ⟨1, id⟩ 0 1) = some y ∧
      ChronologicalTriggerRepository.getNextDueUnlocked (sampleSystem 0).definitions 60000000 [] =
        some due ∧
      (loadEach due.workflowDefinitionId).reads
        [y.definitions, y.definitions, y.definitions, y.definitions] = some (.ok loaded) ∧
      ChronologicalTriggerRepository.getNextDueUnlocked y.definitions 60000000 locked' =
        some due ∧
      y.rescheduleAndCommit 1 due (WorkflowStartService.prepareLoaded ⟨2, fun i => i + 5000⟩
          60000000 due.workflowDefinitionId loaded) =
        y.step 100 (.processNextDue 1 ⟨2, fun i => i + 5000⟩ 60000000 60000000 locked') := by
  have hstep : ((sampleSystem 0).step 100 (.start 0 ⟨1, id⟩ 0 1)).isSome = true := by
    decide +kernel
  have hdue : (ChronologicalTriggerRepository.getNextDueUnlocked (sampleSystem 0).definitions
      60000000 []).isSome = true := by
    decide +kernel
  obtain ⟨y, hy⟩ := Option.isSome_iff_exists.mp hstep
  obtain ⟨due, hdue⟩ := Option.isSome_iff_exists.mp hdue
  have hread := reads_loadEach y.definitions y.definitions y.definitions y.definitions
    due.workflowDefinitionId
  obtain ⟨locked', hdue', hatomic⟩ := tick_is_atomic (sampleSystem_reachable 0) hdue
    (.step .refl (.start 0 ⟨1, id⟩ 0 1) trivial trivial hy) .refl .refl .refl .refl hread 1
    ⟨2, fun i => i + 5000⟩ 60000000
  exact ⟨y, due, _, locked', hy, hdue, hread, hdue', hatomic⟩

end AutomationPlatform
