/-
What is answered to a definition, and when.

One that is not valid is the client's mistake and is answered with 400.  One that is valid and
cannot be stored all the same, because a task comes before one it depends on, a number is out of
range, a text or a JSON value does not fit its column, or a limit of the driver or the index is
exceeded, raises in the database or in a plugin and is answered with 500.  Nothing else keeps a
definition from being stored, and whatever is not answered with 201 has changed nothing.
-/
import AutomationPlatform.Proofs.System.Answers

namespace AutomationPlatform

open Sql (bind_eq_ok bind_eq_error)
open WorkflowDefinitionRepository WorkflowDefinitionService

/-! ### Validating triggers -/

theorem mapM_ok_iff {ε α β : Type} {f : α → Except ε β} {l : List α} :
    (∃ l', l.mapM f = .ok l') ↔ ∀ a ∈ l, ∃ b, f a = .ok b := by
  induction l with
  | nil => exact ⟨fun _ _ h => absurd h (by simp), fun _ => ⟨[], rfl⟩⟩
  | cons a rest ih =>
      rw [List.forall_mem_cons, ← ih]
      constructor
      · rintro ⟨l', h⟩
        rw [List.mapM_cons] at h
        obtain ⟨b, hb, h⟩ := bind_eq_ok.mp h
        obtain ⟨bs, hbs, -⟩ := bind_eq_ok.mp h
        exact ⟨⟨b, hb⟩, bs, hbs⟩
      · rintro ⟨⟨b, hb⟩, bs, hbs⟩
        exact ⟨b :: bs, by rw [List.mapM_cons, hb, hbs]; rfl⟩

theorem WorkflowDefinitionService.Rejects.mapM {α β : Type} {f : α → Except Raised β} {l : List α}
    (h : ∀ a ∈ l, Rejects (f a)) : Rejects (l.mapM f) := by
  induction l with
  | nil =>
      intro e he
      simp [pure, Except.pure] at he
  | cons a rest ih =>
      rw [List.mapM_cons]
      refine (h a (by simp)).bind fun b _ => (ih fun c hc => h c (by simp [hc])).bind ?_
      intro bs _ e he
      simp [pure, Except.pure] at he

section Triggers

variable {draws : DefinitionDraws} {trigger : CreateTriggerDefinition × Nat}

/-- A trigger is created or is no valid part of a definition. -/
theorem createTriggerDefinition_rejects :
    Rejects (createTriggerDefinition .discovered draws trigger) := by
  unfold createTriggerDefinition
  split
  · exact rejects_invalid _
  rename_i hcontains
  rw [Bool.not_eq_false, TriggerRegistry.contains, Option.isSome_iff_exists] at hcontains
  obtain ⟨plugin, hplugin⟩ := hcontains
  have hget : TriggerRegistry.discovered.get trigger.1.pluginType = .ok plugin := by
    unfold TriggerRegistry.get
    rw [hplugin]
  obtain rfl := TriggerRegistry.eq_interval_of_discovered hplugin
  rw [hget]
  refine Rejects.bind ?_ fun _ _ => ?_
  · show Rejects (validateConfiguration
      (IntervalTrigger.validateConfiguration trigger.1.configuration) _ _)
    unfold validateConfiguration
    split
    · intro e he
      simp at he
    · rename_i e he
      rw [if_pos]
      · exact rejects_invalid _
      · unfold IntervalTrigger.validateConfiguration at he
        split at he
        · split at he
          · rw [← Except.error.inj he]
          · split at he
            · rw [← Except.error.inj he]
            · simp at he
        · rw [← Except.error.inj he]
  · intro e he
    simp [bind, Except.bind, pure, Except.pure] at he

/-- It is created when a plugin of the package accepts its configuration. -/
theorem createTriggerDefinition_iff :
    (∃ r, createTriggerDefinition .discovered draws trigger = .ok r) ↔
      TriggerAccepted trigger.1.pluginType trigger.1.configuration := by
  constructor
  · rintro ⟨r, hr⟩
    obtain ⟨hrequested, hplugin⟩ := createTriggerDefinition_ok hr
    have hvalidated := createTriggerDefinition_validated hr
    rw [hrequested] at hvalidated
    exact ⟨r.2, hplugin, hvalidated⟩
  · rintro ⟨plugin, hplugin, hvalidated⟩
    have hget : TriggerRegistry.discovered.get trigger.1.pluginType = .ok plugin := by
      unfold TriggerRegistry.get
      rw [hplugin]
    unfold createTriggerDefinition
    rw [if_neg (by simp [TriggerRegistry.contains, hplugin]), hget]
    simp only [bind, Except.bind, hvalidated, validateConfiguration]
    exact ⟨_, rfl⟩

theorem createTriggerDefinitions_iff {triggers : List CreateTriggerDefinition} :
    (∃ resolved, createTriggerDefinitions .discovered draws triggers = .ok resolved) ↔
      ∀ t ∈ triggers, TriggerAccepted t.pluginType t.configuration := by
  unfold createTriggerDefinitions
  rw [mapM_ok_iff]
  simp only [createTriggerDefinition_iff]
  constructor
  · intro h t ht
    obtain ⟨i, hi⟩ := List.mem_iff_getElem?.mp ht
    exact h (t, i) (by simpa [List.mem_zipIdx_iff_getElem?] using hi)
  · intro h p hp
    rw [List.mem_zipIdx_iff_getElem?] at hp
    exact h p.1 (List.mem_of_getElem? hp)

end Triggers

/-! ### Creating a definition -/

/-- The request is valid. -/
structure Acceptable (request : CreateWorkflowDefinition) : Prop where
  tasks : WellFormed .discovered request.tasks
  acyclic : Acyclic request.tasks
  triggers : ∀ t ∈ request.triggers, TriggerAccepted t.pluginType t.configuration

/-- A valid request can be stored: tasks come after those they depend on, texts and JSON values fit
their columns, and the numbers are in range. -/
structure Storable (draws : DefinitionDraws) (now : UUID → Datetime)
    (request : CreateWorkflowDefinition) : Prop where
  order : Graph.InOrder (·.key) (·.dependencies) request.tasks
  texts : TextsFit request
  maxTries : ∀ t ∈ request.tasks, t.maxTries ≤ 2147483647
  intervals : ∀ t ∈ (requested draws request).triggerDefinitions,
    ∃ next, IntervalTrigger.nextOccurrence t.configuration (now t.id) = .ok next

/-- The driver binds the parameters of its statements, and the index takes its keys. -/
structure WithinLimits (index : KeyIndex) (request : CreateWorkflowDefinition) : Prop where
  tasks : request.tasks.length ≤ 65534
  triggers : request.triggers.length ≤ 65534
  keys : ∀ t ∈ request.tasks, index.takes t.key = true

theorem carriedOut_iff {index : KeyIndex} {request : CreateWorkflowDefinition} :
    carriedOut index request = true ↔ WithinLimits index request := by
  unfold carriedOut PostgresExecutionQueue.maxParameters
  simp only [Bool.and_eq_true, decide_eq_true_eq, List.all_eq_true]
  constructor
  · intro ⟨⟨htasks, htriggers⟩, hkeys⟩
    exact ⟨by omega, by omega, hkeys⟩
  · intro h
    have htasks := h.tasks
    have htriggers := h.triggers
    exact ⟨⟨by omega, by omega⟩, h.keys⟩

section Create

variable {draws : DefinitionDraws} {now : UUID → Datetime} {db : Database}
  {request : CreateWorkflowDefinition}

theorem acceptable_iff (draws : DefinitionDraws) : Acceptable request ↔
    validateTasks .discovered request.tasks = .ok () ∧
      ∃ resolved, createTriggerDefinitions .discovered draws request.triggers = .ok resolved := by
  rw [validateTasks_ok, createTriggerDefinitions_iff]
  exact ⟨fun h => ⟨⟨h.tasks, h.acyclic⟩, h.triggers⟩, fun h => ⟨h.1.1, h.1.2, h.2⟩⟩

/-- The first occurrences of the triggers are what their intervals make of the time. -/
theorem firstOccurrences_iff {resolved : List (TriggerDefinition × TriggerPlugin)}
    (htriggers : createTriggerDefinitions .discovered draws request.triggers = .ok resolved) :
    (∀ trigger ∈ resolved, ∃ next, firstOccurrence now trigger = .ok next) ↔
      ∀ t ∈ (requested draws request).triggerDefinitions,
        ∃ next, IntervalTrigger.nextOccurrence t.configuration (now t.id) = .ok next := by
  have hdefinitions : (requested draws request).triggerDefinitions = resolved.map (·.1) :=
    (createTriggerDefinitions_ok htriggers).symm
  rw [hdefinitions, List.forall_mem_map]
  refine forall₂_congr fun trigger htrigger => ?_
  rw [firstOccurrence_resolved htriggers htrigger]

/-- **When a definition is created.** -/
theorem create_ok_iff (hs : (definitionSchema db.executions).Consistent db.definitions)
    (hnew : NewIds draws db.definitions) :
    (∃ r, create .discovered .discovered draws now db request = .ok r) ↔
      Acceptable request ∧ Storable draws now request := by
  constructor
  · rintro ⟨r, hcreate⟩
    obtain ⟨resolved, s, -, -, htasks, htriggers, hwrite, -⟩ := create_stages hcreate
    have hlinked := (validateTasks_ok.mp htasks).1.linked
    -- What is written fits its columns.
    obtain ⟨hsaveable, -⟩ := writeDefinition_cases hs (distinct_requested hnew hlinked) hwrite
    obtain ⟨htexts, hfits⟩ := fits_requested_iff.mp hsaveable.fits
    obtain ⟨horder, hoccurs⟩ := inOrder_of_create hs hnew htexts hfits htasks htriggers hcreate
    exact ⟨(acceptable_iff draws).mpr ⟨htasks, resolved, htriggers⟩, horder, htexts,
      fun t ht => (fitsInteger_of_accepted htasks ht).mp (hfits t ht),
      (firstOccurrences_iff htriggers).mp hoccurs⟩
  · rintro ⟨hacceptable, hstorable⟩
    obtain ⟨htasks, resolved, htriggers⟩ := (acceptable_iff draws).mp hacceptable
    obtain ⟨db', hcreate, -⟩ := create_of_inOrder hs hnew hstorable.texts
      (fun t ht => (fitsInteger_of_accepted htasks ht).mpr (hstorable.maxTries t ht)) htasks
      htriggers hstorable.order ((firstOccurrences_iff htriggers).mpr hstorable.intervals)
    exact ⟨_, hcreate⟩

/-- A request that is not valid is refused as such. -/
theorem create_rejects (hnot : ¬ Acceptable request) {e : Raised}
    (h : create .discovered .discovered draws now db request = .error e) :
    e.class_ = .invalidWorkflowDefinition := by
  unfold create at h
  rcases bind_eq_error.mp h with htasks | ⟨_, htasks, h⟩
  · exact validateTasks_rejects judges_discovered e htasks
  rw [createTaskDefinitions_ok (validateTasks_ok.mp htasks).1.linked] at h
  rcases bind_eq_error.mp h with hnone | ⟨_, -, h⟩
  · simp at hnone
  rcases bind_eq_error.mp h with htriggers | ⟨resolved, htriggers, -⟩
  · exact Rejects.mapM (fun _ _ => createTriggerDefinition_rejects) e htriggers
  · exact absurd ((acceptable_iff draws).mpr ⟨htasks, resolved, htriggers⟩) hnot

theorem exceptionHandler_databaseError {α : Type} {x : Except Sql.Violation α} {e : Raised}
    (h : databaseError x = .error e) : exceptionHandler e.class_ = none := by
  unfold databaseError at h
  split at h
  · simp at h
  · rw [← Except.error.inj h]; rfl
  · rw [← Except.error.inj h]; rfl
  · rw [← Except.error.inj h]; rfl

theorem exceptionHandler_nextOccurrence {configuration : JsonObject} {after : Datetime} {e : Raised}
    (h : IntervalTrigger.nextOccurrence configuration after = .error e) :
    exceptionHandler e.class_ = none := by
  unfold IntervalTrigger.nextOccurrence at h
  split at h
  · rcases bind_eq_error.mp h with hseconds | ⟨delta, -, h⟩
    · unfold Datetime.seconds at hseconds
      split at hseconds
      · simp at hseconds
      · rw [← Except.error.inj hseconds]; rfl
    · rcases bind_eq_error.mp h with hadd | ⟨next, -, h⟩
      · unfold Datetime.add at hadd
        split at hadd
        · simp at hadd
        · rw [← Except.error.inj hadd]; rfl
      · simp [pure, Except.pure] at h
  · rw [← Except.error.inj h]; rfl
  · rw [← Except.error.inj h]; rfl

/-- What a valid request raises, no handler answers. -/
theorem exceptionHandler_create (hacceptable : Acceptable request) {e : Raised}
    (h : create .discovered .discovered draws now db request = .error e) :
    exceptionHandler e.class_ = none := by
  obtain ⟨htasks, resolved, htriggers⟩ := (acceptable_iff draws).mp hacceptable
  rw [create_eq (validateTasks_ok.mp htasks).1.linked htasks htriggers] at h
  rcases bind_eq_error.mp h with hwrite | ⟨s, -, h⟩
  · exact exceptionHandler_databaseError hwrite
  rcases bind_eq_error.mp h with hinitialize | ⟨x, -, h⟩
  · obtain ⟨trigger, htrigger, y, hy⟩ := Sql.exists_of_foldlM_error hinitialize
    rw [initializeState_eq] at hy
    rcases bind_eq_error.mp hy with hfirst | ⟨next, -, hy⟩
    · rw [firstOccurrence_resolved htriggers htrigger] at hfirst
      exact exceptionHandler_nextOccurrence hfirst
    · simp [pure, Except.pure] at hy
  rcases bind_eq_error.mp h with hcommit | ⟨definitions, -, h⟩
  · exact exceptionHandler_databaseError hcommit
  · simp [pure, Except.pure] at h

variable {index : KeyIndex}

/-- Through the driver it is created when it can be, and its statements can be carried out. -/
theorem createThroughDriver_eq_ok {r : UUID × Database} :
    createThroughDriver index draws now db request = .ok r ↔
      create .discovered .discovered draws now db request = .ok r ∧
        WithinLimits index request := by
  unfold createThroughDriver
  rw [bind_eq_ok, ← carriedOut_iff]
  constructor
  · rintro ⟨created, hcreate, h⟩
    split at h
    · rename_i hcarried
      obtain rfl := Except.ok.inj h
      exact ⟨hcreate, hcarried⟩
    · simp at h
  · rintro ⟨hcreate, hcarried⟩
    exact ⟨r, hcreate, if_pos hcarried⟩

theorem createThroughDriver_eq_error {e : Raised}
    (h : createThroughDriver index draws now db request = .error e) :
    create .discovered .discovered draws now db request = .error e ∨
      exceptionHandler e.class_ = none ∧ ∃ r, create .discovered .discovered draws now db request =
        .ok r := by
  unfold createThroughDriver at h
  rcases bind_eq_error.mp h with hcreate | ⟨r, hcreate, h⟩
  · exact Or.inl hcreate
  · split at h
    · simp [pure, Except.pure] at h
    · rw [← Except.error.inj h]
      exact Or.inr ⟨rfl, r, hcreate⟩

/-- What the route answers: that the definition is created, or to an exception. -/
theorem createWorkflowDefinition_cases {request : CreateWorkflowDefinitionRequest}
    {response : Response} {db' : Database}
    (h : createWorkflowDefinition index draws now db request = (response, db')) :
    (∃ id, createThroughDriver index draws now db request.toApplicationModel = .ok (id, db') ∧
      response = { statusCode := 201, content := .createWorkflowDefinition id }) ∨
    ∃ e, createThroughDriver index draws now db request.toApplicationModel = .error e ∧
      response = handleException e ∧ db' = db := by
  unfold createWorkflowDefinition at h
  cases hcreate : createThroughDriver index draws now db request.toApplicationModel with
  | ok r =>
      simp only [hcreate, Prod.mk.injEq] at h
      obtain ⟨rfl, rfl⟩ := h
      exact Or.inl ⟨r.1, rfl, rfl⟩
  | error e =>
      simp only [hcreate, Prod.mk.injEq] at h
      obtain ⟨rfl, rfl⟩ := h
      exact Or.inr ⟨e, rfl, rfl, rfl⟩

end Create

/-- What the route does with success is a step of the system. -/
theorem createWorkflowDefinition_step {leaseTimeout : Timedelta} {x : System} {index : KeyIndex}
    {draws : DefinitionDraws} {now : UUID → Datetime} {request : CreateWorkflowDefinitionRequest}
    {r : UUID × Database} (h : createThroughDriver index draws now x.database
      request.toApplicationModel = .ok r) :
    x.step leaseTimeout (.create draws now request.toApplicationModel) =
      some { x with definitions := r.2.definitions } := by
  simp only [System.step, (createThroughDriver_eq_ok.mp h).1]
  rfl

/-- The answer to an exception. -/
theorem handleException_none {e : Raised} (h : exceptionHandler e.class_ = none) :
    handleException e = { statusCode := 500, content := .internalServerError } := by
  unfold handleException
  rw [h]

theorem statusCode_handleException (e : Raised) : (handleException e).statusCode ≠ 201 := by
  unfold handleException
  cases e.class_ <;> simp [exceptionHandler]

/--
**What is answered to a definition.**  400 if it is not valid, and only then; 201 if it is valid,
can be stored, and is within the limits of the driver and the index; and 500 otherwise.  With 201 it
is stored under the identifier of the answer, and with anything else nothing has changed.
-/
theorem create_answers {leaseTimeout : Timedelta} {x : System} (h : x.Reachable leaseTimeout)
    (index : KeyIndex) {draws : DefinitionDraws} (hnew : NewIds draws x.definitions)
    (now : UUID → Datetime) {request : CreateWorkflowDefinitionRequest} {response : Response}
    {db' : Database}
    (hanswer : createWorkflowDefinition index draws now x.database request = (response, db')) :
    (response.statusCode = 400 ↔ ¬ Acceptable request.toApplicationModel) ∧
    (response.statusCode = 201 ↔ Acceptable request.toApplicationModel ∧
      Storable draws now request.toApplicationModel ∧
      WithinLimits index request.toApplicationModel) ∧
    (response.statusCode = 201 ∨ response.statusCode = 400 ∨
      response = { statusCode := 500, content := .internalServerError }) ∧
    (response.statusCode ≠ 201 → db' = x.database) ∧
    (response.statusCode = 201 →
      response.content = .createWorkflowDefinition draws.workflowDefinitionId ∧
      db'.executions = x.executions ∧
      ∃ wd, load db'.definitions draws.workflowDefinitionId = some wd ∧
        wd.SameUpToOrder (requested draws request.toApplicationModel)) := by
  have hconsistent := consistent_executions h.sound.definitions.consistent x.database.executions
  have hiff : (∃ r, create .discovered .discovered draws now x.database
      request.toApplicationModel = .ok r) ↔ _ := create_ok_iff hconsistent hnew
  rcases createWorkflowDefinition_cases hanswer with ⟨id, hdriver, rfl⟩ | ⟨e, hdriver, rfl, rfl⟩
  · obtain ⟨hcreate, hlimits⟩ := createThroughDriver_eq_ok.mp hdriver
    have hboth := hiff.mp ⟨_, hcreate⟩
    obtain ⟨rfl, resolved, hcreated⟩ := create_cases hconsistent hnew hcreate
    refine ⟨by simp [hboth.1], by simp [hboth, hlimits], by simp, by simp, fun _ => ?_⟩
    exact ⟨rfl, hcreated.created.executions, hcreated.created.loads⟩
  · have hnot : ¬ (Acceptable request.toApplicationModel ∧
        Storable draws now request.toApplicationModel ∧
        WithinLimits index request.toApplicationModel) := by
      rintro ⟨hacceptable, hstorable, hlimits⟩
      obtain ⟨r, hr⟩ := hiff.mpr ⟨hacceptable, hstorable⟩
      rw [createThroughDriver_eq_ok.mpr ⟨hr, hlimits⟩] at hdriver
      simp at hdriver
    by_cases hacceptable : Acceptable request.toApplicationModel
    · have hnone : exceptionHandler e.class_ = none := by
        rcases createThroughDriver_eq_error hdriver with hcreate | ⟨hnone, -⟩
        · exact exceptionHandler_create hacceptable hcreate
        · exact hnone
      rw [handleException_none hnone]
      exact ⟨by simp [hacceptable], by simp [hnot], by simp, by simp, by simp⟩
    · have hclass : e.class_ = .invalidWorkflowDefinition := by
        rcases createThroughDriver_eq_error hdriver with hcreate | ⟨-, hcreate⟩
        · exact create_rejects hacceptable hcreate
        · exact absurd (hiff.mp hcreate).1 hacceptable
      simp only [handleException, hclass, exceptionHandler]
      exact ⟨by simp [hacceptable], by simp [hnot], by simp, by simp, by simp⟩

/-- The definition of the sample, as it is posted. -/
def postedRequest : CreateWorkflowDefinitionRequest where
  name := "report"
  description := ""
  tasks :=
    [{ pluginType := "produce_value", key := "a", configuration := [("value", .int 7)]
       maxTries := 2 },
     { pluginType := "collect_inputs", key := "b", dependencies := ["a"], maxTries := 1 }]
  triggers :=
    [{ pluginType := "interval", configuration := [("interval_seconds", .int 60)], enabled := true }]
  enabled := true

theorem create_answers_sample : ∃ response db',
    createWorkflowDefinition .uncompressed firstDraws (fun _ => 0) (System.init 0).database
      postedRequest = (response, db') ∧ response.statusCode = 201 ∧
    Acceptable postedRequest.toApplicationModel ∧
    ∃ wd, load db'.definitions 1 = some wd ∧
      wd.SameUpToOrder (requested firstDraws postedRequest.toApplicationModel) := by
  have hcreated : (createWorkflowDefinition .uncompressed firstDraws (fun _ => 0)
      (System.init 0).database postedRequest).1.statusCode = 201 := by
    decide +kernel
  have hx : (System.init 0).Reachable 100 := .init 0
  obtain ⟨-, h201, -, -, hstored⟩ := create_answers hx .uncompressed newIds_firstDraws (fun _ => 0)
    (show createWorkflowDefinition _ firstDraws _ _ postedRequest = (_, _) from rfl)
  obtain ⟨-, -, hloads⟩ := hstored hcreated
  exact ⟨_, _, rfl, hcreated, (h201.mp hcreated).1, hloads⟩

/-- The same definition with a NUL in its name. -/
def nulRequest : CreateWorkflowDefinitionRequest :=
  { postedRequest with name := String.ofList [Char.ofNat 0] }

/-- It is valid, or it would be answered with 400, and it cannot be stored. -/
example : (createWorkflowDefinition .uncompressed firstDraws (fun _ => 0) (System.init 0).database
    nulRequest).1.statusCode = 500 := by
  decide +kernel

end AutomationPlatform
