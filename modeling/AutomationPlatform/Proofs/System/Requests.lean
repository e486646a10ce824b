/-
What is answered about an execution is what was posted.

A request has a meaning of its own, by the keys of its tasks: what each task comes to follows from
what those it depends on come to.  Between the request and an answer lie the definition that was
stored for it, the execution compiled from that, and whatever the platform did with it.  All of
this keeps the meaning, so a client can tell from its request alone what it may ever be answered.
-/
import AutomationPlatform.Proofs.System.Meaning
import AutomationPlatform.Proofs.System.Recovery
import AutomationPlatform.Proofs.System.Starts

namespace AutomationPlatform

open WorkflowDefinitionRepository WorkflowDefinitionService

/-! ### The meaning of a request -/

/-- What a task of a request comes to.  The inputs of a plugin are in no particular order. -/
inductive CreateWorkflowDefinitionRequest.Means (request : CreateWorkflowDefinitionRequest) :
    CreateTaskDefinitionRequest → TaskResult → Prop
  | task {t : CreateTaskDefinitionRequest} {plugin : TaskPlugin}
      {inputs : List (String × TaskOutput)} (results : CreateTaskDefinitionRequest → TaskResult)
      (hplugin : TaskRegistry.discovered t.pluginType = some plugin)
      (hdependencies : ∀ p ∈ request.tasks, p.key ∈ t.dependencies → request.Means p (results p))
      (hsucceeded : ∀ p ∈ request.tasks, p.key ∈ t.dependencies → (results p).succeeded = true)
      (hinputs : inputs.Perm ((request.tasks.filter fun p => p.key ∈ t.dependencies).map
        fun p => (p.key, (results p).output))) :
      request.Means t (plugin.execute { configuration := t.configuration, inputs := inputs })

/-- What an execution of a request ends as. -/
def CreateWorkflowDefinitionRequest.outcome (request : CreateWorkflowDefinitionRequest) : String :=
  if request.tasks.any fun t => t.pluginType == FailTask.pluginType then "FAILED" else "COMPLETED"

/-- The definition of a task of a request. -/
def CreateTaskDefinitionRequest.definition (draws : DefinitionDraws)
    (t : CreateTaskDefinitionRequest) : TaskDefinition where
  id := draws.taskDefinitionId t.key
  pluginType := t.pluginType
  key := t.key
  configuration := t.configuration
  dependencies := t.dependencies.map draws.taskDefinitionId
  maxTries := t.maxTries

section Meaning

variable {draws : DefinitionDraws} {request : CreateWorkflowDefinitionRequest}
  {wd : WorkflowDefinition}

theorem requested_tasks (draws : DefinitionDraws) (request : CreateWorkflowDefinitionRequest) :
    (requested draws request.toApplicationModel).taskDefinitions =
      request.tasks.map (·.definition draws) := by
  simp only [requested, CreateWorkflowDefinitionRequest.toApplicationModel, List.map_map]
  rfl

/-- A stored definition has the tasks of its request, and no others. -/
structure Renders (draws : DefinitionDraws) (request : CreateWorkflowDefinitionRequest)
    (wd : WorkflowDefinition) : Prop where
  valid : wd.Valid
  tasks : ∀ d ∈ wd.taskDefinitions, ∃ t ∈ request.tasks, d.Same (t.definition draws)
  requested : ∀ t ∈ request.tasks, ∃ d ∈ wd.taskDefinitions, d.Same (t.definition draws)
  perm : (wd.taskDefinitions.map fun d => (d.key, d.pluginType)).Perm
    (request.tasks.map fun t => (t.key, t.pluginType))

theorem renders_of_same (hvalid : wd.Valid)
    (h : wd.SameUpToOrder (requested draws request.toApplicationModel)) :
    Renders draws request wd := by
  obtain ⟨l, hperm, hsame⟩ := h.tasks
  rw [requested_tasks] at hperm
  refine ⟨hvalid, fun d hd => ?_, fun t ht => ?_, ?_⟩
  · obtain ⟨u, hu, hdu⟩ := exists_of_forall₂ hsame hd
    obtain ⟨t, ht, rfl⟩ := List.mem_map.mp (hperm.mem_iff.mp hu)
    exact ⟨t, ht, hdu⟩
  · have hmem : t.definition draws ∈ l := hperm.mem_iff.mpr (List.mem_map_of_mem ht)
    obtain ⟨d, hd, hdt⟩ := exists_of_forall₂ hsame.flip hmem
    exact ⟨d, hd, hdt⟩
  · have heq : wd.taskDefinitions.map (fun d => (d.key, d.pluginType)) =
        l.map fun d => (d.key, d.pluginType) := by
      rw [← List.forall₂_eq_eq_eq, List.forall₂_map_left_iff, List.forall₂_map_right_iff]
      exact hsame.imp fun d u hdu => Prod.ext hdu.key hdu.pluginType
    rw [heq]
    refine (hperm.map _).trans (List.Perm.of_eq ?_)
    rw [List.map_map]
    rfl

end Meaning

section Renders

variable {draws : DefinitionDraws} {request : CreateWorkflowDefinitionRequest}
  {wd : WorkflowDefinition}

/-- The definitions of the tasks of a request, one for each. -/
theorem Renders.definitions_perm (h : Renders draws request wd)
    (definition : CreateTaskDefinitionRequest → TaskDefinition)
    (hdefinition : ∀ t ∈ request.tasks,
      definition t ∈ wd.taskDefinitions ∧ (definition t).Same (t.definition draws)) :
    wd.taskDefinitions.Perm (request.tasks.map definition) := by
  have hkeys : (request.tasks.map (·.key)).Nodup := by
    have hperm := h.perm.map Prod.fst
    rw [List.map_map, List.map_map] at hperm
    exact hperm.nodup_iff.mp h.valid.keys
  have hright : (request.tasks.map definition).Nodup := by
    refine List.Nodup.of_map (·.key) ?_
    rw [List.map_map]
    refine (List.map_congr_left fun t ht => ?_) ▸ hkeys
    exact (hdefinition t ht).2.key.symm
  refine (List.perm_ext_iff_of_nodup (List.Nodup.of_map _ h.valid.ids) hright).mpr fun d => ?_
  rw [List.mem_map]
  constructor
  · intro hd
    obtain ⟨t, ht, hdt⟩ := h.tasks d hd
    refine ⟨t, ht, ?_⟩
    exact List.inj_on_of_nodup_map h.valid.ids (hdefinition t ht).1 hd
      ((hdefinition t ht).2.id.trans hdt.id.symm)
  · rintro ⟨t, ht, rfl⟩
    exact (hdefinition t ht).1

/-- **What a definition means, its request has meant.** -/
theorem Renders.means (h : Renders draws request wd)
    (hinjective : Function.Injective draws.taskDefinitionId) {d : TaskDefinition}
    {result : TaskResult} (hevaluates : Evaluates wd d result) :
    ∀ t, d.Same (t.definition draws) → request.Means t result := by
  induction hevaluates with
  | @task d plugin inputs results hplugin _ hsucceeded hinputs ih =>
      intro t hdt
      have hplugin' : TaskRegistry.discovered t.pluginType = some plugin := by
        rw [← hplugin, hdt.pluginType]
        rfl
      have : Nonempty TaskDefinition := ⟨d⟩
      choose! definition hdefinition using h.requested
      have hiff : ∀ p ∈ request.tasks,
          (definition p).id ∈ d.dependencies ↔ p.key ∈ t.dependencies := by
        intro p hp
        rw [(hdefinition p hp).2.id, hdt.dependencies.mem_iff]
        exact List.mem_map_of_injective hinjective
      rw [hdt.configuration]
      refine .task (fun p => results (definition p)) hplugin' ?_ ?_ (hinputs.trans ?_)
      · intro p hp hkey
        exact ih _ (hdefinition p hp).1 ((hiff p hp).mpr hkey) p (hdefinition p hp).2
      · intro p hp hkey
        exact hsucceeded _ (hdefinition p hp).1 ((hiff p hp).mpr hkey)
      · refine ((h.definitions_perm definition hdefinition).filter _).map _ |>.trans ?_
        refine List.Perm.of_eq ?_
        rw [List.filter_map, List.map_map]
        have hfilter : request.tasks.filter ((fun p => decide (p.id ∈ d.dependencies)) ∘ definition) =
            request.tasks.filter fun p => decide (p.key ∈ t.dependencies) :=
          List.filter_congr fun p hp => by simp only [Function.comp, hiff p hp]
        rw [hfilter]
        refine List.map_congr_left fun p hp => ?_
        simp only [Function.comp, (hdefinition p (List.mem_filter.mp hp).1).2.key]
        rfl

/-- The end of a workflow is that of its request. -/
theorem Renders.outcome (h : Renders draws request wd) : wd.outcome.name = request.outcome := by
  have hany : (wd.taskDefinitions.any fun d => d.pluginType == FailTask.pluginType) =
      request.tasks.any fun t => t.pluginType == FailTask.pluginType := by
    have hperm := h.perm.any_eq (f := fun e : String × String => e.2 == FailTask.pluginType)
    rwa [List.any_map, List.any_map] at hperm
  unfold WorkflowDefinition.outcome CreateWorkflowDefinitionRequest.outcome
  rw [hany]
  split <;> rfl

end Renders

/-! ### Answers -/

/-- What is answered agrees with the request.  There is an output where a task is completed, and
nowhere else; a message may be there after every attempt that has failed, and it is the meant one
whatever becomes of the task. -/
structure GetWorkflowExecutionResponse.Fulfils (r : GetWorkflowExecutionResponse)
    (request : CreateWorkflowDefinitionRequest) : Prop where
  status : r.status = "RUNNING" ∨ r.status = request.outcome
  tasks : (r.taskExecutions.map fun t => (t.key, t.pluginType)).Perm
    (request.tasks.map fun t => (t.key, t.pluginType))
  completed : ∀ t ∈ r.taskExecutions, t.status = "COMPLETED" → ∃ task ∈ request.tasks,
    task.key = t.key ∧ ∃ result, request.Means task result ∧ result.succeeded = true ∧
      t.output = some result.output.values
  failed : ∀ t ∈ r.taskExecutions, t.status = "FAILED" → ∃ task ∈ request.tasks,
    task.key = t.key ∧ ∃ result, request.Means task result ∧ result.succeeded = false ∧
      t.errorMessage = result.message
  outputs : ∀ t ∈ r.taskExecutions, t.output ≠ none → t.status = "COMPLETED"
  messages : ∀ t ∈ r.taskExecutions, ∀ message, t.errorMessage = some message →
    ∃ task ∈ request.tasks, task.key = t.key ∧ ∃ result, request.Means task result ∧
      result.succeeded = false ∧ result.message = some message

section Answers

variable {leaseTimeout : Timedelta} {draws : DefinitionDraws}
  {request : CreateWorkflowDefinitionRequest} {wd : WorkflowDefinition} {x : System} {id : UUID}

/-- What a task has come to, its definition means, and so does its task in the request. -/
theorem ExecutionOf.means {e : ExecutionStore} (h : ExecutionOf wd e id)
    (hrenders : Renders draws request wd) (hinjective : Function.Injective draws.taskDefinitionId)
    (hlinked : Linked e) (hrows : ∀ i t, taskRow e i = some t → Attested e t)
    {i : UUID} {t : TaskExecutionModel} {result : TaskResult} (hi : taskRow e i = some t)
    (ht : t.workflowExecutionId = id) (hexecuted : Executed e t result) :
    ∃ task ∈ request.tasks, task.key = t.key ∧ request.Means task result := by
  obtain ⟨d, hd, hid, hkey, -⟩ := h.tasks i t hi ht
  obtain ⟨task, htask, hdt⟩ := hrenders.tasks d hd
  refine ⟨task, htask, hdt.key.symm.trans hkey.symm, hrenders.means hinjective ?_ task hdt⟩
  exact h.evaluates hrenders.valid hlinked hrows d hd i t result hi ht hid.symm hexecuted

/-- An execution of the definition is answered about as the request says. -/
theorem System.Reachable.fulfils (hx : x.Reachable leaseTimeout) {s : ExecutionStore}
    (h : Later s x.executions) {w : WorkflowExecutionModel} (hw : workflowRow s id = some w)
    (hload : load x.definitions w.workflowDefinitionId = some wd)
    (hrenders : Renders draws request wd) (hinjective : Function.Injective draws.taskDefinitionId)
    {tasks : List (UUID × TaskExecutionModel)}
    (htasks : tasks.Perm (WorkflowExecutionRepository.taskModels x.executions id)) :
    (answerOf id w tasks).Fulfils request := by
  obtain ⟨w', hw', hev⟩ := workflowRow_le h.le hw
  obtain ⟨wd', hload', hof⟩ := hx.executionOf hw'
  rw [hev.workflowDefinitionId] at hload'
  obtain rfl := Option.some.inj (hload.symm.trans hload')
  have hcoherent := reachable_coherent hx.sound.platform.sound.db
  have hrows := hx.genuine.rows
  have hmarks := hx.genuine.marks
  have hlisted : ∀ r ∈ (answerOf id w tasks).taskExecutions, ∃ i t, taskAnswer (i, t) = r ∧
      taskRow x.executions i = some t ∧ t.workflowExecutionId = id := by
    intro r hr
    rw [taskExecutions_answerOf] at hr
    obtain ⟨⟨i, t⟩, he, rfl⟩ := List.mem_map.mp hr
    exact ⟨i, t, rfl, mem_taskModels.mp (htasks.mem_iff.mp he)⟩
  refine ⟨?_, ?_, fun r hr hstatus => ?_, fun r hr hstatus => ?_, fun r hr houtput => ?_,
    fun r hr message hmessage => ?_⟩
  · by_cases hrunning : w.status = .running
    · exact Or.inl (congrArg WorkflowStatus.name hrunning)
    · right
      obtain rfl := hev.terminal hrunning
      have hended := hof.status hrenders.valid hcoherent hrows hw'
      rw [← hrenders.outcome]
      exact congrArg WorkflowStatus.name (hended.resolve_left hrunning)
  · have hperm := (hof.listed hrenders.valid w htasks).map Prod.snd
    rw [List.map_map, List.map_map] at hperm
    exact hperm.trans hrenders.perm
  · obtain ⟨i, t, rfl, hi, ht⟩ := hlisted r hr
    obtain ⟨result, hexecuted, hsucceeded, houtput⟩ :=
      (hrows i t hi).completed (TaskStatus.name_inj hstatus)
    obtain ⟨task, htask, hkey, hresult⟩ :=
      hof.means hrenders hinjective hcoherent.toLinked hrows hi ht hexecuted
    refine ⟨task, htask, hkey, result, hresult, hsucceeded, ?_⟩
    simp [taskAnswer, TaskExecutionResponse.fromDomain, WorkflowExecutionMapper.taskToDomain,
      WorkflowExecutionMapper.outputToDomain, houtput]
  · obtain ⟨i, t, rfl, hi, ht⟩ := hlisted r hr
    obtain ⟨result, hexecuted, hfails, hmessage⟩ :=
      (hrows i t hi).failed (TaskStatus.name_inj hstatus)
    obtain ⟨task, htask, hkey, hresult⟩ :=
      hof.means hrenders hinjective hcoherent.toLinked hrows hi ht hexecuted
    exact ⟨task, htask, hkey, result, hresult, hfails, hmessage⟩
  · obtain ⟨i, t, rfl, hi, -⟩ := hlisted r hr
    have hsome : t.output ≠ none := by
      intro hnone
      simp [taskAnswer, TaskExecutionResponse.fromDomain, WorkflowExecutionMapper.taskToDomain,
        hnone] at houtput
    exact congrArg TaskStatus.name ((hmarks i t hi).output hsome)
  · obtain ⟨i, t, rfl, hi, ht⟩ := hlisted r hr
    obtain ⟨result, hexecuted, hfails, hsome⟩ := (hmarks i t hi).message message hmessage
    obtain ⟨task, htask, hkey, hresult⟩ :=
      hof.means hrenders hinjective hcoherent.toLinked hrows hi ht hexecuted
    exact ⟨task, htask, hkey, result, hresult, hfails, hsome⟩

/-- A definition that has been posted with success is there as it was posted. -/
theorem System.Reachable.posted (h : x.Reachable leaseTimeout) {index : KeyIndex}
    (hnew : NewIds draws x.definitions) {now : UUID → Datetime} {response : Response}
    {db' : Database}
    (hanswer : createWorkflowDefinition index draws now x.database request = (response, db'))
    (hcreated : response.statusCode = 201) :
    x.step leaseTimeout (.create draws now request.toApplicationModel) =
        some { x with definitions := db'.definitions } ∧
      System.Reachable leaseTimeout { x with definitions := db'.definitions } ∧
      ∃ wd, load db'.definitions draws.workflowDefinitionId = some wd ∧
        wd.SameUpToOrder (requested draws request.toApplicationModel) := by
  rcases createWorkflowDefinition_cases hanswer with ⟨id, hdriver, -⟩ | ⟨e, -, rfl, -⟩
  · have hstep : x.step leaseTimeout _ = _ := createWorkflowDefinition_step hdriver
    refine ⟨hstep, h.step (.create draws now request.toApplicationModel) hnew hstep, ?_⟩
    have hconsistent := consistent_executions h.sound.definitions.consistent x.database.executions
    obtain ⟨-, resolved, hcases⟩ :=
      create_cases hconsistent hnew (createThroughDriver_eq_ok.mp hdriver).1
    exact hcases.created.loads
  · exact absurd hcreated (statusCode_handleException e)

end Answers

/--
**What is answered is what was posted.**  Whatever else happens to the system, an answer about an
execution of the definition lists the tasks of the request, in whatever order, and every output,
message and end in it is what the request means.
-/
theorem answers_fulfil_requests {leaseTimeout : Timedelta} {x y₁ y₂ : System}
    (h : x.Reachable leaseTimeout) {index : KeyIndex} {draws : DefinitionDraws}
    (hnew : NewIds draws x.definitions) {now : UUID → Datetime}
    {request : CreateWorkflowDefinitionRequest} {response : Response} {db' : Database}
    (hanswer : createWorkflowDefinition index draws now x.database request = (response, db'))
    (hcreated : response.statusCode = 201)
    (h₁ : System.Meanwhile leaseTimeout (SystemAction.Spares draws.workflowDefinitionId)
      { x with definitions := db'.definitions } y₁)
    (h₂ : y₁.Meanwhile leaseTimeout (SystemAction.Spares draws.workflowDefinitionId) y₂)
    {order : Sql.RowOrder (UUID × TaskExecutionModel)} {id : UUID}
    {r : GetWorkflowExecutionResponse}
    (hr : getWorkflowExecution order y₁.executions y₂.executions id =
      { statusCode := 200, content := .getWorkflowExecution r })
    (hdefinition : r.workflowDefinitionId = draws.workflowDefinitionId) : r.Fulfils request := by
  obtain ⟨-, hreach, wd, hload, hsame⟩ := h.posted hnew hanswer hcreated
  obtain ⟨w, hw, rfl⟩ := getWorkflowExecution_ok hr
  have hy₁ := h₁.reachable hreach
  have hy₂ := h₂.reachable hy₁
  obtain ⟨w', hw', hev⟩ := workflowRow_le (h₂.later hy₁).le hw
  -- The definition of an execution is never deleted, so it is the one that was posted.
  have hpresent : y₂.Present draws.workflowDefinitionId := by
    have hstored := hy₂.faithful.workflow id w' hw'
    rw [hev.workflowDefinitionId] at hstored
    exact hdefinition ▸ hstored
  obtain ⟨hpresent₁, hsame₂⟩ := h₂.same hy₁ hpresent
  obtain ⟨-, hsame₁⟩ := h₁.same hreach hpresent₁
  have hkept := (hsame₁.trans hsame₂).toSameDefinition
  obtain ⟨wd', hload', hsame'⟩ := hkept.load hreach.sound.definitions hload
  have hrenders := renders_of_same (hy₂.sound.definitions.valid hload') (hsame'.trans hsame)
  refine hy₂.fulfils (h₂.later hy₁) hw ?_ hrenders hnew.taskIds (order.perm _)
  rw [show w.workflowDefinitionId = draws.workflowDefinitionId from hdefinition]
  exact hload'

/-- The sample is posted, and runs to its end. -/
theorem answers_fulfil_requests_sample : ∃ response db' y r,
    createWorkflowDefinition .uncompressed firstDraws (fun _ => 0) (System.init 0).database
      postedRequest = (response, db') ∧
    System.steps 100 { System.init 0 with definitions := db'.definitions } sampleSystemSteps =
      some y ∧
    getWorkflowExecution .stored y.executions y.executions 1 =
      { statusCode := 200, content := .getWorkflowExecution r } ∧
    r.status = "COMPLETED" ∧ r.Fulfils postedRequest := by
  let answer := createWorkflowDefinition .uncompressed firstDraws (fun _ => 0)
    (System.init 0).database postedRequest
  let x : System := { System.init 0 with definitions := answer.2.definitions }
  have hcreated : answer.1.statusCode = 201 := by decide +kernel
  have hrun : (x.steps 100 sampleSystemSteps).isSome = true := by decide +kernel
  have hrow : ((x.steps 100 sampleSystemSteps).bind fun y =>
      (workflowRow y.executions 1).map fun w => (w.workflowDefinitionId, w.status)) =
        some (1, .completed) := by
    decide +kernel
  obtain ⟨y, hy⟩ := Option.isSome_iff_exists.mp hrun
  rw [hy, Option.bind_some, Option.map_eq_some_iff] at hrow
  obtain ⟨w, hw, hstatus⟩ := hrow
  obtain ⟨hdefinition, hcompleted⟩ := Prod.mk.inj hstatus
  have hspares : ∀ a ∈ sampleSystemSteps,
      a.Spares firstDraws.workflowDefinitionId ∧ ∀ z, a.Valid z := by
    intro a ha
    have hnot := List.all_eq_true.mp (by decide : (sampleSystemSteps.all
      fun a => !a.creates) = true) a ha
    have hcreates : a.creates = false := by simpa using hnot
    refine ⟨?_, SystemAction.valid_of_creates hcreates⟩
    cases a with
    | create draws now request => simp [SystemAction.creates] at hcreates
    | _ => trivial
  have hr : getWorkflowExecution .stored y.executions y.executions 1 =
      { statusCode := 200
        content := .getWorkflowExecution
          (answerOf 1 w (WorkflowExecutionRepository.taskModels y.executions 1)) } := by
    rw [getWorkflowExecution_eq, hw]
    rfl
  refine ⟨answer.1, answer.2, y, _, rfl, hy, hr, congrArg WorkflowStatus.name hcompleted, ?_⟩
  exact answers_fulfil_requests (.init 0) newIds_firstDraws rfl hcreated (.of_steps hspares hy)
    .refl hr hdefinition

/-! ### What is stored is kept -/

/--
**A definition never changes.**  It is loaded as it was, up to the order of what it lists, for as
long as it is there; and when it is there no more it never comes back, and there is no execution of
it.
-/
theorem definitions_are_kept {leaseTimeout : Timedelta} {x y : System}
    (h : x.Reachable leaseTimeout) {id : UUID} {wd : WorkflowDefinition}
    (hload : load x.definitions id = some wd)
    (hrun : x.Meanwhile leaseTimeout (SystemAction.Spares id) y) :
    (∃ wd', load y.definitions id = some wd' ∧ wd'.SameUpToOrder wd) ∨
      ∀ z, y.Meanwhile leaseTimeout (SystemAction.Spares id) z → load z.definitions id = none ∧
        ∀ i w, workflowRow z.executions i = some w → w.workflowDefinitionId ≠ id := by
  have hy := hrun.reachable h
  by_cases hpresent : y.Present id
  · exact Or.inl ((hrun.same h hpresent).2.toSameDefinition.load h.sound.definitions hload)
  · right
    intro z hz
    have hgone : ¬ z.Present id := fun hp => hpresent (hz.same hy hp).1
    refine ⟨?_, fun i w hw hid => hgone (hid ▸ (hz.reachable hy).faithful.workflow i w hw)⟩
    unfold load
    rw [Option.not_isSome_iff_eq_none.mp hgone]

/-- A definition is deleted, once after it was started and once before. -/
theorem definitions_are_kept_sample : ∃ x₁ x₂ x₃ wd wd',
    (systemAfter singleRequest []).step 100 (.start 0 ⟨1, id⟩ 0 1) = some x₁ ∧
    x₁.step 100 (.delete 1) = some x₂ ∧
    (systemAfter singleRequest []).step 100 (.delete 1) = some x₃ ∧
    load (systemAfter singleRequest []).definitions 1 = some wd ∧
    load x₂.definitions 1 = some wd' ∧ wd'.SameUpToOrder wd ∧ load x₃.definitions 1 = none ∧
    ∀ i w, workflowRow x₃.executions i = some w → w.workflowDefinitionId ≠ 1 := by
  have hstored : (load (systemAfter singleRequest []).definitions 1).isSome = true := by
    decide +kernel
  have hstarted : (((systemAfter singleRequest []).step 100 (.start 0 ⟨1, id⟩ 0 1)).bind fun x₁ =>
      (x₁.step 100 (.delete 1)).map fun x₂ => (load x₂.definitions 1).isSome) = some true := by
    decide +kernel
  have hdeleted : (((systemAfter singleRequest []).step 100 (.delete 1)).map fun x₃ =>
      (load x₃.definitions 1).isSome) = some false := by
    decide +kernel
  obtain ⟨wd, hwd⟩ := Option.isSome_iff_exists.mp hstored
  obtain ⟨x₁, hx₁, hstarted⟩ := Option.bind_eq_some_iff.mp hstarted
  obtain ⟨x₂, hx₂, hsome⟩ := Option.map_eq_some_iff.mp hstarted
  obtain ⟨x₃, hx₃, hnone⟩ := Option.map_eq_some_iff.mp hdeleted
  have hfirst := definitions_are_kept (systemAfter_reachable singleRequest (by simp)) hwd
    (.step (.step .refl (.start 0 ⟨1, id⟩ 0 1) trivial trivial hx₁) (.delete 1) trivial trivial hx₂)
  have hsecond := definitions_are_kept (systemAfter_reachable singleRequest (by simp)) hwd
    (.step .refl (.delete 1) trivial trivial hx₃)
  obtain ⟨wd', hwd', hsame⟩ := hfirst.resolve_right fun hgone => by
    rw [(hgone x₂ .refl).1] at hsome
    simp at hsome
  have hgone := hsecond.resolve_left fun ⟨_, hkept, _⟩ => by
    rw [hkept] at hnone
    simp at hnone
  exact ⟨x₁, x₂, x₃, wd, wd', hx₁, hx₂, hx₃, hwd, hwd', hsame, hgone x₃ .refl⟩

/-! ### Requests are served -/

end AutomationPlatform
