/-
Creating a definition.

The tasks of a request are stored in the order of the request, and a task can only be stored
after those it depends on.  So what the validation accepts is stored exactly when it lists
parents before children.  The state of the chronological triggers comes after the
definition, in the same transaction.
-/
import Mathlib.Logic.Equiv.List
import AutomationPlatform.Proofs.Definitions.Replace
import AutomationPlatform.Proofs.Definitions.Validate
import AutomationPlatform.Proofs.Executions.Compile

namespace AutomationPlatform

open Sql (bind_eq_ok)
open WorkflowDefinitionRepository WorkflowDefinitionMapper

namespace WorkflowDefinitionService

/-! ### What a request asks for -/

def requestedTask (draws : DefinitionDraws) (task : CreateTaskDefinition) : TaskDefinition where
  id := draws.taskDefinitionId task.key
  pluginType := task.pluginType
  key := task.key
  configuration := task.configuration
  dependencies := task.dependencies.map draws.taskDefinitionId
  maxTries := task.maxTries

def requestedTrigger (draws : DefinitionDraws) (trigger : CreateTriggerDefinition × Nat) :
    TriggerDefinition where
  id := draws.triggerDefinitionId trigger.2
  pluginType := trigger.1.pluginType
  configuration := trigger.1.configuration
  enabled := trigger.1.enabled

/-- The definition of a request, with the new identifiers in it. -/
def requested (draws : DefinitionDraws) (request : CreateWorkflowDefinition) :
    WorkflowDefinition where
  id := draws.workflowDefinitionId
  name := request.name
  description := request.description
  taskDefinitions := request.tasks.map (requestedTask draws)
  triggerDefinitions := request.triggers.zipIdx.map (requestedTrigger draws)
  enabled := request.enabled

/-- The identifiers are new, and no two of them are the same. -/
structure NewIds (draws : DefinitionDraws) (s : DefinitionStore) : Prop where
  workflow : workflowDefinitionRow s draws.workflowDefinitionId = none
  tasks : ∀ key, taskDefinitionRow s (draws.taskDefinitionId key) = none
  triggers : ∀ n, triggerDefinitionRow s (draws.triggerDefinitionId n) = none
  taskIds : Function.Injective draws.taskDefinitionId
  triggerIds : Function.Injective draws.triggerDefinitionId

variable {draws : DefinitionDraws} {tasks : List CreateTaskDefinition}

theorem createTaskDefinitions_ok (hlinked : WellLinked tasks) :
    createTaskDefinitions draws tasks = .ok (tasks.map (requestedTask draws)) := by
  have hids : ∀ key ∈ tasks.map (·.key), (Dict.ofList (tasks.map fun task =>
      (task.key, draws.taskDefinitionId task.key))).get key =
        .ok (draws.taskDefinitionId key) := by
    intro key hkey
    obtain ⟨t, ht, rfl⟩ := List.mem_map.mp hkey
    refine Dict.get_eq_ok.mpr (Dict.ofList_row ?_ (List.mem_map.mpr ⟨t, ht, rfl⟩))
    rw [List.map_map]
    exact hlinked.keys
  refine mapM_ok fun t ht => ?_
  rw [hids t.key (List.mem_map_of_mem ht), mapM_ok fun d hd => hids d (hlinked.known t ht d hd)]
  rfl

variable {registry : TriggerRegistry} {triggers : List CreateTriggerDefinition}
  {resolved : List (TriggerDefinition × TriggerPlugin)}

theorem createTriggerDefinition_ok {trigger : CreateTriggerDefinition × Nat}
    {r : TriggerDefinition × TriggerPlugin}
    (h : createTriggerDefinition registry draws trigger = .ok r) :
    r.1 = requestedTrigger draws trigger ∧ registry trigger.1.pluginType = some r.2 := by
  unfold createTriggerDefinition at h
  split at h
  · simp at h
  obtain ⟨_, _, h⟩ := bind_eq_ok.mp h
  obtain ⟨plugin, hget, h⟩ := bind_eq_ok.mp h
  obtain rfl := Except.ok.inj h
  refine ⟨rfl, ?_⟩
  unfold TriggerRegistry.get at hget
  split at hget
  · rename_i p hp
    obtain rfl := Except.ok.inj hget
    exact hp
  · simp at hget

theorem forall₂_of_mapM {ε α β : Type} {f : α → Except ε β} {l : List α} {l' : List β}
    (h : l.mapM f = .ok l') : List.Forall₂ (fun a b => f a = .ok b) l l' := by
  induction l generalizing l' with
  | nil =>
      obtain rfl : [] = l' := by simpa [pure, Except.pure] using h
      exact List.Forall₂.nil
  | cons a rest ih =>
      rw [List.mapM_cons] at h
      obtain ⟨b, hb, h⟩ := bind_eq_ok.mp h
      obtain ⟨bs, hbs, h⟩ := bind_eq_ok.mp h
      obtain rfl := Except.ok.inj h
      exact List.Forall₂.cons hb (ih hbs)

theorem createTriggerDefinitions_ok (h : createTriggerDefinitions registry draws triggers =
    .ok resolved) : resolved.map (·.1) = triggers.zipIdx.map (requestedTrigger draws) := by
  have hall := forall₂_of_mapM h
  rw [← List.forall₂_eq_eq_eq, List.forall₂_map_left_iff, List.forall₂_map_right_iff]
  exact hall.flip.imp fun _ _ hr => (createTriggerDefinition_ok hr).1

/-! ### The definition -/

variable {request : CreateWorkflowDefinition} {s s' : DefinitionStore} {executions : ExecutionStore}

/-! ### Accepted requests are valid definitions -/

theorem dependsOn_requested {child parent : UUID}
    (h : (requested draws request).DependsOn child parent) :
    ∃ c p, child = draws.taskDefinitionId c ∧ parent = draws.taskDefinitionId p ∧
      Graph.DependsOn (·.key) (·.dependencies) request.tasks c p := by
  obtain ⟨t, ht, rfl, hp⟩ := h
  obtain ⟨task, htask, rfl⟩ := List.mem_map.mp ht
  obtain ⟨p, hmem, rfl⟩ := List.mem_map.mp hp
  exact ⟨task.key, p, rfl, rfl, task, htask, rfl, hmem⟩

theorem transGen_requested (hinj : Function.Injective draws.taskDefinitionId) {child parent : UUID}
    (h : Relation.TransGen (requested draws request).DependsOn child parent) :
    ∃ c p, child = draws.taskDefinitionId c ∧ parent = draws.taskDefinitionId p ∧
      Relation.TransGen (Graph.DependsOn (·.key) (·.dependencies) request.tasks) c p := by
  induction h with
  | single hstep =>
      obtain ⟨c, p, rfl, rfl, hcp⟩ := dependsOn_requested hstep
      exact ⟨c, p, rfl, rfl, .single hcp⟩
  | tail _ hstep ih =>
      obtain ⟨c, p, rfl, rfl, hcp⟩ := ih
      obtain ⟨c', p', hc', rfl, hcp'⟩ := dependsOn_requested hstep
      obtain rfl := hinj hc'
      exact ⟨c, p', rfl, rfl, hcp.tail hcp'⟩

/-- What the validation accepts becomes a valid definition. -/
theorem requested_valid {taskRegistry : TaskRegistry}
    (hinj : Function.Injective draws.taskDefinitionId)
    (h : validateTasks taskRegistry request.tasks = .ok ()) : (requested draws request).Valid := by
  obtain ⟨hformed, hacyclic⟩ := validateTasks_ok.mp h
  have hkeys : (requested draws request).taskDefinitions.map (·.key) = request.tasks.map (·.key) := by
    simp [requested, requestedTask]
  have hids : (requested draws request).taskDefinitions.map (·.id) =
      (request.tasks.map (·.key)).map draws.taskDefinitionId := by
    simp [requested, requestedTask]
  refine ⟨?_, ?_, ?_, ?_, ?_, ?_, ?_⟩
  · simpa [requested] using hformed.nonempty
  · rw [hids]
    exact hformed.keys.map hinj
  · rw [hkeys]
    exact hformed.keys
  · intro d hd
    obtain ⟨task, htask, rfl⟩ := List.mem_map.mp hd
    exact (hformed.duplicates task htask).map hinj
  · intro d hd p hp
    obtain ⟨task, htask, rfl⟩ := List.mem_map.mp hd
    obtain ⟨key, hkey, rfl⟩ := List.mem_map.mp hp
    rw [hids]
    exact List.mem_map_of_mem (hformed.known task htask key hkey)
  · intro i hcycle
    obtain ⟨c, p, hc, hp, hcp⟩ := transGen_requested hinj hcycle
    obtain rfl := hinj (hc.symm.trans hp)
    exact hacyclic c hcp
  · intro d hd
    obtain ⟨task, htask, rfl⟩ := List.mem_map.mp hd
    exact hformed.maxTries task htask

/-- So does a definition that is loaded back. -/
theorem valid_of_same {a b : WorkflowDefinition} (hsame : a.SameUpToOrder b) (hb : b.Valid) :
    a.Valid := by
  obtain ⟨l, hperm, htasks⟩ := hsame.tasks
  have hof : ∀ t ∈ a.taskDefinitions, ∃ u ∈ b.taskDefinitions, t.Same u := by
    intro t ht
    obtain ⟨u, hu, hsame⟩ := exists_of_forall₂ htasks ht
    exact ⟨u, hperm.mem_iff.mp hu, hsame⟩
  have hids : (a.taskDefinitions.map (·.id)).Perm (b.taskDefinitions.map (·.id)) := by
    have heq : a.taskDefinitions.map (·.id) = l.map (·.id) := by
      rw [← List.forall₂_eq_eq_eq, List.forall₂_map_left_iff, List.forall₂_map_right_iff]
      exact htasks.imp fun _ _ h => h.id
    rw [heq]
    exact hperm.map _
  have hkeys : (a.taskDefinitions.map (·.key)).Perm (b.taskDefinitions.map (·.key)) := by
    have heq : a.taskDefinitions.map (·.key) = l.map (·.key) := by
      rw [← List.forall₂_eq_eq_eq, List.forall₂_map_left_iff, List.forall₂_map_right_iff]
      exact htasks.imp fun _ _ h => h.key
    rw [heq]
    exact hperm.map _
  have hdepends : ∀ {c p}, a.DependsOn c p → b.DependsOn c p := by
    intro c p ⟨t, ht, hid, hp⟩
    obtain ⟨u, hu, hsame⟩ := hof t ht
    exact ⟨u, hu, hsame.id.symm.trans hid, hsame.dependencies.mem_iff.mp hp⟩
  refine ⟨?_, ?_, ?_, ?_, ?_, ?_, ?_⟩
  · have hlength := hids.length_eq
    rw [List.length_map, List.length_map] at hlength
    exact List.length_pos_iff.mp (hlength ▸ List.length_pos_iff.mpr hb.nonempty)
  · exact hids.nodup_iff.mpr hb.ids
  · exact hkeys.nodup_iff.mpr hb.keys
  · intro t ht
    obtain ⟨u, hu, hsame⟩ := hof t ht
    exact hsame.dependencies.nodup_iff.mpr (hb.duplicates u hu)
  · intro t ht p hp
    obtain ⟨u, hu, hsame⟩ := hof t ht
    exact hids.mem_iff.mpr (hb.known u hu p (hsame.dependencies.mem_iff.mp hp))
  · intro i hcycle
    exact hb.acyclic i (Relation.TransGen.mono (fun _ _ => hdepends) i i hcycle)
  · intro t ht
    obtain ⟨u, hu, hsame⟩ := hof t ht
    exact hsame.maxTries ▸ hb.maxTries u hu

/-! ### Saving it -/

theorem distinct_requested (hnew : NewIds draws s) (hlinked : WellLinked request.tasks) :
    Distinct (requested draws request) where
  ids := by
    have hids : (requested draws request).taskDefinitions.map (·.id) =
        (request.tasks.map (·.key)).map draws.taskDefinitionId := by
      simp [requested, requestedTask]
    rw [hids]
    exact hlinked.keys.map hnew.taskIds
  keys := by
    have hkeys : (requested draws request).taskDefinitions.map (·.key) =
        request.tasks.map (·.key) := by
      simp [requested, requestedTask]
    rw [hkeys]
    exact hlinked.keys
  dependencies := by
    intro t ht
    obtain ⟨task, htask, rfl⟩ := List.mem_map.mp ht
    exact (hlinked.duplicates task htask).map hnew.taskIds
  triggerIds := by
    have hids : (requested draws request).triggerDefinitions.map (·.id) =
        (request.triggers.zipIdx.map (·.2)).map draws.triggerDefinitionId := by
      rw [requested, List.map_map, List.map_map]
      rfl
    rw [hids, List.zipIdx_map_snd]
    exact (List.nodup_range' 1).map hnew.triggerIds

/-- There is nothing of a new definition in the store yet. -/
theorem not_rowOf (hs : (definitionSchema executions).Consistent s) (hnew : NewIds draws s)
    (i : UUID) : ¬ RowOf s draws.workflowDefinitionId (.task i) := by
  intro ⟨m, hm, hid⟩
  have := hs.resolved (.task i) m hm (.workflow m.workflowDefinitionId) (by simp)
  rw [hid, show s.row (.workflow draws.workflowDefinitionId) = none from hnew.workflow] at this
  simp at this

/-- The columns of texts and of JSON values take what is in the request. -/
structure TextsFit (request : CreateWorkflowDefinition) : Prop where
  name : fitsText request.name = true
  description : fitsText request.description = true
  tasks : ∀ t ∈ request.tasks, fitsText t.key = true ∧ fitsText t.pluginType = true ∧
    fitsJsonb t.configuration = true
  triggers : ∀ t ∈ request.triggers, fitsText t.pluginType = true ∧
    fitsJsonb t.configuration = true

/-- What is asked for fits, if the texts and the numbers do. -/
theorem fits_requested_iff : Fits (requested draws request) ↔
    TextsFit request ∧ ∀ t ∈ request.tasks, fitsInteger t.maxTries = true := by
  have htasks : (∀ t ∈ (requested draws request).taskDefinitions,
      (taskToModel (requested draws request).id t).fits = true) ↔
        ∀ t ∈ request.tasks, (fitsText t.key = true ∧ fitsText t.pluginType = true ∧
          fitsJsonb t.configuration = true) ∧ fitsInteger t.maxTries = true := by
    rw [requested, List.forall_mem_map]
    simp [requestedTask, taskToModel, TaskDefinitionModel.fits, and_assoc]
  have htriggers : (∀ t ∈ (requested draws request).triggerDefinitions,
      (triggerToModel (requested draws request).id t).fits = true) ↔
        ∀ t ∈ request.triggers, fitsText t.pluginType = true ∧
          fitsJsonb t.configuration = true := by
    conv_rhs => rw [← List.zipIdx_map_fst 0 request.triggers, List.forall_mem_map]
    rw [requested, List.forall_mem_map]
    simp [requestedTrigger, triggerToModel, TriggerDefinitionModel.fits]
  have hworkflow : (workflowToModel (requested draws request)).fits = true ↔
      fitsText request.name = true ∧ fitsText request.description = true := by
    simp [requested, workflowToModel, WorkflowDefinitionModel.fits]
  constructor
  · intro h
    have hname := hworkflow.mp h.workflow
    have hboth := htasks.mp h.tasks
    exact ⟨⟨hname.1, hname.2, fun t ht => (hboth t ht).1, htriggers.mp h.triggers⟩,
      fun t ht => (hboth t ht).2⟩
  · rintro ⟨htexts, hfits⟩
    exact ⟨hworkflow.mpr ⟨htexts.name, htexts.description⟩,
      htasks.mpr fun t ht => ⟨htexts.tasks t ht, hfits t ht⟩, htriggers.mpr htexts.triggers⟩

/-- A new definition can be saved when its tasks are listed in order, and only then. -/
theorem saveable_requested_iff (hs : (definitionSchema executions).Consistent s)
    (hnew : NewIds draws s)
    (hself : ∀ t ∈ request.tasks, t.key ∉ t.dependencies) (htexts : TextsFit request)
    (hfits : ∀ t ∈ request.tasks, fitsInteger t.maxTries = true) :
    Saveable executions s (requested draws request) ↔
      Graph.InOrder (·.key) (·.dependencies) request.tasks := by
  have horder : Graph.InOrder (·.id) (·.dependencies) (requested draws request).taskDefinitions ↔
      Graph.InOrder (·.key) (·.dependencies) request.tasks :=
    Graph.inOrder_map_iff hnew.taskIds (fun _ => rfl) (fun _ => rfl)
  have hkept : ∀ i, ¬ Removed s (requested draws request) i :=
    fun i ⟨m, hm, hid, _⟩ => not_rowOf hs hnew i ⟨m, hm, hid⟩
  rw [← horder]
  constructor
  · intro h a t b hsplit d hd
    have ht : t ∈ (requested draws request).taskDefinitions := by rw [hsplit]; simp
    obtain ⟨task, htask, rfl⟩ := List.mem_map.mp ht
    obtain ⟨key, hkey, rfl⟩ := List.mem_map.mp hd
    have hne : draws.taskDefinitionId key ≠ (requestedTask draws task).id :=
      fun heq => hself task htask (hnew.taskIds heq ▸ hkey)
    rcases h.stored a _ b hsplit _ hd hne with hbefore | ⟨hstored, -⟩
    · exact hbefore
    · rw [hnew.tasks] at hstored
      simp at hstored
  · intro h
    refine ⟨fits_requested_iff.mpr ⟨htexts, hfits⟩, fun i hi => absurd hi (hkept i),
      fun a b _ => ⟨hkept a, hkept b⟩, ?_, fun a t b hsplit d hd _ => Or.inl (h a t b hsplit d hd)⟩
    · intro a t b hsplit u hu m hm
      have hu' : u ∈ (requested draws request).taskDefinitions := by rw [hsplit]; simp [hu]
      obtain ⟨task, -, rfl⟩ := List.mem_map.mp hu'
      rw [show taskDefinitionRow s (requestedTask draws task).id = none from hnew.tasks task.key]
        at hm
      simp at hm

/-- Outside the parts of a new definition nothing changes. -/
theorem saved_outside (hs : (definitionSchema executions).Consistent s) (hnew : NewIds draws s)
    {k : DefinitionRowId} (hk : ¬ Part (requested draws request) k) :
    savedRow s (requested draws request) k = s.row k := by
  have htrigger : ∀ i m, s.row (.trigger i) = some m →
      isRemovedTrigger (requested draws request) (.trigger i) m = false := by
    intro i m hm
    by_contra hremoved
    rw [Bool.not_eq_false, isRemovedTrigger_trigger] at hremoved
    have := hs.resolved (.trigger i) m hm (.workflow m.workflowDefinitionId) (by simp)
    rw [hremoved.1, show s.row (.workflow (requested draws request).id) = none from hnew.workflow]
      at this
    simp at this
  have hnone : ∀ i, ¬ Part (requested draws request) (.task i) →
      taskNamed (requested draws request).taskDefinitions i = none := by
    intro i hi
    rw [taskNamed_eq_none]
    intro hmem
    obtain ⟨t, ht, rfl⟩ := List.mem_map.mp hmem
    exact hi ⟨t, ht, rfl⟩
  cases k with
  | workflow i => exact if_neg hk
  | task i =>
      rw [savedRow, hnone i hk, Option.map_none, Option.none_or]
      cases hm : s.row (.task i) with
      | none => rfl
      | some m =>
          rw [Option.filter_some, if_pos]
          rw [Bool.not_eq_true', ← show _ ↔ _ from not_removed_iff hm]
          rintro ⟨m', hm', hid, -⟩
          exact not_rowOf hs hnew i ⟨m', hm', hid⟩
  | dependency a b =>
      rw [savedRow]
      cases hn : taskNamed (requested draws request).taskDefinitions a with
      | none => rfl
      | some t =>
          obtain ⟨ht, rfl⟩ := taskNamed_eq_some hn
          have hb : b ∉ t.dependencies := fun hb => hk ⟨t, ht, rfl, hb⟩
          obtain ⟨task, -, rfl⟩ := List.mem_map.mp ht
          -- The task is new, so nothing refers to it yet.
          cases hrow : s.row (.dependency (requestedTask draws task).id b) with
          | none => simp [hb]
          | some v =>
              have := hs.resolved _ v hrow (.task (requestedTask draws task).id) (by simp)
              rw [show s.row (.task (requestedTask draws task).id) = none from hnew.tasks task.key]
                at this
              simp at this
  | trigger i =>
      have hn : triggerNamed (requested draws request).triggerDefinitions i = none := by
        rw [triggerNamed_eq_none]
        intro hmem
        obtain ⟨t, ht, rfl⟩ := List.mem_map.mp hmem
        exact hk ⟨t, ht, rfl⟩
      rw [savedRow, hn, Option.map_none, Option.none_or]
      cases hm : s.row (.trigger i) with
      | none => rfl
      | some m =>
          rw [Option.filter_some, htrigger i m hm]
          rfl
  | chronologicalTriggerState i =>
      rw [savedRow]
      cases hst : s.row (.chronologicalTriggerState i) with
      | none => rfl
      | some state =>
          obtain ⟨m, hm⟩ := Option.isSome_iff_exists.mp
            (hs.resolved _ state hst (.trigger i) (by simp))
          rw [hm, Option.any_some, htrigger i m hm]
          rfl

/-! ### The state of the triggers -/

/-- The first occurrence of a trigger; one that is not chronological has none. -/
def firstOccurrence (now : UUID → Datetime) (trigger : TriggerDefinition × TriggerPlugin) :
    Except Raised (Option Datetime) :=
  match trigger.2.nextOccurrence with
  | some nextOccurrence => nextOccurrence trigger.1.configuration (now trigger.1.id)
  | none => .ok none

/-- The row for an occurrence, if there is one. -/
def stateRow (trigger : TriggerDefinition × TriggerPlugin) (next : Option Datetime) :
    Option (Sigma DefinitionRow) :=
  next.map fun nextRunAt => ⟨.chronologicalTriggerState trigger.1.id, { nextRunAt }⟩

def stateRows (next : TriggerDefinition × TriggerPlugin → Option Datetime)
    (resolved : List (TriggerDefinition × TriggerPlugin)) : List (Sigma DefinitionRow) :=
  resolved.filterMap fun trigger => stateRow trigger (next trigger)

/-- The loop that initializes the triggers. -/
def initializeEach (now : UUID → Datetime) (resolved : List (TriggerDefinition × TriggerPlugin))
    (x : DefinitionSession) : Except Raised DefinitionSession :=
  resolved.foldlM (fun x trigger =>
    TriggerInitializationService.initializeState trigger.2 trigger.1 (now trigger.1.id) x) x

variable {now : UUID → Datetime} {x x' : DefinitionSession}

theorem initializeState_eq (trigger : TriggerDefinition × TriggerPlugin) (x : DefinitionSession) :
    TriggerInitializationService.initializeState trigger.2 trigger.1 (now trigger.1.id) x = (do
      let next ← firstOccurrence now trigger
      pure { x with
        pending := x.pending ++ ((stateRow trigger next).map Sql.Change.insert).toList }) := by
  unfold TriggerInitializationService.initializeState firstOccurrence
  cases trigger.2.nextOccurrence with
  | none =>
      show pure x = pure { x with pending := x.pending ++ [] }
      rw [List.append_nil]
  | some nextOccurrence =>
      show ChronologicalTriggerService.initializeState nextOccurrence trigger.1 _ x = (do
        let next ← nextOccurrence trigger.1.configuration (now trigger.1.id)
        pure { x with
          pending := x.pending ++ ((stateRow trigger next).map Sql.Change.insert).toList })
      unfold ChronologicalTriggerService.initializeState
      cases nextOccurrence trigger.1.configuration (now trigger.1.id) with
      | error e => rfl
      | ok next =>
          cases next with
          | none =>
              show (pure x : Except Raised DefinitionSession) =
                pure { x with pending := x.pending ++ [] }
              rw [List.append_nil]
          | some nextRunAt => rfl

/-- The loop goes through when every trigger says what its first occurrence is. -/
theorem initializeEach_ok {next : TriggerDefinition × TriggerPlugin → Option Datetime}
    (h : ∀ trigger ∈ resolved, firstOccurrence now trigger = .ok (next trigger)) :
    initializeEach now resolved x = .ok { x with
      pending := x.pending ++ (stateRows next resolved).map .insert } := by
  unfold initializeEach stateRows
  induction resolved generalizing x with
  | nil => simp [pure, Except.pure]
  | cons trigger rest ih =>
      rw [List.foldlM_cons, initializeState_eq, h trigger (by simp)]
      refine (ih fun u hu => h u (by simp [hu])).trans ?_
      rw [List.filterMap_cons]
      cases stateRow trigger (next trigger) <;> simp

theorem initializeEach_cases (h : initializeEach now resolved x = .ok x') :
    ∀ trigger ∈ resolved, ∃ next, firstOccurrence now trigger = .ok next := by
  unfold initializeEach at h
  induction resolved generalizing x with
  | nil => simp
  | cons trigger rest ih =>
      rw [List.foldlM_cons, initializeState_eq] at h
      obtain ⟨x₁, hfirst, hrest⟩ := bind_eq_ok.mp h
      obtain ⟨next, hnext, -⟩ := bind_eq_ok.mp hfirst
      intro u hu
      rcases List.mem_cons.mp hu with rfl | hu
      · exact ⟨next, hnext⟩
      · exact ih hrest u hu

theorem mem_stateRows {next : TriggerDefinition × TriggerPlugin → Option Datetime}
    {r : Sigma DefinitionRow} : r ∈ stateRows next resolved ↔
      ∃ trigger ∈ resolved, ∃ nextRunAt, next trigger = some nextRunAt ∧
        r = ⟨.chronologicalTriggerState trigger.1.id, { nextRunAt }⟩ := by
  simp [stateRows, stateRow, eq_comm]

theorem keys_stateRows (next : TriggerDefinition × TriggerPlugin → Option Datetime)
    (resolved : List (TriggerDefinition × TriggerPlugin)) :
    (stateRows next resolved).keys.Sublist
      (resolved.map fun trigger => .chronologicalTriggerState trigger.1.id) := by
  induction resolved with
  | nil => exact List.Sublist.slnil
  | cons trigger rest ih =>
      unfold stateRows at ih ⊢
      rw [List.filterMap_cons]
      cases hnext : next trigger with
      | none => exact ih.cons _
      | some nextRunAt => exact ih.cons_cons _

theorem nodupKeys_stateRows (next : TriggerDefinition × TriggerPlugin → Option Datetime)
    (hids : (resolved.map (·.1.id)).Nodup) : (stateRows next resolved).NodupKeys := by
  refine (keys_stateRows next resolved).nodup ?_
  have hkeys : resolved.map (fun trigger => DefinitionRowId.chronologicalTriggerState trigger.1.id) =
      (resolved.map (·.1.id)).map .chronologicalTriggerState := by
    rw [List.map_map]
    rfl
  rw [hkeys]
  exact (List.nodup_map_iff fun a b hab => by simpa using hab).mpr hids

/-- The state that is written for a trigger. -/
theorem dlookup_stateRows {next : TriggerDefinition × TriggerPlugin → Option Datetime}
    (hids : (resolved.map (·.1.id)).Nodup) {trigger : TriggerDefinition × TriggerPlugin}
    (htrigger : trigger ∈ resolved) :
    (stateRows next resolved).dlookup (.chronologicalTriggerState trigger.1.id) =
      (next trigger).map fun nextRunAt => { nextRunAt } := by
  cases hnext : next trigger with
  | some nextRunAt =>
      exact (List.mem_dlookup_iff (nodupKeys_stateRows next hids)).mpr
        (mem_stateRows.mpr ⟨trigger, htrigger, nextRunAt, hnext, rfl⟩)
  | none =>
      refine List.dlookup_eq_none.mpr fun hkey => ?_
      obtain ⟨r, hr, hkey⟩ := List.mem_map.mp hkey
      obtain ⟨u, hu, nextRunAt, hsome, rfl⟩ := mem_stateRows.mp hr
      have hid : u.1.id = trigger.1.id := by simpa using hkey
      rw [List.inj_on_of_nodup_map hids hu htrigger hid, hnext] at hsome
      simp at hsome

/-! ### The whole request -/

theorem save_flush (s : DefinitionStore) (wd : WorkflowDefinition) :
    (do let x ← databaseError (save executions { store := s } wd)
        databaseError (x.flush (definitionSchema executions))) =
      (do let s' ← databaseError (writeDefinition executions s wd)
          pure ({ store := s' } : DefinitionSession)) := by
  have hsettled : (do (← save executions { store := s } wd).settle (definitionSchema executions)) =
      writeDefinition executions s wd := save_settles wd { store := s }
  rw [← hsettled]
  cases save executions { store := s } wd with
  | error e => cases e <;> rfl
  | ok x =>
      show databaseError (x.flush (definitionSchema executions)) =
        (do let s' ← databaseError (x.settle (definitionSchema executions)); _)
      unfold Sql.OrmSession.flush
      cases x.settle (definitionSchema executions) with
      | error e => cases e <;> rfl
      | ok s' => rfl

variable {taskRegistry : TaskRegistry} {triggerRegistry : TriggerRegistry} {db : Database}

/-- The creation of a request that passes the validation, with what is left pending settled. -/
theorem create_eq (hlinked : WellLinked request.tasks)
    (htasks : validateTasks taskRegistry request.tasks = .ok ())
    (htriggers : createTriggerDefinitions triggerRegistry draws request.triggers = .ok resolved) :
    create taskRegistry triggerRegistry draws now db request = (do
      let s ← databaseError (writeDefinition db.executions db.definitions (requested draws request))
      let x ← initializeEach now resolved { store := s }
      let definitions ← databaseError (x.commit (definitionSchema db.executions))
      pure (draws.workflowDefinitionId, { db with definitions := definitions })) := by
  have hwd : { requested draws request with triggerDefinitions := resolved.map Prod.fst } =
      requested draws request := by
    rw [show resolved.map Prod.fst = _ from createTriggerDefinitions_ok htriggers]
    rfl
  unfold create
  rw [htasks, createTaskDefinitions_ok hlinked, htriggers]
  show (do
    let x ← databaseError (save db.executions { store := db.definitions }
      { requested draws request with triggerDefinitions := resolved.map Prod.fst })
    let x ← databaseError (x.flush (definitionSchema db.executions))
    let x ← initializeEach now resolved x
    let definitions ← databaseError (x.commit (definitionSchema db.executions))
    pure (draws.workflowDefinitionId, ({ db with definitions := definitions } : Database))) = _
  rw [hwd, ← bind_assoc, save_flush, bind_assoc]
  rfl

/-- What has succeeded, one after the other, where a request has been created. -/
theorem create_stages {r : UUID × Database}
    (h : create taskRegistry triggerRegistry draws now db request = .ok r) :
    ∃ resolved s x definitions, validateTasks taskRegistry request.tasks = .ok () ∧
      createTriggerDefinitions triggerRegistry draws request.triggers = .ok resolved ∧
      writeDefinition db.executions db.definitions (requested draws request) = .ok s ∧
      initializeEach now resolved { store := s } = .ok x ∧
      x.commit (definitionSchema db.executions) = .ok definitions ∧
      r = (draws.workflowDefinitionId, { db with definitions }) := by
  have hcreate := h
  unfold create at h
  obtain ⟨_, htasks, h⟩ := bind_eq_ok.mp h
  obtain ⟨_, -, h⟩ := bind_eq_ok.mp h
  obtain ⟨resolved, htriggers, -⟩ := bind_eq_ok.mp h
  rw [create_eq (validateTasks_ok.mp htasks).1.linked htasks htriggers] at hcreate
  obtain ⟨s, hwrite, hcreate⟩ := bind_eq_ok.mp hcreate
  obtain ⟨x, hinitialize, hcreate⟩ := bind_eq_ok.mp hcreate
  obtain ⟨definitions, hcommit, hcreate⟩ := bind_eq_ok.mp hcreate
  exact ⟨resolved, s, x, definitions, htasks, htriggers, databaseError_ok_iff.mp hwrite,
    hinitialize, databaseError_ok_iff.mp hcommit, (Except.ok.inj hcreate).symm⟩

/-- The definition of the request can be loaded, each of its triggers has the state of its first
occurrence, and nothing else changed. -/
structure CreatedAs (draws : DefinitionDraws) (now : UUID → Datetime)
    (request : CreateWorkflowDefinition) (resolved : List (TriggerDefinition × TriggerPlugin))
    (db db' : Database) : Prop where
  loads : ∃ wd', load db'.definitions draws.workflowDefinitionId = some wd' ∧
    wd'.SameUpToOrder (requested draws request)
  states : ∀ trigger ∈ resolved, ∀ nextRunAt,
    triggerStateRow db'.definitions trigger.1.id = some { nextRunAt } ↔
      firstOccurrence now trigger = .ok (some nextRunAt)
  others : ∀ k, ¬ Part (requested draws request) k → db'.definitions.row k = db.definitions.row k
  executions : db'.executions = db.executions

/-- The resolved triggers are those of the request. -/
theorem mem_requested (htriggers : createTriggerDefinitions triggerRegistry draws request.triggers =
    .ok resolved) {trigger : TriggerDefinition × TriggerPlugin} (h : trigger ∈ resolved) :
    trigger.1 ∈ (requested draws request).triggerDefinitions := by
  show trigger.1 ∈ request.triggers.zipIdx.map (requestedTrigger draws)
  rw [← createTriggerDefinitions_ok htriggers]
  exact List.mem_map_of_mem h

theorem resolved_nodup (hnew : NewIds draws s) (hlinked : WellLinked request.tasks)
    (htriggers : createTriggerDefinitions triggerRegistry draws request.triggers = .ok resolved) :
    (resolved.map (·.1.id)).Nodup := by
  have hids : resolved.map (·.1.id) =
      (requested draws request).triggerDefinitions.map (·.id) := by
    show resolved.map (·.1.id) = (request.triggers.zipIdx.map (requestedTrigger draws)).map (·.id)
    rw [← createTriggerDefinitions_ok htriggers, List.map_map]
    rfl
  rw [hids]
  exact (distinct_requested hnew hlinked).triggerIds

/-- A new trigger has no state yet. -/
theorem saved_state_none (hs : (definitionSchema executions).Consistent s) (hnew : NewIds draws s)
    {t : TriggerDefinition} (ht : t ∈ (requested draws request).triggerDefinitions) :
    savedRow s (requested draws request) (.chronologicalTriggerState t.id) = none := by
  obtain ⟨trigger, -, rfl⟩ := List.mem_map.mp ht
  rw [savedRow]
  cases hrow : s.row (.chronologicalTriggerState (requestedTrigger draws trigger).id) with
  | none => rfl
  | some v =>
      have := hs.resolved _ v hrow (.trigger (requestedTrigger draws trigger).id) (by simp)
      rw [show s.row (.trigger (requestedTrigger draws trigger).id) = none from
        hnew.triggers trigger.2] at this
      simp at this

/-- The states are written over the rows of the definition. -/
theorem commit_states {s₁ s₂ : DefinitionStore}
    {next : TriggerDefinition × TriggerPlugin → Option Datetime}
    (hs₁ : (definitionSchema executions).Consistent s₁) (hids : (resolved.map (·.1.id)).Nodup)
    (hfree : ∀ trigger ∈ resolved, s₁.row (.chronologicalTriggerState trigger.1.id) = none)
    (h : ({ store := s₁, pending := (stateRows next resolved).map .insert } :
      DefinitionSession).commit (definitionSchema executions) = .ok s₂) (k : DefinitionRowId) :
    s₂.row k = ((stateRows next resolved).dlookup k).or (s₁.row k) := by
  unfold Sql.OrmSession.commit at h
  rw [Sql.Schema.settle_inserts (nodupKeys_stateRows next hids)] at h
  · exact (Sql.Schema.writeEach_cases hs₁ (nodupKeys_stateRows next hids) h).2.1 k
  · intro j hj
    obtain ⟨trigger, htrigger, rfl⟩ := List.mem_map.mp ((keys_stateRows next resolved).subset hj)
    exact hfree trigger htrigger

theorem commit_states_ok {s₁ : DefinitionStore}
    {next : TriggerDefinition × TriggerPlugin → Option Datetime}
    (hs₁ : (definitionSchema executions).Consistent s₁) (hids : (resolved.map (·.1.id)).Nodup)
    (hfree : ∀ trigger ∈ resolved, s₁.row (.chronologicalTriggerState trigger.1.id) = none)
    (hstored : ∀ trigger ∈ resolved, (s₁.row (.trigger trigger.1.id)).isSome = true) :
    ∃ s₂, ({ store := s₁, pending := (stateRows next resolved).map .insert } :
      DefinitionSession).commit (definitionSchema executions) = .ok s₂ := by
  unfold Sql.OrmSession.commit
  rw [Sql.Schema.settle_inserts (nodupKeys_stateRows next hids)]
  · refine Sql.Schema.writeEach_ok hs₁ ?_ ?_ ?_
    · intro r hr
      obtain ⟨trigger, -, nextRunAt, -, rfl⟩ := mem_stateRows.mp hr
      rfl
    · intro r hr
      obtain ⟨trigger, -, nextRunAt, -, rfl⟩ := mem_stateRows.mp hr
      rfl
    · intro r hr j hj
      obtain ⟨trigger, htrigger, nextRunAt, -, rfl⟩ := mem_stateRows.mp hr
      obtain rfl : j = .trigger trigger.1.id := by simpa using hj
      exact hstored trigger htrigger
  · intro j hj
    obtain ⟨trigger, htrigger, rfl⟩ := List.mem_map.mp ((keys_stateRows next resolved).subset hj)
    exact hfree trigger htrigger

/-- What was asked for is there once the definition and the states are written. -/
theorem createdAs_of_rows {s₁ s₂ : DefinitionStore}
    {next : TriggerDefinition × TriggerPlugin → Option Datetime}
    (hs : (definitionSchema db.executions).Consistent db.definitions)
    (hnew : NewIds draws db.definitions) (hlinked : WellLinked request.tasks)
    (htriggers : createTriggerDefinitions triggerRegistry draws request.triggers = .ok resolved)
    (hnext : ∀ trigger ∈ resolved, firstOccurrence now trigger = .ok (next trigger))
    (hrow₁ : ∀ k, s₁.row k = savedRow db.definitions (requested draws request) k)
    (hrow₂ : ∀ k, s₂.row k = ((stateRows next resolved).dlookup k).or (s₁.row k)) :
    CreatedAs draws now request resolved db { db with definitions := s₂ } where
  loads := by
    have hdistinct := distinct_requested hnew hlinked
    refine load_of_stored hdistinct ((stored_of_saved hdistinct hrow₁).of_rows fun k hk => ?_)
    have hnone : (stateRows next resolved).dlookup k = none := by
      refine List.dlookup_eq_none.mpr fun hkey => ?_
      obtain ⟨trigger, -, rfl⟩ := List.mem_map.mp ((keys_stateRows next resolved).subset hkey)
      exact hk trigger.1.id rfl
    rw [hrow₂, hnone, Option.none_or]
  states := by
    intro trigger htrigger nextRunAt
    show s₂.row _ = _ ↔ _
    rw [hrow₂, dlookup_stateRows (resolved_nodup hnew hlinked htriggers) htrigger, hrow₁,
      saved_state_none hs hnew (mem_requested htriggers htrigger), Option.or_none,
      hnext trigger htrigger]
    simp
  others := by
    intro k hk
    have hnone : (stateRows next resolved).dlookup k = none := by
      refine List.dlookup_eq_none.mpr fun hkey => ?_
      obtain ⟨trigger, htrigger, rfl⟩ :=
        List.mem_map.mp ((keys_stateRows next resolved).subset hkey)
      exact hk ⟨trigger.1, mem_requested htriggers htrigger, rfl⟩
    show s₂.row k = _
    rw [hrow₂, hnone, Option.none_or, hrow₁, saved_outside hs hnew hk]
  executions := rfl

/-- What a request that is stored has listed, and what its triggers have said. -/
theorem inOrder_of_create (hs : (definitionSchema db.executions).Consistent db.definitions)
    (hnew : NewIds draws db.definitions) (htexts : TextsFit request)
    (hfits : ∀ t ∈ request.tasks, fitsInteger t.maxTries = true)
    (htasks : validateTasks taskRegistry request.tasks = .ok ())
    (htriggers : createTriggerDefinitions triggerRegistry draws request.triggers = .ok resolved)
    {r : UUID × Database}
    (h : create taskRegistry triggerRegistry draws now db request = .ok r) :
    Graph.InOrder (·.key) (·.dependencies) request.tasks ∧
      ∀ trigger ∈ resolved, ∃ next, firstOccurrence now trigger = .ok next := by
  have hformed := (validateTasks_ok.mp htasks).1
  have hdistinct := distinct_requested hnew hformed.linked
  rw [create_eq hformed.linked htasks htriggers] at h
  obtain ⟨s₁, hwrite, h⟩ := bind_eq_ok.mp h
  obtain ⟨x, hinitialize, -⟩ := bind_eq_ok.mp h
  refine ⟨?_, initializeEach_cases hinitialize⟩
  rw [← saveable_requested_iff hs hnew hformed.notSelf htexts hfits]
  exact (writeDefinition_cases hs hdistinct (databaseError_ok_iff.mp hwrite)).1

/-- Nothing else keeps it from being stored. -/
theorem create_of_inOrder (hs : (definitionSchema db.executions).Consistent db.definitions)
    (hnew : NewIds draws db.definitions) (htexts : TextsFit request)
    (hfits : ∀ t ∈ request.tasks, fitsInteger t.maxTries = true)
    (htasks : validateTasks taskRegistry request.tasks = .ok ())
    (htriggers : createTriggerDefinitions triggerRegistry draws request.triggers = .ok resolved)
    (horder : Graph.InOrder (·.key) (·.dependencies) request.tasks)
    (hoccurs : ∀ trigger ∈ resolved, ∃ next, firstOccurrence now trigger = .ok next) :
    ∃ db', create taskRegistry triggerRegistry draws now db request =
        .ok (draws.workflowDefinitionId, db') ∧ CreatedAs draws now request resolved db db' := by
  have hformed := (validateTasks_ok.mp htasks).1
  have hlinked := hformed.linked
  have hdistinct := distinct_requested hnew hlinked
  have hsaveable := (saveable_requested_iff hs hnew hformed.notSelf htexts hfits).mpr horder
  obtain ⟨s₁, hwrite⟩ := writeDefinition_ok hs hdistinct hsaveable
  obtain ⟨-, hs₁, hrow₁⟩ := writeDefinition_cases hs hdistinct hwrite
  have hids := resolved_nodup hnew hlinked htriggers
  have hfree : ∀ trigger ∈ resolved,
      s₁.row (.chronologicalTriggerState trigger.1.id) = none := by
    intro trigger htrigger
    rw [hrow₁, saved_state_none hs hnew (mem_requested htriggers htrigger)]
  have hstored : ∀ trigger ∈ resolved, (s₁.row (.trigger trigger.1.id)).isSome = true := by
    intro trigger htrigger
    rw [hrow₁, savedRow_trigger hdistinct (mem_requested htriggers htrigger)]
    rfl
  have hnext : ∀ trigger ∈ resolved, firstOccurrence now trigger =
      .ok ((firstOccurrence now trigger).toOption.join) := by
    intro trigger htrigger
    obtain ⟨next, hnext⟩ := hoccurs trigger htrigger
    rw [hnext]
    rfl
  obtain ⟨s₂, hcommit⟩ := commit_states_ok hs₁ hids hfree hstored
  refine ⟨{ db with definitions := s₂ }, ?_, createdAs_of_rows hs hnew hlinked htriggers hnext
    hrow₁ (commit_states hs₁ hids hfree hcommit)⟩
  rw [create_eq hlinked htasks htriggers]
  refine bind_eq_ok.mpr ⟨s₁, databaseError_ok_iff.mpr hwrite, ?_⟩
  refine bind_eq_ok.mpr ⟨_, initializeEach_ok hnext, ?_⟩
  exact bind_eq_ok.mpr ⟨s₂, databaseError_ok_iff.mpr hcommit, rfl⟩

/-- **When a request is stored.**  A request that passes the validation is stored if it lists
every task after those it depends on and every trigger's plugin can tell its first occurrence,
and only then.  The values fit their columns, and the driver is taken to bind as many parameters
as there are tasks or triggers. -/
theorem create_exact (hs : (definitionSchema db.executions).Consistent db.definitions)
    (hnew : NewIds draws db.definitions) (htexts : TextsFit request)
    (hfits : ∀ t ∈ request.tasks, fitsInteger t.maxTries = true)
    (htasks : validateTasks taskRegistry request.tasks = .ok ())
    (htriggers : createTriggerDefinitions triggerRegistry draws request.triggers = .ok resolved) :
    (∃ db', create taskRegistry triggerRegistry draws now db request =
        .ok (draws.workflowDefinitionId, db') ∧
      CreatedAs draws now request resolved db db') ↔
      Graph.InOrder (·.key) (·.dependencies) request.tasks ∧
        ∀ trigger ∈ resolved, ∃ next, firstOccurrence now trigger = .ok next := by
  constructor
  · intro ⟨db', hcreate, _⟩
    exact inOrder_of_create hs hnew htexts hfits htasks htriggers hcreate
  · intro ⟨horder, hoccurs⟩
    exact create_of_inOrder hs hnew htexts hfits htasks htriggers horder hoccurs

/-- Identifiers for an empty store. -/
def firstDraws : DefinitionDraws where
  workflowDefinitionId := 1
  taskDefinitionId := fun key => Encodable.encode (key.toList.map Char.toNat)
  triggerDefinitionId := id

theorem newIds_firstDraws : NewIds firstDraws .empty where
  workflow := rfl
  tasks := fun _ => rfl
  triggers := fun _ => rfl
  taskIds := fun _ _ h =>
    String.toList_injective (Function.Injective.list_map (fun _ _ => Char.toNat_inj.mp)
      (Encodable.encode_injective h))
  triggerIds := Function.injective_id

/-- A diamond, listed from its start. -/
def diamondRequest : CreateWorkflowDefinition where
  name := "diamond"
  description := ""
  tasks := [collecting "a" [], collecting "b" ["a"], collecting "c" ["a"],
    collecting "d" ["b", "c"]]
  triggers :=
    [{ pluginType := "interval", configuration := [("interval_seconds", .int 60)], enabled := true }]
  enabled := true

/-- Two tasks, the first of which depends on the second. -/
def childFirst : CreateWorkflowDefinition where
  name := "child first"
  description := ""
  tasks := [collecting "load" ["extract"], collecting "extract" []]
  triggers := []
  enabled := true

theorem validateTasks_diamond : validateTasks .discovered diamondRequest.tasks = .ok () := by
  rfl

theorem validateTasks_childFirst : validateTasks .discovered childFirst.tasks = .ok () := by
  rfl

theorem textsFit_diamond : TextsFit diamondRequest :=
  ⟨by decide, by decide, by decide, by decide⟩

theorem textsFit_childFirst : TextsFit childFirst :=
  ⟨by decide, by decide, by decide, by decide⟩

theorem inOrder_diamond : Graph.InOrder (·.key) (·.dependencies) diamondRequest.tasks :=
  (((Graph.inOrder_nil.snoc (by simp [collecting])).snoc (by simp [collecting])).snoc
    (by simp [collecting])).snoc (by simp [collecting])

/-- A diamond listed from its start is stored, with the first occurrence of its trigger. -/
theorem create_exact_sample : ∃ db', create .discovered .discovered firstDraws (fun _ => 0)
    { definitions := .empty, executions := .empty } diamondRequest = .ok (1, db') ∧
    CreatedAs firstDraws (fun _ => 0) diamondRequest
      [(requestedTrigger firstDraws (diamondRequest.triggers.head (by decide), 0),
        IntervalTrigger.plugin)]
      { definitions := .empty, executions := .empty } db' := by
  refine (create_exact consistent_empty newIds_firstDraws textsFit_diamond
    (by simp [diamondRequest, collecting, fitsInteger]) validateTasks_diamond rfl).mpr
      ⟨inOrder_diamond, ?_⟩
  intro trigger htrigger
  rw [List.mem_singleton] at htrigger
  subst htrigger
  exact ⟨some 60000000, rfl⟩

/-- A task listed before the one it depends on is validated and not stored. -/
theorem child_first_refused : NewIds firstDraws .empty ∧
    (definitionSchema .empty).Consistent .empty ∧
    TextsFit childFirst ∧ (∀ t ∈ childFirst.tasks, fitsInteger t.maxTries = true) ∧
    validateTasks .discovered childFirst.tasks = .ok () ∧
    createTriggerDefinitions .discovered firstDraws childFirst.triggers = .ok [] ∧
    ¬ ∃ r, create .discovered .discovered firstDraws (fun _ => 0)
      { definitions := .empty, executions := .empty } childFirst = .ok r := by
  have hfits : ∀ t ∈ childFirst.tasks, fitsInteger t.maxTries = true := by
    simp [childFirst, collecting, fitsInteger]
  have hformed := (validateTasks_ok.mp validateTasks_childFirst).1
  refine ⟨newIds_firstDraws, consistent_empty, textsFit_childFirst, hfits,
    validateTasks_childFirst, rfl, ?_⟩
  rintro ⟨r, hcreate⟩
  rw [create_eq hformed.linked validateTasks_childFirst rfl] at hcreate
  obtain ⟨s₁, hwrite, -⟩ := bind_eq_ok.mp hcreate
  have hsaveable := (writeDefinition_cases consistent_empty
    (distinct_requested newIds_firstDraws hformed.linked) (databaseError_ok_iff.mp hwrite)).1
  have horder := (saveable_requested_iff consistent_empty newIds_firstDraws hformed.notSelf
    textsFit_childFirst hfits).mp hsaveable
  have := horder [] (collecting "load" ["extract"]) [collecting "extract" []] rfl "extract"
    (by simp [collecting])
  simp at this

end WorkflowDefinitionService

end AutomationPlatform
